import NetworkHomework.Chat.Header

/-!
# Where a message goes

The part of `send_to_client` that looks at the text of a message: the test for a
leading `"/W "`, the two calls of `strtok` on a copy of the text, and the line that is
sent to the members.  The result is `none` where the C program leaves its defined
behaviour: `strcpy` from the `NULL` that the second `strtok` returns when no target
follows, a text pointer moved past the end of the copy, or a line that does not fit
its buffer.
-/

namespace NetworkHomework.Chat

open CString

/-- `type` 0, or `type` 1 with `NameOrGroup`. -/
inductive Target
  | localGroup
  | nameOrGroup (target : List UInt8)
  deriving DecidableEq

def space : UInt8 := 32

/-- The target of a text, and the `SendMessage` that is left of it. -/
def route (message : List UInt8) : Option (Target × List UInt8) :=
  let pch := strtok space message
  if strncmp message (lit "/W ") 3 ≠ 0 then some (.localGroup, message)
  else
    match pch.bind fun token => strtok space (token.2.drop 1) with
    | none => none
    | some (nameOrGroup, rest) =>
        -- `pch += strlen(pch) + 1` goes one past the end of the text if the token ends it
        if rest = [] ∧ shortMess ≤ message.length + 1 then none
        else some (.nameOrGroup nameOrGroup, rest.drop 1)

/-- `NameSendMessage` -/
def nameSendMessage (m : Message) (sendMessage : List UInt8) : List UInt8 :=
  m.fromName ++ lit " : " ++ sendMessage ++ lit "\n"

theorem length_nameSendMessage (m : Message) (text : List UInt8) :
    (nameSendMessage m text).length = m.fromName.length + text.length + 4 := by
  simp only [nameSendMessage, List.length_append]
  rw [show (lit " : ").length = 3 from rfl, show (lit "\n").length = 1 from rfl]
  omega

/-- The members of a target, `case 0` and `case 1` of the dispatcher. -/
def Target.addresses (senderGroup : List UInt8) : Target → Member → Bool
  | .localGroup, temp => strcmp senderGroup temp.group = 0
  | .nameOrGroup target, temp => strcmp temp.group target = 0 ∨ strcmp temp.name target = 0

/-- A message is for a member. -/
def Message.addressed (m : Message) (temp : Member) : Bool :=
  (route m.message).any fun routed => routed.1.addresses m.senderGroup temp

/-- The line a message is delivered as. -/
def Message.line (m : Message) : List UInt8 :=
  nameSendMessage m ((route m.message).elim [] Prod.snd)

/-- The dispatcher can take the message apart and put its line together. -/
def Message.Deliverable (m : Message) : Prop :=
  (route m.message).isSome ∧ m.line.length < shortMess

instance (m : Message) : Decidable m.Deliverable := inferInstanceAs (Decidable (_ ∧ _))

end NetworkHomework.Chat
