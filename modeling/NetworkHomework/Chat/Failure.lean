import NetworkHomework.Chat.Broadcast

/-!
# A connection that has failed

Every loop that sends checks the result of `send` and calls `DIE` on a negative one:
the first addressed member whose connection has failed ends the server process, with the
mutexes that the thread holds still held.  Up to there the members are reached in list
order.  While no addressed member has failed, the text goes to all of them once and the
mutexes are released.

The login notice takes its first node before it takes the lock: the members that were
linked in front of it in between are not reached.
-/

namespace NetworkHomework.Chat

open LinkedHeap

/-- How a walk over the members `list` ends, in a section under `member_mutex` or not. -/
inductive Outcome (fails addressed : Member → Bool) (thread : ℕ) (text : List UInt8)
    (list : List Member) (underMutex : Bool) (s : Server) : Except Stop Server → Prop
  | completed {s' : Server} (hnone : ¬ SomeFail fails addressed list)
      (hsent : s'.sent = s.sent ++ sendsOf thread text (list.filter addressed))
      (hmessage : s'.messageMutex = s.messageMutex) (hmember : s'.memberMutex = false) :
      Outcome fails addressed thread text list underMutex s (.ok s')
  | exited {s' : Server} (hsome : SomeFail fails addressed list)
      (hsent : s'.sent = s.sent ++ sendsOf thread text (reached fails addressed list))
      (hmessage : s'.messageMutex = s.messageMutex) (hmember : s'.memberMutex = underMutex) :
      Outcome fails addressed thread text list underMutex s (.error (.exit s'))

variable {fails addressed : Member → Bool} {thread : ℕ} {text : List UInt8} {s : Server}
  {members queued : List ℕ} {fuel : ℕ}

theorem outcome_lockedLoop {before rest : List ℕ}
    (hmembers : s.members.Represents (before ++ rest)) (hempty : rest = [] → before = [])
    (hfuel : (before ++ rest).length < fuel) :
    Outcome fails addressed thread text (s.members.values rest) true s
      (lockedLoop fuel fails addressed thread text rest.head? s) := by
  rw [lockedLoop_rest hmembers hempty hfuel]
  by_cases hsome : SomeFail fails addressed (s.members.values rest)
  · simp only [if_pos hsome]
    exact .exited hsome rfl rfl rfl
  · simp only [if_neg hsome, reached_of_not_someFail hsome]
    exact .completed hsome rfl rfl rfl

theorem outcome_exitNotice (hmembers : s.members.Represents members)
    (hidle : s.memberMutex = false) (hfuel : members.length < fuel) (client : Member) :
    Outcome fails (fun _ => true) client.thread text (s.members.values members) false s
      (exitNotice fuel fails client text s) := by
  have hloop := @Represents.whileLoop_eq _ _ _ s.members [] members hmembers Stop.fault
    (sendOne fails (fun _ => true) client.thread text) fuel hfuel s
  rw [exitNotice, hmembers.first_eq, hloop, foldlM_sendOne]
  by_cases hsome : SomeFail fails (fun _ => true) (s.members.values members)
  · simp only [if_pos hsome]
    exact .exited hsome rfl rfl hidle
  · simp only [if_neg hsome, reached_of_not_someFail hsome]
    exact .completed hsome rfl rfl hidle

/-- What one message of the dispatcher does. -/
theorem outcome_sendMessage (hmembers : s.members.Represents members)
    (hfuel : members.length < fuel) {m : Message} (hdeliverable : m.Deliverable) :
    Outcome fails m.addressed m.thread m.line (s.members.values members) true s
      (sendMessage fuel fails m s) := by
  rw [sendMessage_eq hdeliverable, hmembers.first_eq]
  exact @outcome_lockedLoop fails m.addressed m.thread m.line s fuel [] members hmembers
    (fun _ => rfl) hfuel

/-- A whole round, for the message at the head of the queue. -/
theorem sendToClient_outcome (h : s.Listed members queued) (hfuel : members.length < fuel)
    (hfuel' : queued.length < fuel) {a : ℕ} {rest : List ℕ} (hqueued : queued = a :: rest)
    {m : Message} (hm : s.messages.valueAt a = some m) (hdeliverable : m.Deliverable) :
    (¬ SomeFail fails m.addressed (s.members.values members) →
      ∃ s', sendToClient fuel fails s = .ok s' ∧
        s'.sent = s.sent ++ (List.replicate queued.length
          (sendsOf m.thread m.line ((s.members.values members).filter m.addressed))).flatten ∧
        s'.messageMutex = false ∧ s'.memberMutex = false) ∧
    (SomeFail fails m.addressed (s.members.values members) →
      ∃ s', sendToClient fuel fails s = .error (.exit s') ∧
        s'.sent = s.sent ++
          sendsOf m.thread m.line (reached fails m.addressed (s.members.values members)) ∧
        s'.messageMutex = true ∧ s'.memberMutex = true) := by
  constructor
  · intro hnone
    obtain ⟨messages, hround, -⟩ := sendToClient_eq h hfuel hfuel' hqueued hm hdeliverable hnone
    exact ⟨_, hround, rfl, h.messageMutex, h.memberMutex⟩
  · intro hsome
    have hstop := @lockedLoop_eq fails m.addressed m.thread m.line { s with messageMutex := true }
      members fuel h.members hfuel
    simp only [if_pos hsome] at hstop
    have hmessage := (sendMessage_eq hdeliverable { s with messageMutex := true }).trans hstop
    exact ⟨_, sendToClient_error h hfuel' hqueued hm hmessage, rfl, rfl, rfl⟩

namespace TwoMembers

def ann : Member := ⟨4, 0, CString.lit "ann", CString.lit "blue", 0⟩

def bob : Member := ⟨5, 1, CString.lit "bob", CString.lit "blue", 1⟩

def cid : Member := ⟨6, 2, CString.lit "cid", CString.lit "red", 2⟩

def notice : List UInt8 := CString.lit "!!Server Note Client cid Login red\n"

/-- Bob before Ann on the list, and no message queued. -/
def server : Server where
  messages := ⟨fun _ => none, none⟩
  members := ⟨fun a => if a = 2 then some ⟨bob, none, some 1⟩ else
    if a = 1 then some ⟨ann, some 2, none⟩ else none, some 2⟩
  sent := []
  messageMutex := false
  memberMutex := false

theorem listed_server : server.Listed [2, 1] [] := ⟨by decide, by decide, rfl, rfl⟩

end TwoMembers

end NetworkHomework.Chat
