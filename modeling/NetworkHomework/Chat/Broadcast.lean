import NetworkHomework.Chat.Queue
import NetworkHomework.Chat.Routing

/-!
# The loops that send

Four loops send to the members: the two cases of the dispatcher and the login notice,
each in a section under `member_mutex`, and the exit notice, under no lock.  All do the
same thing for a member: skip it, or send to it, and `DIE` when the send fails.

`Server` is what the threads share.  A loop ends with the state it leaves, or with a
`Stop`: the process exits in some state, mutexes held and all, or its behaviour is
undefined.
-/

namespace NetworkHomework.Chat

open LinkedHeap CString

/-- A text handed to `send` for a member, on behalf of the session `thread`. -/
structure Send where
  member : Member
  thread : ℕ
  text : List UInt8
  deriving DecidableEq

-- the mutexes are those the running thread holds
structure Server where
  messages : MessageHeap
  members : MemberHeap
  sent : List Send
  messageMutex : Bool
  memberMutex : Bool

inductive Stop
  | exit (s : Server)
  | fault (fault : Fault)
  | badText

/-- `if (send(temp->fd, ...) < 0) DIE(...)`, for an addressed member. -/
def sendOne (fails addressed : Member → Bool) (thread : ℕ) (text : List UInt8) (s : Server)
    (temp : Member) : Except Stop Server :=
  if addressed temp then
    if fails temp then .error (.exit s)
    else .ok { s with sent := s.sent ++ [⟨temp, thread, text⟩] }
  else .ok s

/-- A loop over the members in a section under `member_mutex`, from the node `temp`. -/
def lockedLoop (fuel : ℕ) (fails addressed : Member → Bool) (thread : ℕ) (text : List UInt8)
    (temp : Option ℕ) (s : Server) : Except Stop Server := do
  let s := { s with memberMutex := true }
  let size ← (memberListSize s.members fuel).mapError .fault
  let s ← s.members.forLoop .fault (sendOne fails addressed thread text) size temp s
  return { s with memberMutex := false }

/-- `case 0` of the dispatcher. -/
def sendToLocalGroup (fuel : ℕ) (fails : Member → Bool) (tempM : Message) (text : List UInt8)
    (s : Server) : Except Stop Server :=
  lockedLoop fuel fails (Target.localGroup.addresses tempM.senderGroup) tempM.thread text
    s.members.first s

/-- `case 1` of the dispatcher. -/
def sendToNameOrGroup (fuel : ℕ) (fails : Member → Bool) (tempM : Message)
    (nameOrGroup text : List UInt8) (s : Server) : Except Stop Server :=
  lockedLoop fuel fails ((Target.nameOrGroup nameOrGroup).addresses tempM.senderGroup)
    tempM.thread text s.members.first s

/-- The login notice of a session; it read `temp` before it took the lock. -/
def loginNotice (fuel : ℕ) (fails : Member → Bool) (client : Member) (text : List UInt8)
    (temp : Option ℕ) (s : Server) : Except Stop Server :=
  lockedLoop fuel fails (fun _ => true) client.thread text temp s

/-- The exit notice of a session. -/
def exitNotice (fuel : ℕ) (fails : Member → Bool) (client : Member) (text : List UInt8)
    (s : Server) : Except Stop Server :=
  s.members.whileLoop .fault (sendOne fails (fun _ => true) client.thread text) fuel
    s.members.first s

/-- The body of the dispatcher's loop, for the message `tempM`. -/
def sendMessage (fuel : ℕ) (fails : Member → Bool) (tempM : Message) (s : Server) :
    Except Stop Server :=
  match route tempM.message with
  | none => .error .badText
  | some (target, sendMessage) =>
      let text := nameSendMessage tempM sendMessage
      if shortMess ≤ text.length then .error .badText
      else
        match target with
        | .localGroup => sendToLocalGroup fuel fails tempM text s
        | .nameOrGroup target => sendToNameOrGroup fuel fails tempM target text s

/-- The dispatcher's loop.  `tempM` is read from and never moved. -/
def sendLoop (fuel : ℕ) (fails : Member → Bool) (tempM : Option ℕ) :
    ℕ → Server → Except Stop Server
  | 0, s => .ok s
  | n + 1, s => do
      let node ← (s.messages.read tempM).mapError .fault
      let s ← sendMessage fuel fails node.value s
      sendLoop fuel fails tempM n s

/-- One round of `send_to_client`. -/
def sendToClient (fuel : ℕ) (fails : Member → Bool) (s : Server) : Except Stop Server := do
  let s := { s with messageMutex := true }
  let size ← (messageListSize s.messages fuel).mapError .fault
  let s ← sendLoop fuel fails s.messages.first size s
  let (messages, _) ← (drainLoop fuel s.messages []).mapError .fault
  return { s with messages, messageMutex := false }

/-! ## One walk over the members -/

variable {fails addressed : Member → Bool} {thread : ℕ} {text : List UInt8} {s : Server}
  {members queued : List ℕ} {fuel : ℕ}

/-- The sends of one text to `targets`. -/
def sendsOf (thread : ℕ) (text : List UInt8) (targets : List Member) : List Send :=
  targets.map fun temp => ⟨temp, thread, text⟩

/-- The addressed members before the first of them whose send fails. -/
def reached (fails addressed : Member → Bool) (list : List Member) : List Member :=
  (list.filter addressed).takeWhile fun temp => !fails temp

/-- A send to some addressed member fails. -/
def SomeFail (fails addressed : Member → Bool) (list : List Member) : Prop :=
  ∃ temp ∈ list, addressed temp ∧ fails temp

instance (list : List Member) : Decidable (SomeFail fails addressed list) :=
  inferInstanceAs (Decidable (∃ temp ∈ list, _))

theorem reached_of_not_someFail {list : List Member} (h : ¬ SomeFail fails addressed list) :
    reached fails addressed list = list.filter addressed := by
  apply List.takeWhile_eq_self_iff.mpr
  intro temp hmem
  obtain ⟨hmem, haddressed⟩ := List.mem_filter.mp hmem
  by_contra hfails
  exact h ⟨temp, hmem, haddressed, by simpa using hfails⟩

/-- The walk reaches the members in order, and the process exits at the first failure. -/
theorem foldlM_sendOne (list : List Member) (s : Server) :
    list.foldlM (sendOne fails addressed thread text) s =
      let s' := { s with sent := s.sent ++ sendsOf thread text (reached fails addressed list) }
      if SomeFail fails addressed list then .error (.exit s') else .ok s' := by
  induction list generalizing s with
  | nil => simp [SomeFail, reached, sendsOf, pure, Except.pure]
  | cons temp rest ih =>
      rw [List.foldlM_cons]
      by_cases haddressed : addressed temp
      · by_cases hfails : fails temp
        · have hsome : SomeFail fails addressed (temp :: rest) :=
            ⟨temp, by simp, haddressed, hfails⟩
          simp [sendOne, haddressed, hfails, hsome, reached, sendsOf, bind, Except.bind]
        · have hiff : SomeFail fails addressed (temp :: rest) ↔ SomeFail fails addressed rest := by
            simp [SomeFail, hfails]
          have hstep : sendOne fails addressed thread text s temp =
              .ok { s with sent := s.sent ++ [⟨temp, thread, text⟩] } := by
            simp [sendOne, haddressed, hfails]
          rw [hstep]
          show rest.foldlM _ _ = _
          rw [ih]
          simp [hiff, reached, sendsOf, haddressed, hfails]
      · have hiff : SomeFail fails addressed (temp :: rest) ↔ SomeFail fails addressed rest := by
          simp [SomeFail, haddressed]
        have hstep : sendOne fails addressed thread text s temp = .ok s := by
          simp [sendOne, haddressed]
        rw [hstep]
        show rest.foldlM _ _ = _
        rw [ih]
        simp [hiff, reached, haddressed]

/-- **A section under `member_mutex`**, from a node of the list on; it counts the whole list, which
is enough for the rest of it. -/
theorem lockedLoop_rest {before rest : List ℕ} (hmembers : s.members.Represents (before ++ rest))
    (hempty : rest = [] → before = []) (hfuel : (before ++ rest).length < fuel) :
    lockedLoop fuel fails addressed thread text rest.head? s =
      let sent := s.sent ++
        sendsOf thread text (reached fails addressed (s.members.values rest))
      if SomeFail fails addressed (s.members.values rest) then
        .error (.exit { s with sent, memberMutex := true })
      else .ok { s with sent, memberMutex := false } := by
  have hcount : (before ++ rest).length = 0 ∨ rest ≠ [] := by
    by_cases hrest : rest = []
    · exact .inl (by rw [hrest, hempty hrest]; rfl)
    · exact .inr hrest
  have hloop := hmembers.forLoop_take Stop.fault (sendOne fails addressed thread text) hcount
    { s with memberMutex := true }
  rw [List.take_of_length_le (by simp), foldlM_sendOne] at hloop
  simp only [lockedLoop, memberListSize, hmembers.size_eq hfuel, Except.mapError, bind,
    Except.bind, hloop]
  split_ifs <;> rfl

theorem lockedLoop_eq (hmembers : s.members.Represents members) (hfuel : members.length < fuel) :
    lockedLoop fuel fails addressed thread text s.members.first s =
      let sent := s.sent ++
        sendsOf thread text (reached fails addressed (s.members.values members))
      if SomeFail fails addressed (s.members.values members) then
        .error (.exit { s with sent, memberMutex := true })
      else .ok { s with sent, memberMutex := false } := by
  rw [hmembers.first_eq]
  exact @lockedLoop_rest fails addressed thread text s fuel [] members hmembers (fun _ => rfl) hfuel

/-- A send that does not stop the process leaves the lists as they are. -/
theorem sendOne_cases {temp : Member} {s' : Server}
    (h : sendOne fails addressed thread text s temp = .ok s') :
    s' = s ∨ s' = { s with sent := s.sent ++ [⟨temp, thread, text⟩] } := by
  unfold sendOne at h
  split_ifs at h
  · exact .inr (Except.ok.inj h).symm
  · exact .inl (Except.ok.inj h).symm

/-- A section that does not stop the process, from whatever node it starts. -/
theorem lockedLoop_cases {temp : Option ℕ} {s' : Server}
    (h : lockedLoop fuel fails addressed thread text temp s = .ok s') :
    ∃ size middle, memberListSize s.members fuel = .ok size ∧
      s.members.forLoop Stop.fault (sendOne fails addressed thread text) size temp
        { s with memberMutex := true } = .ok middle ∧
      s' = { middle with memberMutex := false } := by
  simp only [lockedLoop, bind, Except.bind] at h
  cases hsize : memberListSize s.members fuel with
  | error fault => simp [hsize, Except.mapError] at h
  | ok size =>
      simp only [hsize, Except.mapError] at h
      cases hloop : s.members.forLoop Stop.fault (sendOne fails addressed thread text) size temp
        { s with memberMutex := true } with
      | error stop => simp [hloop] at h
      | ok middle =>
          simp only [hloop] at h
          exact ⟨size, middle, rfl, hloop, (Except.ok.inj h).symm⟩

/-! ## A round of the dispatcher -/

/-- Between two sections: both lists are well formed and the thread holds no mutex. -/
structure Server.Listed (s : Server) (members queued : List ℕ) : Prop where
  members : s.members.Represents members
  queued : s.messages.Represents queued
  messageMutex : s.messageMutex = false
  memberMutex : s.memberMutex = false

/-- What one message does: a section for the members it is addressed to. -/
theorem sendMessage_eq {m : Message} (hdeliverable : m.Deliverable) (s : Server) :
    sendMessage fuel fails m s =
      lockedLoop fuel fails m.addressed m.thread m.line s.members.first s := by
  obtain ⟨hroute, hfits⟩ := hdeliverable
  obtain ⟨⟨target, rest⟩, hrouted⟩ := Option.isSome_iff_exists.mp hroute
  have hline : m.line = nameSendMessage m rest := by simp [Message.line, hrouted]
  have haddressed : m.addressed = target.addresses m.senderGroup := by
    funext temp
    simp [Message.addressed, hrouted]
  rw [hline] at hfits
  rw [hline, haddressed, sendMessage, hrouted]
  simp only [if_neg (Nat.not_le.mpr hfits)]
  cases target <;> rfl

/-- A text that cannot be taken apart, or a line that is too long, stops the dispatcher. -/
theorem sendMessage_of_not_deliverable {m : Message} (hnot : ¬ m.Deliverable) (s : Server) :
    sendMessage fuel fails m s = .error .badText := by
  rw [sendMessage]
  cases hrouted : route m.message with
  | none => rfl
  | some routed =>
      have hlong : shortMess ≤ (nameSendMessage m routed.2).length := by
        by_contra hshort
        refine hnot ⟨by simp [hrouted], ?_⟩
        simpa [Message.line, hrouted] using hshort
      simp only [if_pos hlong]

/-- The dispatcher's loop sends the message at `tempM` again in every iteration. -/
theorem sendLoop_eq (hmembers : s.members.Represents members) (hfuel : members.length < fuel)
    (hidle : s.memberMutex = false) {a : ℕ} {m : Message} (hm : s.messages.valueAt a = some m)
    (hdeliverable : m.Deliverable)
    (hnone : ¬ SomeFail fails m.addressed (s.members.values members)) (n : ℕ) :
    sendLoop fuel fails (some a) n s = .ok { s with sent := s.sent ++ (List.replicate n
      (sendsOf m.thread m.line ((s.members.values members).filter m.addressed))).flatten } := by
  obtain ⟨node, hnode, hvalue⟩ := Option.map_eq_some_iff.mp hm
  induction n generalizing s with
  | zero => simp [sendLoop]
  | succ n ih =>
      have hstep := @lockedLoop_eq fails m.addressed m.thread m.line s members fuel hmembers hfuel
      rw [if_neg hnone, reached_of_not_someFail hnone] at hstep
      have hrest := @ih { s with
        sent := s.sent ++ sendsOf m.thread m.line ((s.members.values members).filter m.addressed)
        memberMutex := false } hmembers rfl hm hnone hnode
      simp only [sendLoop, read_eq hnode, Except.mapError, bind, Except.bind, hvalue,
        sendMessage_eq hdeliverable, hstep, hrest, hidle]
      simp [List.replicate_succ]

/-- **A round that nothing stops.**  Each queued message stands for one more sending of the newest
one, and the queue is emptied. -/
theorem sendToClient_eq (h : s.Listed members queued) (hfuel : members.length < fuel)
    (hfuel' : queued.length < fuel) {a : ℕ} {rest : List ℕ} (hqueued : queued = a :: rest)
    {m : Message} (hm : s.messages.valueAt a = some m) (hdeliverable : m.Deliverable)
    (hnone : ¬ SomeFail fails m.addressed (s.members.values members)) :
    ∃ messages, sendToClient fuel fails s =
        .ok { s with messages, sent := s.sent ++ (List.replicate queued.length
          (sendsOf m.thread m.line ((s.members.values members).filter m.addressed))).flatten } ∧
      messages.first = none ∧ ∀ b, s.messages.cell b = none → messages.cell b = none := by
  have hfirst : s.messages.first = some a := by
    rw [h.queued.first_eq, hqueued]
    rfl
  obtain ⟨messages, hdrain, hempty, -, hdead⟩ := drainLoop_eq h.queued hfuel' []
  have hloop := @sendLoop_eq fails { s with messageMutex := true } members fuel h.members hfuel
    h.memberMutex a m hm hdeliverable hnone queued.length
  refine ⟨messages, ?_, hempty, hdead⟩
  simp only [sendToClient, messageListSize, h.queued.size_eq hfuel', hfirst, Except.mapError,
    bind, Except.bind, hloop, hdrain]
  simp [pure, Except.pure, h.messageMutex]

/-- **A round on an empty queue** changes nothing. -/
theorem sendToClient_nil (h : s.Listed members []) (hfuel : 0 < fuel) (fails : Member → Bool) :
    sendToClient fuel fails s = .ok s := by
  have hsize := h.queued.size_eq hfuel
  obtain ⟨fuel, rfl⟩ := Nat.exists_eq_succ_of_ne_zero (Nat.ne_of_gt hfuel)
  have hdrain : drainLoop (fuel + 1) s.messages [] = .ok (s.messages, []) := by
    rw [drainLoop, messageListSize, hsize]
    rfl
  simp only [sendToClient, messageListSize, hsize, Except.mapError, bind, Except.bind,
    sendLoop, List.length_nil, hdrain]
  simp [pure, Except.pure, ← h.messageMutex]

/-- **A round that something stops**: the first sending of the newest message fails for a member,
or its text cannot be delivered. -/
theorem sendToClient_error (h : s.Listed members queued) (hfuel' : queued.length < fuel)
    {a : ℕ} {rest : List ℕ} (hqueued : queued = a :: rest)
    {m : Message} (hm : s.messages.valueAt a = some m) {stop : Stop}
    (hstop : sendMessage fuel fails m { s with messageMutex := true } = .error stop) :
    sendToClient fuel fails s = .error stop := by
  have hfirst : s.messages.first = some a := by
    rw [h.queued.first_eq, hqueued]
    rfl
  obtain ⟨node, hnode, hvalue⟩ := Option.map_eq_some_iff.mp hm
  simp only [sendToClient, messageListSize, h.queued.size_eq hfuel', hfirst, hqueued,
    Except.mapError, bind, Except.bind, List.length_cons, sendLoop, read_eq hnode, hvalue, hstop]

end NetworkHomework.Chat
