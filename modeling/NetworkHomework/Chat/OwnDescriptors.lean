import NetworkHomework.Chat.Descriptors
import NetworkHomework.Chat.Threads

/-!
# Own descriptors

Every step of the server is a change of the members and the descriptors, or none.  So
in every run a listed member has its own open descriptor exactly if no session stands
between its `close` and the section that unlinks its member, and in these states all
sends of the dispatcher go to the connections they are meant for.
-/

namespace NetworkHomework.Chat

open LinkedHeap

def ThreadPc.phase : ThreadPc → Phase
  | .welcome | .recvName | .testSize | .readSize | .writeRoster _ | .sendRoster _ | .recvGroup
  | .readFirst | .loginNotice _ | .link => .unlinked
  | .usage | .recvLoop | .queue _ | .exitFirst | .exitSend _ | .exitTest _ | .exitAdvance _
  | .close => .linked
  | .unlink => .closed
  | .returned => .gone

def ChatServer.descriptors (s : ChatServer) : Descriptors where
  members := s.server.members
  table := s.table
  accepted := s.accepted
  sessions := s.threads.map fun th => (th.client, th.pc.phase)

/-! ## Every step of the server is a change or none -/

variable {s s' : ChatServer} {t fuel : ℕ} {th : Thread}

theorem descriptors_setPc (s : ChatServer) (t : ℕ) (th : Thread) (pc : ThreadPc) :
    (s.setPc t th pc).descriptors =
      { s.descriptors with sessions := s.descriptors.sessions.set t (th.client, pc.phase) } := by
  simp [ChatServer.descriptors, ChatServer.setPc, List.map_set]

theorem sessions_of_thread (hth : s.threads[t]? = some th) :
    s.descriptors.sessions[t]? = some (th.client, th.pc.phase) := by
  simp [ChatServer.descriptors, hth]

/-- A thread that stays in its phase leaves its session as it is. -/
theorem sessions_set_same (hth : s.threads[t]? = some th) {pc : ThreadPc}
    (hphase : pc.phase = th.pc.phase) :
    s.descriptors.sessions.set t (th.client, pc.phase) = s.descriptors.sessions := by
  obtain ⟨hlt, hget⟩ := List.getElem?_eq_some_iff.mp (sessions_of_thread hth)
  rw [hphase, ← hget, List.set_getElem_self]

theorem descriptors_setPc_same {middle : ChatServer} (hth : s.threads[t]? = some th)
    (hmiddle : middle.descriptors = s.descriptors) {pc : ThreadPc}
    (hphase : pc.phase = th.pc.phase) : (middle.setPc t th pc).descriptors = s.descriptors := by
  rw [descriptors_setPc, hmiddle, sessions_set_same hth hphase]

theorem descriptors_sendTo {temp : Member} {thread : ℕ} {text : List UInt8}
    (h : s.sendTo temp thread text = some s') : s'.descriptors = s.descriptors := by
  unfold ChatServer.sendTo at h
  split_ifs at h
  obtain rfl := Option.some.inj h
  rfl

theorem descriptors_sendOwn {text : List UInt8} (h : s.sendOwn th text = some s') :
    s'.descriptors = s.descriptors := by
  obtain ⟨client, -, hsend⟩ := Option.bind_eq_some_iff.mp h
  exact descriptors_sendTo hsend

/-- A section under `member_mutex` that sends leaves the two lists alone. -/
theorem lists_lockedLoop {fails addressed : Member → Bool} {thread : ℕ} {text : List UInt8}
    {temp : Option ℕ} {server server' : Server}
    (h : lockedLoop fuel fails addressed thread text temp server = .ok server') :
    server'.members = server.members ∧ server'.messages = server.messages := by
  obtain ⟨size, middle, -, hloop, rfl⟩ := lockedLoop_cases h
  have hkept : middle.members = server.members ∧ middle.messages = server.messages := by
    refine @forLoop_preserves _ _ _ _ _ _
      (fun s : Server => s.members = server.members ∧ s.messages = server.messages) ?_ _ _ _ _
      hloop ⟨rfl, rfl⟩
    intro s member s' hbody hs
    rcases sendOne_cases hbody with rfl | rfl
    · exact hs
    · exact hs
  exact hkept

theorem writeClient_cases {f : Member → Member} (h : s.writeClient th f = some s') :
    ∃ node, s.server.members.cell th.client = some node ∧
      s' = { s with server := { s.server with members := { s.server.members with
        cell := Function.update s.server.members.cell th.client
          (some { node with value := f node.value }) } } } := by
  obtain ⟨members, hwrite, rfl⟩ := Option.map_eq_some_iff.mp h
  have hok := toOption_eq_some_iff.mp hwrite
  cases hcell : s.server.members.cell th.client with
  | none => simp [LinkedHeap.write, hcell] at hok
  | some node =>
      rw [write_eq hcell] at hok
      obtain rfl := Except.ok.inj hok
      exact ⟨node, rfl, rfl⟩

/-- A member is written while its session has not linked it. -/
theorem change_writeClient (hth : s.threads[t]? = some th) {f : Member → Member} {pc : ThreadPc}
    (hunlinked : th.pc.phase = .unlinked) (hphase : pc.phase = th.pc.phase)
    (hfd : ∀ m, (f m).fd = m.fd) (hconnection : ∀ m, (f m).connection = m.connection)
    (h : (s.writeClient th f).map (ChatServer.setPc · t th pc) = some s') :
    s.descriptors.Change s'.descriptors := by
  have hsession := sessions_of_thread hth
  rw [hunlinked] at hsession
  obtain ⟨middle, hwrite, rfl⟩ := Option.map_eq_some_iff.mp h
  obtain ⟨node, hnode, rfl⟩ := writeClient_cases hwrite
  have hchange := Descriptors.Change.name hsession hnode (hfd node.value) (hconnection node.value)
  have hset := sessions_set_same hth hphase
  rw [descriptors_setPc]
  convert hchange using 1
  simpa [ChatServer.descriptors] using hset

theorem change_recv (hth : s.threads[t]? = some th) {r : Received}
    (h : s.recv t th r = some s') :
    s'.descriptors = s.descriptors ∨ s.descriptors.Change s'.descriptors := by
  unfold ChatServer.recv at h
  split at h
  case h_1 hpc =>
      refine .inr (change_writeClient hth ?_ ?_ ?_ ?_ h) <;> simp [hpc, ThreadPc.phase]
  case h_2 hpc =>
      refine .inr (change_writeClient hth ?_ ?_ ?_ ?_ h) <;> simp [hpc, ThreadPc.phase]
  case h_3 hpc =>
      left
      split at h
      · obtain rfl := Option.some.inj h
        exact descriptors_setPc_same hth rfl (by rw [hpc]; rfl)
      · obtain rfl := Option.some.inj h
        exact descriptors_setPc_same hth rfl (by rw [hpc]; rfl)
  case h_4 => cases h

theorem change_queue (hth : s.threads[t]? = some th) {a : ℕ} {prev next : Option ℕ}
    (h : s.queue t th a prev next = some s') : s'.descriptors = s.descriptors := by
  unfold ChatServer.queue at h
  split at h
  case h_1 hpc =>
      split_ifs at h
      obtain ⟨client, -, hlink⟩ := Option.bind_eq_some_iff.mp h
      obtain ⟨messages, -, rfl⟩ := Option.map_eq_some_iff.mp hlink
      exact descriptors_setPc_same hth rfl (by rw [hpc]; rfl)
  case h_2 => cases h

/-- A statement or section of a session: only `link`, `close` and `unlink` change anything. -/
theorem change_go (hth : s.threads[t]? = some th) (h : s.go t th fuel = some s') :
    s'.descriptors = s.descriptors ∨ s.descriptors.Change s'.descriptors := by
  have hsession := sessions_of_thread hth
  have hown : ∀ {text : List UInt8} {pc : ThreadPc}, pc.phase = th.pc.phase →
      (s.sendOwn th text).map (ChatServer.setPc · t th pc) = some s' →
      s'.descriptors = s.descriptors := by
    intro text pc hphase h
    obtain ⟨middle, hsend, rfl⟩ := Option.map_eq_some_iff.mp h
    exact descriptors_setPc_same hth (descriptors_sendOwn hsend) hphase
  cases hpc : th.pc <;> simp only [ChatServer.go, hpc] at h
  case welcome => exact .inl (hown (by rw [hpc]; rfl) h)
  case testSize =>
      obtain ⟨size, -, rfl⟩ := Option.map_eq_some_iff.mp h
      left
      split_ifs <;> exact descriptors_setPc_same hth rfl (by rw [hpc]; rfl)
  case readSize =>
      obtain ⟨size, -, rfl⟩ := Option.map_eq_some_iff.mp h
      exact .inl (descriptors_setPc_same hth rfl (by rw [hpc]; rfl))
  case writeRoster size =>
      obtain ⟨text, -, rfl⟩ := Option.map_eq_some_iff.mp h
      exact .inl (descriptors_setPc_same hth rfl (by rw [hpc]; rfl))
  case sendRoster text => exact .inl (hown (by rw [hpc]; rfl) h)
  case readFirst =>
      obtain rfl := Option.some.inj h
      exact .inl (descriptors_setPc_same hth rfl (by rw [hpc]; rfl))
  case loginNotice temp =>
      obtain ⟨client, -, hnotice⟩ := Option.bind_eq_some_iff.mp h
      split_ifs at hnotice
      obtain ⟨server, hserver, rfl⟩ := Option.map_eq_some_iff.mp hnotice
      obtain ⟨hmembers, -⟩ := lists_lockedLoop (toOption_eq_some_iff.mp hserver)
      have hmiddle : ({ s with server } : ChatServer).descriptors = s.descriptors := by
        simp [ChatServer.descriptors, hmembers]
      exact .inl (descriptors_setPc_same hth hmiddle (by rw [hpc]; rfl))
  case link =>
      obtain ⟨members, hlink, rfl⟩ := Option.map_eq_some_iff.mp h
      rw [hpc] at hsession
      right
      rw [descriptors_setPc]
      exact .link hsession (toOption_eq_some_iff.mp hlink)
  case usage => exact .inl (hown (by rw [hpc]; rfl) h)
  case exitFirst =>
      obtain rfl := Option.some.inj h
      exact .inl (descriptors_setPc_same hth rfl (by rw [hpc]; rfl))
  case exitSend temp =>
      left
      cases temp with
      | none =>
          obtain rfl := Option.some.inj h
          exact descriptors_setPc_same hth rfl (by rw [hpc]; rfl)
      | some temp =>
          obtain ⟨client, -, hmember⟩ := Option.bind_eq_some_iff.mp h
          obtain ⟨member, -, hsent⟩ := Option.bind_eq_some_iff.mp hmember
          obtain ⟨middle, hsend, rfl⟩ := Option.map_eq_some_iff.mp hsent
          exact descriptors_setPc_same hth (descriptors_sendTo hsend) (by rw [hpc]; rfl)
  case exitTest temp =>
      obtain ⟨node, -, rfl⟩ := Option.map_eq_some_iff.mp h
      refine .inl (descriptors_setPc_same hth rfl ?_)
      rw [hpc]
      split_ifs <;> rfl
  case exitAdvance temp =>
      obtain ⟨node, -, rfl⟩ := Option.map_eq_some_iff.mp h
      exact .inl (descriptors_setPc_same hth rfl (by rw [hpc]; rfl))
  case close =>
      obtain ⟨client, hclient, rfl⟩ := Option.map_eq_some_iff.mp h
      rw [hpc] at hsession
      right
      rw [descriptors_setPc]
      exact .close hsession hclient
  case unlink =>
      obtain ⟨members, hdislink, hrest⟩ := Option.bind_eq_some_iff.mp h
      obtain ⟨members', hfree, rfl⟩ := Option.map_eq_some_iff.mp hrest
      rw [hpc] at hsession
      right
      rw [descriptors_setPc]
      exact .unlink hsession (toOption_eq_some_iff.mp hdislink) (toOption_eq_some_iff.mp hfree)
  all_goals cases h

theorem lists_sendMessage {fails : Member → Bool} {tempM : Message} {server server' : Server}
    (h : sendMessage fuel fails tempM server = .ok server') :
    server'.members = server.members ∧ server'.messages = server.messages := by
  by_cases hdeliverable : tempM.Deliverable
  · rw [sendMessage_eq hdeliverable] at h
    exact lists_lockedLoop h
  · rw [sendMessage_of_not_deliverable hdeliverable] at h
    cases h

/-- **Every step of the server** is a change of the members and the descriptors, or none. -/
theorem change_step {a : ChatAction} (h : s.step a = some s') :
    s'.descriptors = s.descriptors ∨ s.descriptors.Change s'.descriptors := by
  have hlength : s.descriptors.sessions.length = s.threads.length := by
    simp [ChatServer.descriptors]
  cases a with
  | accept fd =>
      simp only [ChatServer.step, ChatServer.accept] at h
      split_ifs at h with henabled
      obtain rfl := Option.some.inj h
      have hchange := @Descriptors.Change.accept s.descriptors fd henabled.1 henabled.2
      rw [hlength] at hchange
      exact .inr hchange
  | create a =>
      obtain ⟨fd, haccepted, hcreate⟩ := Option.bind_eq_some_iff.mp h
      split_ifs at hcreate with hdead
      obtain rfl := Option.some.inj hcreate
      have hchange := @Descriptors.Change.create s.descriptors fd a haccepted hdead
      rw [hlength] at hchange
      right
      convert hchange using 1
      simp [ChatServer.descriptors, ThreadPc.phase]
  | recv t r =>
      obtain ⟨th, hth, hrecv⟩ := Option.bind_eq_some_iff.mp h
      exact change_recv hth hrecv
  | queue t a prev next =>
      obtain ⟨th, hth, hqueue⟩ := Option.bind_eq_some_iff.mp h
      exact .inl (change_queue hth hqueue)
  | go t fuel =>
      obtain ⟨th, hth, hgo⟩ := Option.bind_eq_some_iff.mp h
      exact change_go hth hgo
  | beginRound fuel =>
      simp only [ChatServer.step, ChatServer.beginRound] at h
      split_ifs at h
      obtain ⟨size, -, rfl⟩ := Option.map_eq_some_iff.mp h
      exact .inl rfl
  | deliver fuel =>
      simp only [ChatServer.step, ChatServer.deliver] at h
      split at h
      · obtain ⟨node, -, hsend⟩ := Option.bind_eq_some_iff.mp h
        obtain ⟨server, hserver, rfl⟩ := Option.map_eq_some_iff.mp hsend
        obtain ⟨hmembers, -⟩ := lists_sendMessage (toOption_eq_some_iff.mp hserver)
        left
        simp [ChatServer.descriptors, hmembers]
      · cases h
  | endRound fuel =>
      simp only [ChatServer.step, ChatServer.endRound] at h
      split_ifs at h
      obtain ⟨drained, -, rfl⟩ := Option.map_eq_some_iff.mp h
      exact .inl rfl

/-! ## Every run -/

theorem owned_start : Owned ChatServer.start.descriptors [] where
  represents := represents_nil rfl
  session := by simp [ChatServer.start, ChatServer.descriptors]
  unlinked := by simp [ChatServer.start, ChatServer.descriptors]
  listed := by simp
  table := by simp [ChatServer.start, ChatServer.descriptors]
  accepted := by simp [ChatServer.start, ChatServer.descriptors]

theorem owned_of_reachable (h : chatServerSystem.Reachable s) :
    ∃ listed, Owned s.descriptors listed := by
  apply h.invariant
  · rintro s rfl
    exact ⟨[], owned_start⟩
  · rintro s a s' ⟨listed, hv⟩ - hstep
    rcases change_step hstep with heq | hchange
    · exact ⟨listed, heq ▸ hv⟩
    · exact hv.change hchange

/-- What a section of the dispatcher sends goes to listed members. -/
theorem sent_lockedLoop {fails addressed : Member → Bool} {thread : ℕ} {text : List UInt8}
    {server server' : Server} {members : List ℕ} (hmembers : server.members.Represents members)
    (h : lockedLoop fuel fails addressed thread text server.members.first server = .ok server') :
    ∃ targets, targets ⊆ server.members.values members ∧
      server'.sent = server.sent ++ sendsOf thread text targets := by
  obtain ⟨size, middle, hsize, hloop, rfl⟩ := lockedLoop_cases h
  obtain rfl := hmembers.eq_length_of_size hsize
  have hwalk := @Represents.forLoop_eq _ _ _ server.members [] members hmembers Stop.fault
    (sendOne fails addressed thread text) { server with memberMutex := true }
  rw [foldlM_sendOne, ← hmembers.first_eq, hloop] at hwalk
  split_ifs at hwalk
  obtain rfl := Except.ok.inj hwalk
  refine ⟨reached fails addressed (server.members.values members), fun m hm => ?_, rfl⟩
  exact List.mem_of_mem_filter (List.takeWhile_subset _ hm)

/-- Every listed member has its own open descriptor, and a section of the dispatcher sends to such
members only. -/
structure OwnDescriptors (s : ChatServer) : Prop where
  listed : ∃ listed, s.server.members.Represents listed ∧
    ∀ m ∈ s.server.members.values listed, s.table m.fd = some m.connection
  delivered : ∀ fuel s', s.step (.deliver fuel) = some s' →
    ∃ sends, s'.server.sent = s.server.sent ++ sends ∧
      ∀ send ∈ sends, s.table send.member.fd = some send.member.connection

/-- **Own descriptors.**  Whatever the threads have done so far, and in whatever order, the listed
members have their own open descriptors exactly if no session stands between its `close` and the
section that unlinks its member. -/
theorem ownDescriptors_iff (h : chatServerSystem.Reachable s) :
    OwnDescriptors s ↔ ∀ th ∈ s.threads, th.pc ≠ .unlink := by
  obtain ⟨listed, hv⟩ := owned_of_reachable h
  have hphase : (∀ session ∈ s.descriptors.sessions, session.2 ≠ .closed) ↔
      ∀ th ∈ s.threads, th.pc ≠ .unlink := by
    have hclosed : ∀ pc : ThreadPc, pc.phase = .closed ↔ pc = .unlink := by
      intro pc
      cases pc <;> simp [ThreadPc.phase]
    simp [ChatServer.descriptors, hclosed]
  rw [← hphase, ← hv.open_iff]
  constructor
  · rintro ⟨⟨listed', hrepresents, hall⟩, -⟩
    obtain rfl := hrepresents.unique hv.represents
    exact hall
  · intro hall
    refine ⟨⟨listed, hv.represents, hall⟩, fun fuel s' hstep => ?_⟩
    simp only [ChatServer.step, ChatServer.deliver] at hstep
    split at hstep
    · obtain ⟨node, -, hsend⟩ := Option.bind_eq_some_iff.mp hstep
      obtain ⟨server, hserver, rfl⟩ := Option.map_eq_some_iff.mp hsend
      have hok := toOption_eq_some_iff.mp hserver
      by_cases hdeliverable : node.value.Deliverable
      · rw [sendMessage_eq hdeliverable] at hok
        obtain ⟨targets, hsub, hsent⟩ := sent_lockedLoop hv.represents hok
        refine ⟨_, hsent, fun send hmem => ?_⟩
        obtain ⟨m, hm, rfl⟩ := List.mem_map.mp hmem
        exact hall m (hsub hm)
      · rw [sendMessage_of_not_deliverable hdeliverable] at hok
        cases hok
    · cases hstep

/-! ## A descriptor given away -/

namespace ReusedDescriptor

def piece (s : String) : Received := .bytes (frame (CString.lit s))

/-- The first client logs in, says something and leaves, and its session closes the descriptor. -/
def leaving : List ChatAction :=
  [.accept 4, .create 1, .go 0 9, .recv 0 (piece "ann"), .go 0 9, .go 0 9, .recv 0 (piece "blue"),
    .go 0 9, .go 0 9, .go 0 9, .go 0 9, .recv 0 (piece "hi"), .queue 0 50 none none,
    .recv 0 (piece "Bye"), .go 0 9, .go 0 9, .go 0 9, .go 0 9]

/-- Its member is unlinked before the next client gets the descriptor. -/
def inTime : List ChatAction :=
  leaving ++ [.go 0 9, .accept 4, .create 1, .beginRound 9, .deliver 9]

/-- The next client gets it before the session takes the mutex. -/
def tooLate : List ChatAction := leaving ++ [.accept 4]

theorem ownDescriptors_inTime : ∃ s, chatServerSystem.run ChatServer.start inTime = some s ∧
    OwnDescriptors s := by
  have hlast : (chatServerSystem.run ChatServer.start inTime).map ChatServer.threads =
      some [⟨.returned, 1⟩, ⟨.welcome, 1⟩] := by decide +kernel
  obtain ⟨s, hs, hthreads⟩ := Option.map_eq_some_iff.mp hlast
  refine ⟨s, hs, (ownDescriptors_iff ?_).mpr (by simp [hthreads])⟩
  exact TransitionSystem.reachable_of_run (.start rfl) hs

theorem not_ownDescriptors_tooLate : ¬ ∀ s, chatServerSystem.Reachable s → OwnDescriptors s := by
  intro hall
  have hlast : (chatServerSystem.run ChatServer.start tooLate).map (fun s =>
      (s.server.members.first, s.server.members.valueAt 1, s.table 4)) = some (some 1,
        some ⟨4, 0, CString.lit "ann", CString.lit "blue", 0⟩, some 1) := by decide +kernel
  obtain ⟨s, hs, hshape⟩ := Option.map_eq_some_iff.mp hlast
  obtain ⟨hfirst, hshape⟩ := Prod.mk.inj hshape
  obtain ⟨hvalue, htable⟩ := Prod.mk.inj hshape
  obtain ⟨listed, hrepresents, hopen⟩ :=
    (hall s (TransitionSystem.reachable_of_run (.start rfl) hs)).listed
  have hmem : 1 ∈ listed := List.mem_of_head? (hrepresents.first_eq.symm.trans hfirst)
  have hown := hopen _ (List.mem_filterMap.mpr ⟨1, hmem, hvalue⟩)
  simp [htable] at hown

end ReusedDescriptor

end NetworkHomework.Chat
