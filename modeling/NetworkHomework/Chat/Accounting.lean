import NetworkHomework.Chat.LiveWalks
import NetworkHomework.Chat.Provenance
import NetworkHomework.Chat.Queue

/-!
# What the server holds

Whatever the threads do, in whatever order: a block of memory is a member whose session has
not returned or a message that is still queued, an open descriptor belongs to a session
that has not closed it or has just been accepted, and `message_mutex` is held while the
dispatcher is in a round.  So nothing is freed twice and nothing is left behind: when
all sessions have returned and the queue has been drained, nothing is held any more.

The members need no condition for it.  The queue needs what it needs to be well formed,
that `malloc` returns its nodes with null links.
-/

namespace NetworkHomework.Chat

open LinkedHeap

variable {s s' : ChatServer} {t fuel : ℕ} {th : Thread}

/-! ## The frame of a session -/

/-- What the sessions leave to the dispatcher and the main thread. -/
structure Aside (s s' : ChatServer) : Prop where
  messages : s'.server.messages = s.server.messages
  messageMutex : s'.server.messageMutex = s.server.messageMutex
  memberMutex : s.server.memberMutex = false → s'.server.memberMutex = false
  round : s'.round = s.round

theorem aside_setPc {pc : ThreadPc} : Aside s (s.setPc t th pc) := ⟨rfl, rfl, id, rfl⟩

theorem Aside.setPc {pc : ThreadPc} (h : Aside s s') : Aside s (s'.setPc t th pc) :=
  ⟨h.messages, h.messageMutex, h.memberMutex, h.round⟩

theorem aside_sendTo {temp : Member} {thread : ℕ} {text : List UInt8}
    (h : s.sendTo temp thread text = some s') : Aside s s' := by
  obtain ⟨-, rfl⟩ := sendTo_cases h
  exact ⟨rfl, rfl, id, rfl⟩

/-- A section under `member_mutex` leaves it free, and `message_mutex` as it is. -/
theorem mutexes_lockedLoop {fails addressed : Member → Bool} {thread : ℕ} {text : List UInt8}
    {temp : Option ℕ} {server server' : Server}
    (h : lockedLoop fuel fails addressed thread text temp server = .ok server') :
    server'.messageMutex = server.messageMutex ∧ server'.memberMutex = false := by
  obtain ⟨size, middle, -, hloop, rfl⟩ := lockedLoop_cases h
  have hkept : middle.messageMutex = server.messageMutex := by
    refine @forLoop_preserves _ _ _ _ _ _
      (fun s : Server => s.messageMutex = server.messageMutex) ?_ _ _ _ _ hloop rfl
    intro s member s' hbody hs
    rcases sendOne_cases hbody with rfl | rfl
    · exact hs
    · exact hs
  exact ⟨hkept, rfl⟩

theorem mutexes_sendMessage {fails : Member → Bool} {tempM : Message} {server server' : Server}
    (h : sendMessage fuel fails tempM server = .ok server') :
    server'.messageMutex = server.messageMutex ∧ server'.memberMutex = false := by
  by_cases hdeliverable : tempM.Deliverable
  · rw [sendMessage_eq hdeliverable] at h
    exact mutexes_lockedLoop h
  · rw [sendMessage_of_not_deliverable hdeliverable] at h
    cases h

theorem aside_recv {r : Received} (h : s.recv t th r = some s') : Aside s s' := by
  have hwrite : ∀ {f : Member → Member} {pc : ThreadPc},
      (s.writeClient th f).map (ChatServer.setPc · t th pc) = some s' → Aside s s' := by
    intro f pc h
    obtain ⟨middle, hwrite, rfl⟩ := Option.map_eq_some_iff.mp h
    obtain ⟨node, -, rfl⟩ := writeClient_cases hwrite
    exact ⟨rfl, rfl, id, rfl⟩
  unfold ChatServer.recv at h
  split at h
  · exact hwrite h
  · exact hwrite h
  · split at h
    · obtain rfl := Option.some.inj h
      exact aside_setPc
    · obtain rfl := Option.some.inj h
      exact aside_setPc
  · cases h

theorem aside_go (h : s.go t th fuel = some s') : Aside s s' := by
  have hown : ∀ {text : List UInt8} {pc : ThreadPc},
      (s.sendOwn th text).map (ChatServer.setPc · t th pc) = some s' → Aside s s' := by
    intro text pc h
    obtain ⟨middle, hsend, rfl⟩ := Option.map_eq_some_iff.mp h
    obtain ⟨client, -, hsend⟩ := Option.bind_eq_some_iff.mp hsend
    exact (aside_sendTo hsend).setPc
  have hmap : ∀ {α : Type} {o : Option α} {f : α → ChatServer}, (∀ x, Aside s (f x)) →
      o.map f = some s' → Aside s s' := by
    intro α o f hf h
    obtain ⟨x, -, rfl⟩ := Option.map_eq_some_iff.mp h
    exact hf x
  cases hpc : th.pc <;> simp only [ChatServer.go, hpc] at h
  case welcome => exact hown h
  case testSize => exact hmap (fun size => by split_ifs <;> exact aside_setPc) h
  case readSize => exact hmap (fun size => aside_setPc) h
  case writeRoster size => exact hmap (fun text => aside_setPc) h
  case sendRoster text => exact hown h
  case readFirst =>
      obtain rfl := Option.some.inj h
      exact aside_setPc
  case loginNotice temp =>
      obtain ⟨client, -, hnotice⟩ := Option.bind_eq_some_iff.mp h
      split_ifs at hnotice
      obtain ⟨server, hserver, rfl⟩ := Option.map_eq_some_iff.mp hnotice
      have hloop := toOption_eq_some_iff.mp hserver
      obtain ⟨hmessageMutex, hmemberMutex⟩ := mutexes_lockedLoop hloop
      exact ⟨(lists_lockedLoop hloop).2, hmessageMutex, fun _ => hmemberMutex, rfl⟩
  case link =>
      refine hmap (fun members => ?_) h
      exact ⟨rfl, rfl, id, rfl⟩
  case usage => exact hown h
  case exitFirst =>
      obtain rfl := Option.some.inj h
      exact aside_setPc
  case exitSend temp =>
      cases temp with
      | none =>
          obtain rfl := Option.some.inj h
          exact aside_setPc
      | some temp =>
          obtain ⟨client, -, hmember⟩ := Option.bind_eq_some_iff.mp h
          obtain ⟨member, -, hsent⟩ := Option.bind_eq_some_iff.mp hmember
          obtain ⟨middle, hsend, rfl⟩ := Option.map_eq_some_iff.mp hsent
          exact (aside_sendTo hsend).setPc
  case exitTest temp => exact hmap (fun node => aside_setPc) h
  case exitAdvance temp => exact hmap (fun node => aside_setPc) h
  case close =>
      refine hmap (fun client => ?_) h
      exact ⟨rfl, rfl, id, rfl⟩
  case unlink =>
      obtain ⟨members, -, hrest⟩ := Option.bind_eq_some_iff.mp h
      refine hmap (fun members => ?_) hrest
      exact ⟨rfl, rfl, id, rfl⟩
  all_goals cases h

/-! ## The messages -/

/-- `malloc` returns the node of a message with links that may stay as they are. -/
def ClearedLinks (s : ChatServer) : ChatAction → Prop
  | .queue _ _ prev next => prev = none ∧ (s.server.messages.first = none → next = none)
  | _ => True

instance (s : ChatServer) : (a : ChatAction) → Decidable (ClearedLinks s a)
  | .queue _ _ prev next =>
      inferInstanceAs (Decidable (prev = none ∧ (s.server.messages.first = none → next = none)))
  | .accept _ | .create _ | .recv _ _ | .go _ _ | .beginRound _ | .deliver _ | .endRound _ =>
      .isTrue trivial

/-- The messages in memory are those of the queue, and the two mutexes are held where they have to
be. -/
structure MessagesKept (s : ChatServer) (queued : List ℕ) : Prop where
  represents : s.server.messages.Represents queued
  live : ∀ a, (s.server.messages.cell a).isSome → a ∈ queued
  messageMutex : s.server.messageMutex = s.round.isSome
  memberMutex : s.server.memberMutex = false
  round_le : ∀ n, s.round = some n → n ≤ queued.length

variable {queued : List ℕ}

theorem messagesKept_start : MessagesKept ChatServer.start [] where
  represents := represents_nil rfl
  live a h := by simp [ChatServer.start] at h
  messageMutex := rfl
  memberMutex := rfl
  round_le n h := by cases h

theorem MessagesKept.aside (h : MessagesKept s queued) (haside : Aside s s') :
    MessagesKept s' queued where
  represents := haside.messages ▸ h.represents
  live := haside.messages ▸ h.live
  messageMutex := by rw [haside.messageMutex, haside.round, h.messageMutex]
  memberMutex := haside.memberMutex h.memberMutex
  round_le n hn := h.round_le n (haside.round ▸ hn)

/-- A new message is the head of the queue. -/
theorem MessagesKept.queue (h : MessagesKept s queued) {a : ℕ} {prev next : Option ℕ}
    (hclear : ClearedLinks s (.queue t a prev next))
    (hqueue : s.queue t th a prev next = some s') : MessagesKept s' (a :: queued) := by
  obtain ⟨hprev, hnext⟩ := hclear
  unfold ChatServer.queue at hqueue
  split at hqueue
  case h_1 text hpc =>
      split_ifs at hqueue with henabled
      obtain ⟨hround, hdead⟩ := henabled
      obtain ⟨client, -, hlink⟩ := Option.bind_eq_some_iff.mp hqueue
      obtain ⟨messages, hmessages, rfl⟩ := Option.map_eq_some_iff.mp hlink
      have hnew : a ∉ queued := by
        intro hmem
        obtain ⟨node, hnode⟩ := h.represents.live hmem
        simp [hdead] at hnode
      have hrep := h.represents.malloc hdead ⟨newMessage client text, prev, next⟩
      have hnode : (s.server.messages.malloc a ⟨newMessage client text, prev, next⟩).cell a =
          some ⟨newMessage client text, prev, next⟩ := by simp [LinkedHeap.malloc]
      have hempty : queued = [] → next = none := by
        rintro rfl
        exact hnext h.represents.first_eq
      obtain ⟨linked, hlinked, hrepresents, hvalue⟩ := hrep.linkFirst hnew hnode hprev hempty
      obtain rfl : linked = messages :=
        Except.ok.inj (hlinked.symm.trans (toOption_eq_some_iff.mp hmessages))
      refine ⟨hrepresents, fun b hb => ?_, h.messageMutex, h.memberMutex, fun n hn => ?_⟩
      · by_cases hba : b = a
        · exact hba ▸ List.mem_cons_self
        · refine List.mem_cons_of_mem _ (h.live b ?_)
          have hb : (linked.cell b).isSome := hb
          have hsome : (linked.valueAt b).isSome := by simpa [valueAt] using hb
          rw [hvalue] at hsome
          simpa [valueAt, LinkedHeap.malloc, hba] using hsome
      · have hn : s.round = some n := hn
        simp [hround] at hn
  case h_2 => cases hqueue

/-- A drain that returns leaves none of the nodes of the list in memory. -/
theorem dead_drainLoop {h h' : MessageHeap} {addrs freed freed' : List ℕ}
    (hh : h.Represents addrs) (hloop : drainLoop fuel h freed = .ok (h', freed')) :
    ∀ a ∈ addrs, h'.cell a = none := by
  induction fuel generalizing h addrs freed with
  | zero => cases hloop
  | succ fuel ih =>
      cases addrs with
      | nil => simp
      | cons a rest =>
          cases hsize : messageListSize h (fuel + 1) with
          | error fault => simp [drainLoop, hsize, bind, Except.bind] at hloop
          | ok size =>
              have hlength : size = (a :: rest).length := hh.eq_length_of_size hsize
              obtain ⟨middle, heq, hrep, hdead, -⟩ :=
                drainLoop_cons hh (hlength ▸ hsize) freed
              rw [heq] at hloop
              refine List.forall_mem_cons.mpr ⟨?_, ih hrep hloop⟩
              -- it is not there when the rest is drained, and nothing comes back
              by_contra hlive
              obtain ⟨node, hnode⟩ := Option.ne_none_iff_exists'.mp hlive
              have hbefore := valueAt_drainLoop hloop a node.value (by simp [valueAt, hnode])
              simp [valueAt, hdead] at hbefore

theorem MessagesKept.endRound (h : MessagesKept s queued) (hend : s.endRound fuel = some s') :
    MessagesKept s' [] := by
  unfold ChatServer.endRound at hend
  split_ifs at hend with hround
  obtain ⟨⟨messages, freed⟩, hdrained, rfl⟩ := Option.map_eq_some_iff.mp hend
  have hloop := toOption_eq_some_iff.mp hdrained
  refine ⟨represents_nil (drainLoop_ok h.represents hloop).1, fun a ha => ?_, rfl, h.memberMutex,
    fun n hn => by cases hn⟩
  have ha : (messages.cell a).isSome := ha
  obtain ⟨node, hnode⟩ := Option.isSome_iff_exists.mp ha
  have hbefore := valueAt_drainLoop hloop a node.value (by simp [valueAt, hnode])
  have hlive : (s.server.messages.cell a).isSome := by
    obtain ⟨old, hold, -⟩ := Option.map_eq_some_iff.mp hbefore
    simp [hold]
  simp [dead_drainLoop h.represents hloop a (h.live a hlive)] at ha

/-- **Every step** keeps account of the messages. -/
theorem MessagesKept.step {a : ChatAction} (h : MessagesKept s queued)
    (hclear : ClearedLinks s a) (hstep : s.step a = some s') :
    ∃ queued', MessagesKept s' queued' := by
  cases a with
  | accept fd =>
      simp only [ChatServer.step, ChatServer.accept] at hstep
      split_ifs at hstep
      obtain rfl := Option.some.inj hstep
      exact ⟨queued, h.aside ⟨rfl, rfl, id, rfl⟩⟩
  | create b =>
      obtain ⟨fd, -, hcreate⟩ := Option.bind_eq_some_iff.mp hstep
      split_ifs at hcreate
      obtain rfl := Option.some.inj hcreate
      exact ⟨queued, h.aside ⟨rfl, rfl, id, rfl⟩⟩
  | recv t r =>
      obtain ⟨th, -, hrecv⟩ := Option.bind_eq_some_iff.mp hstep
      exact ⟨queued, h.aside (aside_recv hrecv)⟩
  | queue t b prev next =>
      obtain ⟨th, -, hqueue⟩ := Option.bind_eq_some_iff.mp hstep
      exact ⟨b :: queued, h.queue hclear hqueue⟩
  | go t fuel =>
      obtain ⟨th, -, hgo⟩ := Option.bind_eq_some_iff.mp hstep
      exact ⟨queued, h.aside (aside_go hgo)⟩
  | beginRound fuel =>
      simp only [ChatServer.step, ChatServer.beginRound] at hstep
      split_ifs at hstep with hround
      obtain ⟨size, hsize, rfl⟩ := Option.map_eq_some_iff.mp hstep
      have hlength := h.represents.eq_length_of_size (toOption_eq_some_iff.mp hsize)
      exact ⟨queued, h.represents, h.live, rfl, h.memberMutex,
        fun n hn => (Option.some.inj hn).symm.le.trans hlength.le⟩
  | deliver fuel =>
      simp only [ChatServer.step, ChatServer.deliver] at hstep
      split at hstep
      case h_1 n hround =>
          obtain ⟨node, -, hsend⟩ := Option.bind_eq_some_iff.mp hstep
          obtain ⟨server, hserver, rfl⟩ := Option.map_eq_some_iff.mp hsend
          have hok := toOption_eq_some_iff.mp hserver
          obtain ⟨-, hmessages⟩ := lists_sendMessage hok
          obtain ⟨hmessageMutex, hmemberMutex⟩ := mutexes_sendMessage hok
          refine ⟨queued, hmessages ▸ h.represents, hmessages ▸ h.live, ?_, hmemberMutex,
            fun k hk => ?_⟩
          · rw [hmessageMutex, h.messageMutex, hround]
            rfl
          · have hle := h.round_le _ hround
            obtain rfl := Option.some.inj hk
            omega
      case h_2 => cases hstep
  | endRound fuel => exact ⟨[], h.endRound hstep⟩

/-! ## Every run -/

/-- What is held, and by whom. -/
structure Accounted (s : ChatServer) (members queued : List ℕ) : Prop where
  memberList : s.server.members.Represents members
  memberBlocks : ∀ a, (s.server.members.cell a).isSome ↔
    ∃ th ∈ s.threads, th.client = a ∧ th.pc ≠ .returned
  oneOwner : ∀ (t u : ℕ) (th other : Thread), s.threads[t]? = some th →
    s.threads[u]? = some other → th.pc ≠ .returned → other.pc ≠ .returned →
      th.client = other.client → t = u
  listed : ∀ a, a ∈ members ↔
    ∃ th ∈ s.threads, th.client = a ∧ (th.pc.phase = .linked ∨ th.pc.phase = .closed)
  descriptors : ∀ fd c, s.table fd = some c ↔ s.accepted = some fd ∧ c = s.threads.length ∨
    ∃ th m, s.threads[c]? = some th ∧ th.pc ≠ .unlink ∧ th.pc ≠ .returned ∧
      s.server.members.valueAt th.client = some m ∧ m.fd = fd
  messageList : s.server.messages.Represents queued
  messageBlocks : ∀ a, (s.server.messages.cell a).isSome ↔ a ∈ queued
  messageMutex : s.server.messageMutex = s.round.isSome
  memberMutex : s.server.memberMutex = false

theorem phase_eq_gone_iff {pc : ThreadPc} : pc.phase = .gone ↔ pc = .returned := by
  cases pc <;> simp [ThreadPc.phase]

theorem phase_eq_closed_iff {pc : ThreadPc} : pc.phase = .closed ↔ pc = .unlink := by
  cases pc <;> simp [ThreadPc.phase]

theorem session_iff_thread {a : ℕ} {phase : Phase} : s.descriptors.sessions[t]? = some (a, phase) ↔
    ∃ th, s.threads[t]? = some th ∧ th.client = a ∧ th.pc.phase = phase := by
  simp [ChatServer.descriptors, List.getElem?_map, Option.map_eq_some_iff]

/-- The members and the descriptors are those of the sessions. -/
theorem descriptors_iff {listed : List ℕ} (hv : Owned s.descriptors listed) (fd c : ℕ) :
    s.table fd = some c ↔ s.accepted = some fd ∧ c = s.threads.length ∨
      ∃ th m, s.threads[c]? = some th ∧ th.pc ≠ .unlink ∧ th.pc ≠ .returned ∧
        s.server.members.valueAt th.client = some m ∧ m.fd = fd := by
  have hlength : s.descriptors.sessions.length = s.threads.length := by
    simp [ChatServer.descriptors]
  constructor
  · intro htable
    rcases hv.table fd c htable with ⟨hc, haccepted⟩ | ⟨a, phase, hc, hgone, hclosed, hstamp⟩
    · exact .inl ⟨haccepted, hc.trans hlength⟩
    · obtain ⟨th, hth, rfl, rfl⟩ := session_iff_thread.mp hc
      obtain ⟨m, hm, hpair⟩ := Option.map_eq_some_iff.mp hstamp
      exact .inr ⟨th, m, hth, mt phase_eq_closed_iff.mpr hclosed,
        mt phase_eq_gone_iff.mpr hgone, hm, (Prod.mk.inj hpair).1⟩
  · rintro (⟨haccepted, rfl⟩ | ⟨th, m, hth, hunlink, hreturned, hm, rfl⟩)
    · exact hlength ▸ hv.accepted fd haccepted
    · obtain ⟨fd, hstamp, -, hopen⟩ := hv.session c th.client th.pc.phase
        (sessions_of_thread hth) (mt phase_eq_gone_iff.mp hreturned)
      have hpair : some (m.fd, m.connection) = some (fd, c) := by
        rw [← hstamp, stamp, show s.descriptors.members.valueAt th.client = some m from hm]
        rfl
      obtain ⟨rfl, -⟩ := Prod.mk.inj (Option.some.inj hpair)
      exact hopen (mt phase_eq_closed_iff.mp hunlink)

/-- **What is held is held by somebody.**  In every run in which `malloc` returns the nodes of the
messages with null links, every block of memory, every open descriptor and every locked mutex has
exactly one holder that will give it back. -/
theorem accounted_of_reachable (h : chatServerSystem.ReachableUnder ClearedLinks s) :
    ∃ members queued, Accounted s members queued := by
  have hmessages : ∃ queued, MessagesKept s queued := by
    apply h.invariant
    · rintro s rfl
      exact ⟨[], messagesKept_start⟩
    · rintro s a s' ⟨queued, hkept⟩ hclear hstep
      exact hkept.step hclear hstep
  obtain ⟨queued, hkept⟩ := hmessages
  obtain ⟨members, hv, hcovered⟩ := covered_of_reachable h.reachable
  refine ⟨members, queued, hv.represents, fun a => (hv.live_iff hcovered).trans held_iff_thread,
    fun t u th other ht hu hreturned hreturned' hsame => ?_, fun a => ⟨fun ha => ?_, ?_⟩,
    descriptors_iff hv, hkept.represents, fun a => ⟨hkept.live a, fun ha => ?_⟩,
    hkept.messageMutex, hkept.memberMutex⟩
  · by_contra hne
    exact hv.ne (sessions_of_thread ht) (mt phase_eq_gone_iff.mp hreturned)
      (sessions_of_thread hu) (mt phase_eq_gone_iff.mp hreturned') (Ne.symm hne) hsame.symm
  · obtain ⟨t, phase, ht, hgone⟩ := hv.listed a ha
    obtain ⟨fd, -, hlisted, -⟩ := hv.session t a phase ht hgone
    obtain ⟨th, hth, hclient, rfl⟩ := session_iff_thread.mp ht
    have hunlinked := hlisted.mp ha
    refine ⟨th, List.mem_of_getElem? hth, hclient, ?_⟩
    cases hphase : th.pc.phase with
    | unlinked => exact absurd hphase hunlinked
    | linked => exact .inl rfl
    | closed => exact .inr rfl
    | gone => exact absurd hphase hgone
  · rintro ⟨th, hmem, rfl, hphase⟩
    obtain ⟨t, ht⟩ := List.mem_iff_getElem?.mp hmem
    have hgone : th.pc.phase ≠ .gone := by rcases hphase with h | h <;> simp [h]
    obtain ⟨fd, -, hlisted, -⟩ := hv.session t _ _ (sessions_of_thread ht) hgone
    exact hlisted.mpr (by rcases hphase with h | h <;> simp [h])
  · obtain ⟨node, hnode⟩ := hkept.represents.live ha
    simp [hnode]

/-- When all sessions have returned and the queue is empty, nothing is held. -/
theorem Accounted.nothing_left {members : List ℕ} (h : Accounted s members queued)
    (hreturned : ∀ th ∈ s.threads, th.pc = .returned) (haccepted : s.accepted = none)
    (hempty : s.server.messages.first = none) :
    (∀ a, s.server.members.cell a = none) ∧ (∀ a, s.server.messages.cell a = none) ∧
      ∀ fd, s.table fd = none := by
  refine ⟨fun a => ?_, fun a => ?_, fun fd => ?_⟩
  · by_contra hlive
    obtain ⟨th, hmem, -, hnot⟩ := (h.memberBlocks a).mp (Option.isSome_iff_ne_none.mpr hlive)
    exact hnot (hreturned th hmem)
  · by_contra hlive
    have ha := (h.messageBlocks a).mp (Option.isSome_iff_ne_none.mpr hlive)
    have hqueued : queued = [] := by
      rw [← List.head?_eq_none_iff, ← h.messageList.first_eq, hempty]
    simp [hqueued] at ha
  · by_contra hopen
    obtain ⟨c, hc⟩ := Option.ne_none_iff_exists'.mp hopen
    rcases (h.descriptors fd c).mp hc with ⟨hfd, -⟩ | ⟨th, m, hth, -, hnot, -⟩
    · simp [haccepted] at hfd
    · exact hnot (hreturned th (List.mem_of_getElem? hth))

/-- The only client has left, and the dispatcher has had a round. -/
def ReusedDescriptor.deserted : List ChatAction :=
  ReusedDescriptor.leaving ++ [.go 0 9, .beginRound 9, .deliver 9, .endRound 9]

theorem ReusedDescriptor.accounted_deserted :
    ∃ s, chatServerSystem.run ChatServer.start ReusedDescriptor.deserted = some s ∧
      (∀ a, s.server.members.cell a = none) ∧ (∀ a, s.server.messages.cell a = none) ∧
      ∀ fd, s.table fd = none := by
  have hlast : (chatServerSystem.run ChatServer.start ReusedDescriptor.deserted).map (fun s =>
      (s.threads, s.accepted, s.server.messages.first)) =
      some ([⟨.returned, 1⟩], none, none) := by decide +kernel
  obtain ⟨s, hs, heq⟩ := Option.map_eq_some_iff.mp hlast
  obtain ⟨hthreads, heq⟩ := Prod.mk.inj heq
  obtain ⟨haccepted, hfirst⟩ := Prod.mk.inj heq
  obtain ⟨members, queued, haccounted⟩ := accounted_of_reachable
    (TransitionSystem.reachableUnder_of_run (.start rfl) (by decide +kernel) hs)
  exact ⟨s, hs, haccounted.nothing_left (by simp [hthreads]) haccepted hfirst⟩

end NetworkHomework.Chat
