import NetworkHomework.Chat.OwnDescriptors

/-!
# What a thread does to itself

A statement or section of `recv_from_client` moves its own thread from one place to the
next, and touches no other thread and no member but its own.  `Advances` lists the
moves; what the rest of the server does in between changes nothing that a thread keeps
of itself.
-/

namespace NetworkHomework.Chat

open LinkedHeap CString

/-- The moves between two calls of `recv`, for a thread whose member is `client`. -/
inductive Advances (client : Option Member) : ThreadPc → ThreadPc → Prop
  | welcome : Advances client .welcome .recvName
  | noGroup (text : List UInt8) : Advances client .testSize (.sendRoster text)
  | someGroup : Advances client .testSize .readSize
  | readSize (size : ℕ) : Advances client .readSize (.writeRoster size)
  | writeRoster (size : ℕ) (text : List UInt8) :
      Advances client (.writeRoster size) (.sendRoster text)
  | sendRoster (text : List UInt8) : Advances client (.sendRoster text) .recvGroup
  | readFirst (temp : Option ℕ) : Advances client .readFirst (.loginNotice temp)
  | loginNotice (temp : Option ℕ) {m : Member} (hclient : client = some m)
      (hfits : (loginText m.name m.group).length < shortMess) :
      Advances client (.loginNotice temp) .link
  | link : Advances client .link .usage
  | usage : Advances client .usage .recvLoop
  | exitFirst (temp : Option ℕ) : Advances client .exitFirst (.exitSend temp)
  | exitDone : Advances client (.exitSend none) .close
  | exitSend (temp : ℕ) : Advances client (.exitSend (some temp)) (.exitTest temp)
  | exitLast (temp : ℕ) : Advances client (.exitTest temp) .close
  | exitNext (temp : ℕ) : Advances client (.exitTest temp) (.exitAdvance temp)
  | exitAdvance (temp : ℕ) (next : Option ℕ) :
      Advances client (.exitAdvance temp) (.exitSend next)
  | close : Advances client .close .unlink
  | unlink : Advances client .unlink .returned

theorem Advances.ne_returned {client : Option Member} {pc pc' : ThreadPc}
    (h : Advances client pc pc') : pc ≠ .returned := by
  cases h <;> simp

/-- A place where nothing is sent. -/
def ThreadPc.Quiet : ThreadPc → Prop
  | .welcome | .sendRoster _ | .loginNotice _ | .usage | .exitSend (some _) => False
  | _ => True

/-- What a thread at this place hands to `send` between two calls of `recv`. -/
inductive Makes (client : Option Member) : ThreadPc → List Send → Prop
  | welcome {m : Member} (hclient : client = some m) :
      Makes client .welcome [⟨m, m.thread, welcomeText⟩]
  | roster {m : Member} (hclient : client = some m) (text : List UInt8) :
      Makes client (.sendRoster text) [⟨m, m.thread, text ++ lit " Please Select Group:"⟩]
  | login {m : Member} (hclient : client = some m) (temp : Option ℕ) (targets : List Member) :
      Makes client (.loginNotice temp) (sendsOf m.thread (loginText m.name m.group) targets)
  | usage {m : Member} (hclient : client = some m) :
      Makes client .usage [⟨m, m.thread, usageText⟩]
  | exit {m : Member} (hclient : client = some m) (temp : ℕ) (target : Member) :
      Makes client (.exitSend (some temp)) [⟨target, m.thread, exitText m.name⟩]
  | nothing {pc : ThreadPc} (hquiet : pc.Quiet) : Makes client pc []

variable {s s' middle : ChatServer} {t u fuel : ℕ} {th other : Thread} {listed : List ℕ}

/-! ## Sends -/

theorem sendTo_cases {temp : Member} {thread : ℕ} {text : List UInt8}
    (h : s.sendTo temp thread text = some s') :
    text.length < shortMess ∧ s' = { s with
      server := { s.server with sent := s.server.sent ++ [⟨temp, thread, text⟩] } } := by
  unfold ChatServer.sendTo at h
  split_ifs at h with hstop
  exact ⟨Nat.not_le.mp fun hle => hstop (.inl hle), (Option.some.inj h).symm⟩

theorem sendOwn_cases {text : List UInt8} (h : s.sendOwn th text = some s') :
    ∃ client, s.server.members.valueAt th.client = some client ∧ s' = { s with
      server := { s.server with sent := s.server.sent ++ [⟨client, client.thread, text⟩] } } := by
  obtain ⟨client, hclient, hsend⟩ := Option.bind_eq_some_iff.mp h
  exact ⟨client, hclient, (sendTo_cases hsend).2⟩

/-- What a section under `member_mutex` sends: one text, on behalf of one session, to members it is
addressed to. -/
theorem sends_lockedLoop {fails addressed : Member → Bool} {thread : ℕ} {text : List UInt8}
    {temp : Option ℕ} {server server' : Server}
    (h : lockedLoop fuel fails addressed thread text temp server = .ok server') :
    ∃ targets : List Member, (∀ m ∈ targets, addressed m) ∧
      server'.sent = server.sent ++ sendsOf thread text targets := by
  obtain ⟨size, middle, -, hloop, rfl⟩ := lockedLoop_cases h
  have hmiddle : ∃ targets : List Member, (∀ m ∈ targets, addressed m) ∧
      middle.sent = server.sent ++ sendsOf thread text targets := by
    refine @forLoop_preserves _ _ _ _ _ _
      (fun s : Server => ∃ targets : List Member, (∀ m ∈ targets, addressed m) ∧
        s.sent = server.sent ++ sendsOf thread text targets) ?_ _ _ _ _ hloop
      ⟨[], fun m hm => absurd hm List.not_mem_nil, (List.append_nil _).symm⟩
    intro s m s' hbody hs
    obtain ⟨targets, haddressed, hsent⟩ := hs
    unfold sendOne at hbody
    split_ifs at hbody with hm
    · obtain rfl := Except.ok.inj hbody
      refine ⟨targets ++ [m], fun temp htemp => ?_, ?_⟩
      · rcases List.mem_append.mp htemp with htemp | htemp
        · exact haddressed temp htemp
        · exact List.mem_singleton.mp htemp ▸ hm
      · simp [hsent, sendsOf]
    · obtain rfl := Except.ok.inj hbody
      exact ⟨targets, haddressed, hsent⟩
  exact hmiddle

/-- What the dispatcher sends for one message. -/
theorem sends_sendMessage {fails : Member → Bool} {tempM : Message} {server server' : Server}
    (h : sendMessage fuel fails tempM server = .ok server') :
    ∃ targets : List Member, (∀ m ∈ targets, tempM.addressed m) ∧
      server'.sent = server.sent ++ sendsOf tempM.thread tempM.line targets := by
  by_cases hdeliverable : tempM.Deliverable
  · rw [sendMessage_eq hdeliverable] at h
    exact sends_lockedLoop h
  · rw [sendMessage_of_not_deliverable hdeliverable] at h
    cases h

/-! ## A statement or a section of a session -/

/-- **A thread moves**, and the members keep what they hold, but for the one that it frees. -/
theorem go_advances (hv : Owned s.descriptors listed) (hth : s.threads[t]? = some th)
    (h : s.go t th fuel = some s') :
    ∃ pc, Advances (s.server.members.valueAt th.client) th.pc pc ∧
      s'.threads = s.threads.set t { th with pc } ∧
      ∀ b, (b = th.client → th.pc ≠ .unlink) →
        s'.server.members.valueAt b = s.server.members.valueAt b := by
  have hsession := sessions_of_thread hth
  have hown : ∀ {text : List UInt8} {pc : ThreadPc},
      Advances (s.server.members.valueAt th.client) th.pc pc →
      (s.sendOwn th text).map (ChatServer.setPc · t th pc) = some s' →
      ∃ pc, Advances (s.server.members.valueAt th.client) th.pc pc ∧
        s'.threads = s.threads.set t { th with pc } ∧
        ∀ b, (b = th.client → th.pc ≠ .unlink) →
          s'.server.members.valueAt b = s.server.members.valueAt b := by
    intro text pc hadvances h
    obtain ⟨middle, hsend, rfl⟩ := Option.map_eq_some_iff.mp h
    obtain ⟨client, -, rfl⟩ := sendOwn_cases hsend
    exact ⟨pc, hadvances, rfl, fun b _ => rfl⟩
  cases hpc : th.pc <;> simp only [ChatServer.go, hpc] at h <;> rw [hpc] at hown
  case welcome => exact hown .welcome h
  case testSize =>
      obtain ⟨size, -, rfl⟩ := Option.map_eq_some_iff.mp h
      split_ifs
      · exact ⟨_, .noGroup _, rfl, fun b _ => rfl⟩
      · exact ⟨_, .someGroup, rfl, fun b _ => rfl⟩
  case readSize =>
      obtain ⟨size, -, rfl⟩ := Option.map_eq_some_iff.mp h
      exact ⟨_, .readSize size, rfl, fun b _ => rfl⟩
  case writeRoster size =>
      obtain ⟨text, -, rfl⟩ := Option.map_eq_some_iff.mp h
      exact ⟨_, .writeRoster size text, rfl, fun b _ => rfl⟩
  case sendRoster text => exact hown (.sendRoster text) h
  case readFirst =>
      obtain rfl := Option.some.inj h
      exact ⟨_, .readFirst _, rfl, fun b _ => rfl⟩
  case loginNotice temp =>
      obtain ⟨client, hclient, hnotice⟩ := Option.bind_eq_some_iff.mp h
      split_ifs at hnotice with hlong
      obtain ⟨server, hserver, rfl⟩ := Option.map_eq_some_iff.mp hnotice
      obtain ⟨hmembers, -⟩ := lists_lockedLoop (toOption_eq_some_iff.mp hserver)
      refine ⟨_, .loginNotice temp hclient (Nat.not_le.mp hlong), rfl, fun b _ => ?_⟩
      exact congrArg (·.valueAt b) hmembers
  case link =>
      obtain ⟨members, hlink, rfl⟩ := Option.map_eq_some_iff.mp h
      rw [hpc] at hsession
      obtain ⟨-, -, hunlisted, -⟩ := hv.session t th.client _ hsession (by simp [ThreadPc.phase])
      obtain ⟨node, hnode, hprev, hnext⟩ := hv.unlinked t th.client hsession
      obtain ⟨members', hlink', -, hvalue⟩ := hv.represents.linkFirst
        (fun hmem => hunlisted.mp hmem rfl) hnode hprev fun _ => hnext
      obtain rfl : members' = members :=
        Except.ok.inj (hlink'.symm.trans (toOption_eq_some_iff.mp hlink))
      exact ⟨_, .link, rfl, fun b _ => congrFun hvalue b⟩
  case usage => exact hown .usage h
  case exitFirst =>
      obtain rfl := Option.some.inj h
      exact ⟨_, .exitFirst _, rfl, fun b _ => rfl⟩
  case exitSend temp =>
      cases temp with
      | none =>
          obtain rfl := Option.some.inj h
          exact ⟨_, .exitDone, rfl, fun b _ => rfl⟩
      | some temp =>
          obtain ⟨client, -, hmember⟩ := Option.bind_eq_some_iff.mp h
          obtain ⟨member, -, hsent⟩ := Option.bind_eq_some_iff.mp hmember
          obtain ⟨middle, hsend, rfl⟩ := Option.map_eq_some_iff.mp hsent
          obtain ⟨-, rfl⟩ := sendTo_cases hsend
          exact ⟨_, .exitSend temp, rfl, fun b _ => rfl⟩
  case exitTest temp =>
      obtain ⟨node, -, rfl⟩ := Option.map_eq_some_iff.mp h
      split_ifs
      · exact ⟨_, .exitLast temp, rfl, fun b _ => rfl⟩
      · exact ⟨_, .exitNext temp, rfl, fun b _ => rfl⟩
  case exitAdvance temp =>
      obtain ⟨node, -, rfl⟩ := Option.map_eq_some_iff.mp h
      exact ⟨_, .exitAdvance temp _, rfl, fun b _ => rfl⟩
  case close =>
      obtain ⟨client, -, rfl⟩ := Option.map_eq_some_iff.mp h
      exact ⟨_, .close, rfl, fun b _ => rfl⟩
  case unlink =>
      obtain ⟨members, hdislink, hrest⟩ := Option.bind_eq_some_iff.mp h
      obtain ⟨members', hfree, rfl⟩ := Option.map_eq_some_iff.mp hrest
      rw [hpc] at hsession
      obtain ⟨fd, -, hmem, -⟩ := hv.session t th.client _ hsession (by simp [ThreadPc.phase])
      obtain ⟨before, after, rfl⟩ := List.append_of_mem (hmem.mpr (by simp [ThreadPc.phase]))
      obtain ⟨linked, freed, hdislink', hfree', -, -, hvalue, -⟩ := hv.represents.dislink_free
      obtain rfl : linked = members :=
        Except.ok.inj (hdislink'.symm.trans (toOption_eq_some_iff.mp hdislink))
      obtain rfl : freed = members' :=
        Except.ok.inj (hfree'.symm.trans (toOption_eq_some_iff.mp hfree))
      exact ⟨_, .unlink, rfl, fun b hb => hvalue b fun heq => hb heq rfl⟩
  all_goals cases h

/-- **What a thread sends** at its place, beside which it leaves the messages alone. -/
theorem go_makes (h : s.go t th fuel = some s') :
    s'.server.messages = s.server.messages ∧
      ∃ sends, s'.server.sent = s.server.sent ++ sends ∧
        Makes (s.server.members.valueAt th.client) th.pc sends := by
  have hnone : ∀ {server : ChatServer}, th.pc.Quiet →
      server.server.messages = s.server.messages → server.server.sent = s.server.sent →
      server.server.messages = s.server.messages ∧
        ∃ sends, server.server.sent = s.server.sent ++ sends ∧
          Makes (s.server.members.valueAt th.client) th.pc sends :=
    fun hquiet hmessages hsent => ⟨hmessages, [], by rw [hsent, List.append_nil], .nothing hquiet⟩
  have hown : ∀ {text : List UInt8} {pc : ThreadPc},
      (∀ {m : Member}, s.server.members.valueAt th.client = some m →
        Makes (s.server.members.valueAt th.client) th.pc [⟨m, m.thread, text⟩]) →
      (s.sendOwn th text).map (ChatServer.setPc · t th pc) = some s' →
      s'.server.messages = s.server.messages ∧
        ∃ sends, s'.server.sent = s.server.sent ++ sends ∧
          Makes (s.server.members.valueAt th.client) th.pc sends := by
    intro text pc hmakes h
    obtain ⟨middle, hsend, rfl⟩ := Option.map_eq_some_iff.mp h
    obtain ⟨client, hclient, rfl⟩ := sendOwn_cases hsend
    exact ⟨rfl, [_], rfl, hmakes hclient⟩
  cases hpc : th.pc <;> simp only [ChatServer.go, hpc] at h <;> rw [hpc] at hown hnone
  case welcome => exact hown (fun hclient => .welcome hclient) h
  case testSize =>
      obtain ⟨size, -, rfl⟩ := Option.map_eq_some_iff.mp h
      split_ifs <;> exact hnone trivial rfl rfl
  case readSize =>
      obtain ⟨size, -, rfl⟩ := Option.map_eq_some_iff.mp h
      exact hnone trivial rfl rfl
  case writeRoster size =>
      obtain ⟨text, -, rfl⟩ := Option.map_eq_some_iff.mp h
      exact hnone trivial rfl rfl
  case sendRoster text => exact hown (fun hclient => .roster hclient text) h
  case readFirst =>
      obtain rfl := Option.some.inj h
      exact hnone trivial rfl rfl
  case loginNotice temp =>
      obtain ⟨client, hclient, hnotice⟩ := Option.bind_eq_some_iff.mp h
      split_ifs at hnotice
      obtain ⟨server, hserver, rfl⟩ := Option.map_eq_some_iff.mp hnotice
      have hloop := toOption_eq_some_iff.mp hserver
      obtain ⟨targets, -, hsent⟩ := sends_lockedLoop hloop
      exact ⟨(lists_lockedLoop hloop).2, _, hsent, .login hclient temp targets⟩
  case link =>
      obtain ⟨members, -, rfl⟩ := Option.map_eq_some_iff.mp h
      exact hnone trivial rfl rfl
  case usage => exact hown (fun hclient => .usage hclient) h
  case exitFirst =>
      obtain rfl := Option.some.inj h
      exact hnone trivial rfl rfl
  case exitSend temp =>
      cases temp with
      | none =>
          obtain rfl := Option.some.inj h
          exact hnone trivial rfl rfl
      | some temp =>
          obtain ⟨client, hclient, hmember⟩ := Option.bind_eq_some_iff.mp h
          obtain ⟨member, -, hsent⟩ := Option.bind_eq_some_iff.mp hmember
          obtain ⟨middle, hsend, rfl⟩ := Option.map_eq_some_iff.mp hsent
          obtain ⟨-, rfl⟩ := sendTo_cases hsend
          exact ⟨rfl, [_], rfl, .exit hclient temp member⟩
  case exitTest temp =>
      obtain ⟨node, -, rfl⟩ := Option.map_eq_some_iff.mp h
      exact hnone trivial rfl rfl
  case exitAdvance temp =>
      obtain ⟨node, -, rfl⟩ := Option.map_eq_some_iff.mp h
      exact hnone trivial rfl rfl
  case close =>
      obtain ⟨client, -, rfl⟩ := Option.map_eq_some_iff.mp h
      exact hnone trivial rfl rfl
  case unlink =>
      obtain ⟨members, -, hrest⟩ := Option.bind_eq_some_iff.mp h
      obtain ⟨members', -, rfl⟩ := Option.map_eq_some_iff.mp hrest
      exact hnone trivial rfl rfl
  all_goals cases h

/-! ## A call of `recv` -/

/-- The moves at a `recv`, and what they make of the member. -/
inductive Hears : Option Member → ThreadPc → Received → ThreadPc → Option Member → Prop
  | name (m : Member) (piece : List UInt8) :
      Hears (some m) .recvName (.bytes piece) .testSize (some { m with name := recvText piece })
  | group (m : Member) (piece : List UInt8) :
      Hears (some m) .recvGroup (.bytes piece) .readFirst (some { m with group := recvText piece })
  | leaves {client : Option Member} {r : Received} (hround : loopRound r = none) :
      Hears client .recvLoop r .exitFirst client
  | goesOn {client : Option Member} {r : Received} {text : List UInt8}
      (hround : loopRound r = some text) : Hears client .recvLoop r (.queue text) client

theorem Hears.ne_returned {client client' : Option Member} {pc pc' : ThreadPc} {r : Received}
    (h : Hears client pc r pc' client') : pc ≠ .returned := by
  cases h <;> simp

/-- A write to the own member. -/
theorem valueAt_writeClient {f : Member → Member} {pc : ThreadPc}
    (h : (s.writeClient th f).map (ChatServer.setPc · t th pc) = some s') :
    ∃ m, s.server.members.valueAt th.client = some m ∧
      s'.server.members.valueAt th.client = some (f m) ∧
      s'.threads = s.threads.set t { th with pc } ∧
      s'.server.messages = s.server.messages ∧ s'.server.sent = s.server.sent ∧
      ∀ b, b ≠ th.client → s'.server.members.valueAt b = s.server.members.valueAt b := by
  obtain ⟨middle, hwrite, rfl⟩ := Option.map_eq_some_iff.mp h
  obtain ⟨node, hnode, rfl⟩ := writeClient_cases hwrite
  refine ⟨node.value, by simp [valueAt, hnode], ?_, rfl, rfl, rfl, fun b hb => ?_⟩
  · simp [ChatServer.setPc, valueAt]
  · simp [ChatServer.setPc, valueAt, hb]

theorem recv_hears {r : Received} (h : s.recv t th r = some s') :
    ∃ pc, Hears (s.server.members.valueAt th.client) th.pc r pc
        (s'.server.members.valueAt th.client) ∧
      s'.threads = s.threads.set t { th with pc } ∧
      s'.server.messages = s.server.messages ∧ s'.server.sent = s.server.sent ∧
      ∀ b, b ≠ th.client → s'.server.members.valueAt b = s.server.members.valueAt b := by
  unfold ChatServer.recv at h
  split at h
  case h_1 hpc =>
      obtain ⟨m, hm, hm', hrest⟩ := valueAt_writeClient h
      exact ⟨_, by rw [hpc, hm, hm']; exact .name m _, hrest⟩
  case h_2 hpc =>
      obtain ⟨m, hm, hm', hrest⟩ := valueAt_writeClient h
      exact ⟨_, by rw [hpc, hm, hm']; exact .group m _, hrest⟩
  case h_3 hpc =>
      split at h
      case h_1 hround =>
          obtain rfl := Option.some.inj h
          exact ⟨_, by rw [hpc]; exact .leaves hround, rfl, rfl, rfl, fun b _ => rfl⟩
      case h_2 text hround =>
          obtain rfl := Option.some.inj h
          exact ⟨_, by rw [hpc]; exact .goesOn hround, rfl, rfl, rfl, fun b _ => rfl⟩
  case h_4 => cases h

/-! ## The section that queues -/

theorem queue_queues {a : ℕ} {prev next : Option ℕ} (h : s.queue t th a prev next = some s') :
    ∃ text client, th.pc = .queue text ∧
      s.server.members.valueAt th.client = some client ∧
      s'.threads = s.threads.set t { th with pc := .recvLoop } ∧
      s'.server.members = s.server.members ∧ s'.server.sent = s.server.sent ∧
      ∀ b m, s'.server.messages.valueAt b = some m →
        s.server.messages.valueAt b = some m ∨ m = newMessage client text := by
  unfold ChatServer.queue at h
  split at h
  case h_1 text hpc =>
      split_ifs at h with hfree
      obtain ⟨client, hclient, hlink⟩ := Option.bind_eq_some_iff.mp h
      obtain ⟨messages, hmessages, rfl⟩ := Option.map_eq_some_iff.mp hlink
      have hvalue : messages.valueAt = _ := valueAt_linkFirst (toOption_eq_some_iff.mp hmessages)
      refine ⟨text, client, hpc, hclient, rfl, rfl, rfl, fun b m hm => ?_⟩
      have hm : messages.valueAt b = some m := hm
      rw [hvalue] at hm
      by_cases hba : b = a
      · subst hba
        right
        simpa [valueAt, LinkedHeap.malloc] using hm.symm
      · left
        simpa [valueAt, LinkedHeap.malloc, hba] using hm
  case h_2 => cases h

/-! ## Steps of others -/

/-- The thread that takes the step, if it is one of `recv_from_client`. -/
def ChatAction.thread : ChatAction → Option ℕ
  | .recv t _ | .queue t _ _ _ | .go t _ => some t
  | .accept _ | .create _ | .beginRound _ | .deliver _ | .endRound _ => none

/-- What is left in memory of the messages after a drain was there before. -/
theorem valueAt_drainLoop {h h' : MessageHeap} {freed freed' : List ℕ}
    (hloop : drainLoop fuel h freed = .ok (h', freed')) :
    ∀ b m, h'.valueAt b = some m → h.valueAt b = some m := by
  induction fuel generalizing h freed with
  | zero => cases hloop
  | succ fuel ih =>
      cases hsize : messageListSize h (fuel + 1) with
      | error fault => simp [drainLoop, hsize, bind, Except.bind] at hloop
      | ok size =>
          rw [drainLoop, hsize] at hloop
          simp only [bind, Except.bind] at hloop
          split_ifs at hloop
          · obtain ⟨rfl, -⟩ := Prod.mk.inj (Except.ok.inj hloop)
            exact fun b m hm => hm
          · cases hfirst : h.first with
            | none => simp [hfirst] at hloop
            | some tempM =>
                simp only [hfirst] at hloop
                cases hdislink : messageDislinkToList h tempM with
                | error fault => simp [hdislink] at hloop
                | ok linked =>
                    simp only [hdislink] at hloop
                    cases hfree : linked.free tempM with
                    | error fault => simp [hfree] at hloop
                    | ok freedHeap =>
                        simp only [hfree] at hloop
                        intro b m hm
                        have hrest := ih hloop b m hm
                        rw [valueAt_free hfree] at hrest
                        split_ifs at hrest
                        rwa [valueAt_dislink hdislink] at hrest

/-- **The steps of others** leave a thread where it stands, and its member as it is. -/
theorem step_other (hv : Owned s.descriptors listed) (hth : s.threads[t]? = some th)
    {a : ChatAction} (hother : a.thread ≠ some t) (h : s.step a = some s') :
    s'.threads[t]? = some th ∧ (th.pc ≠ .returned →
      s'.server.members.valueAt th.client = s.server.members.valueAt th.client) := by
  have hphase : ∀ {th : Thread}, th.pc ≠ .returned → th.pc.phase ≠ .gone := by
    intro th
    cases th.pc <;> simp [ThreadPc.phase]
  -- a thread of its own has a member of its own
  have hne : ∀ {u : ℕ} {other : Thread}, s.threads[u]? = some other → u ≠ t →
      th.pc ≠ .returned → other.pc ≠ .returned → th.client ≠ other.client :=
    fun hu hut hreturned hreturned' => hv.ne (sessions_of_thread hu) (hphase hreturned')
      (sessions_of_thread hth) (hphase hreturned) hut.symm
  have hset : ∀ {u : ℕ} {new : Thread}, u ≠ t → (s.threads.set u new)[t]? = some th :=
    fun hut => (List.getElem?_set_ne hut).trans hth
  cases a with
  | accept fd =>
      simp only [ChatServer.step, ChatServer.accept] at h
      split_ifs at h
      obtain rfl := Option.some.inj h
      exact ⟨hth, fun _ => rfl⟩
  | create a =>
      obtain ⟨fd, -, hcreate⟩ := Option.bind_eq_some_iff.mp h
      split_ifs at hcreate with hdead
      obtain rfl := Option.some.inj hcreate
      obtain ⟨hlt, -⟩ := List.getElem?_eq_some_iff.mp hth
      refine ⟨(List.getElem?_append_left hlt).trans hth, fun hreturned => ?_⟩
      obtain ⟨fd', hstamp, -⟩ := hv.session t _ _ (sessions_of_thread hth) (hphase hreturned)
      have hca : th.client ≠ a := by
        rintro rfl
        simp [stamp, valueAt, ChatServer.descriptors, hdead] at hstamp
      simp [valueAt, LinkedHeap.malloc, hca]
  | recv u r =>
      obtain ⟨other, hu, hrecv⟩ := Option.bind_eq_some_iff.mp h
      have hut : u ≠ t := fun heq => hother (congrArg some heq)
      obtain ⟨pc, hhears, hthreads, -, -, hvalue⟩ := recv_hears hrecv
      exact ⟨hthreads ▸ hset hut, fun hreturned =>
        hvalue _ (hne hu hut hreturned hhears.ne_returned)⟩
  | queue u a prev next =>
      obtain ⟨other, hu, hqueue⟩ := Option.bind_eq_some_iff.mp h
      have hut : u ≠ t := fun heq => hother (congrArg some heq)
      obtain ⟨text, client, -, -, hthreads, hmembers, -⟩ := queue_queues hqueue
      exact ⟨hthreads ▸ hset hut, fun _ => by rw [hmembers]⟩
  | go u fuel =>
      obtain ⟨other, hu, hgo⟩ := Option.bind_eq_some_iff.mp h
      have hut : u ≠ t := fun heq => hother (congrArg some heq)
      obtain ⟨pc, hadvances, hthreads, hvalue⟩ := go_advances hv hu hgo
      exact ⟨hthreads ▸ hset hut, fun hreturned => hvalue _ fun heq =>
        absurd heq (hne hu hut hreturned hadvances.ne_returned)⟩
  | beginRound fuel =>
      simp only [ChatServer.step, ChatServer.beginRound] at h
      split_ifs at h
      obtain ⟨size, -, rfl⟩ := Option.map_eq_some_iff.mp h
      exact ⟨hth, fun _ => rfl⟩
  | deliver fuel =>
      simp only [ChatServer.step, ChatServer.deliver] at h
      split at h
      · obtain ⟨node, -, hsend⟩ := Option.bind_eq_some_iff.mp h
        obtain ⟨server, hserver, rfl⟩ := Option.map_eq_some_iff.mp hsend
        obtain ⟨hmembers, -⟩ := lists_sendMessage (toOption_eq_some_iff.mp hserver)
        exact ⟨hth, fun _ => by simp only [hmembers]⟩
      · cases h
  | endRound fuel =>
      simp only [ChatServer.step, ChatServer.endRound] at h
      split_ifs at h
      obtain ⟨drained, -, rfl⟩ := Option.map_eq_some_iff.mp h
      exact ⟨hth, fun _ => rfl⟩

/-- A step sends after what was sent before. -/
theorem sent_of_step {a : ChatAction} (h : s.step a = some s') :
    ∃ sends, s'.server.sent = s.server.sent ++ sends := by
  have hnone : s'.server.sent = s.server.sent → ∃ sends, s'.server.sent = s.server.sent ++ sends :=
    fun hsent => ⟨[], by rw [hsent, List.append_nil]⟩
  cases a with
  | accept fd =>
      simp only [ChatServer.step, ChatServer.accept] at h
      split_ifs at h
      obtain rfl := Option.some.inj h
      exact hnone rfl
  | create b =>
      obtain ⟨fd, -, hcreate⟩ := Option.bind_eq_some_iff.mp h
      split_ifs at hcreate
      obtain rfl := Option.some.inj hcreate
      exact hnone rfl
  | recv u r =>
      obtain ⟨other, -, hrecv⟩ := Option.bind_eq_some_iff.mp h
      obtain ⟨pc, -, -, -, hsent, -⟩ := recv_hears hrecv
      exact hnone hsent
  | queue u a prev next =>
      obtain ⟨other, -, hqueue⟩ := Option.bind_eq_some_iff.mp h
      obtain ⟨text, client, -, -, -, -, hsent, -⟩ := queue_queues hqueue
      exact hnone hsent
  | go u fuel =>
      obtain ⟨other, -, hgo⟩ := Option.bind_eq_some_iff.mp h
      obtain ⟨-, sends, hsent, -⟩ := go_makes hgo
      exact ⟨sends, hsent⟩
  | beginRound fuel =>
      simp only [ChatServer.step, ChatServer.beginRound] at h
      split_ifs at h
      obtain ⟨size, -, rfl⟩ := Option.map_eq_some_iff.mp h
      exact hnone rfl
  | deliver fuel =>
      simp only [ChatServer.step, ChatServer.deliver] at h
      split at h
      · obtain ⟨node, -, hsend⟩ := Option.bind_eq_some_iff.mp h
        obtain ⟨server, hserver, rfl⟩ := Option.map_eq_some_iff.mp hsend
        obtain ⟨targets, -, hsent⟩ := sends_sendMessage (toOption_eq_some_iff.mp hserver)
        exact ⟨_, hsent⟩
      · cases h
  | endRound fuel =>
      simp only [ChatServer.step, ChatServer.endRound] at h
      split_ifs at h
      obtain ⟨drained, -, rfl⟩ := Option.map_eq_some_iff.mp h
      exact hnone rfl

/-- What a step does to the threads: it moves the one that takes it, or adds one, or none. -/
theorem threads_step (hv : Owned s.descriptors listed) {a : ChatAction}
    (h : s.step a = some s') :
    (∃ t th, a.thread = some t ∧ t < s.threads.length ∧ s'.threads = s.threads.set t th) ∨
      a.thread = none ∧ s'.threads = s.threads ∨
      ∃ b fd, a = .create b ∧ s'.threads = s.threads ++ [⟨.welcome, b⟩] ∧
        s'.server.members.valueAt b = some ⟨fd, s.threads.length, [], [], s.threads.length⟩ := by
  have hlt : ∀ {u : ℕ} {other : Thread}, s.threads[u]? = some other → u < s.threads.length :=
    fun hu => (List.getElem?_eq_some_iff.mp hu).1
  cases a with
  | accept fd =>
      simp only [ChatServer.step, ChatServer.accept] at h
      split_ifs at h
      obtain rfl := Option.some.inj h
      exact .inr (.inl ⟨rfl, rfl⟩)
  | create b =>
      obtain ⟨fd, -, hcreate⟩ := Option.bind_eq_some_iff.mp h
      split_ifs at hcreate
      obtain rfl := Option.some.inj hcreate
      exact .inr (.inr ⟨b, fd, rfl, rfl, by simp [valueAt, LinkedHeap.malloc]⟩)
  | recv u r =>
      obtain ⟨other, hu, hrecv⟩ := Option.bind_eq_some_iff.mp h
      obtain ⟨pc, -, hthreads, -⟩ := recv_hears hrecv
      exact .inl ⟨u, _, rfl, hlt hu, hthreads⟩
  | queue u a prev next =>
      obtain ⟨other, hu, hqueue⟩ := Option.bind_eq_some_iff.mp h
      obtain ⟨text, client, -, -, hthreads, -⟩ := queue_queues hqueue
      exact .inl ⟨u, _, rfl, hlt hu, hthreads⟩
  | go u fuel =>
      obtain ⟨other, hu, hgo⟩ := Option.bind_eq_some_iff.mp h
      obtain ⟨pc, -, hthreads, -⟩ := go_advances hv hu hgo
      exact .inl ⟨u, _, rfl, hlt hu, hthreads⟩
  | beginRound fuel =>
      simp only [ChatServer.step, ChatServer.beginRound] at h
      split_ifs at h
      obtain ⟨size, -, rfl⟩ := Option.map_eq_some_iff.mp h
      exact .inr (.inl ⟨rfl, rfl⟩)
  | deliver fuel =>
      simp only [ChatServer.step, ChatServer.deliver] at h
      split at h
      · obtain ⟨node, -, hsend⟩ := Option.bind_eq_some_iff.mp h
        obtain ⟨server, hserver, rfl⟩ := Option.map_eq_some_iff.mp hsend
        exact .inr (.inl ⟨rfl, rfl⟩)
      · cases h
  | endRound fuel =>
      simp only [ChatServer.step, ChatServer.endRound] at h
      split_ifs at h
      obtain ⟨drained, -, rfl⟩ := Option.map_eq_some_iff.mp h
      exact .inr (.inl ⟨rfl, rfl⟩)

/-- The thread that takes the step is there. -/
theorem thread_lt (hv : Owned s.descriptors listed) {a : ChatAction} (h : s.step a = some s')
    (hown : a.thread = some t) : t < s.threads.length := by
  rcases threads_step hv h with ⟨u, _, hu, hlt, -⟩ | ⟨hnone, -⟩ | ⟨b, _, rfl, -⟩
  · obtain rfl := Option.some.inj (hu.symm.trans hown)
    exact hlt
  · simp [hnone] at hown
  · cases hown

/-- No thread ever goes. -/
theorem length_threads_le (hv : Owned s.descriptors listed) {a : ChatAction}
    (h : s.step a = some s') : s.threads.length ≤ s'.threads.length := by
  rcases threads_step hv h with ⟨u, _, -, -, hset⟩ | ⟨-, hsame⟩ | ⟨b, _, -, hadded, -⟩
  · rw [hset, List.length_set]
  · rw [hsame]
  · rw [hadded, List.length_append]
    exact Nat.le_add_right _ _

end NetworkHomework.Chat
