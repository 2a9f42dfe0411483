import NetworkHomework.Chat.ThreadSessions

/-!
# Where the texts come from

Whatever a member is ever sent, by whichever thread, has its origin in the session it is
sent on behalf of: the greetings of its own session, the notices of a session that logs
in or leaves under the nickname it gave, or a line of a session that received it, with
the nickname and the group of that session.  So nobody can speak under the name of
another connection, and nothing is made up, in any interleaving, and even if the queue
is not well formed: the nodes in memory hold only what sessions queued.
-/

namespace NetworkHomework.Chat

open LinkedHeap CString

variable {s s' : ChatServer} {t fuel : ℕ} {th : Thread}

/-! ## A session that has logged in keeps its name -/

/-- The session has its nickname and its group. -/
def Session.Settled (S : Session) : Prop := S.pc ≠ .recvName ∧ S.pc ≠ .recvGroup

theorem Session.Settled.step {S : Session} (h : S.Settled) (r : Received) :
    (S.step .quiet r).Settled ∧ (S.step .quiet r).name = S.name ∧
      (S.step .quiet r).group = S.group := by
  cases hpc : S.pc with
  | recvName => exact absurd hpc h.1
  | recvGroup => exact absurd hpc h.2
  | recvLoop =>
      cases hround : loopRound r with
      | none =>
          simp only [Session.step, hpc, hround, Session.leave, Session.sendText,
            Surroundings.quiet]
          split_ifs <;> simp [Session.Settled]
      | some text => simp [Session.step, hpc, hround, Session.Settled]
  | returned => simp [Session.step, hpc, h]
  | exited => simp [Session.step, hpc, h]
  | undefined => simp [Session.step, hpc, h]

theorem Session.Settled.run {S : Session} (h : S.Settled) (received : List Received) :
    (received.foldl (Session.step .quiet) S).Settled ∧
      (received.foldl (Session.step .quiet) S).name = S.name ∧
      (received.foldl (Session.step .quiet) S).group = S.group := by
  induction received generalizing S with
  | nil => exact ⟨h, rfl, rfl⟩
  | cons r rest ih =>
      obtain ⟨hsettled, hname, hgroup⟩ := h.step r
      obtain ⟨hrest, hname', hgroup'⟩ := ih hsettled
      exact ⟨hrest, hname'.trans hname, hgroup'.trans hgroup⟩

/-- What a step of the session queues, it has just received. -/
theorem queue_mem_step {S : Session} {r : Received} {text : List UInt8}
    (h : .queue text ∈ (S.step .quiet r).events) :
    .queue text ∈ S.events ∨ ∃ piece, r = .bytes piece ∧ recvText piece = text := by
  cases hpc : S.pc with
  | recvName =>
      left
      cases r with
      | error => simpa [Session.step, hpc] using h
      | bytes piece =>
          simp only [Session.step, hpc, Session.takeName, Session.sendText] at h
          split_ifs at h <;> simpa using h
  | recvGroup =>
      left
      cases r with
      | error => simpa [Session.step, hpc] using h
      | bytes piece =>
          simp only [Session.step, hpc, Session.takeGroup, Session.sendText] at h
          split_ifs at h <;> simpa using h
  | recvLoop =>
      cases r with
      | error =>
          left
          simp only [Session.step, hpc, loopRound, Session.leave, Session.sendText] at h
          split_ifs at h <;> simpa using h
      | bytes piece =>
          simp only [Session.step, hpc, loopRound, Session.leave, Session.sendText] at h
          split_ifs at h
          all_goals simp at h ⊢; tauto
  | returned => exact .inl (by simpa [Session.step, hpc] using h)
  | exited => exact .inl (by simpa [Session.step, hpc] using h)
  | undefined => exact .inl (by simpa [Session.step, hpc] using h)

theorem queue_mem_run {S : Session} {received : List Received} {text : List UInt8}
    (h : .queue text ∈ (received.foldl (Session.step .quiet) S).events) :
    .queue text ∈ S.events ∨ ∃ piece, .bytes piece ∈ received ∧ recvText piece = text := by
  induction received generalizing S with
  | nil => exact .inl h
  | cons r rest ih =>
      rcases ih h with hstep | ⟨piece, hmem, htext⟩
      · rcases queue_mem_step hstep with hbefore | ⟨piece, rfl, htext⟩
        · exact .inl hbefore
        · exact .inr ⟨piece, List.mem_cons_self, htext⟩
      · exact .inr ⟨piece, List.mem_cons_of_mem _ hmem, htext⟩

/-! ## Histories grow -/

variable {l l' : Logged}

/-- The later state has all that the earlier one has in its histories. -/
def Logged.Extends (l l' : Logged) : Prop :=
  ∀ t, l.heard t <+: l'.heard t ∧ l.events t <+: l'.events t

theorem extends_step {a : ChatAction} (h : l.step a = some l') : l.Extends l' := by
  obtain ⟨server, -, rfl⟩ := Option.map_eq_some_iff.mp h
  intro t
  constructor
  · dsimp only
    split_ifs
    · exact List.prefix_append _ _
    · exact List.prefix_rfl
  · dsimp only
    split_ifs
    · exact List.prefix_append _ _
    · exact List.prefix_rfl

theorem settled_extends (h : l.Extends l') (hsettled : (l.session t).Settled) :
    (l'.session t).Settled ∧ (l'.session t).name = (l.session t).name ∧
      (l'.session t).group = (l.session t).group := by
  obtain ⟨more, hmore⟩ := (h t).1
  have hsession : l'.session t = more.foldl (Session.step .quiet) (l.session t) := by
    rw [Logged.session, Logged.session, ← hmore, recvFromClient, recvFromClient,
      List.foldl_append]
  rw [hsession]
  exact hsettled.run more

/-! ## Origins -/

/-- The session of `m.thread` has received the text of the message, and the name and the group are
its own. -/
structure Logged.Authored (l : Logged) (m : Message) : Prop where
  heard : ∃ piece, .bytes piece ∈ l.heard m.thread ∧ recvText piece = m.message
  settled : (l.session m.thread).Settled
  name : m.fromName = (l.session m.thread).name
  group : m.senderGroup = (l.session m.thread).group

theorem Logged.Authored.extends {m : Message} (hm : l.Authored m) (h : l.Extends l') :
    l'.Authored m := by
  obtain ⟨hsettled, hname, hgroup⟩ := settled_extends h hm.settled
  obtain ⟨piece, hmem, htext⟩ := hm.heard
  exact ⟨⟨piece, (h m.thread).1.subset hmem, htext⟩, hsettled, hm.name.trans hname.symm,
    hm.group.trans hgroup.symm⟩

/-- What a send says, and to whom, comes from the session on whose behalf it is made. -/
inductive Explained (l : Logged) (send : Send) : Prop
  | own (site : SessionSend) (hown : send.member.thread = send.thread)
      (hsent : .send site send.text ∈ l.events send.thread)
  | login (hsettled : (l.session send.thread).Settled)
      (htext : send.text =
        loginText (l.session send.thread).name (l.session send.thread).group)
  | exit (hsettled : (l.session send.thread).Settled)
      (htext : send.text = exitText (l.session send.thread).name)
  | line (m : Message) (hauthored : l.Authored m) (hthread : m.thread = send.thread)
      (htext : send.text = m.line) (haddressed : m.addressed send.member)

theorem Explained.extends {send : Send} (hsend : Explained l send) (h : l.Extends l') :
    Explained l' send := by
  cases hsend with
  | own site hown hsent => exact .own site hown ((h send.thread).2.subset hsent)
  | login hsettled htext =>
      obtain ⟨hsettled', hname, hgroup⟩ := settled_extends h hsettled
      exact .login hsettled' (by rw [htext, hname, hgroup])
  | exit hsettled htext =>
      obtain ⟨hsettled', hname, -⟩ := settled_extends h hsettled
      exact .exit hsettled' (by rw [htext, hname])
  | line m hauthored hthread htext haddressed =>
      exact .line m (hauthored.extends h) hthread htext haddressed

/-! ## Every run -/

/-- Whatever is in memory for the dispatcher, and whatever was sent, has its origin in a session. -/
structure Sourced (l : Logged) : Prop where
  messages : ∀ a m, l.server.server.messages.valueAt a = some m → l.Authored m
  sent : ∀ send ∈ l.server.server.sent, Explained l send

theorem sourced_start : Sourced Logged.start where
  messages a m hm := by simp [Logged.start, ChatServer.start, valueAt] at hm
  sent send hsend := by simp [Logged.start, ChatServer.start] at hsend

/-- A step that sends nothing new, and leaves in memory only messages that were there. -/
theorem Sourced.keeps (h : Sourced l) (hextends : l.Extends l')
    (hmessages : ∀ a m, l'.server.server.messages.valueAt a = some m →
      l.server.server.messages.valueAt a = some m)
    (hsent : l'.server.server.sent = l.server.server.sent) : Sourced l' where
  messages a m hm := (h.messages a m (hmessages a m hm)).extends hextends
  sent send hsend := (h.sent send (hsent ▸ hsend)).extends hextends

variable {pc : ThreadPc} {events : List SessionEvent} {client : Option Member}

theorem Follows.settled {S : Session} (h : Follows S t pc events client)
    (hpc : (sessionPc S pc) ≠ .recvName ∧ (sessionPc S pc) ≠ .recvGroup) : S.Settled := by
  rw [Session.Settled, h.place]
  exact hpc

/-- The message of the section that queues is the session's own. -/
theorem authored_newMessage {text : List UInt8} {m : Member}
    (h : Follows (l.session t) t (.queue text) events (some m)) :
    l.Authored (newMessage m text) := by
  obtain ⟨fd, connection, hmember⟩ := h.member (by simp)
  obtain rfl := Option.some.inj hmember
  have hplain : .queue text ∈ (l.session t).events.map SessionEvent.plain := by
    rw [h.history]
    exact List.mem_append_right _ (List.mem_singleton.mpr rfl)
  obtain ⟨event, hevent, hqueue⟩ := List.mem_map.mp hplain
  obtain rfl : event = .queue text := by
    cases event with
    | send site other => cases site <;> cases hqueue
    | queue other => exact hqueue
    | _ => cases hqueue
  have hstart : .queue text ∉ (Session.start .quiet).events := by
    rw [@start_eq .quiet (by decide)]
    simp
  obtain hbefore | hheard := queue_mem_run hevent
  · exact absurd hbefore hstart
  · exact ⟨hheard, h.settled ⟨by simp [sessionPc], by simp [sessionPc]⟩, rfl, rfl⟩

/-- What a statement or section sends is explained by its own session. -/
theorem explained_go {l' : Logged} {send : Send} {sends : List Send}
    (hmakes : Makes client pc sends) (hsend : send ∈ sends)
    (hfollows : Follows (l.session t) t pc events client) (hextends : l.Extends l')
    (hevents : ∀ event ∈ goEvents client pc, event ∈ l'.events t) : Explained l' send := by
  cases hmakes with
  | welcome hclient =>
      obtain rfl := List.mem_singleton.mp hsend
      obtain ⟨fd, connection, hmember⟩ := hfollows.member (by simp)
      obtain rfl := Option.some.inj (hclient.symm.trans hmember)
      exact .own .welcome rfl (hevents _ (by simp [goEvents]))
  | roster hclient text =>
      obtain rfl := List.mem_singleton.mp hsend
      obtain ⟨fd, connection, hmember⟩ := hfollows.member (by simp)
      obtain rfl := Option.some.inj (hclient.symm.trans hmember)
      exact .own .roster rfl (hevents _ (by simp [goEvents]))
  | login hclient temp targets =>
      obtain ⟨target, -, rfl⟩ := List.mem_map.mp hsend
      obtain ⟨fd, connection, hmember⟩ := hfollows.member (by simp)
      obtain rfl := Option.some.inj (hclient.symm.trans hmember)
      have hsettled : (l.session t).Settled := by
        refine hfollows.settled ?_
        simp only [sessionPc]
        split_ifs <;> simp
      obtain ⟨hsettled', hname, hgroup⟩ := settled_extends hextends hsettled
      exact .login hsettled' (by rw [hname, hgroup])
  | usage hclient =>
      obtain rfl := List.mem_singleton.mp hsend
      obtain ⟨fd, connection, hmember⟩ := hfollows.member (by simp)
      obtain rfl := Option.some.inj (hclient.symm.trans hmember)
      exact .own .usage rfl (hevents _ (by simp [goEvents]))
  | exit hclient temp target =>
      obtain rfl := List.mem_singleton.mp hsend
      obtain ⟨fd, connection, hmember⟩ := hfollows.member (by simp)
      obtain rfl := Option.some.inj (hclient.symm.trans hmember)
      have hsettled : (l.session t).Settled :=
        hfollows.settled ⟨by simp [sessionPc], by simp [sessionPc]⟩
      obtain ⟨hsettled', hname, -⟩ := settled_extends hextends hsettled
      exact .exit hsettled' (by rw [hname])
  | nothing hquiet => exact absurd hsend List.not_mem_nil

theorem Sourced.step {a : ChatAction} (h : Sourced l) (hin : InStep l)
    (hstep : l.step a = some l') : Sourced l' := by
  have hextends := extends_step hstep
  obtain ⟨server, hserver, rfl⟩ := Option.map_eq_some_iff.mp hstep
  have hkept : server.server.messages = l.server.server.messages →
      server.server.sent = l.server.server.sent → Sourced _ := fun hmessages hsent =>
    h.keeps hextends (fun b m hm => hmessages ▸ hm) hsent
  cases a with
  | accept fd =>
      simp only [ChatServer.step, ChatServer.accept] at hserver
      split_ifs at hserver
      obtain rfl := Option.some.inj hserver
      exact hkept rfl rfl
  | create b =>
      obtain ⟨fd, -, hcreate⟩ := Option.bind_eq_some_iff.mp hserver
      split_ifs at hcreate
      obtain rfl := Option.some.inj hcreate
      exact hkept rfl rfl
  | recv u r =>
      obtain ⟨th, hth, hrecv⟩ := Option.bind_eq_some_iff.mp hserver
      obtain ⟨pc, -, -, hmessages, hsent, -⟩ := recv_hears hrecv
      exact hkept hmessages hsent
  | queue u b prev next =>
      obtain ⟨th, hth, hqueue⟩ := Option.bind_eq_some_iff.mp hserver
      obtain ⟨text, client, hpc, hclient, -, -, hsent, hvalue⟩ := queue_queues hqueue
      have hfollows := (hin.follows u th hth).1
      rw [hpc, hclient] at hfollows
      refine ⟨fun c m hm => ?_, fun send hsend => ?_⟩
      · rcases hvalue c m hm with hbefore | rfl
        · exact (h.messages c m hbefore).extends hextends
        · exact (authored_newMessage hfollows).extends hextends
      · exact (h.sent send (hsent ▸ hsend)).extends hextends
  | go u fuel =>
      obtain ⟨th, hth, hgo⟩ := Option.bind_eq_some_iff.mp hserver
      obtain ⟨hmessages, sends, hsent, hmakes⟩ := go_makes hgo
      refine ⟨fun c m hm => (h.messages c m (hmessages ▸ hm)).extends hextends, ?_⟩
      intro send hsend
      rcases List.mem_append.mp (hsent ▸ hsend) with hbefore | hnew
      · exact (h.sent send hbefore).extends hextends
      · refine explained_go hmakes hnew (hin.follows u th hth).1 hextends ?_
        intro event hevent
        simp [ChatAction.thread, hth, actionEvents, hevent]
  | beginRound fuel =>
      simp only [ChatServer.step, ChatServer.beginRound] at hserver
      split_ifs at hserver
      obtain ⟨size, -, rfl⟩ := Option.map_eq_some_iff.mp hserver
      exact hkept rfl rfl
  | deliver fuel =>
      simp only [ChatServer.step, ChatServer.deliver] at hserver
      split at hserver
      · obtain ⟨node, hnode, hsend⟩ := Option.bind_eq_some_iff.mp hserver
        obtain ⟨delivered, hdelivered, rfl⟩ := Option.map_eq_some_iff.mp hsend
        have hok := toOption_eq_some_iff.mp hdelivered
        obtain ⟨-, hmessages⟩ := lists_sendMessage hok
        obtain ⟨targets, haddressed, hsent⟩ := sends_sendMessage hok
        refine ⟨fun c m hm => (h.messages c m (hmessages ▸ hm)).extends hextends, ?_⟩
        intro send hsend
        rcases List.mem_append.mp (hsent ▸ hsend) with hbefore | hnew
        · exact (h.sent send hbefore).extends hextends
        · obtain ⟨b, -, hcell⟩ := Option.bind_eq_some_iff.mp
            (read_eq_ok_iff.mp (toOption_eq_some_iff.mp hnode))
          have hauthored := h.messages b node.value (by simp [valueAt, hcell])
          obtain ⟨target, htarget, rfl⟩ := List.mem_map.mp hnew
          exact .line node.value (hauthored.extends hextends) rfl rfl (haddressed target htarget)
      · cases hserver
  | endRound fuel =>
      simp only [ChatServer.step, ChatServer.endRound] at hserver
      split_ifs at hserver
      obtain ⟨drained, hdrained, rfl⟩ := Option.map_eq_some_iff.mp hserver
      exact h.keeps hextends (valueAt_drainLoop (toOption_eq_some_iff.mp hdrained)) rfl

theorem sourced_of_reachable (h : loggedSystem.Reachable l) : Sourced l := by
  induction h with
  | start hl => exact hl ▸ sourced_start
  | next hl _ hstep ih => exact ih.step (inStep_of_reachable hl) hstep

/-- **Nothing is made up.**  In every run, whatever was sent to anybody is a greeting that goes to
the client of its own session, a notice under the name of the session that logs in or leaves, or
the line of a message: a text that the session it is sent for has received, under its own name and
group, for a member it is addressed to. -/
theorem sent_explained (h : loggedSystem.Reachable l) {send : Send}
    (hsend : send ∈ l.server.server.sent) : Explained l send :=
  (sourced_of_reachable h).sent send hsend

/-- The message of the first client is delivered before its session goes on. -/
def ReusedDescriptor.said : List ChatAction :=
  ReusedDescriptor.leaving.take 13 ++ [.beginRound 9, .deliver 9]

theorem ReusedDescriptor.sent_explained_hi :
    ∃ l send, loggedSystem.run Logged.start ReusedDescriptor.said = some l ∧
      send.text = lit "ann : hi\n" ∧ Explained l send := by
  have hlast : (chatServerSystem.run ChatServer.start ReusedDescriptor.said).map
      (fun s => s.server.sent.getLast?.map Send.text) = some (some (lit "ann : hi\n")) := by
    decide +kernel
  obtain ⟨s, hs, hsent⟩ := Option.map_eq_some_iff.mp hlast
  obtain ⟨send, hsend, htext⟩ := Option.map_eq_some_iff.mp hsent
  obtain ⟨l, hl, rfl⟩ := logged_run Logged.start hs
  have hreachable := TransitionSystem.reachable_of_run (.start rfl) hl
  exact ⟨l, send, hl, htext, sent_explained hreachable (List.mem_of_getLast? hsend)⟩

end NetworkHomework.Chat
