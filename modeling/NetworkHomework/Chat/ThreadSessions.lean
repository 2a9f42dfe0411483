import NetworkHomework.Chat.LocalSteps
import NetworkHomework.Foundation.Simulation

/-!
# The threads are sessions

`recv_from_client` is modelled twice: alone, from one `recv` to the next, and as a thread
of the whole server, statement by statement and in between the others.  The history of a
thread says what it has received and done; whatever the other threads do, it is the
history of the session that receives the same, as far as the thread has got.  Only the
text of the roster depends on the others.

What is due, the events between the place of the thread and its next `recv`, makes up the
difference.

The sends are looked up in what the server sends: for a greeting the thread has sent its
text to its own client, for a notice to the members that its walk has reached.
-/

namespace NetworkHomework.Chat

open LinkedHeap CString

/-! ## Histories -/

/-- What a statement or section adds to the history of a thread whose member is `client`.  The exit
notice is sent when its walk is over. -/
def goEvents (client : Option Member) : ThreadPc → List SessionEvent
  | .welcome => [.send .welcome welcomeText]
  | .sendRoster text => [.send .roster (text ++ lit " Please Select Group:")]
  | .loginNotice _ => client.elim [] fun client =>
      [.send .loginNotice (loginText client.name client.group)]
  | .link => [.link]
  | .usage => [.send .usage usageText]
  | .close => client.elim [] fun client => [.send .exitNotice (exitText client.name), .close]
  | .unlink => [.unlink, .free]
  | _ => []

/-- What an action of a thread adds to its history. -/
def actionEvents (client : Option Member) (pc : ThreadPc) : ChatAction → List SessionEvent
  | .go _ _ => goEvents client pc
  | .queue _ _ _ _ =>
      match pc with
      | .queue recvMessage => [.queue recvMessage]
      | _ => []
  | _ => []

def actionHeard : ChatAction → List Received
  | .recv _ r => [r]
  | _ => []

-- all are history, for each thread; `made` are the sends that its own steps add to `server.sent`
structure Logged where
  server : ChatServer
  heard : ℕ → List Received
  events : ℕ → List SessionEvent
  made : ℕ → List Send

namespace Logged

/-- A step of the server, and its entry in the history of the thread that takes it. -/
def step (l : Logged) (a : ChatAction) : Option Logged :=
  (l.server.step a).map fun server =>
    { server
      heard := fun t => if a.thread = some t then l.heard t ++ actionHeard a else l.heard t
      events := fun t =>
        if a.thread = some t then
          l.events t ++ (l.server.threads[t]?).elim [] fun th =>
            actionEvents (l.server.server.members.valueAt th.client) th.pc a
        else l.events t
      made := fun t =>
        if a.thread = some t then
          l.made t ++ server.server.sent.drop l.server.server.sent.length
        else l.made t }

def start : Logged := ⟨.start, fun _ => [], fun _ => [], fun _ => []⟩

end Logged

/-- The runs of the whole server, with their history. -/
def loggedSystem : TransitionSystem Logged ChatAction where
  initial l := l = Logged.start
  step := Logged.step

/-- The history stops no run. -/
theorem logged_run {s : ChatServer} {actions : List ChatAction} (l : Logged)
    (hrun : chatServerSystem.run l.server actions = some s) :
    ∃ l', loggedSystem.run l actions = some l' ∧ l'.server = s := by
  induction actions generalizing l with
  | nil => exact ⟨l, rfl, Option.some.inj hrun⟩
  | cons a rest ih =>
      obtain ⟨middle, hstep, hrest⟩ := TransitionSystem.run_cons.mp hrun
      have hlogged : ∃ logged, loggedSystem.step l a = some logged ∧ logged.server = middle := by
        have hstep : l.server.step a = some middle := hstep
        simp only [loggedSystem, Logged.step, hstep, Option.map_some]
        exact ⟨_, rfl, rfl⟩
      obtain ⟨logged, hstep', rfl⟩ := hlogged
      obtain ⟨l', hrest', hserver⟩ := ih logged hrest
      exact ⟨l', TransitionSystem.run_cons.mpr ⟨logged, hstep', hrest'⟩, hserver⟩

/-! ## What is due -/

/-- The event, with the text of a roster left open. -/
def SessionEvent.plain : SessionEvent → SessionEvent
  | .send .roster _ => .send .roster []
  | event => event

/-- What the session `S` has done already that a thread at this place has not. -/
def due (S : Session) : ThreadPc → List SessionEvent
  | .welcome => [.send .welcome welcomeText]
  | .testSize | .readSize | .writeRoster _ | .sendRoster _ => [.send .roster []]
  | .readFirst | .loginNotice _ =>
      if shortMess ≤ (loginText S.name S.group).length then []
      else [.send .loginNotice (loginText S.name S.group), .link, .send .usage usageText]
  | .link => [.link, .send .usage usageText]
  | .usage => [.send .usage usageText]
  | .queue recvMessage => [.queue recvMessage]
  | .exitFirst | .exitSend _ | .exitTest _ | .exitAdvance _ | .close =>
      [.send .exitNotice (exitText S.name), .close, .unlink, .free]
  | .unlink => [.unlink, .free]
  | .recvName | .recvGroup | .recvLoop | .returned => []

/-- Where the session is when a thread is at this place. -/
def sessionPc (S : Session) : ThreadPc → SessionPc
  | .welcome | .recvName => .recvName
  | .testSize | .readSize | .writeRoster _ | .sendRoster _ | .recvGroup => .recvGroup
  | .readFirst | .loginNotice _ =>
      if shortMess ≤ (loginText S.name S.group).length then .undefined else .recvLoop
  | .link | .usage | .recvLoop | .queue _ => .recvLoop
  | .exitFirst | .exitSend _ | .exitTest _ | .exitAdvance _ | .close | .unlink | .returned =>
      .returned

/-- The thread `t` is on its way to where the session is, and its member holds what the session
knows. -/
structure Follows (S : Session) (t : ℕ) (pc : ThreadPc) (events : List SessionEvent)
    (client : Option Member) : Prop where
  history : S.events.map SessionEvent.plain = events.map SessionEvent.plain ++ due S pc
  place : S.pc = sessionPc S pc
  fits : S.pc = .recvLoop ∨ S.pc = .returned → (loginText S.name S.group).length < shortMess
  member : pc ≠ .returned →
    ∃ fd connection, client = some ⟨fd, t, S.name, S.group, connection⟩

variable {S : Session} {t : ℕ} {pc pc' : ThreadPc} {events : List SessionEvent}
  {client client' : Option Member}

theorem follows_start (t fd : ℕ) :
    Follows (recvFromClient .quiet []) t .welcome [] (some ⟨fd, t, [], [], t⟩) where
  history := rfl
  place := rfl
  fits h := by rcases h with h | h <;> cases h
  member _ := ⟨fd, t, rfl⟩

/-- **A move** takes what it does off what is due. -/
theorem Follows.advances (h : Follows S t pc events client) (hadvances : Advances client pc pc')
    (hclient : pc' ≠ .returned → client' = client) :
    Follows S t pc' (events ++ goEvents client pc) client' := by
  have hdue : due S pc = (goEvents client pc).map SessionEvent.plain ++ due S pc' := by
    cases hadvances with
    | loginNotice temp hm hfits =>
        obtain ⟨fd, connection, hmember⟩ := h.member (by simp)
        obtain rfl := Option.some.inj (hm.symm.trans hmember)
        simp [due, goEvents, hm, SessionEvent.plain, Nat.not_le.mpr hfits]
    | close =>
        obtain ⟨fd, connection, hmember⟩ := h.member (by simp)
        simp [due, goEvents, hmember, SessionEvent.plain]
    | _ => rfl
  have hpc : sessionPc S pc = sessionPc S pc' := by
    cases hadvances with
    | loginNotice temp hm hfits =>
        obtain ⟨fd, connection, hmember⟩ := h.member (by simp)
        obtain rfl := Option.some.inj (hm.symm.trans hmember)
        simp [sessionPc, Nat.not_le.mpr hfits]
    | _ => rfl
  refine ⟨?_, h.place.trans hpc, h.fits, fun hreturned => ?_⟩
  · rw [h.history, hdue, List.map_append, List.append_assoc]
  · rw [hclient hreturned]
    exact h.member hadvances.ne_returned

/-- **A `recv`** takes the session on, up to its next one. -/
theorem Follows.hears (h : Follows S t pc events client) {r : Received}
    (hhears : Hears client pc r pc' client') :
    Follows (S.step .quiet r) t pc' events client' := by
  obtain ⟨fd, connection, hmember⟩ := h.member hhears.ne_returned
  have hevents := h.history
  cases hhears with
  | name m piece =>
      obtain rfl := Option.some.inj hmember
      have hpc : S.pc = .recvName := h.place
      have hstep : S.step .quiet (.bytes piece) = ⟨.recvGroup, recvText piece, S.group,
          S.events ++ [.send .roster (rosterText [])]⟩ := by
        simp only [Session.step, hpc]
        exact takeName_eq (by decide) S (recvText piece)
      rw [hstep]
      refine ⟨?_, rfl, (fun h => by rcases h with h | h <;> cases h), fun _ => ⟨_, _, rfl⟩⟩
      simp [hevents, due, SessionEvent.plain]
  | group m piece =>
      obtain rfl := Option.some.inj hmember
      have hpc : S.pc = .recvGroup := h.place
      by_cases hlong : shortMess ≤ (loginText S.name (recvText piece)).length
      · have hstep : S.step .quiet (.bytes piece) =
            ⟨.undefined, S.name, recvText piece, S.events⟩ := by
          simp [Session.step, hpc, Session.takeGroup, Session.sendText, hlong]
        rw [hstep]
        refine ⟨?_, ?_, (fun h => by rcases h with h | h <;> cases h), fun _ => ⟨_, _, rfl⟩⟩
        · simp [hevents, due, hlong]
        · simp [sessionPc, hlong]
      · have hstep : S.step .quiet (.bytes piece) = ⟨.recvLoop, S.name, recvText piece,
            S.events ++ [.send .loginNotice (loginText S.name (recvText piece)), .link,
              .send .usage usageText]⟩ := by
          simp only [Session.step, hpc]
          exact takeGroup_eq ⟨Nat.not_le.mp hlong, rfl, rfl⟩
        rw [hstep]
        refine ⟨?_, ?_, fun _ => Nat.not_le.mp hlong, fun _ => ⟨_, _, rfl⟩⟩
        · simp [hevents, due, hlong, SessionEvent.plain]
        · simp [sessionPc, hlong]
  | leaves hround =>
      have hpc : S.pc = .recvLoop := h.place
      have hfits := h.fits (.inl hpc)
      have hstep : S.step .quiet r = ⟨.returned, S.name, S.group, S.events ++
          [.send .exitNotice (exitText S.name), .close, .unlink, .free]⟩ := by
        simp [Session.step, hpc, hround, Session.leave, Session.sendText,
          Nat.not_le.mpr (exitText_fits hfits), Surroundings.quiet]
      rw [hstep]
      refine ⟨?_, rfl, fun _ => hfits, fun _ => ⟨fd, connection, hmember⟩⟩
      simp [hevents, due, SessionEvent.plain]
  | @goesOn _ _ text hround =>
      have hpc : S.pc = .recvLoop := h.place
      have hstep : S.step .quiet r = { S with events := S.events ++ [.queue text] } := by
        simp only [Session.step, hpc, hround]
      rw [hstep]
      refine ⟨?_, hpc, h.fits, fun _ => ⟨fd, connection, hmember⟩⟩
      simp [hevents, due, SessionEvent.plain]

/-- **The section that queues** does what is due. -/
theorem Follows.queues {text : List UInt8} (h : Follows S t (.queue text) events client) :
    Follows S t .recvLoop (events ++ [.queue text]) client where
  history := by simp [h.history, due, SessionEvent.plain]
  place := h.place
  fits := h.fits
  member _ := h.member (by simp)

/-! ## What is sent -/

/-- The sends that carry out the events of the thread `t`: for a greeting one to its own client, for
a notice one to each of some members, and none for anything else. -/
inductive Carries (t : ℕ) : List SessionEvent → List Send → Prop
  | nil : Carries t [] []
  | greeting {events : List SessionEvent} {made : List Send} (h : Carries t events made)
      {site : SessionSend} (hsite : site = .welcome ∨ site = .roster ∨ site = .usage)
      (text : List UInt8) {m : Member} (hown : m.thread = t) :
      Carries t (events ++ [.send site text]) (made ++ [⟨m, t, text⟩])
  | notice {events : List SessionEvent} {made : List Send} (h : Carries t events made)
      {site : SessionSend} (hsite : site = .loginNotice ∨ site = .exitNotice)
      (text : List UInt8) (targets : List Member) :
      Carries t (events ++ [.send site text]) (made ++ sendsOf t text targets)
  | quiet {events : List SessionEvent} {made : List Send} (h : Carries t events made)
      {event : SessionEvent} (hquiet : ∀ site text, event ≠ .send site text) :
      Carries t (events ++ [event]) made

/-- In the walk of the exit notice, or behind it and before the `close`. -/
def ThreadPc.Leaving : ThreadPc → Prop
  | .exitSend _ | .exitTest _ | .exitAdvance _ | .close => True
  | _ => False

/-- What the thread has sent carries out its events, and while it leaves, the exit notice to the
members reached so far. -/
def CarriedOut (S : Session) (t : ℕ) (pc : ThreadPc) (events : List SessionEvent)
    (made : List Send) : Prop :=
  ∃ done targets, Carries t events done ∧ made = done ++ sendsOf t (exitText S.name) targets ∧
    (targets ≠ [] → pc.Leaving)

variable {made : List Send}

theorem Carries.carriedOut (h : Carries t events made) : CarriedOut S t pc events made :=
  ⟨made, [], h, (List.append_nil _).symm, fun hne => absurd rfl hne⟩

theorem CarriedOut.carries (h : CarriedOut S t pc events made) (hpc : ¬ pc.Leaving) :
    Carries t events made := by
  obtain ⟨done, targets, hdone, rfl, hleaving⟩ := h
  obtain rfl : targets = [] := by
    by_contra hne
    exact hpc (hleaving hne)
  rw [sendsOf, List.map_nil, List.append_nil]
  exact hdone

/-- **A move** sends what it adds to the history. -/
theorem CarriedOut.advances (h : CarriedOut S t pc events made) (hfollows : Follows S t pc events client)
    (hadvances : Advances client pc pc') {sends : List Send} (hmakes : Makes client pc sends) :
    CarriedOut S t pc' (events ++ goEvents client pc) (made ++ sends) := by
  obtain ⟨fd, connection, hmember⟩ := hfollows.member hadvances.ne_returned
  have hquiet : ¬ pc.Leaving → goEvents client pc = [] → sends = [] →
      CarriedOut S t pc' (events ++ goEvents client pc) (made ++ sends) := by
    intro hpc hevents hsends
    rw [hevents, hsends, List.append_nil, List.append_nil]
    exact (h.carries hpc).carriedOut
  -- the walk of the exit notice goes on
  have hleaving : goEvents client pc = [] → pc'.Leaving →
      (∃ targets, sends = sendsOf t (exitText S.name) targets) →
      CarriedOut S t pc' (events ++ goEvents client pc) (made ++ sends) := by
    intro hevents hpc' hsends
    obtain ⟨done, before, hdone, rfl, -⟩ := h
    obtain ⟨more, rfl⟩ := hsends
    refine ⟨done, before ++ more, ?_, ?_, fun _ => hpc'⟩
    · rw [hevents, List.append_nil]
      exact hdone
    · rw [sendsOf, sendsOf, sendsOf, List.map_append, List.append_assoc]
  cases hadvances with
  | welcome =>
      cases hmakes with
      | welcome hclient =>
          obtain rfl := Option.some.inj (hclient.symm.trans hmember)
          exact ((h.carries id).greeting (.inl rfl) welcomeText rfl).carriedOut
      | nothing hnot => exact absurd hnot id
  | sendRoster text =>
      cases hmakes with
      | roster hclient text =>
          obtain rfl := Option.some.inj (hclient.symm.trans hmember)
          exact ((h.carries id).greeting (.inr (.inl rfl)) _ rfl).carriedOut
      | nothing hnot => exact absurd hnot id
  | loginNotice temp hm hfits =>
      cases hmakes with
      | login hclient temp targets =>
          obtain rfl := Option.some.inj (hclient.symm.trans hmember)
          simp only [goEvents, hmember, Option.elim_some]
          exact ((h.carries id).notice (.inl rfl) _ targets).carriedOut
      | nothing hnot => exact absurd hnot id
  | usage =>
      cases hmakes with
      | usage hclient =>
          obtain rfl := Option.some.inj (hclient.symm.trans hmember)
          exact ((h.carries id).greeting (.inr (.inr rfl)) usageText rfl).carriedOut
      | nothing hnot => exact absurd hnot id
  | exitSend temp =>
      cases hmakes with
      | exit hclient temp target =>
          obtain rfl := Option.some.inj (hclient.symm.trans hmember)
          exact hleaving rfl trivial ⟨[target], rfl⟩
      | nothing hnot => exact absurd hnot id
  | exitDone | exitLast | exitNext | exitAdvance =>
      cases hmakes
      exact hleaving rfl trivial ⟨[], rfl⟩
  | close =>
      cases hmakes
      obtain ⟨done, targets, hdone, rfl, -⟩ := h
      have hnotice := hdone.notice (.inr rfl) (exitText S.name) targets
      have hclose : Carries t (events ++ [.send .exitNotice (exitText S.name)] ++ [.close])
          (done ++ sendsOf t (exitText S.name) targets) := hnotice.quiet (by simp)
      rw [hmember, goEvents, Option.elim_some, List.append_nil]
      rw [List.append_assoc] at hclose
      exact hclose.carriedOut
  | link =>
      cases hmakes
      have hlink : Carries t (events ++ [.link]) made := (h.carries id).quiet (by simp)
      rw [List.append_nil]
      exact hlink.carriedOut
  | unlink =>
      cases hmakes
      have hunlink : Carries t (events ++ [.unlink]) made := (h.carries id).quiet (by simp)
      have hfree : Carries t (events ++ [.unlink] ++ [.free]) made := hunlink.quiet (by simp)
      rw [List.append_assoc] at hfree
      rw [List.append_nil]
      exact hfree.carriedOut
  | noGroup | someGroup | readSize | writeRoster | readFirst | exitFirst =>
      cases hmakes
      exact hquiet id rfl rfl

/-! ## Every run -/

/-- The session that receives what the thread `t` has received. -/
def Logged.session (l : Logged) (t : ℕ) : Session := recvFromClient .quiet (l.heard t)

/-- Every thread follows its session and sends what its history says, and the threads that are to
come have no history. -/
structure InStep (l : Logged) : Prop where
  follows : ∀ t th, l.server.threads[t]? = some th →
    Follows (l.session t) t th.pc (l.events t) (l.server.server.members.valueAt th.client) ∧
      CarriedOut (l.session t) t th.pc (l.events t) (l.made t)
  later : ∀ t, l.server.threads.length ≤ t → l.heard t = [] ∧ l.events t = [] ∧ l.made t = []

variable {l l' : Logged}

theorem inStep_start : InStep Logged.start where
  follows t th hth := by simp [Logged.start, ChatServer.start] at hth
  later _ _ := ⟨rfl, rfl, rfl⟩

theorem Hears.not_leaving {r : Received} (h : Hears client pc r pc' client') : ¬ pc.Leaving := by
  cases h <;> exact id

/-- **The own step** of a thread. -/
theorem Follows.step {s s' : ChatServer} {listed : List ℕ} {th : Thread} {a : ChatAction}
    {heard : List Received} (hv : Owned s.descriptors listed) (hth : s.threads[t]? = some th)
    (h : Follows (recvFromClient .quiet heard) t th.pc events
      (s.server.members.valueAt th.client))
    (hcarried : CarriedOut (recvFromClient .quiet heard) t th.pc events made)
    (hown : a.thread = some t) (hstep : s.step a = some s') :
    ∃ pc, s'.threads = s.threads.set t { th with pc } ∧
      Follows (recvFromClient .quiet (heard ++ actionHeard a)) t pc
        (events ++ actionEvents (s.server.members.valueAt th.client) th.pc a)
        (s'.server.members.valueAt th.client) ∧
      CarriedOut (recvFromClient .quiet (heard ++ actionHeard a)) t pc
        (events ++ actionEvents (s.server.members.valueAt th.client) th.pc a)
        (made ++ s'.server.sent.drop s.server.sent.length) := by
  have hself : ∀ {other : Thread}, s.threads[t]? = some other → other = th := fun hother =>
    Option.some.inj (hother.symm.trans hth)
  have hunsent : s'.server.sent = s.server.sent →
      made ++ s'.server.sent.drop s.server.sent.length = made := by
    intro hsent
    rw [hsent, List.drop_length, List.append_nil]
  cases a with
  | recv u r =>
      obtain rfl : u = t := Option.some.inj hown
      obtain ⟨other, hu, hrecv⟩ := Option.bind_eq_some_iff.mp hstep
      obtain rfl := hself hu
      obtain ⟨pc, hhears, hthreads, -, hsent, -⟩ := recv_hears hrecv
      refine ⟨pc, hthreads, ?_, ?_⟩
      · simp only [recvFromClient, actionHeard, List.foldl_append, actionEvents, List.append_nil]
        exact h.hears hhears
      · rw [hunsent hsent]
        simp only [actionEvents, List.append_nil]
        exact (hcarried.carries hhears.not_leaving).carriedOut
  | queue u a prev next =>
      obtain rfl : u = t := Option.some.inj hown
      obtain ⟨other, hu, hqueue⟩ := Option.bind_eq_some_iff.mp hstep
      obtain rfl := hself hu
      obtain ⟨text, client, hpc, -, hthreads, hmembers, hsent, -⟩ := queue_queues hqueue
      rw [hpc] at h hcarried
      refine ⟨.recvLoop, hthreads, ?_, ?_⟩
      · simp only [actionHeard, List.append_nil, actionEvents, hpc, hmembers]
        exact h.queues
      · rw [hunsent hsent]
        simp only [actionEvents, hpc]
        exact ((hcarried.carries id).quiet (by simp)).carriedOut
  | go u fuel =>
      obtain rfl : u = t := Option.some.inj hown
      obtain ⟨other, hu, hgo⟩ := Option.bind_eq_some_iff.mp hstep
      obtain rfl := hself hu
      obtain ⟨pc, hadvances, hthreads, hvalue⟩ := go_advances hv hu hgo
      obtain ⟨-, sends, hsent, hmakes⟩ := go_makes hgo
      refine ⟨pc, hthreads, ?_, ?_⟩
      · simp only [actionHeard, List.append_nil, actionEvents]
        refine h.advances hadvances fun hreturned => hvalue _ fun _ hunlink => hreturned ?_
        rw [hunlink] at hadvances
        cases hadvances
        rfl
      · rw [hsent, List.drop_left]
        simp only [actionHeard, List.append_nil, actionEvents]
        exact hcarried.advances h hadvances hmakes
  | accept fd => cases hown
  | create b => cases hown
  | beginRound fuel => cases hown
  | deliver fuel => cases hown
  | endRound fuel => cases hown

theorem InStep.step {a : ChatAction} {listed : List ℕ} (h : InStep l)
    (hv : Owned l.server.descriptors listed) (hstep : l.step a = some l') : InStep l' := by
  obtain ⟨server, hserver, rfl⟩ := Option.map_eq_some_iff.mp hstep
  refine ⟨fun t th hth => ?_, fun t ht => ?_⟩
  · by_cases hown : a.thread = some t
    · have hlt : t < l.server.threads.length := thread_lt hv hserver hown
      obtain ⟨old, hold⟩ : ∃ old, l.server.threads[t]? = some old :=
        ⟨_, List.getElem?_eq_getElem hlt⟩
      obtain ⟨hfollows, hcarried⟩ := h.follows t old hold
      obtain ⟨pc, hset, hfollows', hcarried'⟩ := hfollows.step hv hold hcarried hown hserver
      have hnew : server.threads[t]? = some { old with pc } := by simp [hset, hlt]
      obtain rfl := Option.some.inj (hth.symm.trans hnew)
      simpa [Logged.session, hown, hold] using And.intro hfollows' hcarried'
    · simp only [Logged.session, if_neg hown]
      cases hold : l.server.threads[t]? with
      | some old =>
          obtain ⟨hkept, hvalue⟩ := step_other hv hold hown hserver
          obtain rfl := Option.some.inj (hth.symm.trans hkept)
          obtain ⟨hfollows, hcarried⟩ := h.follows t _ hold
          refine ⟨⟨hfollows.history, hfollows.place, hfollows.fits, fun hreturned => ?_⟩, hcarried⟩
          rw [hvalue hreturned]
          exact hfollows.member hreturned
      | none =>
          have hle : l.server.threads.length ≤ t := List.getElem?_eq_none_iff.mp hold
          have hlt : t < server.threads.length := (List.getElem?_eq_some_iff.mp hth).1
          obtain ⟨hheard, hevents, hmade⟩ := h.later t hle
          rcases threads_step hv hserver with
            ⟨u, _, -, -, hset⟩ | ⟨-, hsame⟩ | ⟨b, fd, -, hadded, hvalue⟩
          · rw [hset, List.length_set] at hlt
            omega
          · rw [hsame] at hlt
            omega
          · have hlast : t = l.server.threads.length := by
              rw [hadded, List.length_append, List.length_singleton] at hlt
              omega
            have hnew : server.threads[t]? = some ⟨.welcome, b⟩ := by simp [hadded, hlast]
            obtain rfl := Option.some.inj (hth.symm.trans hnew)
            rw [hvalue, hheard, hevents, hmade, ← hlast]
            exact ⟨follows_start t fd, Carries.nil.carriedOut⟩
  · have hle : l.server.threads.length ≤ t := (length_threads_le hv hserver).trans ht
    have hother : a.thread ≠ some t := fun hown =>
      absurd (thread_lt hv hserver hown) (Nat.not_lt.mpr hle)
    simp only [if_neg hother]
    exact h.later t hle

/-- The history adds nothing to what can be reached. -/
theorem Logged.server_reachable (h : loggedSystem.Reachable l) :
    chatServerSystem.Reachable l.server := by
  apply h.view Logged.server
  · intro l hl
    rw [hl]
    rfl
  · intro l a l' _ _ hstep
    obtain ⟨server, hserver, rfl⟩ := Option.map_eq_some_iff.mp hstep
    exact .inr ⟨a, trivial, hserver⟩

theorem inStep_of_reachable (h : loggedSystem.Reachable l) : InStep l := by
  induction h with
  | start hl => exact hl ▸ inStep_start
  | next hl _ hstep ih =>
      obtain ⟨listed, hv⟩ := owned_of_reachable (Logged.server_reachable hl)
      exact ih.step hv hstep

/-- The thread waits for its client, or has returned. -/
def ThreadPc.AtRest : ThreadPc → Prop
  | .recvName | .recvGroup | .recvLoop | .returned => True
  | _ => False

/-- What the threads have sent is part of what the server has. -/
theorem made_sublist (h : loggedSystem.Reachable l) (t : ℕ) :
    (l.made t).Sublist l.server.server.sent := by
  induction h with
  | start hl =>
      rw [hl]
      exact List.Sublist.refl _
  | next _ _ hstep ih =>
      obtain ⟨server, hserver, rfl⟩ := Option.map_eq_some_iff.mp hstep
      obtain ⟨sends, hsent⟩ := sent_of_step hserver
      simp only [hsent, List.drop_left]
      split_ifs
      · exact ih.append (List.Sublist.refl _)
      · exact ih.trans (List.sublist_append_left _ _)

end NetworkHomework.Chat
