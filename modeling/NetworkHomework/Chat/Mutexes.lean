import NetworkHomework.Chat.Accounting
import NetworkHomework.Foundation.Locks

/-!
# The two mutexes

The calls of `pthread_mutex_lock` and `pthread_mutex_unlock`, one by one, with the work of a
section as one move between them.  A session holds one mutex at a time.  The dispatcher
takes `message_mutex` for a whole round and, inside of it, `member_mutex` for every
message.  So the mutexes are always taken in this order, no two threads are in sections of
the same mutex, and threads never wait for each other in a circle.

The work calls `send`, which may block, and follows links, which may be gone.  Which work
comes to its end is left open: where all of it does, no thread is shut out by the others,
and where some does not, the threads that wait for its mutex wait for good.

In the model of the whole server a section is one step.  Here it is three, and every run
of the whole server is a run of these.
-/

namespace NetworkHomework.Chat

open TransitionSystem LockProgram

inductive Mutex
  | message
  | member
  deriving DecidableEq

/-- The mutex of the section that is next. -/
def ThreadPc.mutex : ThreadPc → Option Mutex
  | .writeRoster _ | .loginNotice _ | .link | .unlink => some .member
  | .queue _ => some .message
  | _ => none

/-- The moves of a session. -/
inductive SessionMove : ThreadPc → ThreadPc → Prop
  | advances {client : Option Member} {pc pc' : ThreadPc} (h : Advances client pc pc') :
      SessionMove pc pc'
  | hears {client client' : Option Member} {pc pc' : ThreadPc} {r : Received}
      (h : Hears client pc r pc' client') : SessionMove pc pc'
  | queues (text : List UInt8) : SessionMove (.queue text) .recvLoop

-- a session is `inside` a section before it has done its work and `leaving` after it; the
-- dispatcher has `left` messages before it, and is `sending` and has `sent` under both mutexes
inductive LockPlace
  | unborn
  | outside (pc : ThreadPc)
  | inside (pc : ThreadPc)
  | leaving (m : Mutex) (pc : ThreadPc)
  | idle
  | counting (size : ℕ)
  | round (left : ℕ)
  | sending (left : ℕ)
  | sent (left : ℕ)
  | drained

/-- The work under a mutex is next. -/
def LockPlace.Works : LockPlace → Prop
  | .inside _ | .counting _ | .sending _ | .round 0 => True
  | _ => False

/-- The control flow of `recv_from_client` and of `send_to_client`, where the work comes to its end
at the places with `ends`. -/
inductive LockNext (ends : LockPlace → Prop) : LockPlace → LockEvent Mutex → LockPlace → Prop
  | create : LockNext ends .unborn .run (.outside .welcome)
  | unprotected {pc pc' : ThreadPc} (hpc : pc.mutex = none) (hmove : SessionMove pc pc') :
      LockNext ends (.outside pc) .run (.outside pc')
  | enter {pc : ThreadPc} {m : Mutex} (hpc : pc.mutex = some m) :
      LockNext ends (.outside pc) (.lock m) (.inside pc)
  | work {pc pc' : ThreadPc} {m : Mutex} (hends : ends (.inside pc)) (hpc : pc.mutex = some m)
      (hmove : SessionMove pc pc') : LockNext ends (.inside pc) .run (.leaving m pc')
  | leave (m : Mutex) (pc : ThreadPc) : LockNext ends (.leaving m pc) (.unlock m) (.outside pc)
  | take (size : ℕ) : LockNext ends .idle (.lock .message) (.counting size)
  | count (size : ℕ) (hends : ends (.counting size)) :
      LockNext ends (.counting size) .run (.round size)
  | lockMember (left : ℕ) : LockNext ends (.round (left + 1)) (.lock .member) (.sending left)
  | send (left : ℕ) (hends : ends (.sending left)) :
      LockNext ends (.sending left) .run (.sent left)
  | unlockMember (left : ℕ) : LockNext ends (.sent left) (.unlock .member) (.round left)
  | drain (hends : ends (.round 0)) : LockNext ends (.round 0) .run .drained
  | finish : LockNext ends .drained (.unlock .message) .idle

def LockPlace.holds : LockPlace → Mutex → Prop
  | .inside pc, m => pc.mutex = some m
  | .leaving own _, m => m = own
  | .counting _, m | .round _, m | .drained, m => m = .message
  | .sending _, _ | .sent _, _ => True
  | .unborn, _ | .outside _, _ | .idle, _ => False

/-- `message_mutex` is taken first. -/
def Mutex.rank : Mutex → ℕ
  | .message => 0
  | .member => 1

/-- The moves that are left until no mutex is held. -/
def LockPlace.left : LockPlace → ℕ
  | .inside _ => 2
  | .leaving _ _ | .drained => 1
  | .round left => 3 * left + 2
  | .counting left | .sent left => 3 * left + 3
  | .sending left => 3 * left + 4
  | .unborn | .outside _ | .idle => 0

def chatLocks (ends : LockPlace → Prop) : LockProgram LockPlace Mutex where
  next := LockNext ends
  holds := LockPlace.holds
  rank := Mutex.rank
  left := LockPlace.left

/-! ## The order of the mutexes -/

theorem Hears.mutex_eq {client client' : Option Member} {pc pc' : ThreadPc} {r : Received}
    (h : Hears client pc r pc' client') : pc.mutex = none := by
  cases h <;> rfl

theorem Advances.mutex_ne {client : Option Member} {pc pc' : ThreadPc}
    (h : Advances client pc pc') : pc.mutex ≠ some .message := by
  cases h <;> simp [ThreadPc.mutex]

/-- A session that has not returned goes on. -/
theorem exists_sessionMove {pc : ThreadPc} (hpc : pc ≠ .returned) :
    ∃ pc', SessionMove pc pc' := by
  have hadvances : ∀ {pc' : ThreadPc}, Advances none pc pc' → ∃ pc', SessionMove pc pc' :=
    fun h => ⟨_, .advances h⟩
  cases pc with
  | welcome => exact hadvances .welcome
  | recvName => exact ⟨_, .hears (.name ⟨0, 0, [], [], 0⟩ [])⟩
  | testSize => exact hadvances .someGroup
  | readSize => exact hadvances (.readSize 0)
  | writeRoster size => exact hadvances (.writeRoster size [])
  | sendRoster text => exact hadvances (.sendRoster text)
  | recvGroup => exact ⟨_, .hears (.group ⟨0, 0, [], [], 0⟩ [])⟩
  | readFirst => exact hadvances (.readFirst none)
  | loginNotice temp =>
      exact ⟨_, .advances (.loginNotice temp (m := ⟨0, 0, [], [], 0⟩) rfl (by decide))⟩
  | link => exact hadvances .link
  | usage => exact hadvances .usage
  | recvLoop => exact ⟨_, @SessionMove.hears none none _ _ .error (.leaves rfl)⟩
  | queue text => exact ⟨_, .queues text⟩
  | exitFirst => exact hadvances (.exitFirst none)
  | exitSend temp =>
      cases temp with
      | none => exact hadvances .exitDone
      | some temp => exact hadvances (.exitSend temp)
  | exitTest temp => exact hadvances (.exitLast temp)
  | exitAdvance temp => exact hadvances (.exitAdvance temp none)
  | close => exact hadvances .close
  | unlink => exact hadvances .unlink
  | returned => exact absurd rfl hpc

variable {ends : LockPlace → Prop}

theorem chatLocks_ordered : (chatLocks ends).Ordered where
  lock := by
    intro c m c' h
    cases h with
    | enter hpc => simp [chatLocks, LockPlace.holds, hpc, eq_comm]
    | take size => simp [chatLocks, LockPlace.holds]
    | lockMember left =>
        refine ⟨fun k => ?_, ?_⟩
        · cases k <;> simp [chatLocks, LockPlace.holds]
        · simp [chatLocks, LockPlace.holds, Mutex.rank]
  unlock := by
    intro c m c' h
    cases h with
    | leave m pc => simp [chatLocks, LockPlace.holds]
    | unlockMember left =>
        refine ⟨trivial, fun k => ?_⟩
        cases k <;> simp [chatLocks, LockPlace.holds]
    | finish => simp [chatLocks, LockPlace.holds]
  run := by
    intro c c' h
    cases h with
    | work hends hpc hmove => simp [chatLocks, LockPlace.holds, hpc, eq_comm]
    | _ => exact fun k => Iff.rfl
  left_lt := by
    intro c m event c' hholds h
    cases h with
    | create | unprotected | enter | take => cases hholds
    | _ => simp [chatLocks, LockPlace.left] <;> omega

/-- Where all the work ends, who holds a mutex goes on. -/
theorem chatLocks_goesOn (hends : ∀ c, ends c) : (chatLocks ends).GoesOn := by
  intro c m h
  cases c with
  | unborn | outside | idle => cases h
  | inside pc =>
      have hpc : pc ≠ .returned := by
        rintro rfl
        cases h
      obtain ⟨pc', hmove⟩ := exists_sessionMove hpc
      exact ⟨_, _, .work (hends _) h hmove⟩
  | leaving own pc => exact ⟨_, _, .leave own pc⟩
  | counting size => exact ⟨_, _, .count size (hends _)⟩
  | round left =>
      cases left with
      | zero => exact ⟨_, _, .drain (hends _)⟩
      | succ left => exact ⟨_, _, .lockMember left⟩
  | sending left => exact ⟨_, _, .send left (hends _)⟩
  | sent left => exact ⟨_, _, .unlockMember left⟩
  | drained => exact ⟨_, _, .finish⟩

/-- Who holds a mutex waits for none, but for the dispatcher on its way to `member_mutex`. -/
theorem waits_of_holds {c c' : LockPlace} {m k : Mutex} (hholds : c.holds m)
    (h : LockNext ends c (.lock k) c') : m = .message ∧ k = .member := by
  cases h with
  | enter => cases hholds
  | take => cases hholds
  | lockMember left => exact ⟨hholds, rfl⟩

/-- Work that does not end. -/
theorem LockPlace.Works.stuck {c : LockPlace} (h : c.Works) (hends : ¬ ends c)
    (event : LockEvent Mutex) (c' : LockPlace) : ¬ LockNext ends c event c' := by
  intro hnext
  cases hnext with
  | work hends' | count _ hends' | send _ hends' | drain hends' => exact hends hends'
  | _ => exact h

/-! ## The whole server -/

/-- The threads by their numbers, and the dispatcher. -/
abbrev ChatLocks := Locks (Option ℕ) LockPlace Mutex

/-- No connection has been accepted. -/
def chatStart : Option ℕ → LockPlace
  | none => .idle
  | some _ => .unborn

/-- The runs of the calls. -/
noncomputable abbrev chatLockSystem (ends : LockPlace → Prop) := (chatLocks ends).system chatStart

theorem chatStart_free (p : Option ℕ) (m : Mutex) : ¬ (chatStart p).holds m := by
  cases p <;> exact not_false

/-- The threads stand where they stand in the whole server. -/
structure Stands (s : ChatServer) (l : ChatLocks) : Prop where
  sessions : ∀ t, l.place (some t) = (s.threads[t]?).elim .unborn fun th => .outside th.pc
  dispatcher : l.place none = s.round.elim .idle .round

variable {s s' : ChatServer} {l : ChatLocks}

/-- Between two steps of the whole server, no mutex is held but that of the dispatcher's round. -/
theorem Stands.free (h : Stands s l) (hexclusive : Exclusive (chatLocks ends) l) {m : Mutex}
    (hm : m = .member ∨ s.round = none) : l.owner m = none := by
  by_contra howned
  obtain ⟨p, hp⟩ := Option.ne_none_iff_exists'.mp howned
  have hholds : (l.place p).holds m := (hexclusive p m).mp hp
  cases p with
  | some t =>
      rw [h.sessions t] at hholds
      cases hth : s.threads[t]? with
      | none => simp [hth, LockPlace.holds] at hholds
      | some th => simp [hth, LockPlace.holds] at hholds
  | none =>
      rw [h.dispatcher] at hholds
      cases hround : s.round with
      | none => simp [hround, LockPlace.holds] at hholds
      | some n =>
          obtain rfl : m = .member := hm.resolve_right (by simp [hround])
          simp [hround, LockPlace.holds] at hholds

/-- A move without a mutex. -/
theorem reach_run {p : Option ℕ} {c' : LockPlace} (h : (chatLockSystem ends).Reachable l)
    (hnext : LockNext ends (l.place p) .run c') :
    ∃ l' : ChatLocks, (chatLockSystem ends).Reachable l' ∧
      l'.place = Function.update l.place p c' :=
  ⟨_, .next h trivial (step_run hnext), rfl⟩

/-- The three moves of a section. -/
theorem reach_section {p : Option ℕ} {m : Mutex} {inside leaving c' : LockPlace}
    (h : (chatLockSystem ends).Reachable l) (hfree : l.owner m = none)
    (hlock : LockNext ends (l.place p) (.lock m) inside) (hwork : LockNext ends inside .run leaving)
    (hunlock : LockNext ends leaving (.unlock m) c') :
    ∃ l' : ChatLocks, (chatLockSystem ends).Reachable l' ∧
      l'.place = Function.update l.place p c' := by
  have h₁ := h.next trivial (step_lock hlock hfree)
  have hwork' : LockNext ends (Function.update l.place p inside p) .run leaving := by simpa using hwork
  obtain ⟨l₂, h₂, hplace⟩ := reach_run h₁ hwork'
  have hunlock' : LockNext ends (l₂.place p) (.unlock m) c' := by simpa [hplace] using hunlock
  exact ⟨_, h₂.next trivial (step_unlock hunlock'), by simp [hplace]⟩

/-- A session has made a move. -/
theorem Stands.update {t : ℕ} {th : Thread} {l' : ChatLocks} (h : Stands s l)
    (hlt : t < s.threads.length) (hthreads : s'.threads = s.threads.set t th)
    (hround : s'.round = s.round)
    (hplace : l'.place = Function.update l.place (some t) (.outside th.pc)) : Stands s' l' where
  sessions u := by
    by_cases hut : u = t
    · subst hut
      simp [hplace, hthreads, hlt]
    · have hne : (some u : Option ℕ) ≠ some t := fun heq => hut (Option.some.inj heq)
      rw [hplace, Function.update_of_ne hne, h.sessions u, hthreads,
        List.getElem?_set_ne (Ne.symm hut)]
  dispatcher := by
    rw [hplace, Function.update_of_ne (by simp), h.dispatcher, hround]

/-- The dispatcher has made a move. -/
theorem Stands.update_dispatcher {l' : ChatLocks} (h : Stands s l)
    (hthreads : s'.threads = s.threads)
    (hplace : l'.place = Function.update l.place none (s'.round.elim .idle .round)) :
    Stands s' l' where
  sessions u := by rw [hplace, Function.update_of_ne (by simp), h.sessions u, hthreads]
  dispatcher := by rw [hplace, Function.update_self]

/-- A move of a session of the whole server is one move, or the three of its section. -/
theorem reach_session {t : ℕ} {th : Thread} {pc : ThreadPc} (hends : ∀ c, ends c)
    (h : (chatLockSystem ends).Reachable l)
    (hstands : Stands s l) (hth : s.threads[t]? = some th) (hmove : SessionMove th.pc pc)
    (hround : th.pc.mutex = some .message → s.round = none) :
    ∃ l' : ChatLocks, (chatLockSystem ends).Reachable l' ∧
      l'.place = Function.update l.place (some t) (.outside pc) := by
  have hplace : l.place (some t) = .outside th.pc := by rw [hstands.sessions t, hth]; rfl
  have hexclusive := exclusive_of_reachable chatLocks_ordered chatStart_free h
  cases hpc : th.pc.mutex with
  | none => exact reach_run h (hplace ▸ .unprotected hpc hmove)
  | some m =>
      have hfree : l.owner m = none := by
        apply hstands.free hexclusive
        cases m with
        | message => exact .inr (hround hpc)
        | member => exact .inl rfl
      exact reach_section h hfree (hplace ▸ .enter hpc) (.work (hends _) hpc hmove) (.leave m pc)

theorem round_queue {t a : ℕ} {th : Thread} {prev next : Option ℕ}
    (h : s.queue t th a prev next = some s') : s.round = none ∧ s'.round = none := by
  unfold ChatServer.queue at h
  split at h
  · split_ifs at h with henabled
    obtain ⟨client, -, hlink⟩ := Option.bind_eq_some_iff.mp h
    obtain ⟨messages, -, rfl⟩ := Option.map_eq_some_iff.mp hlink
    exact ⟨henabled.1, henabled.1⟩
  · cases h

/-- Every step of the whole server is a run of single moves. -/
theorem Stands.step {a : ChatAction} {listed : List ℕ} (hends : ∀ c, ends c)
    (hv : Owned s.descriptors listed)
    (h : (chatLockSystem ends).Reachable l) (hstands : Stands s l) (hstep : s.step a = some s') :
    ∃ l' : ChatLocks, (chatLockSystem ends).Reachable l' ∧ Stands s' l' := by
  have hexclusive := exclusive_of_reachable chatLocks_ordered chatStart_free h
  have hlt : ∀ {t : ℕ} {th : Thread}, s.threads[t]? = some th → t < s.threads.length :=
    fun hth => (List.getElem?_eq_some_iff.mp hth).1
  cases a with
  | accept fd =>
      simp only [ChatServer.step, ChatServer.accept] at hstep
      split_ifs at hstep
      obtain rfl := Option.some.inj hstep
      exact ⟨l, h, hstands.sessions, hstands.dispatcher⟩
  | create b =>
      obtain ⟨fd, -, hcreate⟩ := Option.bind_eq_some_iff.mp hstep
      split_ifs at hcreate
      obtain rfl := Option.some.inj hcreate
      have hunborn : l.place (some s.threads.length) = .unborn := by simp [hstands.sessions]
      have hnext : LockNext ends (l.place (some s.threads.length)) .run (.outside .welcome) :=
        hunborn ▸ .create
      obtain ⟨l', hl', hplace⟩ := reach_run h hnext
      refine ⟨l', hl', fun u => ?_, ?_⟩
      · by_cases hu : u = s.threads.length
        · subst hu
          simp [hplace]
        · have hne : (some u : Option ℕ) ≠ some s.threads.length :=
            fun heq => hu (Option.some.inj heq)
          rw [hplace, Function.update_of_ne hne, hstands.sessions u]
          simp only [List.getElem?_append]
          split_ifs with hlt
          · rfl
          · rw [List.getElem?_eq_none (Nat.not_lt.mp hlt),
              List.getElem?_eq_none (by simp; omega)]
      · rw [hplace, Function.update_of_ne (by simp), hstands.dispatcher]
  | recv t r =>
      obtain ⟨th, hth, hrecv⟩ := Option.bind_eq_some_iff.mp hstep
      obtain ⟨pc, hhears, hthreads, -⟩ := recv_hears hrecv
      obtain ⟨l', hl', hplace⟩ := reach_session hends h hstands hth (.hears hhears)
        (by simp [hhears.mutex_eq])
      exact ⟨l', hl', hstands.update (hlt hth) hthreads (aside_recv hrecv).round hplace⟩
  | queue t b prev next =>
      obtain ⟨th, hth, hqueue⟩ := Option.bind_eq_some_iff.mp hstep
      obtain ⟨text, client, hpc, -, hthreads, -⟩ := queue_queues hqueue
      obtain ⟨hround, hround'⟩ := round_queue hqueue
      have hmove : SessionMove th.pc .recvLoop := hpc ▸ .queues text
      obtain ⟨l', hl', hplace⟩ := reach_session hends h hstands hth hmove (fun _ => hround)
      exact ⟨l', hl', hstands.update (hlt hth) hthreads (hround'.trans hround.symm) hplace⟩
  | go t fuel =>
      obtain ⟨th, hth, hgo⟩ := Option.bind_eq_some_iff.mp hstep
      obtain ⟨pc, hadvances, hthreads, -⟩ := go_advances hv hth hgo
      obtain ⟨l', hl', hplace⟩ := reach_session hends h hstands hth (.advances hadvances)
        (fun heq => absurd heq hadvances.mutex_ne)
      exact ⟨l', hl', hstands.update (hlt hth) hthreads (aside_go hgo).round hplace⟩
  | beginRound fuel =>
      simp only [ChatServer.step, ChatServer.beginRound] at hstep
      split_ifs at hstep with hround
      obtain ⟨size, -, rfl⟩ := Option.map_eq_some_iff.mp hstep
      have hidle : l.place none = .idle := by rw [hstands.dispatcher, hround]; rfl
      have hfree := hstands.free hexclusive (m := .message) (.inr hround)
      have hlock : LockNext ends (l.place none) (.lock .message) (.counting size) :=
        hidle ▸ .take size
      have h₁ := h.next trivial (step_lock hlock hfree)
      have hcount : LockNext ends (Function.update l.place none (.counting size) none) .run
          (.round size) := by simpa using .count size (hends _)
      obtain ⟨l', hl', hplace⟩ := reach_run (p := none) h₁ hcount
      exact ⟨l', hl', hstands.update_dispatcher rfl (by simp [hplace])⟩
  | deliver fuel =>
      simp only [ChatServer.step, ChatServer.deliver] at hstep
      split at hstep
      case h_1 n hround =>
          obtain ⟨node, -, hsend⟩ := Option.bind_eq_some_iff.mp hstep
          obtain ⟨server, -, rfl⟩ := Option.map_eq_some_iff.mp hsend
          have hplace : l.place none = .round (n + 1) := by
            rw [hstands.dispatcher, hround]
            rfl
          have hfree := hstands.free hexclusive (m := .member) (.inl rfl)
          have hlock : LockNext ends (l.place none) (.lock .member) (.sending n) :=
            hplace ▸ .lockMember n
          have hsent : LockNext ends (.sending n) .run (.sent n) := .send n (hends _)
          obtain ⟨l', hl', hplace'⟩ := reach_section h hfree hlock hsent (.unlockMember n)
          exact ⟨l', hl', hstands.update_dispatcher rfl hplace'⟩
      case h_2 => cases hstep
  | endRound fuel =>
      simp only [ChatServer.step, ChatServer.endRound] at hstep
      split_ifs at hstep with hround
      obtain ⟨drained, -, rfl⟩ := Option.map_eq_some_iff.mp hstep
      have hplace : l.place none = .round 0 := by rw [hstands.dispatcher, hround]; rfl
      have hdrain : LockNext ends (l.place none) .run .drained := hplace ▸ .drain (hends _)
      obtain ⟨l₁, h₁, hplace₁⟩ := reach_run h hdrain
      have hfinish : LockNext ends (l₁.place none) (.unlock .message) .idle := by
        simpa [hplace₁] using .finish
      have h₂ := h₁.next trivial (step_unlock hfinish)
      exact ⟨_, h₂, hstands.update_dispatcher rfl (by simp [hplace₁])⟩

/-- **Every run of the whole server** is a run of single moves. -/
theorem stands_of_reachable (hends : ∀ c, ends c) (h : chatServerSystem.Reachable s) :
    ∃ l : ChatLocks, (chatLockSystem ends).Reachable l ∧ Stands s l := by
  induction h with
  | start hs =>
      subst hs
      exact ⟨_, .start rfl, fun _ => rfl, rfl⟩
  | next hs _ hstep ih =>
      obtain ⟨l, hl, hstands⟩ := ih
      obtain ⟨listed, hv⟩ := owned_of_reachable hs
      exact hstands.step hends hv hl hstep

/-- Who is inside of a section holds its mutex. -/
theorem mutex_of_inside (h : (chatLockSystem ends).Reachable l) :
    ∀ p pc, l.place p = .inside pc → pc.mutex ≠ none := by
  apply h.invariant
  · intro l hl p pc hp
    subst hl
    cases p <;> cases hp
  · intro l a l' ih _ hstep p pc hp
    obtain ⟨hnext, hplace, -⟩ := step_cases hstep
    rw [hplace] at hp
    by_cases hpa : p = a.process
    · rw [hpa, Function.update_self] at hp
      rw [hp] at hnext
      obtain ⟨m, hpc⟩ : ∃ m, pc.mutex = some m := by
        generalize l.place a.process = c at hnext
        generalize a.event = event at hnext
        cases hnext with
        | @enter pc m hpc => exact ⟨m, hpc⟩
      simp [hpc]
    · rw [Function.update_of_ne hpa] at hp
      exact ih p pc hp

/-- Every thread that has not returned has a move before it. -/
theorem exists_next (hends : ∀ c, ends c) {c : LockPlace} (hc : c ≠ .outside .returned)
    (hinside : ∀ pc, c = .inside pc → pc.mutex ≠ none) : ∃ event c', LockNext ends c event c' := by
  by_cases hholds : ∃ m, c.holds m
  · obtain ⟨m, hm⟩ := hholds
    exact chatLocks_goesOn hends c m hm
  · cases c with
    | unborn => exact ⟨_, _, .create⟩
    | outside pc =>
        cases hpc : pc.mutex with
        | some m => exact ⟨_, _, .enter hpc⟩
        | none =>
            obtain ⟨pc', hmove⟩ := exists_sessionMove fun heq => hc (heq ▸ rfl)
            exact ⟨_, _, .unprotected hpc hmove⟩
    | inside pc =>
        obtain ⟨m, hpc⟩ := Option.ne_none_iff_exists'.mp (hinside pc rfl)
        exact absurd ⟨m, hpc⟩ hholds
    | idle => exact ⟨_, _, .take 0⟩
    | leaving m pc => exact absurd ⟨m, rfl⟩ hholds
    | counting size => exact absurd ⟨.message, rfl⟩ hholds
    | round left => exact absurd ⟨.message, rfl⟩ hholds
    | sending left => exact absurd ⟨.message, trivial⟩ hholds
    | sent left => exact absurd ⟨.message, trivial⟩ hholds
    | drained => exact absurd ⟨.message, rfl⟩ hholds

/-- **No deadlock.**  No two threads are ever in sections of the same mutex.  Who holds a mutex waits
for no other, except the dispatcher, which holds `message_mutex` and waits for `member_mutex`; so
no threads wait for each other in a circle.  In any run, who holds a mutex unlocks it with one of
as many moves of its own as are left.  If its work does not end, the threads that wait for the mutex
wait for good.  If all work ends, the threads of the whole server lock and unlock as here; every
thread that has not returned has a move before it; and whatever move that is, the others can go on
until it is enabled. -/
theorem no_deadlock (ends : LockPlace → Prop) :
    (∀ l : ChatLocks, (chatLockSystem ends).Reachable l →
      (∀ p q m, (l.place p).holds m → (l.place q).holds m → p = q) ∧
      ∀ p m, (l.place p).holds m →
        (∀ k c', LockNext ends (l.place p) (.lock k) c' → m = .message ∧ k = .member) ∧
        (∀ actions l', (chatLockSystem ends).run l actions = some l' →
          (∀ a ∈ actions, a.process = p → a.event ≠ .unlock m) →
          actions.countP (·.process = p) ≤ (l.place p).left) ∧
        ((l.place p).Works → ¬ ends (l.place p) → ∀ q c',
          ¬ (chatLockSystem ends).CanReach (fun _ => True)
            (fun l' => ((chatLocks ends).step l' ⟨q, .lock m, c'⟩).isSome) l)) ∧
    ((∀ c, ends c) →
      (∀ s, chatServerSystem.Reachable s →
        ∃ l : ChatLocks, (chatLockSystem ends).Reachable l ∧ Stands s l) ∧
      ∀ l : ChatLocks, (chatLockSystem ends).Reachable l → ∀ p,
        (l.place p ≠ .outside .returned → ∃ event c', LockNext ends (l.place p) event c') ∧
        ∀ event c', LockNext ends (l.place p) event c' →
          (chatLockSystem ends).CanReach (fun a => a.process ≠ p)
            (fun l' => l'.place p = l.place p ∧
              ((chatLocks ends).step l' ⟨p, event, c'⟩).isSome) l) := by
  have hordered : (chatLocks ends).Ordered := chatLocks_ordered
  have hexclusive : ∀ l : ChatLocks, (chatLockSystem ends).Reachable l →
      Exclusive (chatLocks ends) l := fun l hl =>
    exclusive_of_reachable hordered chatStart_free hl
  refine ⟨fun l hl => ⟨fun p q m hp hq => (hexclusive l hl).eq hp hq, fun p m hp => ?_⟩,
    fun hends => ⟨fun s hs => stands_of_reachable hends hs, fun l hl p => ⟨fun hplace => ?_, ?_⟩⟩⟩
  · refine ⟨fun k c' hnext => waits_of_holds hp hnext, fun actions l' hrun hkeeps => ?_, ?_⟩
    · have hmoves := countP_moves hordered hrun hp hkeeps
      exact Nat.le_trans (Nat.le_add_right _ _) hmoves
    · intro hworks hstuck q c'
      exact not_canReach_lock hordered (hexclusive l hl) hp (hworks.stuck hstuck)
  · exact exists_next hends hplace (mutex_of_inside hl p)
  · intro event c' hnext
    have hbound : ∀ m : Mutex, (chatLocks ends).rank m ≤ 1 := by
      intro m
      cases m <;> simp [chatLocks, Mutex.rank]
    exact can_move hordered (chatLocks_goesOn hends) hbound (hexclusive l hl) hnext

end NetworkHomework.Chat
