import NetworkHomework.Foundation.Simulation
import NetworkHomework.Ftp.Recoverable

/-!
# The timers

In the runs of a pair a timeout may come at any moment.  By the clock it may not: a
`recvfrom` of the server times out after two seconds and one of the client after one, and
every datagram that arrives, whatever it is, ends the `recvfrom` and starts the next.  The
network delivers a datagram within its latency, or loses it; it damages and repeats
nothing.

Every run by the clock is a run of the pair.
-/

namespace NetworkHomework.Ftp

open TransitionSystem

/-- A datagram on its way, and when it was sent. -/
structure Flight where
  datagram : Datagram
  sentAt : ℕ
  deriving DecidableEq

-- all times are in milliseconds; `serverSince` and `clientSince` say when the two entered the
-- `recvfrom` they are in
structure Timed where
  pair : Pair
  now : ℕ
  serverSince : ℕ
  clientSince : ℕ
  flying : List Flight
  deriving DecidableEq

inductive TimedEvent
  | serverTimeout
  | clientTimeout
  | deliver (i : ℕ)
  | lose (i : ℕ)
  deriving DecidableEq

/-- What happens, and when. -/
structure TimedAction where
  time : ℕ
  event : TimedEvent
  deriving DecidableEq

/-- `SO_RCVTIMEO` of the process: `timeout.tv_sec = 2`. -/
def serverTimeval : ℕ := 2000

/-- `SO_RCVTIMEO` of the client: `timeout.tv_sec = 1`. -/
def clientTimeval : ℕ := 1000

namespace Timed

/-- Nothing is overdue at `time`. -/
structure OnTime (latency : ℕ) (s : Timed) (time : ℕ) : Prop where
  now_le : s.now ≤ time
  server : s.pair.server.Waiting → time ≤ s.serverSince + serverTimeval
  client : s.pair.client.pc = .receiving → time ≤ s.clientSince + clientTimeval
  flying : ∀ f ∈ s.flying, time ≤ f.sentAt + latency

instance (latency : ℕ) (s : Timed) (time : ℕ) : Decidable (s.OnTime latency time) :=
  decidable_of_iff
    (s.now ≤ time ∧ (s.pair.server.Waiting → time ≤ s.serverSince + serverTimeval) ∧
      (s.pair.client.pc = .receiving → time ≤ s.clientSince + clientTimeval) ∧
      ∀ f ∈ s.flying, time ≤ f.sentAt + latency)
    ⟨fun h => ⟨h.1, h.2.1, h.2.2.1, h.2.2.2⟩, fun h => ⟨h.now_le, h.server, h.client, h.flying⟩⟩

/-- What was sent on the way from `before` to `after`. -/
def sent (before after : Pair) (time : ℕ) : List Flight :=
  (after.net.drop before.net.length).map (Flight.mk · time)

/-- The process has come to its next `recvfrom`. -/
def serverMoves (s : Timed) (time : ℕ) (pair : Pair) : Timed :=
  { s with pair, now := time, serverSince := time, flying := s.flying ++ sent s.pair pair time }

/-- The client has come to its next `recvfrom`. -/
def clientMoves (s : Timed) (time : ℕ) (pair : Pair) : Timed :=
  { s with pair, now := time, clientSince := time, flying := s.flying ++ sent s.pair pair time }

variable (config : PairConfig)

/-- A datagram arrives; a party that has left does not receive it. -/
def arrive (s : Timed) (time : ℕ) (d : Datagram) : Timed :=
  if d.dest = config.serverAddr then
    match s.pair.step config (.toServer d) with
    | some pair => s.serverMoves time pair
    | none => { s with now := time }
  else
    match s.pair.step config (.toClient d) with
    | some pair => s.clientMoves time pair
    | none => { s with now := time }

def step (latency : ℕ) (s : Timed) (a : TimedAction) : Option Timed :=
  if s.OnTime latency a.time then
    match a.event with
    | .serverTimeout =>
        if a.time = s.serverSince + serverTimeval then
          (s.pair.step config .serverTimeout).map (s.serverMoves a.time)
        else none
    | .clientTimeout =>
        if a.time = s.clientSince + clientTimeval then
          (s.pair.step config .clientTimeout).map (s.clientMoves a.time)
        else none
    | .deliver i =>
        s.flying[i]?.map fun f =>
          arrive config { s with flying := s.flying.eraseIdx i } a.time f.datagram
    | .lose i =>
        s.flying[i]?.map fun _ => { s with now := a.time, flying := s.flying.eraseIdx i }
  else none

/-- The process has waited since 0 when the client sends its request. -/
def start (clientaddr : Addr) (garbage : Buffer 6) (first : ℕ) : Timed :=
  ⟨Pair.start config clientaddr garbage, first, 0, first, [⟨Pair.request config, first⟩]⟩

end Timed

/-- The runs by the clock.  The request is sent before the first timeout of the process. -/
def timedSystem (config : PairConfig) (latency : ℕ) : TransitionSystem Timed TimedAction where
  initial s := ∃ clientaddr garbage first, first ≤ serverTimeval ∧
    s = Timed.start config clientaddr garbage first
  step := Timed.step config latency

variable {config : PairConfig} {latency : ℕ} {s s' : Timed} {a : TimedAction}

namespace Timed

/-! ## What a step can do -/

/-- The steps, with the time they happen at. -/
inductive Happens (config : PairConfig) (s : Timed) (time : ℕ) : TimedEvent → Timed → Prop
  | serverTimeout {pair : Pair} (htime : time = s.serverSince + serverTimeval)
      (hstep : s.pair.step config .serverTimeout = some pair) :
      Happens config s time .serverTimeout (s.serverMoves time pair)
  | clientTimeout {pair : Pair} (htime : time = s.clientSince + clientTimeval)
      (hstep : s.pair.step config .clientTimeout = some pair) :
      Happens config s time .clientTimeout (s.clientMoves time pair)
  | deliver {i : ℕ} {f : Flight} (hf : s.flying[i]? = some f) :
      Happens config s time (.deliver i)
        (arrive config { s with flying := s.flying.eraseIdx i } time f.datagram)
  | lose {i : ℕ} {f : Flight} (hf : s.flying[i]? = some f) :
      Happens config s time (.lose i) { s with now := time, flying := s.flying.eraseIdx i }

theorem step_happens (h : s.step config latency a = some s') :
    s.OnTime latency a.time ∧ Happens config s a.time a.event s' := by
  unfold step at h
  obtain ⟨hontime, h⟩ := Option.ite_none_right_eq_some.mp h
  refine ⟨hontime, ?_⟩
  generalize a.event = event at h
  cases event with
  | serverTimeout =>
      obtain ⟨htime, hmoves⟩ := Option.ite_none_right_eq_some.mp h
      obtain ⟨pair, hpair, rfl⟩ := Option.map_eq_some_iff.mp hmoves
      exact .serverTimeout htime hpair
  | clientTimeout =>
      obtain ⟨htime, hmoves⟩ := Option.ite_none_right_eq_some.mp h
      obtain ⟨pair, hpair, rfl⟩ := Option.map_eq_some_iff.mp hmoves
      exact .clientTimeout htime hpair
  | deliver i =>
      obtain ⟨f, hf, rfl⟩ := Option.map_eq_some_iff.mp h
      exact .deliver hf
  | lose i =>
      obtain ⟨f, hf, rfl⟩ := Option.map_eq_some_iff.mp h
      exact .lose hf

theorem Happens.step {event : TimedEvent} {time : ℕ} (h : Happens config s time event s')
    (hontime : s.OnTime latency time) : s.step config latency ⟨time, event⟩ = some s' := by
  rw [Timed.step, if_pos hontime]
  cases h with
  | serverTimeout htime hstep => simp only [if_pos htime, hstep, Option.map_some]
  | clientTimeout htime hstep => simp only [if_pos htime, hstep, Option.map_some]
  | deliver hf => simp only [hf, Option.map_some]
  | lose hf => simp only [hf, Option.map_some]

/-- The outcomes of an arrival. -/
inductive Arrives (config : PairConfig) (s : Timed) (time : ℕ) (d : Datagram) : Timed → Prop
  | toServer {pair : Pair} (hstep : s.pair.step config (.toServer d) = some pair) :
      Arrives config s time d (s.serverMoves time pair)
  | toClient {pair : Pair} (hstep : s.pair.step config (.toClient d) = some pair) :
      Arrives config s time d (s.clientMoves time pair)
  | nobody : Arrives config s time d { s with now := time }

theorem arrive_arrives (config : PairConfig) (s : Timed) (time : ℕ) (d : Datagram) :
    Arrives config s time d (arrive config s time d) := by
  unfold arrive
  split_ifs
  · cases hstep : s.pair.step config (.toServer d) with
    | none => exact .nobody
    | some pair => exact .toServer hstep
  · cases hstep : s.pair.step config (.toClient d) with
    | none => exact .nobody
    | some pair => exact .toClient hstep

theorem sent_of_net {before after : Pair} {out : List Datagram}
    (hnet : after.net = before.net ++ out) (time : ℕ) :
    sent before after time = out.map (Flight.mk · time) := by
  rw [sent, hnet, List.drop_left]

theorem flying_serverMoves {pair : Pair} {out : List Datagram}
    (hnet : pair.net = s.pair.net ++ out) (time : ℕ) :
    (s.serverMoves time pair).flying = s.flying ++ out.map (Flight.mk · time) :=
  congrArg (s.flying ++ ·) (sent_of_net hnet time)

theorem flying_clientMoves {pair : Pair} {out : List Datagram}
    (hnet : pair.net = s.pair.net ++ out) (time : ℕ) :
    (s.clientMoves time pair).flying = s.flying ++ out.map (Flight.mk · time) :=
  congrArg (s.flying ++ ·) (sent_of_net hnet time)

/-- The only datagram in flight arrives at the process. -/
theorem arrive_toServer {d : Datagram} {pair : Pair} {out : List Datagram}
    (hdest : d.dest = config.serverAddr)
    (hstep : s.pair.step config (.toServer d) = some pair) (hnet : pair.net = s.pair.net ++ out)
    (time : ℕ) : arrive config { s with flying := [] } time d =
      ⟨pair, time, time, s.clientSince, out.map (Flight.mk · time)⟩ := by
  simp only [arrive, if_pos hdest, hstep, serverMoves, sent_of_net hnet, List.nil_append]

/-- The only datagram in flight arrives at the client. -/
theorem arrive_toClient {d : Datagram} {pair : Pair} {out : List Datagram}
    (hdest : d.dest = config.clientAddr)
    (hstep : s.pair.step config (.toClient d) = some pair) (hnet : pair.net = s.pair.net ++ out)
    (time : ℕ) : arrive config { s with flying := [] } time d =
      ⟨pair, time, s.serverSince, time, out.map (Flight.mk · time)⟩ := by
  have hother : ¬ d.dest = config.serverAddr := fun h => config.distinct (h.symm.trans hdest)
  simp only [arrive, if_neg hother, hstep, clientMoves, sent_of_net hnet, List.nil_append]

/-! ## The pair -/

/-- The step of the pair, if there is one. -/
theorem Happens.pair {event : TimedEvent} {time : ℕ} (h : Happens config s time event s') :
    s'.pair = s.pair ∨ ∃ b, s.pair.step config b = some s'.pair := by
  cases h with
  | serverTimeout htime hstep => exact .inr ⟨_, hstep⟩
  | clientTimeout htime hstep => exact .inr ⟨_, hstep⟩
  | @deliver i f hf =>
      have harrives := arrive_arrives config { s with flying := s.flying.eraseIdx i } time f.datagram
      generalize arrive config { s with flying := s.flying.eraseIdx i } time f.datagram = s'
        at harrives
      cases harrives with
      | toServer hstep => exact .inr ⟨_, hstep⟩
      | toClient hstep => exact .inr ⟨_, hstep⟩
      | nobody => exact .inl rfl
  | lose hf => exact .inl rfl

/-- **Runs by the clock** are runs of the pair. -/
theorem pair_reachable (h : (timedSystem config latency).Reachable s) :
    (pairSystem config).Reachable s.pair := by
  apply h.view Timed.pair
  · rintro s ⟨clientaddr, garbage, first, -, rfl⟩
    exact ⟨clientaddr, garbage, rfl⟩
  · intro s a s' _ _ hstep
    rcases (step_happens hstep).2.pair with hsame | ⟨b, hb⟩
    · exact .inl hsame
    · exact .inr ⟨b, trivial, hb⟩

/-! ## Nothing is ever overdue -/

theorem onTime_start (clientaddr : Addr) (garbage : Buffer 6) {first : ℕ}
    (hfirst : first ≤ serverTimeval) :
    (Timed.start config clientaddr garbage first).OnTime latency first where
  now_le := Nat.le_refl _
  server _ := hfirst.trans (Nat.le_add_left _ _)
  client _ := Nat.le_add_right _ _
  flying f hf := by
    rw [List.mem_singleton.mp hf]
    exact Nat.le_add_right _ _

theorem onTime_serverMoves {pair : Pair} {time : ℕ} (h : s.OnTime latency time)
    (hclient : pair.client = s.pair.client) :
    (s.serverMoves time pair).OnTime latency time where
  now_le := Nat.le_refl _
  server _ := Nat.le_add_right _ _
  client hpc := h.client (hclient ▸ hpc)
  flying f hf := by
    rcases List.mem_append.mp hf with hf | hf
    · exact h.flying f hf
    · obtain ⟨d, -, rfl⟩ := List.mem_map.mp hf
      exact Nat.le_add_right _ _

theorem onTime_clientMoves {pair : Pair} {time : ℕ} (h : s.OnTime latency time)
    (hserver : pair.server = s.pair.server) :
    (s.clientMoves time pair).OnTime latency time where
  now_le := Nat.le_refl _
  server hwaiting := h.server (hserver ▸ hwaiting)
  client _ := Nat.le_add_right _ _
  flying f hf := by
    rcases List.mem_append.mp hf with hf | hf
    · exact h.flying f hf
    · obtain ⟨d, -, rfl⟩ := List.mem_map.mp hf
      exact Nat.le_add_right _ _

theorem onTime_step (h : s.step config latency a = some s') : s'.OnTime latency s'.now := by
  obtain ⟨hontime, hhappens⟩ := step_happens h
  generalize a.event = event at hhappens
  generalize a.time = time at hhappens hontime
  have herased : ∀ i, { s with flying := s.flying.eraseIdx i }.OnTime latency time := fun i =>
    ⟨hontime.now_le, hontime.server, hontime.client, fun f hf =>
      hontime.flying f (List.mem_of_mem_eraseIdx hf)⟩
  have hpassed : ∀ i, { s with now := time, flying := s.flying.eraseIdx i }.OnTime latency time :=
    fun i => ⟨Nat.le_refl _, hontime.server, hontime.client, (herased i).flying⟩
  cases hhappens with
  | serverTimeout htime hstep =>
      obtain ⟨-, rfl⟩ := Option.ite_some_none_eq_some.mp hstep
      exact onTime_serverMoves hontime rfl
  | clientTimeout htime hstep =>
      obtain ⟨-, rfl⟩ := Option.ite_some_none_eq_some.mp hstep
      exact onTime_clientMoves hontime rfl
  | @deliver i f hf =>
      have harrives := arrive_arrives config { s with flying := s.flying.eraseIdx i } time f.datagram
      generalize arrive config { s with flying := s.flying.eraseIdx i } time f.datagram = s'
        at harrives
      cases harrives with
      | toServer hstep =>
          obtain ⟨-, rfl⟩ := Option.ite_some_none_eq_some.mp hstep
          exact onTime_serverMoves (herased i) rfl
      | toClient hstep =>
          obtain ⟨-, rfl⟩ := Option.ite_some_none_eq_some.mp hstep
          exact onTime_clientMoves (herased i) rfl
      | nobody => exact hpassed i
  | @lose i f hf => exact hpassed i

/-! ## One datagram in flight -/

/-- What can happen while at most the one datagram `f` is in flight. -/
inductive HappensOne (config : PairConfig) (s : Timed) (f : Flight) (time : ℕ) :
    TimedEvent → Timed → Prop
  | serverTimeout {pair : Pair} (htime : time = s.serverSince + serverTimeval)
      (hstep : s.pair.step config .serverTimeout = some pair) :
      HappensOne config s f time .serverTimeout (s.serverMoves time pair)
  | clientTimeout {pair : Pair} (htime : time = s.clientSince + clientTimeval)
      (hstep : s.pair.step config .clientTimeout = some pair) :
      HappensOne config s f time .clientTimeout (s.clientMoves time pair)
  | deliver (i : ℕ) (hflying : s.flying = [f]) :
      HappensOne config s f time (.deliver i)
        (arrive config { s with flying := [] } time f.datagram)
  | lose {i : ℕ} (hflying : s.flying = [f]) (hf : s.flying[i]? = some f) :
      HappensOne config s f time (.lose i) { s with now := time, flying := [] }

theorem step_happensOne {f : Flight} (hflying : s.flying = [f] ∨ s.flying = [])
    (h : s.step config latency a = some s') :
    s.OnTime latency a.time ∧ HappensOne config s f a.time a.event s' := by
  obtain ⟨hontime, hhappens⟩ := step_happens h
  refine ⟨hontime, ?_⟩
  generalize a.event = event at hhappens
  generalize a.time = time at hhappens
  have hone : ∀ {i : ℕ} {g : Flight}, s.flying[i]? = some g →
      s.flying = [f] ∧ g = f ∧ s.flying.eraseIdx i = [] := by
    intro i g hg
    rcases hflying with hflying | hflying
    · rw [hflying] at hg ⊢
      obtain ⟨hlt, heq⟩ := List.getElem?_eq_some_iff.mp hg
      obtain rfl : i = 0 := Nat.lt_one_iff.mp hlt
      exact ⟨rfl, heq.symm, rfl⟩
    · simp [hflying] at hg
  cases hhappens with
  | serverTimeout htime hstep => exact .serverTimeout htime hstep
  | clientTimeout htime hstep => exact .clientTimeout htime hstep
  | deliver hf =>
      obtain ⟨hsingle, rfl, herased⟩ := hone hf
      rw [herased]
      exact .deliver _ hsingle
  | lose hf =>
      obtain ⟨hsingle, rfl, herased⟩ := hone hf
      rw [herased]
      exact .lose hsingle hf

end Timed

end NetworkHomework.Ftp
