import NetworkHomework.Ftp.Site
import Mathlib.Data.List.Nodup

/-!
# The ports of the transfer processes

The main loop again, with a clock.  `listenClient` seeds the generator with the second
it is entered in and draws once, so the port it hands out is a function of that second:
the base port, 33, and a number below 1000.  Nothing keeps it below 65536, and nothing
keeps it apart from the ports of the processes that are still running.
-/

namespace NetworkHomework.Ftp

open CString

/-- A transfer process: the second its `listenClient` was entered in, the port it was given, and the
port in the reply. -/
structure Transfer where
  seed : ℕ
  tempPort : ℤ
  connectPort : ℤ
  deriving DecidableEq

-- `entered` is the argument of the last `srand`, while `listenClient` waits for a request;
-- `started` keeps the processes that have ended
structure PortServer where
  clock : ℕ
  entered : Option ℕ
  tempPort : ℤ
  started : List Transfer
  alive : List Transfer

inductive PortAction
  /-- a second goes by -/
  | tick
  /-- the main loop enters `listenClient` -/
  | listen
  /-- a request that matches is received -/
  | request (r : Request)
  /-- a transfer process ends -/
  | exit (i : ℕ)

namespace PortServer

variable (config : ListenConfig) (rand : ℕ → ℕ)

/-- The main loop handles a request. -/
def handle (s : PortServer) (r : Request) (seed : ℕ) : PortServer :=
  let (tempPort, round) := mainRound config s.tempPort r (rand seed)
  let forked := match round.fork, round.reply with
    | some fork, some reply => [⟨seed, fork.tempPort, reply.connectPort⟩]
    | _, _ => []
  { s with
    entered := none, tempPort, started := s.started ++ forked, alive := s.alive ++ forked }

def step (s : PortServer) : PortAction → Option PortServer
  | .tick => some { s with clock := s.clock + 1 }
  | .listen => if s.entered = none then some { s with entered := some s.clock } else none
  | .request r =>
      if strncmp r.filename config.serFilename config.serFilename.length = 0 then
        s.entered.map (s.handle config rand r)
      else none
  | .exit i => if i < s.alive.length then some { s with alive := s.alive.eraseIdx i } else none

def start (clock : ℕ) (tempPort : ℤ) : PortServer :=
  { clock, entered := none, tempPort, started := [], alive := [] }

end PortServer

/-- The runs of the main loop with its transfer processes. -/
def portSystem (config : ListenConfig) (rand : ℕ → ℕ) :
    TransitionSystem PortServer PortAction where
  initial s := ∃ clock tempPort, s = PortServer.start clock tempPort
  step := PortServer.step config rand

/-- The port is one, and `htons` makes the same one of it on both sides. -/
structure Transfer.Valid (t : Transfer) : Prop where
  pos : 1 ≤ t.tempPort
  le : t.tempPort ≤ 65535
  same : portOf t.tempPort = portOf t.connectPort
  ne_zero : portOf t.tempPort ≠ 0

/-- All ports are valid, and live processes have different ones. -/
structure PortsOk (s : PortServer) : Prop where
  valid : ∀ t ∈ s.started, t.Valid
  distinct : (s.alive.map Transfer.tempPort).Nodup

/-- The draw of a `listenClient` that was entered in the second `seed`. -/
def drawn (rand : ℕ → ℕ) (seed : ℕ) : ℕ := rand seed % 1000

/-- The port of a request stays below 65536, and no live process has the same draw. -/
def FreshDraw (config : ListenConfig) (rand : ℕ → ℕ) (s : PortServer) : PortAction → Prop
  | .request _ => ∀ seed ∈ s.entered, config.port + drawn rand seed + 33 ≤ 65535 ∧
      ∀ t ∈ s.alive, drawn rand t.seed ≠ drawn rand seed
  | _ => True

instance (config : ListenConfig) (rand : ℕ → ℕ) :
    ∀ s a, Decidable (FreshDraw config rand s a)
  | _, .request _ => inferInstanceAs (Decidable (∀ seed ∈ _, _))
  | _, .tick | _, .listen | _, .exit _ => .isTrue trivial

variable {config : ListenConfig} {rand : ℕ → ℕ} {s s' : PortServer}

/-- A process is given the port that its draw stands for, and so is its client. -/
def Transfer.Given (config : ListenConfig) (rand : ℕ → ℕ) (t : Transfer) : Prop :=
  t.tempPort = config.port + drawn rand t.seed + 33 ∧ t.connectPort = t.tempPort

theorem Transfer.Given.valid_iff (hport : 1 ≤ config.port) {t : Transfer}
    (h : t.Given config rand) : t.Valid ↔ config.port + drawn rand t.seed + 33 ≤ 65535 := by
  obtain ⟨htemp, hconnect⟩ := h
  constructor
  · rintro ⟨-, hle, -, -⟩
    rwa [← htemp]
  · intro hle
    refine ⟨by omega, by omega, by rw [hconnect], ?_⟩
    rw [portOf, htemp]
    omega

/-- What a request does that matches. -/
theorem PortServer.step_request {r : Request}
    (hstep : s.step config rand (.request r) = some s') :
    ∃ t : Transfer, s.entered = some t.seed ∧ t.Given config rand ∧ s' =
      { s with
        entered := none, tempPort := t.tempPort
        started := s.started ++ [t], alive := s.alive ++ [t] } := by
  simp only [PortServer.step] at hstep
  split_ifs at hstep with hmatch
  obtain ⟨seed, hseed, rfl⟩ := Option.map_eq_some_iff.mp hstep
  refine ⟨⟨seed, config.port + drawn rand seed + 33, config.port + drawn rand seed + 33⟩, hseed,
    ⟨rfl, rfl⟩, ?_⟩
  simp [PortServer.handle, mainRound, listenClient, hmatch, drawn]

/-- The processes were given the ports of their draws. -/
structure PortServer.Given (config : ListenConfig) (rand : ℕ → ℕ) (s : PortServer) : Prop where
  given : ∀ t ∈ s.started, t.Given config rand
  started : s.alive ⊆ s.started

theorem PortServer.Given.step {a : PortAction} (h : s.Given config rand)
    (hstep : s.step config rand a = some s') : s'.Given config rand := by
  cases a with
  | tick =>
      obtain rfl := Option.some.inj hstep
      exact ⟨h.given, h.started⟩
  | listen =>
      obtain ⟨-, rfl⟩ := Option.ite_some_none_eq_some.mp hstep
      exact ⟨h.given, h.started⟩
  | request r =>
      obtain ⟨t, -, ht, rfl⟩ := PortServer.step_request hstep
      refine ⟨fun u hu => ?_, ?_⟩
      · rcases List.mem_append.mp hu with hu | hu
        · exact h.given u hu
        · rw [List.mem_singleton.mp hu]
          exact ht
      · exact List.append_subset.mpr ⟨List.subset_append_of_subset_left _ h.started,
          List.subset_append_right _ _⟩
  | exit i =>
      obtain ⟨-, rfl⟩ := Option.ite_some_none_eq_some.mp hstep
      exact ⟨h.given, fun t ht => h.started ((List.eraseIdx_sublist ..).subset ht)⟩

/-- A step keeps the ports in order exactly if its draw is fresh. -/
theorem portsOk_step_iff (hport : 1 ≤ config.port) {a : PortAction} (hgiven : s.Given config rand)
    (h : PortsOk s) (hstep : s.step config rand a = some s') :
    PortsOk s' ↔ FreshDraw config rand s a := by
  cases a with
  | tick =>
      obtain rfl := Option.some.inj hstep
      exact iff_of_true ⟨h.valid, h.distinct⟩ trivial
  | listen =>
      obtain ⟨-, rfl⟩ := Option.ite_some_none_eq_some.mp hstep
      exact iff_of_true ⟨h.valid, h.distinct⟩ trivial
  | request r =>
      obtain ⟨t, hseed, ht, rfl⟩ := PortServer.step_request hstep
      have hvalid : (∀ u ∈ s.started ++ [t], u.Valid) ↔
          config.port + drawn rand t.seed + 33 ≤ 65535 := by
        rw [← ht.valid_iff hport, List.forall_mem_append, List.forall_mem_singleton]
        exact and_iff_right h.valid
      have hdistinct : ((s.alive ++ [t]).map Transfer.tempPort).Nodup ↔
          ∀ u ∈ s.alive, drawn rand u.seed ≠ drawn rand t.seed := by
        have hsame : ∀ u ∈ s.alive,
            (t.tempPort = u.tempPort ↔ drawn rand u.seed = drawn rand t.seed) := by
          intro u hu
          rw [(hgiven.given u (hgiven.started hu)).1, ht.1]
          omega
        rw [List.map_append, List.map_singleton, List.nodup_append_comm, List.singleton_append,
          List.nodup_cons, and_iff_left h.distinct]
        simp only [List.mem_map, not_exists, not_and]
        refine forall₂_congr fun u hu => ?_
        rw [ne_eq, ← hsame u hu]
        exact not_congr eq_comm
      constructor
      · rintro ⟨hvalid', hdistinct'⟩ seed hmem
        obtain rfl := Option.some.inj (hseed.symm.trans hmem)
        exact ⟨hvalid.mp hvalid', hdistinct.mp hdistinct'⟩
      · intro hfresh
        obtain ⟨hle, hdraws⟩ := hfresh t.seed hseed
        exact ⟨hvalid.mpr hle, hdistinct.mpr hdraws⟩
  | exit i =>
      obtain ⟨-, rfl⟩ := Option.ite_some_none_eq_some.mp hstep
      refine iff_of_true ⟨h.valid, ?_⟩ trivial
      exact h.distinct.sublist ((List.eraseIdx_sublist ..).map _)

/-- **Ports.**  For every base port and every generator, the ports are in order throughout a run
exactly if the draw of every request is fresh. -/
theorem portsOk_throughout_iff (hport : 1 ≤ config.port) {clock : ℕ} {tempPort : ℤ}
    {actions : List PortAction}
    (hrun : (portSystem config rand).run (.start clock tempPort) actions = some s') :
    (portSystem config rand).Throughout PortsOk (.start clock tempPort) actions ↔
      (portSystem config rand).StepsMeet (FreshDraw config rand) (.start clock tempPort) actions :=
  TransitionSystem.throughout_iff_stepsMeet (PortServer.Given config rand)
    (fun _ _ _ hgiven hstep => hgiven.step hstep)
    (fun _ _ _ hgiven h hstep => portsOk_step_iff hport hgiven h hstep)
    ⟨by simp [PortServer.start], by simp [PortServer.start]⟩
    ⟨by simp [PortServer.start], by simp [PortServer.start]⟩ hrun

/-! ## Two requests in one second -/

namespace SameSecond

def serving (port : ℤ) : ListenConfig := ⟨port, lit "10.0.0.1", lit "a"⟩

def request : PortAction := .request ⟨⟨2, 7000⟩, lit "a"⟩

/-- A second goes by between the calls of `listenClient`. -/
def apart : List PortAction := [.listen, request, .tick, .listen, request]

def together : List PortAction := [.listen, request, .listen, request]

theorem portsOk_throughout_apart :
    (portSystem (serving 5000) id).Throughout PortsOk (.start 0 0) apart := by
  have hrun : ((portSystem (serving 5000) id).run (.start 0 0) apart).isSome := by decide
  obtain ⟨s', hs'⟩ := Option.isSome_iff_exists.mp hrun
  exact (portsOk_throughout_iff (by decide) hs').mpr (by decide)

/-- Two processes are given port 5033; a base port of 65535 gives 65568, which is no port. -/
theorem not_portsOk_throughout :
    (¬ ∀ actions s', (portSystem (serving 5000) id).run (.start 0 0) actions = some s' →
      (portSystem (serving 5000) id).Throughout PortsOk (.start 0 0) actions) ∧
    ¬ ∀ actions s', (portSystem (serving 65535) id).run (.start 0 0) actions = some s' →
      (portSystem (serving 65535) id).Throughout PortsOk (.start 0 0) actions := by
  constructor
  · intro hall
    have hlast : ((portSystem (serving 5000) id).run (.start 0 0) together).map
        (fun s => s.alive.map Transfer.tempPort) = some [5033, 5033] := by decide
    obtain ⟨s', hs', halive⟩ := Option.map_eq_some_iff.mp hlast
    have hdistinct := ((hall _ _ hs').last hs').distinct
    rw [halive] at hdistinct
    exact absurd hdistinct (by decide)
  · intro hall
    have hlast : ((portSystem (serving 65535) id).run (.start 0 0) [.listen, request]).map
        PortServer.started = some [⟨0, 65568, 65568⟩] := by decide
    obtain ⟨s', hs', hstarted⟩ := Option.map_eq_some_iff.mp hlast
    have hvalid := ((hall _ _ hs').last hs').valid
    rw [hstarted] at hvalid
    exact absurd (hvalid _ (List.mem_singleton_self _)).le (by decide)

end SameSecond

end NetworkHomework.Ftp
