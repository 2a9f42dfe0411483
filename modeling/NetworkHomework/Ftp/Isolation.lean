import NetworkHomework.Ftp.Site
import Mathlib.Data.Fintype.Basic

/-!
# Isolation of concurrent clients

A process answers whoever spoke last, so a second client that knows its port steers
the transfer of the first.  While every process that accepted a request hears only from
the client that sent it (`KeepsToClient`), each process serves its own client as in
`Integrity.lean`: the invariant has one counter `k x` for each client `x`, and
everything in flight is bounded by the counter of the one client it comes from or goes
to.

The second condition, `DistinctPorts`, speaks of the draws alone: no client starts on
a port that another one uses.  Then every socket talks to one client only, which gives
the first condition.
-/

namespace NetworkHomework.Ftp

variable {Name : Type} {config : SiteConfig Name} {s s' : Site Name} {k : Name → ℕ}

/-- A process that ended on ACK 0 has transferred the file to the client whose request it
accepted, and a client that reported the end has the file. -/
def Isolated (config : SiteConfig Name) (s : Site Name) : Prop :=
  (∀ p ∈ s.processes, p.server.pc = .returned → ∃ x c,
    p.accepted = some (config.clientAddr x) ∧ s.client x = some c ∧
      c.written = config.server.file) ∧
  ∀ x c, s.client x = some c → c.pc = .finished → c.written = config.server.file

/-- A process that accepted a request receives from that client only, and no datagram is kept
back for 64000 chunks. -/
def KeepsToClient (s : Site Name) : SiteAction Name → Prop
  | .toProcess i d => ∀ p ∈ s.processes[i]?,
      (∀ a ∈ p.accepted, d.source = a) ∧ ∀ j ∈ d.about, p.server.chunk < j + 64000
  | .toClient x d => ∀ c ∈ s.client x, ∀ j ∈ d.about, c.written.length / mfMaxData < j + 64000
  | _ => True

/-- No client starts on the port of another one, and no datagram is kept back for 64000 chunks. -/
def DistinctPorts (s : Site Name) : SiteAction Name → Prop
  | .startClient _ reply => ∀ y, ∀ c ∈ s.client y, c.servaddr.port ≠ portOf reply.connectPort
  | .toProcess i d => ∀ p ∈ s.processes[i]?, ∀ j ∈ d.about, p.server.chunk < j + 64000
  | .toClient x d => ∀ c ∈ s.client x, ∀ j ∈ d.about, c.written.length / mfMaxData < j + 64000
  | _ => True

instance (s : Site Name) : (a : SiteAction Name) → Decidable (KeepsToClient s a)
  | .toProcess i d => inferInstanceAs (Decidable (∀ p ∈ s.processes[i]?,
      (∀ a ∈ p.accepted, d.source = a) ∧ ∀ j ∈ d.about, p.server.chunk < j + 64000))
  | .toClient x d => inferInstanceAs (Decidable (∀ c ∈ s.client x, ∀ j ∈ d.about,
      c.written.length / mfMaxData < j + 64000))
  | .request .. | .bind .. | .startClient .. | .processTimeout _ | .clientTimeout _ =>
      inferInstanceAs (Decidable True)

instance [Fintype Name] (s : Site Name) : (a : SiteAction Name) → Decidable (DistinctPorts s a)
  | .startClient _ reply => inferInstanceAs (Decidable (∀ y, ∀ c ∈ s.client y,
      c.servaddr.port ≠ portOf reply.connectPort))
  | .toProcess i d => inferInstanceAs (Decidable (∀ p ∈ s.processes[i]?, ∀ j ∈ d.about,
      p.server.chunk < j + 64000))
  | .toClient x d => inferInstanceAs (Decidable (∀ c ∈ s.client x, ∀ j ∈ d.about,
      c.written.length / mfMaxData < j + 64000))
  | .request .. | .bind .. | .processTimeout _ | .clientTimeout _ =>
      inferInstanceAs (Decidable True)

/-! ## The invariant of isolated transfers -/

/-- What may be in flight at the site, when client `x` has accepted `k x` chunks. -/
def SiteInFlight (config : SiteConfig Name) (k : Name → ℕ) (d : Datagram) : Prop :=
  ∃ x,
    (d.source = config.clientAddr x ∧ d.dest.host = config.host ∧
      IsReply (config.client x) config.server.file (k x) d.about d.bytes) ∨
    (d.source.host = config.host ∧ d.dest = config.clientAddr x ∧
      IsData config.server (k x) d.about d.bytes)

/-- A process waits for a request, or serves the client whose request it accepted. -/
inductive ProcessInv (config : SiteConfig Name) (k : Name → ℕ) (p : Process) : Prop
  | idle (haccepted : p.accepted = none)
      (hpc : p.server.pc = .waitFrq ∨ p.server.pc = .exited) (hchunk : p.server.chunk = 0)
  | serving (x : Name) (haccepted : p.accepted = some (config.clientAddr x))
      (hserves : p.server.Serves config.server (config.clientAddr x) (k x))

structure SiteInv (config : SiteConfig Name) (s : Site Name) (k : Name → ℕ) : Prop where
  unstarted : ∀ x, s.client x = none → k x = 0
  client : ∀ x c, s.client x = some c →
    c.servaddr.host = config.host ∧ c.Accepted config.server.file (k x)
  process : ∀ p ∈ s.processes, ProcessInv config k p
  net : ∀ d ∈ s.net, SiteInFlight config k d

theorem SiteInFlight.mono {k k' : Name → ℕ} (hle : ∀ x, k x ≤ k' x) {d : Datagram}
    (h : SiteInFlight config k d) : SiteInFlight config k' d := by
  obtain ⟨x, ⟨hsource, hdest, hreply⟩ | ⟨hsource, hdest, hdata⟩⟩ := h
  · exact ⟨x, Or.inl ⟨hsource, hdest, hreply.mono (hle x)⟩⟩
  · exact ⟨x, Or.inr ⟨hsource, hdest, hdata.mono (hle x)⟩⟩

theorem ProcessInv.mono {k k' : Name → ℕ} (hle : ∀ x, k x ≤ k' x) {p : Process}
    (h : ProcessInv config k p) : ProcessInv config k' p := by
  cases h with
  | idle haccepted hpc hchunk => exact .idle haccepted hpc hchunk
  | serving x haccepted hserves => exact .serving x haccepted (hserves.mono (hle x))

/-- What goes to the server host comes from a client. -/
theorem SiteInFlight.toHost {d : Datagram} (h : SiteInFlight config k d)
    (hdest : d.dest.host = config.host) : ∃ x, d.source = config.clientAddr x ∧
      IsReply (config.client x) config.server.file (k x) d.about d.bytes := by
  obtain ⟨x, ⟨hsource, -, hreply⟩ | ⟨-, hclient, -⟩⟩ := h
  · exact ⟨x, hsource, hreply⟩
  · exact absurd (hclient ▸ hdest) (config.remote x)

/-- What goes to a client comes from the server host, and is a chunk the client may have. -/
theorem SiteInFlight.toClient {d : Datagram} {x : Name}
    (h : SiteInFlight config k d) (hdest : d.dest = config.clientAddr x) :
    d.source.host = config.host ∧ IsData config.server (k x) d.about d.bytes := by
  obtain ⟨y, ⟨-, hhost, -⟩ | ⟨hsource, hclient, hdata⟩⟩ := h
  · exact absurd (hdest ▸ hhost) (config.remote x)
  · obtain rfl := config.injective (hclient.symm.trans hdest)
    exact ⟨hsource, hdata⟩

/-- A client whose counter moved has started. -/
theorem SiteInv.client_of_pos (h : SiteInv config s k) {x : Name}
    (hpos : 0 < k x) : ∃ c, s.client x = some c := by
  cases hc : s.client x with
  | none => exact absurd (h.unstarted x hc) (by omega)
  | some c => exact ⟨c, rfl⟩

/-- **The invariant implies isolation.** -/
theorem SiteInv.isolated (h : SiteInv config s k) : Isolated config s := by
  constructor
  · intro p hp hreturned
    cases h.process p hp with
    | idle _ hpc _ => rcases hpc with hpc | hpc <;> simp [hpc] at hreturned
    | serving x haccepted hserves =>
        have hlast := hserves.returned hreturned
        obtain ⟨c, hc⟩ := h.client_of_pos (x := x) (by omega)
        refine ⟨x, c, haccepted, hc, ?_⟩
        rw [(h.client x c hc).2.written_eq]
        exact firstChunks_of_lt hlast
  · intro x c hc hfinished
    exact (h.client x c hc).2.written_of_finished hfinished

/-! ## Steps of a process -/

/-- A step of one process leaves the others as they are. -/
theorem Site.forall_processes_set {p' : Process} {property : Process → Prop} (i : ℕ)
    (hall : ∀ q ∈ s.processes, property q) (hp' : property p') :
    ∀ q ∈ s.processes.set i p', property q := by
  intro q hq
  obtain hq | hq := List.mem_or_eq_of_mem_set hq
  · exact hall q hq
  · exact hq ▸ hp'

/-- A process goes on to `p'` and sends chunks that clients may have. -/
theorem SiteInv.processStep (h : SiteInv config s k) {i : ℕ} {p : Process} {r : Recv}
    (hprocess : ∀ accepted, accepted = (if p.server.pc = .waitFrq ∧
        (startMyftpServer config.server p.server r).1.pc = .waitAck then
          some (startMyftpServer config.server p.server r).1.clientaddr else p.accepted) →
      ProcessInv config k
        { p with server := (startMyftpServer config.server p.server r).1, accepted })
    (hout : ∀ packet ∈ (startMyftpServer config.server p.server r).2, ∃ x,
      packet.dest = config.clientAddr x ∧ IsData config.server (k x)
        (some (startMyftpServer config.server p.server r).1.chunk) packet.bytes) :
    SiteInv config (s.processStep config i p r) k := by
  refine ⟨h.unstarted, h.client, Site.forall_processes_set i h.process (hprocess _ rfl), ?_⟩
  intro d hd
  rcases List.mem_append.mp hd with hd | hd
  · exact h.net d hd
  · obtain ⟨packet, hmem, rfl⟩ := List.mem_map.mp hd
    obtain ⟨x, hdest, hdata⟩ := hout packet hmem
    exact ⟨x, Or.inr ⟨rfl, hdest, hdata⟩⟩

/-- A process that serves its client goes on doing so. -/
theorem SiteInv.serving_step (h : SiteInv config s k) {i : ℕ} {p : Process} {r : Recv} {x : Name}
    (hlive : p.Live) (haccepted : p.accepted = some (config.clientAddr x))
    (hserves : p.server.Serves config.server (config.clientAddr x) (k x))
    (hsource : r.sourceOr (config.clientAddr x) = config.clientAddr x)
    (hack : p.server.AckSound config.server (k x) r) :
    SiteInv config (s.processStep config i p r) k := by
  obtain ⟨hserves', -, hout⟩ := hserves.step hlive.2 hsource hack
  apply h.processStep
  · intro accepted haccepted'
    refine .serving x ?_ hserves'
    split_ifs at haccepted' with hnew
    · rw [haccepted', (hserves'.sending hnew.2).2]
    · exact haccepted'.trans haccepted
  · intro packet hmem
    rw [hout packet hmem]
    exact ⟨x, rfl, _, hserves'.chunk_le, hserves'.chunk_le_last, rfl, rfl⟩

/-- A process without a request stays so, or accepts one from a client. -/
theorem SiteInv.idle_step (h : SiteInv config s k) {i : ℕ} {p : Process} {r : Recv}
    (hpc : p.server.pc = .waitFrq) (haccepted : p.accepted = none) (hchunk : p.server.chunk = 0)
    (hsource : ∀ source bytes, r = .datagram source bytes → ∃ x, source = config.clientAddr x) :
    SiteInv config (s.processStep config i p r) k := by
  have hround := @Server.waitFrq_round config.server p.server hpc r
  rw [← Server.startMyftpServer_waitFrq hpc] at hround
  cases hround with
  | exited hpc' hchunk' hout =>
      refine h.processStep (fun accepted haccepted' => ?_) (by simp [hout])
      refine .idle ?_ (Or.inr hpc') (hchunk'.trans hchunk)
      simpa [hpc', haccepted] using haccepted'
  | waiting hpc' hchunk' hout =>
      refine h.processStep (fun accepted haccepted' => ?_) (by simp [hout])
      refine .idle ?_ (Or.inl hpc') (hchunk'.trans hchunk)
      simpa [hpc', haccepted] using haccepted'
  | accepted source bytes hr hsending _ _ =>
      obtain ⟨x, rfl⟩ := hsource source bytes hr
      -- before the first chunk the process is in the service of anyone
      have hserves : p.server.Serves config.server (config.clientAddr x) (k x) :=
        ⟨fun _ => hchunk, fun hwait => by simp [hpc] at hwait, by omega, by omega,
          fun hret => by simp [hpc] at hret⟩
      obtain ⟨hserves', -, hout⟩ := hserves.step (r := r) (Or.inl hpc) (by rw [hr]; rfl)
        fun _ _ _ _ hwait => by simp [hpc] at hwait
      apply h.processStep
      · intro accepted haccepted'
        refine .serving x ?_ hserves'
        rw [if_pos ⟨hpc, hsending.pc_eq⟩] at haccepted'
        rw [haccepted', (hserves'.sending hsending.pc_eq).2]
      · intro packet hmem
        rw [hout packet hmem]
        exact ⟨x, rfl, _, hserves'.chunk_le, hserves'.chunk_le_last, rfl, rfl⟩

/-- A live process without a request waits for one. -/
theorem Process.Live.waitFrq {p : Process} (hlive : p.Live)
    (hpc : p.server.pc = .waitFrq ∨ p.server.pc = .exited) : p.server.pc = .waitFrq := by
  rcases hpc with hpc | hpc
  · exact hpc
  · rcases hlive.2 with hlive | hlive <;> simp [hpc] at hlive

/-- A timeout of a process. -/
theorem SiteInv.processTimeout (h : SiteInv config s k) {i : ℕ} {p : Process}
    (hp : s.processes[i]? = some p) (hlive : p.Live) :
    SiteInv config (s.processStep config i p .timeout) k := by
  cases h.process p (List.mem_of_getElem? hp) with
  | idle haccepted hpc hchunk =>
      exact h.idle_step (hlive.waitFrq hpc) haccepted hchunk fun _ _ hr => by simp at hr
  | serving x haccepted hserves =>
      exact h.serving_step hlive haccepted hserves rfl fun _ _ _ hr => by simp at hr

/-- A datagram reaches a process that keeps to its client. -/
theorem SiteInv.toProcess (h : SiteInv config s k) {i : ℕ} {p : Process} {d : Datagram}
    (hp : s.processes[i]? = some p) (hlive : p.Live) (hd : d ∈ s.net)
    (hdest : d.dest = Site.socket config p.port)
    (hkeeps : (∀ a ∈ p.accepted, d.source = a) ∧ ∀ j ∈ d.about, p.server.chunk < j + 64000) :
    SiteInv config (s.processStep config i p (.datagram d.source d.bytes)) k := by
  obtain ⟨y, hsource, hreply⟩ := (h.net d hd).toHost (by rw [hdest]; rfl)
  cases h.process p (List.mem_of_getElem? hp) with
  | idle haccepted hpc hchunk =>
      refine h.idle_step (hlive.waitFrq hpc) haccepted hchunk fun source bytes hr => ⟨y, ?_⟩
      rw [← (Recv.datagram.inj hr).1, hsource]
  | serving x haccepted hserves =>
      have hpeer : d.source = config.clientAddr x := hkeeps.1 _ haccepted
      obtain rfl := config.injective (hsource.symm.trans hpeer)
      refine h.serving_step hlive haccepted hserves hsource (hreply.ackSound (fun _ => ?_) hkeeps.2)
      exact ⟨hserves.chunk_le_last, hserves.chunk_le⟩

/-! ## Steps of a client -/

variable [DecidableEq Name]

/-- A client goes on with `kx` chunks accepted, and sends replies to the server host. -/
theorem SiteInv.clientStep (h : SiteInv config s k) {x : Name} {c : Client} {r : Recv}
    {about : Option ℕ} {kx : ℕ} (hc : s.client x = some c) (hpc : c.pc = .receiving)
    (hle : k x ≤ kx) (hsource : (r.sourceOr c.servaddr).host = config.host)
    (haccepted : (startMyftpClient (config.client x) c r).1.Accepted config.server.file kx)
    (hout : ∀ packet ∈ (startMyftpClient (config.client x) c r).2,
      packet.dest.host = config.host ∧ IsReply (config.client x) config.server.file kx
        (aboutOfAnswer about packet.bytes) packet.bytes) :
    SiteInv config (s.clientStep config x c about r) (Function.update k x kx) := by
  have hmono : ∀ y, k y ≤ Function.update k x kx y := by
    intro y
    by_cases hy : y = x
    · subst hy
      simpa using hle
    · simp [hy]
  refine ⟨fun y hy => ?_, fun y c' hc' => ?_, fun p hp => (h.process p hp).mono hmono, ?_⟩
  · by_cases hyx : y = x
    · subst hyx
      simp [Site.clientStep] at hy
    · simp only [Site.clientStep, Function.update_of_ne hyx] at hy ⊢
      exact h.unstarted y hy
  · by_cases hyx : y = x
    · subst hyx
      simp only [Site.clientStep, Function.update_self, Option.some.injEq] at hc' ⊢
      subst hc'
      refine ⟨?_, haccepted⟩
      rw [Client.servaddr_startMyftpClient hpc]
      exact hsource
    · simp only [Site.clientStep, Function.update_of_ne hyx] at hc' ⊢
      exact h.client y c' hc'
  · intro d hd
    rcases List.mem_append.mp hd with hd | hd
    · exact (h.net d hd).mono hmono
    · obtain ⟨packet, hmem, rfl⟩ := List.mem_map.mp hd
      refine ⟨x, Or.inl ⟨rfl, ?_⟩⟩
      simpa using hout packet hmem

theorem SiteInv.clientTimeout (h : SiteInv config s k) {x : Name} {c : Client}
    (hc : s.client x = some c) (hpc : c.pc = .receiving) :
    SiteInv config (s.clientStep config x c none .timeout) (Function.update k x (k x)) := by
  obtain ⟨hhost, haccepted⟩ := h.client x c hc
  have hstep : startMyftpClient (config.client x) c .timeout =
      c.timedOut (config.client x) := by
    rw [startMyftpClient, hpc]
    rfl
  obtain ⟨hkeep, hout⟩ := haccepted.timedOut (config.client x) hpc
  rw [← hstep] at hout
  refine h.clientStep hc hpc (Nat.le_refl _) hhost (hstep ▸ hkeep) fun packet hmem => ?_
  exact ⟨by rw [(hout packet hmem).1, hhost], .recovery (hout packet hmem).2⟩

theorem SiteInv.toClient (h : SiteInv config s k) {x : Name} {c : Client} {d : Datagram}
    (hc : s.client x = some c) (hpc : c.pc = .receiving) (hd : d ∈ s.net)
    (hdest : d.dest = config.clientAddr x)
    (hfresh : ∀ j ∈ d.about, c.written.length / mfMaxData < j + 64000) :
    ∃ kx, SiteInv config (s.clientStep config x c d.about (.datagram d.source d.bytes))
      (Function.update k x kx) := by
  obtain ⟨hhost, haccepted⟩ := h.client x c hc
  obtain ⟨hsource, j, hj, hlast, habout, hbytes⟩ := (h.net d hd).toClient hdest
  -- what the client has written tells how far it is
  have hnear : k x < j + 64998 := by
    have hclose := hfresh j habout
    rw [haccepted.written_eq, length_firstChunks_div (haccepted.receiving hpc).1] at hclose
    omega
  obtain ⟨kx, hk, haccepted', hout⟩ :=
    haccepted.step_data (config.client x) hpc d.source hlast hj hnear
  rw [habout, hbytes]
  refine ⟨kx, h.clientStep hc hpc (by omega) hsource haccepted' fun packet hmem => ?_⟩
  exact ⟨by rw [(hout packet hmem).1, hsource], (hout packet hmem).2⟩

theorem SiteInv.launch (h : SiteInv config s k) {x : Name} (hnone : s.client x = none)
    (reply : BootServerInfo) : SiteInv config (s.launch config x reply) k := by
  refine ⟨fun y hy => ?_, fun y c hc => ?_, h.process, fun d hd => ?_⟩
  · by_cases hyx : y = x
    · subst hyx
      simp [Site.launch] at hy
    · simp only [Site.launch, Function.update_of_ne hyx] at hy
      exact h.unstarted y hy
  · by_cases hyx : y = x
    · subst hyx
      simp only [Site.launch, Function.update_self, Option.some.injEq] at hc
      subst hc
      rw [h.unstarted y hnone]
      exact ⟨rfl, Client.accepted_start _ _⟩
    · simp only [Site.launch, Function.update_of_ne hyx] at hc
      exact h.client y c hc
  · rcases List.mem_append.mp hd with hd | hd
    · exact h.net d hd
    · rw [List.mem_singleton.mp hd]
      exact ⟨x, Or.inl ⟨rfl, rfl, .recovery (Or.inl rfl)⟩⟩

/-! ## Every run -/

omit [DecidableEq Name] in
theorem siteInv_start (config : SiteConfig Name) (tempPort : ℤ) :
    SiteInv config (Site.start tempPort) 0 := by
  refine ⟨fun _ _ => rfl, fun x c hc => ?_, fun p hp => ?_, fun d hd => ?_⟩
  · simp [Site.start] at hc
  · simp [Site.start] at hp
  · simp [Site.start] at hd

omit [DecidableEq Name] in
theorem SiteInv.handle (h : SiteInv config s k) (r : Request) (rand : ℕ) (garbage : Buffer 6) :
    SiteInv config (s.handle config r rand garbage) k := by
  refine ⟨h.unstarted, h.client, fun p hp => ?_, h.net⟩
  rcases List.mem_append.mp hp with hp | hp
  · exact h.process p hp
  · obtain ⟨fork, -, rfl⟩ := List.mem_map.mp hp
    exact .idle rfl (Or.inl rfl) rfl

omit [DecidableEq Name] in
/-- A process that binds either exits or has a port. -/
theorem Site.bindPort_cases (s : Site Name) (p : Process) (ephemeral : ℕ) :
    s.bindPort p ephemeral = { p with server := { p.server with pc := .exited } } ∨
      ∃ port, s.bindPort p ephemeral = { p with port, bound := true } := by
  unfold Site.bindPort
  dsimp only
  generalize (if p.port = 0 then ephemeral else p.port) = port
  split
  · exact Or.inl rfl
  · exact Or.inr ⟨_, rfl⟩

omit [DecidableEq Name] in
theorem SiteInv.bindPort (h : SiteInv config s k) {i : ℕ} {p : Process}
    (hp : s.processes[i]? = some p) (hpc : p.server.pc = .waitFrq) (ephemeral : ℕ) :
    SiteInv config { s with processes := s.processes.set i (s.bindPort p ephemeral) } k := by
  refine ⟨h.unstarted, h.client, Site.forall_processes_set i h.process ?_, h.net⟩
  have hprocess := h.process p (List.mem_of_getElem? hp)
  rcases s.bindPort_cases p ephemeral with heq | ⟨port, heq⟩ <;> rw [heq]
  · cases hprocess with
    | idle haccepted _ hchunk => exact .idle haccepted (Or.inr rfl) hchunk
    | serving x haccepted hserves =>
        exact .serving x haccepted (hserves.quiet rfl (Or.inl rfl))
  · cases hprocess with
    | idle haccepted _ hchunk => exact .idle haccepted (Or.inl hpc) hchunk
    | serving x haccepted hserves => exact .serving x haccepted hserves

theorem siteInv_step {a : SiteAction Name} (h : ∃ k, SiteInv config s k)
    (hkeeps : KeepsToClient s a) (hstep : s.step config a = some s') :
    ∃ k, SiteInv config s' k := by
  obtain ⟨k, h⟩ := h
  cases Site.stepped_of_step hstep with
  | request r rand garbage => exact ⟨k, h.handle r rand garbage⟩
  | bind ephemeral hp hpc _ => exact ⟨k, h.bindPort hp hpc ephemeral⟩
  | startClient hnone => exact ⟨k, h.launch hnone _⟩
  | processTimeout hp hlive => exact ⟨k, h.processTimeout hp hlive⟩
  | toProcess hp hlive hd hdest => exact ⟨k, h.toProcess hp hlive hd hdest (hkeeps _ hp)⟩
  | clientTimeout hc hpc => exact ⟨_, h.clientTimeout hc hpc⟩
  | toClient hc hpc hd hdest =>
      obtain ⟨kx, h'⟩ := h.toClient hc hpc hd hdest (hkeeps _ hc)
      exact ⟨_, h'⟩

theorem isolated_of_keepsToClient (h : (siteSystem config).ReachableUnder KeepsToClient s) :
    Isolated config s := by
  have hinv : ∃ k, SiteInv config s k := by
    refine h.invariant ?_ fun s a s' hs hkeeps hstep => siteInv_step hs hkeeps hstep
    rintro s ⟨tempPort, rfl⟩
    exact ⟨0, siteInv_start config tempPort⟩
  obtain ⟨k, hk⟩ := hinv
  exact hk.isolated

/-! ## Distinct ports -/

/-- The address that client `x` sends to. -/
def Site.peer (s : Site Name) (x : Name) : Option Addr := (s.client x).map Client.servaddr

/-- Every socket of the server host talks to one client. -/
structure PortInv (config : SiteConfig Name) (s : Site Name) : Prop where
  host : ∀ x a, s.peer x = some a → a.host = config.host
  distinct : ∀ x y a, s.peer x = some a → s.peer y = some a → x = y
  toClient : ∀ d ∈ s.net, ∀ x, d.dest = config.clientAddr x → s.peer x = some d.source
  toHost : ∀ d ∈ s.net, d.dest.host = config.host →
    ∃ x, d.source = config.clientAddr x ∧ s.peer x = some d.dest
  accepted : ∀ p ∈ s.processes, ∀ a ∈ p.accepted,
    ∃ x, a = config.clientAddr x ∧ s.peer x = some (Site.socket config p.port)
  current : ∀ p ∈ s.processes, p.server.pc = .waitAck → p.accepted = some p.server.clientaddr
  unbound : ∀ p ∈ s.processes, ¬ p.bound → p.accepted = none

omit [DecidableEq Name] in
theorem portInv_start (config : SiteConfig Name) (tempPort : ℤ) :
    PortInv config (Site.start tempPort) := by
  constructor <;> simp [Site.start, Site.peer]

omit [DecidableEq Name] in
/-- A datagram to a process that accepted a request comes from its client. -/
theorem PortInv.source_eq (h : PortInv config s) {i : ℕ} {p : Process} {d : Datagram}
    (hp : s.processes[i]? = some p) (hd : d ∈ s.net)
    (hdest : d.dest = Site.socket config p.port) : ∀ a ∈ p.accepted, d.source = a := by
  intro a ha
  obtain ⟨x, hsource, hx⟩ := h.toHost d hd (by rw [hdest]; rfl)
  obtain ⟨y, rfl, hy⟩ := h.accepted p (List.mem_of_getElem? hp) a ha
  rw [hdest] at hx
  rw [hsource, h.distinct x y _ hx hy]

theorem PortInv.keepsToClient {a : SiteAction Name} (h : PortInv config s)
    (hports : DistinctPorts s a) (hstep : s.step config a = some s') : KeepsToClient s a := by
  cases Site.stepped_of_step hstep with
  | toProcess hp hlive hd hdest =>
      intro q hq
      obtain rfl : _ = q := Option.some.inj (hp.symm.trans hq)
      exact ⟨h.source_eq hp hd hdest, hports _ hq⟩
  | toClient hc hpc hd hdest => exact hports
  | request | bind | startClient | processTimeout | clientTimeout => trivial

omit [DecidableEq Name] in
/-- A process goes on, with the result of a `recvfrom` on its own socket. -/
theorem PortInv.processStep (h : PortInv config s) {i : ℕ} {p : Process} {r : Recv}
    (hp : s.processes[i]? = some p) (hlive : p.Live)
    (hsource : ∀ source bytes, r = .datagram source bytes → (∀ a ∈ p.accepted, source = a) ∧
      ∃ x, source = config.clientAddr x ∧ s.peer x = some (Site.socket config p.port)) :
    PortInv config (s.processStep config i p r) := by
  have hmem := List.mem_of_getElem? hp
  have haddr := @Server.clientaddr_startMyftpServer config.server p.server hlive.2 r
  have hout := @Server.dest_startMyftpServer config.server p.server r
  simp only [Site.processStep]
  set server := (startMyftpServer config.server p.server r).1 with hserver
  set accepted := if p.server.pc = .waitFrq ∧ server.pc = .waitAck then
    some server.clientaddr else p.accepted with haccepted
  -- a new acceptance is of the datagram received on this socket
  have howner : ∀ a ∈ accepted,
      ∃ x, a = config.clientAddr x ∧ s.peer x = some (Site.socket config p.port) := by
    intro a ha
    rw [haccepted] at ha
    split_ifs at ha with hnew
    · have hround := @Server.waitFrq_round config.server p.server hnew.1 r
      rw [← Server.startMyftpServer_waitFrq hnew.1, ← hserver] at hround
      cases hround with
      | exited hpc' _ _ => simp [hpc'] at hnew
      | waiting hpc' _ _ => simp [hpc'] at hnew
      | accepted source bytes hr _ _ _ =>
          obtain ⟨x, hx, hpeer⟩ := (hsource source bytes hr).2
          obtain rfl : _ = a := Option.some.inj ha
          exact ⟨x, by rw [haddr, hr]; exact hx, hpeer⟩
    · exact h.accepted p hmem a ha
  have hcurrent : server.pc = .waitAck → accepted = some server.clientaddr := by
    intro hwait
    rcases hlive.2 with hpc | hpc
    · rw [haccepted, if_pos ⟨hpc, hwait⟩]
    · have hold := h.current p hmem hpc
      rw [haccepted, if_neg (by simp [hpc]), hold, haddr]
      cases r with
      | timeout => rfl
      | datagram source bytes => rw [(hsource source bytes rfl).1 _ hold]; rfl
  refine ⟨h.host, h.distinct, ?_, ?_, ?_, ?_, ?_⟩
  · intro d hd y hy
    rcases List.mem_append.mp hd with hd | hd
    · exact h.toClient d hd y hy
    · obtain ⟨packet, hpacket, rfl⟩ := List.mem_map.mp hd
      obtain ⟨hdest, hwait⟩ := hout packet hpacket
      obtain ⟨x, hx, hpeer⟩ := howner _ (hcurrent hwait)
      obtain rfl := config.injective ((hdest.trans hx).symm.trans hy)
      exact hpeer
  · intro d hd hhost
    rcases List.mem_append.mp hd with hd | hd
    · exact h.toHost d hd hhost
    · obtain ⟨packet, hpacket, rfl⟩ := List.mem_map.mp hd
      obtain ⟨hdest, hwait⟩ := hout packet hpacket
      obtain ⟨x, hx, -⟩ := howner _ (hcurrent hwait)
      exact absurd ((hdest.trans hx) ▸ hhost) (config.remote x)
  · exact Site.forall_processes_set i h.accepted howner
  · exact Site.forall_processes_set i h.current hcurrent
  · exact Site.forall_processes_set i h.unbound fun hunbound => absurd hlive.1 hunbound

/-- A client goes on, with the result of a `recvfrom` from its own peer. -/
theorem PortInv.clientStep (h : PortInv config s) {x : Name} {c : Client} {r : Recv}
    {about : Option ℕ} (hc : s.client x = some c) (hpc : c.pc = .receiving)
    (hsource : r.sourceOr c.servaddr = c.servaddr) :
    PortInv config (s.clientStep config x c about r) := by
  have haddr : (startMyftpClient (config.client x) c r).1.servaddr = c.servaddr :=
    (Client.servaddr_startMyftpClient hpc r).trans hsource
  have hx : s.peer x = some c.servaddr := by rw [Site.peer, hc]; rfl
  have hpeer : ∀ y, (s.clientStep config x c about r).peer y = s.peer y := by
    intro y
    by_cases hyx : y = x
    · subst hyx
      rw [hx, ← haddr]
      simp [Site.peer, Site.clientStep]
    · simp [Site.peer, Site.clientStep, hyx]
  have hnew : ∀ packet ∈ (startMyftpClient (config.client x) c r).2,
      packet.dest = c.servaddr := by
    intro packet hmem
    rw [Client.dest_startMyftpClient hpc r packet hmem, haddr]
  refine ⟨?_, ?_, ?_, ?_, ?_, h.current, h.unbound⟩
  · simpa only [hpeer] using h.host
  · simpa only [hpeer] using h.distinct
  · intro d hd y hy
    rw [hpeer]
    rcases List.mem_append.mp hd with hd | hd
    · exact h.toClient d hd y hy
    · obtain ⟨packet, hmem, rfl⟩ := List.mem_map.mp hd
      have hhost := h.host x _ hx
      rw [← hnew packet hmem] at hhost
      exact absurd (hy ▸ hhost) (config.remote y)
  · intro d hd hhost
    simp only [hpeer]
    rcases List.mem_append.mp hd with hd | hd
    · exact h.toHost d hd hhost
    · obtain ⟨packet, hmem, rfl⟩ := List.mem_map.mp hd
      exact ⟨x, rfl, by rw [hx, ← hnew packet hmem]⟩
  · intro p hp a ha
    simpa only [hpeer] using h.accepted p hp a ha

theorem PortInv.launch (h : PortInv config s) {x : Name} {reply : BootServerInfo}
    (hnone : s.client x = none)
    (hports : ∀ y, ∀ c ∈ s.client y, c.servaddr.port ≠ portOf reply.connectPort) :
    PortInv config (s.launch config x reply) := by
  have hself : (s.launch config x reply).peer x =
      some (Site.socket config (portOf reply.connectPort)) := by
    simp [Site.peer, Site.launch, Client.start]
  have hother : ∀ y, y ≠ x → (s.launch config x reply).peer y = s.peer y := by
    intro y hy
    simp [Site.peer, Site.launch, hy]
  have hkeep : ∀ y a, s.peer y = some a → (s.launch config x reply).peer y = some a := by
    intro y a ha
    rw [hother y ?_, ha]
    rintro rfl
    simp [Site.peer, hnone] at ha
  have hfree : ∀ y a, s.peer y = some a → a ≠ Site.socket config (portOf reply.connectPort) := by
    rintro y a ha rfl
    obtain ⟨c, hc, hservaddr⟩ := Option.map_eq_some_iff.mp ha
    exact hports y c hc (by rw [hservaddr]; rfl)
  refine ⟨fun y a ha => ?_, fun y z a hy hz => ?_, fun d hd y hy => ?_, fun d hd hhost => ?_,
    fun p hp a ha => ?_, h.current, h.unbound⟩
  · by_cases hyx : y = x
    · subst hyx
      rw [← Option.some.inj (hself.symm.trans ha)]
      rfl
    · exact h.host y a (hother y hyx ▸ ha)
  · by_cases hyx : y = x <;> by_cases hzx : z = x
    · rw [hyx, hzx]
    · subst hyx
      rw [hother z hzx] at hz
      exact absurd (Option.some.inj (hy.symm.trans hself)) (hfree z a hz)
    · subst hzx
      rw [hother y hyx] at hy
      exact absurd (Option.some.inj (hz.symm.trans hself)) (hfree y a hy)
    · rw [hother y hyx] at hy
      rw [hother z hzx] at hz
      exact h.distinct y z a hy hz
  · rcases List.mem_append.mp hd with hd | hd
    · exact hkeep y _ (h.toClient d hd y hy)
    · rw [List.mem_singleton.mp hd] at hy
      exact absurd (congrArg Addr.host hy).symm (config.remote y)
  · rcases List.mem_append.mp hd with hd | hd
    · obtain ⟨y, hsource, hpeer⟩ := h.toHost d hd hhost
      exact ⟨y, hsource, hkeep y _ hpeer⟩
    · rw [List.mem_singleton.mp hd]
      exact ⟨x, rfl, hself⟩
  · obtain ⟨y, rfl, hpeer⟩ := h.accepted p hp a ha
    exact ⟨y, rfl, hkeep y _ hpeer⟩

omit [DecidableEq Name] in
theorem PortInv.handle (h : PortInv config s) (r : Request) (rand : ℕ) (garbage : Buffer 6) :
    PortInv config (s.handle config r rand garbage) := by
  have hforall : ∀ {property : Process → Prop}, (∀ p ∈ s.processes, property p) →
      (∀ fork, property (.forked fork garbage)) →
      ∀ p ∈ (s.handle config r rand garbage).processes, property p := by
    intro property hall hnew p hp
    rcases List.mem_append.mp hp with hp | hp
    · exact hall p hp
    · obtain ⟨fork, -, rfl⟩ := List.mem_map.mp hp
      exact hnew fork
  refine ⟨h.host, h.distinct, h.toClient, h.toHost, ?_, ?_, ?_⟩
  · exact hforall h.accepted fun fork => by simp [Process.forked]
  · exact hforall h.current fun fork => by simp [Process.forked, Server.start]
  · exact hforall h.unbound fun fork => by simp [Process.forked]

omit [DecidableEq Name] in
theorem PortInv.bindPort (h : PortInv config s) {i : ℕ} {p : Process}
    (hp : s.processes[i]? = some p) (hpc : p.server.pc = .waitFrq) (hunbound : ¬ p.bound)
    (ephemeral : ℕ) :
    PortInv config { s with processes := s.processes.set i (s.bindPort p ephemeral) } := by
  have hnone := h.unbound p (List.mem_of_getElem? hp) hunbound
  refine ⟨h.host, h.distinct, h.toClient, h.toHost, ?_, ?_, ?_⟩
  · refine Site.forall_processes_set i h.accepted ?_
    rcases s.bindPort_cases p ephemeral with heq | ⟨port, heq⟩ <;> simp [heq, hnone]
  · refine Site.forall_processes_set i h.current ?_
    rcases s.bindPort_cases p ephemeral with heq | ⟨port, heq⟩ <;> simp [heq, hpc]
  · refine Site.forall_processes_set i h.unbound ?_
    rcases s.bindPort_cases p ephemeral with heq | ⟨port, heq⟩ <;> simp [heq, hnone]

theorem portInv_step {a : SiteAction Name} (h : PortInv config s) (hports : DistinctPorts s a)
    (hstep : s.step config a = some s') : PortInv config s' := by
  cases Site.stepped_of_step hstep with
  | request r rand garbage => exact h.handle r rand garbage
  | bind ephemeral hp hpc hunbound => exact h.bindPort hp hpc hunbound ephemeral
  | startClient hnone => exact h.launch hnone hports
  | processTimeout hp hlive => exact h.processStep hp hlive fun _ _ hr => by simp at hr
  | @toProcess i p d hp hlive hd hdest =>
      refine h.processStep hp hlive fun source bytes hr => ?_
      rw [← (Recv.datagram.inj hr).1, ← hdest]
      exact ⟨h.source_eq hp hd hdest, h.toHost d hd (by rw [hdest]; rfl)⟩
  | clientTimeout hc hpc => exact h.clientStep hc hpc rfl
  | @toClient x c d hc hpc hd hdest =>
      refine h.clientStep hc hpc ?_
      have hpeer := h.toClient d hd x hdest
      rw [Site.peer, hc] at hpeer
      exact (Option.some.inj hpeer).symm

/-- **Isolation.**  Transfers do not disturb each other in the runs where every process keeps to
the client whose request it accepted; among these are the runs where no two clients are given the
same port. -/
theorem isolated_of_reachable (config : SiteConfig Name) :
    (∀ s, (siteSystem config).ReachableUnder KeepsToClient s → Isolated config s) ∧
    (∀ s, (siteSystem config).ReachableUnder DistinctPorts s → Isolated config s) := by
  refine ⟨fun s h => isolated_of_keepsToClient h, fun s h => isolated_of_keepsToClient ?_⟩
  have hinitial : ∀ s, (siteSystem config).initial s → PortInv config s := by
    rintro s ⟨tempPort, rfl⟩
    exact portInv_start config tempPort
  refine (h.strengthen hinitial (fun s a s' hs hports hstep => ?_)
    fun s a s' hs hports hstep => ?_).1
  · exact portInv_step hs hports hstep
  · exact hs.keepsToClient hports hstep

/-! ## Two clients and a file of one byte -/

namespace TwoClients

def clientAddr (x : Bool) : Addr := ⟨if x then 2 else 3, 6000⟩

theorem clientAddr_injective : Function.Injective clientAddr := by
  intro x y
  revert x y
  decide

theorem clientAddr_remote (x : Bool) : (clientAddr x).host ≠ 1 := by
  revert x
  decide

/-- The clients `true` and `false`, on hosts of their own. -/
def site : SiteConfig Bool where
  server := ⟨.little, FileName.a, [7]⟩
  listen := ⟨5000, CString.lit "10.0.0.1", [97]⟩
  host := 1
  client _ := ⟨.little, FileName.a⟩
  discoveryAddr x := ⟨if x then 2 else 3, 7000⟩
  clientAddr := clientAddr
  injective := clientAddr_injective
  remote := clientAddr_remote

def request (x : Bool) : Request := ⟨site.discoveryAddr x, [97]⟩

/-- The reply for the draw `rand`. -/
def reply (rand : ℕ) : BootServerInfo := ⟨CString.lit "10.0.0.1", 5033 + rand, [97]⟩

def frq (x : Bool) (rand : ℕ) : Datagram :=
  ⟨site.clientAddr x, ⟨1, 5033 + rand⟩, frqPacket .little (site.client x).filename, none⟩

def data (x : Bool) (rand : ℕ) : Datagram :=
  ⟨⟨1, 5033 + rand⟩, site.clientAddr x, dataPacket .little [7] 0, some 0⟩

def ack (x : Bool) (rand : ℕ) : Datagram :=
  ⟨site.clientAddr x, ⟨1, 5033 + rand⟩, Client.answer (site.client x) Opcode.ack 0, some 0⟩

/-- Both clients are told a port and send their request to it. -/
def discovery (rand rand' : ℕ) : List (SiteAction Bool) :=
  [.request (request true) rand (Buffer.zero 6), .bind 0 1,
    .request (request false) rand' (Buffer.zero 6), .bind 1 1,
    .startClient true (reply rand), .startClient false (reply rand')]

/-- Distinct draws, and both transfers side by side. -/
def transfers : List (SiteAction Bool) := discovery 0 1 ++
  [.toProcess 0 (frq true 0), .toProcess 1 (frq false 1), .toClient true (data true 0),
    .toClient false (data false 1), .toProcess 1 (ack false 1), .toProcess 0 (ack true 0)]

/-- Equal draws: the second process exits, and the request of the second client steers the
transfer of the first, whose only packet was lost, to itself. -/
def steered : List (SiteAction Bool) := discovery 0 0 ++
  [.toProcess 0 (frq true 0), .toProcess 0 (frq false 0), .processTimeout 0,
    .toClient false (data false 0), .toProcess 0 (ack false 0)]

def after (actions : List (SiteAction Bool)) : Site Bool :=
  ((siteSystem site).run (Site.start 0) actions).getD (Site.start 0)

theorem reachable_after {guard : Site Bool → SiteAction Bool → Prop}
    {actions : List (SiteAction Bool)}
    (hmeet : (siteSystem site).StepsMeet guard (Site.start 0) actions)
    (hrun : ((siteSystem site).run (Site.start 0) actions).isSome) :
    (siteSystem site).ReachableUnder guard (after actions) := by
  obtain ⟨s, hs⟩ := Option.isSome_iff_exists.mp hrun
  rw [after, hs]
  exact TransitionSystem.reachableUnder_of_run (.start ⟨0, rfl⟩) hmeet hs

/-- Side by side on distinct ports, both clients get the file. -/
theorem isolated_transfers : ∀ x, ∃ c, (after transfers).client x = some c ∧ c.written = [7] := by
  have hreach : (siteSystem site).ReachableUnder DistinctPorts (after transfers) :=
    reachable_after (by decide +kernel) (by decide +kernel)
  have hfinished : ∀ x, ((after transfers).client x).map Client.pc = some .finished := by
    decide +kernel
  generalize after transfers = s at *
  intro x
  obtain ⟨c, hc, hpc⟩ := Option.map_eq_some_iff.mp (hfinished x)
  exact ⟨c, hc, ((isolated_of_reachable site).2 s hreach).2 x c hc hpc⟩

/-- On one port they do not: the process ends on the acknowledgement of the second client, and the
client whose request it accepted has nothing. -/
theorem not_isolated_steered : ¬ ∀ s, (siteSystem site).Reachable s → Isolated site s := by
  intro hall
  have hreach : (siteSystem site).Reachable (after steered) :=
    reachable_after (TransitionSystem.stepsMeet_true _ _) (by decide +kernel)
  have hprocess : ∃ p ∈ (after steered).processes, p.server.pc = .returned ∧
      p.accepted = some (site.clientAddr true) := by
    decide +kernel
  have hclient : ((after steered).client true).map Client.written = some [] := by decide +kernel
  generalize after steered = s at *
  obtain ⟨p, hp, hreturned, haccepted⟩ := hprocess
  obtain ⟨x, c, haddr, hc, hwritten⟩ := (hall s hreach).1 p hp hreturned
  obtain rfl := site.injective (Option.some.inj (haccepted.symm.trans haddr))
  rw [hc] at hclient
  exact absurd (hwritten.symm.trans (Option.some.inj hclient)) (by decide)

end TwoClients

end NetworkHomework.Ftp
