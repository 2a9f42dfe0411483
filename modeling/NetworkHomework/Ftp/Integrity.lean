import NetworkHomework.Ftp.Pair

/-!
# File integrity of the stop-and-wait transfer

The invariant relates the two counters through the number `k` of chunks the client
has accepted: the server is at chunk `k` or at chunk `k - 1`.  What is in flight is
bounded by the same two numbers.  A DATA packet carries a chunk the server has
reached, an acknowledgement is about a chunk the client has accepted, and an
acknowledgement of 0 exists only once the client has accepted the short chunk.

`Fresh` bounds the distance between a delivered datagram and the server, hence, the
counters being one apart at most, its distance to the client as well.
-/

namespace NetworkHomework.Ftp

variable {config : PairConfig} {s : Pair} {k : ℕ}

/-- What may be in flight between the two parties. -/
def PairInFlight (config : PairConfig) (sent k : ℕ) (d : Datagram) : Prop :=
  (d.source = config.serverAddr ∧ d.dest = config.clientAddr ∧
    IsData config.server sent d.about d.bytes) ∨
  (d.source = config.clientAddr ∧ d.dest = config.serverAddr ∧
    IsReply config.client config.server.file k d.about d.bytes)

theorem PairInFlight.mono {sent sent' k' : ℕ} {d : Datagram} (hsent : sent ≤ sent')
    (hk : k ≤ k') (h : PairInFlight config sent k d) : PairInFlight config sent' k' d := by
  rcases h with ⟨hsource, hdest, hdata⟩ | ⟨hsource, hdest, hreply⟩
  · exact Or.inl ⟨hsource, hdest, hdata.mono hsent⟩
  · exact Or.inr ⟨hsource, hdest, hreply.mono hk⟩

/-- The invariant of the pair, when the client has accepted `k` chunks. -/
structure PairInv (config : PairConfig) (s : Pair) (k : ℕ) : Prop where
  serves : s.server.Serves config.server config.clientAddr k
  servaddr : s.client.servaddr = config.serverAddr
  le_chunk : k ≤ s.server.chunk + 1
  accepted : s.client.Accepted config.server.file k
  net : ∀ d ∈ s.net, PairInFlight config s.server.chunk k d

theorem pairInv_start (config : PairConfig) (clientaddr : Addr) (garbage : Buffer 6) :
    PairInv config (Pair.start config clientaddr garbage) 0 where
  serves := Server.serves_start _ _ _ _
  servaddr := rfl
  le_chunk := Nat.zero_le _
  accepted := Client.accepted_start _ _
  net := by
    intro d hd
    rw [List.mem_singleton.mp hd]
    exact Or.inr ⟨rfl, rfl, .recovery (Or.inl rfl)⟩

/-! ## Steps of the server -/

theorem PairInv.serverStep (h : PairInv config s k) {r : Recv} (hlive : s.server.Waiting)
    (hsource : r.sourceOr config.clientAddr = config.clientAddr)
    (hack : s.server.AckSound config.server k r) : PairInv config (s.serverStep config r) k := by
  obtain ⟨hserves, hmono, hout⟩ := h.serves.step hlive hsource hack
  refine ⟨hserves, h.servaddr, h.le_chunk.trans (Nat.succ_le_succ hmono), h.accepted, ?_⟩
  intro d hd
  rcases List.mem_append.mp hd with hd | hd
  · exact (h.net d hd).mono hmono (Nat.le_refl k)
  · obtain ⟨packet, hmem, rfl⟩ := List.mem_map.mp hd
    rw [hout packet hmem]
    exact Or.inl ⟨rfl, rfl, _, Nat.le_refl _, hserves.chunk_le_last, rfl, rfl⟩

theorem PairInv.serverTimeout (h : PairInv config s k) (hlive : s.server.Waiting) :
    PairInv config (s.serverStep config .timeout) k := by
  refine h.serverStep hlive rfl ?_
  intro source bytes n hr
  exact absurd hr (by simp)

theorem PairInv.toServer (h : PairInv config s k) {d : Datagram} (hlive : s.server.Waiting)
    (hd : d ∈ s.net) (hdest : d.dest = config.serverAddr)
    (hfresh : ∀ j ∈ d.about, s.server.chunk < j + 64000) :
    PairInv config (s.serverStep config (.datagram d.source d.bytes)) k := by
  rcases h.net d hd with ⟨-, hclient, -⟩ | ⟨hsource, -, hreply⟩
  · exact absurd (hdest.symm.trans hclient) config.distinct
  · refine h.serverStep hlive hsource (hreply.ackSound (fun _ => ?_) hfresh)
    exact ⟨h.serves.chunk_le_last, h.serves.chunk_le⟩

/-- A damaged datagram acknowledges nothing. -/
theorem PairInv.damagedToServer (h : PairInv config s k) {bytes : List UInt8}
    (hlive : s.server.Waiting) (hdetects : s.server.Detects config.server bytes) :
    PairInv config (s.serverStep config (.datagram config.clientAddr bytes)) k := by
  refine h.serverStep hlive rfl ?_
  intro source' bytes' n hr hpc hacks
  obtain ⟨rfl, rfl⟩ := Recv.datagram.inj hr
  simp only [Server.Detects, hpc] at hdetects
  exact absurd hacks.1 hdetects

/-! ## Steps of the client -/

/-- A step of the client that leaves it with `k'` chunks and sends replies. -/
theorem PairInv.clientStep (h : PairInv config s k) {r : Recv} {about : Option ℕ} {k' : ℕ}
    (hpc : s.client.pc = .receiving)
    (hsource : r.sourceOr config.serverAddr = config.serverAddr)
    (hk : k' = k ∨ k' = k + 1 ∧ k ≤ s.server.chunk)
    (haccepted : (startMyftpClient config.client s.client r).1.Accepted config.server.file k')
    (hout : ∀ packet ∈ (startMyftpClient config.client s.client r).2,
      packet.dest = config.serverAddr ∧ IsReply config.client config.server.file k'
        (aboutOfAnswer about packet.bytes) packet.bytes) :
    PairInv config (s.clientStep config about r) k' := by
  have hle : k ≤ k' := by omega
  have haddr : (startMyftpClient config.client s.client r).1.servaddr = config.serverAddr := by
    rw [Client.servaddr_startMyftpClient hpc, h.servaddr, hsource]
  have hchunk := h.le_chunk
  refine ⟨h.serves.mono hle, haddr, ?_, haccepted, ?_⟩
  · show k' ≤ s.server.chunk + 1
    omega
  · intro d hd
    rcases List.mem_append.mp hd with hd | hd
    · exact (h.net d hd).mono (Nat.le_refl _) hle
    · obtain ⟨packet, hmem, rfl⟩ := List.mem_map.mp hd
      exact Or.inr ⟨rfl, hout packet hmem⟩

theorem PairInv.clientTimeout (h : PairInv config s k) (hpc : s.client.pc = .receiving) :
    PairInv config (s.clientStep config none .timeout) k := by
  have hstep : startMyftpClient config.client s.client .timeout =
      s.client.timedOut config.client := by
    rw [startMyftpClient, hpc]
    rfl
  obtain ⟨hkeep, hout⟩ := h.accepted.timedOut config.client hpc
  rw [← hstep, h.servaddr] at hout
  refine h.clientStep hpc rfl (Or.inl rfl) (hstep ▸ hkeep) fun packet hmem => ?_
  exact ⟨(hout packet hmem).1, .recovery (hout packet hmem).2⟩

theorem PairInv.damagedToClient (h : PairInv config s k) {bytes : List UInt8}
    (hpc : s.client.pc = .receiving) (hdetects : Client.Detects config.client bytes) :
    PairInv config (s.clientStep config none (.datagram config.serverAddr bytes)) k := by
  have hstep : startMyftpClient config.client s.client (.datagram config.serverAddr bytes) =
      s.client.transmission config.client (.datagram config.serverAddr bytes) := by
    rw [startMyftpClient, hpc]
  obtain ⟨hkeep, hout⟩ := h.accepted.transmission_damaged hpc hdetects
  rw [← hstep] at hout
  refine h.clientStep hpc rfl (Or.inl rfl) (hstep ▸ hkeep) fun packet hmem => ?_
  exact ⟨(hout packet hmem).1, .recovery (hout packet hmem).2⟩

theorem PairInv.toClient (h : PairInv config s k) {d : Datagram}
    (hpc : s.client.pc = .receiving) (hd : d ∈ s.net) (hdest : d.dest = config.clientAddr)
    (hfresh : ∀ j ∈ d.about, s.server.chunk < j + 64000) :
    ∃ k', PairInv config (s.clientStep config d.about (.datagram d.source d.bytes)) k' := by
  rcases h.net d hd with ⟨hsource, -, j, hj, hlast, habout, hbytes⟩ | ⟨-, hserver, -⟩
  · have hclose := hfresh j habout
    have hle : j ≤ k := hj.trans h.serves.chunk_le
    have hnear : k < j + 64998 := by
      have := h.le_chunk
      omega
    obtain ⟨k', hk, haccepted, hout⟩ :=
      h.accepted.step_data config.client hpc d.source hlast hle hnear
    rw [habout, hbytes]
    refine ⟨k', h.clientStep hpc hsource ?_ haccepted (hsource ▸ hout)⟩
    rcases hk with hk | ⟨hk, rfl⟩
    · exact Or.inl hk
    · exact Or.inr ⟨hk, hj⟩
  · exact absurd (hserver.symm.trans hdest) config.distinct

/-! ## Every run -/

theorem pairInv_step {a : PairAction} {s' : Pair} (h : ∃ k, PairInv config s k)
    (hfresh : s.Fresh a) (hstep : s.step config a = some s') : ∃ k, PairInv config s' k := by
  obtain ⟨k, h⟩ := h
  cases a with
  | serverTimeout =>
      obtain ⟨hlive, rfl⟩ := Option.ite_some_none_eq_some.mp hstep
      exact ⟨k, h.serverTimeout hlive⟩
  | clientTimeout =>
      obtain ⟨hpc, rfl⟩ := Option.ite_some_none_eq_some.mp hstep
      exact ⟨k, h.clientTimeout hpc⟩
  | toServer d =>
      obtain ⟨⟨hlive, hd, hdest⟩, rfl⟩ := Option.ite_some_none_eq_some.mp hstep
      exact ⟨k, h.toServer hlive hd hdest hfresh⟩
  | toClient d =>
      obtain ⟨⟨hpc, hd, hdest⟩, rfl⟩ := Option.ite_some_none_eq_some.mp hstep
      exact h.toClient hpc hd hdest hfresh
  | damagedToServer bytes =>
      obtain ⟨⟨hlive, hdetects⟩, rfl⟩ := Option.ite_some_none_eq_some.mp hstep
      exact ⟨k, h.damagedToServer hlive hdetects⟩
  | damagedToClient bytes =>
      obtain ⟨⟨hpc, hdetects⟩, rfl⟩ := Option.ite_some_none_eq_some.mp hstep
      exact ⟨k, h.damagedToClient hpc hdetects⟩

/-- The invariant holds in every reachable state. -/
theorem pairInv_of_reachable (h : (pairSystem config).ReachableUnder Pair.Fresh s) :
    ∃ k, PairInv config s k := by
  refine h.invariant ?_ fun _ _ _ hinv hfresh hstep => pairInv_step hinv hfresh hstep
  rintro s ⟨clientaddr, garbage, rfl⟩
  exact ⟨0, pairInv_start config clientaddr garbage⟩

/-- **File integrity.**  In every run that keeps no datagram back for 64000 chunks, the client
has written a prefix of the file; it has written exactly the file once it reports the end of the
transmission, and once the server ends on an acknowledgement of 0. -/
theorem transfer_integrity (h : (pairSystem config).ReachableUnder Pair.Fresh s) :
    s.client.written <+: config.server.file ∧
      (s.client.pc = .finished → s.client.written = config.server.file) ∧
      (s.server.pc = .returned → s.client.written = config.server.file) := by
  obtain ⟨k, hinv⟩ := pairInv_of_reachable h
  refine ⟨?_, hinv.accepted.written_of_finished, fun hret => ?_⟩
  · rw [hinv.accepted.written_eq]
    exact firstChunks_prefix _ _
  · have hk : k = lastChunk config.server.file + 1 := by
      have := hinv.serves.returned hret
      have := hinv.serves.chunk_le_last
      have := hinv.le_chunk
      omega
    rw [hinv.accepted.written_eq, hk, firstChunks_last]

/-! ## A file of one full chunk -/

namespace FullChunk

/-- The file of 512 sevens, served under the name "a". -/
def pair : PairConfig where
  server := ⟨.little, FileName.a, List.replicate 512 7⟩
  client := ⟨.little, FileName.a⟩
  serverAddr := ⟨1, 5000⟩
  clientAddr := ⟨2, 6000⟩
  distinct := by decide

def start : Pair := Pair.start pair ⟨2, 7000⟩ (Buffer.zero 6)

def request : Datagram :=
  ⟨pair.clientAddr, pair.serverAddr, frqPacket pair.client.order pair.client.filename, none⟩

def firstData : Datagram :=
  ⟨pair.serverAddr, pair.clientAddr, dataPacket pair.server.order pair.server.file 0, some 0⟩

def firstAck : Datagram :=
  ⟨pair.clientAddr, pair.serverAddr, Client.answer pair.client Opcode.ack 1, some 0⟩

def lastData : Datagram :=
  ⟨pair.serverAddr, pair.clientAddr, dataPacket pair.server.order pair.server.file 1, some 1⟩

def lastAck : Datagram :=
  ⟨pair.clientAddr, pair.serverAddr, Client.answer pair.client Opcode.ack 0, some 1⟩

/-- The whole transfer, with the first packet delivered twice. -/
def transfer : List PairAction :=
  [.toServer request, .toClient firstData, .toClient firstData, .toServer firstAck,
    .toClient lastData, .toServer lastAck]

def after (actions : List PairAction) : Pair :=
  ((pairSystem pair).run start actions).getD start

theorem reachable_after {actions : List PairAction}
    (hmeet : (pairSystem pair).StepsMeet Pair.Fresh start actions)
    (hrun : ((pairSystem pair).run start actions).isSome) :
    (pairSystem pair).ReachableUnder Pair.Fresh (after actions) := by
  obtain ⟨s, hs⟩ := Option.isSome_iff_exists.mp hrun
  rw [after, hs]
  exact TransitionSystem.reachableUnder_of_run (.start ⟨_, _, rfl⟩) hmeet hs

theorem transfer_integrity_fullChunk :
    (after transfer).client.written = List.replicate 512 7 :=
  (transfer_integrity (reachable_after (by decide +kernel) (by decide +kernel))).2.2
    (by decide +kernel)

end FullChunk

end NetworkHomework.Ftp
