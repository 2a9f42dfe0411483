import NetworkHomework.Ftp.Moves

/-!
# What may be in flight

A datagram is described by its bytes and by the chunk it is about (`none` for a
request or an ERROR).  `IsData` and `IsReply` say what a server that serves one
client, and a client that has accepted `k` chunks, may have sent so far.  They are
stable as the numbers grow, and they are all that a step needs to know about the
datagram it delivers:

* `IsReply.ackSound`: an acknowledgement the server takes is sound;
* `Accepted.step_data`: the client accepts a chunk only in its place.

Both rest on the same fact about numbers: two chunks that have the same number and are
fewer than 64998 apart are the same chunk.
-/

namespace NetworkHomework.Ftp

variable {config : ServerConfig} {client : ClientConfig} {file : List UInt8}
  {about : Option ℕ} {bytes : List UInt8} {k : ℕ}

/-- The packet of a chunk up to `sent`. -/
def IsData (config : ServerConfig) (sent : ℕ) (about : Option ℕ) (bytes : List UInt8) : Prop :=
  ∃ j, j ≤ sent ∧ j ≤ lastChunk config.file ∧ about = some j ∧
    bytes = dataPacket config.order config.file j

/-- What a client may have sent by the time it has accepted `k` chunks. -/
inductive IsReply (client : ClientConfig) (file : List UInt8) (k : ℕ) (about : Option ℕ)
    (bytes : List UInt8) : Prop
  | ack (j : ℕ) (hj : j < k) (hlast : j < lastChunk file) (habout : about = some j)
      (hbytes : bytes = Client.answer client Opcode.ack (blockNumber j))
  | lastAck (hk : lastChunk file < k) (hbytes : bytes = Client.answer client Opcode.ack 0)
  | recovery (hbytes : Client.IsRecovery client bytes)

theorem IsData.mono {sent sent' : ℕ} (hle : sent ≤ sent') (h : IsData config sent about bytes) :
    IsData config sent' about bytes := by
  obtain ⟨j, hj, hrest⟩ := h
  exact ⟨j, hj.trans hle, hrest⟩

theorem IsReply.mono {k' : ℕ} (hle : k ≤ k') (h : IsReply client file k about bytes) :
    IsReply client file k' about bytes := by
  cases h with
  | ack j hj hlast habout hbytes => exact .ack j (hj.trans_le hle) hlast habout hbytes
  | lastAck hk hbytes => exact .lastAck (hk.trans_le hle) hbytes
  | recovery hbytes => exact .recovery hbytes

/-! ## Acknowledgements -/

/-- The chunk an answer to a datagram about `about` is about: an ERROR is about none. -/
def aboutOfAnswer (about : Option ℕ) (bytes : List UInt8) : Option ℕ :=
  if mfOpcode bytes = Opcode.ack then about else none

theorem length_answer (opcode block : ℕ) : (Client.answer client opcode block).length = 6 :=
  length_fillHeader _ _ _ _

theorem mfOpcode_answer {opcode : ℕ} (block : ℕ) (h : opcode < 2 ^ 16) :
    mfOpcode (Client.answer client opcode block) = opcode :=
  mfOpcode_fillHeader _ _ _ h

theorem mfBlock_answer (opcode : ℕ) {block : ℕ} (h : block < 2 ^ 16) :
    mfBlock (Client.answer client opcode block) = block :=
  mfBlock_fillHeader _ _ _ h

/-- A 6-byte answer overwrites the whole acknowledgement buffer. -/
theorem recvfrom_answer (buffer : Buffer 6) (opcode block : ℕ) :
    (buffer.recvfrom (Client.answer client opcode block)).bytes =
      Client.answer client opcode block :=
  buffer.recvfrom_bytes_of_length_eq (length_answer opcode block)

theorem mfOpcode_frqPacket (order : ByteOrder) (name : FileName) :
    mfOpcode (frqPacket order name) = Opcode.frq := rfl

theorem length_frqPacket (order : ByteOrder) (name : FileName) :
    (frqPacket order name).length = name.frqSize := by
  simp [frqPacket, htons, FileName.frqSize]
  omega

/-- A file request is read as a request even from a buffer that cuts it. -/
theorem mfOpcode_recvfrom_frqPacket (buffer : Buffer 6) (order : ByteOrder) (name : FileName) :
    mfOpcode (buffer.recvfrom (frqPacket order name)).bytes = Opcode.frq := by
  have hlen := length_frqPacket order name
  have hlong : 4 < (frqPacket order name).length := by
    rw [hlen, FileName.frqSize]
    omega
  simp only [mfOpcode, ntohsAt]
  rw [Buffer.getD_recvfrom_of_lt _ (by omega) (by decide),
    Buffer.getD_recvfrom_of_lt _ (by omega) (by decide)]
  rfl

/-- No recovery message acknowledges anything. -/
theorem not_acksBlock_of_isRecovery (h : Client.IsRecovery client bytes) (buffer : Buffer 6)
    (n : ℕ) : ¬ Server.AcksBlock config (buffer.recvfrom bytes).bytes n := by
  rintro ⟨-, hopcode, -⟩
  rcases h with rfl | ⟨block, -, rfl⟩
  · rw [mfOpcode_recvfrom_frqPacket] at hopcode
    exact absurd hopcode (by decide)
  · rw [recvfrom_answer, mfOpcode_answer _ (by decide)] at hopcode
    exact absurd hopcode (by decide)

/-- An acknowledgement is for the number it was built with. -/
theorem eq_of_acksBlock_answer {buffer : Buffer 6} {block n : ℕ} (hlt : block < 2 ^ 16)
    (h : Server.AcksBlock config
      (buffer.recvfrom (Client.answer client Opcode.ack block)).bytes n) : n = block := by
  rw [recvfrom_answer] at h
  rw [← h.2.2, mfBlock_answer _ hlt]

/-- **Acknowledgements are sound**, as long as they are not too old. -/
theorem IsReply.ackSound {s : Server} {source : Addr}
    (h : IsReply client config.file k about bytes)
    (hsending : s.pc = .waitAck → s.chunk ≤ lastChunk config.file ∧ s.chunk ≤ k)
    (hfresh : ∀ j ∈ about, s.chunk < j + 64000) :
    s.AckSound config k (.datagram source bytes) := by
  intro source' bytes' n hr hpc hacks
  obtain ⟨rfl, rfl⟩ := Recv.datagram.inj hr
  obtain ⟨hchunk, hle⟩ := hsending hpc
  cases h with
  | ack j hj hlast habout hbytes =>
      subst hbytes
      have hn := eq_of_acksBlock_answer (by have := blockNumber_lt j; omega) hacks
      refine ⟨fun hzero => ?_, fun hcurrent => ?_⟩
      · have := blockNumber_pos j
        omega
      · -- the chunk acknowledged is not before the current one: the numbers would differ
        have hfar := hfresh j habout
        have hge : s.chunk ≤ j := by
          by_contra hlt
          exact blockNumber_ne (not_le.mp hlt) (by omega) (hn.symm.trans hcurrent)
        exact ⟨hge.trans_lt hj, hge.trans_lt hlast⟩
  | lastAck hk hbytes =>
      subst hbytes
      have hn := eq_of_acksBlock_answer (by decide) hacks
      refine ⟨fun _ => hk, fun hcurrent => ?_⟩
      have := blockNumber_pos s.chunk
      omega
  | recovery hbytes => exact absurd hacks (not_acksBlock_of_isRecovery hbytes _ n)

/-! ## Chunks -/

/-- **The client accepts chunks in their order.**  From the packet of chunk `j` it goes on to the
next chunk only if `j` is the chunk it expects. -/
theorem Client.Accepted.step_data {c : Client} {j : ℕ} (h : c.Accepted config.file k)
    (client : ClientConfig) (hpc : c.pc = .receiving) (source : Addr)
    (hj : j ≤ lastChunk config.file) (hle : j ≤ k)
    (hnear : k < j + 64998) :
    ∃ k', (k' = k ∨ k' = k + 1 ∧ j = k) ∧
      (startMyftpClient client c
        (.datagram source (dataPacket config.order config.file j))).1.Accepted config.file k' ∧
      ∀ packet ∈ (startMyftpClient client c
          (.datagram source (dataPacket config.order config.file j))).2,
        packet.dest = source ∧
          IsReply client config.file k' (aboutOfAnswer (some j) packet.bytes) packet.bytes := by
  have hround : Client.DataRound client config.file c k j source _ _ :=
    h.transmission_data hpc source config.order hj
  have hstep : ∀ r, startMyftpClient client c r = c.transmission client r := by
    intro r
    rw [startMyftpClient, hpc]
  rw [hstep]
  obtain ⟨hk, -⟩ := h.receiving hpc
  have habout : ∀ block, aboutOfAnswer (some j) (Client.answer client Opcode.ack block) = some j :=
    fun block => if_pos (mfOpcode_answer block (by decide))
  cases hround with
  | refused hkeep hout =>
      refine ⟨k, Or.inl rfl, hkeep, fun packet hmem => ?_⟩
      exact ⟨(hout packet hmem).1, .recovery (hout packet hmem).2⟩
  | repeated hkeep hnumber hout =>
      refine ⟨k, Or.inl rfl, hkeep, fun packet hmem => ?_⟩
      have hlt : j < k := lt_of_le_of_ne hle fun heq => hnumber (by rw [heq])
      rw [hout] at hmem
      rw [List.mem_singleton.mp hmem]
      exact ⟨rfl, .ack j hlt (hlt.trans_le hk) (habout _) rfl⟩
  | taken hnumber hnext hout =>
      have hjk : j = k := eq_of_blockNumber_eq hnumber hle hnear
      refine ⟨k + 1, Or.inr ⟨rfl, hjk⟩, hnext hjk, fun packet hmem => ?_⟩
      rw [hout] at hmem
      rw [List.mem_singleton.mp hmem]
      refine ⟨rfl, ?_⟩
      split_ifs with hlast
      · exact .lastAck (by omega) rfl
      · exact .ack j (by omega) (by omega) (habout _) rfl

/-- Every receive sets `servaddr` to the source of what was received. -/
theorem Client.servaddr_startMyftpClient {c : Client} (hpc : c.pc = .receiving) (r : Recv) :
    (startMyftpClient client c r).1.servaddr = r.sourceOr c.servaddr := by
  rw [startMyftpClient, hpc]
  cases r with
  | timeout =>
      simp only [Client.transmission, Client.timedOut]
      split_ifs <;> rfl
  | datagram source bytes =>
      simp only [Client.transmission, Client.accept]
      split_ifs <;> rfl

/-- Every packet goes to `servaddr`. -/
theorem Client.dest_startMyftpClient {c : Client} (hpc : c.pc = .receiving) (r : Recv) :
    ∀ packet ∈ (startMyftpClient client c r).2,
      packet.dest = (startMyftpClient client c r).1.servaddr := by
  intro packet
  rw [startMyftpClient, hpc]
  cases r with
  | timeout =>
      simp only [Client.transmission, Client.timedOut]
      split_ifs <;> simp +contextual
  | datagram source bytes =>
      simp only [Client.transmission, Client.accept]
      split_ifs <;> simp +contextual

end NetworkHomework.Ftp
