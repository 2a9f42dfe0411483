import NetworkHomework.Ftp.Chunks

/-!
# What one step of either party can do

One inversion lemma for each party, in terms of chunks instead of bytes:

* `Server.Sending config s`: the process waits for the acknowledgement of chunk
  `s.chunk`.  `Sending.waitAck` lists the four outcomes of a receive; only a packet with
  a good checksum that acknowledges the current number moves it to the next chunk,
  and only one that acknowledges 0 ends the transfer.
* `Client.Accepted file c k`: the client has written exactly the first `k` chunks.
  `Accepted.transmission_data` says what it does with the packet of chunk `j`,
  `Accepted.transmission_damaged` with one that fails the checksum, and
  `Accepted.timedOut` with a timeout.

Every later invariant about a whole system is derived from these.
-/

namespace NetworkHomework.Ftp

/-! ## The server -/

namespace Server

/-- The process is in the inner loop with the packet of chunk `s.chunk`. -/
structure Sending (config : ServerConfig) (s : Server) : Prop where
  pc_eq : s.pc = .waitAck
  chunk_le : s.chunk ≤ lastChunk config.file
  block_eq : s.block = blockNumber s.chunk
  fin_eq : s.fin = config.file.drop (mfMaxData * (s.chunk + 1))
  packet_eq : s.filePacket = dataPacket config.order config.file s.chunk

/-- The packet that chunk `i` travels in, addressed to `dest`. -/
def dataTo (config : ServerConfig) (dest : Addr) (i : ℕ) : Packet :=
  ⟨dest, dataPacket config.order config.file i⟩

/-- A packet that passes the checksum and acknowledges block `n`. -/
def AcksBlock (config : ServerConfig) (ackPacket : List UInt8) (n : ℕ) : Prop :=
  inCksum config.order ackPacket = 0 ∧ mfOpcode ackPacket = Opcode.ack ∧ mfBlock ackPacket = n

variable {config : ServerConfig} {s : Server}

/-- The top of the outer loop sends the packet of the chunk `s.chunk`. -/
theorem sending_sendChunk (hchunk : s.chunk ≤ lastChunk config.file)
    (hblock : s.block = blockNumber s.chunk)
    (hfin : s.fin = config.file.drop (mfMaxData * s.chunk)) :
    Sending config (sendChunk config s).1 ∧
      (sendChunk config s).2 = [dataTo config s.clientaddr s.chunk] := by
  have hpacket : newFilePacket config.order s.block (s.fin.take mfMaxData) =
      dataPacket config.order config.file s.chunk := by
    rw [hblock, hfin]
    rfl
  refine ⟨⟨rfl, hchunk, hblock, ?_, hpacket⟩, ?_⟩
  · show s.fin.drop mfMaxData = config.file.drop (mfMaxData * (s.chunk + 1))
    rw [hfin, List.drop_drop, Nat.mul_succ]
  · simp only [sendChunk, hpacket, dataTo]

/-- A retransmission repeats the packet of the current chunk and changes nothing. -/
theorem Sending.resend (h : Sending config s) :
    Server.resend config s = (s, [dataTo config s.clientaddr s.chunk]) := by
  have hpacket : fillHeader config.order Opcode.data s.block s.filePacket = s.filePacket := by
    rw [h.packet_eq, h.block_eq, fillHeader_dataPacket]
  unfold Server.resend
  simp only [hpacket, dataTo, ← h.packet_eq]

/-- The variables that no transmission reads do not matter. -/
theorem Sending.congr (h : Sending config s) (clientaddr : Addr) (timeoutNum : ℕ)
    (ackPacket : Buffer 6) :
    Sending config { s with clientaddr, timeoutNum, ackPacket } :=
  ⟨h.pc_eq, h.chunk_le, h.block_eq, h.fin_eq, h.packet_eq⟩

/-- The outcomes of one round of the inner loop, from `s` to `s'` with the packets `out` sent. -/
inductive AckRound (config : ServerConfig) (s : Server) (r : Recv) (s' : Server)
    (out : List Packet) : Prop
  /-- gave up, or was sent an empty datagram -/
  | exited (hpc : s'.pc = .exited) (hchunk : s'.chunk = s.chunk) (hout : out = [])
  /-- waits on, having sent nothing -/
  | ignored (h : Sending config s') (hchunk : s'.chunk = s.chunk) (hout : out = [])
  /-- waits on, having sent the current packet again -/
  | resent (h : Sending config s') (hchunk : s'.chunk = s.chunk)
      (hout : out = [dataTo config s'.clientaddr s.chunk])
  /-- acknowledged with 0 -/
  | returned (source : Addr) (bytes : List UInt8) (hr : r = .datagram source bytes)
      (hack : AcksBlock config (s.ackPacket.recvfrom bytes).bytes 0)
      (hpc : s'.pc = .returned) (hchunk : s'.chunk = s.chunk) (hout : out = [])
  /-- acknowledged with the current number: the next chunk is sent, if the file has one -/
  | advanced (source : Addr) (bytes : List UInt8) (hr : r = .datagram source bytes)
      (hack : AcksBlock config (s.ackPacket.recvfrom bytes).bytes (blockNumber s.chunk))
      (hchunk : s'.chunk = s.chunk + 1)
      (hnext : s.chunk < lastChunk config.file →
        Sending config s' ∧ out = [dataTo config s'.clientaddr (s.chunk + 1)])

/-- **One round of the inner loop.** -/
theorem Sending.waitAck (h : Sending config s) (r : Recv) :
    AckRound config s r (s.waitAck config r).1 (s.waitAck config r).2 := by
  cases r with
  | timeout =>
      unfold Server.waitAck
      split_ifs with hlimit
      · exact .exited rfl rfl rfl
      · have hsending := h.congr s.clientaddr (s.timeoutNum + 1) s.ackPacket
        rw [hsending.resend]
        exact .resent hsending rfl rfl
  | datagram source bytes =>
      have hsending := h.congr source 0 (s.ackPacket.recvfrom bytes)
      unfold Server.waitAck
      simp only [hsending.resend]
      split_ifs with hempty hfrq herror hcurrent hcksum hack hzero hother
      · exact .exited rfl rfl rfl
      · exact .ignored hsending rfl rfl
      · exact .resent hsending rfl rfl
      · exact .ignored hsending rfl rfl
      · exact .resent hsending rfl rfl
      · exact .returned source bytes rfl ⟨not_not.mp hcksum, hack, hzero⟩ rfl rfl rfl
      · exact .ignored hsending rfl rfl
      · have hnumber := not_not.mp hother
        refine .advanced source bytes rfl
          ⟨not_not.mp hcksum, hack, hnumber.trans h.block_eq⟩ rfl fun hlt => ?_
        -- the counter moves with the chunk, and the file is read on from where it stands
        refine sending_sendChunk (s := { s with
            clientaddr := source, timeoutNum := 0, ackPacket := s.ackPacket.recvfrom bytes,
            block := nextBlock s.block, chunk := s.chunk + 1 }) hlt ?_ h.fin_eq
        show nextBlock s.block = nextBlock (blockNumber s.chunk)
        rw [h.block_eq]
      · exact .ignored hsending rfl rfl

/-- The outcomes of one round of the request loop. -/
inductive FrqRound (config : ServerConfig) (s : Server) (r : Recv) (s' : Server)
    (out : List Packet) : Prop
  | exited (hpc : s'.pc = .exited) (hchunk : s'.chunk = s.chunk) (hout : out = [])
  | waiting (hpc : s'.pc = .waitFrq) (hchunk : s'.chunk = s.chunk) (hout : out = [])
  | accepted (source : Addr) (bytes : List UInt8) (hr : r = .datagram source bytes)
      (h : Sending config s') (hchunk : s'.chunk = 0)
      (hout : out = [dataTo config s'.clientaddr 0])

theorem startMyftpServer_waitFrq (hpc : s.pc = .waitFrq) (r : Recv) :
    startMyftpServer config s r = s.waitFrq config r := by
  rw [startMyftpServer, hpc]

theorem startMyftpServer_waitAck (hpc : s.pc = .waitAck) (r : Recv) :
    startMyftpServer config s r = s.waitAck config r := by
  rw [startMyftpServer, hpc]

/-- **One round of the request loop.** -/
theorem waitFrq_round (hpc : s.pc = .waitFrq) (r : Recv) :
    FrqRound config s r (s.waitFrq config r).1 (s.waitFrq config r).2 := by
  cases r with
  | timeout =>
      unfold Server.waitFrq
      split_ifs with hlimit
      · exact .exited rfl rfl rfl
      · exact .waiting hpc rfl rfl
  | datagram source bytes =>
      unfold Server.waitFrq
      dsimp only
      split_ifs with hempty hcksum
      · exact .exited rfl rfl rfl
      · exact .waiting hpc rfl rfl
      · obtain ⟨hsending, hout⟩ := @sending_sendChunk config
          { s with clientaddr := source, block := 1, chunk := 0, fin := config.file }
          (Nat.zero_le _) rfl rfl
        exact .accepted source bytes rfl hsending rfl hout

/-- Every receive sets `clientaddr` to the source of what was received. -/
theorem clientaddr_startMyftpServer (hpc : s.pc = .waitFrq ∨ s.pc = .waitAck) (r : Recv) :
    (startMyftpServer config s r).1.clientaddr = r.sourceOr s.clientaddr := by
  unfold startMyftpServer
  rcases hpc with hpc | hpc <;> rw [hpc]
  · cases r <;> simp only [Server.waitFrq] <;> split_ifs <;> rfl
  · cases r <;> simp only [Server.waitAck, Server.resend, Server.sendChunk] <;> split_ifs <;> rfl

/-- Every packet goes to `clientaddr`, and the process then waits for its acknowledgement. -/
theorem dest_startMyftpServer (r : Recv) :
    ∀ packet ∈ (startMyftpServer config s r).2,
      packet.dest = (startMyftpServer config s r).1.clientaddr ∧
        (startMyftpServer config s r).1.pc = .waitAck := by
  intro packet
  unfold startMyftpServer
  cases hpc : s.pc with
  | waitFrq =>
      cases r <;> simp only [Server.waitFrq, Server.sendChunk] <;> split_ifs <;> simp +contextual
  | waitAck =>
      cases r <;> simp only [Server.waitAck, Server.resend, Server.sendChunk] <;> split_ifs <;>
        simp +contextual [hpc]
  | returned => simp
  | exited => simp

/-! ### A process in the service of one client -/

/-- The process serves `peer`, which has accepted `k` chunks. -/
structure Serves (config : ServerConfig) (peer : Addr) (k : ℕ) (s : Server) : Prop where
  waiting : s.pc = .waitFrq → s.chunk = 0
  sending : s.pc = .waitAck → Sending config s ∧ s.clientaddr = peer
  chunk_le_last : s.chunk ≤ lastChunk config.file
  chunk_le : s.chunk ≤ k
  returned : s.pc = .returned → lastChunk config.file < k

/-- Acknowledgements are sound: 0 only after the short chunk was accepted, the number of the
current chunk only after that chunk was, and only if it is not the short one. -/
def AckSound (config : ServerConfig) (k : ℕ) (s : Server) (r : Recv) : Prop :=
  ∀ source bytes n, r = .datagram source bytes → s.pc = .waitAck →
    AcksBlock config (s.ackPacket.recvfrom bytes).bytes n →
    (n = 0 → lastChunk config.file < k) ∧
    (n = blockNumber s.chunk → s.chunk < k ∧ s.chunk < lastChunk config.file)

theorem serves_start (config : ServerConfig) (peer clientaddr : Addr) (garbage : Buffer 6) :
    Serves config peer 0 (start clientaddr garbage) :=
  ⟨fun _ => rfl, fun h => by simp [start] at h, Nat.zero_le _, Nat.le_refl _,
    fun h => by simp [start] at h⟩

theorem Serves.mono {peer : Addr} {k k' : ℕ} (h : Serves config peer k s) (hk : k ≤ k') :
    Serves config peer k' s where
  waiting := h.waiting
  sending := h.sending
  chunk_le_last := h.chunk_le_last
  chunk_le := h.chunk_le.trans hk
  returned hpc := (h.returned hpc).trans_le hk

/-- A process that left keeps its chunk. -/
theorem Serves.quiet {peer : Addr} {k : ℕ} {s' : Server} (h : Serves config peer k s)
    (hchunk : s'.chunk = s.chunk)
    (hpc : s'.pc = .exited ∨ s'.pc = .returned ∧ lastChunk config.file < k) :
    Serves config peer k s' := by
  refine ⟨fun hfrq => ?_, fun hwait => ?_, ?_, ?_, fun hret => ?_⟩
  · rcases hpc with hpc | hpc <;> simp [hpc] at hfrq
  · rcases hpc with hpc | hpc <;> simp [hpc] at hwait
  · exact hchunk.trans_le h.chunk_le_last
  · exact hchunk.trans_le h.chunk_le
  · rcases hpc with hpc | ⟨-, hlast⟩
    · simp [hpc] at hret
    · exact hlast

/-- A process that waits on for the same chunk. -/
theorem Serves.goOn {peer : Addr} {k : ℕ} {s' : Server} (h : Serves config peer k s)
    (hsending : Sending config s') (hpeer : s'.clientaddr = peer) (hchunk : s'.chunk = s.chunk) :
    Serves config peer k s' := by
  refine ⟨fun hfrq => ?_, fun _ => ⟨hsending, hpeer⟩, ?_, ?_, fun hret => ?_⟩
  · simp [hsending.pc_eq] at hfrq
  · exact hchunk.trans_le h.chunk_le_last
  · exact hchunk.trans_le h.chunk_le
  · simp [hsending.pc_eq] at hret

/-- **A step in the service of `peer`.**  The process goes on serving, never falls back, and
sends nothing but the packet of its current chunk. -/
theorem Serves.step {peer : Addr} {k : ℕ} (h : Serves config peer k s) {r : Recv}
    (hpc : s.pc = .waitFrq ∨ s.pc = .waitAck) (hsource : r.sourceOr peer = peer)
    (hack : AckSound config k s r) :
    Serves config peer k (startMyftpServer config s r).1 ∧
      s.chunk ≤ (startMyftpServer config s r).1.chunk ∧
      ∀ packet ∈ (startMyftpServer config s r).2,
        packet = dataTo config peer (startMyftpServer config s r).1.chunk := by
  have haddr := @clientaddr_startMyftpServer config s hpc r
  rcases hpc with hpc | hpc
  · have hround := @waitFrq_round config s hpc r
    rw [← startMyftpServer_waitFrq hpc] at hround
    generalize startMyftpServer config s r = result at hround haddr ⊢
    obtain ⟨s', out⟩ := result
    dsimp only at hround haddr ⊢
    have hzero := h.waiting hpc
    cases hround with
    | exited hpc' hchunk hout =>
        exact ⟨h.quiet hchunk (Or.inl hpc'), hchunk.ge, by simp [hout]⟩
    | waiting hpc' hchunk hout =>
        refine ⟨⟨fun _ => hchunk.trans hzero, fun hack => ?_, ?_, ?_, fun hret => ?_⟩, hchunk.ge,
          by simp [hout]⟩
        · simp [hpc'] at hack
        · exact hchunk.trans_le h.chunk_le_last
        · exact hchunk.trans_le h.chunk_le
        · simp [hpc'] at hret
    | accepted source bytes hr hsending hchunk hout =>
        subst hr
        have hpeer : s'.clientaddr = peer := haddr.trans hsource
        refine ⟨⟨fun hfrq => ?_, fun _ => ⟨hsending, hpeer⟩, ?_, ?_, fun hret => ?_⟩, ?_, ?_⟩
        · simp [hsending.pc_eq] at hfrq
        · exact hsending.chunk_le
        · exact hchunk.trans_le (Nat.zero_le k)
        · simp [hsending.pc_eq] at hret
        · exact hzero.trans_le (Nat.zero_le _)
        · simp [hout, hpeer, hchunk]
  · obtain ⟨hsending, hpeer⟩ := h.sending hpc
    have hround := hsending.waitAck r
    rw [← startMyftpServer_waitAck hpc] at hround
    generalize startMyftpServer config s r = result at hround haddr ⊢
    obtain ⟨s', out⟩ := result
    dsimp only at hround haddr ⊢
    have hpeer' : s'.clientaddr = peer := by rw [haddr, hpeer, hsource]
    cases hround with
    | exited hpc' hchunk hout =>
        exact ⟨h.quiet hchunk (Or.inl hpc'), hchunk.ge, by simp [hout]⟩
    | ignored hsending' hchunk hout =>
        exact ⟨h.goOn hsending' hpeer' hchunk, hchunk.ge, by simp [hout]⟩
    | resent hsending' hchunk hout =>
        exact ⟨h.goOn hsending' hpeer' hchunk, hchunk.ge, by simp [hout, hpeer', hchunk]⟩
    | returned source bytes hr hacks hpc' hchunk hout =>
        have hlast := (hack source bytes 0 hr hpc hacks).1 rfl
        exact ⟨h.quiet hchunk (Or.inr ⟨hpc', hlast⟩), hchunk.ge, by simp [hout]⟩
    | advanced source bytes hr hacks hchunk hnext =>
        obtain ⟨hlt, hlast⟩ := (hack source bytes _ hr hpc hacks).2 rfl
        obtain ⟨hsending', hout⟩ := hnext hlast
        refine ⟨⟨fun hfrq => ?_, fun _ => ⟨hsending', hpeer'⟩, ?_, ?_, fun hret => ?_⟩, ?_, ?_⟩
        · simp [hsending'.pc_eq] at hfrq
        · exact hsending'.chunk_le
        · exact hchunk.trans_le hlt
        · simp [hsending'.pc_eq] at hret
        · exact hchunk.ge.trans' (Nat.le_succ _)
        · simp [hout, hpeer', hchunk]

end Server

/-! ## The client -/

namespace Client

/-- The client has written exactly the first `k` chunks of `file`, and expects chunk `k` while it
is still receiving. -/
structure Accepted (file : List UInt8) (c : Client) (k : ℕ) : Prop where
  written_eq : c.written = firstChunks file k
  receiving : c.pc = .receiving → k ≤ lastChunk file ∧ c.block + 1 = blockNumber k
  finished : c.pc = .finished → k = lastChunk file + 1
  not_overrun : c.pc ≠ .overrun

variable {config : ClientConfig} {file : List UInt8} {c : Client} {k : ℕ}

theorem accepted_start (file : List UInt8) (servaddr : Addr) :
    Accepted file (start servaddr) 0 :=
  ⟨by simp [start], fun _ => ⟨Nat.zero_le _, rfl⟩, fun h => by simp [start] at h,
    by simp [start]⟩

/-- Having written the file is what reporting the end means. -/
theorem Accepted.written_of_finished (h : Accepted file c k) (hpc : c.pc = .finished) :
    c.written = file := by
  rw [h.written_eq, h.finished hpc, firstChunks_last]

/-- The address and the timeout counters do not matter. -/
theorem Accepted.congr (h : Accepted file c k) (servaddr : Addr) (first second : ℕ) :
    Accepted file { c with servaddr, timeoutFirstNum := first, timeoutNum := second } k :=
  ⟨h.written_eq, h.receiving, h.finished, h.not_overrun⟩

/-- Leaving the loop early keeps what was written. -/
theorem Accepted.stop (h : Accepted file c k) : Accepted file { c with pc := .stopped } k :=
  ⟨h.written_eq, fun hpc => by simp at hpc, fun hpc => by simp at hpc, by simp⟩

/-- The recovery message: the request while nothing was accepted, an ERROR afterwards. -/
def IsRecovery (config : ClientConfig) (bytes : List UInt8) : Prop :=
  bytes = frqPacket config.order config.filename ∨
    ∃ block < 2 ^ 16, bytes = answer config Opcode.error block

theorem Accepted.block_lt (h : Accepted file c k) (hpc : c.pc = .receiving) :
    c.block < 2 ^ 16 := by
  have := (h.receiving hpc).2
  have := blockNumber_lt k
  omega

/-- **A timed-out receive** sends nothing but a recovery message. -/
theorem Accepted.timedOut (h : Accepted file c k) (config : ClientConfig)
    (hpc : c.pc = .receiving) :
    Accepted file (Client.timedOut config c).1 k ∧
      ∀ packet ∈ (Client.timedOut config c).2,
        packet.dest = c.servaddr ∧ IsRecovery config packet.bytes := by
  unfold Client.timedOut
  split_ifs with hblock hfirst hlimit
  · exact ⟨h.stop, by simp⟩
  · refine ⟨h.congr _ _ _, fun packet hmem => ?_⟩
    rw [List.mem_singleton.mp hmem]
    exact ⟨rfl, Or.inl rfl⟩
  · exact ⟨h.stop, by simp⟩
  · refine ⟨h.congr _ _ _, fun packet hmem => ?_⟩
    rw [List.mem_singleton.mp hmem]
    exact ⟨rfl, Or.inr ⟨c.block, h.block_lt hpc, rfl⟩⟩

/-- **A packet that fails the checksum** is answered with an ERROR. -/
theorem Accepted.transmission_damaged (h : Accepted file c k) (hpc : c.pc = .receiving)
    {source : Addr} {bytes : List UInt8}
    (hbad : inCksum config.order ((Buffer.zero maxFilePacketSize).recvfrom bytes).bytes ≠ 0) :
    Accepted file (c.transmission config (.datagram source bytes)).1 k ∧
      ∀ packet ∈ (c.transmission config (.datagram source bytes)).2,
        packet.dest = source ∧ IsRecovery config packet.bytes := by
  have hsame := h.congr source 0 0
  unfold Client.transmission
  dsimp only
  split_ifs with hempty
  · exact ⟨hsame.stop, by simp⟩
  · refine ⟨hsame, fun packet hmem => ?_⟩
    rw [List.mem_singleton.mp hmem]
    exact ⟨rfl, Or.inr ⟨c.block, h.block_lt hpc, rfl⟩⟩

/-! ### Receiving the packet of a chunk -/

section DataPacket

variable (order : ByteOrder) (content : List UInt8) (j : ℕ)

/-- The client's buffer after it received the packet of chunk `j`. -/
abbrev bufferOf : List UInt8 :=
  ((Buffer.zero maxFilePacketSize).recvfrom (dataPacket order content j)).bytes

theorem bufferOf_eq : bufferOf order content j = dataPacket order content j ++
    List.replicate (maxFilePacketSize - (dataPacket order content j).length) 0 :=
  Buffer.zero_recvfrom_bytes (length_dataPacket_le order content j)

theorem mfOpcode_bufferOf : mfOpcode (bufferOf order content j) = Opcode.data := by
  have hlen := length_dataPacket order content j
  rw [← mfOpcode_dataPacket order content j]
  simp only [mfOpcode, ntohsAt]
  rw [Buffer.getD_recvfrom_of_lt _ (by omega) (by decide),
    Buffer.getD_recvfrom_of_lt _ (by omega) (by decide)]

theorem mfBlock_bufferOf : mfBlock (bufferOf order content j) = blockNumber j := by
  have hlen := length_dataPacket order content j
  rw [← mfBlock_dataPacket order content j]
  simp only [mfBlock, ntohsAt]
  rw [Buffer.getD_recvfrom_of_lt _ (by omega) (by decide),
    Buffer.getD_recvfrom_of_lt _ (by omega) (by decide)]

theorem mfData_bufferOf :
    (mfData (bufferOf order content j)).take (chunk content j).length = chunk content j := by
  have hlen := length_dataPacket order content j
  have hdata : (dataPacket order content j).drop 6 = chunk content j :=
    mfData_dataPacket order content j
  rw [bufferOf_eq, mfData, List.drop_append_of_le_length (by omega), hdata, List.take_left']
  rfl

end DataPacket

/-- The outcomes of receiving the packet of chunk `j` from `source`. -/
inductive DataRound (config : ClientConfig) (file : List UInt8) (c : Client) (k j : ℕ)
    (source : Addr) (c' : Client) (out : List Packet) : Prop
  /-- the checksum fails: an ERROR -/
  | refused (h : Accepted file c' k)
      (hout : ∀ packet ∈ out, packet.dest = source ∧ IsRecovery config packet.bytes)
  /-- not the expected number: acknowledged again, nothing written -/
  | repeated (h : Accepted file c' k) (hnumber : blockNumber j ≠ blockNumber k)
      (hout : out = [⟨source, answer config Opcode.ack (blockNumber j)⟩])
  /-- the expected number: its bytes are written -/
  | taken (hnumber : blockNumber j = blockNumber k)
      (hnext : j = k → Accepted file c' (k + 1))
      (hout : out = [⟨source, answer config Opcode.ack
        (if j = lastChunk file then 0 else blockNumber j)⟩])

/-- **Receiving the packet of chunk `j`.** -/
theorem Accepted.transmission_data (h : Accepted file c k) (hpc : c.pc = .receiving)
    (source : Addr) (order : ByteOrder) {j : ℕ} (hj : j ≤ lastChunk file) :
    DataRound config file c k j source
      (c.transmission config (.datagram source (dataPacket order file j))).1
      (c.transmission config (.datagram source (dataPacket order file j))).2 := by
  obtain ⟨hk, hblock⟩ := h.receiving hpc
  have hsame := h.congr source 0 0
  have hlen := length_dataPacket order file j
  have hle := length_dataPacket_le order file j
  have hnonempty : (dataPacket order file j).length ≠ 0 := by omega
  have hwrite : min (dataPacket order file j).length maxFilePacketSize - 6 =
      (chunk file j).length := by omega
  have hnot : ¬ min (dataPacket order file j).length maxFilePacketSize < 6 := by omega
  simp only [Client.transmission, if_neg hnonempty, mfOpcode_bufferOf, mfBlock_bufferOf,
    true_and, hblock]
  split_ifs with hcksum hnumber
  · refine .refused hsame fun packet hmem => ?_
    rw [List.mem_singleton.mp hmem]
    exact ⟨rfl, Or.inr ⟨c.block, h.block_lt hpc, rfl⟩⟩
  · exact .repeated hsame hnumber rfl
  · have hnumber' := not_not.mp hnumber
    simp only [Client.accept, if_neg hnot, hwrite, mfData_bufferOf, mfBlock_bufferOf]
    rcases Nat.lt_or_eq_of_le hj with hlt | rfl
    · -- a full chunk: the block moves with the number received
      have hfull : ¬ (chunk file j).length < mfMaxData := by
        rw [length_chunk_of_lt hlt]
        omega
      rw [if_neg hfull]
      refine .taken hnumber' (fun hjk => ?_) (by simp [Nat.ne_of_lt hlt])
      subst hjk
      refine ⟨?_, fun _ => ⟨hlt, clientBlock_succ j⟩, fun hfin => ?_, h.not_overrun⟩
      · rw [firstChunks_succ, ← h.written_eq]
      · exact absurd (hpc.symm.trans hfin) (by simp)
    · -- the short chunk ends the transfer
      rw [if_pos (length_chunk_last file)]
      refine .taken hnumber' (fun hjk => ?_) (by simp)
      subst hjk
      refine ⟨?_, fun hrec => by simp at hrec, fun _ => rfl, by simp⟩
      rw [firstChunks_succ, ← h.written_eq]
  · exact absurd (not_not.mp hnumber) ‹_›

end Client

end NetworkHomework.Ftp
