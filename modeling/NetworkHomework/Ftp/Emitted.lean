import NetworkHomework.Foundation.Transition
import NetworkHomework.Ftp.Moves

/-!
# What the server emits

The new DATA packets of a transfer process, retransmissions left out, along a run that
is driven by arbitrary receive results.  They are the packets of the chunks of the file
in order, until the short last chunk is acknowledged with its own number: the outer loop
does not know that it has sent the end of the file, reads again, finds nothing, and
sends an empty block behind it.  The client of this program acknowledges the last
chunk with 0, so it takes a peer of another kind.
-/

namespace NetworkHomework.Ftp

/-! ## The chunking of a file -/

/-- Full chunks, and a short one behind them. -/
structure Chunking (file : List UInt8) (chunks : List (List UInt8)) : Prop where
  flatten : chunks.flatten = file
  short_last : ∃ full last, chunks = full ++ [last] ∧
    (∀ content ∈ full, content.length = mfMaxData) ∧ last.length < mfMaxData

/-- The packets of all chunks, in order. -/
def packets (config : ServerConfig) : List (List UInt8) :=
  (List.range (lastChunk config.file + 1)).map (dataPacket config.order config.file)

variable {config : ServerConfig} {s : Server}

@[simp] theorem length_packets : (packets config).length = lastChunk config.file + 1 := by
  simp [packets]

theorem take_packets_succ {i : ℕ} (h : i ≤ lastChunk config.file) :
    (packets config).take (i + 1) =
      (packets config).take i ++ [dataPacket config.order config.file i] := by
  rw [List.take_add_one, packets, List.getElem?_map, List.getElem?_range (by omega)]
  rfl

theorem flatten_chunks (file : List UInt8) (n : ℕ) :
    ((List.range n).map (chunk file)).flatten = firstChunks file n := by
  induction n with
  | zero => simp
  | succ n ih =>
      rw [List.range_succ, List.map_append, List.flatten_append, ih, firstChunks_succ]
      simp

theorem chunking_packets (config : ServerConfig) :
    Chunking config.file ((packets config).map mfData) := by
  have hdata : (packets config).map mfData =
      (List.range (lastChunk config.file + 1)).map (chunk config.file) := by
    rw [packets, List.map_map]
    apply List.map_congr_left
    intro i _
    exact mfData_dataPacket config.order config.file i
  rw [hdata]
  refine ⟨(flatten_chunks _ _).trans (firstChunks_last config.file), ?_⟩
  refine ⟨(List.range (lastChunk config.file)).map (chunk config.file),
    chunk config.file (lastChunk config.file), ?_, ?_, length_chunk_last config.file⟩
  · rw [List.range_succ, List.map_append, List.map_singleton]
  · intro content hmem
    obtain ⟨i, hi, rfl⟩ := List.mem_map.mp hmem
    exact length_chunk_of_lt (List.mem_range.mp hi)

/-! ## Runs of the server alone -/

def serverSystem (config : ServerConfig) : TransitionSystem Server Recv where
  initial s := ∃ clientaddr garbage, s = Server.start clientaddr garbage
  step s r := some (startMyftpServer config s r).1

/-- The new DATA packets of one step: whatever it sends other than the packet in hand. -/
def newData (config : ServerConfig) (s : Server) (r : Recv) : List (List UInt8) :=
  ((startMyftpServer config s r).2.map Packet.bytes).filter (· ≠ s.filePacket)

/-- The new DATA packets of a run. -/
def emitted (config : ServerConfig) : Server → List Recv → List (List UInt8)
  | _, [] => []
  | s, r :: rest => newData config s r ++ emitted config (startMyftpServer config s r).1 rest

/-- The short last chunk is acknowledged with its own number. -/
def AcksLast (config : ServerConfig) (s : Server) (r : Recv) : Prop :=
  s.pc = .waitAck ∧ s.chunk = lastChunk config.file ∧
    ∃ source bytes, r = .datagram source bytes ∧ bytes ≠ [] ∧
      Server.AcksBlock config (s.ackPacket.recvfrom bytes).bytes s.block

/-- Where a process stands that has emitted `sent`. -/
inductive Standing (config : ServerConfig) (s : Server) (sent : List (List UInt8)) : Prop
  | idle (hpc : s.pc = .waitFrq) (hpacket : s.filePacket = []) (hsent : sent = [])
  | sending (h : Server.Sending config s) (hsent : sent = (packets config).take (s.chunk + 1))
  | ended (hpc : s.pc = .returned ∨ s.pc = .exited) (hsent : sent <+: packets config)

variable {sent : List (List UInt8)} {r : Recv}

theorem Standing.prefix (h : Standing config s sent) : sent <+: packets config := by
  cases h with
  | idle hpc hpacket hsent =>
      rw [hsent]
      exact List.nil_prefix
  | sending h hsent =>
      rw [hsent]
      exact List.take_prefix _ _
  | ended hpc hsent => exact hsent

/-! ### One step -/

/-- The packets of two chunks in a row differ in their numbers. -/
theorem dataPacket_succ_ne (order : ByteOrder) (file : List UInt8) (i : ℕ) :
    dataPacket order file (i + 1) ≠ dataPacket order file i := by
  intro heq
  have hnumber := congrArg mfBlock heq
  rw [mfBlock_dataPacket, mfBlock_dataPacket] at hnumber
  exact blockNumber_ne (Nat.lt_succ_self i) (by omega) hnumber.symm

/-- What is new in a step that sends the packet of chunk `i`, if anything. -/
theorem newData_nil (hout : (startMyftpServer config s r).2 = []) : newData config s r = [] := by
  rw [newData, hout]
  rfl

theorem newData_dataTo {dest : Addr} {i : ℕ}
    (hout : (startMyftpServer config s r).2 = [Server.dataTo config dest i]) :
    newData config s r = if dataPacket config.order config.file i = s.filePacket then [] else
      [dataPacket config.order config.file i] := by
  rw [newData, hout]
  by_cases hsame : dataPacket config.order config.file i = s.filePacket <;>
    simp [Server.dataTo, hsame]

/-- As long as the request loop goes round, there is no packet in hand. -/
theorem filePacket_waitFrq (hpc : (s.waitFrq config r).1.pc = .waitFrq) :
    (s.waitFrq config r).1.filePacket = s.filePacket := by
  cases r with
  | timeout =>
      unfold Server.waitFrq
      split_ifs <;> rfl
  | datagram source bytes =>
      unfold Server.waitFrq at hpc ⊢
      dsimp only at hpc ⊢
      split_ifs at hpc ⊢
      · rfl
      · simp [Server.sendChunk] at hpc

/-- The loop that waits for a request. -/
theorem standing_waitFrq (hpc : s.pc = .waitFrq) (hpacket : s.filePacket = []) (r : Recv) :
    ¬ AcksLast config s r ∧
      Standing config (startMyftpServer config s r).1 (newData config s r) := by
  refine ⟨?_, ?_⟩
  · rintro ⟨hwait, -⟩
    rw [hpc] at hwait
    exact absurd hwait (by decide)
  · have hround := @Server.waitFrq_round config s hpc r
    have hsame := @filePacket_waitFrq config s r
    rw [← Server.startMyftpServer_waitFrq hpc] at hround hsame
    cases hround with
    | exited hpc' hchunk hout =>
        rw [newData_nil hout]
        exact .ended (.inr hpc') List.nil_prefix
    | waiting hpc' hchunk hout =>
        rw [newData_nil hout]
        exact .idle hpc' ((hsame hpc').trans hpacket) rfl
    | accepted source bytes hr hsending hchunk hout =>
        have hne : dataPacket config.order config.file 0 ≠ s.filePacket := by
          rw [hpacket]
          exact List.ne_nil_of_length_pos (by rw [length_dataPacket]; omega)
        refine .sending hsending ?_
        rw [newData_dataTo hout, if_neg hne, hchunk, take_packets_succ (Nat.zero_le _)]
        rfl

/-- An acknowledgement of the last chunk makes the process read and send another one. -/
theorem step_of_acksLast (h : Server.Sending config s) (hacks : AcksLast config s r) :
    ∃ source ackPacket, startMyftpServer config s r = Server.sendChunk config { s with
      clientaddr := source, timeoutNum := 0, ackPacket
      block := Server.nextBlock s.block, chunk := s.chunk + 1 } := by
  obtain ⟨hpc, -, source, bytes, rfl, hbytes, hcksum, hack, hnumber⟩ := hacks
  have hblock : s.block ≠ 0 := by
    rw [h.block_eq]
    exact Nat.ne_of_gt (blockNumber_pos _)
  have hlen : bytes.length ≠ 0 := fun hzero => hbytes (List.length_eq_zero_iff.mp hzero)
  refine ⟨source, s.ackPacket.recvfrom bytes, ?_⟩
  rw [Server.startMyftpServer_waitAck hpc]
  simp [Server.waitAck, hlen, hack, hcksum, hnumber, hblock, Opcode.ack, Opcode.frq, Opcode.error]

theorem newData_of_acksLast (h : Server.Sending config s) (hacks : AcksLast config s r) :
    newData config s r = [dataPacket config.order config.file (s.chunk + 1)] := by
  obtain ⟨source, ackPacket, hstep⟩ := step_of_acksLast h hacks
  have hout : (startMyftpServer config s r).2 = [Server.dataTo config source (s.chunk + 1)] := by
    rw [hstep]
    simp only [Server.sendChunk, Server.dataTo, h.block_eq, h.fin_eq]
    rfl
  rw [newData_dataTo hout, h.packet_eq, if_neg (dataPacket_succ_ne _ _ _)]

theorem not_acksLast_of_stays (h : Server.Sending config s)
    (hchunk : (startMyftpServer config s r).1.chunk = s.chunk) : ¬ AcksLast config s r := by
  intro hacks
  obtain ⟨source, ackPacket, hstep⟩ := step_of_acksLast h hacks
  rw [hstep] at hchunk
  exact Nat.succ_ne_self _ hchunk

/-- The inner loop either keeps to the chunking, or acknowledges its last chunk and goes on. -/
theorem standing_waitAck (h : Server.Sending config s)
    (hsent : sent = (packets config).take (s.chunk + 1)) (r : Recv) :
    (¬ AcksLast config s r ∧
        Standing config (s.waitAck config r).1 (sent ++ newData config s r)) ∨
      AcksLast config s r ∧ lastChunk config.file + 1 < (sent ++ newData config s r).length := by
  have hprefix : sent <+: packets config := by
    rw [hsent]
    exact List.take_prefix _ _
  have hround := h.waitAck r
  rw [← Server.startMyftpServer_waitAck h.pc_eq] at hround ⊢
  cases hround with
  | exited hpc' hchunk hout =>
      rw [newData_nil hout, List.append_nil]
      exact .inl ⟨not_acksLast_of_stays h hchunk, .ended (.inr hpc') hprefix⟩
  | ignored hsending' hchunk hout =>
      rw [newData_nil hout, List.append_nil]
      exact .inl ⟨not_acksLast_of_stays h hchunk, .sending hsending' (by rw [hsent, hchunk])⟩
  | resent hsending' hchunk hout =>
      -- the packet of the current chunk is the one in hand
      rw [newData_dataTo hout, if_pos h.packet_eq.symm, List.append_nil]
      exact .inl ⟨not_acksLast_of_stays h hchunk, .sending hsending' (by rw [hsent, hchunk])⟩
  | returned source bytes hr hack hpc' hchunk hout =>
      rw [newData_nil hout, List.append_nil]
      exact .inl ⟨not_acksLast_of_stays h hchunk, .ended (.inl hpc') hprefix⟩
  | advanced source bytes hr hack hchunk hnext =>
      rcases Nat.lt_or_eq_of_le h.chunk_le with hlt | hlast
      · obtain ⟨hsending', hout⟩ := hnext hlt
        have hnot : ¬ AcksLast config s r := fun hacks => Nat.ne_of_lt hlt hacks.2.1
        have htake := @take_packets_succ config (s.chunk + 1) (by omega)
        rw [newData_dataTo hout, h.packet_eq, if_neg (dataPacket_succ_ne _ _ _)]
        refine .inl ⟨hnot, .sending hsending' ?_⟩
        rw [hsent, hchunk, htake]
      · have hbytes : bytes ≠ [] := by
          rintro rfl
          simp [hr, Server.startMyftpServer_waitAck h.pc_eq, Server.waitAck] at hchunk
        rw [← h.block_eq] at hack
        have hacks : AcksLast config s r := ⟨h.pc_eq, hlast, source, bytes, hr, hbytes, hack⟩
        refine .inr ⟨hacks, ?_⟩
        rw [newData_of_acksLast h hacks, hsent, hlast, List.length_append, List.length_take,
          length_packets, List.length_singleton]
        omega

/-- **One step** keeps to the chunking, or it goes past the end of the file. -/
theorem Standing.step (h : Standing config s sent) (r : Recv) :
    (¬ AcksLast config s r ∧
        Standing config (startMyftpServer config s r).1 (sent ++ newData config s r)) ∨
      AcksLast config s r ∧ lastChunk config.file + 1 < (sent ++ newData config s r).length := by
  cases h with
  | idle hpc hpacket hsent =>
      rw [hsent]
      exact .inl (standing_waitFrq hpc hpacket r)
  | sending hsending hsent =>
      rw [Server.startMyftpServer_waitAck hsending.pc_eq]
      exact standing_waitAck hsending hsent r
  | ended hpc hsent =>
      have hnot : ¬ AcksLast config s r := by
        rintro ⟨hwait, -⟩
        rcases hpc with hpc | hpc <;> simp [hpc] at hwait
      have hstep : startMyftpServer config s r = (s, []) := by
        rcases hpc with hpc | hpc <;> rw [startMyftpServer, hpc]
      refine .inl ⟨hnot, ?_⟩
      rw [newData_nil (congrArg Prod.snd hstep), hstep, List.append_nil]
      exact .ended hpc hsent

/-! ### A run -/

/-- **A run** keeps to the chunking as long as no step goes past the end of the file. -/
theorem Standing.run (h : Standing config s sent) (recvs : List Recv) :
    sent ++ emitted config s recvs <+: packets config ↔
      (serverSystem config).StepsMeet (fun s r => ¬ AcksLast config s r) s recvs := by
  induction recvs generalizing s sent with
  | nil =>
      rw [emitted, List.append_nil]
      exact iff_of_true h.prefix trivial
  | cons r rest ih =>
      have hrest : (serverSystem config).StepsMeet (fun s r => ¬ AcksLast config s r) s
          (r :: rest) ↔ ¬ AcksLast config s r ∧
            (serverSystem config).StepsMeet (fun s r => ¬ AcksLast config s r)
              (startMyftpServer config s r).1 rest := by
        simp [TransitionSystem.StepsMeet, serverSystem]
      rw [hrest, emitted, ← List.append_assoc]
      rcases h.step r with ⟨hnot, hstanding⟩ | ⟨hacks, hlong⟩
      · rw [ih hstanding]
        exact (and_iff_right hnot).symm
      · refine iff_of_false (fun hprefix => ?_) fun hmeets => hmeets.1 hacks
        have hlen := hprefix.length_le
        rw [List.length_append, length_packets] at hlen
        omega

/-- **Emission.**  Whatever a transfer process receives, its new DATA packets are an initial segment
of the packets of the chunks of the file, exactly if the last chunk is never acknowledged with
its own number. -/
theorem emitted_prefix_iff (config : ServerConfig) (clientaddr : Addr) (garbage : Buffer 6)
    (recvs : List Recv) :
    Chunking config.file ((packets config).map mfData) ∧
      (emitted config (Server.start clientaddr garbage) recvs <+: packets config ↔
        (serverSystem config).StepsMeet (fun s r => ¬ AcksLast config s r)
          (Server.start clientaddr garbage) recvs) := by
  refine ⟨chunking_packets config, ?_⟩
  have hidle : Standing config (Server.start clientaddr garbage) [] := .idle rfl rfl rfl
  simpa using hidle.run recvs

namespace PastTheEnd

/-- A file of one byte. -/
def serving : ServerConfig := ⟨.little, FileName.a, [7]⟩

/-- The request, and an acknowledgement of block 1. -/
def recvs : List Recv :=
  [.datagram ⟨2, 6000⟩ (frqPacket .little FileName.a),
    .datagram ⟨2, 6000⟩ (fillHeader .little Opcode.ack 1 (List.replicate 6 0))]

/-- An empty block 2 follows the only chunk. -/
theorem not_emitted_prefix : ¬ ∀ (config : ServerConfig) (clientaddr : Addr) (garbage : Buffer 6)
    (recvs : List Recv),
      emitted config (Server.start clientaddr garbage) recvs <+: packets config := by
  intro hall
  have hlen := (hall serving ⟨2, 7000⟩ (Buffer.zero 6) recvs).length_le
  have htwo : (emitted serving (Server.start ⟨2, 7000⟩ (Buffer.zero 6)) recvs).length = 2 := by
    decide +kernel
  rw [htwo, length_packets] at hlen
  exact absurd hlen (by decide)

end PastTheEnd

end NetworkHomework.Ftp
