import NetworkHomework.Ftp.Acknowledged
import NetworkHomework.Ftp.Truncated

/-!
# Two counters in step

The server numbers its blocks 1, 2, …, 64999, 2, 3, …: after an acknowledgement it
replaces 65000 by 2.  The client keeps the number of the last block it took, starting
from 0, and replaces 64999 by 1 once it has acknowledged it.  The restarts are at
different places of different loops.

Whatever the two receive, each of them is described by a count of its own: the
server's block is `blockNumber` of the chunks it has moved past, and the number the
client waits for is `blockNumber` of the full blocks it has written.  After equal
counts the two agree.
-/

namespace NetworkHomework.Ftp

/-! ## The server's counter -/

namespace Server

variable {config : ServerConfig} {s : Server}

/-- In every reachable state the current block is that of the current chunk. -/
theorem block_eq_of_reachable (h : (serverSystem config).Reachable s) (hpc : s.pc = .waitAck) :
    s.block = blockNumber s.chunk := by
  induction h with
  | start hstart =>
      obtain ⟨clientaddr, garbage, rfl⟩ := hstart
      simp [start] at hpc
  | @next s s' r _ _ hstep ih =>
      obtain rfl := Option.some.inj hstep
      cases count_step r hpc with
      | first middle hblock hchunk hs' =>
          rw [hs']
          show middle.block = blockNumber middle.chunk
          rw [hblock, hchunk, blockNumber]
      | same hwaiting hblock hchunk _ => rw [hblock, hchunk, ih hwaiting]
      | next middle hwaiting hblock hchunk hs' =>
          rw [hs']
          show middle.block = blockNumber middle.chunk
          rw [hblock, hchunk, ih hwaiting, blockNumber]

/-- The packet in hand carries the current block. -/
theorem mfBlock_filePacket (h : (serverSystem config).Reachable s) (hpc : s.pc = .waitAck) :
    mfBlock s.filePacket = s.block := by
  have hnumbered := (block_of_reachable h).2 hpc
  have hlt : s.block < 2 ^ 16 := hnumbered.lt.trans (by decide)
  rw [← hnumbered.signed]
  exact mfBlock_fillHeader config.order Opcode.data s.filePacket hlt

/-- An acknowledgement of any number but 0 is ignored or brings the next block. -/
theorem startMyftpServer_answer (hpc : s.pc = .waitAck) {block : ℕ} (hpos : 0 < block)
    (hlt : block < 2 ^ 16) (client : ClientConfig) (source : Addr) :
    startMyftpServer config s (.datagram source (Client.answer client Opcode.ack block)) =
      act config { s with
          clientaddr := source, timeoutNum := 0,
          ackPacket := s.ackPacket.recvfrom (Client.answer client Opcode.ack block) }
        (if block ≠ s.block then .ignored else .advanced) := by
  have hnonempty : (Client.answer client Opcode.ack block).length ≠ 0 := by
    rw [length_answer]
    decide
  have hcksum : inCksum config.order (Client.answer client Opcode.ack block) = 0 :=
    inCksum_fillHeader _ _ _ _ (by decide)
  have hverdict := @verdict_of_ack config s.block _ hcksum (mfOpcode_answer block (by decide))
  rw [startMyftpServer_waitAck hpc, waitAck_eq_act config s source hnonempty, recvfrom_answer,
    hverdict, mfBlock_answer _ hlt, if_neg (Nat.ne_of_gt hpos)]

/-- Every chunk is reached, at the end of the file by empty ones. -/
theorem exists_waitAck (config : ServerConfig) (n : ℕ) :
    ∃ s, (serverSystem config).Reachable s ∧ s.pc = .waitAck ∧ s.chunk = n := by
  induction n with
  | zero =>
      have hstart : (serverSystem config).Reachable (start ⟨0, 0⟩ (Buffer.zero 6)) :=
        .start ⟨_, _, rfl⟩
      have hlength := length_frqPacket config.order config.filename
      have hnonempty : (frqPacket config.order config.filename).length ≠ 0 := by
        rw [hlength, FileName.frqSize]
        omega
      refine ⟨_, .next hstart trivial (a := .datagram ⟨0, 0⟩
        (frqPacket config.order config.filename)) rfl, ?_⟩
      simp only [startMyftpServer, start, waitFrq, if_neg hnonempty,
        Buffer.recvfrom_bytes_of_length_eq _ hlength, inCksum_frqPacket, ne_eq, not_true_eq_false,
        if_false, sendChunk, and_self]
  | succ n ih =>
      obtain ⟨s, hreach, hpc, hchunk⟩ := ih
      have hnumbered := (block_of_reachable hreach).2 hpc
      have hreach' : (serverSystem config).Reachable (startMyftpServer config s (.datagram ⟨0, 0⟩
          (Client.answer ⟨config.order, config.filename⟩ Opcode.ack s.block))).1 :=
        .next hreach trivial rfl
      rw [startMyftpServer_answer hpc hnumbered.pos (hnumbered.lt.trans (by decide)),
        if_neg (not_not.mpr rfl)] at hreach'
      exact ⟨_, hreach', rfl, congrArg (· + 1) hchunk⟩

end Server

/-! ## The client's counter -/

namespace Client

variable {config : ClientConfig} {c : Client}

/-- What a receive does to the counter of a client that goes on receiving. -/
inductive Count (c c' : Client) : Prop
  /-- the same block is waited for still -/
  | same (hblock : c'.block = c.block) (hwritten : c'.written = c.written)
  /-- a full block was written -/
  | next (payload : List UInt8) (hpayload : payload.length = mfMaxData)
      (hblock : c'.block = if c.block + 1 = 64999 then 1 else c.block + 1)
      (hwritten : c'.written = c.written ++ payload)

theorem count_step (hpc : c.pc = .receiving) (r : Recv)
    (hpc' : (startMyftpClient config c r).1.pc = .receiving) :
    Count c (startMyftpClient config c r).1 := by
  have hstep : startMyftpClient config c r = c.transmission config r := by
    rw [startMyftpClient, hpc]
  by_cases hr : HeaderReceived r
  · rw [hstep] at hpc' ⊢
    cases round_transmission hpc hr with
    | quiet _ _ hwritten hblock _ => exact .same hblock hwritten
    | again _ _ _ _ _ _ hwritten hblock _ => exact .same hblock hwritten
    | full _ _ payload _ _ _ hpayload hwritten hblock _ =>
        exact .next payload hpayload hblock hwritten
    | last _ _ _ _ _ _ _ hfinished _ _ => exact absurd (hfinished.symm.trans hpc') (by simp)
  · -- a truncated datagram is ignored, or brings the client to a stop
    cases r with
    | timeout => exact absurd trivial hr
    | datagram source bytes =>
        have hlt : bytes.length < 6 := Nat.lt_of_not_le hr
        by_cases hempty : bytes.length = 0
        · rw [hstep, transmission] at hpc'
          simp [hempty] at hpc'
        · by_cases hunmoved : c.Unmoved config (.datagram source bytes)
          · exact .same hunmoved.2.1 hunmoved.1
          · have hexpects := not_not.mp
              (mt (unmoved_iff config c source ⟨by omega, by omega⟩).mpr hunmoved)
            have hshort : min bytes.length maxFilePacketSize < 6 := by omega
            obtain ⟨-, hcksum, hdata, hnumber⟩ := hexpects
            rw [hstep] at hpc'
            simp [transmission, hempty, hcksum, hdata, hnumber, accept, hshort] at hpc'

/-- In every reachable state, the block waited for is that of the full blocks written. -/
theorem block_succ_of_reachable (h : (clientSystem config).Reachable c)
    (hpc : c.pc = .receiving) :
    ∃ n, c.written.length = mfMaxData * n ∧ c.block + 1 = blockNumber n := by
  induction h with
  | start hstart =>
      obtain ⟨servaddr, rfl⟩ := hstart
      exact ⟨0, rfl, rfl⟩
  | @next c c' r _ _ hstep ih =>
      obtain rfl := Option.some.inj hstep
      have hreceiving : c.pc = .receiving := by
        by_contra hleft
        have hkept : startMyftpClient config c r = (c, []) := by
          unfold startMyftpClient
          cases hc : c.pc <;> first | rfl | exact absurd hc hleft
        rw [hkept] at hpc
        exact hleft hpc
      obtain ⟨n, hlength, hblock⟩ := ih hreceiving
      cases count_step hreceiving r hpc with
      | same hsame hwritten => exact ⟨n, by rw [hwritten, hlength], by rw [hsame, hblock]⟩
      | next payload hpayload hnext hwritten =>
          refine ⟨n + 1, ?_, ?_⟩
          · rw [hwritten, List.length_append, hlength, hpayload, Nat.mul_succ]
          · rw [hnext, hblock]
            exact clientBlock_succ n

/-- The packet of a full block keeps the client receiving. -/
theorem receiving_of_full (hpc : c.pc = .receiving) (hlt : c.block + 1 < 2 ^ 16)
    {content : List UInt8} (hcontent : content.length = mfMaxData) (source : Addr) :
    (startMyftpClient config c (.datagram source (fillHeader config.order Opcode.data (c.block + 1)
      (List.replicate 6 0 ++ content)))).1.pc = .receiving := by
  have h := decodes_fillHeader config.order config hlt (Nat.le_of_eq hcontent)
  have hlength : (fillHeader config.order Opcode.data (c.block + 1)
      (List.replicate 6 0 ++ content)).length = maxFilePacketSize := by
    rw [length_fillHeader, maxFilePacketSize, ← hcontent]
    rfl
  have hsize : maxFilePacketSize ≠ 0 ∧ ¬ maxFilePacketSize < 6 ∧
      ¬ maxFilePacketSize - 6 < mfMaxData := by decide
  obtain ⟨hnonempty, hlong, hfull⟩ := hsize
  simp only [startMyftpClient, hpc, transmission, hlength, if_neg hnonempty, h.cksum, h.opcode,
    h.block_eq, ne_eq, not_true_eq_false, and_false, and_self, if_false, if_true, Nat.min_self,
    accept, if_neg hlong, if_neg hfull]

/-- Every number of full blocks is reached. -/
theorem exists_receiving (config : ClientConfig) (n : ℕ) :
    ∃ c, (clientSystem config).Reachable c ∧ c.pc = .receiving ∧
      c.written.length = mfMaxData * n := by
  induction n with
  | zero => exact ⟨start ⟨0, 0⟩, .start ⟨_, rfl⟩, rfl, rfl⟩
  | succ n ih =>
      obtain ⟨c, hreach, hpc, hlength⟩ := ih
      obtain ⟨count, -, hblock⟩ := block_succ_of_reachable hreach hpc
      have hlt : c.block + 1 < 2 ^ 16 := hblock ▸ (blockNumber_lt count).trans (by decide)
      obtain ⟨content, hcontent⟩ : ∃ content : List UInt8, content.length = mfMaxData :=
        ⟨List.replicate mfMaxData 0, List.length_replicate⟩
      have hwritten := (decodes_fillHeader config.order config hlt (Nat.le_of_eq hcontent)).written
        config (by rw [length_fillHeader]; omega) hpc rfl ⟨0, 0⟩
      refine ⟨_, .next hreach trivial rfl, receiving_of_full hpc hlt hcontent ⟨0, 0⟩, ?_⟩
      rw [hwritten, List.length_append, hlength, hcontent, Nat.mul_succ]

end Client

/-! ## Both counters -/

/-- Behind both parties lie `n` full blocks: the server has sent the next one and the client waits
for it. -/
structure AfterBlocks (serving : ServerConfig) (client : ClientConfig) (n : ℕ) (s : Server)
    (c : Client) : Prop where
  server_reachable : (serverSystem serving).Reachable s
  server_pc : s.pc = .waitAck
  acknowledged : s.chunk = n
  client_reachable : (clientSystem client).Reachable c
  client_pc : c.pc = .receiving
  written : c.written.length = mfMaxData * n

section

variable {serving : ServerConfig} {client : ClientConfig} {n : ℕ} {s : Server} {c : Client}

theorem exists_afterBlocks (serving : ServerConfig) (client : ClientConfig) (n : ℕ) :
    ∃ s c, AfterBlocks serving client n s c := by
  obtain ⟨s, hserver, hwaiting, hchunk⟩ := Server.exists_waitAck serving n
  obtain ⟨c, hclient, hreceiving, hwritten⟩ := Client.exists_receiving client n
  exact ⟨s, c, hserver, hwaiting, hchunk, hclient, hreceiving, hwritten⟩

theorem AfterBlocks.server_block (h : AfterBlocks serving client n s c) :
    s.block = blockNumber n := by
  rw [Server.block_eq_of_reachable h.server_reachable h.server_pc, h.acknowledged]

theorem AfterBlocks.client_block (h : AfterBlocks serving client n s c) :
    c.block + 1 = blockNumber n := by
  obtain ⟨count, hlength, hblock⟩ := Client.block_succ_of_reachable h.client_reachable h.client_pc
  have hcount : count = n :=
    Nat.eq_of_mul_eq_mul_left (by decide : 0 < mfMaxData) (hlength.symm.trans h.written)
  rw [hblock, hcount]

/-- The acknowledgement of a block does not end the transfer. -/
theorem AfterBlocks.not_returned (h : AfterBlocks serving client n s c) (i : ℕ) (source : Addr) :
    (startMyftpServer serving s
      (.datagram source (Client.answer client Opcode.ack (blockNumber i)))).1.pc ≠ .returned := by
  rw [Server.startMyftpServer_answer h.server_pc (blockNumber_pos i)
    ((blockNumber_lt i).trans (by decide))]
  split_ifs <;> simp [Server.act, Server.sendChunk, h.server_pc]

/-- **Block numbers in step.**  After any number of full blocks, however often the counters were
restarted, the client waits for the number of the block the server has sent, and an ERROR with the
client's block asks for that block.  The number is from 1 to 64999, so no acknowledgement of a block
is taken for the end, and chunks fewer than 64998 apart have different numbers. -/
theorem blockNumbers_inStep (h : AfterBlocks serving client n s c) :
    (s.block = c.block + 1 ∧ mfBlock s.filePacket = c.block + 1) ∧
      mfBlock (Client.answer client Opcode.error c.block) = s.block - 1 ∧
      (1 ≤ s.block ∧ s.block ≤ 64999) ∧
      (∀ i source, (startMyftpServer serving s
        (.datagram source (Client.answer client Opcode.ack (blockNumber i)))).1.pc ≠ .returned) ∧
      ∀ m s' c', AfterBlocks serving client m s' c' → m ≠ n → m < n + 64998 → n < m + 64998 →
        s'.block ≠ s.block := by
  have hserver := h.server_block
  have hclient := h.client_block
  have hpos := blockNumber_pos n
  have hlt := blockNumber_lt n
  have hsame : s.block = c.block + 1 := hserver.trans hclient.symm
  have hpacket := Server.mfBlock_filePacket h.server_reachable h.server_pc
  refine ⟨⟨hsame, hpacket.trans hsame⟩, ?_, ⟨by omega, by omega⟩, h.not_returned, ?_⟩
  · rw [mfBlock_answer _ (by omega), hsame, Nat.add_sub_cancel]
  · intro m s' c' h' hne hnear hnear'
    rw [hserver, h'.server_block]
    rcases Nat.lt_or_gt_of_ne hne with hbefore | hbehind
    · exact blockNumber_ne hbefore hnear'
    · exact (blockNumber_ne hbehind hnear).symm

/-- Past the first restart. -/
theorem blockNumbers_inStep_restart :
    ∃ s c, AfterBlocks ⟨.little, FileName.a, []⟩ ⟨.big, FileName.a⟩ 64999 s c ∧
      s.block = c.block + 1 ∧ mfBlock s.filePacket = c.block + 1 := by
  obtain ⟨s, c, h⟩ := exists_afterBlocks ⟨.little, FileName.a, []⟩ ⟨.big, FileName.a⟩ 64999
  exact ⟨s, c, h, (blockNumbers_inStep h).1⟩

end

end NetworkHomework.Ftp
