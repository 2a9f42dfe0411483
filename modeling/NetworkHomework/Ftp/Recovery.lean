import NetworkHomework.Ftp.Integrity

/-!
# Which recovery messages the server answers

When its receive times out, the client repeats the request while its block is 0, and
sends an ERROR with its current block afterwards.  The server ignores every request
once it transmits, and answers an ERROR only if it names the block before the current
one.  So the recovery message is answered exactly when the current DATA packet is the
one the client lacks and is not the first: a lost first packet is answered with
silence, and so is a lost acknowledgement, since the client's block is then the
server's own.
-/

namespace NetworkHomework.Ftp

variable {config : PairConfig} {s : Pair}

/-- The process, on receiving `bytes` from the client, sends its current DATA packet again or
moves on to the next block. -/
def Answers (config : PairConfig) (s : Pair) (bytes : List UInt8) : Prop :=
  let (server, out) :=
    startMyftpServer config.server s.server (.datagram config.clientAddr bytes)
  ⟨config.clientAddr, s.server.filePacket⟩ ∈ out ∨ server.chunk ≠ s.server.chunk

instance (bytes : List UInt8) : Decidable (Answers config s bytes) :=
  inferInstanceAs (Decidable (_ ∨ _))

/-- The datagrams the client sends if its receive times out in this state. -/
def recoveryMessages (config : PairConfig) (s : Pair) : List (List UInt8) :=
  (startMyftpClient config.client s.client .timeout).2.map Packet.bytes

/-! ## The block numbers of every run -/

/-- What the inner loop knows of its block and its packet, however late datagrams arrive. -/
structure Server.Numbered (config : ServerConfig) (s : Server) : Prop where
  pos : 0 < s.block
  lt : s.block < 65000
  signed : fillHeader config.order Opcode.data s.block s.filePacket = s.filePacket

theorem Server.numbered_sendChunk {config : ServerConfig} {s : Server} (hpos : 0 < s.block)
    (hlt : s.block < 65000) : Numbered config (sendChunk config s).1 := by
  refine ⟨hpos, hlt, ?_⟩
  have hread : (s.fin.take mfMaxData).length ≤ mfMaxData := by simp
  simp only [sendChunk, newFilePacket_eq config.order s.block hread, fillHeader_fillHeader]

theorem Server.nextBlock_bounds {block : ℕ} (hlt : block < 65000) :
    0 < nextBlock block ∧ nextBlock block < 65000 := by
  unfold nextBlock
  split_ifs <;> omega

/-- What a receive does to a process that is in the inner loop afterwards. -/
inductive Server.Count (config : ServerConfig) (s s' : Server) : Prop
  /-- the request came in: the first chunk is sent -/
  | first (middle : Server) (hblock : middle.block = 1) (hchunk : middle.chunk = 0)
      (hs' : s' = (sendChunk config middle).1)
  /-- the current chunk is waited for still, its packet perhaps signed again -/
  | same (hpc : s.pc = .waitAck) (hblock : s'.block = s.block) (hchunk : s'.chunk = s.chunk)
      (hpacket : s'.filePacket = s.filePacket ∨
        s'.filePacket = fillHeader config.order Opcode.data s.block s.filePacket)
  /-- the current chunk was acknowledged: the next one is sent -/
  | next (middle : Server) (hpc : s.pc = .waitAck) (hblock : middle.block = nextBlock s.block)
      (hchunk : middle.chunk = s.chunk + 1) (hs' : s' = (sendChunk config middle).1)

theorem Server.count_step {config : ServerConfig} {s : Server} (r : Recv)
    (hpc : (startMyftpServer config s r).1.pc = .waitAck) :
    Count config s (startMyftpServer config s r).1 := by
  unfold startMyftpServer at hpc ⊢
  cases hs : s.pc with
  | waitFrq =>
      rw [hs] at hpc
      cases r with
      | timeout =>
          simp only [Server.waitFrq] at hpc
          split_ifs at hpc
          simp [hs] at hpc
      | datagram source bytes =>
          simp only [Server.waitFrq] at hpc ⊢
          split_ifs at hpc ⊢
          · simp [hs] at hpc
          · exact .first _ rfl rfl rfl
  | waitAck =>
      cases r with
      | timeout =>
          simp only [Server.waitAck, Server.resend]
          split_ifs
          · exact .same hs rfl rfl (.inl rfl)
          · exact .same hs rfl rfl (.inr rfl)
      | datagram source bytes =>
          simp only [Server.waitAck, Server.resend]
          split_ifs <;> first
            | exact .same hs rfl rfl (.inl rfl)
            | exact .same hs rfl rfl (.inr rfl)
            | exact .next _ hs rfl rfl rfl
  | returned => simp [hs] at hpc
  | exited => simp [hs] at hpc

theorem Server.numbered_step {config : ServerConfig} {s : Server}
    (h : s.pc = .waitAck → s.Numbered config) (r : Recv)
    (hpc : (startMyftpServer config s r).1.pc = .waitAck) :
    (startMyftpServer config s r).1.Numbered config := by
  cases count_step r hpc with
  | first middle hblock _ hs' =>
      rw [hs']
      exact numbered_sendChunk (by omega) (by omega)
  | same hwaiting hblock _ hpacket =>
      obtain ⟨hpos, hlt, hsigned⟩ := h hwaiting
      have hkept : (startMyftpServer config s r).1.filePacket = s.filePacket := by
        rcases hpacket with hkept | hresigned
        · exact hkept
        · exact hresigned.trans hsigned
      exact ⟨hblock ▸ hpos, hblock ▸ hlt, by rw [hblock, hkept, hsigned]⟩
  | next middle hwaiting hblock _ hs' =>
      have hnext := nextBlock_bounds (h hwaiting).lt
      rw [hs']
      exact numbered_sendChunk (hblock ▸ hnext.1) (hblock ▸ hnext.2)

theorem Client.block_step {config : ClientConfig} {c : Client} (h : c.block < 2 ^ 16) (r : Recv) :
    (startMyftpClient config c r).1.block < 2 ^ 16 := by
  unfold startMyftpClient
  cases hc : c.pc with
  | receiving =>
      cases r with
      | timeout =>
          simp only [Client.transmission, Client.timedOut]
          split_ifs <;> exact h
      | datagram source bytes =>
          simp only [Client.transmission, Client.accept]
          split_ifs <;> first
            | exact h
            | exact mfBlock_lt _
            | simp
  | finished => exact h
  | stopped => exact h
  | overrun => exact h

/-- The block numbers of both parties, in every run. -/
theorem numbered_of_reachable (h : (pairSystem config).Reachable s) :
    (s.server.pc = .waitAck → s.server.Numbered config.server) ∧ s.client.block < 2 ^ 16 := by
  induction h with
  | start hstart =>
      obtain ⟨clientaddr, garbage, rfl⟩ := hstart
      exact ⟨fun hpc => by simp [Pair.start, Server.start] at hpc,
        by simp [Pair.start, Client.start]⟩
  | @next s s' a _ _ hstep ih =>
      have hserver : ∀ r, (s.serverStep config r).server.pc = .waitAck →
          (s.serverStep config r).server.Numbered config.server :=
        fun r hpc => Server.numbered_step ih.1 r hpc
      have hclient : ∀ about r, (s.clientStep config about r).client.block < 2 ^ 16 :=
        fun about r => Client.block_step ih.2 r
      cases a <;>
        obtain ⟨-, rfl⟩ := Option.ite_some_none_eq_some.mp hstep <;>
        first
          | exact ⟨hserver _, ih.2⟩
          | exact ⟨ih.1, hclient _ _⟩

/-! ## The answer to a recovery message -/

theorem mem_recoveryMessages {bytes : List UInt8} (hpc : s.client.pc = .receiving)
    (h : bytes ∈ recoveryMessages config s) :
    (s.client.block = 0 ∧
      bytes = frqPacket config.client.order config.client.filename) ∨
    (s.client.block ≠ 0 ∧
      bytes = Client.answer config.client Opcode.error s.client.block) := by
  simp only [recoveryMessages, startMyftpClient, hpc, Client.transmission, Client.timedOut] at h
  split_ifs at h with hblock hfirst hlimit
  · simp at h
  · exact Or.inl ⟨hblock, by simpa using h⟩
  · simp at h
  · exact Or.inr ⟨hblock, by simpa using h⟩

/-- A request never gets an answer out of the inner loop. -/
theorem not_answers_frqPacket (hpc : s.server.pc = .waitAck) (order : ByteOrder)
    (name : FileName) : ¬ Answers config s (frqPacket order name) := by
  have hnonempty : (frqPacket order name).length ≠ 0 := by
    rw [length_frqPacket, FileName.frqSize]
    omega
  simp [Answers, startMyftpServer, hpc, Server.waitAck, hnonempty, mfOpcode_recvfrom_frqPacket]

/-- An ERROR is answered exactly if it names the block before the current one. -/
theorem answers_error_iff (hpc : s.server.pc = .waitAck)
    (hnumbered : s.server.Numbered config.server) {block : ℕ} (hblock : block < 2 ^ 16) :
    Answers config s (Client.answer config.client Opcode.error block) ↔
      s.server.block = block + 1 := by
  have hpos := hnumbered.pos
  have hnonempty : (Client.answer config.client Opcode.error block).length ≠ 0 := by
    rw [length_answer]
    decide
  have hopcode : mfOpcode (Client.answer config.client Opcode.error block) = Opcode.error :=
    mfOpcode_answer block (by decide)
  have hfrq : ¬ Opcode.error = Opcode.frq := by decide
  simp only [Answers, startMyftpServer, hpc, Server.waitAck, recvfrom_answer, hopcode,
    mfBlock_answer Opcode.error hblock, if_neg hnonempty, if_neg hfrq, if_true]
  split_ifs with hcurrent
  · simp only [Server.resend, hnumbered.signed, List.mem_singleton, true_or, true_iff]
    omega
  · simp only [List.not_mem_nil, ne_eq, not_true_eq_false, or_self, false_iff]
    omega

/-- In runs that keep no datagram back, the block numbers say how far the client is. -/
theorem PairInv.block_iff {k : ℕ} (h : PairInv config s k) (hwait : s.server.pc = .waitAck)
    (hreceiving : s.client.pc = .receiving) :
    s.client.block ≠ 0 ∧ s.server.block = s.client.block + 1 ↔
      0 < s.server.chunk ∧
        s.client.written = firstChunks config.server.file s.server.chunk := by
  obtain ⟨hk, hblock⟩ := h.accepted.receiving hreceiving
  have hserver := (h.serves.sending hwait).1.block_eq
  have hle := h.serves.chunk_le
  have hge := h.le_chunk
  rw [hserver, hblock, h.accepted.written_eq]
  rcases Nat.lt_or_eq_of_le hle with hlt | heq
  · -- the client is one chunk ahead: the numbers differ, and so do the lengths
    have hk' : k = s.server.chunk + 1 := by omega
    subst hk'
    have hnumber := blockNumber_ne (Nat.lt_succ_self s.server.chunk) (by omega)
    have hlength : (firstChunks config.server.file (s.server.chunk + 1)).length ≠
        (firstChunks config.server.file s.server.chunk).length := by
      rw [firstChunks_succ, List.length_append, length_chunk_of_lt (by omega), mfMaxData]
      omega
    exact ⟨fun hboth => absurd hboth.2 hnumber,
      fun hboth => absurd (congrArg List.length hboth.2) hlength⟩
  · rw [← heq]
    have hfirst : s.client.block = 0 ↔ s.server.chunk = 0 := by
      rw [← heq, blockNumber_eq] at hblock
      split_ifs at hblock <;> omega
    constructor
    · rintro ⟨hne, -⟩
      exact ⟨Nat.pos_of_ne_zero fun hzero => hne (hfirst.mpr hzero), rfl⟩
    · rintro ⟨hpos, -⟩
      exact ⟨fun hzero => absurd (hfirst.mp hzero) (by omega), rfl⟩

theorem answers_recoveryMessage_iff (h : (pairSystem config).Reachable s)
    (hwait : s.server.pc = .waitAck) (hreceiving : s.client.pc = .receiving)
    {bytes : List UInt8} (hsent : bytes ∈ recoveryMessages config s) :
    Answers config s bytes ↔ s.client.block ≠ 0 ∧ s.server.block = s.client.block + 1 := by
  obtain ⟨hnumbered, hlt⟩ := numbered_of_reachable h
  rcases mem_recoveryMessages hreceiving hsent with ⟨hzero, rfl⟩ | ⟨hne, rfl⟩
  · have hsilent : ¬ Answers config s (frqPacket config.client.order config.client.filename) :=
      not_answers_frqPacket hwait _ _
    exact iff_of_false hsilent fun hboth => hboth.1 hzero
  · rw [answers_error_iff hwait (hnumbered hwait) hlt]
    exact ⟨fun heq => ⟨hne, heq⟩, fun hboth => hboth.2⟩

/-- **Recovery messages.**  In every run, the message the client sends on a timeout is answered
exactly if its block is not 0 and the server is at the block after it.  While no datagram is kept
back for 64000 chunks, this says that the client has accepted all chunks before the current one,
of which there is at least one, and not the current one. -/
theorem recovery_answered_iff (config : PairConfig) :
    (∀ s, (pairSystem config).Reachable s → s.server.pc = .waitAck →
      s.client.pc = .receiving → ∀ bytes ∈ recoveryMessages config s,
        (Answers config s bytes ↔
          s.client.block ≠ 0 ∧ s.server.block = s.client.block + 1)) ∧
    (∀ s, (pairSystem config).ReachableUnder Pair.Fresh s → s.server.pc = .waitAck →
      s.client.pc = .receiving → ∀ bytes ∈ recoveryMessages config s,
        (Answers config s bytes ↔
          0 < s.server.chunk ∧
            s.client.written = firstChunks config.server.file s.server.chunk)) := by
  constructor
  · intro s h hwait hreceiving bytes hsent
    exact answers_recoveryMessage_iff h hwait hreceiving hsent
  · intro s h hwait hreceiving bytes hsent
    obtain ⟨k, hinv⟩ := pairInv_of_reachable h
    rw [answers_recoveryMessage_iff h.reachable hwait hreceiving hsent]
    exact hinv.block_iff hwait hreceiving

namespace FullChunk

/-- The first DATA packet is lost. -/
def firstLost : List PairAction := [.toServer request]

/-- The first chunk is acknowledged, the second DATA packet is lost. -/
def secondLost : List PairAction := [.toServer request, .toClient firstData, .toServer firstAck]

/-- After a lost second packet the recovery message is answered. -/
theorem recovery_answered_second :
    ∀ bytes ∈ recoveryMessages pair (after secondLost), Answers pair (after secondLost) bytes := by
  have hreach : (pairSystem pair).ReachableUnder Pair.Fresh (after secondLost) :=
    reachable_after (by decide +kernel) (by decide +kernel)
  have hwait : (after secondLost).server.pc = .waitAck := by decide +kernel
  have hreceiving : (after secondLost).client.pc = .receiving := by decide +kernel
  have hbehind : 0 < (after secondLost).server.chunk ∧ (after secondLost).client.written =
      firstChunks pair.server.file (after secondLost).server.chunk := by decide +kernel
  -- from here on the state is arbitrary, so that nothing evaluates it again
  generalize after secondLost = s at *
  intro bytes hsent
  have hiff := (recovery_answered_iff pair).2 s hreach hwait hreceiving bytes hsent
  exact hiff.mpr hbehind

/-- After a lost first packet it is not: the server waits, the client receives, and the request
the client repeats changes nothing. -/
theorem recovery_ignored :
    ∃ s, (pairSystem pair).Reachable s ∧ s.server.pc = .waitAck ∧ s.client.pc = .receiving ∧
      ∃ bytes ∈ recoveryMessages pair s, ¬ Answers pair s bytes := by
  have hreach : (pairSystem pair).ReachableUnder Pair.Fresh (after firstLost) :=
    reachable_after (by decide +kernel) (by decide +kernel)
  have hsent : request.bytes ∈ recoveryMessages pair (after firstLost) := by decide +kernel
  have hsilent : ¬ Answers pair (after firstLost) request.bytes := by decide +kernel
  exact ⟨_, hreach.reachable, by decide +kernel, by decide +kernel, _, hsent, hsilent⟩

end FullChunk

end NetworkHomework.Ftp
