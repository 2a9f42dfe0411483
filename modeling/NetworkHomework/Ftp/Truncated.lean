import NetworkHomework.Ftp.Emitted
import NetworkHomework.Ftp.Reception
import NetworkHomework.Ftp.Recovery

/-!
# Datagrams shorter than a header

Neither party checks the length of what it received against the six bytes of the
header.  The client zeroes its buffer before every receive, so it reads a short
datagram padded with zeros; the low byte of its block number is then 0, and the packet
can only be the expected one when that number is a multiple of 256.  The server reads
on into what an earlier datagram left in `AckPacket`.

The server's inner loop is first reduced to a verdict on the six bytes of the buffer.
Different verdicts are different reactions, so the old bytes do not matter exactly
when every way to complete the datagram gets the same verdict.
-/

namespace NetworkHomework.Ftp

/-! ## The client -/

namespace Client

/-- Nothing is written, the block is kept, and the transfer is neither finished nor brought to an
`fwrite` with a negative length. -/
def Unmoved (config : ClientConfig) (c : Client) (r : Recv) : Prop :=
  (startMyftpClient config c r).1.written = c.written ∧
    (startMyftpClient config c r).1.block = c.block ∧
    ((startMyftpClient config c r).1.pc = .finished → c.pc = .finished) ∧
    ((startMyftpClient config c r).1.pc = .overrun → c.pc = .overrun)

instance (config : ClientConfig) (c : Client) (r : Recv) : Decidable (c.Unmoved config r) :=
  inferInstanceAs (Decidable (_ ∧ _))

/-- Padded with zeros, the datagram is the DATA packet the client waits for. -/
def Expects (config : ClientConfig) (c : Client) (bytes : List UInt8) : Prop :=
  c.pc = .receiving ∧ inCksum config.order (filePacketOf bytes) = 0 ∧
    mfOpcode (filePacketOf bytes) = Opcode.data ∧ mfBlock (filePacketOf bytes) = c.block + 1

/-- Such a datagram has five bytes, and the number waited for is a multiple of 256. -/
theorem Expects.multiple {config : ClientConfig} {c : Client} {bytes : List UInt8}
    (h : c.Expects config bytes) (hlen : bytes.length ≤ 5) :
    bytes.length = 5 ∧ (c.block + 1) % 256 = 0 := by
  obtain ⟨-, -, -, hnumber⟩ := h
  have hpad : filePacketOf bytes =
      bytes ++ List.replicate (maxFilePacketSize - bytes.length) 0 :=
    Buffer.zero_recvfrom_bytes (hlen.trans (by decide))
  -- what lies behind the datagram reads as zero
  have hzero : ∀ i, bytes.length ≤ i → (filePacketOf bytes).getD i 0 = 0 := by
    intro i hi
    rw [hpad, List.getD_eq_getElem?_getD, List.getElem?_append_right hi, List.getElem?_replicate]
    split_ifs <;> rfl
  simp only [mfBlock, ntohsAt, hzero 5 hlen, UInt8.toNat_zero] at hnumber
  rcases Nat.lt_or_ge 4 bytes.length with hfive | hless
  · omega
  · simp only [hzero 4 hless, UInt8.toNat_zero] at hnumber
    omega

/-- A truncated datagram leaves the client where it is, unless it passes for the packet the client
waits for. -/
theorem unmoved_iff (config : ClientConfig) (c : Client) (source : Addr) {bytes : List UInt8}
    (hlen : 1 ≤ bytes.length ∧ bytes.length ≤ 5) :
    c.Unmoved config (.datagram source bytes) ↔ ¬ c.Expects config bytes := by
  have hnonempty : bytes.length ≠ 0 := by omega
  have hshort : min bytes.length maxFilePacketSize < 6 := by omega
  unfold Unmoved Expects startMyftpClient
  cases hpc : c.pc with
  | receiving =>
      simp only [transmission, if_neg hnonempty, true_and]
      split_ifs with hcksum hother hnext
      · exact iff_of_true ⟨rfl, rfl, by simp [hpc], by simp [hpc]⟩ fun h => hcksum h.1
      · exact iff_of_true ⟨rfl, rfl, by simp [hpc], by simp [hpc]⟩ fun h => hother.2 h.2.2
      · rw [accept, if_pos hshort]
        exact iff_of_false (fun h => absurd (h.2.2.2 rfl) (by simp))
          fun h => h ⟨not_not.mp hcksum, hnext⟩
      · exact iff_of_true ⟨rfl, rfl, by simp [hpc], by simp [hpc]⟩ fun h => hnext h.2
  | finished => simp [hpc]
  | stopped => simp [hpc]
  | overrun => simp [hpc]

end Client

/-! ## The server's verdict -/

namespace Server

/-- What the inner loop does about a received packet. -/
inductive Verdict
  /-- waits on -/
  | ignored
  /-- sends the current packet again -/
  | resent
  /-- the client has the whole file -/
  | returned
  /-- the client has the current packet -/
  | advanced
  deriving DecidableEq

/-- The verdict on the six bytes of `AckPacket` while `block` is current. -/
def verdict (config : ServerConfig) (block : ℕ) (ackPacket : List UInt8) : Verdict :=
  if mfOpcode ackPacket = Opcode.frq then .ignored
  else if mfOpcode ackPacket = Opcode.error then
    if mfBlock ackPacket = block - 1 then .resent else .ignored
  else if inCksum config.order ackPacket ≠ 0 then .resent
  else if mfOpcode ackPacket = Opcode.ack then
    if mfBlock ackPacket = 0 then .returned
    else if mfBlock ackPacket ≠ block then .ignored
    else .advanced
  else .ignored

/-- What follows on a verdict. -/
def act (config : ServerConfig) (s : Server) : Verdict → Server × List Packet
  | .ignored => (s, [])
  | .resent => resend config s
  | .returned => ({ s with pc := .returned }, [])
  | .advanced => sendChunk config { s with block := nextBlock s.block, chunk := s.chunk + 1 }

variable {config : ServerConfig} {s : Server} {bytes : List UInt8}

/-- A round of the inner loop is the verdict on the buffer, and what follows on it. -/
theorem waitAck_eq_act (config : ServerConfig) (s : Server) (source : Addr)
    (hbytes : bytes.length ≠ 0) :
    s.waitAck config (.datagram source bytes) =
      act config { s with clientaddr := source, timeoutNum := 0,
                          ackPacket := s.ackPacket.recvfrom bytes }
        (verdict config s.block (s.ackPacket.recvfrom bytes).bytes) := by
  unfold waitAck verdict
  simp only [if_neg hbytes]
  split_ifs <;> rfl

theorem verdict_of_ack {block : ℕ} {ackPacket : List UInt8}
    (hcksum : inCksum config.order ackPacket = 0) (hack : mfOpcode ackPacket = Opcode.ack) :
    verdict config block ackPacket =
      if mfBlock ackPacket = 0 then .returned
      else if mfBlock ackPacket ≠ block then .ignored else .advanced := by
  have hfrq : mfOpcode ackPacket ≠ Opcode.frq := by rw [hack]; decide
  have herror : mfOpcode ackPacket ≠ Opcode.error := by rw [hack]; decide
  rw [verdict, if_neg hfrq, if_neg herror, if_neg (not_not.mpr hcksum), if_pos hack]

theorem verdict_of_not_ack {block : ℕ} {ackPacket : List UInt8}
    (h : ¬ (inCksum config.order ackPacket = 0 ∧ mfOpcode ackPacket = Opcode.ack)) :
    verdict config block ackPacket = .ignored ∨ verdict config block ackPacket = .resent := by
  unfold verdict
  split_ifs with hfrq herror hcurrent hcksum hack hzero hother
  · exact .inl rfl
  · exact .inr rfl
  · exact .inl rfl
  · exact .inr rfl
  · exact absurd ⟨not_not.mp hcksum, hack⟩ h
  · exact .inl rfl
  · exact absurd ⟨not_not.mp hcksum, hack⟩ h
  · exact .inl rfl

/-- The transfer moves on an acknowledgement of 0 or of the current block. -/
theorem verdict_moves_iff {block : ℕ} {ackPacket : List UInt8} :
    (verdict config block ackPacket = .returned ∨ verdict config block ackPacket = .advanced) ↔
      AcksBlock config ackPacket 0 ∨ AcksBlock config ackPacket block := by
  by_cases h : inCksum config.order ackPacket = 0 ∧ mfOpcode ackPacket = Opcode.ack
  · rw [verdict_of_ack h.1 h.2]
    simp only [AcksBlock, h.1, h.2, true_and]
    split_ifs with hzero hother <;> simp_all
  · refine iff_of_false ?_ fun hacks => ?_
    · rcases @verdict_of_not_ack config block ackPacket h with hv | hv <;> simp [hv]
    · rcases hacks with hacks | hacks <;> exact h ⟨hacks.1, hacks.2.1⟩

/-! ## The server moves on -/

/-- The block is kept, and the process does not leave. -/
def Unmoved (config : ServerConfig) (s : Server) (r : Recv) : Prop :=
  (startMyftpServer config s r).1.block = s.block ∧
    ((startMyftpServer config s r).1.pc = .returned → s.pc = .returned) ∧
    ((startMyftpServer config s r).1.pc = .exited → s.pc = .exited)

instance (config : ServerConfig) (s : Server) (r : Recv) : Decidable (s.Unmoved config r) :=
  inferInstanceAs (Decidable (_ ∧ _))

/-- Completed with the old bytes of the buffer, the datagram acknowledges 0 or the current block. -/
def Acks (config : ServerConfig) (s : Server) (bytes : List UInt8) : Prop :=
  s.pc = .waitAck ∧ (AcksBlock config (s.ackPacket.recvfrom bytes).bytes 0 ∨
    AcksBlock config (s.ackPacket.recvfrom bytes).bytes s.block)

theorem nextBlock_ne (block : ℕ) : nextBlock block ≠ block := by
  unfold nextBlock
  split_ifs <;> omega

/-- Nothing leads back into the request loop, and within it the block is not touched. -/
theorem waitFrq_of_step {r : Recv} (h : (startMyftpServer config s r).1.pc = .waitFrq) :
    s.pc = .waitFrq ∧ (startMyftpServer config s r).1.block = s.block := by
  unfold startMyftpServer at h ⊢
  cases hpc : s.pc with
  | waitFrq =>
      rw [hpc] at h
      cases r <;> simp only [waitFrq, sendChunk] at h ⊢ <;> split_ifs at h ⊢ <;> simp_all
  | waitAck =>
      rw [hpc] at h
      cases r <;> simp only [waitAck, resend, sendChunk] at h <;> split_ifs at h <;> simp_all
  | returned =>
      rw [hpc] at h
      exact absurd (hpc.symm.trans h) (by simp)
  | exited =>
      rw [hpc] at h
      exact absurd (hpc.symm.trans h) (by simp)

/-- The block in every reachable state. -/
theorem block_of_reachable (h : (serverSystem config).Reachable s) :
    (s.pc = .waitFrq → s.block = 1) ∧ (s.pc = .waitAck → s.Numbered config) := by
  induction h with
  | start hstart =>
      obtain ⟨clientaddr, garbage, rfl⟩ := hstart
      exact ⟨fun _ => rfl, fun hpc => by simp [start] at hpc⟩
  | @next s s' r _ _ hstep ih =>
      obtain rfl := Option.some.inj hstep
      refine ⟨fun hpc => ?_, fun hpc => numbered_step ih.2 r hpc⟩
      obtain ⟨hfrq, hblock⟩ := waitFrq_of_step hpc
      exact hblock.trans (ih.1 hfrq)

/-- A truncated datagram leaves the server where it is, unless the old bytes complete it to an
acknowledgement. -/
theorem unmoved_iff (h : s.pc = .waitFrq → s.block = 1) (source : Addr)
    (hlen : bytes.length ≠ 0) :
    s.Unmoved config (.datagram source bytes) ↔ ¬ s.Acks config bytes := by
  unfold Unmoved Acks startMyftpServer
  cases hpc : s.pc with
  | waitFrq =>
      have hblock := h hpc
      simp only [waitFrq, if_neg hlen, sendChunk]
      split_ifs <;> simp [hpc, hblock]
  | waitAck =>
      have hne := nextBlock_ne s.block
      simp only [true_and, waitAck_eq_act config s source hlen, ← verdict_moves_iff]
      cases verdict config s.block (s.ackPacket.recvfrom bytes).bytes with
      | ignored => simp [act, hpc]
      | resent => simp [act, resend, hpc]
      | returned => simp [act]
      | advanced => simp [act, sendChunk, hne]
  | returned => simp [hpc]
  | exited => simp [hpc]

/-! ## The old bytes -/

/-- The reaction of a process whose buffer holds `old`, apart from the buffer itself. -/
def reaction (config : ServerConfig) (s : Server) (r : Recv) (old : Buffer 6) :
    Server × List Packet :=
  let (s', out) := startMyftpServer config { s with ackPacket := old } r
  ({ s' with ackPacket := s.ackPacket }, out)

/-- The reaction does not depend on what the buffer holds. -/
def IgnoresOld (config : ServerConfig) (s : Server) (r : Recv) : Prop :=
  ∀ old old', reaction config s r old = reaction config s r old'

/-- In the inner loop a reaction tells the verdict. -/
theorem reaction_eq_iff (hpc : s.pc = .waitAck) (source : Addr) (hlen : bytes.length ≠ 0)
    (old old' : Buffer 6) :
    reaction config s (.datagram source bytes) old =
        reaction config s (.datagram source bytes) old' ↔
      verdict config s.block (old.recvfrom bytes).bytes =
        verdict config s.block (old'.recvfrom bytes).bytes := by
  have hreaction : ∀ buffer : Buffer 6, reaction config s (.datagram source bytes) buffer =
      let result := act config { s with clientaddr := source, timeoutNum := 0,
                                        ackPacket := buffer.recvfrom bytes }
        (verdict config s.block (buffer.recvfrom bytes).bytes)
      ({ result.1 with ackPacket := s.ackPacket }, result.2) := by
    intro buffer
    unfold reaction
    rw [startMyftpServer_waitAck (s := { s with ackPacket := buffer }) hpc,
      waitAck_eq_act config _ source hlen]
  rw [hreaction, hreaction]
  have hne := nextBlock_ne s.block
  cases verdict config s.block (old.recvfrom bytes).bytes <;>
    cases verdict config s.block (old'.recvfrom bytes).bytes <;>
      simp [act, resend, sendChunk, hpc, hne, hne.symm]

/-- What a truncated datagram becomes in the buffer. -/
theorem exists_recvfrom_eq_iff (hlen : bytes.length ≤ 6) (ackPacket : List UInt8) :
    (∃ old : Buffer 6, (old.recvfrom bytes).bytes = ackPacket) ↔
      ∃ rest, rest.length = 6 - bytes.length ∧ bytes ++ rest = ackPacket := by
  constructor
  · rintro ⟨old, rfl⟩
    refine ⟨old.bytes.drop bytes.length, ?_, ?_⟩
    · rw [List.length_drop, old.length_bytes]
    · rw [Buffer.recvfrom_bytes old hlen]
  · rintro ⟨rest, hrest, rfl⟩
    have hold : (bytes ++ rest).length = 6 := by
      rw [List.length_append, hrest]
      omega
    refine ⟨⟨bytes ++ rest, hold⟩, ?_⟩
    rw [Buffer.recvfrom_bytes _ hlen, List.drop_left]

/-! ### Which completions agree -/

/-- All completions of the datagram to six bytes get one verdict. -/
def Settled (config : ServerConfig) (block : ℕ) (bytes : List UInt8) : Prop :=
  ∀ rest rest' : List UInt8, rest.length = 6 - bytes.length → rest'.length = 6 - bytes.length →
    verdict config block (bytes ++ rest) = verdict config block (bytes ++ rest')

/-- The old bytes do not matter when the datagram alone settles the verdict. -/
theorem ignoresOld_iff_verdict (hpc : s.pc = .waitAck) (source : Addr)
    (hlen : bytes.length ≠ 0) (hle : bytes.length ≤ 6) :
    s.IgnoresOld config (.datagram source bytes) ↔
      Settled config s.block bytes := by
  constructor
  · intro h rest rest' hrest hrest'
    obtain ⟨old, hold⟩ := (exists_recvfrom_eq_iff hle _).mpr ⟨rest, hrest, rfl⟩
    obtain ⟨old', hold'⟩ := (exists_recvfrom_eq_iff hle _).mpr ⟨rest', hrest', rfl⟩
    rw [← hold, ← hold', ← reaction_eq_iff hpc source hlen]
    exact h old old'
  · intro h old old'
    obtain ⟨rest, hrest, heq⟩ := (exists_recvfrom_eq_iff hle _).mp ⟨old, rfl⟩
    obtain ⟨rest', hrest', heq'⟩ := (exists_recvfrom_eq_iff hle _).mp ⟨old', rfl⟩
    rw [reaction_eq_iff hpc source hlen, ← heq, ← heq']
    exact h rest rest' hrest hrest'

theorem mfOpcode_append (hlen : 2 ≤ bytes.length) (rest : List UInt8) :
    mfOpcode (bytes ++ rest) = mfOpcode bytes := by
  have hleft : ∀ i < 2, (bytes ++ rest).getD i 0 = bytes.getD i 0 := fun i hi =>
    List.getD_append _ _ _ _ (by omega)
  simp only [mfOpcode, ntohsAt, hleft 0 (by decide), hleft 1 (by decide)]

theorem mfBlock_append_pair (hlen : bytes.length = 4) (first second : UInt8) :
    mfBlock (bytes ++ [first, second]) = 256 * first.toNat + second.toNat := by
  have hright : ∀ i, (bytes ++ [first, second]).getD (4 + i) 0 = [first, second].getD i 0 := by
    intro i
    rw [← hlen, List.getD_append_right _ _ _ _ (Nat.le_add_right _ _), Nat.add_sub_cancel_left]
  simp only [mfBlock, ntohsAt]
  rw [show 4 = 4 + 0 from rfl, hright, hright]
  rfl

/-- The checksum decides about a packet that is neither a request nor an ERROR. -/
theorem verdict_of_other {block : ℕ} {ackPacket : List UInt8}
    (hfrq : mfOpcode ackPacket ≠ Opcode.frq) (herror : mfOpcode ackPacket ≠ Opcode.error) :
    verdict config block ackPacket = .resent ↔ inCksum config.order ackPacket ≠ 0 := by
  rw [verdict, if_neg hfrq, if_neg herror]
  split_ifs with hcksum <;> simp [*]

/-- Where one last byte verifies, the next one does not. -/
theorem verdict_ne_of_verifies {block : ℕ} {last : UInt8} (hlen : bytes.length = 5)
    (hfrq : mfOpcode bytes ≠ Opcode.frq) (herror : mfOpcode bytes ≠ Opcode.error)
    (hzero : inCksum config.order (bytes ++ [last]) = 0) :
    verdict config block (bytes ++ [last]) ≠ verdict config block (bytes ++ [last + 1]) := by
  have hverdict : ∀ byte : UInt8, verdict config block (bytes ++ [byte]) = .resent ↔
      inCksum config.order (bytes ++ [byte]) ≠ 0 := by
    intro byte
    have hopcode := @mfOpcode_append bytes (by omega) [byte]
    exact verdict_of_other (hopcode.trans_ne hfrq) (hopcode.trans_ne herror)
  have hbad : inCksum config.order (bytes ++ [last + 1]) ≠ 0 := by
    intro hzero'
    have heq := eq_of_inCksum_append (by omega) hzero hzero'
    simp at heq
  intro hsame
  exact (hverdict last).mp (hsame.trans ((hverdict _).mpr hbad)) hzero

theorem verdict_of_error {block : ℕ} {ackPacket : List UInt8}
    (herror : mfOpcode ackPacket = Opcode.error) :
    verdict config block ackPacket =
      if mfBlock ackPacket = block - 1 then .resent else .ignored := by
  have hfrq : mfOpcode ackPacket ≠ Opcode.frq := by rw [herror]; decide
  rw [verdict, if_neg hfrq, if_pos herror]

/-- Five bytes settle the verdict when the sixth cannot make the difference. -/
theorem settled_five_iff {block : ℕ} (hlen : bytes.length = 5) :
    Settled config block bytes ↔
      mfOpcode bytes = Opcode.frq ∨
        if mfOpcode bytes = Opcode.error then (bytes.getD 4 0).toNat ≠ (block - 1) / 256
        else ∀ last, inCksum config.order (bytes ++ [last]) ≠ 0 := by
  have hopcode := fun last : UInt8 => @mfOpcode_append bytes (by omega) [last]
  have hnumber : ∀ last : UInt8, mfBlock (bytes ++ [last]) =
      256 * (bytes.getD 4 0).toNat + last.toNat := by
    intro last
    simp only [mfBlock, ntohsAt]
    rw [List.getD_append _ _ _ _ (by omega), List.getD_append_right _ _ _ _ (by omega), hlen]
    rfl
  have hsettled : Settled config block bytes ↔ ∀ last last' : UInt8,
      verdict config block (bytes ++ [last]) = verdict config block (bytes ++ [last']) := by
    constructor
    · intro h last last'
      exact h [last] [last'] (by simp [hlen]) (by simp [hlen])
    · intro h rest rest' hrest hrest'
      rw [hlen] at hrest hrest'
      obtain ⟨last, rfl⟩ := List.length_eq_one_iff.mp hrest
      obtain ⟨last', rfl⟩ := List.length_eq_one_iff.mp hrest'
      exact h last last'
  rw [hsettled]
  by_cases hfrq : mfOpcode bytes = Opcode.frq
  · refine iff_of_true (fun last last' => ?_) (.inl hfrq)
    rw [verdict, verdict, hopcode, hopcode, if_pos hfrq, if_pos hfrq]
  by_cases herror : mfOpcode bytes = Opcode.error
  · have hverdict := fun last => @verdict_of_error config block _ ((hopcode last).trans herror)
    simp only [hverdict, hnumber, hfrq, if_pos herror, false_or]
    constructor
    · -- the low byte of the block asked for, and another one
      intro h heq
      have hsame := h (UInt8.ofNat (block - 1)) (UInt8.ofNat (block - 1) + 1)
      have hlow : (UInt8.ofNat (block - 1)).toNat = (block - 1) % 256 := by simp
      have hother : (UInt8.ofNat (block - 1) + 1).toNat ≠ (block - 1) % 256 := by
        rw [UInt8.toNat_add, hlow]
        simp
        omega
      rw [if_pos (by omega), if_neg (by omega)] at hsame
      simp at hsame
    · intro hne last last'
      have hlast := last.toNat_lt
      have hlast' := last'.toNat_lt
      rw [if_neg (by omega), if_neg (by omega)]
  · have hverdict := fun last => @verdict_of_other config block (bytes ++ [last])
      ((hopcode last).trans_ne hfrq) ((hopcode last).trans_ne herror)
    simp only [hfrq, if_neg herror, false_or]
    constructor
    · intro h last hzero
      exact verdict_ne_of_verifies hlen hfrq herror hzero (h last (last + 1))
    · intro hbad last last'
      rw [(hverdict last).mpr (hbad last), (hverdict last').mpr (hbad last')]

/-- Fewer bytes settle it only when they are a request: there is room for two more bytes that
make the packet verify, or that ask for any block. -/
theorem settled_four_iff {block : ℕ} (hblock : block - 1 < 2 ^ 16)
    (hlen : 1 ≤ bytes.length ∧ bytes.length ≤ 4) :
    Settled config block bytes ↔ 2 ≤ bytes.length ∧ mfOpcode bytes = Opcode.frq := by
  constructor
  · intro h
    -- zeros up to the block number leave the opcode
    obtain ⟨front, hfront⟩ : ∃ front, front = bytes ++ List.replicate (4 - bytes.length) 0 :=
      ⟨_, rfl⟩
    have hfour : front.length = 4 := by
      rw [hfront, List.length_append, List.length_replicate]
      omega
    have hopcode : ∀ first second : UInt8,
        mfOpcode (front ++ [first, second]) = mfOpcode front := fun first second =>
      mfOpcode_append (by omega) [first, second]
    have hsame : ∀ first second first' second' : UInt8,
        verdict config block (front ++ [first, second]) =
          verdict config block (front ++ [first', second']) := by
      intro first second first' second'
      rw [hfront, List.append_assoc, List.append_assoc]
      apply h <;> simp <;> omega
    have hrequest : mfOpcode front = Opcode.frq := by
      by_contra hfrq
      by_cases herror : mfOpcode front = Opcode.error
      · have hverdict := fun first second =>
          @verdict_of_error config block _ ((hopcode first second).trans herror)
        simp only [hverdict, mfBlock_append_pair hfour] at hsame
        have hasks := ntohs_htons hblock
        have hmiss := hsame (UInt8.ofNat ((block - 1) / 256)) (UInt8.ofNat (block - 1))
          (UInt8.ofNat ((block - 1) / 256) + 1) (UInt8.ofNat (block - 1))
        rw [if_pos hasks, if_neg] at hmiss
        · simp at hmiss
        · intro heq
          have hhigh : (UInt8.ofNat ((block - 1) / 256) + 1).toNat =
              (UInt8.ofNat ((block - 1) / 256)).toNat := by omega
          have := UInt8.toNat_inj.mp hhigh
          simp at this
      · obtain ⟨first, second, hzero⟩ := @exists_inCksum_append config.order front
          (by omega) (by omega)
        have hfive := @mfOpcode_append front (by omega) [first]
        rw [List.append_cons] at hzero
        have hdiffer := @verdict_ne_of_verifies config _ block _ (by simp [hfour])
          (hfive.trans_ne hfrq) (hfive.trans_ne herror) hzero
        rw [← List.append_cons, ← List.append_cons] at hdiffer
        exact hdiffer (hsame first second first (second + 1))
    rcases Nat.lt_or_ge 1 bytes.length with htwo | hone
    · rw [hfront, mfOpcode_append htwo] at hrequest
      exact ⟨htwo, hrequest⟩
    · -- a lone byte is followed by a zero, and 1 is not a multiple of 256
      obtain ⟨first, rfl⟩ := List.length_eq_one_iff.mp (Nat.le_antisymm hone hlen.1)
      rw [hfront] at hrequest
      simp [mfOpcode, ntohsAt, Opcode.frq] at hrequest
  · rintro ⟨htwo, hfrq⟩ rest rest' - -
    rw [verdict, verdict, mfOpcode_append htwo, mfOpcode_append htwo, if_pos hfrq, if_pos hfrq]

/-- The datagram settles the verdict by itself: it is a request, or it has five bytes, and either it
is an ERROR about another range of blocks or no sixth byte makes it verify. -/
def Decided (config : ServerConfig) (s : Server) (bytes : List UInt8) : Prop :=
  (2 ≤ bytes.length ∧ mfOpcode bytes = Opcode.frq) ∨
    bytes.length = 5 ∧
      if mfOpcode bytes = Opcode.error then (bytes.getD 4 0).toNat ≠ (s.block - 1) / 256
      else ∀ last, inCksum config.order (bytes ++ [last]) ≠ 0

/-- The reaction to a truncated datagram depends on the old bytes, unless the process is not in the
inner loop or the datagram settles the verdict by itself. -/
theorem ignoresOld_iff (hblock : s.pc = .waitAck → s.block - 1 < 2 ^ 16) (source : Addr)
    (hlen : 1 ≤ bytes.length ∧ bytes.length ≤ 5) :
    s.IgnoresOld config (.datagram source bytes) ↔ (s.pc = .waitAck → s.Decided config bytes) := by
  by_cases hpc : s.pc = .waitAck
  · rw [ignoresOld_iff_verdict hpc source (by omega) (by omega)]
    simp only [hpc, forall_const, Decided]
    rcases Nat.lt_or_eq_of_le hlen.2 with hfour | hfive
    · rw [settled_four_iff (hblock hpc) ⟨hlen.1, by omega⟩]
      have hnot : bytes.length ≠ 5 := by omega
      simp [hnot]
    · rw [settled_five_iff hfive]
      have htwo : 2 ≤ 5 := by decide
      simp only [hfive, htwo, true_and]
  · refine iff_of_true (fun old old' => ?_) fun h => absurd h hpc
    unfold reaction startMyftpServer
    cases h : s.pc with
    | waitFrq =>
        simp only [waitFrq, sendChunk]
        split_ifs <;> rfl
    | waitAck => exact absurd h hpc
    | returned => rfl
    | exited => rfl

end Server

/-! ## Both parties -/

def clientSystem (config : ClientConfig) : TransitionSystem Client Recv where
  initial c := ∃ servaddr, c = Client.start servaddr
  step c r := some (startMyftpClient config c r).1

/-- **Truncated datagrams.**  In every reachable state, a datagram of one to five bytes leaves the
client where it is exactly unless it passes, padded, for the packet waited for; it leaves the
server where it is exactly unless the old bytes complete it to an acknowledgement; and these bytes
do not matter exactly when the datagram settles the verdict without them. -/
theorem truncated_iff (client : ClientConfig) (c : Client) {config : ServerConfig} {s : Server}
    (hs : (serverSystem config).Reachable s) (source : Addr) {bytes : List UInt8}
    (hlen : 1 ≤ bytes.length ∧ bytes.length ≤ 5) :
    (c.Unmoved client (.datagram source bytes) ↔ ¬ c.Expects client bytes) ∧
      (s.Unmoved config (.datagram source bytes) ↔ ¬ s.Acks config bytes) ∧
      (s.IgnoresOld config (.datagram source bytes) ↔
        (s.pc = .waitAck → s.Decided config bytes)) := by
  obtain ⟨hwaiting, hnumbered⟩ := Server.block_of_reachable hs
  refine ⟨Client.unmoved_iff client c source hlen,
    Server.unmoved_iff hwaiting source (by omega),
    Server.ignoresOld_iff (fun hpc => ?_) source hlen⟩
  have := (hnumbered hpc).lt
  omega

namespace OldBytes

/-- A file of one byte. -/
def serving : ServerConfig := ⟨.little, FileName.a, [7]⟩

/-- Someone who knows the port. -/
def stranger : Addr := ⟨3, 6000⟩

/-- The request, and a packet of no known opcode with the checksum of an acknowledgement of 1. -/
def received : List Recv :=
  [.datagram ⟨2, 6000⟩ (frqPacket .little FileName.a),
    .datagram stranger
      ([0, 5] ++ (fillHeader .little Opcode.ack 1 (List.replicate 6 0)).drop 2)]

/-- The process after that. -/
def server : Server :=
  (serverSystem serving).after (Server.start ⟨2, 7000⟩ (Buffer.zero 6)) received

theorem reachable_server : (serverSystem serving).Reachable server :=
  TransitionSystem.reachable_of_run (.start ⟨_, _, rfl⟩)
    (TransitionSystem.run_eq_some_after (by decide +kernel))

/-- Two bytes of a request change nothing, and the old bytes do not matter. -/
theorem truncated_request : server.Unmoved serving (.datagram stranger [0, 1]) ∧
    server.IgnoresOld serving (.datagram stranger [0, 1]) := by
  obtain ⟨-, -, hignores⟩ := @truncated_iff ⟨.little, FileName.a⟩ (Client.start ⟨1, 5000⟩) _ _
    reachable_server stranger [0, 1] (by decide)
  exact ⟨by decide +kernel, hignores.mpr fun _ => .inl (by decide)⟩

/-- The two bytes of the opcode acknowledge block 1 with the bytes left in the buffer. -/
theorem not_truncated : ¬ ∀ (client : ClientConfig) (c : Client) (config : ServerConfig)
    (s : Server) (source : Addr) (bytes : List UInt8), (clientSystem client).Reachable c →
      (serverSystem config).Reachable s → 1 ≤ bytes.length ∧ bytes.length ≤ 5 →
        c.Unmoved client (.datagram source bytes) ∧ s.Unmoved config (.datagram source bytes) ∧
          s.IgnoresOld config (.datagram source bytes) := by
  intro h
  have hall := h ⟨.little, FileName.a⟩ (Client.start ⟨1, 5000⟩) serving server stranger [0, 3]
    (.start ⟨_, rfl⟩) reachable_server (by decide)
  exact absurd hall.2.1 (by decide +kernel)

end OldBytes

end NetworkHomework.Ftp
