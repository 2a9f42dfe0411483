import NetworkHomework.Foundation.BitString
import NetworkHomework.Ftp.Chunks
import NetworkHomework.Ftp.InternetChecksum
import Mathlib.Logic.Function.Iterate

/-!
# What the client makes of a datagram

The client reads every datagram from a zeroed buffer of 518 bytes and checks the whole
buffer, while the server signs 6 bytes and what it read of the file.  The zeros behind
a short packet change nothing, so an intact DATA packet decodes to what was encoded,
whatever the byte orders of the two hosts are, and however often it was signed again
for a retransmission.

A packet that verifies is a multiple of 65535 as a number, and so it is not after a burst
of errors within 15 bits: 65535 is odd and larger than what 15 bits can change.
-/

namespace NetworkHomework.Ftp

open BitString

/-- `FilePacket` after the datagram was received into it. -/
abbrev filePacketOf (datagram : List UInt8) : List UInt8 :=
  ((Buffer.zero Client.maxFilePacketSize).recvfrom datagram).bytes

/-- The client's checks and reads of a datagram give the block and the content. -/
structure Decodes (config : ClientConfig) (datagram : List UInt8) (block : ℕ)
    (content : List UInt8) : Prop where
  cksum : inCksum config.order (filePacketOf datagram) = 0
  opcode : mfOpcode (filePacketOf datagram) = Opcode.data
  block_eq : mfBlock (filePacketOf datagram) = block
  writeBytes : min datagram.length Client.maxFilePacketSize - 6 = content.length
  data : (mfData (filePacketOf datagram)).take content.length = content

theorem inCksum_filePacketOf {order : ByteOrder} {datagram : List UInt8}
    (h : datagram.length ≤ Client.maxFilePacketSize) :
    inCksum order (filePacketOf datagram) = inCksum order datagram := by
  rw [filePacketOf, Buffer.zero_recvfrom_bytes h, inCksum_append_zeros]

/-! ## Intact packets -/

section Intact

variable (server : ByteOrder) (config : ClientConfig) {block : ℕ} {content : List UInt8}

/-- A retransmission sends what was sent the first time. -/
theorem resends_newFilePacket (block : ℕ) (hcontent : content.length ≤ mfMaxData) (resends : ℕ) :
    (fillHeader server Opcode.data block)^[resends] (Server.newFilePacket server block content) =
      fillHeader server Opcode.data block (List.replicate 6 0 ++ content) := by
  induction resends with
  | zero => exact newFilePacket_eq server block hcontent
  | succ n ih => rw [Function.iterate_succ_apply', ih, fillHeader_fillHeader]

theorem decodes_fillHeader (hblock : block < 2 ^ 16) (hcontent : content.length ≤ mfMaxData) :
    Decodes config (fillHeader server Opcode.data block (List.replicate 6 0 ++ content)) block
      content := by
  have hdata : mfData (List.replicate 6 0 ++ content) = content := rfl
  have hlen := length_fillHeader server Opcode.data block (List.replicate 6 0 ++ content)
  rw [hdata] at hlen
  have hle : 6 + content.length ≤ Client.maxFilePacketSize := Nat.add_le_add_left hcontent 6
  -- the header of the buffer is that of the datagram
  have hget : ∀ i < 6, (filePacketOf (fillHeader server Opcode.data block
      (List.replicate 6 0 ++ content))).getD i 0 =
        (fillHeader server Opcode.data block (List.replicate 6 0 ++ content)).getD i 0 :=
    fun i hi => Buffer.getD_recvfrom_of_lt _ (by omega) (by omega)
  refine ⟨?_, ?_, ?_, ?_, ?_⟩
  · rw [inCksum_filePacketOf (by omega)]
    apply inCksum_fillHeader
    simp only [List.length_append, List.length_replicate, mfMaxData] at hcontent ⊢
    omega
  · rw [mfOpcode, ntohsAt, hget 0 (by decide), hget 1 (by decide)]
    exact mfOpcode_fillHeader server block _ (by decide)
  · rw [mfBlock, ntohsAt, hget 4 (by decide), hget 5 (by decide)]
    exact mfBlock_fillHeader server Opcode.data _ hblock
  · omega
  · have hdrop := mfData_fillHeader server Opcode.data block (List.replicate 6 0 ++ content)
    rw [hdata, mfData] at hdrop
    rw [mfData, filePacketOf, Buffer.zero_recvfrom_bytes (by omega),
      List.drop_append_of_le_length (by omega), hdrop, List.take_left]

/-- A client that waits for the block writes its content and nothing else. -/
theorem Decodes.written {datagram : List UInt8} (h : Decodes config datagram block content)
    (hlen : 6 ≤ datagram.length) {c : Client} (hpc : c.pc = .receiving)
    (hnext : block = c.block + 1)
    (source : Addr) :
    (startMyftpClient config c (.datagram source datagram)).1.written = c.written ++ content := by
  have hnonempty : datagram.length ≠ 0 := by omega
  have hlong : ¬ min datagram.length Client.maxFilePacketSize < 6 := by
    simp only [Client.maxFilePacketSize]
    omega
  have hnumber := h.block_eq.trans hnext
  simp only [startMyftpClient, hpc, Client.transmission, if_neg hnonempty, h.cksum, h.opcode,
    hnumber, ne_eq, not_true_eq_false, and_false, and_self, if_false, if_true, Client.accept,
    if_neg hlong, h.writeBytes, h.data]
  split_ifs <;> rfl

/-- **DATA packets** decode to what was encoded, on hosts of any byte orders, for short and full
chunks, the first time and after any number of retransmissions. -/
theorem data_decodes (hblock : block < 2 ^ 16) (hcontent : content.length ≤ mfMaxData)
    (resends : ℕ) :
    let datagram := (fillHeader server Opcode.data block)^[resends]
      (Server.newFilePacket server block content)
    datagram.length = 6 + content.length ∧ Decodes config datagram block content ∧
      ∀ (c : Client) (source : Addr), c.pc = .receiving → block = c.block + 1 →
        (startMyftpClient config c (.datagram source datagram)).1.written =
          c.written ++ content := by
  intro datagram
  have hdatagram : datagram =
      fillHeader server Opcode.data block (List.replicate 6 0 ++ content) :=
    resends_newFilePacket server block hcontent resends
  have hlen : datagram.length = 6 + content.length := by
    rw [hdatagram, length_fillHeader]
    rfl
  have hdecodes : Decodes config datagram block content := by
    rw [hdatagram]
    exact decodes_fillHeader server config hblock hcontent
  refine ⟨hlen, hdecodes, ?_⟩
  intro c source hpc hnext
  exact hdecodes.written config (by omega) hpc hnext source

theorem data_decodes_odd :
    Decodes ⟨.big, FileName.a⟩
      ((fillHeader .little Opcode.data 64999)^[2] (Server.newFilePacket .little 64999 [7, 8, 9]))
      64999 [7, 8, 9] :=
  (data_decodes .little ⟨.big, FileName.a⟩ (by decide) (by decide) 2).2.1

end Intact

/-! ## Bursts of errors -/

/-- The sum of the words is the number of the bytes, modulo 65535. -/
theorem wordSum_little_modEq (buffer : List UInt8) :
    wordSum .little buffer ≡ lowValue buffer [MOD 65535] := by
  induction buffer using words.induct with
  | case1 first second rest ih =>
      rw [wordSum_cons_cons, lowValue_cons, lowValue_cons, ByteOrder.load]
      simp only [Nat.ModEq] at ih ⊢
      omega
  | case2 last =>
      simp only [wordSum, words, ByteOrder.load, List.sum_singleton, lowValue_cons, lowValue_nil,
        UInt8.toNat_zero]
      rfl
  | case3 => rfl

/-- As a number, a packet that verifies is a multiple of 65535, from whichever end it is read. -/
theorem dvd_value_of_inCksum {order : ByteOrder} {buffer : List UInt8}
    (hlen : buffer.length ≤ 65536) (h : inCksum order buffer = 0) (bits : BitOrder) :
    65535 ∣ value bits buffer := by
  obtain ⟨-, hdvd⟩ := (inCksum_eq_zero_iff hlen).mp
    ((inCksum_eq_zero_congr order .little hlen).mp h)
  apply (dvd_value_iff (by decide) (by decide) bits buffer).mpr
  exact ((wordSum_little_modEq buffer).dvd_iff dvd_rfl).mp hdvd

/-- **Short bursts** of errors are always caught: the client answers ERROR and writes nothing. -/
theorem burst_caught (config : ClientConfig) (bits : BitOrder) {packet received : List UInt8}
    (hlen : 6 ≤ packet.length ∧ packet.length ≤ Client.maxFilePacketSize)
    (hvalid : inCksum config.order packet = 0) (hburst : Burst bits 15 packet received) :
    inCksum config.order (filePacketOf received) ≠ 0 ∧
      ∀ (c : Client) (source : Addr), c.pc = .receiving →
        startMyftpClient config c (.datagram source received) =
          ({ c with servaddr := source, timeoutFirstNum := 0, timeoutNum := 0 },
            [⟨source, Client.answer config Opcode.error c.block⟩]) := by
  have hreceived : received.length ≤ Client.maxFilePacketSize := hburst.length_eq.trans_le hlen.2
  have hshort : Client.maxFilePacketSize ≤ 65536 := by decide
  have hcaught : inCksum config.order (filePacketOf received) ≠ 0 := by
    rw [inCksum_filePacketOf hreceived]
    intro hzero
    have hsent := dvd_value_of_inCksum (hlen.2.trans hshort) hvalid bits
    have hgot := dvd_value_of_inCksum (hreceived.trans hshort) hzero bits
    apply hburst.not_modEq (m := 65535) (by decide) (by decide)
    exact (Nat.modEq_zero_iff_dvd.mpr hsent).trans (Nat.modEq_zero_iff_dvd.mpr hgot).symm
  refine ⟨hcaught, fun c source hpc => ?_⟩
  have hnonempty : received.length ≠ 0 := by
    rw [hburst.length_eq]
    omega
  simp only [startMyftpClient, hpc, Client.transmission, if_neg hnonempty, if_pos hcaught]

/-- A byte with one bit flipped, in front of the rest of a packet. -/
theorem burst_firstByte :
    Burst .highFirst 15 [0, 2, 255, 252, 0, 1] [64, 2, 255, 252, 0, 1] := by
  refine ⟨rfl, ⟨1, by decide⟩, 0, fun i hi => ⟨Nat.zero_le i, ?_⟩⟩
  by_contra hge
  obtain ⟨j, hj⟩ : ∃ j, i / 8 = j + 1 := ⟨i / 8 - 1, by omega⟩
  simp [BitOrder.bit, hj] at hi

theorem burst_caught_firstByte :
    inCksum .little (filePacketOf [64, 2, 255, 252, 0, 1]) ≠ 0 :=
  (burst_caught ⟨.little, FileName.a⟩ .highFirst (by decide) (by decide) burst_firstByte).1

end NetworkHomework.Ftp
