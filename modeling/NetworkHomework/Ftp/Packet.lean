import NetworkHomework.Ftp.Checksum

/-!
# Packets

`struct myFtphdr` is packed: opcode at offset 0, checksum at 2, block number at 4
(for a file request the name starts there instead), data at 6.  Opcode and block
are stored in network order, the checksum as the host stores a short.  A received
packet is read from a buffer of fixed size, which a shorter datagram fills only in
part and which cuts a longer one.
-/

namespace NetworkHomework.Ftp

/-- A UDP address. -/
structure Addr where
  host : ℕ
  port : ℕ
  deriving DecidableEq, Repr

namespace Opcode

/-- file request -/
def frq : ℕ := 1
/-- data packet -/
def data : ℕ := 2
/-- acknowledgement -/
def ack : ℕ := 3
/-- error code -/
def error : ℕ := 4

end Opcode

/-- `MFMAXDATA` -/
def mfMaxData : ℕ := 512

/-- The bytes of `htons(n)`, in address order. -/
def htons (n : ℕ) : List UInt8 := [UInt8.ofNat (n / 256), UInt8.ofNat n]

/-- `ntohs` of the short at offset `i`. -/
def ntohsAt (buffer : List UInt8) (i : ℕ) : ℕ :=
  256 * (buffer.getD i 0).toNat + (buffer.getD (i + 1) 0).toNat

/-- `ntohs(p->mf_opcode)` -/
def mfOpcode (buffer : List UInt8) : ℕ := ntohsAt buffer 0

/-- `ntohs(p->mf_block)` -/
def mfBlock (buffer : List UInt8) : ℕ := ntohsAt buffer 4

/-- `p->mf_data` -/
def mfData (buffer : List UInt8) : List UInt8 := buffer.drop 6

/-- The four assignments that build every DATA, ACK and ERROR packet in place: opcode, checksum
`htons(0)`, block, and then the checksum of the whole packet. -/
def fillHeader (order : ByteOrder) (opcode block : ℕ) (packet : List UInt8) : List UInt8 :=
  let unsigned := htons opcode ++ htons 0 ++ htons block ++ mfData packet
  htons opcode ++ order.store (inCksum order unsigned) ++ htons block ++ mfData packet

/-- A file name: a non-empty C string, short enough for `sprintf(RecvFile, "client_%s", ...)`
to fit its `FNAMELEN` bytes. -/
structure FileName where
  chars : List UInt8
  ne_nil : chars ≠ []
  noNul : 0 ∉ chars
  fits : chars.length < 121

/-- `FrqSize`: opcode, checksum, and the name with its terminating NUL. -/
def FileName.frqSize (name : FileName) : ℕ := 4 + (name.chars.length + 1)

/-- The name "a" of the examples. -/
def FileName.a : FileName := ⟨[97], by decide, by decide, by decide⟩

/-- The file request `startMyftpClient` builds for `name`. -/
def frqPacket (order : ByteOrder) (name : FileName) : List UInt8 :=
  let unsigned := htons Opcode.frq ++ htons 0 ++ name.chars ++ [0]
  htons Opcode.frq ++ order.store (inCksum order unsigned) ++ name.chars ++ [0]

/-! ## Receive buffers -/

/-- A buffer of `size` bytes. -/
@[ext] structure Buffer (size : ℕ) where
  bytes : List UInt8
  length_bytes : bytes.length = size
  deriving DecidableEq

namespace Buffer

variable {size : ℕ}

/-- The buffer after `memset(buffer, 0, size)`. -/
def zero (size : ℕ) : Buffer size := ⟨List.replicate size 0, by simp⟩

/-- The buffer after `recvfrom` took `datagram` into it: cut to the buffer, the bytes past the
datagram left as they were. -/
def recvfrom (buffer : Buffer size) (datagram : List UInt8) : Buffer size :=
  ⟨datagram.take size ++ buffer.bytes.drop datagram.length, by
    simp only [List.length_append, List.length_take, List.length_drop, buffer.length_bytes]
    omega⟩

/-- A datagram that fits is followed by what was behind it. -/
theorem recvfrom_bytes (buffer : Buffer size) {datagram : List UInt8} (h : datagram.length ≤ size) :
    (buffer.recvfrom datagram).bytes = datagram ++ buffer.bytes.drop datagram.length := by
  simp [recvfrom, List.take_of_length_le h]

/-- A datagram of exactly the buffer's size replaces its contents. -/
theorem recvfrom_bytes_of_length_eq (buffer : Buffer size) {datagram : List UInt8}
    (h : datagram.length = size) : (buffer.recvfrom datagram).bytes = datagram := by
  have hdrop : buffer.bytes.drop datagram.length = [] :=
    List.drop_eq_nil_iff.mpr (Nat.le_of_eq (buffer.length_bytes.trans h.symm))
  simp [recvfrom, hdrop, List.take_of_length_le (Nat.le_of_eq h)]

/-- A datagram that fits into a zeroed buffer is padded with zeros. -/
theorem zero_recvfrom_bytes {datagram : List UInt8} (h : datagram.length ≤ size) :
    ((zero size).recvfrom datagram).bytes =
      datagram ++ List.replicate (size - datagram.length) 0 := by
  simp [recvfrom, zero, List.take_of_length_le h]

/-- What was received stands at the start of the buffer. -/
theorem getD_recvfrom_of_lt (buffer : Buffer size) {datagram : List UInt8} {i : ℕ}
    (hi : i < datagram.length) (hsize : i < size) :
    (buffer.recvfrom datagram).bytes.getD i 0 = datagram.getD i 0 := by
  have hlt : i < (datagram.take size).length := by
    rw [List.length_take]
    omega
  simp only [recvfrom, List.getD_eq_getElem?_getD]
  rw [List.getElem?_append_left hlt, List.getElem?_take_of_lt hsize]

end Buffer

/-! ## Reading back what was built -/

theorem ntohs_htons {n : ℕ} (h : n < 2 ^ 16) :
    256 * (UInt8.ofNat (n / 256)).toNat + (UInt8.ofNat n).toNat = n := by
  simp only [UInt8.toNat_ofNat']
  omega

theorem mfBlock_lt (buffer : List UInt8) : mfBlock buffer < 2 ^ 16 := by
  have hhigh := (buffer.getD 4 0).toNat_lt
  have hlow := (buffer.getD (4 + 1) 0).toNat_lt
  simp only [mfBlock, ntohsAt]
  omega

@[simp] theorem mfData_fillHeader (order : ByteOrder) (opcode block : ℕ) (packet : List UInt8) :
    mfData (fillHeader order opcode block packet) = mfData packet := by
  cases order <;> rfl

@[simp] theorem length_fillHeader (order : ByteOrder) (opcode block : ℕ) (packet : List UInt8) :
    (fillHeader order opcode block packet).length = 6 + (mfData packet).length := by
  simp [fillHeader, htons]
  omega

/-- Signing a packet a second time changes nothing. -/
@[simp] theorem fillHeader_fillHeader (order : ByteOrder) (opcode block : ℕ)
    (packet : List UInt8) :
    fillHeader order opcode block (fillHeader order opcode block packet) =
      fillHeader order opcode block packet := by
  simp only [fillHeader, mfData]
  cases order <;> rfl

theorem mfOpcode_fillHeader (order : ByteOrder) {opcode : ℕ} (block : ℕ) (packet : List UInt8)
    (h : opcode < 2 ^ 16) : mfOpcode (fillHeader order opcode block packet) = opcode :=
  ntohs_htons h

theorem mfBlock_fillHeader (order : ByteOrder) (opcode : ℕ) {block : ℕ} (packet : List UInt8)
    (h : block < 2 ^ 16) : mfBlock (fillHeader order opcode block packet) = block := by
  have hread : mfBlock (fillHeader order opcode block packet) =
      256 * (UInt8.ofNat (block / 256)).toNat + (UInt8.ofNat block).toNat := by
    cases order <;> rfl
  rw [hread, ntohs_htons h]

end NetworkHomework.Ftp
