import NetworkHomework.Ftp.Client
import Mathlib.Tactic.Ring

/-!
# The chunks of a file and their block numbers

The abstract view of a transfer: a file is the sequence of its full 512-byte chunks
followed by one short chunk, `chunk file (lastChunk file)`, which is empty when the
length is a multiple of 512.  Chunk `i` travels under `blockNumber i`, which starts at
1 and after 64999 goes on at 2, so that the numbers repeat with period 64998.
-/

namespace NetworkHomework.Ftp

/-! ## Chunks -/

/-- The bytes of chunk `i`. -/
def chunk (file : List UInt8) (i : ℕ) : List UInt8 := (file.drop (mfMaxData * i)).take mfMaxData

/-- The index of the short chunk that ends the transfer. -/
def lastChunk (file : List UInt8) : ℕ := file.length / mfMaxData

/-- The first `n` chunks, concatenated. -/
def firstChunks (file : List UInt8) (n : ℕ) : List UInt8 := file.take (mfMaxData * n)

theorem length_chunk (file : List UInt8) (i : ℕ) :
    (chunk file i).length = min mfMaxData (file.length - mfMaxData * i) := by
  simp [chunk]

theorem length_chunk_le (file : List UInt8) (i : ℕ) : (chunk file i).length ≤ mfMaxData := by
  rw [length_chunk]
  omega

theorem length_chunk_of_lt {file : List UInt8} {i : ℕ} (h : i < lastChunk file) :
    (chunk file i).length = mfMaxData := by
  rw [length_chunk]
  simp only [lastChunk, mfMaxData] at *
  omega

theorem length_chunk_last (file : List UInt8) :
    (chunk file (lastChunk file)).length < mfMaxData := by
  rw [length_chunk]
  simp only [lastChunk, mfMaxData]
  omega

@[simp] theorem firstChunks_zero (file : List UInt8) : firstChunks file 0 = [] := by
  simp [firstChunks]

theorem firstChunks_succ (file : List UInt8) (n : ℕ) :
    firstChunks file (n + 1) = firstChunks file n ++ chunk file n := by
  calc firstChunks file (n + 1) = file.take (mfMaxData * n + mfMaxData) := rfl
    _ = file.take (mfMaxData * n) ++ (file.drop (mfMaxData * n)).take mfMaxData := List.take_add
    _ = firstChunks file n ++ chunk file n := rfl

theorem firstChunks_prefix (file : List UInt8) (n : ℕ) : firstChunks file n <+: file :=
  List.take_prefix _ _

/-- The chunks up to and including the short one are the file. -/
theorem firstChunks_of_lt {file : List UInt8} {n : ℕ} (h : lastChunk file < n) :
    firstChunks file n = file := by
  apply List.take_of_length_le
  simp only [lastChunk, mfMaxData] at *
  omega

theorem firstChunks_last (file : List UInt8) : firstChunks file (lastChunk file + 1) = file :=
  firstChunks_of_lt (Nat.lt_succ_self _)

/-- Before the short chunk, the length tells the number of chunks. -/
theorem length_firstChunks_div {file : List UInt8} {n : ℕ} (h : n ≤ lastChunk file) :
    (firstChunks file n).length / mfMaxData = n := by
  rw [firstChunks, List.length_take]
  simp only [lastChunk, mfMaxData] at *
  omega

/-! ## Block numbers -/

/-- The number the server gives to chunk `i`. -/
def blockNumber : ℕ → ℕ
  | 0 => 1
  | i + 1 => Server.nextBlock (blockNumber i)

theorem blockNumber_eq (i : ℕ) : blockNumber i = if i = 0 then 1 else 2 + (i - 1) % 64998 := by
  induction i with
  | zero => rfl
  | succ i ih =>
      rw [blockNumber, ih, if_neg i.succ_ne_zero, Server.nextBlock]
      rcases Nat.eq_zero_or_pos i with rfl | hpos
      · rfl
      · rw [if_neg (by omega : i ≠ 0)]
        split_ifs <;> omega

theorem blockNumber_pos (i : ℕ) : 0 < blockNumber i := by
  rw [blockNumber_eq]
  split_ifs <;> omega

theorem blockNumber_lt (i : ℕ) : blockNumber i < 65000 := by
  rw [blockNumber_eq]
  split_ifs <;> omega

/-- Chunks fewer than 64998 apart have different numbers. -/
theorem blockNumber_ne {i j : ℕ} (hij : i < j) (hnear : j < i + 64998) :
    blockNumber i ≠ blockNumber j := by
  rw [blockNumber_eq, blockNumber_eq]
  split_ifs <;> omega

theorem eq_of_blockNumber_eq {i j : ℕ} (h : blockNumber i = blockNumber j) (hle : i ≤ j)
    (hnear : j < i + 64998) : i = j := by
  by_contra hne
  exact blockNumber_ne (by omega) hnear h

/-- The client's block after it accepted chunk `i`. -/
theorem clientBlock_succ (i : ℕ) :
    (if blockNumber i = 64999 then 1 else blockNumber i) + 1 = blockNumber (i + 1) := by
  rw [blockNumber, Server.nextBlock]
  split_ifs <;> omega

/-! ## The DATA packet of a chunk -/

/-- The packet that carries chunk `i`. -/
def dataPacket (order : ByteOrder) (file : List UInt8) (i : ℕ) : List UInt8 :=
  Server.newFilePacket order (blockNumber i) (chunk file i)

variable (order : ByteOrder) (file : List UInt8) (i : ℕ)

/-- Both construction paths sign the same bytes. -/
theorem newFilePacket_eq (block : ℕ) {readBytes : List UInt8}
    (h : readBytes.length ≤ mfMaxData) :
    Server.newFilePacket order block readBytes =
      fillHeader order Opcode.data block (List.replicate 6 0 ++ readBytes) := by
  unfold Server.newFilePacket
  split_ifs with hshort
  · rfl
  · have hfull : mfMaxData - readBytes.length = 0 := by omega
    rw [hfull, List.replicate_zero, List.append_nil]

theorem dataPacket_eq : dataPacket order file i =
    fillHeader order Opcode.data (blockNumber i) (List.replicate 6 0 ++ chunk file i) :=
  newFilePacket_eq order _ (length_chunk_le file i)

@[simp] theorem mfData_dataPacket : mfData (dataPacket order file i) = chunk file i := by
  rw [dataPacket_eq, mfData_fillHeader]
  rfl

@[simp] theorem length_dataPacket :
    (dataPacket order file i).length = 6 + (chunk file i).length := by
  rw [dataPacket_eq, length_fillHeader]
  rfl

theorem length_dataPacket_le : (dataPacket order file i).length ≤ Client.maxFilePacketSize := by
  calc (dataPacket order file i).length = 6 + (chunk file i).length := length_dataPacket ..
    _ ≤ 6 + mfMaxData := Nat.add_le_add_left (length_chunk_le file i) 6

theorem mfOpcode_dataPacket : mfOpcode (dataPacket order file i) = Opcode.data := by
  rw [dataPacket_eq]
  exact mfOpcode_fillHeader order _ _ (by decide)

theorem mfBlock_dataPacket : mfBlock (dataPacket order file i) = blockNumber i := by
  rw [dataPacket_eq]
  exact mfBlock_fillHeader order _ _ (by have := blockNumber_lt i; omega)

/-- Signing the packet of a chunk again, as a retransmission does, changes nothing. -/
theorem fillHeader_dataPacket :
    fillHeader order Opcode.data (blockNumber i) (dataPacket order file i) =
      dataPacket order file i := by
  calc fillHeader order Opcode.data (blockNumber i) (dataPacket order file i) =
        fillHeader order Opcode.data (blockNumber i)
          (fillHeader order Opcode.data (blockNumber i) (List.replicate 6 0 ++ chunk file i)) := by
        rw [dataPacket_eq]
    _ = fillHeader order Opcode.data (blockNumber i) (List.replicate 6 0 ++ chunk file i) :=
      fillHeader_fillHeader ..
    _ = dataPacket order file i := (dataPacket_eq order file i).symm

end NetworkHomework.Ftp
