import Mathlib.Algebra.Group.Nat.Defs
import Mathlib.Data.List.Basic

/-!
# `in_cksum`

The checksum of `myftp.c`.  The buffer is read through an `unsigned short *`, so
every load depends on the byte order of the host, and so does the placement of a
lone last byte; `ByteOrder` carries both.  The signed accumulator is a natural
number here: the buffers of the program have at most 518 bytes.
-/

namespace NetworkHomework.Ftp

/-- The byte order of a host. -/
inductive ByteOrder
  | little
  | big
  deriving DecidableEq, Repr

namespace ByteOrder

/-- The value of `*w` for the bytes at `w` and `w + 1`. -/
def load : ByteOrder → UInt8 → UInt8 → ℕ
  | little, low, high => low.toNat + 256 * high.toNat
  | big, low, high => 256 * low.toNat + high.toNat

/-- The two bytes, in address order, of a stored `unsigned short`. -/
def store : ByteOrder → ℕ → List UInt8
  | little, word => [UInt8.ofNat word, UInt8.ofNat (word / 256)]
  | big, word => [UInt8.ofNat (word / 256), UInt8.ofNat word]

@[simp] theorem length_store (order : ByteOrder) (word : ℕ) : (order.store word).length = 2 := by
  cases order <;> rfl

end ByteOrder

/-- The `while (nleft > 1)` loop and the odd byte after it, from the accumulator `sum`.  A lone
last byte goes to the lower address of the zeroed `answer`. -/
def sumWords (order : ByteOrder) : ℕ → List UInt8 → ℕ
  | sum, first :: second :: rest => sumWords order (sum + order.load first second) rest
  | sum, [last] => sum + order.load last 0
  | sum, [] => sum

/-- `in_cksum(addr, len)` on a buffer of `len` bytes: two folds of the carries, then the
complement, cut to 16 bits. -/
def inCksum (order : ByteOrder) (buffer : List UInt8) : ℕ :=
  let sum := sumWords order 0 buffer
  let sum := sum / 2 ^ 16 + sum % 2 ^ 16
  let sum := sum + sum / 2 ^ 16
  2 ^ 16 - 1 - sum % 2 ^ 16

theorem inCksum_lt (order : ByteOrder) (buffer : List UInt8) : inCksum order buffer < 2 ^ 16 :=
  Nat.lt_of_le_of_lt (Nat.sub_le _ _) (by decide)

end NetworkHomework.Ftp
