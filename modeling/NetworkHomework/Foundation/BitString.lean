import Mathlib.Data.List.GetD
import Mathlib.Data.Nat.Digits.Defs
import Mathlib.Data.Nat.ModEq
import Mathlib.Data.Nat.Prime.Basic
import Mathlib.Tactic.Ring

/-!
# Byte strings as bit strings and as numbers

The bits of a byte string are numbered from its first byte on, within a byte from the
low or from the high bit (`BitOrder`).  In either numbering the string is the binary
expansion of a number, `value order bytes`, in which neighbouring bits have
neighbouring weights.

So a burst of errors, which flips only bits within a window, changes the number by a
small multiple of a power of two, and `Burst.not_modEq` says that an odd modulus that
is large enough for the window sees the change.
-/

/-- The order in which the bits of a byte are numbered. -/
inductive BitOrder
  | lowFirst
  | highFirst
  deriving DecidableEq

namespace BitOrder

/-- Bit `i` of a byte string. -/
def bit (order : BitOrder) (bytes : List UInt8) (i : ℕ) : Bool :=
  match order with
  | lowFirst => (bytes.getD (i / 8) 0).toNat.testBit (i % 8)
  | highFirst => (bytes.getD (i / 8) 0).toNat.testBit (7 - i % 8)

end BitOrder

namespace BitString

/-! ## The number of a byte string -/

/-- The number whose low byte is the first one. -/
def lowValue (bytes : List UInt8) : ℕ := Nat.ofDigits 256 (bytes.map UInt8.toNat)

def value : BitOrder → List UInt8 → ℕ
  | .lowFirst, bytes => lowValue bytes
  | .highFirst, bytes => lowValue bytes.reverse

/-- The weight of bit `i` in the number of a string of `n` bytes. -/
def place (n : ℕ) : BitOrder → ℕ → ℕ
  | .lowFirst, i => i
  | .highFirst, i => 8 * n - 1 - i

@[simp] theorem lowValue_nil : lowValue [] = 0 := rfl

@[simp] theorem lowValue_cons (b : UInt8) (bytes : List UInt8) :
    lowValue (b :: bytes) = b.toNat + 256 * lowValue bytes := by
  simp [lowValue, Nat.ofDigits_cons]

theorem lowValue_append (bytes more : List UInt8) :
    lowValue (bytes ++ more) = lowValue bytes + 256 ^ bytes.length * lowValue more := by
  simp [lowValue, Nat.ofDigits_append]

theorem testBit_lowValue (bytes : List UInt8) (i : ℕ) :
    (lowValue bytes).testBit i = (bytes.getD (i / 8) 0).toNat.testBit (i % 8) := by
  induction bytes generalizing i with
  | nil => simp
  | cons b rest ih =>
      have hb : b.toNat < 2 ^ 8 := b.toNat_lt
      have hsplit : lowValue (b :: rest) = 2 ^ 8 * lowValue rest + b.toNat := by
        rw [lowValue_cons]
        omega
      rw [hsplit, Nat.testBit_two_pow_mul_add _ hb]
      split_ifs with hi
      · rw [Nat.div_eq_of_lt hi, Nat.mod_eq_of_lt hi]
        rfl
      · obtain ⟨j, rfl⟩ := Nat.exists_eq_add_of_le' (Nat.not_lt.mp hi)
        rw [Nat.add_sub_cancel, ih, Nat.add_div_right _ (by decide), Nat.add_mod_right]
        rfl

/-- **Bits.**  The bits of a string are those of its number. -/
theorem testBit_value (order : BitOrder) (bytes : List UInt8) {i : ℕ} (hi : i < 8 * bytes.length) :
    (value order bytes).testBit (place bytes.length order i) = order.bit bytes i := by
  cases order with
  | lowFirst => exact testBit_lowValue bytes i
  | highFirst =>
      have hdiv : (8 * bytes.length - 1 - i) / 8 = bytes.length - 1 - i / 8 := by omega
      have hmod : (8 * bytes.length - 1 - i) % 8 = 7 - i % 8 := by omega
      have hget : bytes.reverse.getD (bytes.length - 1 - i / 8) 0 = bytes.getD (i / 8) 0 := by
        rw [List.getD_eq_getElem?_getD, List.getD_eq_getElem?_getD,
          List.getElem?_reverse (by omega)]
        congr 2
        omega
      rw [value, place, testBit_lowValue, hdiv, hmod, hget]
      rfl

/-- A string has no bits beyond its length. -/
theorem testBit_value_of_le (order : BitOrder) (bytes : List UInt8) {i : ℕ}
    (hi : 8 * bytes.length ≤ i) : (value order bytes).testBit i = false := by
  have hget : ∀ bytes : List UInt8, 8 * bytes.length ≤ i → (lowValue bytes).testBit i = false := by
    intro bytes hle
    rw [testBit_lowValue, List.getD_eq_default _ _ (by omega)]
    simp
  cases order with
  | lowFirst => exact hget bytes hi
  | highFirst => exact hget bytes.reverse (by rwa [List.length_reverse])

/-! ## Reading the bytes from the other end -/

/-- Where `256 ^ 2` is congruent to 1, the two numbers of a string differ by a power of 256. -/
theorem mul_value_highFirst {m : ℕ} (hm : 256 * 256 ≡ 1 [MOD m]) (bytes : List UInt8) :
    256 * value .highFirst bytes ≡ 256 ^ bytes.length * value .lowFirst bytes [MOD m] := by
  induction bytes with
  | nil => rfl
  | cons b rest ih =>
      have hhigh : value .highFirst (b :: rest) =
          value .highFirst rest + 256 ^ rest.length * b.toNat := by
        rw [value, List.reverse_cons, lowValue_append]
        simp [value]
      calc 256 * value .highFirst (b :: rest)
          = 256 * value .highFirst rest + 256 ^ (rest.length + 1) * b.toNat := by
            rw [hhigh]
            ring
        _ ≡ 256 ^ rest.length * value .lowFirst rest + 256 ^ (rest.length + 1) * b.toNat [MOD m] :=
            ih.add_right _
        _ = 1 * (256 ^ rest.length * value .lowFirst rest) +
              256 ^ (rest.length + 1) * b.toNat := by rw [Nat.one_mul]
        _ ≡ 256 * 256 * (256 ^ rest.length * value .lowFirst rest) +
              256 ^ (rest.length + 1) * b.toNat [MOD m] := (hm.symm.mul_right _).add_right _
        _ = 256 ^ (b :: rest).length * value .lowFirst (b :: rest) := by
            rw [value, value, lowValue_cons, List.length_cons]
            ring

/-- Divisibility does not depend on the end the bytes are read from. -/
theorem dvd_value_iff {m : ℕ} (hodd : Nat.Coprime m 2) (hm : 256 * 256 ≡ 1 [MOD m])
    (order : BitOrder) (bytes : List UInt8) :
    m ∣ value order bytes ↔ m ∣ lowValue bytes := by
  cases order with
  | lowFirst => rfl
  | highFirst =>
      have hpow : ∀ n, Nat.Coprime m (256 ^ n) := fun n => by
        rw [show 256 = 2 ^ 8 by rfl, ← pow_mul]
        exact hodd.pow_right _
      calc m ∣ value .highFirst bytes
          ↔ m ∣ 256 * value .highFirst bytes := by
            rw [← pow_one 256]
            exact (hpow 1).dvd_mul_left.symm
        _ ↔ m ∣ 256 ^ bytes.length * value .lowFirst bytes :=
            (mul_value_highFirst hm bytes).dvd_iff dvd_rfl
        _ ↔ m ∣ lowValue bytes := (hpow _).dvd_mul_left

/-! ## Bursts of errors -/

/-- Numbers that agree outside a window of `w` bits are congruent to an odd modulus only if they are
equal, unless the modulus is too small for the window. -/
theorem eq_of_modEq_of_window {m w p n n' : ℕ} (hodd : Nat.Coprime m 2) (hm : 2 ^ w ≤ m)
    (hwindow : ∀ i, n.testBit i ≠ n'.testBit i → p ≤ i ∧ i < p + w) (hmod : n ≡ n' [MOD m]) :
    n = n' := by
  have hsame : ∀ i, i < p ∨ p + w ≤ i → n.testBit i = n'.testBit i := by
    intro i hi
    by_contra hne
    have := hwindow i hne
    omega
  have hlow : n % 2 ^ p = n' % 2 ^ p := by
    apply Nat.eq_of_testBit_eq
    intro i
    rw [Nat.testBit_mod_two_pow, Nat.testBit_mod_two_pow]
    by_cases hi : i < p
    · rw [hsame i (.inl hi)]
    · simp [hi]
  have hhigh : n / 2 ^ p / 2 ^ w = n' / 2 ^ p / 2 ^ w := by
    apply Nat.eq_of_testBit_eq
    intro i
    rw [Nat.testBit_div_two_pow, Nat.testBit_div_two_pow, Nat.testBit_div_two_pow,
      Nat.testBit_div_two_pow, hsame (i + w + p) (.inr (by omega))]
  -- the windows themselves are congruent, and smaller than the modulus
  have hshifted : n / 2 ^ p ≡ n' / 2 ^ p [MOD m] := by
    apply Nat.ModEq.cancel_left_of_coprime (c := 2 ^ p) (Nat.Coprime.pow_right p hodd)
    apply Nat.ModEq.add_right_cancel' (n % 2 ^ p)
    rwa [Nat.div_add_mod, hlow, Nat.div_add_mod]
  have hmiddle : n / 2 ^ p % 2 ^ w ≡ n' / 2 ^ p % 2 ^ w [MOD m] := by
    apply Nat.ModEq.add_left_cancel' (2 ^ w * (n / 2 ^ p / 2 ^ w))
    rwa [Nat.div_add_mod, hhigh, Nat.div_add_mod]
  have hlt : ∀ k : ℕ, k % 2 ^ w < m := fun k =>
    (Nat.mod_lt k (Nat.two_pow_pos w)).trans_le hm
  have heq : n / 2 ^ p = n' / 2 ^ p := by
    rw [← Nat.div_add_mod (n / 2 ^ p) (2 ^ w), hhigh,
      hmiddle.eq_of_lt_of_lt (hlt _) (hlt _), Nat.div_add_mod]
  rw [← Nat.div_add_mod n (2 ^ p), heq, hlow, Nat.div_add_mod]

/-- `received` is `sent` with at least one bit flipped, and all flipped bits within a window of `w`
consecutive ones. -/
structure Burst (order : BitOrder) (w : ℕ) (sent received : List UInt8) : Prop where
  length_eq : received.length = sent.length
  flips : ∃ i, order.bit sent i ≠ order.bit received i
  window : ∃ start, ∀ i, order.bit sent i ≠ order.bit received i → start ≤ i ∧ i < start + w

variable {order : BitOrder} {w : ℕ} {sent received : List UInt8}

/-- Beyond its last byte a string reads as zeros. -/
theorem Burst.lt_of_flip (h : Burst order w sent received) {i : ℕ}
    (hi : order.bit sent i ≠ order.bit received i) : i < 8 * sent.length := by
  by_contra hge
  have hdefault : ∀ bytes : List UInt8, bytes.length = sent.length → bytes.getD (i / 8) 0 = 0 :=
    fun bytes hlen => List.getD_eq_default _ _ (by omega)
  apply hi
  cases order <;> simp only [BitOrder.bit, hdefault sent rfl, hdefault received h.length_eq]

theorem Burst.value_ne (h : Burst order w sent received) :
    value order sent ≠ value order received := by
  obtain ⟨i, hi⟩ := h.flips
  have hlt := h.lt_of_flip hi
  intro heq
  apply hi
  rw [← testBit_value order sent hlt, heq, ← h.length_eq,
    testBit_value order received (by rwa [h.length_eq])]

/-- The window in the number. -/
theorem Burst.window_value (h : Burst order w sent received) :
    ∃ p, ∀ i, (value order sent).testBit i ≠ (value order received).testBit i →
      p ≤ i ∧ i < p + w := by
  obtain ⟨start, hstart⟩ := h.window
  have hbit : ∀ i, (value order sent).testBit i ≠ (value order received).testBit i →
      ∃ j, j < 8 * sent.length ∧ place sent.length order j = i ∧ start ≤ j ∧ j < start + w := by
    intro i hi
    have hlt : i < 8 * sent.length := by
      by_contra hge
      apply hi
      rw [testBit_value_of_le order sent (by omega),
        testBit_value_of_le order received (by rw [h.length_eq]; omega)]
    obtain ⟨j, hj, hplace⟩ : ∃ j, j < 8 * sent.length ∧ place sent.length order j = i := by
      cases order with
      | lowFirst => exact ⟨i, hlt, rfl⟩
      | highFirst =>
          refine ⟨8 * sent.length - 1 - i, by omega, ?_⟩
          simp only [place]
          omega
    refine ⟨j, hj, hplace, hstart j fun heq => hi ?_⟩
    have hreceived := testBit_value order received (i := j) (by rwa [h.length_eq])
    rw [h.length_eq, hplace] at hreceived
    rw [hreceived, ← heq, ← hplace, testBit_value order sent hj]
  cases order with
  | lowFirst =>
      refine ⟨start, fun i hi => ?_⟩
      obtain ⟨j, -, rfl, hj⟩ := hbit i hi
      exact hj
  | highFirst =>
      -- numbered from the other end, the window ends where it began
      refine ⟨8 * sent.length - (start + w), fun i hi => ?_⟩
      obtain ⟨j, hlt, hplace, hj⟩ := hbit i hi
      simp only [place] at hplace
      omega

/-- **Bursts.**  An odd modulus that is not too small for the window sees every burst. -/
theorem Burst.not_modEq (h : Burst order w sent received) {m : ℕ} (hodd : Nat.Coprime m 2)
    (hm : 2 ^ w ≤ m) : ¬ value order sent ≡ value order received [MOD m] := by
  intro hmod
  obtain ⟨p, hwindow⟩ := h.window_value
  exact h.value_ne (eq_of_modEq_of_window hodd hm hwindow hmod)

end BitString
