import Mathlib.Algebra.BigOperators.Group.List.Basic
import Mathlib.Data.Nat.ModEq

/-!
# One's complement arithmetic

Numbers of a fixed width with largest value `m` (`2 ^ w - 1` for `w` bits), added with
the carry out of the top brought back in at the bottom.  Such a sum is a sum modulo
`m` in which the two zeros, 0 and `m`, are kept apart: a sum is 0 only when all its
summands are.  `residue m n` is the number the ordinary sum `n` stands for.

Carries may also be left in the upper digits of a wider accumulator and folded back at
the end.  `sum_eq` says what the sum with immediate carries is, `fold_fold` that two
folds of a deferred sum give the same, provided it has at most two digits.
-/

namespace OnesComplement

/-- The digits of `n` to the base `m + 1` above the lowest, added to the lowest. -/
def fold (m n : ℕ) : ℕ := n / (m + 1) + n % (m + 1)

/-- Addition with end-around carry. -/
def add (m a b : ℕ) : ℕ := fold m (a + b)

/-- The sum with the carry brought back after every addition. -/
def sum (m : ℕ) (words : List ℕ) : ℕ := words.foldl (add m) 0

/-- The number up to `m` that is congruent to `n`, 0 standing for 0 only. -/
def residue (m n : ℕ) : ℕ := if n = 0 then 0 else (n - 1) % m + 1

variable {m : ℕ}

@[simp] theorem residue_zero : residue m 0 = 0 := rfl

theorem residue_eq_zero_iff {n : ℕ} : residue m n = 0 ↔ n = 0 := by
  unfold residue
  split_ifs with h <;> simp [h]

theorem residue_of_le {n : ℕ} (h : n ≤ m) : residue m n = n := by
  unfold residue
  split_ifs with hzero
  · exact hzero.symm
  · rw [Nat.mod_eq_of_lt (by omega)]
    omega

theorem residue_le (hm : 0 < m) (n : ℕ) : residue m n ≤ m := by
  unfold residue
  split_ifs with h
  · exact Nat.zero_le m
  · exact Nat.mod_lt _ hm

theorem residue_modEq (n : ℕ) : residue m n ≡ n [MOD m] := by
  unfold residue
  split_ifs with h
  · rw [h]
  · calc (n - 1) % m + 1 ≡ n - 1 + 1 [MOD m] := (Nat.mod_modEq _ _).add_right 1
      _ = n := Nat.succ_pred_eq_of_ne_zero h

/-- A residue is told by its class and by whether it is 0. -/
theorem residue_congr {n k : ℕ} (hzero : n = 0 ↔ k = 0) (hmod : n ≡ k [MOD m]) :
    residue m n = residue m k := by
  unfold residue
  by_cases hn : n = 0
  · rw [if_pos hn, if_pos (hzero.mp hn)]
  · have hk : k ≠ 0 := mt hzero.mpr hn
    have hpred : n - 1 ≡ k - 1 [MOD m] := by
      apply Nat.ModEq.add_right_cancel' 1
      rwa [Nat.sub_add_cancel (Nat.pos_of_ne_zero hn), Nat.sub_add_cancel (Nat.pos_of_ne_zero hk)]
    rw [if_neg hn, if_neg hk, hpred]

/-- The other zero. -/
theorem residue_eq_self_iff (hm : 0 < m) {n : ℕ} : residue m n = m ↔ 0 < n ∧ m ∣ n := by
  constructor
  · intro h
    have hpos : 0 < n := by
      apply Nat.pos_of_ne_zero
      intro hzero
      rw [hzero, residue_zero] at h
      omega
    refine ⟨hpos, (Nat.modEq_zero_iff_dvd).mp ?_⟩
    calc n ≡ residue m n [MOD m] := (residue_modEq n).symm
      _ = m := h
      _ ≡ 0 [MOD m] := Nat.modEq_zero_iff_dvd.mpr dvd_rfl
  · rintro ⟨hpos, hdvd⟩
    have hmod : n ≡ m [MOD m] := by
      calc n ≡ 0 [MOD m] := Nat.modEq_zero_iff_dvd.mpr hdvd
        _ ≡ m [MOD m] := (Nat.modEq_zero_iff_dvd.mpr dvd_rfl).symm
    rw [residue_congr (by omega) hmod, residue_of_le le_rfl]

/-- A number and the complement of its residue add up to the other zero. -/
theorem residue_add_complement (hm : 0 < m) (n : ℕ) : residue m (n + (m - residue m n)) = m := by
  have hle := residue_le hm n
  apply (residue_eq_self_iff hm).mpr
  constructor
  · rcases Nat.eq_zero_or_pos n with rfl | hpos
    · rw [residue_zero]
      omega
    · omega
  · apply Nat.modEq_zero_iff_dvd.mp
    calc n + (m - residue m n) ≡ residue m n + (m - residue m n) [MOD m] :=
          (residue_modEq n).symm.add_right _
      _ = m := Nat.add_sub_cancel' hle
      _ ≡ 0 [MOD m] := Nat.modEq_zero_iff_dvd.mpr dvd_rfl

/-! ## Folding -/

theorem fold_add_mul (n : ℕ) : fold m n + m * (n / (m + 1)) = n := by
  calc fold m n + m * (n / (m + 1)) = (m + 1) * (n / (m + 1)) + n % (m + 1) := by
        rw [fold, Nat.succ_mul]
        omega
    _ = n := Nat.div_add_mod n (m + 1)

theorem fold_modEq (n : ℕ) : fold m n ≡ n [MOD m] := by
  conv_rhs => rw [← fold_add_mul (m := m) n]
  exact (Nat.add_mul_mod_self_left _ _ _).symm

theorem fold_eq_zero_iff {n : ℕ} : fold m n = 0 ↔ n = 0 := by
  constructor
  · intro h
    obtain ⟨hdiv, hmod⟩ := Nat.add_eq_zero_iff.mp h
    rw [← Nat.div_add_mod n (m + 1), hdiv, hmod, Nat.mul_zero]
  · rintro rfl
    simp [fold]

/-- A fold changes a number, but not what it stands for. -/
theorem residue_fold (n : ℕ) : residue m (fold m n) = residue m n :=
  residue_congr fold_eq_zero_iff (fold_modEq n)

theorem fold_of_le {n : ℕ} (hn : n ≤ m) : fold m n = n := by
  rw [fold, Nat.div_eq_of_lt (by omega), Nat.mod_eq_of_lt (by omega), Nat.zero_add]

theorem fold_of_lt {n : ℕ} (hlow : m < n) (hhigh : n ≤ 2 * m + 1) : fold m n = n - m := by
  have hdiv : n / (m + 1) = 1 := by
    apply Nat.div_eq_of_lt_le <;> omega
  have hsplit := fold_add_mul (m := m) n
  rw [hdiv, Nat.mul_one] at hsplit
  omega

/-- **Addition** of two numbers of the width. -/
theorem add_eq {a b : ℕ} (ha : a ≤ m) (hb : b ≤ m) :
    add m a b = residue m (a + b) := by
  rw [add, ← residue_fold]
  by_cases hle : a + b ≤ m
  · rw [fold_of_le hle, residue_of_le hle]
  · rw [fold_of_lt (by omega) (by omega), residue_of_le (by omega)]

theorem foldl_add (hm : 0 < m) {words : List ℕ} (hwords : ∀ w ∈ words, w ≤ m) (n : ℕ) :
    words.foldl (add m) (residue m n) = residue m (n + words.sum) := by
  induction words generalizing n with
  | nil => simp
  | cons w rest ih =>
      obtain ⟨hw, hrest⟩ := List.forall_mem_cons.mp hwords
      have hstep : add m (residue m n) w = residue m (n + w) := by
        rw [add_eq (residue_le hm n) hw]
        refine residue_congr ?_ ((residue_modEq n).add_right w)
        simp only [Nat.add_eq_zero_iff, residue_eq_zero_iff]
      rw [List.foldl_cons, hstep, ih hrest, List.sum_cons, Nat.add_assoc]

/-- **Immediate carries.** -/
theorem sum_eq (hm : 0 < m) {words : List ℕ} (hwords : ∀ w ∈ words, w ≤ m) :
    sum m words = residue m words.sum := by
  have h := foldl_add hm hwords 0
  rwa [residue_zero, Nat.zero_add] at h

/-- **Deferred carries.**  Two folds of a sum of two digits give its residue, and the second one
brings back a carry of at most one. -/
theorem fold_fold {n : ℕ} (hn : n < (m + 1) * (m + 1)) :
    (fold m n + fold m n / (m + 1)) % (m + 1) = residue m n := by
  have hhigh : n / (m + 1) ≤ m := Nat.le_of_lt_succ (Nat.div_lt_of_lt_mul hn)
  have hlow : n % (m + 1) ≤ m := Nat.le_of_lt_succ (Nat.mod_lt n (Nat.succ_pos m))
  have hle : fold m n ≤ 2 * m := by
    rw [fold]
    omega
  rw [← residue_fold n]
  generalize fold m n = k at hle ⊢
  by_cases hsmall : k ≤ m
  · rw [Nat.div_eq_of_lt (by omega), Nat.add_zero, Nat.mod_eq_of_lt (by omega),
      residue_of_le hsmall]
  · have hcarry : k / (m + 1) = 1 := by
      apply Nat.div_eq_of_lt_le <;> omega
    calc (k + k / (m + 1)) % (m + 1) = k - m := by
          rw [hcarry, Nat.mod_eq_sub_mod (by omega), Nat.mod_eq_of_lt (by omega)]
          omega
      _ = residue m (fold m k) := by
          rw [fold_of_lt (by omega) (by omega), residue_of_le (by omega)]
      _ = residue m k := residue_fold k

end OnesComplement
