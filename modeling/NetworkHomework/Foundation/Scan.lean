import Mathlib.Data.List.TakeWhile
import Mathlib.Data.Int.Notation

/-!
# `sscanf`

The conversion `%x` and literal characters, over a string as the list of its
characters.  `%x` takes what `strtoul` takes to the base 16: white space, a sign, `0x`,
and digits of both cases.  Scanning stops at the first directive that fails, and what
was assigned before stays assigned.  A literal that is white space, which would match
any amount of it, does not occur in the formats here.

`upper` puts the letters among the digits into upper case; `%x` makes no difference.
-/

namespace Scan

inductive Directive
  | hex
  | char (c : UInt8)

/-- `isspace(c)` -/
def isSpace (c : UInt8) : Bool := c = 32 ∨ 9 ≤ c ∧ c ≤ 13

/-- The value of a hexadecimal digit. -/
def digitValue (c : UInt8) : Option ℕ :=
  if 48 ≤ c ∧ c ≤ 57 then some (c.toNat - 48)
  else if 97 ≤ c ∧ c ≤ 102 then some (c.toNat - 87)
  else if 65 ≤ c ∧ c ≤ 70 then some (c.toNat - 55)
  else none

/-- Whether there is a `-`, and the string behind the sign. -/
def skipSign : List UInt8 → Bool × List UInt8
  | [] => (false, [])
  | c :: s => if c = 45 then (true, s) else if c = 43 then (false, s) else (false, c :: s)

/-- The string behind `0x`. -/
def skipPrefix : List UInt8 → List UInt8
  | zero :: x :: s => if zero = 48 ∧ (x = 120 ∨ x = 88) then s else zero :: x :: s
  | s => s

/-- The number that goes on from `value` with the digits in front, and the string behind them. -/
def scanDigits : ℕ → List UInt8 → ℕ × List UInt8
  | value, [] => (value, [])
  | value, c :: s =>
      match digitValue c with
      | some digit => scanDigits (16 * value + digit) s
      | none => (value, c :: s)

/-- `%x`, and the string behind what it takes. -/
def scanHex (s : List UInt8) : Option (ℤ × List UInt8) :=
  let (negative, s) := skipSign (s.dropWhile isSpace)
  let s := skipPrefix s
  if s.head?.bind digitValue = none then none
  else
    let (value, s) := scanDigits 0 s
    some (if negative then -value else value, s)

/-- `sscanf(s, format, ...)`: the numbers assigned. -/
def sscanf : List Directive → List UInt8 → List ℤ
  | [], _ => []
  | .hex :: format, s =>
      match scanHex s with
      | some (value, s) => value :: sscanf format s
      | none => []
  | .char _ :: _, [] => []
  | .char c :: format, c' :: s => if c' = c then sscanf format s else []

variable {c first second : UInt8} {digit high low : ℕ} {s : List UInt8}

/-- A digit is no white space, no sign and not the `x` of `0x`. -/
theorem digit_ne (h : digitValue c = some digit) :
    isSpace c = false ∧ c ≠ 43 ∧ c ≠ 45 ∧ c ≠ 88 ∧ c ≠ 120 := by
  have hrange : 48 ≤ c.toNat ∧ c.toNat ≤ 57 ∨ 97 ≤ c.toNat ∧ c.toNat ≤ 102 ∨
      65 ≤ c.toNat ∧ c.toNat ≤ 70 := by
    unfold digitValue at h
    split_ifs at h with hdecimal hlower hupper
    · exact .inl hdecimal
    · exact .inr (.inl hlower)
    · exact .inr (.inr hupper)
  refine ⟨?_, ?_, ?_, ?_, ?_⟩
  · simp only [isSpace, UInt8.le_iff_toNat_le, ← UInt8.toNat_inj, decide_eq_false_iff_not]
    show ¬ (c.toNat = 32 ∨ 9 ≤ c.toNat ∧ c.toNat ≤ 13)
    omega
  all_goals
    rintro rfl
    exact absurd hrange (by decide)

/-- Two digits with no third one are read as the number they stand for. -/
theorem scanHex_pair (hhigh : digitValue first = some high) (hlow : digitValue second = some low)
    (hend : s.head?.bind digitValue = none) :
    scanHex (first :: second :: s) = some (((16 * high + low : ℕ) : ℤ), s) := by
  obtain ⟨hspace, hplus, hminus, -, -⟩ := digit_ne hhigh
  obtain ⟨-, -, -, hX, hx⟩ := digit_ne hlow
  have hskip : (first :: second :: s).dropWhile isSpace = first :: second :: s :=
    List.dropWhile_cons_of_neg (by simp [hspace])
  have hbehind : scanDigits (16 * (16 * 0 + high) + low) s = (16 * high + low, s) := by
    cases s with
    | nil => simp [scanDigits]
    | cons c s =>
        have hc : digitValue c = none := hend
        simp [scanDigits, hc]
  simp only [scanHex, hskip, skipSign, if_neg hminus, if_neg hplus, skipPrefix, hx, hX, or_self,
    and_false, if_false, List.head?_cons, Option.bind_some, hhigh, reduceCtorEq, scanDigits, hlow,
    hbehind]

/-! ## Letter case -/

/-- `c` is a hexadecimal digit in lower case, `a` to `f`. -/
def IsLower (c : UInt8) : Prop := 97 ≤ c ∧ c ≤ 102

instance (c : UInt8) : Decidable (IsLower c) := inferInstanceAs (Decidable (_ ∧ _))

/-- `c` is a hexadecimal digit in upper case, `A` to `F`. -/
def IsUpper (c : UInt8) : Prop := 65 ≤ c ∧ c ≤ 70

instance (c : UInt8) : Decidable (IsUpper c) := inferInstanceAs (Decidable (_ ∧ _))

/-- The hexadecimal digit `c` in upper case. -/
def upper (c : UInt8) : UInt8 := if IsLower c then c - 32 else c

/-- What holds of 256 bytes holds of all. -/
theorem forall_byte {P : UInt8 → Prop} (h : ∀ n : Fin 256, P (UInt8.ofNat n)) :
    ∀ c, P c := by
  intro c
  have hc := h ⟨c.toNat, c.toNat_lt⟩
  rwa [UInt8.ofNat_toNat] at hc

theorem upper_eq_self_iff : ∀ c, upper c = c ↔ ¬ IsLower c := by
  apply forall_byte
  decide +kernel

theorem digitValue_upper : ∀ c, digitValue (upper c) = digitValue c := by
  apply forall_byte
  decide +kernel

theorem isSpace_upper : ∀ c, isSpace (upper c) = isSpace c := by
  apply forall_byte
  decide +kernel

theorem isUpper_upper : ∀ c, IsLower c → IsUpper (upper c) := by
  apply forall_byte
  decide +kernel

/-- What is no letter is not the upper case of anything else. -/
theorem upper_eq_iff {d : UInt8} (hlower : ¬ IsLower d) (hupper : ¬ IsUpper d) :
    upper c = d ↔ c = d := by
  by_cases hc : IsLower c
  · constructor
    · rintro rfl
      exact absurd (isUpper_upper c hc) hupper
    · rintro rfl
      exact absurd hc hlower
  · rw [(upper_eq_self_iff c).mpr hc]

theorem head?_map_upper (s : List UInt8) :
    (s.map upper).head?.bind digitValue = s.head?.bind digitValue := by
  cases s with
  | nil => rfl
  | cons c s => exact digitValue_upper c

theorem dropWhile_map_upper (s : List UInt8) :
    (s.map upper).dropWhile isSpace = (s.dropWhile isSpace).map upper := by
  have hcomp : isSpace ∘ upper = isSpace := funext isSpace_upper
  rw [List.dropWhile_map, hcomp]

theorem skipSign_map_upper (s : List UInt8) :
    skipSign (s.map upper) = ((skipSign s).1, (skipSign s).2.map upper) := by
  cases s with
  | nil => rfl
  | cons c s =>
      simp only [List.map_cons, skipSign, @upper_eq_iff _ 45 (by decide) (by decide),
        @upper_eq_iff _ 43 (by decide) (by decide)]
      split_ifs <;> rfl

theorem skipPrefix_map_upper (s : List UInt8) :
    skipPrefix (s.map upper) = (skipPrefix s).map upper := by
  match s with
  | [] => rfl
  | [c] => rfl
  | zero :: x :: s =>
      simp only [List.map_cons, skipPrefix, @upper_eq_iff _ 48 (by decide) (by decide),
        @upper_eq_iff _ 120 (by decide) (by decide), @upper_eq_iff _ 88 (by decide) (by decide)]
      split_ifs <;> rfl

theorem scanDigits_map_upper (value : ℕ) (s : List UInt8) :
    scanDigits value (s.map upper) =
      ((scanDigits value s).1, (scanDigits value s).2.map upper) := by
  induction s generalizing value with
  | nil => rfl
  | cons c s ih =>
      simp only [List.map_cons, scanDigits, digitValue_upper]
      cases digitValue c with
      | none => rfl
      | some digit => exact ih _

theorem scanHex_map_upper (s : List UInt8) :
    scanHex (s.map upper) = (scanHex s).map fun result => (result.1, result.2.map upper) := by
  simp only [scanHex, dropWhile_map_upper, skipSign_map_upper, skipPrefix_map_upper,
    head?_map_upper, scanDigits_map_upper]
  split_ifs <;> rfl

/-- **`%x` takes digits of both cases.** -/
theorem sscanf_map_upper {format : List Directive}
    (hformat : ∀ d, .char d ∈ format → ¬ IsLower d ∧ ¬ IsUpper d) (s : List UInt8) :
    sscanf format (s.map upper) = sscanf format s := by
  induction format generalizing s with
  | nil => rfl
  | cons directive format ih =>
      have hrest := ih fun d hd => hformat d (List.mem_cons_of_mem _ hd)
      cases directive with
      | hex =>
          rw [sscanf, sscanf, scanHex_map_upper]
          cases scanHex s with
          | none => rfl
          | some result => exact congrArg (result.1 :: ·) (hrest result.2)
      | char d =>
          cases s with
          | nil => rfl
          | cons c s =>
              obtain ⟨hlower, hupper⟩ := hformat d List.mem_cons_self
              simp only [List.map_cons, sscanf, upper_eq_iff hlower hupper, hrest]

end Scan
