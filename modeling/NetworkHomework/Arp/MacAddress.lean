import Mathlib.Data.List.Basic
import Mathlib.Data.Int.Notation

/-!
# MAC addresses

`isValidMacAddress` of the arp tool looks at a string character by character.  What it
accepts are the texts of six octets: two lower-case hexadecimal digits each, with
colons between them.
-/

namespace NetworkHomework.Arp

def colon : UInt8 := 58

/-- `(c >= '0' && c <= '9') || (c >= 'a' && c <= 'f')` -/
def isHexDigit (c : UInt8) : Prop := 48 ≤ c ∧ c ≤ 57 ∨ 97 ≤ c ∧ c ≤ 102

instance (c : UInt8) : Decidable (isHexDigit c) :=
  inferInstanceAs (Decidable (_ ∧ _ ∨ _ ∧ _))

/-- The loop of `isValidMacAddress`, from the index `i` on. -/
def macLoop : ℕ → List UInt8 → ℤ
  | _, [] => 1
  | i, c :: mac =>
      if i % 3 ≠ 2 ∧ isHexDigit c then macLoop (i + 1) mac
      else if i % 3 = 2 ∧ c = colon then macLoop (i + 1) mac
      else -1

def isValidMacAddress (mac : List UInt8) : ℤ := if mac.length ≠ 17 then -1 else macLoop 0 mac

/-! ## The text of octets -/

/-- The lower-case digit `d`. -/
def hexChar (d : ℕ) : UInt8 := if d < 10 then UInt8.ofNat (48 + d) else UInt8.ofNat (87 + d)

def octetText (octet : UInt8) : List UInt8 :=
  [hexChar (octet.toNat / 16), hexChar (octet.toNat % 16)]

def macText : List UInt8 → List UInt8
  | [] => []
  | [octet] => octetText octet
  | octet :: octets => octetText octet ++ colon :: macText octets

theorem macText_cons (octet : UInt8) {octets : List UInt8} (h : octets ≠ []) :
    macText (octet :: octets) = octetText octet ++ colon :: macText octets := by
  rw [macText]
  exact h

/-- The hexadecimal digits are the sixteen characters of `hexChar`. -/
theorem isHexDigit_iff {c : UInt8} : isHexDigit c ↔ ∃ d < 16, c = hexChar d := by
  constructor
  · intro h
    simp only [isHexDigit, UInt8.le_iff_toNat_le] at h
    rcases h with ⟨hlow, hhigh⟩ | ⟨hlow, hhigh⟩
    · have hlow' : 48 ≤ c.toNat := hlow
      have hhigh' : c.toNat ≤ 57 := hhigh
      refine ⟨c.toNat - 48, by omega, ?_⟩
      rw [hexChar, if_pos (by omega), Nat.add_sub_of_le hlow', UInt8.ofNat_toNat]
    · have hlow' : 97 ≤ c.toNat := hlow
      have hhigh' : c.toNat ≤ 102 := hhigh
      refine ⟨c.toNat - 87, by omega, ?_⟩
      rw [hexChar, if_neg (by omega), Nat.add_sub_of_le (by omega), UInt8.ofNat_toNat]
  · rintro ⟨d, hd, rfl⟩
    have hall : ∀ d : Fin 16, isHexDigit (hexChar d) := by decide
    exact hall ⟨d, hd⟩

/-- Two digits are the text of an octet. -/
theorem octetText_iff {first second : UInt8} :
    isHexDigit first ∧ isHexDigit second ↔ ∃ octet, [first, second] = octetText octet := by
  simp only [isHexDigit_iff, octetText, List.cons.injEq, and_true]
  constructor
  · rintro ⟨⟨high, hhigh, rfl⟩, low, hlow, rfl⟩
    have hvalue : (UInt8.ofNat (16 * high + low)).toNat = 16 * high + low := by
      rw [UInt8.toNat_ofNat']
      omega
    refine ⟨UInt8.ofNat (16 * high + low), ?_, ?_⟩
    · rw [hvalue, Nat.mul_add_div (by decide), Nat.div_eq_of_lt hlow, Nat.add_zero]
    · rw [hvalue, Nat.mul_add_mod, Nat.mod_eq_of_lt hlow]
  · rintro ⟨octet, rfl, rfl⟩
    have hlt : octet.toNat < 256 := octet.toNat_lt
    exact ⟨⟨_, by omega, rfl⟩, _, by omega, rfl⟩

/-! ## What the loop accepts -/

theorem macLoop_eq (i : ℕ) (mac : List UInt8) : macLoop i mac = 1 ∨ macLoop i mac = -1 := by
  induction mac generalizing i with
  | nil => exact .inl rfl
  | cons c mac ih =>
      rw [macLoop]
      split_ifs
      · exact ih (i + 1)
      · exact ih (i + 1)
      · exact .inr rfl

theorem macLoop_cons_eq_one_iff {i : ℕ} {c : UInt8} {mac : List UInt8} :
    macLoop i (c :: mac) = 1 ↔
      (if i % 3 = 2 then c = colon else isHexDigit c) ∧ macLoop (i + 1) mac = 1 := by
  rw [macLoop]
  by_cases hi : i % 3 = 2
  · by_cases hc : c = colon <;> simp [hi, hc]
  · by_cases hc : isHexDigit c <;> simp [hi, hc]

/-- From the first digit of an octet on, the loop accepts the texts of octets. -/
theorem macLoop_eq_one_iff {i n : ℕ} {mac : List UInt8} (hi : i % 3 = 0)
    (hlength : mac.length = 3 * n + 2) :
    macLoop i mac = 1 ↔ ∃ octets, octets.length = n + 1 ∧ mac = macText octets := by
  induction n generalizing i mac with
  | zero =>
      obtain ⟨first, second, rfl⟩ := List.length_eq_two.mp hlength
      rw [macLoop_cons_eq_one_iff, macLoop_cons_eq_one_iff, if_neg (by omega), if_neg (by omega),
        ← and_assoc, octetText_iff]
      constructor
      · rintro ⟨⟨octet, htext⟩, -⟩
        exact ⟨[octet], rfl, htext⟩
      · rintro ⟨octets, hone, htext⟩
        obtain ⟨octet, rfl⟩ := List.length_eq_one_iff.mp hone
        exact ⟨⟨octet, htext⟩, rfl⟩
  | succ n ih =>
      obtain ⟨first, second, third, rest, rfl⟩ :
          ∃ first second third rest, mac = first :: second :: third :: rest := by
        match mac, hlength with
        | first :: second :: third :: rest, _ => exact ⟨first, second, third, rest, rfl⟩
      have hrest : rest.length = 3 * n + 2 := by
        simp only [List.length_cons] at hlength
        omega
      rw [macLoop_cons_eq_one_iff, macLoop_cons_eq_one_iff, macLoop_cons_eq_one_iff,
        if_neg (by omega), if_neg (by omega), if_pos (by omega), ih (by omega) hrest,
        ← and_assoc, octetText_iff]
      constructor
      · rintro ⟨⟨octet, htext⟩, rfl, octets, hmany, rfl⟩
        have hne : octets ≠ [] := List.ne_nil_of_length_eq_add_one hmany
        refine ⟨octet :: octets, by rw [List.length_cons, hmany], ?_⟩
        rw [macText_cons octet hne, ← htext]
        rfl
      · rintro ⟨octets, hmany, htext⟩
        obtain ⟨octet, octets, rfl⟩ := List.exists_cons_of_length_eq_add_one hmany
        rw [List.length_cons, Nat.add_right_cancel_iff] at hmany
        rw [macText_cons octet (List.ne_nil_of_length_eq_add_one hmany)] at htext
        simp only [octetText, List.cons_append, List.nil_append, List.cons.injEq] at htext
        obtain ⟨rfl, rfl, hthird, hrest⟩ := htext
        exact ⟨⟨octet, rfl⟩, hthird, octets, hmany, hrest⟩

theorem length_macText {octets : List UInt8} {n : ℕ} (h : octets.length = n + 1) :
    (macText octets).length = 3 * n + 2 := by
  induction n generalizing octets with
  | zero =>
      obtain ⟨octet, rfl⟩ := List.length_eq_one_iff.mp h
      rfl
  | succ n ih =>
      obtain ⟨octet, octets, rfl⟩ := List.exists_cons_of_length_eq_add_one h
      rw [List.length_cons, Nat.add_right_cancel_iff] at h
      rw [macText_cons octet (List.ne_nil_of_length_eq_add_one h), List.length_append,
        List.length_cons, ih h]
      show 2 + (3 * n + 2 + 1) = 3 * (n + 1) + 2
      omega

/-- The result is 1 or -1. -/
theorem isValidMacAddress_nonneg_iff {mac : List UInt8} :
    0 ≤ isValidMacAddress mac ↔ isValidMacAddress mac = 1 := by
  unfold isValidMacAddress
  split_ifs with hlength
  · decide
  · rcases macLoop_eq 0 mac with h | h <;> rw [h] <;> decide

/-- **The accepted MAC addresses** are the texts of six octets. -/
theorem isValidMacAddress_iff {mac : List UInt8} :
    isValidMacAddress mac = 1 ↔ ∃ octets, octets.length = 6 ∧ mac = macText octets := by
  constructor
  · intro h
    unfold isValidMacAddress at h
    split_ifs at h with hlength
    rw [not_not] at hlength
    exact (macLoop_eq_one_iff rfl hlength).mp h
  · rintro ⟨octets, hsix, rfl⟩
    have hlength := length_macText hsix
    unfold isValidMacAddress
    rw [if_neg (not_not.mpr hlength), macLoop_eq_one_iff rfl hlength]
    exact ⟨octets, hsix, rfl⟩

end NetworkHomework.Arp
