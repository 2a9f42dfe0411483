import Mathlib.Data.List.TakeWhile
import Mathlib.Data.Int.Notation
import Mathlib.Tactic.SplitIfs

/-!
# C strings

A C string is the list of its characters without the terminating NUL, and a buffer the
list of its bytes.  `cString` reads the string at the start of a buffer.  The
comparison functions return 0, a negative or a positive number as the ones of
`string.h` do, the missing character at the end of a string counting as the NUL.
-/

namespace CString

/-- The string literal `s`. -/
def lit (s : String) : List UInt8 := s.toList.map fun c => UInt8.ofNat c.toNat

/-- The string at the start of a buffer. -/
def cString (buffer : List UInt8) : List UInt8 := buffer.takeWhile (· ≠ 0)

/-- `strncmp(a, b, n)` -/
def strncmp : List UInt8 → List UInt8 → ℕ → ℤ
  | _, _, 0 => 0
  | [], [], _ + 1 => 0
  | [], y :: _, _ + 1 => -y.toNat
  | x :: _, [], _ + 1 => x.toNat
  | x :: xs, y :: ys, n + 1 => if x = y then strncmp xs ys n else (x.toNat : ℤ) - y.toNat

/-- `strcmp(a, b)` -/
def strcmp (a b : List UInt8) : ℤ := strncmp a b (max a.length b.length + 1)

/-- `strtok` from a position: the token, and the string from the character that ends it.  The next
call goes on behind that character. -/
def strtok (delim : UInt8) (s : List UInt8) : Option (List UInt8 × List UInt8) :=
  let s := s.dropWhile (· = delim)
  if s = [] then none else some (s.takeWhile (· ≠ delim), s.dropWhile (· ≠ delim))

@[simp] theorem strncmp_self (a : List UInt8) (n : ℕ) : strncmp a a n = 0 := by
  induction a generalizing n with
  | nil => cases n <;> rfl
  | cons x xs ih =>
      cases n with
      | zero => rfl
      | succ n => simp [strncmp, ih]

/-- Strings without a NUL compare equal up to `n` exactly if they agree up to there. -/
theorem strncmp_eq_zero_iff {a b : List UInt8} (ha : 0 ∉ a) (hb : 0 ∉ b) (n : ℕ) :
    strncmp a b n = 0 ↔ a.take n = b.take n := by
  have hpos : ∀ x : UInt8, x ≠ 0 → 0 < x.toNat := fun x hx =>
    Nat.pos_of_ne_zero fun h => hx (UInt8.toNat_inj.mp h)
  induction a generalizing b n with
  | nil =>
      cases n with
      | zero => simp [strncmp]
      | succ n =>
          cases b with
          | nil => simp [strncmp]
          | cons y ys =>
              have := hpos y fun h => hb (h ▸ List.mem_cons_self ..)
              simp only [strncmp, List.take_nil, List.take_succ_cons, reduceCtorEq, iff_false]
              omega
  | cons x xs ih =>
      cases n with
      | zero => simp [strncmp]
      | succ n =>
          cases b with
          | nil =>
              have := hpos x fun h => ha (h ▸ List.mem_cons_self ..)
              simp only [strncmp, List.take_nil, List.take_succ_cons, reduceCtorEq, iff_false]
              omega
          | cons y ys =>
              have hxs : 0 ∉ xs := fun h => ha (List.mem_cons_of_mem _ h)
              have hys : 0 ∉ ys := fun h => hb (List.mem_cons_of_mem _ h)
              simp only [strncmp, List.take_succ_cons, List.cons.injEq]
              split_ifs with hxy
              · simp [hxy, ih hxs hys]
              · have hne : x.toNat ≠ y.toNat := fun h => hxy (UInt8.toNat_inj.mp h)
                simp only [hxy, false_and, iff_false]
                omega

theorem zero_notMem_cString (buffer : List UInt8) : 0 ∉ cString buffer := by
  intro h
  simpa using List.mem_takeWhile_imp h

theorem length_cString_le (buffer : List UInt8) : (cString buffer).length ≤ buffer.length :=
  (List.takeWhile_sublist _).length_le

/-- A NUL-padded string is read back. -/
theorem cString_append_zeros {text : List UInt8} (h : 0 ∉ text) (n : ℕ) :
    cString (text ++ List.replicate n 0) = text := by
  have htext : ∀ x ∈ text, decide (x ≠ 0) = true := by
    intro x hx
    simpa using fun hzero : x = 0 => h (hzero ▸ hx)
  rw [cString, List.takeWhile_append_of_pos htext]
  cases n <;> simp [List.replicate_succ]

/-- Strings without a NUL compare equal exactly if they are equal. -/
theorem strcmp_eq_zero_iff {a b : List UInt8} (ha : 0 ∉ a) (hb : 0 ∉ b) :
    strcmp a b = 0 ↔ a = b := by
  rw [strcmp, strncmp_eq_zero_iff ha hb, List.take_of_length_le (by omega),
    List.take_of_length_le (by omega)]

/-! ## Tokens -/

variable {delim : UInt8} {s token rest : List UInt8}

/-- There is no token in a string of delimiters. -/
theorem strtok_eq_none_iff : strtok delim s = none ↔ ∀ c ∈ s, c = delim := by
  unfold strtok
  dsimp only
  split_ifs with h
  · simpa [List.dropWhile_eq_nil_iff] using h
  · simpa [List.dropWhile_eq_nil_iff] using h

/-- A token is the first maximal run of other characters. -/
theorem strtok_eq_some_iff : strtok delim s = some (token, rest) ↔
    ∃ n, s = List.replicate n delim ++ token ++ rest ∧ token ≠ [] ∧ delim ∉ token ∧
      (rest = [] ∨ rest.head? = some delim) := by
  constructor
  · intro h
    unfold strtok at h
    dsimp only at h
    split_ifs at h with hempty
    obtain ⟨rfl, rfl⟩ := Prod.mk.inj (Option.some.inj h)
    obtain ⟨tail, htail⟩ : ∃ tail, tail = s.dropWhile (· = delim) := ⟨_, rfl⟩
    rw [← htail] at hempty ⊢
    have hskipped : s.takeWhile (· = delim) =
        List.replicate (s.takeWhile (· = delim)).length delim :=
      List.eq_replicate_iff.mpr ⟨rfl, fun c hc => by simpa using List.mem_takeWhile_imp hc⟩
    refine ⟨(s.takeWhile (· = delim)).length, ?_, fun hnil => ?_, fun hmem => ?_, ?_⟩
    · rw [← hskipped, List.append_assoc, List.takeWhile_append_dropWhile, htail,
        List.takeWhile_append_dropWhile]
    · -- what is left after the delimiters starts with another character
      cases tail with
      | nil => exact hempty rfl
      | cons c tail =>
          have hhead := List.head?_dropWhile_not (fun c => decide (c = delim)) s
          rw [← htail] at hhead
          simp only [List.head?_cons, decide_eq_false_iff_not] at hhead
          simp [hhead] at hnil
    · simpa using List.mem_takeWhile_imp hmem
    · have hhead := List.head?_dropWhile_not (fun c => decide (c ≠ delim)) tail
      cases hrest : tail.dropWhile (· ≠ delim) with
      | nil => exact .inl rfl
      | cons c rest =>
          rw [hrest] at hhead
          simp only [List.head?_cons, decide_eq_false_iff_not, not_not] at hhead
          exact .inr (congrArg some hhead)
  · rintro ⟨n, rfl, hne, hnot, hend⟩
    have hskip : ((List.replicate n delim ++ token ++ rest).dropWhile (· = delim)) =
        token ++ rest := by
      rw [List.append_assoc, List.dropWhile_append_of_pos (by simp [List.mem_replicate])]
      cases token with
      | nil => exact absurd rfl hne
      | cons c token =>
          have hc : c ≠ delim := fun h => hnot (h ▸ List.mem_cons_self ..)
          simp [hc]
    have hinside : ∀ c ∈ token, decide (c ≠ delim) = true := by
      intro c hc
      simpa using fun h : c = delim => hnot (h ▸ hc)
    have hfirst : rest.takeWhile (· ≠ delim) = [] ∧ rest.dropWhile (· ≠ delim) = rest := by
      cases rest with
      | nil => exact ⟨rfl, rfl⟩
      | cons c rest =>
          have hc : c = delim := by simpa using hend
          simp [hc]
    unfold strtok
    dsimp only
    rw [hskip, if_neg (by simp [hne]), List.takeWhile_append_of_pos hinside,
      List.dropWhile_append_of_pos hinside, hfirst.1, hfirst.2, List.append_nil]

end CString
