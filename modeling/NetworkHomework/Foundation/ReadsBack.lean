import Mathlib.Data.List.TakeWhile
import Mathlib.Logic.Function.Defs
import Mathlib.Tactic.SplitIfs

/-!
# Texts that can be read in one way only

`ReadsBack text Ends`: what a text stands for, and where it stops, can be told from any
string that begins with it, as long as what follows meets `Ends`.  Texts of one length
and runs of characters of one kind read back, and so do texts put together from such
parts, if the parts and what stands between them keep each other apart.  A sequence of
texts that need nothing behind them determines the sequence of what they stand for.
-/

variable {α β γ : Type*}

/-- In front of a rest that meets `Ends`, the text can be read in one way only. -/
def ReadsBack (text : α → List β) (Ends : List β → Prop) : Prop :=
  ∀ a b s t, Ends s → Ends t → text a ++ s = text b ++ t → a = b ∧ s = t

namespace ReadsBack

variable {text : α → List β} {Ends : List β → Prop}

/-- Texts of one length. -/
theorem of_length (hinj : ∀ a b, text a = text b → a = b)
    (hlength : ∀ a b, (text a).length = (text b).length) : ReadsBack text Ends := by
  intro a b s t _ _ h
  obtain ⟨htext, hrest⟩ := List.append_inj h (hlength a b)
  exact ⟨hinj a b htext, hrest⟩

/-- Runs of characters of one kind, up to a character of another. -/
theorem of_run (p : β → Bool) (hinj : ∀ a b, text a = text b → a = b)
    (hrun : ∀ a, ∀ c ∈ text a, p c) : ReadsBack text fun s => ∀ c ∈ s.head?, ¬ p c := by
  have htake : ∀ a s, (∀ c ∈ s.head?, ¬ p c) → (text a ++ s).takeWhile p = text a := by
    intro a s hs
    rw [List.takeWhile_append_of_pos (hrun a)]
    cases s with
    | nil => simp
    | cons c rest => simp [hs c rfl]
  intro a b s t hs ht h
  have htext : text a = text b := by rw [← htake a s hs, h, htake b t ht]
  rw [htext] at h
  exact ⟨hinj a b htext, List.append_cancel_left h⟩

/-- A fixed text in front. -/
theorem after (h : ReadsBack text Ends) (front : List β) :
    ReadsBack (fun a => front ++ text a) Ends := by
  intro a b s t hs ht heq
  rw [List.append_assoc, List.append_assoc] at heq
  exact h a b s t hs ht (List.append_cancel_left heq)

/-- A fixed text behind. -/
theorem before (h : ReadsBack text Ends) {behind : List β} (hends : ∀ s, Ends (behind ++ s)) :
    ReadsBack (fun a => text a ++ behind) fun _ => True := by
  intro a b s t _ _ heq
  rw [List.append_assoc, List.append_assoc] at heq
  obtain ⟨hab, hrest⟩ := h a b _ _ (hends s) (hends t) heq
  exact ⟨hab, List.append_cancel_left hrest⟩

/-- One text behind another. -/
theorem seq {second : γ → List β} {Ends' : List β → Prop} (h : ReadsBack text Ends)
    (hsecond : ReadsBack second Ends') (hends : ∀ c s, Ends' s → Ends (second c ++ s)) :
    ReadsBack (fun p : α × γ => text p.1 ++ second p.2) Ends' := by
  intro a b s t hs ht heq
  rw [List.append_assoc, List.append_assoc] at heq
  obtain ⟨hfirst, hrest⟩ := h a.1 b.1 _ _ (hends a.2 s hs) (hends b.2 t ht) heq
  obtain ⟨hlast, hst⟩ := hsecond a.2 b.2 s t hs ht hrest
  exact ⟨Prod.ext hfirst hlast, hst⟩

/-- A sequence of texts. -/
theorem flatMap_inj (h : ReadsBack text fun _ => True) (hne : ∀ a, text a ≠ []) {xs ys : List α} :
    xs.flatMap text = ys.flatMap text ↔ xs = ys := by
  refine ⟨fun heq => ?_, fun heq => heq ▸ rfl⟩
  induction xs generalizing ys with
  | nil =>
      cases ys with
      | nil => rfl
      | cons y ys => simp [hne y] at heq
  | cons x xs ih =>
      cases ys with
      | nil => simp [hne x] at heq
      | cons y ys =>
          rw [List.flatMap_cons, List.flatMap_cons] at heq
          obtain ⟨rfl, hrest⟩ := h x y _ _ trivial trivial heq
          rw [ih hrest]

/-! ## Texts with separators -/

/-- The texts of the elements with `sep` between them. -/
def joined (sep : List β) (text : α → List β) : List α → List β
  | [] => []
  | [a] => text a
  | a :: rest => text a ++ (sep ++ joined sep text rest)

theorem joined_cons (sep : List β) (text : α → List β) (a : α) {rest : List α} (h : rest ≠ []) :
    joined sep text (a :: rest) = text a ++ (sep ++ joined sep text rest) := by
  rw [joined]
  exact h

/-- As many elements on either side. -/
theorem joined_inj (h : ReadsBack text Ends) {sep : List β} (hsep : ∀ s, Ends (sep ++ s))
    {xs ys : List α} (hlength : xs.length = ys.length) {s t : List β} (hs : Ends s) (ht : Ends t)
    (heq : joined sep text xs ++ s = joined sep text ys ++ t) : xs = ys ∧ s = t := by
  induction xs generalizing ys with
  | nil =>
      obtain rfl := List.length_eq_zero_iff.mp hlength.symm
      exact ⟨rfl, heq⟩
  | cons x xs ih =>
      obtain ⟨y, ys, rfl⟩ := List.exists_cons_of_length_eq_add_one hlength.symm
      rw [List.length_cons, List.length_cons, Nat.add_right_cancel_iff] at hlength
      cases xs with
      | nil =>
          obtain rfl := List.length_eq_zero_iff.mp hlength.symm
          obtain ⟨rfl, hrest⟩ := h x y s t hs ht heq
          exact ⟨rfl, hrest⟩
      | cons x' xs =>
          have hys : ys ≠ [] := by
            rintro rfl
            simp at hlength
          rw [joined_cons sep text x (List.cons_ne_nil _ _), joined_cons sep text y hys,
            List.append_assoc, List.append_assoc, List.append_assoc, List.append_assoc] at heq
          obtain ⟨rfl, hrest⟩ := h x y _ _ (hsep _) (hsep _) heq
          obtain ⟨htail, hst⟩ := ih hlength (List.append_cancel_left hrest)
          exact ⟨by rw [htail], hst⟩

end ReadsBack
