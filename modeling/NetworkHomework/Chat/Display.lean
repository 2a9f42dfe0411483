import Mathlib.Data.List.Flatten
import NetworkHomework.Chat.Framing

/-!
# What the chat client shows

`recv_from_server` prints what each `recv` returns up to its first NUL.  Other than the
server it does not take the pieces for frames: one text after another goes to the
terminal, so a text may be cut anywhere.  What it cannot do without is that a piece ends
before the next text starts: the bytes behind a NUL are never printed.

At the end of the stream `recv` returns 0 for ever, and the thread goes on printing
nothing.
-/

namespace NetworkHomework.Chat

open CString

/-- `recv_from_server`: what it prints, and whether it returns. -/
def recvFromServer : List Received → List UInt8 × Bool
  | [] => ([], false)
  | .error :: _ => ([], true)
  | .bytes piece :: results =>
      let (printed, returned) := recvFromServer results
      (recvText piece ++ printed, returned)

/-- Nothing but NULs follows a NUL in the piece. -/
def EndsInZeros (piece : List UInt8) : Prop := ∀ x ∈ piece.dropWhile (· ≠ 0), x = 0

instance (piece : List UInt8) : Decidable (EndsInZeros piece) :=
  inferInstanceAs (Decidable (∀ x ∈ piece.dropWhile (· ≠ 0), x = 0))

variable {texts pieces : List (List UInt8)}

/-! ## The bytes that are not NUL -/

/-- The bytes of the texts in a stream of frames. -/
def shown (stream : List UInt8) : List UInt8 := stream.filter (· ≠ 0)

theorem shown_append (first second : List UInt8) :
    shown (first ++ second) = shown first ++ shown second := List.filter_append ..

theorem shown_frame {text : List UInt8} (h : ClientText text) : shown (frame text) = text := by
  have hzeros : shown (List.replicate (shortMess - text.length) 0) = [] := by
    apply List.filter_eq_nil_iff.mpr
    intro x hx
    simp [List.eq_of_mem_replicate hx]
  have htext : shown text = text := by
    apply List.filter_eq_self.mpr
    intro x hx
    simpa using fun hzero : x = 0 => h.nulFree (hzero ▸ hx)
  rw [frame, shown_append, hzeros, htext, List.append_nil]

theorem recvText_eq (piece : List UInt8) : recvText piece = piece.takeWhile (· ≠ 0) := by
  rw [recvText, cString, List.takeWhile_append]
  split_ifs with hall
  · rw [(List.takeWhile_prefix _).eq_of_length hall]
    cases shortMess - piece.length <;> simp [List.replicate_succ]
  · rfl

/-- A piece is printed up to its first NUL, and has the rest to show. -/
theorem shown_piece (piece : List UInt8) :
    shown piece = recvText piece ++ shown (piece.dropWhile (· ≠ 0)) := by
  have htake : shown (piece.takeWhile (· ≠ 0)) = piece.takeWhile (· ≠ 0) := by
    apply List.filter_eq_self.mpr
    intro x hx
    simpa using List.mem_takeWhile_imp hx
  calc shown piece = shown (piece.takeWhile (· ≠ 0) ++ piece.dropWhile (· ≠ 0)) := by
        rw [List.takeWhile_append_dropWhile]
    _ = recvText piece ++ shown (piece.dropWhile (· ≠ 0)) := by
        rw [shown_append, htake, recvText_eq]

theorem recvText_sublist_shown (piece : List UInt8) : (recvText piece).Sublist (shown piece) := by
  rw [shown_piece]
  exact List.sublist_append_left _ _

theorem recvText_eq_shown_iff (piece : List UInt8) :
    recvText piece = shown piece ↔ EndsInZeros piece := by
  rw [shown_piece, List.self_eq_append_right]
  simp [shown, List.filter_eq_nil_iff, EndsInZeros]

/-! ## The output -/

/-- Where one function gives sublists of what another gives, the two agree on all of a list exactly
if they do on each element. -/
theorem flatMap_eq_flatMap_iff {α β : Type*} {f g : α → List β} {l : List α}
    (h : ∀ a ∈ l, (f a).Sublist (g a)) : l.flatMap f = l.flatMap g ↔ ∀ a ∈ l, f a = g a := by
  induction l with
  | nil => simp
  | cons a rest ih =>
      have hhead := h a List.mem_cons_self
      have htail : ∀ b ∈ rest, (f b).Sublist (g b) := fun b hb => h b (List.mem_cons_of_mem a hb)
      rw [List.flatMap_cons, List.flatMap_cons, List.forall_mem_cons, ← ih htail]
      constructor
      · intro heq
        -- neither part can be shorter, so both are as long
        have hlength := congrArg List.length heq
        have hrest := (List.Sublist.flatMap_right rest htail).length_le
        rw [List.length_append, List.length_append] at hlength
        have hfa : f a = g a := hhead.eq_of_length_le (by omega)
        rw [hfa] at heq
        exact ⟨hfa, List.append_cancel_left heq⟩
      · intro hboth
        rw [hboth.1, hboth.2]

theorem recvFromServer_pieces (pieces : List (List UInt8)) :
    recvFromServer (pieces.map .bytes) = (pieces.flatMap recvText, false) := by
  induction pieces with
  | nil => rfl
  | cons piece rest ih => rw [List.map_cons, recvFromServer, ih, List.flatMap_cons]

/-- After the end of the stream nothing more is printed. -/
theorem recvFromServer_eofs (pieces : List (List UInt8)) (eofs : ℕ) :
    recvFromServer ((pieces ++ List.replicate eofs []).map .bytes) =
      (pieces.flatMap recvText, false) := by
  rw [recvFromServer_pieces, List.flatMap_append]
  congr 1
  simp [recvText_nil]

theorem shown_flatten (pieces : List (List UInt8)) :
    shown pieces.flatten = pieces.flatMap shown := by
  rw [shown, List.filter_flatten, List.flatMap_def]
  rfl

theorem shown_frames (htexts : ∀ text ∈ texts, ClientText text) :
    shown (texts.map frame).flatten = texts.flatten := by
  rw [shown_flatten, List.flatMap_map]
  calc texts.flatMap (fun text => shown (frame text)) = texts.flatMap id :=
        List.flatMap_congr fun text hmem => shown_frame (htexts text hmem)
    _ = texts.flatten := List.flatMap_id

/-- What is printed of the pieces of a stream of frames. -/
theorem printed_pieces (htexts : ∀ text ∈ texts, ClientText text)
    (hstream : pieces.flatten = (texts.map frame).flatten) :
    (pieces.flatMap recvText).Sublist texts.flatten ∧
      (pieces.flatMap recvText = texts.flatten ↔ ∀ piece ∈ pieces, EndsInZeros piece) := by
  have htexts' : texts.flatten = pieces.flatMap shown := by
    rw [← shown_frames htexts, ← hstream, shown_flatten]
  have hsublist : ∀ piece ∈ pieces, (recvText piece).Sublist (shown piece) := fun piece _ =>
    recvText_sublist_shown piece
  rw [htexts']
  refine ⟨List.Sublist.flatMap_right pieces hsublist, ?_⟩
  rw [flatMap_eq_flatMap_iff hsublist]
  exact forall₂_congr fun piece _ => recvText_eq_shown_iff piece

/-- **The terminal.**  Whatever the texts are and however TCP cuts the stream of their frames, the
client prints no byte that is not theirs, and it prints all of them, one after the other, exactly
if no piece holds anything behind a NUL.  A full buffer always holds the NUL that `printf` stops
at, and the thread never returns at the end of the stream. -/
theorem display_iff {texts pieces : List (List UInt8)} (htexts : ∀ text ∈ texts, ClientText text)
    (hstream : pieces.flatten = (texts.map frame).flatten) (eofs : ℕ) :
    let result := recvFromServer ((pieces ++ List.replicate eofs []).map .bytes)
    result.1.Sublist texts.flatten ∧
      (result.1 = texts.flatten ↔ ∀ piece ∈ pieces, EndsInZeros piece) ∧
      result.2 = false ∧ ∀ piece ∈ pieces, piece.length = shortMess → 0 ∈ piece := by
  obtain ⟨hsublist, hwhole⟩ := printed_pieces htexts hstream
  simp only [recvFromServer_eofs]
  refine ⟨hsublist, hwhole, trivial, fun piece hmem hsize => ?_⟩
  obtain ⟨front, back, hpieces⟩ := List.append_of_mem hmem
  refine @zero_mem_of_part piece texts htexts front.flatten back.flatten hsize ?_
  rw [← hstream, hpieces]
  simp

namespace TwoLines

def lines : List (List UInt8) := [lit "ann : hi\n", lit "bob : ho\n"]

/-- The first line is cut, and both frames end with a piece. -/
def cut : List (List UInt8) :=
  [lit "ann", (frame (lit "ann : hi\n")).drop 3, frame (lit "bob : ho\n")]

theorem display_cut : (recvFromServer ((cut ++ List.replicate 2 []).map .bytes)).1 =
    lines.flatten := by
  have htexts : ∀ text ∈ lines, ClientText text := by
    intro text hmem
    simp only [lines, List.mem_cons, List.not_mem_nil, or_false] at hmem
    rcases hmem with rfl | rfl <;> exact ⟨by decide, by decide⟩
  exact (display_iff htexts (by decide +kernel) 2).2.1.mpr (by decide +kernel)

end TwoLines

end NetworkHomework.Chat
