import NetworkHomework.Chat.Header

/-!
# The chat client

`client.c` reads the lines the user types with `fgets`, drops the last character of
what it got, sends the rest as a frame of `SHORTMESS` bytes and stops after the first
text it takes as `Bye`.  A line longer than the buffer goes out in several frames, and
each of them loses the character that ends it.
-/

namespace NetworkHomework.Chat

open CString

def newline : UInt8 := 10

/-- `strncmp(s, "Bye", 3) == 0 && strlen(s) <= 5`, the test of both sides. -/
def isBye (s : List UInt8) : Bool := strncmp s (lit "Bye") 3 = 0 ∧ s.length ≤ 5

/-- A text as it is sent. -/
def frame (text : List UInt8) : List UInt8 :=
  text ++ List.replicate (shortMess - text.length) 0

/-- `fgets(buffer, n, stdin)`: what it reads, and what it leaves. -/
def fgets (n : ℕ) (stdin : List UInt8) : List UInt8 × List UInt8 :=
  let window := stdin.take (n - 1)
  let line := window.take ((window.takeWhile (· ≠ newline)).length + 1)
  (line, stdin.drop line.length)

/-- The texts the client sends.  Where the input ends, it waits for the next line. -/
def clientLoop : ℕ → List UInt8 → List (List UInt8)
  | 0, _ => []
  | fuel + 1, stdin =>
      if stdin = [] then []
      else
        let (line, stdin) := fgets shortMess stdin
        let sendMessage := (cString line).dropLast
        sendMessage :: if isBye sendMessage then [] else clientLoop fuel stdin

/-- A line as a user types it. -/
def TypedLine : Type := { line : List UInt8 // newline ∉ line ∧ 0 ∉ line }

def typed (lines : List TypedLine) : List UInt8 :=
  lines.flatMap fun line => line.val ++ [newline]

-- every pass of the loop reads at least one byte
def clientTexts (lines : List TypedLine) : List (List UInt8) :=
  clientLoop (typed lines).length (typed lines)

/-! ## What is a `Bye` -/

theorem isBye_iff {s : List UInt8} (h : 0 ∉ s) :
    isBye s ↔ s.take 3 = lit "Bye" ∧ s.length ≤ 5 := by
  rw [isBye, decide_eq_true_iff, strncmp_eq_zero_iff h (by decide)]
  rfl

theorem not_isBye_nil : ¬ isBye [] := by decide

/-- A `Bye` that is cut off is still one if three of its bytes are left. -/
theorem isBye_take_iff {s : List UInt8} (h : 0 ∉ s) (hbye : isBye s) (n : ℕ) :
    isBye (s.take n) ↔ 3 ≤ n := by
  obtain ⟨hthree, hshort⟩ := (isBye_iff h).mp hbye
  rw [isBye_iff fun hzero => h (List.mem_of_mem_take hzero), List.take_take]
  constructor
  · rintro ⟨hcut, -⟩
    by_contra hn
    have hlength := congrArg List.length hcut
    rw [List.length_take, show (lit "Bye").length = 3 from rfl] at hlength
    omega
  · intro hn
    rw [Nat.min_eq_left hn]
    refine ⟨hthree, ?_⟩
    rw [List.length_take]
    omega

/-! ## What the client sends -/

/-- A text that its frame carries with a NUL behind it. -/
structure ClientText (text : List UInt8) : Prop where
  nulFree : 0 ∉ text
  fits : text.length < shortMess

theorem ClientText.take {text : List UInt8} (h : ClientText text) (n : ℕ) :
    ClientText (text.take n) := by
  refine ⟨fun hzero => h.nulFree (List.mem_of_mem_take hzero), ?_⟩
  have := h.fits
  rw [List.length_take]
  omega

theorem length_frame {text : List UInt8} (h : ClientText text) :
    (frame text).length = shortMess := by
  have := h.fits
  rw [frame, List.length_append, List.length_replicate]
  omega

theorem fgets_subset (n : ℕ) (stdin : List UInt8) :
    (fgets n stdin).1 ⊆ stdin ∧ (fgets n stdin).2 ⊆ stdin ∧ (fgets n stdin).1.length ≤ n - 1 := by
  refine ⟨fun x hx => List.mem_of_mem_take (List.mem_of_mem_take hx), ?_, ?_⟩
  · exact fun x hx => List.mem_of_mem_drop hx
  · simp only [fgets, List.length_take]
    omega

theorem fgets_length_lt {n : ℕ} (hn : 1 < n) {stdin : List UInt8} (h : stdin ≠ []) :
    (fgets n stdin).2.length < stdin.length := by
  have hpos := List.length_pos_of_ne_nil h
  simp only [fgets, List.length_drop, List.length_take]
  omega

/-- The fuel is enough: more of it changes nothing. -/
theorem clientLoop_mono {fuel fuel' : ℕ} {stdin : List UInt8} (h : stdin.length ≤ fuel)
    (hle : fuel ≤ fuel') : clientLoop fuel' stdin = clientLoop fuel stdin := by
  induction fuel generalizing fuel' stdin with
  | zero =>
      obtain rfl : stdin = [] := List.length_eq_zero_iff.mp (Nat.le_zero.mp h)
      cases fuel' <;> simp [clientLoop]
  | succ fuel ih =>
      obtain ⟨fuel', rfl⟩ := Nat.exists_eq_succ_of_ne_zero (by omega : fuel' ≠ 0)
      by_cases hempty : stdin = []
      · simp [clientLoop, hempty]
      · have hless := fgets_length_lt (by decide : 1 < shortMess) hempty
        simp only [clientLoop, if_neg hempty]
        rw [ih (by omega) (by omega)]

theorem clientText_of_mem_clientLoop {fuel : ℕ} {stdin : List UInt8} (h : 0 ∉ stdin) :
    ∀ text ∈ clientLoop fuel stdin, ClientText text := by
  induction fuel generalizing stdin with
  | zero => simp [clientLoop]
  | succ fuel ih =>
      intro text hmem
      obtain ⟨hline, hrest, hlength⟩ := fgets_subset shortMess stdin
      rw [clientLoop] at hmem
      split_ifs at hmem
      · simp at hmem
      · rcases List.mem_cons.mp hmem with rfl | hmem
        · refine ⟨fun hzero => ?_, ?_⟩
          · exact zero_notMem_cString _ (List.dropLast_subset _ hzero)
          · have hle := length_cString_le (fgets shortMess stdin).1
            have hbuffer : shortMess = 512 := rfl
            show (cString (fgets shortMess stdin).1).dropLast.length < shortMess
            rw [List.length_dropLast]
            omega
        · split_ifs at hmem
          · simp at hmem
          · exact ih (fun hzero => h (hrest hzero)) text hmem

/-- The client goes on after a text that is not the last one, so this is no `Bye`. -/
theorem not_isBye_of_mem_dropLast_clientLoop {fuel : ℕ} {stdin : List UInt8} :
    ∀ text ∈ (clientLoop fuel stdin).dropLast, ¬ isBye text := by
  induction fuel generalizing stdin with
  | zero => simp [clientLoop]
  | succ fuel ih =>
      intro text hmem
      rw [clientLoop] at hmem
      split_ifs at hmem with hempty
      · simp at hmem
      · by_cases hbye : isBye (cString (fgets shortMess stdin).1).dropLast
        · simp [hbye] at hmem
        · simp only [if_neg hbye] at hmem
          cases hrest : clientLoop fuel (fgets shortMess stdin).2 with
          | nil => simp [hrest] at hmem
          | cons next rest =>
              rw [hrest, List.dropLast_cons_cons, ← hrest] at hmem
              rcases List.mem_cons.mp hmem with rfl | hmem
              · exact hbye
              · exact ih text hmem

theorem zero_notMem_typed (lines : List TypedLine) : 0 ∉ typed lines := by
  intro h
  obtain ⟨line, -, hmem⟩ := List.mem_flatMap.mp h
  rcases List.mem_append.mp hmem with hmem | hmem
  · exact line.property.2 hmem
  · exact absurd hmem (by decide)

theorem clientText_of_mem {lines : List TypedLine} {text : List UInt8}
    (h : text ∈ clientTexts lines) : ClientText text :=
  clientText_of_mem_clientLoop (zero_notMem_typed lines) text h

end NetworkHomework.Chat
