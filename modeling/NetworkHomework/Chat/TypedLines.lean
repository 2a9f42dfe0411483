import NetworkHomework.Chat.Client

/-!
# What becomes of the typed characters

The loop of `client.c` with the end of its input.  `fgets` reads a line with its
newline, a piece of a line that is too long for the buffer, a last line that nothing
ends, or, at the end of the input, nothing at all, which leaves the cleared buffer
empty.  The loop drops the last character of all of these alike.

`LosesNothing` is what the loop is for: what is sent, with the pieces of a line put
together again, is what was typed.
-/

namespace NetworkHomework.Chat

open CString

/-! ## One pass of the loop -/

/-- `strlen(SendMessage)-1` behind `fgets`. -/
def stripIndex (line : List UInt8) : ℤ := (cString (frame line)).length - 1

/-- `SendMessage` when it is sent.  The index -1 is in front of the buffer. -/
def clientSendMessage (line : List UInt8) : List UInt8 :=
  if 0 ≤ stripIndex line then (frame line).set (stripIndex line).toNat 0 else frame line

def sentText (line : List UInt8) : List UInt8 := cString (clientSendMessage line)

/-- What `fgets` reads in the first `n` passes.  Only a `Bye` ends the loop. -/
def clientPasses : ℕ → List UInt8 → List (List UInt8)
  | 0, _ => []
  | n + 1, stdin =>
      let (line, stdin) := fgets shortMess stdin
      line :: if isBye (sentText line) then [] else clientPasses n stdin

/-! ## What was typed, and what is sent -/

/-- A piece in front of the rest of its line. -/
def joinFirst (piece : List UInt8) : List (List UInt8) → List (List UInt8)
  | [] => [piece]
  | line :: lines => (piece ++ line) :: lines

/-- The typed lines, without their newlines. -/
def typedLines : List UInt8 → List (List UInt8)
  | [] => []
  | c :: stdin =>
      if c = newline then [] :: typedLines stdin else joinFirst [c] (typedLines stdin)

/-- The texts sent, the pieces of a line joined.  A piece with a newline is the last of its line. -/
def joinedTexts : List (List UInt8) → List (List UInt8)
  | [] => []
  | line :: passes =>
      if newline ∈ line then sentText line :: joinedTexts passes
      else joinFirst (sentText line) (joinedTexts passes)

/-- The lines up to the first `Bye`, and this one. -/
def throughBye : List (List UInt8) → List (List UInt8)
  | [] => []
  | line :: lines => line :: if isBye line then [] else throughBye lines

structure LosesNothing (stdin : List UInt8) : Prop where
  inBounds : ∀ n, ∀ line ∈ clientPasses n stdin, 0 ≤ stripIndex line
  -- fewer than `n` passes: the loop has stopped
  complete : ∃ n, (clientPasses n stdin).length < n ∧
    joinedTexts (clientPasses n stdin) = throughBye (typedLines stdin)

/-- Lines that fit the buffer with their newline, and then a `Bye`. -/
def ByeInTime (stdin : List UInt8) : Prop :=
  ∃ (lines : List TypedLine) (bye : TypedLine) (rest : List UInt8),
    stdin = typed (lines ++ [bye]) ++ rest ∧ isBye bye.val ∧
      ∀ line ∈ lines, line.val.length + 1 < shortMess ∧ ¬ isBye line.val

/-! ## One pass -/

variable {line rest : List UInt8}

theorem stripIndex_eq (h : 0 ∉ line) : stripIndex line = line.length - 1 := by
  rw [stripIndex, frame, cString_append_zeros h]

/-- What is sent is the frame of the line without its last character. -/
theorem clientSendMessage_eq (h : 0 ∉ line) (hfits : line.length ≤ shortMess) :
    clientSendMessage line = frame line.dropLast := by
  rcases List.eq_nil_or_concat line with rfl | ⟨l, c, rfl⟩
  · rfl
  · rw [List.concat_eq_append] at *
    have hindex : stripIndex (l ++ [c]) = (l.length : ℤ) := by
      rw [stripIndex_eq h, List.length_append, List.length_singleton]
      omega
    rw [List.length_append, List.length_singleton] at hfits
    have hroom : shortMess - l.length = shortMess - (l ++ [c]).length + 1 := by
      rw [List.length_append, List.length_singleton]
      omega
    rw [clientSendMessage, hindex, if_pos (by omega), Int.toNat_natCast, frame, frame,
      List.dropLast_concat, List.append_assoc, List.set_append_right _ _ le_rfl, Nat.sub_self,
      hroom, List.replicate_succ]
    rfl

theorem sentText_eq (h : 0 ∉ line) (hfits : line.length ≤ shortMess) :
    sentText line = line.dropLast := by
  rw [sentText, clientSendMessage_eq h hfits, frame]
  exact cString_append_zeros (fun hzero => h (List.dropLast_subset _ hzero)) _

/-! ## A whole line -/

theorem zero_notMem_line (h : 0 ∉ line) : 0 ∉ line ++ [newline] := by
  simpa [newline] using h

theorem stripIndex_line (h : 0 ∉ line) : 0 ≤ stripIndex (line ++ [newline]) := by
  rw [stripIndex_eq (zero_notMem_line h), List.length_append, List.length_singleton]
  omega

theorem sentText_line (h : 0 ∉ line) (hfits : line.length < shortMess) :
    sentText (line ++ [newline]) = line := by
  have hlength : (line ++ [newline]).length ≤ shortMess := by
    rw [List.length_append, List.length_singleton]
    omega
  rw [sentText_eq (zero_notMem_line h) hlength, List.dropLast_concat]

theorem joinedTexts_line (h : 0 ∉ line) (hfits : line.length < shortMess)
    (passes : List (List UInt8)) :
    joinedTexts ((line ++ [newline]) :: passes) = line :: joinedTexts passes := by
  rw [joinedTexts, if_pos (by simp), sentText_line h hfits]

/-- Up to the first newline, and this one. -/
theorem take_line (h : newline ∉ line) :
    (line ++ newline :: rest).take
      (((line ++ newline :: rest).takeWhile (· ≠ newline)).length + 1) = line ++ [newline] := by
  have hline : ∀ c ∈ line, decide (c ≠ newline) = true := by
    intro c hc
    simpa using fun hnewline : c = newline => h (hnewline ▸ hc)
  have hread : (line ++ newline :: rest).takeWhile (· ≠ newline) = line := by
    rw [List.takeWhile_append_of_pos hline]
    simp
  rw [hread, List.take_append, List.take_of_length_le (by omega)]
  simp

/-- `fgets` reads a line that fits with its newline, and no more. -/
theorem fgets_line {n : ℕ} (h : newline ∉ line) (hfits : line.length + 1 < n) :
    fgets n (line ++ newline :: rest) = (line ++ [newline], rest) := by
  have hwindow : (line ++ newline :: rest).take (n - 1) =
      line ++ newline :: rest.take (n - 1 - line.length - 1) := by
    rw [List.take_append, List.take_of_length_le (by omega),
      show n - 1 - line.length = (n - 1 - line.length - 1) + 1 by omega, List.take_succ_cons]
    rfl
  simp only [fgets, hwindow, take_line h]
  simp [List.drop_append]

theorem fgets_append (n : ℕ) (stdin : List UInt8) :
    (fgets n stdin).1 ++ (fgets n stdin).2 = stdin := by
  have hprefix : (fgets n stdin).1 <+: stdin :=
    (List.take_prefix _ _).trans (List.take_prefix _ _)
  exact (List.prefix_iff_eq_append.mp hprefix)

/-- A newline in what `fgets` reads is its last character. -/
theorem fgets_newline (n : ℕ) (stdin : List UInt8) :
    newline ∉ (fgets n stdin).1 ∨
      ∃ line, newline ∉ line ∧ (fgets n stdin).1 = line ++ [newline] := by
  by_cases h : newline ∈ stdin.take (n - 1)
  · obtain ⟨line, rest, hwindow, hline⟩ := List.eq_append_cons_of_mem h
    refine .inr ⟨line, hline, ?_⟩
    simp only [fgets, hwindow, take_line hline]
  · exact .inl fun hmem => h (List.mem_of_mem_take hmem)

/-! ## Runs -/

theorem clientPasses_line {n : ℕ} (h : newline ∉ line) (hzero : 0 ∉ line)
    (hfits : line.length + 1 < shortMess) :
    clientPasses (n + 1) (line ++ newline :: rest) =
      (line ++ [newline]) :: if isBye line then [] else clientPasses n rest := by
  rw [clientPasses, fgets_line h hfits]
  simp only [sentText_line hzero (Nat.lt_of_succ_lt hfits)]

/-- As long as there is input, the passes are the ones of the client that waits at its end. -/
theorem clientLoop_eq {n : ℕ} {stdin : List UInt8} (h : 0 ∉ stdin) :
    clientLoop n stdin = ((clientPasses n stdin).takeWhile (· ≠ [])).map sentText := by
  induction n generalizing stdin with
  | zero => rfl
  | succ n ih =>
      obtain ⟨hline, hrest, hlength⟩ := fgets_subset shortMess stdin
      have hzero : 0 ∉ (fgets shortMess stdin).1 := fun hmem => h (hline hmem)
      have htext : sentText (fgets shortMess stdin).1 = (fgets shortMess stdin).1.dropLast :=
        sentText_eq hzero (by omega)
      by_cases hempty : stdin = []
      · subst hempty
        rfl
      · have hne : (fgets shortMess stdin).1 ≠ [] := by
          intro hnil
          have hless := fgets_length_lt (by decide : 1 < shortMess) hempty
          have happend := fgets_append shortMess stdin
          rw [hnil, List.nil_append] at happend
          rw [happend] at hless
          exact absurd hless (lt_irrefl _)
        have hstring : cString (fgets shortMess stdin).1 = (fgets shortMess stdin).1 := by
          simpa using cString_append_zeros hzero 0
        simp only [clientLoop, if_neg hempty, hstring]
        simp only [clientPasses, htext]
        rw [List.takeWhile_cons_of_pos (by simpa using hne), List.map_cons, htext]
        split_ifs
        · rfl
        · rw [ih fun hmem => h (hrest hmem)]

/-! ## First lines -/

theorem headD_joinFirst (piece : List UInt8) (lines : List (List UInt8)) :
    (joinFirst piece lines).headD [] = piece ++ lines.headD [] := by
  cases lines with
  | nil => simp [joinFirst]
  | cons first lines => rfl

theorem headD_throughBye (lines : List (List UInt8)) :
    (throughBye lines).headD [] = lines.headD [] := by
  cases lines <;> rfl

theorem typedLines_line (h : newline ∉ line) :
    typedLines (line ++ newline :: rest) = line :: typedLines rest := by
  induction line with
  | nil => simp [typedLines]
  | cons c line ih =>
      rw [List.mem_cons, not_or] at h
      rw [List.cons_append, typedLines, if_neg (Ne.symm h.1), ih h.2]
      rfl

theorem headD_typedLines_append (h : newline ∉ line) :
    (typedLines (line ++ rest)).headD [] = line ++ (typedLines rest).headD [] := by
  induction line with
  | nil => rfl
  | cons c line ih =>
      rw [List.mem_cons, not_or] at h
      rw [List.cons_append, typedLines, if_neg (Ne.symm h.1), headD_joinFirst, ih h.2]
      rfl

/-- The first line typed, if `fgets` meets no newline in it. -/
theorem headD_typedLines_cut {stdin : List UInt8} (hcut : newline ∉ (fgets shortMess stdin).1) :
    (typedLines stdin).headD [] =
      (fgets shortMess stdin).1 ++ (typedLines (fgets shortMess stdin).2).headD [] := by
  rw [← headD_typedLines_append hcut, fgets_append]

/-- The first line sent, if `fgets` meets no newline: a piece without its last character. -/
theorem headD_joinedTexts_cut {n : ℕ} {stdin : List UInt8} (hzero : 0 ∉ stdin)
    (hcut : newline ∉ (fgets shortMess stdin).1) :
    ((joinedTexts (clientPasses (n + 1) stdin)).headD []).length ≤
      ((fgets shortMess stdin).1.length - 1) +
        ((joinedTexts (clientPasses n (fgets shortMess stdin).2)).headD []).length := by
  obtain ⟨hline, -, hlength⟩ := fgets_subset shortMess stdin
  have htext : sentText (fgets shortMess stdin).1 = (fgets shortMess stdin).1.dropLast :=
    sentText_eq (fun hmem => hzero (hline hmem)) (by omega)
  simp only [clientPasses, joinedTexts, if_neg hcut]
  rw [headD_joinFirst, List.length_append, htext, List.length_dropLast]
  split_ifs
  · simp [joinedTexts]
  · exact le_rfl

/-- What is sent of the first line is no longer than the line. -/
theorem length_headD_joinedTexts_le {n : ℕ} {stdin : List UInt8} (hzero : 0 ∉ stdin) :
    ((joinedTexts (clientPasses n stdin)).headD []).length ≤
      ((typedLines stdin).headD []).length := by
  induction n generalizing stdin with
  | zero => exact Nat.zero_le _
  | succ n ih =>
      obtain ⟨hread, hleft, hlength⟩ := fgets_subset shortMess stdin
      have hrest := ih (fun hmem => hzero (hleft hmem) : 0 ∉ (fgets shortMess stdin).2)
      have happend := fgets_append shortMess stdin
      rcases fgets_newline shortMess stdin with hcut | ⟨line, hline, hwhole⟩
      · have hsent := headD_joinedTexts_cut (n := n) hzero hcut
        rw [headD_typedLines_cut hcut, List.length_append]
        omega
      · have htyped := @typedLines_line _ (fgets shortMess stdin).2 hline
        rw [hwhole, List.append_assoc, List.singleton_append] at happend
        rw [happend] at htyped
        have hno : 0 ∉ line := fun hmem =>
          hzero (hread (hwhole ▸ List.mem_append_left _ hmem))
        have hfits : line.length < shortMess := by
          rw [hwhole, List.length_append, List.length_singleton] at hlength
          omega
        simp only [clientPasses, hwhole, joinedTexts_line hno hfits, htyped, List.headD_cons,
          le_refl]

/-- A piece that no newline ends, or an input that is at its end, is not sent as it was typed. -/
theorem not_losesNothing_of_cut {stdin : List UInt8} (hzero : 0 ∉ stdin)
    (hcut : newline ∉ (fgets shortMess stdin).1) : ¬ LosesNothing stdin := by
  intro h
  by_cases hempty : stdin = []
  · subst hempty
    exact absurd (h.inBounds 1 [] (by decide)) (by decide)
  · obtain ⟨n, hstopped, htexts⟩ := h.complete
    cases n with
    | zero => exact absurd hstopped (Nat.not_lt_zero _)
    | succ n =>
        obtain ⟨-, hleft, -⟩ := fgets_subset shortMess stdin
        have happend := fgets_append shortMess stdin
        have hsent := headD_joinedTexts_cut (n := n) hzero hcut
        have hrest := length_headD_joinedTexts_le (n := n)
          (fun hmem => hzero (hleft hmem) : 0 ∉ (fgets shortMess stdin).2)
        have hpos := fgets_length_lt (by decide : 1 < shortMess) hempty
        have hwhole := congrArg List.length happend
        rw [List.length_append] at hwhole
        rw [htexts, headD_throughBye, headD_typedLines_cut hcut, List.length_append] at hsent
        omega

/-! ## One line more -/

theorem losesNothing_line (h : newline ∉ line) (hzero : 0 ∉ line)
    (hfits : line.length + 1 < shortMess) :
    LosesNothing (line ++ newline :: rest) ↔ isBye line ∨ LosesNothing rest := by
  have hpasses : ∀ n, clientPasses (n + 1) (line ++ newline :: rest) =
      (line ++ [newline]) :: if isBye line then [] else clientPasses n rest :=
    fun n => clientPasses_line h hzero hfits
  have hjoined := joinedTexts_line hzero (Nat.lt_of_succ_lt hfits)
  by_cases hbye : isBye line
  · refine iff_of_true ⟨fun n piece hpiece => ?_, 2, ?_, ?_⟩ (.inl hbye)
    · cases n with
      | zero => exact absurd hpiece List.not_mem_nil
      | succ n =>
          rw [hpasses, if_pos hbye, List.mem_singleton] at hpiece
          exact hpiece ▸ stripIndex_line hzero
    · rw [hpasses, if_pos hbye]
      exact Nat.one_lt_two
    · rw [hpasses, if_pos hbye, hjoined, typedLines_line h, throughBye, if_pos hbye]
      rfl
  · simp only [if_neg hbye] at hpasses
    simp only [hbye, Bool.false_eq_true, false_or]
    constructor
    · rintro ⟨hbounds, n, hstopped, htexts⟩
      cases n with
      | zero => exact absurd hstopped (Nat.not_lt_zero _)
      | succ n =>
          rw [hpasses] at hstopped htexts
          rw [hjoined, typedLines_line h, throughBye, if_neg hbye] at htexts
          refine ⟨fun m piece hpiece => hbounds (m + 1) piece ?_, n, by simpa using hstopped,
            (List.cons.inj htexts).2⟩
          rw [hpasses]
          exact List.mem_cons_of_mem _ hpiece
    · rintro ⟨hbounds, n, hstopped, htexts⟩
      refine ⟨fun m piece hpiece => ?_, n + 1, ?_, ?_⟩
      · cases m with
        | zero => exact absurd hpiece List.not_mem_nil
        | succ m =>
            rw [hpasses] at hpiece
            rcases List.mem_cons.mp hpiece with rfl | hpiece
            · exact stripIndex_line hzero
            · exact hbounds m piece hpiece
      · rw [hpasses]
        simpa using hstopped
      · rw [hpasses, hjoined, typedLines_line h, throughBye, if_neg hbye, htexts]

theorem typed_cons (line : TypedLine) (lines : List TypedLine) (rest : List UInt8) :
    typed (line :: lines) ++ rest = line.val ++ newline :: (typed lines ++ rest) := by
  simp [typed]

theorem losesNothing_of_byeInTime {stdin : List UInt8} (h : ByeInTime stdin) :
    LosesNothing stdin := by
  obtain ⟨lines, bye, rest, rfl, hbye, hlines⟩ := h
  induction lines with
  | nil =>
      have hfits : bye.val.length + 1 < shortMess := by
        have hshort := ((isBye_iff bye.property.2).mp hbye).2
        have hbuffer : shortMess = 512 := rfl
        omega
      rw [List.nil_append, typed_cons, losesNothing_line bye.property.1 bye.property.2 hfits]
      exact .inl hbye
  | cons line lines ih =>
      obtain ⟨hfits, -⟩ := hlines line (List.mem_cons_self ..)
      rw [List.cons_append, typed_cons,
        losesNothing_line line.property.1 line.property.2 hfits]
      exact .inr (ih fun other hother => hlines other (List.mem_cons_of_mem _ hother))

theorem byeInTime_of_losesNothing {stdin : List UInt8} (hzero : 0 ∉ stdin)
    (h : LosesNothing stdin) : ByeInTime stdin := by
  induction hlength : stdin.length using Nat.strong_induction_on generalizing stdin with
  | _ length ih =>
      rcases fgets_newline shortMess stdin with hcut | ⟨line, hline, hwhole⟩
      · exact absurd h (not_losesNothing_of_cut hzero hcut)
      · obtain ⟨hread, hleft, hbuffer⟩ := fgets_subset shortMess stdin
        have happend := fgets_append shortMess stdin
        rw [hwhole, List.append_assoc, List.singleton_append] at happend
        have hno : 0 ∉ line := fun hmem =>
          hzero (hread (hwhole ▸ List.mem_append_left _ hmem))
        have hfits : line.length + 1 < shortMess := by
          rw [hwhole, List.length_append, List.length_singleton] at hbuffer
          have hpos : 0 < shortMess := by decide
          omega
        rw [← happend, losesNothing_line hline hno hfits] at h
        have hshorter := congrArg List.length happend
        rw [List.length_append, List.length_cons] at hshorter
        obtain ⟨typedLine, rfl⟩ : ∃ typedLine : TypedLine, typedLine.val = line :=
          ⟨⟨line, hline, hno⟩, rfl⟩
        by_cases hbye : isBye typedLine.val
        · refine ⟨[], typedLine, (fgets shortMess stdin).2, ?_, hbye, by simp⟩
          rw [List.nil_append, typed_cons]
          exact happend.symm
        · -- the line is sent whole, and the rest of the input decides
          obtain ⟨lines, bye, rest, hrest, hlast, hlines⟩ := ih _ (by omega)
            (fun hmem => hzero (hleft hmem)) (h.resolve_left hbye) rfl
          refine ⟨typedLine :: lines, bye, rest, ?_, hlast, ?_⟩
          · rw [List.cons_append, typed_cons, ← hrest]
            exact happend.symm
          · intro other hother
            rcases List.mem_cons.mp hother with rfl | hother
            · exact ⟨hfits, hbye⟩
            · exact hlines other hother

/-- **No character lost.**  The client sends what was typed, never writes in front of its buffer
and stops, exactly if lines that fit the buffer end in a `Bye` before the input does. -/
theorem losesNothing_iff {stdin : List UInt8} (hzero : 0 ∉ stdin) :
    LosesNothing stdin ↔ ByeInTime stdin :=
  ⟨byeInTime_of_losesNothing hzero, losesNothing_of_byeInTime⟩

namespace NoBye

def hello : TypedLine := ⟨lit "hello", by decide⟩

def bye : TypedLine := ⟨lit "Bye", by decide⟩

/-- What a user types behind the `Bye` stays with the user. -/
theorem losesNothing_helloBye : LosesNothing (lit "hello\nBye\nmore") :=
  (losesNothing_iff (by decide)).mpr ⟨[hello], bye, lit "more", rfl, by decide, by decide⟩

/-- The input ends behind the first line. -/
theorem not_losesNothing : ¬ ∀ stdin, 0 ∉ stdin → LosesNothing stdin := by
  intro h
  have hbounds := (h (lit "hello\n") (by decide)).inBounds 2 [] (by decide)
  exact absurd hbounds (by decide)

end NoBye

end NetworkHomework.Chat
