import NetworkHomework.Chat.Session
import Mathlib.Data.List.TakeDrop

/-!
# Framing

TCP delivers bytes, not the frames they were sent in.  `recv_from_client` takes each
result of `recv` for a frame: a short one shifts all that follow, as the rest of the
frame is at least one NUL, which makes a text of its own.  So a session records what
its client sent exactly if every frame up to the `Bye` comes in one piece, and at least
three bytes of the `Bye` come in the next.
-/

namespace NetworkHomework.Chat

open CString

/-- What a client sends that stops with a `Bye` behind the nickname and the group. -/
structure Dialogue where
  name : List UInt8
  group : List UInt8
  messages : List (List UInt8)
  bye : List UInt8
  sendable : ∀ text ∈ name :: group :: (messages ++ [bye]), ClientText text
  goesOn : ∀ text ∈ name :: group :: messages, ¬ isBye text
  stops : isBye bye

namespace Dialogue

def texts (d : Dialogue) : List (List UInt8) := d.name :: d.group :: (d.messages ++ [d.bye])

def frames (d : Dialogue) : List (List UInt8) := d.texts.map frame

/-- Successive results of `recv` that make up the stream of the frames. -/
structure Segmentation (d : Dialogue) (pieces : List (List UInt8)) : Prop where
  stream : pieces.flatten = d.frames.flatten
  sizes : ∀ piece ∈ pieces, 1 ≤ piece.length ∧ piece.length ≤ shortMess

end Dialogue

/-- The number of bytes the `i`-th `recv` returns. -/
def recvSize (pieces : List (List UInt8)) (i : ℕ) : ℕ := (pieces.getD i []).length

/-- As far as the session gets, its calls of `recv` return what it takes them to return. -/
structure Carried (env : Surroundings) (d : Dialogue) (size : ℕ → ℕ) : Prop where
  name : env.Greets → d.name.length ≤ size 0
  group : env.Greets → env.ShowsRoster →
    if size 0 = shortMess then d.group.length ≤ size 1 else d.group = []
  messages : env.Greets → env.ShowsRoster → env.LogsIn d.name d.group →
    (∀ i < d.messages.length + 2, size i = shortMess) ∧ 3 ≤ size (d.messages.length + 2)

/-- A client that stops with its third text or later has led a dialogue. -/
theorem exists_dialogue {lines : List TypedLine} {i : ℕ} (htwo : 2 ≤ i) {text : List UInt8}
    (htext : (clientTexts lines)[i]? = some text) (hbye : isBye text) :
    ∃ d : Dialogue, d.texts = clientTexts lines := by
  have hsendable : ∀ text ∈ clientTexts lines, ClientText text := fun _ => clientText_of_mem
  have hgoesOn : ∀ text ∈ (clientTexts lines).dropLast, ¬ isBye text :=
    not_isBye_of_mem_dropLast_clientLoop
  generalize clientTexts lines = texts at htext hsendable hgoesOn ⊢
  rcases texts with _ | ⟨name, _ | ⟨group, rest⟩⟩
  · simp at htext
  · rw [List.getElem?_eq_none (by simp; omega)] at htext
    cases htext
  · obtain ⟨i, rfl⟩ := Nat.exists_eq_add_of_le' htwo
    simp only [List.getElem?_cons_succ] at htext
    rcases List.eq_nil_or_concat rest with rfl | ⟨messages, bye, rfl⟩
    · simp at htext
    · have hdrop : (name :: group :: (messages ++ [bye])).dropLast = name :: group :: messages := by
        rw [← List.cons_append, ← List.cons_append, List.dropLast_concat]
      rw [List.concat_eq_append] at hsendable hgoesOn htext ⊢
      rw [hdrop] at hgoesOn
      have hstops : isBye bye := by
        rcases List.mem_append.mp (List.mem_of_getElem? htext) with hmem | hmem
        · exact absurd hbye (hgoesOn text (by simp [hmem]))
        · rwa [← List.mem_singleton.mp hmem]
      exact ⟨⟨name, group, messages, bye, hsendable, hgoesOn, hstops⟩, rfl⟩

/-! ## The first piece of a stream -/

variable {env : Surroundings} {d : Dialogue} {piece text bye rest : List UInt8}
  {pieces messages : List (List UInt8)}

/-- A piece that starts in a frame shows a part of its text. -/
theorem flatten_cons_frame (htext : ClientText text) (hsize : piece.length ≤ shortMess)
    (hstream : (piece :: pieces).flatten = frame text ++ rest) :
    recvText piece = text.take piece.length ∧
      pieces.flatten = (frame text).drop piece.length ++ rest := by
  have hle : piece.length ≤ (frame text).length := hsize.trans_eq (length_frame htext).symm
  rw [List.flatten_cons] at hstream
  have hpiece : piece = (frame text).take piece.length := by
    have htake := congrArg (List.take piece.length) hstream
    rwa [List.take_left, List.take_append_of_le_length hle] at htake
  constructor
  · calc recvText piece = recvText ((frame text).take piece.length) := by rw [← hpiece]
      _ = text.take piece.length := recvText_take_frame htext _
  · have hdrop := congrArg (List.drop piece.length) hstream
    rwa [List.drop_left, List.drop_append_of_le_length hle] at hdrop

/-- What is left of a frame behind its text is NUL. -/
theorem drop_frame {n : ℕ} (h : text.length ≤ n) :
    (frame text).drop n = List.replicate (shortMess - n) 0 := by
  rw [frame, List.drop_append, List.drop_eq_nil_of_le h, List.nil_append, List.drop_replicate]
  congr 1
  omega

/-- A piece that starts with NULs is an empty text. -/
theorem recvText_of_zeros {zeros : ℕ} (hzeros : 0 < zeros)
    (hstream : (piece :: pieces).flatten = List.replicate zeros 0 ++ rest) :
    recvText piece = [] := by
  obtain ⟨zeros, rfl⟩ := Nat.exists_eq_succ_of_ne_zero (Nat.ne_of_gt hzeros)
  cases piece with
  | nil => exact recvText_nil
  | cons x xs =>
      rw [List.replicate_succ, List.flatten_cons, List.cons_append, List.cons_append] at hstream
      obtain rfl : x = 0 := (List.cons.inj hstream).1
      simp [recvText, cString]

/-- Every buffer that is filled to its end holds a terminated string, however the stream is cut. -/
theorem zero_mem_of_part {texts : List (List UInt8)} (htexts : ∀ text ∈ texts, ClientText text)
    {front back : List UInt8} (hsize : piece.length = shortMess)
    (hstream : (texts.map frame).flatten = front ++ piece ++ back) : 0 ∈ piece := by
  induction texts generalizing front with
  | nil =>
      have hlength := congrArg List.length hstream
      simp [hsize, shortMess] at hlength
      omega
  | cons text texts ih =>
      have htext := htexts text (by simp)
      have hframe := length_frame htext
      have hfits := htext.fits
      rw [List.map_cons, List.flatten_cons, List.append_assoc] at hstream
      by_cases hpast : shortMess ≤ front.length
      · -- the piece starts behind the first frame
        have hdrop := congrArg (List.drop shortMess) hstream
        rw [← hframe, List.drop_left, hframe, List.drop_append_of_le_length hpast,
          ← List.append_assoc] at hdrop
        exact ih (fun t ht => htexts t (by simp [ht])) hdrop
      · -- the last byte of the first frame is in it
        have hlast : (frame text)[shortMess - 1]? = some 0 := by
          rw [frame, List.getElem?_append_right (by omega), List.getElem?_replicate,
            if_pos (by omega)]
        have hat := congrArg (·[shortMess - 1]?) hstream
        rw [List.getElem?_append_left (by rw [hframe]; omega), hlast,
          List.getElem?_append_right (by omega), List.getElem?_append_left (by omega)] at hat
        exact List.mem_of_getElem? hat.symm

theorem Dialogue.Segmentation.zero_mem (h : d.Segmentation pieces) (hmem : piece ∈ pieces)
    (hsize : piece.length = shortMess) : 0 ∈ piece := by
  obtain ⟨front, back, rfl⟩ := List.append_of_mem hmem
  refine @zero_mem_of_part piece d.texts d.sendable front.flatten back.flatten hsize ?_
  rw [← Dialogue.frames, ← h.stream]
  simp

/-! ## The messages of a stream -/

/-- The stream of the messages and the `Bye`. -/
def streamOf (messages : List (List UInt8)) (bye : List UInt8) : List UInt8 :=
  ((messages ++ [bye]).map frame).flatten

theorem streamOf_cons (text : List UInt8) (messages : List (List UInt8)) (bye : List UInt8) :
    streamOf (text :: messages) bye = frame text ++ streamOf messages bye := rfl

/-- **A shifted stream is never read right.**  Each message that is empty is read from the NULs
before it, and one text too many is left for the `Bye`. -/
theorem collected_ne_of_shifted {zeros : ℕ} (hzeros : 0 < zeros)
    (hsizes : ∀ piece ∈ pieces, piece.length ≤ shortMess)
    (hstream : pieces.flatten = List.replicate zeros 0 ++ streamOf messages bye) :
    collected pieces ≠ messages := by
  induction messages generalizing pieces zeros with
  | nil =>
      cases pieces with
      | nil =>
          have hlength := congrArg List.length hstream
          simp at hlength
          omega
      | cons piece pieces =>
          rw [collected_cons, recvText_of_zeros hzeros hstream, if_neg not_isBye_nil]
          exact List.cons_ne_nil _ _
  | cons text messages ih =>
      cases pieces with
      | nil =>
          have hlength := congrArg List.length hstream
          simp at hlength
          omega
      | cons piece pieces =>
          rw [collected_cons, recvText_of_zeros hzeros hstream, if_neg not_isBye_nil]
          intro heq
          obtain ⟨rfl, hcollected⟩ := List.cons.inj heq
          have hsize := hsizes piece (by simp)
          -- the NULs of the empty message move up behind those that are left
          rw [streamOf_cons, show frame [] = List.replicate shortMess 0 from rfl,
            ← List.append_assoc, List.replicate_append_replicate, List.flatten_cons] at hstream
          have hrest := congrArg (List.drop piece.length) hstream
          rw [List.drop_left, List.drop_append_of_le_length (by rw [List.length_replicate]; omega),
            List.drop_replicate] at hrest
          exact ih (by omega) (fun p hp => hsizes p (by simp [hp])) hrest hcollected

/-- **The loop reads the messages right** exactly if each comes in one piece, and enough of the
`Bye` in the next. -/
theorem collected_eq_iff (hmessages : ∀ text ∈ messages, ClientText text ∧ ¬ isBye text)
    (hbye : ClientText bye) (hstops : isBye bye)
    (hsizes : ∀ piece ∈ pieces, piece.length ≤ shortMess)
    (hstream : pieces.flatten = streamOf messages bye) :
    collected pieces = messages ↔
      (∀ i < messages.length, recvSize pieces i = shortMess) ∧
        3 ≤ recvSize pieces messages.length := by
  induction messages generalizing pieces with
  | nil =>
      cases pieces with
      | nil =>
          have hlength := congrArg List.length hstream
          simp [streamOf, length_frame hbye, shortMess] at hlength
      | cons piece pieces =>
          obtain ⟨hread, -⟩ := @flatten_cons_frame _ _ [] _ hbye (hsizes piece (by simp)) hstream
          rw [collected_cons, hread]
          have hcut := isBye_take_iff hbye.nulFree hstops piece.length
          by_cases hthree : 3 ≤ piece.length
          · simp [hcut.mpr hthree, recvSize, hthree]
          · simp [mt hcut.mp hthree, recvSize, hthree]
  | cons text messages ih =>
      cases pieces with
      | nil =>
          have hlength := congrArg List.length hstream
          simp [streamOf_cons, length_frame (hmessages text (by simp)).1, shortMess] at hlength
          omega
      | cons piece pieces =>
          obtain ⟨htext, hgoesOn⟩ := hmessages text (by simp)
          have hsize := hsizes piece (by simp)
          have hsizes' : ∀ p ∈ pieces, p.length ≤ shortMess := fun p hp => hsizes p (by simp [hp])
          obtain ⟨hread, hrest⟩ := flatten_cons_frame htext hsize hstream
          rw [collected_cons, hread]
          by_cases hfull : piece.length = shortMess
          · have hall : text.take piece.length = text :=
              List.take_of_length_le (hfull ▸ Nat.le_of_lt htext.fits)
            have hdrop : (frame text).drop piece.length = [] :=
              List.drop_eq_nil_of_le (by rw [length_frame htext, hfull])
            rw [hdrop, List.nil_append] at hrest
            rw [hall, if_neg hgoesOn, List.cons.injEq, eq_self_iff_true, true_and,
              ih (fun t ht => hmessages t (by simp [ht])) hsizes' hrest]
            constructor
            · rintro ⟨hfirst, hlast⟩
              refine ⟨fun i hi => ?_, hlast⟩
              cases i with
              | zero => exact hfull
              | succ i => exact hfirst i (by simpa using hi)
            · rintro ⟨hfirst, hlast⟩
              exact ⟨fun i hi => hfirst (i + 1) (by simpa using hi), hlast⟩
          · refine iff_of_false (fun heq => ?_) fun h => hfull (h.1 0 (by simp))
            split_ifs at heq
            obtain ⟨htake, hcollected⟩ := List.cons.inj heq
            rw [drop_frame ((List.take_eq_self_iff _).mp htake)] at hrest
            exact collected_ne_of_shifted (by omega) hsizes' hrest hcollected

/-! ## A session -/

theorem recvSize_append_nil (pieces : List (List UInt8)) (eofs : ℕ) :
    recvSize (pieces ++ List.replicate eofs []) = recvSize pieces := by
  funext i
  simp only [recvSize, List.getD_eq_getElem?_getD, List.getElem?_append]
  split_ifs with hi
  · rfl
  · rw [List.getElem?_eq_none (Nat.not_lt.mp hi), List.getElem?_replicate]
    split_ifs <;> rfl

/-- What a session records of the texts it hears. -/
theorem record_eq (first second : List UInt8) (pieces : List (List UInt8)) :
    (recvFromClient env ((first :: second :: pieces).map .bytes)).record =
      if ¬ env.Greets then ([], [], [])
      else if ¬ env.ShowsRoster then (recvText first, [], [])
      else if ¬ env.LogsIn (recvText first) (recvText second) then
        (recvText first, recvText second, [])
      else (recvText first, recvText second, collected pieces) := by
  by_cases hgreets : env.Greets
  swap
  · obtain ⟨hhalted, hrecord⟩ := start_halted hgreets
    rw [recvFromClient, foldl_step_of_halted hhalted, if_pos hgreets, hrecord]
  rw [if_neg (not_not.mpr hgreets)]
  by_cases hroster : env.ShowsRoster
  swap
  · obtain ⟨hhalted, hrecord⟩ := takeName_halted hroster
      ⟨.recvName, [], [], [.send .welcome welcomeText]⟩ (recvText first)
    rw [run_cons _ _ hgreets, foldl_step_of_halted hhalted, if_pos hroster, hrecord]
    rfl
  rw [if_neg (not_not.mpr hroster)]
  by_cases hlogin : env.LogsIn (recvText first) (recvText second)
  swap
  · obtain ⟨hhalted, hrecord⟩ := @takeGroup_halted env ⟨.recvGroup, recvText first, [],
      [.send .welcome welcomeText, .send .roster (rosterText env.listed)]⟩ (recvText second) hlogin
    rw [run_cons_cons _ _ _ hgreets hroster, foldl_step_of_halted hhalted, if_pos hlogin, hrecord]
    rfl
  rw [if_neg (not_not.mpr hlogin), run_loggedIn hgreets hroster hlogin]
  simp only []
  split_ifs
  · rw [record_leave]
    simp [Session.record, Session.queued, loginEvents]
  · simp [Session.record, Session.queued, loginEvents]

/-- What a session records of a client whose frames arrive one by one. -/
theorem record_frames (env : Surroundings) (d : Dialogue) :
    (recvFromClient env (d.frames.map .bytes)).record =
      if ¬ env.Greets then ([], [], [])
      else if ¬ env.ShowsRoster then (d.name, [], [])
      else if ¬ env.LogsIn d.name d.group then (d.name, d.group, [])
      else (d.name, d.group, d.messages) := by
  have hname := d.sendable d.name (by simp)
  have hgroup := d.sendable d.group (by simp)
  have hrest : ∀ text ∈ d.messages ++ [d.bye], ClientText text := fun text hmem =>
    d.sendable text (by simp only [List.mem_cons]; exact .inr (.inr hmem))
  have hcollected : collected ((d.messages ++ [d.bye]).map frame) = d.messages := by
    have hgoesOn : ∀ text ∈ d.messages, (!isBye text) = true := by
      intro text hmem
      simpa using d.goesOn text (by simp [hmem])
    rw [collected_frames hrest, List.takeWhile_append_of_pos hgoesOn]
    simp [d.stops]
  have hframes : d.frames =
      frame d.name :: frame d.group :: (d.messages ++ [d.bye]).map frame := rfl
  rw [hframes, record_eq, recvText_frame hname, recvText_frame hgroup, hcollected]

/-- The nickname and the group are read right exactly if the first piece holds the nickname, and
the next one the group: the group of its frame, or an empty one in what is left of the first. -/
theorem login_iff {first second : List UInt8} {name group : List UInt8} (hname : ClientText name)
    (hgroup : ClientText group) (hsizes : first.length ≤ shortMess ∧ second.length ≤ shortMess)
    (hstream : (first :: second :: pieces).flatten = frame name ++ (frame group ++ rest)) :
    (recvText first = name ↔ name.length ≤ first.length) ∧
      (recvText first = name → (recvText second = group ↔
        if first.length = shortMess then group.length ≤ second.length else group = [])) := by
  obtain ⟨hfirst, hrest⟩ := flatten_cons_frame hname hsizes.1 hstream
  have htake : recvText first = name ↔ name.length ≤ first.length := by
    rw [hfirst, List.take_eq_self_iff]
  refine ⟨htake, fun hread => ?_⟩
  rw [drop_frame (htake.mp hread)] at hrest
  split_ifs with hfull
  · rw [hfull, Nat.sub_self, List.replicate_zero, List.nil_append] at hrest
    rw [(flatten_cons_frame hgroup hsizes.2 hrest).1, List.take_eq_self_iff]
  · rw [recvText_of_zeros (by omega) hrest, eq_comm]

/-- The stream of a dialogue is longer than two pieces. -/
theorem exists_cons_cons {name group : List UInt8} (hname : ClientText name)
    (hgroup : ClientText group) (hsizes : ∀ piece ∈ pieces, piece.length ≤ shortMess)
    (hstream : pieces.flatten = frame name ++ (frame group ++ rest)) :
    ∃ first second more, pieces = first :: second :: more := by
  have hlength := congrArg List.length hstream
  rw [List.length_append, List.length_append, length_frame hname, length_frame hgroup] at hlength
  have hbuffer : shortMess = 512 := rfl
  rcases pieces with _ | ⟨first, _ | ⟨second, more⟩⟩
  · simp at hlength
    omega
  · have hsize := hsizes first (by simp)
    simp at hlength
    omega
  · exact ⟨first, second, more, rfl⟩

/-- With the nickname and the group read right, the session queues the messages exactly if the
three together are what a loop collects from the stream. -/
theorem collected_cons_cons {first second : List UInt8} {more : List (List UInt8)}
    (hname : recvText first = d.name) (hgroup : recvText second = d.group) :
    collected more = d.messages ↔
      collected (first :: second :: more) = d.name :: d.group :: d.messages := by
  have hname' : ¬ isBye d.name := d.goesOn _ (by simp)
  have hgroup' : ¬ isBye d.group := d.goesOn _ (by simp)
  rw [collected_cons, collected_cons, hname, hgroup, if_neg hname', if_neg hgroup']
  simp

/-- Any results of `recv` that make up the stream, the empty ones at its end included. -/
theorem record_eq_iff_carried {results : List (List UInt8)}
    (hsizes : ∀ piece ∈ results, piece.length ≤ shortMess)
    (hstream : results.flatten = streamOf (d.name :: d.group :: d.messages) d.bye) :
    (recvFromClient env (results.map .bytes)).record =
        (recvFromClient env (d.frames.map .bytes)).record ↔
      Carried env d (recvSize results) := by
  have hname := d.sendable d.name (by simp)
  have hgroup := d.sendable d.group (by simp)
  have hall := collected_eq_iff (fun text hmem => ⟨d.sendable text (by grind), d.goesOn text hmem⟩)
    (d.sendable d.bye (by simp)) d.stops hsizes hstream
  obtain ⟨first, second, more, rfl⟩ := exists_cons_cons hname hgroup hsizes hstream
  obtain ⟨hfirst, hsecond⟩ := login_iff hname hgroup
    ⟨hsizes first (by simp), hsizes second (by simp)⟩ hstream
  rw [record_eq, record_frames]
  constructor
  · intro heq
    -- the further the session gets, the more the records tell
    have hn : env.Greets → recvText first = d.name := by
      intro hgreets
      simp only [hgreets, not_true, if_false] at heq
      split_ifs at heq <;> exact congrArg Prod.fst heq
    have hg : env.Greets → env.ShowsRoster → recvText second = d.group := by
      intro hgreets hroster
      simp only [hgreets, hroster, not_true, if_false] at heq
      split_ifs at heq <;> exact congrArg (Prod.fst ∘ Prod.snd) heq
    refine ⟨fun hgreets => hfirst.mp (hn hgreets), fun hgreets hroster => ?_,
      fun hgreets hroster hlogin => ?_⟩
    · exact (hsecond (hn hgreets)).mp (hg hgreets hroster)
    · simp only [hgreets, hroster, hn hgreets, hg hgreets hroster, hlogin, not_true, if_false,
        Prod.mk.injEq, true_and] at heq
      exact hall.mp ((collected_cons_cons (hn hgreets) (hg hgreets hroster)).mp heq)
  · intro hcarried
    by_cases hgreets : env.Greets
    · have hn := hfirst.mpr (hcarried.name hgreets)
      by_cases hroster : env.ShowsRoster
      · have hg := (hsecond hn).mpr (hcarried.group hgreets hroster)
        by_cases hlogin : env.LogsIn d.name d.group
        · have hm := (collected_cons_cons hn hg).mpr
            (hall.mpr (hcarried.messages hgreets hroster hlogin))
          rw [hn, hg, hm]
        · simp [hgreets, hroster, hn, hg, hlogin]
      · simp [hgreets, hroster, hn]
    · simp [hgreets]

/-- **Framing.**  Whatever the client sends and however TCP cuts its stream, and however often the
session goes on to read at its end, the session records the same nickname, group and messages as
from whole frames exactly if the frames are carried whole as far as it gets. -/
theorem framing_iff {env : Surroundings} {d : Dialogue} {pieces : List (List UInt8)}
    (h : d.Segmentation pieces) (eofs : ℕ) :
    (recvFromClient env ((pieces ++ List.replicate eofs []).map .bytes)).record =
        (recvFromClient env (d.frames.map .bytes)).record ↔
      Carried env d (recvSize pieces) := by
  rw [← recvSize_append_nil pieces eofs]
  apply record_eq_iff_carried
  · intro piece hmem
    rcases List.mem_append.mp hmem with hmem | hmem
    · exact (h.sizes piece hmem).2
    · rw [List.eq_of_mem_replicate hmem]
      exact Nat.zero_le _
  · rw [List.flatten_append, h.stream]
    simp [Dialogue.frames, Dialogue.texts, streamOf]

/-! ## A nickname in two pieces -/

namespace TwoPieces

/-- A client that logs in and says nothing. -/
def ann : Dialogue where
  name := lit "ann"
  group := lit "blue"
  messages := []
  bye := lit "Bye"
  sendable := by
    intro text hmem
    simp only [List.nil_append, List.mem_cons, List.not_mem_nil, or_false] at hmem
    rcases hmem with rfl | rfl | rfl <;> exact ⟨by decide, by decide⟩
  goesOn := by
    intro text hmem
    simp only [List.mem_cons, List.not_mem_nil, or_false] at hmem
    rcases hmem with rfl | rfl <;> decide
  stops := by decide

/-- The frames as they were sent, but for the last one, cut behind its first three bytes. -/
def whole : List (List UInt8) :=
  [frame (lit "ann"), frame (lit "blue"), lit "Bye", List.replicate 509 0]

/-- The first frame in two pieces. -/
def cut : List (List UInt8) :=
  [lit "ann", List.replicate 509 0, frame (lit "blue"), frame (lit "Bye")]

theorem segmentation_whole : ann.Segmentation whole := ⟨by decide +kernel, by decide +kernel⟩

theorem segmentation_cut : ann.Segmentation cut := ⟨by decide +kernel, by decide +kernel⟩

theorem framing_whole : (recvFromClient .quiet ((whole ++ List.replicate 1 []).map .bytes)).record =
    (recvFromClient .quiet (ann.frames.map .bytes)).record := by
  apply (framing_iff segmentation_whole 1).mpr
  refine ⟨fun _ => ?_, fun _ _ => ?_, fun _ _ _ => ⟨?_, ?_⟩⟩ <;> decide +kernel

/-- The group is read from the end of the first frame, and the real one is queued as a message. -/
theorem not_framing_cut : ann.Segmentation cut ∧ (recvFromClient .quiet (cut.map .bytes)).record ≠
    (recvFromClient .quiet (ann.frames.map .bytes)).record :=
  ⟨segmentation_cut, by decide +kernel⟩

end TwoPieces

end NetworkHomework.Chat
