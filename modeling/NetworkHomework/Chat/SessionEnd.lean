import NetworkHomework.Chat.Session

/-!
# When a session ends with its client

The client stops after the first text it takes as a `Bye`, whatever it was asked for;
the session looks for a `Bye` among the messages only, and never takes the end of the
stream for an end.  So a session ends with its client exactly if the client stops while
it is sending messages and its `Bye` arrives, and no send of the session fails before.
In all other cases the session queues empty messages for ever.
-/

namespace NetworkHomework.Chat

open CString

/-- The results of `recv` when the connection is closed after `sent` of the texts: whole frames,
then 0 as often as the session asks. -/
def deliveries (texts : List (List UInt8)) (sent eofs : ℕ) : List (List UInt8) :=
  (texts.take sent).map frame ++ List.replicate eofs []

/-- The session has left its loop, has unlinked and freed its member once, and has queued nothing
but messages of the client, in their order. -/
structure SessionEnded (s : Session) (texts : List (List UInt8)) : Prop where
  returned : s.pc = .returned
  unlinked : s.events.count .unlink = 1
  freed : s.events.count .free = 1
  queued : s.queued <+: texts.drop 2

def EndsWithClient (env : Surroundings) (lines : List TypedLine) (sent : ℕ) : Prop :=
  ∃ eofs, SessionEnded (recvFromClient env ((deliveries (clientTexts lines) sent eofs).map .bytes))
    (clientTexts lines)

/-- No send of the session fails, and its texts fit their buffer. -/
structure Surroundings.LetsThrough (env : Surroundings) (name group : List UInt8) : Prop where
  greets : env.Greets
  showsRoster : env.ShowsRoster
  logsIn : env.LogsIn name group
  seesOff : env.fails .exitNotice = false

variable {env : Surroundings}

/-- **When a session returns.** -/
theorem returned_iff (pieces : List (List UInt8)) :
    (recvFromClient env (pieces.map .bytes)).pc = .returned ↔
      ∃ first second rest, pieces = first :: second :: rest ∧
        env.LetsThrough (recvText first) (recvText second) ∧ HasBye rest := by
  have hhalted : ∀ {s : Session}, s.Halted → s.pc ≠ .returned := by
    rintro s (h | h) <;> simp [h]
  by_cases hgreets : env.Greets
  swap
  · have hstart := (start_halted hgreets).1
    rw [recvFromClient, foldl_step_of_halted hstart]
    refine iff_of_false (hhalted hstart) ?_
    rintro ⟨_, _, _, _, hlets, _⟩
    exact hgreets hlets.greets
  rcases pieces with _ | ⟨first, pieces⟩
  · rw [List.map_nil, recvFromClient, List.foldl_nil, start_eq hgreets]
    simp
  by_cases hroster : env.ShowsRoster
  swap
  · have hname := (takeName_halted hroster ⟨.recvName, [], [], [.send .welcome welcomeText]⟩
      (recvText first)).1
    rw [run_cons _ _ hgreets, foldl_step_of_halted hname]
    refine iff_of_false (hhalted hname) ?_
    rintro ⟨_, _, _, _, hlets, _⟩
    exact hroster hlets.showsRoster
  rcases pieces with _ | ⟨second, rest⟩
  · rw [run_cons _ _ hgreets, List.map_nil, List.foldl_nil, takeName_eq hroster]
    simp
  by_cases hlogin : env.LogsIn (recvText first) (recvText second)
  swap
  · have hgroup := (@takeGroup_halted env ⟨.recvGroup, recvText first, [],
      [.send .welcome welcomeText, .send .roster (rosterText env.listed)]⟩ (recvText second)
      hlogin).1
    rw [run_cons_cons _ _ _ hgreets hroster, foldl_step_of_halted hgroup]
    refine iff_of_false (hhalted hgroup) ?_
    rintro ⟨_, _, _, heq, hlets, _⟩
    apply hlogin
    obtain ⟨rfl, rfl, -⟩ := by simpa using heq
    exact hlets.logsIn
  rw [run_loggedIn hgreets hroster hlogin]
  by_cases hbye : HasBye rest
  · have hfits := exitText_fits hlogin.1
    have hleave : ∀ events, (Session.leave env ⟨.recvLoop, recvText first, recvText second,
        events⟩).pc = .returned ↔ env.fails .exitNotice = false := by
      intro events
      simp only [Session.leave, Session.sendText, if_neg (Nat.not_le.mpr hfits)]
      split_ifs with hfails <;> simp [hfails]
    simp only [if_pos hbye, hleave]
    constructor
    · exact fun hsent => ⟨first, second, rest, rfl, ⟨hgreets, hroster, hlogin, hsent⟩, hbye⟩
    · rintro ⟨_, _, _, -, hlets, -⟩
      exact hlets.seesOff
  · simp only [if_neg hbye]
    refine iff_of_false (by simp) ?_
    rintro ⟨_, _, _, heq, _, hsome⟩
    apply hbye
    obtain ⟨-, -, rfl⟩ := by simpa using heq
    exact hsome

/-- A session that returns has unlinked and freed its member once, and queued what comes before
the `Bye`. -/
theorem ended_of_letsThrough {first second : List UInt8} {rest : List (List UInt8)}
    (hlets : env.LetsThrough (recvText first) (recvText second)) (hbye : HasBye rest) :
    let s := recvFromClient env ((first :: second :: rest).map .bytes)
    s.pc = .returned ∧ s.events.count .unlink = 1 ∧ s.events.count .free = 1 ∧
      s.queued = collected rest := by
  have hcount : ∀ event, (∀ text, event ≠ .queue text) →
      ((collected rest).map SessionEvent.queue).count event = 0 := by
    intro event hne
    apply List.count_eq_zero.mpr
    intro hmem
    obtain ⟨text, -, heq⟩ := List.mem_map.mp hmem
    exact hne text heq.symm
  have hfits := exitText_fits hlets.logsIn.1
  rw [run_loggedIn hlets.greets hlets.showsRoster hlets.logsIn]
  simp only [if_pos hbye, Session.leave, Session.sendText, if_neg (Nat.not_le.mpr hfits),
    hlets.seesOff]
  refine ⟨rfl, ?_, ?_, ?_⟩
  · simp [loginEvents, hcount]
  · simp [loginEvents, hcount]
  · simp [loginEvents, Session.queued, List.filterMap_append, List.filterMap_map]

/-- A piece that is a `Bye` is a frame of the client. -/
theorem exists_of_hasBye {texts : List (List UInt8)} (htexts : ∀ text ∈ texts, ClientText text)
    {sent eofs : ℕ} (h : HasBye ((deliveries texts sent eofs).drop 2)) :
    ∃ i, 2 ≤ i ∧ i < sent ∧ ∃ text, texts[i]? = some text ∧ isBye text := by
  obtain ⟨piece, hmem, hbye⟩ := h
  obtain ⟨j, hpiece⟩ := List.mem_iff_getElem?.mp hmem
  rw [List.getElem?_drop, deliveries] at hpiece
  by_cases hframe : 2 + j < ((texts.take sent).map frame).length
  · rw [List.getElem?_append_left hframe, List.getElem?_map] at hpiece
    obtain ⟨text, htext, rfl⟩ := Option.map_eq_some_iff.mp hpiece
    have hj : 2 + j < sent := by
      rw [List.length_map, List.length_take] at hframe
      omega
    rw [List.getElem?_take_of_lt hj] at htext
    rw [recvText_frame (htexts text (List.mem_of_getElem? htext))] at hbye
    exact ⟨2 + j, by omega, hj, text, htext, hbye⟩
  · rw [List.getElem?_append_right (by omega)] at hpiece
    obtain rfl := List.eq_of_mem_replicate (List.mem_of_getElem? hpiece)
    rw [recvText_nil] at hbye
    exact absurd hbye not_isBye_nil

/-- **The end of a session.**  Whatever the user types and wherever the connection is cut, the
session ends with its client exactly if a text behind the nickname and the group is a `Bye` and
was sent before the cut, and the server gets all its texts out. -/
theorem endsWithClient_iff (env : Surroundings) (lines : List TypedLine) (sent : ℕ) :
    EndsWithClient env lines sent ↔
      env.LetsThrough ((clientTexts lines).getD 0 []) ((clientTexts lines).getD 1 []) ∧
        ∃ i, 2 ≤ i ∧ i < sent ∧ ∃ text, (clientTexts lines)[i]? = some text ∧ isBye text := by
  have htexts : ∀ text ∈ clientTexts lines, ClientText text := fun _ => clientText_of_mem
  unfold EndsWithClient
  generalize clientTexts lines = texts at htexts ⊢
  -- both sides ask for more than two frames
  have hshape : (∃ i, 2 ≤ i ∧ i < sent ∧ ∃ text, texts[i]? = some text ∧ isBye text) →
      ∃ name group rest sent', texts = name :: group :: rest ∧ sent = sent' + 2 := by
    rintro ⟨i, htwo, hi, text, htext, -⟩
    rcases texts with _ | ⟨name, _ | ⟨group, rest⟩⟩
    · simp at htext
    · rw [List.getElem?_eq_none (by simp; omega)] at htext
      cases htext
    · exact ⟨name, group, rest, sent - 2, rfl, by omega⟩
  constructor
  · rintro ⟨eofs, hended⟩
    obtain ⟨first, second, pieces, hpieces, hlets, hbye⟩ := (returned_iff _).mp hended.returned
    have hexists := @exists_of_hasBye texts htexts sent eofs (by rw [hpieces]; exact hbye)
    refine ⟨?_, hexists⟩
    obtain ⟨name, group, rest, sent', rfl, rfl⟩ := hshape hexists
    simp only [deliveries, List.take_succ_cons, List.map_cons, List.cons_append,
      List.cons.injEq] at hpieces
    obtain ⟨rfl, rfl, -⟩ := hpieces
    rw [recvText_frame (htexts name (by simp)), recvText_frame (htexts group (by simp))] at hlets
    exact hlets
  · rintro ⟨hlets, hexists⟩
    obtain ⟨name, group, rest, sent', rfl, rfl⟩ := hshape hexists
    obtain ⟨i, htwo, hi, text, htext, hbye⟩ := hexists
    obtain ⟨i, rfl⟩ := Nat.exists_eq_add_of_le' htwo
    have hrest : ∀ text ∈ rest, ClientText text := fun text hmem => htexts text (by simp [hmem])
    have hsome : HasBye ((rest.take sent').map frame) := by
      have htext' : (rest.take sent')[i]? = some text := by
        rw [List.getElem?_take_of_lt (by omega)]
        simpa using htext
      refine ⟨frame text, List.mem_map_of_mem (List.mem_of_getElem? htext'), ?_⟩
      rwa [recvText_frame (hrest text (List.mem_of_mem_take (List.mem_of_getElem? htext')))]
    have hlets' : env.LetsThrough (recvText (frame name)) (recvText (frame group)) := by
      rw [recvText_frame (htexts name (by simp)), recvText_frame (htexts group (by simp))]
      exact hlets
    obtain ⟨hreturned, hunlinked, hfreed, hqueued⟩ := ended_of_letsThrough hlets' hsome
    have hdeliveries : deliveries (name :: group :: rest) (sent' + 2) 0 =
        frame name :: frame group :: (rest.take sent').map frame := by
      simp [deliveries]
    refine ⟨0, ?_⟩
    rw [hdeliveries]
    refine ⟨hreturned, hunlinked, hfreed, ?_⟩
    rw [hqueued, collected_frames fun text hmem => hrest text (List.mem_of_mem_take hmem)]
    exact (List.takeWhile_prefix _).trans (List.take_prefix _ _)

/-! ## A client that leaves early -/

namespace EarlyBye

def line (s : String) (h : newline ∉ lit s ∧ 0 ∉ lit s := by decide) : TypedLine := ⟨lit s, h⟩

/-- A user who stops at the nickname leaves a session behind that never ends. -/
theorem not_endsWithClient_bye : ¬ EndsWithClient .quiet [line "Bye"] 1 := by
  rintro ⟨eofs, hended⟩
  obtain ⟨first, second, pieces, hpieces, -, hbye⟩ := (returned_iff _).mp hended.returned
  have htexts : ∀ text ∈ clientTexts [line "Bye"], ClientText text := fun _ => clientText_of_mem
  obtain ⟨i, htwo, hi, -⟩ := @exists_of_hasBye _ htexts 1 eofs (by rw [hpieces]; exact hbye)
  omega

end EarlyBye

end NetworkHomework.Chat
