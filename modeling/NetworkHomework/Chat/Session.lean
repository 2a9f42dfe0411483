import NetworkHomework.Chat.Client

/-!
# One session of the chat server

`recv_from_client`, driven by the results of its `recv` calls: the nickname, the group,
then messages until a `Bye` or an error.  A result of 0, the end of the stream, is not
an error to the code.  It leaves the cleared receive buffer as it is, and an empty text
is taken for what the client sent.

The sends of a session are recorded with its other actions.  A failing one ends the
process (`DIE`), and a text put together by `strcat` that does not fit `SendMessage`
leaves the defined behaviour of C.
-/

namespace NetworkHomework.Chat

open CString

/-- A result of `recv`.  No bytes at all is the end of the stream. -/
inductive Received
  | error
  | bytes (piece : List UInt8)

/-- The string in `RecvMessage`, cleared before the call. -/
def recvText (piece : List UInt8) : List UInt8 :=
  cString (piece ++ List.replicate (shortMess - piece.length) 0)

inductive SessionSend
  | welcome
  | roster
  | loginNotice
  | usage
  | exitNotice
  deriving DecidableEq

inductive SessionEvent
  | send (site : SessionSend) (text : List UInt8)
  | link
  | queue (text : List UInt8)
  | close
  | unlink
  | free
  deriving DecidableEq

-- `exited` is `DIE`, `undefined` an overrun of `SendMessage`
inductive SessionPc
  | recvName
  | recvGroup
  | recvLoop
  | returned
  | exited
  | undefined
  deriving DecidableEq

structure Session where
  pc : SessionPc
  name : List UInt8
  group : List UInt8
  events : List SessionEvent

/-- What the session meets in the server: the members listed when it writes the roster, and the
sends that fail. -/
structure Surroundings where
  listed : List Member
  fails : SessionSend → Bool

/-- Nobody is listed, and every send succeeds. -/
def Surroundings.quiet : Surroundings := ⟨[], fun _ => false⟩

def welcomeText : List UInt8 := lit "[Welcom] please input Your NickName:"

def rosterText (listed : List Member) : List UInt8 :=
  lit "Member[Group] \n" ++
    (if listed.length = 0 then lit "No Group"
      else listed.flatMap fun temp => temp.name ++ lit "[" ++ temp.group ++ lit "],") ++
    lit " Please Select Group:"

def loginText (name group : List UInt8) : List UInt8 :=
  lit "!!Server Note Client " ++ name ++ lit " Login " ++ group ++ lit "\n"

def usageText : List UInt8 :=
  lit "Usage ::\n\t<Message>\n\t/W <NickName Or Group> <Message>\n\tBye\n"

def exitText (name : List UInt8) : List UInt8 :=
  lit "!!Server Note Client " ++ name ++ lit " Exit" ++ lit "\n"

/-- The loop's condition and its first test: the text to queue, if the loop goes on. -/
def loopRound : Received → Option (List UInt8)
  | .error => none
  | .bytes piece => if isBye (recvText piece) then none else some (recvText piece)

namespace Session

/-- Put a text together, send it, and go on. -/
def sendText (env : Surroundings) (site : SessionSend) (text : List UInt8) (s : Session)
    (andThen : Session → Session) : Session :=
  if shortMess ≤ text.length then { s with pc := .undefined }
  else if env.fails site then { s with pc := .exited }
  else andThen { s with events := s.events ++ [.send site text] }

/-- Up to the first `recv`. -/
def start (env : Surroundings) : Session :=
  sendText env .welcome welcomeText ⟨.recvName, [], [], []⟩ id

def takeName (env : Surroundings) (s : Session) (text : List UInt8) : Session :=
  sendText env .roster (rosterText env.listed) { s with name := text } fun s =>
    { s with pc := .recvGroup }

def takeGroup (env : Surroundings) (s : Session) (text : List UInt8) : Session :=
  sendText env .loginNotice (loginText s.name text) { s with group := text } fun s =>
    sendText env .usage usageText { s with events := s.events ++ [.link] } fun s =>
      { s with pc := .recvLoop }

/-- Behind the loop: `close`, and the section that unlinks and frees the member. -/
def leave (env : Surroundings) (s : Session) : Session :=
  sendText env .exitNotice (exitText s.name) s fun s =>
    { s with pc := .returned, events := s.events ++ [.close, .unlink, .free] }

/-- From one `recv` to the next. -/
def step (env : Surroundings) (s : Session) (r : Received) : Session :=
  match s.pc, r with
  | .recvName, .error => { s with pc := .exited }
  | .recvName, .bytes piece => s.takeName env (recvText piece)
  | .recvGroup, .error => { s with pc := .exited }
  | .recvGroup, .bytes piece => s.takeGroup env (recvText piece)
  | .recvLoop, r =>
      match loopRound r with
      | none => s.leave env
      | some text => { s with events := s.events ++ [.queue text] }
  | .returned, _ | .exited, _ | .undefined, _ => s

/-- The texts queued so far. -/
def queued (s : Session) : List (List UInt8) :=
  s.events.filterMap fun
    | .queue text => some text
    | _ => none

end Session

/-- `recv_from_client` -/
def recvFromClient (env : Surroundings) (results : List Received) : Session :=
  results.foldl (Session.step env) (Session.start env)

/-! ## What a session hears -/

variable {env : Surroundings} {s : Session} {piece : List UInt8} {pieces : List (List UInt8)}

/-- A frame that arrives in one piece, or the first bytes of one. -/
theorem recvText_take_frame {text : List UInt8} (h : ClientText text) (n : ℕ) :
    recvText ((frame text).take n) = text.take n := by
  have hnul : 0 ∉ text.take n := (h.take n).nulFree
  rw [recvText, frame, List.take_append, List.take_replicate, List.append_assoc,
    List.replicate_append_replicate]
  exact cString_append_zeros hnul _

theorem recvText_frame {text : List UInt8} (h : ClientText text) :
    recvText (frame text) = text := by
  calc recvText (frame text) = recvText ((frame text).take shortMess) := by
        rw [List.take_of_length_le (Nat.le_of_eq (length_frame h))]
    _ = text.take shortMess := recvText_take_frame h shortMess
    _ = text := List.take_of_length_le (Nat.le_of_lt h.fits)

theorem recvText_nil : recvText [] = [] := @cString_append_zeros [] (by simp) _

/-- The messages in a list of pieces: the texts before the first `Bye`. -/
def collected (pieces : List (List UInt8)) : List (List UInt8) :=
  (pieces.map recvText).takeWhile fun text => !isBye text

theorem collected_cons (piece : List UInt8) (pieces : List (List UInt8)) :
    collected (piece :: pieces) =
      if isBye (recvText piece) then [] else recvText piece :: collected pieces := by
  by_cases h : isBye (recvText piece) <;> simp [collected, h]

theorem collected_frames {texts : List (List UInt8)} (htexts : ∀ text ∈ texts, ClientText text) :
    collected (texts.map frame) = texts.takeWhile fun text => !isBye text := by
  have hmap : (texts.map frame).map recvText = texts := by
    calc (texts.map frame).map recvText = texts.map (recvText ∘ frame) := List.map_map
      _ = texts.map id := List.map_congr_left fun text hmem => recvText_frame (htexts text hmem)
      _ = texts := List.map_id texts
  rw [collected, hmap]

/-- Some piece is a `Bye`. -/
def HasBye (pieces : List (List UInt8)) : Prop := ∃ piece ∈ pieces, isBye (recvText piece)

instance (pieces : List (List UInt8)) : Decidable (HasBye pieces) :=
  inferInstanceAs (Decidable (∃ piece ∈ pieces, _))

/-- Once it has ended, a session hears nothing. -/
theorem foldl_step_of_ended (h : s.pc = .returned ∨ s.pc = .exited ∨ s.pc = .undefined)
    (results : List Received) : results.foldl (Session.step env) s = s := by
  induction results with
  | nil => rfl
  | cons r rest ih =>
      have hstep : s.step env r = s := by
        rcases h with h | h | h <;> simp [Session.step, h]
      rw [List.foldl_cons, hstep, ih]

theorem leave_ended (s : Session) :
    (s.leave env).pc = .returned ∨ (s.leave env).pc = .exited ∨ (s.leave env).pc = .undefined := by
  unfold Session.leave Session.sendText
  split_ifs <;> simp

/-- **The receive loop** queues the texts before the first `Bye`, and is left at this one. -/
theorem foldl_step_recvLoop (hs : s.pc = .recvLoop) (pieces : List (List UInt8)) :
    (pieces.map .bytes).foldl (Session.step env) s =
      let s' := { s with events := s.events ++ (collected pieces).map .queue }
      if HasBye pieces then s'.leave env else s' := by
  induction pieces generalizing s with
  | nil => simp [collected, HasBye]
  | cons piece rest ih =>
      rw [List.map_cons, List.foldl_cons, collected_cons]
      by_cases hbye : isBye (recvText piece)
      · have hstep : s.step env (.bytes piece) = s.leave env := by
          simp [Session.step, hs, loopRound, hbye]
        have hsome : HasBye (piece :: rest) := ⟨piece, by simp, hbye⟩
        rw [hstep, foldl_step_of_ended (leave_ended s)]
        simp [hbye, hsome]
      · have hstep : s.step env (.bytes piece) =
            { s with events := s.events ++ [.queue (recvText piece)] } := by
          simp [Session.step, hs, loopRound, hbye]
        have hiff : HasBye (piece :: rest) ↔ HasBye rest := by simp [HasBye, hbye]
        rw [hstep, ih (by exact hs)]
        simp [hbye, hiff]

/-! ## Login -/

/-- The process has exited, or its behaviour is undefined. -/
def Session.Halted (s : Session) : Prop := s.pc = .exited ∨ s.pc = .undefined

/-- What the session has recorded of its client. -/
def Session.record (s : Session) : List UInt8 × List UInt8 × List (List UInt8) :=
  (s.name, s.group, s.queued)

theorem foldl_step_of_halted (h : s.Halted) (results : List Received) :
    results.foldl (Session.step env) s = s :=
  foldl_step_of_ended (.inr h) results

/-- A send that does not happen halts the session and changes nothing else. -/
theorem sendText_halted {site : SessionSend} {text : List UInt8} {andThen : Session → Session}
    (h : shortMess ≤ text.length ∨ env.fails site) :
    (s.sendText env site text andThen).Halted ∧
      (s.sendText env site text andThen).record = s.record := by
  unfold Session.sendText
  split_ifs with hlong hfails
  · exact ⟨.inr rfl, rfl⟩
  · exact ⟨.inl rfl, rfl⟩
  · exact absurd h (by simp [hlong, hfails])

namespace Surroundings

/-- The welcome goes out. -/
def Greets (env : Surroundings) : Prop := env.fails .welcome = false

/-- The roster fits the buffer and goes out. -/
def ShowsRoster (env : Surroundings) : Prop :=
  (rosterText env.listed).length < shortMess ∧ env.fails .roster = false

/-- The login notice fits the buffer, and it and the usage go out. -/
def LogsIn (env : Surroundings) (name group : List UInt8) : Prop :=
  (loginText name group).length < shortMess ∧ env.fails .loginNotice = false ∧
    env.fails .usage = false

instance (env : Surroundings) : Decidable env.Greets := inferInstanceAs (Decidable (_ = _))

instance (env : Surroundings) : Decidable env.ShowsRoster := inferInstanceAs (Decidable (_ ∧ _))

instance (env : Surroundings) (name group : List UInt8) : Decidable (env.LogsIn name group) :=
  inferInstanceAs (Decidable (_ ∧ _))

end Surroundings

/-- What a session has done when it enters its loop. -/
def loginEvents (env : Surroundings) (name group : List UInt8) : List SessionEvent :=
  [.send .welcome welcomeText, .send .roster (rosterText env.listed),
    .send .loginNotice (loginText name group), .link, .send .usage usageText]

theorem start_eq (h : env.Greets) :
    Session.start env = ⟨.recvName, [], [], [.send .welcome welcomeText]⟩ := by
  have hfits : ¬ shortMess ≤ welcomeText.length := by decide
  unfold Surroundings.Greets at h
  simp [Session.start, Session.sendText, hfits, h]

theorem start_halted (h : ¬ env.Greets) :
    (Session.start env).Halted ∧ (Session.start env).record = ([], [], []) :=
  sendText_halted (.inr (by simpa [Surroundings.Greets] using h))

theorem takeName_eq (h : env.ShowsRoster) (s : Session) (name : List UInt8) :
    s.takeName env name = ⟨.recvGroup, name, s.group,
      s.events ++ [.send .roster (rosterText env.listed)]⟩ := by
  obtain ⟨hfits, hsent⟩ := h
  simp [Session.takeName, Session.sendText, Nat.not_le.mpr hfits, hsent]

theorem takeName_halted (h : ¬ env.ShowsRoster) (s : Session) (name : List UInt8) :
    (s.takeName env name).Halted ∧ (s.takeName env name).record = (name, s.group, s.queued) := by
  refine sendText_halted ?_
  by_contra hneither
  obtain ⟨hfits, hsent⟩ := not_or.mp hneither
  exact h ⟨Nat.not_le.mp hfits, by simpa using hsent⟩

theorem takeGroup_eq {group : List UInt8} (h : env.LogsIn s.name group) :
    s.takeGroup env group = ⟨.recvLoop, s.name, group, s.events ++
      [.send .loginNotice (loginText s.name group), .link, .send .usage usageText]⟩ := by
  obtain ⟨hfits, hnotice, husage⟩ := h
  have hfits' : ¬ shortMess ≤ usageText.length := by decide
  simp [Session.takeGroup, Session.sendText, Nat.not_le.mpr hfits, hnotice, husage, hfits']

theorem takeGroup_halted {group : List UInt8} (h : ¬ env.LogsIn s.name group) :
    (s.takeGroup env group).Halted ∧
      (s.takeGroup env group).record = (s.name, group, s.queued) := by
  by_cases hnotice : shortMess ≤ (loginText s.name group).length ∨ env.fails .loginNotice
  · exact sendText_halted hnotice
  · obtain ⟨hfits, hsent⟩ := not_or.mp hnotice
    have husage : env.fails .usage := by
      by_contra husage
      exact h ⟨Nat.not_le.mp hfits, by simpa using hsent, by simpa using husage⟩
    -- the member is linked already when the usage fails
    have hlinked : s.takeGroup env group = Session.sendText env .usage usageText
        ⟨s.pc, s.name, group, s.events ++ [.send .loginNotice (loginText s.name group)] ++ [.link]⟩
        fun s => { s with pc := .recvLoop } := by
      rw [Session.takeGroup, Session.sendText, if_neg hfits, if_neg hsent]
    rw [hlinked]
    refine ⟨(sendText_halted (.inr husage)).1, (sendText_halted (.inr husage)).2.trans ?_⟩
    simp [Session.record, Session.queued]

theorem run_cons (first : List UInt8) (pieces : List (List UInt8)) (h : env.Greets) :
    recvFromClient env ((first :: pieces).map .bytes) =
      (pieces.map .bytes).foldl (Session.step env) (Session.takeName env
        ⟨.recvName, [], [], [.send .welcome welcomeText]⟩ (recvText first)) := by
  rw [recvFromClient, start_eq h]
  rfl

theorem run_cons_cons (first second : List UInt8) (pieces : List (List UInt8)) (h : env.Greets)
    (h' : env.ShowsRoster) :
    recvFromClient env ((first :: second :: pieces).map .bytes) =
      (pieces.map .bytes).foldl (Session.step env) (Session.takeGroup env
        ⟨.recvGroup, recvText first, [], [.send .welcome welcomeText,
          .send .roster (rosterText env.listed)]⟩ (recvText second)) := by
  rw [run_cons _ _ h, takeName_eq h']
  rfl

/-- **A session that logs in** queues the texts before the first `Bye`, and leaves at this one. -/
theorem run_loggedIn (hgreets : env.Greets) (hroster : env.ShowsRoster)
    {first second : List UInt8} (hlogin : env.LogsIn (recvText first) (recvText second))
    (pieces : List (List UInt8)) :
    recvFromClient env ((first :: second :: pieces).map .bytes) =
      let s : Session := ⟨.recvLoop, recvText first, recvText second,
        loginEvents env (recvText first) (recvText second) ++ (collected pieces).map .queue⟩
      if HasBye pieces then s.leave env else s := by
  have hgroup := @takeGroup_eq env ⟨.recvGroup, recvText first, [],
    [.send .welcome welcomeText, .send .roster (rosterText env.listed)]⟩ (recvText second) hlogin
  have hloop := @foldl_step_recvLoop env ⟨.recvLoop, recvText first, recvText second,
    loginEvents env (recvText first) (recvText second)⟩ rfl pieces
  rw [run_cons_cons _ _ _ hgreets hroster, hgroup]
  exact hloop

/-- Leaving changes nothing that is recorded. -/
theorem record_leave (s : Session) : (s.leave env).record = s.record := by
  unfold Session.leave Session.sendText
  split_ifs <;> simp [Session.record, Session.queued]

/-- The leaving text is no longer than the login notice. -/
theorem exitText_fits {name group : List UInt8} (h : (loginText name group).length < shortMess) :
    (exitText name).length < shortMess := by
  simp only [loginText, exitText, List.length_append] at h ⊢
  have : (lit " Exit").length ≤ (lit " Login ").length := by decide
  omega

end NetworkHomework.Chat
