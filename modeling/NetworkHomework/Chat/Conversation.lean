import NetworkHomework.Chat.Delivery
import NetworkHomework.Chat.Display
import NetworkHomework.Chat.TypedLines

/-!
# From the keyboards to a screen

What a user types passes through the loop of the client, a session of the server, the
queue, the dispatcher and the receiving loop of every other client.  Where each of these
does its part (the lines fit the buffer, the session logs in, the dispatcher finds one
message at a time, and no piece of the stream holds two texts) a screen shows, for as long
as its member is on the list, the lines that are for it, each once, with the name of who
typed it, and the lines of one user in the order typed.
-/

namespace NetworkHomework.Chat

open LinkedHeap CString

/-! ## A dispatcher that keeps up -/

/-- The round finds at most one message, and every message can be delivered. -/
def KeepsUp (s : Dispatch) : DispatchAction → Prop
  | .enqueue client recvMessage _ => (newMessage client recvMessage).Deliverable
  | .round _ => s.pending.length ≤ 1

instance (s : Dispatch) : (a : DispatchAction) → Decidable (KeepsUp s a)
  | .enqueue client recvMessage _ =>
      inferInstanceAs (Decidable (newMessage client recvMessage).Deliverable)
  | .round _ => inferInstanceAs (Decidable (s.pending.length ≤ 1))

/-- The texts sent to `member` in these rounds, whoever they are from. -/
def textsTo (rounds : List Round) (member : Member) : List (List UInt8) :=
  ((rounds.flatMap Round.sent).filter fun send => send.member = member).map Send.text

/-- The lines of the messages that are for `member`. -/
def linesOf (messages : List Message) (member : Member) : List (List UInt8) :=
  (messages.filter fun m => m.addressed member).map Message.line

/-- Every round has sent every member on the list the lines for it of the messages found. -/
structure UpToDate (s : Dispatch) : Prop where
  inv : DispatchInv s
  running : s.crashed = false
  deliverable : ∀ m ∈ s.pending, m.Deliverable
  delivered : ∀ round ∈ s.rounds, ∀ member ∈ round.members,
    textsTo [round] member = linesOf round.found member

variable {s s' : Dispatch}

/-- A round of messages that can be delivered does not stop the process. -/
theorem running_round (h : DispatchInv s) (hrunning : s.crashed = false)
    (hdeliverable : ∀ m ∈ s.pending, m.Deliverable) (list : MemberList) :
    (s.round list).crashed = false := by
  set server : Server := ⟨s.messages, list.heap, [], false, false⟩ with hserver
  have hlisted : server.Listed list.addrs s.queued := ⟨list.listed, h.listed, rfl, rfl⟩
  have hok : ∃ server', sendToClient (s.queued.length + list.addrs.length + 1) (fun _ => false)
      server = .ok server' := by
    cases hqueued : s.queued with
    | nil => exact ⟨server, sendToClient_nil (hqueued ▸ hlisted) (by omega) _⟩
    | cons a rest =>
        obtain ⟨node, hnode⟩ := h.listed.live (by simp [hqueued] : a ∈ s.queued)
        have hm : s.messages.valueAt a = some node.value := by simp [valueAt, hnode]
        have hpending : node.value ∈ s.pending := by
          rw [← List.mem_reverse, ← h.values, hqueued, values_cons hnode]
          exact List.mem_cons_self
        have hnone : ¬ SomeFail (fun _ => false) node.value.addressed
            (server.members.values list.addrs) := fun hsome => by simp [SomeFail] at hsome
        obtain ⟨messages, hround, -⟩ := sendToClient_eq hlisted
          (by omega : list.addrs.length < (a :: rest).length + list.addrs.length + 1)
          (by rw [hqueued]; omega) hqueued hm (hdeliverable _ hpending) hnone
        exact ⟨_, hround⟩
  obtain ⟨server', hround⟩ := hok
  rw [hserver] at hround
  simp only [Dispatch.round, hround]
  exact hrunning

/-- What a round with at most one message sends to a member. -/
theorem texts_roundSends {pending : List Message} (hone : pending.length ≤ 1)
    (hdeliverable : ∀ m ∈ pending, m.Deliverable) {list : List Member} (hdistinct : list.Nodup)
    {member : Member} (hmember : member ∈ list) :
    textsTo [⟨list, pending, roundSends pending list⟩] member = linesOf pending member := by
  rw [textsTo, List.flatMap_singleton]
  cases pending with
  | nil => rfl
  | cons m rest =>
      obtain rfl : rest = [] := List.length_eq_zero_iff.mp (by simpa using hone)
      have hm : m.Deliverable := hdeliverable m List.mem_cons_self
      have hround := @textsFor_roundSends [m] list hdistinct member hmember m.thread m rfl
      have hthread : ∀ send ∈ roundSends [m] list, send.thread = m.thread := by
        intro send hsend
        have hsend' : send ∈ sendsOf m.thread m.line (list.filter m.addressed) := by
          simpa [roundSends, hm] using hsend
        obtain ⟨temp, -, rfl⟩ := List.mem_map.mp hsend'
        rfl
      have hfilter : ((roundSends [m] list).filter fun send => send.member = member) =
          (roundSends [m] list).filter fun send =>
            send.thread = m.thread ∧ send.member = member :=
        List.filter_congr fun send hsend => by simp [hthread send hsend]
      rw [textsFor] at hround
      rw [hfilter, hround]
      by_cases haddressed : m.addressed member <;> simp [linesOf, haddressed, hm]

theorem upToDate_start : UpToDate Dispatch.start where
  inv := ⟨represents_nil rfl, rfl⟩
  running := rfl
  deliverable _ hm := absurd hm List.not_mem_nil
  delivered _ hround := absurd hround List.not_mem_nil

theorem upToDate_step {a : DispatchAction} (h : UpToDate s) (hkeeps : KeepsUp s a)
    (hstep : s.step a = some s') : UpToDate s' := by
  cases a with
  | enqueue client recvMessage a =>
      obtain ⟨⟨-, hdead⟩, henqueue⟩ : (¬ s.crashed ∧ s.messages.cell a = none) ∧
          s.enqueue (newMessage client recvMessage) a = some s' := by
        simp only [Dispatch.step] at hstep
        split_ifs at hstep with henabled
        exact ⟨henabled, hstep⟩
      obtain ⟨hinv, hpending, hrounds, hcrashed⟩ := dispatchInv_enqueue h.inv hdead henqueue
      refine ⟨hinv, hcrashed.trans h.running, fun m hm => ?_, hrounds ▸ h.delivered⟩
      rw [hpending] at hm
      rcases List.mem_append.mp hm with hm | hm
      · exact h.deliverable m hm
      · exact List.mem_singleton.mp hm ▸ hkeeps
  | round list =>
      obtain ⟨-, rfl⟩ := Option.ite_some_none_eq_some.mp hstep
      obtain ⟨hpending, hrounds, hinv⟩ := round_spec h.inv list
      have hrunning := running_round h.inv h.running h.deliverable list
      refine ⟨hinv hrunning, hrunning, ?_, fun round hround => ?_⟩
      · rw [hpending]
        exact fun m hm => absurd hm List.not_mem_nil
      · rw [hrounds] at hround
        rcases List.mem_append.mp hround with hround | hround
        · exact h.delivered round hround
        · obtain rfl := List.mem_singleton.mp hround
          intro member hmember
          exact texts_roundSends hkeeps h.deliverable (list.distinct.of_map _) hmember

/-- **A run in which the dispatcher keeps up** serves every member in every round. -/
theorem upToDate_run {actions : List DispatchAction} (h : UpToDate s)
    (hkeeps : dispatchSystem.StepsMeet KeepsUp s actions)
    (hrun : dispatchSystem.run s actions = some s') : UpToDate s' := by
  induction actions generalizing s with
  | nil =>
      obtain rfl : s = s' := Option.some.inj hrun
      exact h
  | cons a rest ih =>
      obtain ⟨middle, hstep, hrest⟩ := TransitionSystem.run_cons.mp hrun
      exact ih (upToDate_step h hkeeps.1 hstep) (hkeeps.2 middle hstep) hrest

/-- In rounds with a member on the list it is sent the lines for it. -/
theorem UpToDate.textsTo_eq (h : UpToDate s) {stretch : List Round}
    (hstretch : stretch <:+: s.rounds) {member : Member}
    (hlisted : ∀ round ∈ stretch, member ∈ round.members) :
    textsTo stretch member = linesOf (stretch.flatMap Round.found) member := by
  have htexts : ∀ rounds : List Round, textsTo rounds member =
      rounds.flatMap fun round => textsTo [round] member := by
    intro rounds
    simp [textsTo, List.filter_flatMap, List.map_flatMap]
  rw [htexts, linesOf, List.filter_flatMap, List.map_flatMap]
  apply List.flatMap_congr
  intro round hround
  exact h.delivered round (hstretch.subset hround) member (hlisted round hround)

/-! ## A user who talks -/

def TypedLine.text (line : TypedLine) : List UInt8 := line.val

/-- A user's lines, the nickname and the group first, and what the user's session meets. -/
structure Speaker where
  nick : TypedLine
  group : TypedLine
  lines : List TypedLine
  env : Surroundings
  fd : ℕ
  connection : ℕ

namespace Speaker

/-- The session, when all frames of the client have come in one by one. -/
def session (u : Speaker) : Session :=
  recvFromClient u.env (((clientTexts (u.nick :: u.group :: u.lines)).map frame).map .bytes)

/-- The member of a session that runs as `thread`. -/
def member (u : Speaker) (thread : ℕ) : Member :=
  ⟨u.fd, thread, u.session.name, u.session.group, u.connection⟩

/-- What the user says: the lines before the `Bye`. -/
def said (u : Speaker) : List (List UInt8) :=
  (u.lines.map TypedLine.text).takeWhile fun line => !isBye line

/-- The lines fit the buffer, the first two are no `Bye`, and the session logs in. -/
structure Speaks (u : Speaker) : Prop where
  short : ∀ line ∈ u.nick :: u.group :: u.lines, line.text.length + 1 < shortMess
  nickStays : ¬ isBye u.nick.text
  groupStays : ¬ isBye u.group.text
  greets : u.env.Greets
  showsRoster : u.env.ShowsRoster
  logsIn : u.env.LogsIn u.nick.text u.group.text

end Speaker

/-- Short lines go out as they are typed. -/
theorem clientLoop_short {lines : List TypedLine}
    (hshort : ∀ line ∈ lines, line.text.length + 1 < shortMess) {fuel : ℕ}
    (hfuel : (typed lines).length ≤ fuel) :
    clientLoop fuel (typed lines) = throughBye (lines.map TypedLine.text) := by
  induction lines generalizing fuel with
  | nil => cases fuel <;> rfl
  | cons line rest ih =>
      have htyped : typed (line :: rest) = line.text ++ newline :: typed rest := by
        have hcons := typed_cons line rest []
        rwa [List.append_nil, List.append_nil] at hcons
      have hlength := congrArg List.length htyped
      rw [List.length_append, List.length_cons] at hlength
      obtain ⟨fuel, rfl⟩ := Nat.exists_eq_succ_of_ne_zero (by omega : fuel ≠ 0)
      have hne : typed (line :: rest) ≠ [] := List.ne_nil_of_length_pos (by omega)
      have hline := @fgets_line line.text (typed rest) shortMess line.property.1
        (hshort line List.mem_cons_self)
      have hzero : 0 ∉ line.text ++ [newline] := zero_notMem_line line.property.2
      have hstring : cString (line.text ++ [newline]) = line.text ++ [newline] := by
        simpa using cString_append_zeros hzero 0
      rw [clientLoop, if_neg hne, htyped, hline]
      simp only [hstring, List.dropLast_concat]
      have hrest : ∀ other ∈ rest, other.text.length + 1 < shortMess := fun other hother =>
        hshort other (List.mem_cons_of_mem line hother)
      rw [List.map_cons, throughBye, ih hrest (by omega)]

theorem takeWhile_throughBye (lines : List (List UInt8)) :
    (throughBye lines).takeWhile (fun line => !isBye line) =
      lines.takeWhile fun line => !isBye line := by
  induction lines with
  | nil => rfl
  | cons line rest ih => by_cases hbye : isBye line <;> simp [throughBye, hbye, ih]

/-- **A session that logs in** records the nickname and the group, and queues what the user says. -/
theorem Speaker.Speaks.record {u : Speaker} (h : u.Speaks) :
    u.session.record = (u.nick.text, u.group.text, u.said) := by
  have htexts : clientTexts (u.nick :: u.group :: u.lines) =
      u.nick.text :: u.group.text :: throughBye (u.lines.map TypedLine.text) := by
    rw [clientTexts, clientLoop_short h.short (Nat.le_refl _), List.map_cons, List.map_cons,
      throughBye, throughBye, if_neg h.nickStays, if_neg h.groupStays]
  have hsendable : ∀ text ∈ clientTexts (u.nick :: u.group :: u.lines), ClientText text :=
    fun _ => clientText_of_mem
  rw [htexts] at hsendable
  have hnick : recvText (frame u.nick.text) = u.nick.text := recvText_frame (hsendable _ (by simp))
  have hgroup : recvText (frame u.group.text) = u.group.text :=
    recvText_frame (hsendable _ (by simp))
  have hlogin : u.env.LogsIn (recvText (frame u.nick.text)) (recvText (frame u.group.text)) := by
    rw [hnick, hgroup]
    exact h.logsIn
  have hcollected := collected_frames fun text (hmem : text ∈ throughBye _) =>
    hsendable text (List.mem_cons_of_mem _ (List.mem_cons_of_mem _ hmem))
  rw [Speaker.session, htexts, List.map_cons, List.map_cons (f := frame), record_eq,
    if_neg (not_not.mpr h.greets), if_neg (not_not.mpr h.showsRoster),
    if_neg (not_not.mpr hlogin), hnick, hgroup, hcollected, takeWhile_throughBye]
  rfl

/-! ## All together -/

/-- What is delivered of a text is a part of it. -/
theorem subset_of_route {message rest : List UInt8} {target : Target}
    (h : route message = some (target, rest)) : rest ⊆ message := by
  have hstrtok : ∀ s token tail, strtok space s = some (token, tail) → tail ⊆ s := by
    intro s token tail htoken
    obtain ⟨n, rfl, -⟩ := strtok_eq_some_iff.mp htoken
    exact List.subset_append_right _ _
  unfold route at h
  dsimp only at h
  split_ifs at h with hcommand
  · obtain ⟨-, rfl⟩ := Prod.mk.inj (Option.some.inj h)
    exact List.Subset.refl _
  · cases hsecond : (strtok space message).bind fun token => strtok space (token.2.drop 1) with
    | none =>
        rw [hsecond] at h
        cases h
    | some second =>
        obtain ⟨first, hfirst, htail⟩ := Option.bind_eq_some_iff.mp hsecond
        simp only [hsecond] at h
        split_ifs at h
        obtain ⟨-, rfl⟩ := Prod.mk.inj (Option.some.inj h)
        intro c hc
        have hafter := hstrtok _ _ _ htail (List.mem_of_mem_drop hc)
        exact hstrtok _ _ _ hfirst (List.mem_of_mem_drop hafter)

/-- A line that is delivered is a text for a frame. -/
theorem clientText_line {m : Message} (hdeliverable : m.Deliverable) (hname : 0 ∉ m.fromName)
    (htext : 0 ∉ m.message) : ClientText m.line := by
  obtain ⟨hroute, hfits⟩ := hdeliverable
  obtain ⟨⟨target, rest⟩, hrouted⟩ := Option.isSome_iff_exists.mp hroute
  have hrest : 0 ∉ rest := fun hzero => htext (subset_of_route hrouted hzero)
  refine ⟨?_, hfits⟩
  simp only [Message.line, hrouted, Option.elim_some, nameSendMessage, List.mem_append, not_or]
  exact ⟨⟨⟨hname, by decide⟩, hrest⟩, by decide⟩

theorem deliverable_of_keepsUp {actions : List DispatchAction}
    (hkeeps : dispatchSystem.StepsMeet KeepsUp s actions)
    (hrun : dispatchSystem.run s actions = some s') :
    ∀ m ∈ queuedIn actions, m.Deliverable := by
  induction actions generalizing s with
  | nil => exact fun m hm => absurd hm List.not_mem_nil
  | cons a rest ih =>
      obtain ⟨middle, hstep, hrest⟩ := TransitionSystem.run_cons.mp hrun
      have hlater := ih (hkeeps.2 middle hstep) hrest
      intro m hm
      cases a with
      | enqueue client recvMessage a =>
          rcases List.mem_cons.mp hm with rfl | hm
          · exact hkeeps.1
          · exact hlater m hm
      | round list => exact hlater m hm

/-- The sessions of the speakers, and nobody else, queue these messages: each session what it has
heard, in order. -/
def QueuedBy (speakers : List Speaker) (messages : List Message) : Prop :=
  ∀ t, (messages.filter fun m => m.thread = t) =
    (speakers[t]?).elim [] fun u => u.session.queued.map (newMessage (u.member t))

/-- The messages of a speaker. -/
theorem QueuedBy.filter_eq {speakers : List Speaker} {messages : List Message}
    (h : QueuedBy speakers messages) {t : ℕ} {u : Speaker} (hu : speakers[t]? = some u)
    (hspeaks : u.Speaks) : (messages.filter fun m => m.thread = t) =
      u.said.map fun text => ⟨t, u.nick.text, text, u.group.text⟩ := by
  obtain ⟨hname, hrecord⟩ := Prod.mk.inj hspeaks.record
  obtain ⟨hgroup, hqueued⟩ := Prod.mk.inj hrecord
  rw [h t, hu, Option.elim_some, hqueued]
  apply List.map_congr_left
  intro text _
  rw [newMessage, Speaker.member, hname, hgroup]

/-- Every message is from a speaker, who said it. -/
theorem QueuedBy.exists_speaker {speakers : List Speaker} {messages : List Message}
    (h : QueuedBy speakers messages) (hspeaks : ∀ u ∈ speakers, u.Speaks) {m : Message}
    (hm : m ∈ messages) : ∃ u, speakers[m.thread]? = some u ∧ m.message ∈ u.said ∧
      m.fromName = u.nick.text ∧ m.senderGroup = u.group.text := by
  have hmem : m ∈ messages.filter fun other => other.thread = m.thread :=
    List.mem_filter.mpr ⟨hm, by simp⟩
  cases hu : speakers[m.thread]? with
  | none =>
      rw [h m.thread, hu] at hmem
      exact absurd hmem List.not_mem_nil
  | some u =>
      rw [h.filter_eq hu (hspeaks u (List.mem_of_getElem? hu))] at hmem
      obtain ⟨text, htext, heq⟩ := List.mem_map.mp hmem
      exact ⟨u, rfl, by rw [← heq]; exact htext, by rw [← heq], by rw [← heq]⟩

theorem Speaker.zero_notMem_said (u : Speaker) : ∀ text ∈ u.said, 0 ∉ text := by
  intro text htext
  obtain ⟨line, -, rfl⟩ := List.mem_map.mp (List.takeWhile_subset _ htext)
  exact line.property.2

/-- What a member is sent: the dispatcher's lines, and between them what the sessions send
themselves, such as the notices of a login. -/
inductive StreamText
  | line (text : List UInt8)
  | notice (text : List UInt8)

def StreamText.text : StreamText → List UInt8
  | .line text => text
  | .notice text => text

/-- The dispatcher's part of a stream. -/
def linesIn : List StreamText → List (List UInt8)
  | [] => []
  | .line text :: rest => text :: linesIn rest
  | .notice _ :: rest => linesIn rest

theorem mem_linesIn {stream : List StreamText} {text : List UInt8} :
    text ∈ linesIn stream ↔ .line text ∈ stream := by
  induction stream with
  | nil => simp [linesIn]
  | cons first rest ih => cases first <;> simp [linesIn, ih]

namespace OneSpeaker

def annText : TypedLine := ⟨lit "ann", by decide⟩

def blueText : TypedLine := ⟨lit "blue", by decide⟩

def hiText : TypedLine := ⟨lit "hi", by decide⟩

def byeText : TypedLine := ⟨lit "Bye!", by decide⟩

/-- Ann says one thing and leaves. -/
def ann : Speaker := ⟨annText, blueText, [hiText, byeText], .quiet, 4, 0⟩

def bob : Member := ⟨5, 1, lit "bob", lit "blue", 1⟩

/-- Bob alone is on the list. -/
def room : MemberList where
  heap := ⟨fun a => if a = 1 then some ⟨bob, none, none⟩ else none, some 1⟩
  addrs := [1]
  listed := by decide
  distinct := by decide

def actions : List DispatchAction :=
  [.round .empty, .enqueue (ann.member 0) (lit "hi") 8, .round room]

/-- Bob has also been told that the session began. -/
def stream : List StreamText := [.notice (lit "welcome\n"), .line (lit "ann : hi\n")]

/-- The stream to Bob, cut in the middle of the line. -/
def pieces : List (List UInt8) :=
  [frame (lit "welcome\n"), lit "ann : ", (frame (lit "ann : hi\n")).drop 6]

theorem ann_speaks : ann.Speaks where
  short := by decide
  nickStays := by decide
  groupStays := by decide
  greets := by decide
  showsRoster := by decide
  logsIn := by decide

theorem queuedBy_ann : QueuedBy [ann] (queuedIn actions) := by
  intro t
  cases t with
  | zero => decide +kernel
  | succ t => simp [queuedIn, actions, newMessage, Speaker.member]

end OneSpeaker

end NetworkHomework.Chat
