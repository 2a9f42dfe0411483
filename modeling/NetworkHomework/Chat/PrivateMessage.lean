import NetworkHomework.Chat.Broadcast

/-!
# Private messages

`"/W target text"` goes to the members whose group or name is `target`, any other text
to the group of its sender.  The specification speaks of the text as a whole: behind the
command come spaces, a run of other characters and a space, and what is left is
delivered.  `strtok`, the pointer moved past its token and the zeroed rest of the buffer
give the same.

Two things are not looked at.  Behind the command there may be nothing but spaces, and
then the second `strtok` returns `NULL`; or the target may reach the last byte of the
copy, and then the pointer is moved behind it.  And the line that is sent holds the
name of the sender as well as the text, in a buffer of the size of the text alone.
-/

namespace NetworkHomework.Chat

open LinkedHeap CString

/-- The command. -/
abbrev command : List UInt8 := lit "/W "

/-- The first maximal run of characters that are not spaces, and what comes behind the single
character that ends it, if anything does. -/
def FirstRun (s target text : List UInt8) : Prop :=
  ∃ spaces tail, s = List.replicate spaces space ++ target ++ tail ∧ target ≠ [] ∧
    space ∉ target ∧ (tail = [] ∧ text = [] ∨ tail = space :: text)

/-! ## Where the text pointer goes -/

/-- The token that the second `strtok` returns, and the copy from the character that ends it. -/
def secondToken (message : List UInt8) : Option (List UInt8 × List UInt8) :=
  (strtok space message).bind fun token => strtok space (token.2.drop 1)

/-- The offset of `pch` in the copy after `pch += strlen(pch) + 1`. -/
def textOffset (message : List UInt8) : Option ℕ :=
  (secondToken message).map fun token => message.length - token.2.length + 1

/-- The second token is not `NULL` where it is used, and the pointer stays within the copy. -/
def RoutesSafely (message : List UInt8) : Prop :=
  strncmp message command 3 = 0 → ∃ offset, textOffset message = some offset ∧ offset < shortMess

variable {message : List UInt8}

theorem strtok_command (after : List UInt8) :
    strtok space (command ++ after) = some (lit "/W", space :: after) :=
  strtok_eq_some_iff.mpr ⟨0, rfl, by decide, by decide, .inr rfl⟩

theorem secondToken_command (after : List UInt8) :
    secondToken (command ++ after) = strtok space after := by
  rw [secondToken, strtok_command]
  rfl

theorem strncmp_command_iff (hnul : 0 ∉ message) :
    strncmp message command 3 = 0 ↔ command <+: message := by
  rw [strncmp_eq_zero_iff hnul (by decide)]
  exact ⟨fun h => ⟨message.drop 3, by
    rw [show command = command.take 3 from rfl, ← h, List.take_append_drop]⟩,
    fun ⟨after, h⟩ => by rw [← h]; rfl⟩

/-- Spaces alone are no target. -/
theorem secondToken_eq_none_iff (after : List UInt8) :
    secondToken (command ++ after) = none ↔ ∀ c ∈ after, c = space := by
  rw [secondToken_command, strtok_eq_none_iff]

theorem secondToken_eq_some_iff {after target tail : List UInt8} :
    secondToken (command ++ after) = some (target, tail) ↔
      ∃ spaces, after = List.replicate spaces space ++ target ++ tail ∧ target ≠ [] ∧
        space ∉ target ∧ (tail = [] ∨ tail.head? = some space) := by
  rw [secondToken_command, strtok_eq_some_iff]

/-- The dispatcher goes on behind its parser exactly if it used no `NULL` and no pointer past the
end. -/
theorem route_isSome_iff (hlen : message.length < shortMess) :
    (route message).isSome ↔ RoutesSafely message := by
  unfold route RoutesSafely textOffset secondToken
  dsimp only
  split_ifs with hcommand
  · simp [hcommand]
  · have hcommand' := not_not.mp hcommand
    cases htoken : (strtok space message).bind fun token => strtok space (token.2.drop 1) with
    | none => simp [hcommand']
    | some token =>
        obtain ⟨target, rest⟩ := token
        simp only [hcommand', Option.map_some, Option.some.injEq, exists_eq_left', forall_const]
        cases rest with
        | nil =>
            simp only [List.length_nil, true_and]
            split_ifs with hfull <;> simp <;> omega
        | cons c rest =>
            simp only [List.length_cons, reduceCtorEq, false_and, if_false, Option.isSome_some]
            have hsize : shortMess = 512 := rfl
            exact iff_of_true trivial (by omega)

/-- The copy has a space behind the run exactly if the token does not end it. -/
theorem space_mem_dropWhile_iff {spaces : ℕ} {target tail : List UInt8} (hne : target ≠ [])
    (hrun : space ∉ target) (htail : tail = [] ∨ tail.head? = some space) :
    space ∈ (List.replicate spaces space ++ target ++ tail).dropWhile (· = space) ↔
      tail ≠ [] := by
  have hskip : (List.replicate spaces space ++ target ++ tail).dropWhile (· = space) =
      target ++ tail := by
    rw [List.append_assoc, List.dropWhile_append_of_pos (by simp [List.mem_replicate])]
    cases target with
    | nil => exact absurd rfl hne
    | cons c target =>
        have hc : c ≠ space := fun h => hrun (h ▸ List.mem_cons_self ..)
        simp [hc]
  rw [hskip, List.mem_append]
  constructor
  · rintro (h | h)
    · exact absurd h hrun
    · exact List.ne_nil_of_mem h
  · intro h
    exact .inr (List.mem_of_head? (htail.resolve_left h))

/-- **The parser of the dispatcher** stays within its copy exactly if behind the command there is a
target, and in a text that fills the copy a space behind it. -/
theorem routesSafely_iff (hnul : 0 ∉ message) (hlen : message.length < shortMess) :
    ((route message).isSome ↔ RoutesSafely message) ∧
      (RoutesSafely message ↔ (command <+: message → (∃ c ∈ message.drop 3, c ≠ space) ∧
        (message.length + 1 = shortMess →
          space ∈ (message.drop 3).dropWhile (· = space)))) := by
  refine ⟨route_isSome_iff hlen, ?_⟩
  rw [RoutesSafely, strncmp_command_iff hnul]
  refine forall_congr' fun hcommand => ?_
  obtain ⟨after, rfl⟩ := hcommand
  have hdrop : (command ++ after).drop 3 = after := rfl
  rw [hdrop, textOffset]
  cases htoken : secondToken (command ++ after) with
  | none =>
      have hspaces := (secondToken_eq_none_iff after).mp htoken
      refine iff_of_false (by simp) ?_
      rintro ⟨⟨c, hc, hne⟩, -⟩
      exact hne (hspaces c hc)
  | some token =>
      obtain ⟨target, tail⟩ := token
      obtain ⟨spaces, hafter, hne, hrun, htail⟩ := secondToken_eq_some_iff.mp htoken
      have hsome : ∃ c ∈ after, c ≠ space := by
        obtain ⟨c, rest, rfl⟩ := List.exists_cons_of_ne_nil hne
        refine ⟨c, by simp [hafter], fun h => hrun (h ▸ List.mem_cons_self ..)⟩
      have hspace := @space_mem_dropWhile_iff spaces _ _ hne hrun htail
      rw [← hafter] at hspace
      have hle : tail.length ≤ (command ++ after).length := by
        rw [List.length_append, hafter, List.length_append]
        omega
      generalize (command ++ after).length = length at hlen hle ⊢
      have hsize : shortMess = 512 := rfl
      simp only [Option.map_some, Option.some.injEq, exists_eq_left', hsome, true_and, hspace]
      cases tail with
      | nil =>
          simp only [List.length_nil, ne_eq, not_true_eq_false, imp_false]
          omega
      | cons c tail =>
          rw [List.length_cons] at hle ⊢
          exact iff_of_true (by omega) fun _ => List.cons_ne_nil _ _

/-- A target with a text. -/
theorem routesSafely_bob : RoutesSafely (lit "/W bob hi") :=
  ((routesSafely_iff (by decide) (by decide)).2).mpr fun _ => by decide

/-- The command alone. -/
theorem not_routesSafely : ¬ ∀ message : List UInt8, 0 ∉ message → message.length < shortMess →
    RoutesSafely message := by
  intro h
  obtain ⟨offset, hoffset, -⟩ := h command (by decide) (by decide) (by decide)
  exact absurd hoffset (by simp [show textOffset command = none by decide])

/-! ## What is delivered, and to whom -/

/-- Any other text goes to the group as it is; behind the command, the first run is the target and
what follows it is the text. -/
def RoutesAsSpecified (message : List UInt8) : Prop :=
  (¬ command <+: message → route message = some (.localGroup, message)) ∧
    (command <+: message → (∃ c ∈ message.drop 3, c ≠ space) → ∃ target text,
      FirstRun (message.drop 3) target text ∧ route message = some (.nameOrGroup target, text))

theorem routesAsSpecified (hnul : 0 ∉ message) (hlen : message.length + 1 < shortMess) :
    RoutesAsSpecified message := by
  constructor
  · intro hcommand
    rw [← strncmp_command_iff hnul] at hcommand
    rw [route, if_pos hcommand]
  · rintro ⟨after, rfl⟩ ⟨c, hc, hne⟩
    have hdrop : (command ++ after).drop 3 = after := rfl
    rw [hdrop] at hc
    cases htoken : secondToken (command ++ after) with
    | none => exact absurd ((secondToken_eq_none_iff after).mp htoken c hc) hne
    | some token =>
        obtain ⟨target, tail⟩ := token
        obtain ⟨spaces, hafter, htarget, hrun, htail⟩ := secondToken_eq_some_iff.mp htoken
        refine ⟨target, tail.drop 1, ⟨spaces, tail, hafter, htarget, hrun, ?_⟩, ?_⟩
        · cases tail with
          | nil => exact .inl ⟨rfl, rfl⟩
          | cons d tail =>
              have hd : d = space := by simpa using htail
              exact .inr (by rw [hd]; rfl)
        · have hcommand : strncmp (command ++ after) command 3 = 0 :=
            (strncmp_command_iff hnul).mpr ⟨after, rfl⟩
          rw [secondToken] at htoken
          rw [route, if_neg (not_not.mpr hcommand)]
          simp only [htoken]
          rw [if_neg fun h => absurd h.2 (by omega)]

/-- What follows a run does not depend on how it is found. -/
theorem FirstRun.unique {after target target' text text' : List UInt8}
    (h : FirstRun after target text) (h' : FirstRun after target' text') :
    target = target' ∧ text = text' := by
  have hstrtok : ∀ {target text : List UInt8}, FirstRun after target text →
      ∃ tail, strtok space after = some (target, tail) ∧ text = tail.drop 1 := by
    rintro target text ⟨spaces, tail, hafter, hne, hrun, htail⟩
    refine ⟨tail, strtok_eq_some_iff.mpr ⟨spaces, hafter, hne, hrun, ?_⟩, ?_⟩
    · rcases htail with ⟨rfl, -⟩ | rfl
      · exact .inl rfl
      · exact .inr rfl
    · rcases htail with ⟨rfl, rfl⟩ | rfl <;> rfl
  obtain ⟨tail, htoken, rfl⟩ := hstrtok h
  obtain ⟨tail', htoken', rfl⟩ := hstrtok h'
  obtain ⟨rfl, rfl⟩ := Prod.mk.inj (Option.some.inj (htoken.symm.trans htoken'))
  exact ⟨rfl, rfl⟩

section Sends

variable (fuel : ℕ) (fails : Member → Bool) (m : Message) (s : Server) (members : List ℕ)

/-- The text is handed to `send` once for every member concerned, in the order of the list, and for
no other; the first `send` that fails ends the process. -/
def Delivers (concerned : Member → Bool) (text : List UInt8) : Prop :=
  let targets := (s.members.values members).filter concerned
  let line := m.fromName ++ lit " : " ++ text ++ lit "\n"
  sendMessage fuel fails m s =
    if ∃ temp ∈ targets, fails temp then
      .error (.exit { s with
        sent := s.sent ++ sendsOf m.thread line (targets.takeWhile fun temp => !fails temp)
        memberMutex := true })
    else .ok { s with sent := s.sent ++ sendsOf m.thread line targets, memberMutex := false }

/-- The text goes to the group of the sender, or behind the command to the members whose group or
name is the target. -/
def SendsAsSpecified : Prop :=
  (¬ command <+: m.message →
      Delivers fuel fails m s members (fun temp => temp.group = m.senderGroup) m.message) ∧
    ∀ target text, command <+: m.message → FirstRun (m.message.drop 3) target text →
      Delivers fuel fails m s members (fun temp => temp.group = target ∨ temp.name = target) text

/-- The line has room for the name of the sender, `" : "`, the text and the newline. -/
def LineFits : Prop :=
  (¬ command <+: m.message → m.fromName.length + m.message.length + 4 < shortMess) ∧
    ∀ target text, command <+: m.message → FirstRun (m.message.drop 3) target text →
      m.fromName.length + text.length + 4 < shortMess

variable {fuel fails m s members}

/-- A routed text is delivered exactly if its line fits. -/
theorem delivers_iff (hmembers : s.members.Represents members) (hfuel : members.length < fuel)
    {target : Target} {text : List UInt8} (hroute : route m.message = some (target, text))
    {concerned : Member → Bool} (hconcerned : ∀ temp ∈ s.members.values members,
      target.addresses m.senderGroup temp = concerned temp) :
    Delivers fuel fails m s members concerned text ↔
      m.fromName.length + text.length + 4 < shortMess := by
  rw [← length_nameSendMessage]
  unfold Delivers
  dsimp only
  by_cases hfits : (nameSendMessage m text).length < shortMess
  · have hdeliverable : m.Deliverable := by
      refine ⟨by rw [hroute]; rfl, ?_⟩
      rwa [Message.line, hroute]
    have hline : m.line = nameSendMessage m text := by rw [Message.line, hroute]; rfl
    have htargets : (s.members.values members).filter concerned =
        (s.members.values members).filter m.addressed := by
      apply List.filter_congr
      intro temp htemp
      rw [← hconcerned temp htemp, Message.addressed, hroute]
      rfl
    have hsome : (∃ temp ∈ (s.members.values members).filter m.addressed, fails temp) ↔
        SomeFail fails m.addressed (s.members.values members) := by
      simp only [List.mem_filter, SomeFail, and_assoc]
    refine iff_of_true ?_ hfits
    rw [sendMessage_eq hdeliverable, lockedLoop_eq hmembers hfuel, htargets, hline]
    simp only [hsome]
    split_ifs with hfail
    · rfl
    · rw [reached_of_not_someFail hfail]
      rfl
  · refine iff_of_false ?_ hfits
    have hnot : ¬ m.Deliverable := by
      rintro ⟨-, hline⟩
      rw [Message.line, hroute] at hline
      exact hfits hline
    rw [sendMessage_of_not_deliverable hnot]
    split_ifs <;> simp

/-- **Private messages.**  A text of up to 510 characters is routed as specified, and sent once to
each member concerned and to no one else exactly if its line fits the buffer. -/
theorem privateMessage_iff (hnul : 0 ∉ m.message) (hlen : m.message.length ≤ 510)
    (hgroup : 0 ∉ m.senderGroup)
    (hmembers : s.members.Represents members) (hfuel : members.length < fuel)
    (hnames : ∀ temp ∈ s.members.values members, 0 ∉ temp.name ∧ 0 ∉ temp.group) :
    RoutesAsSpecified m.message ∧ (SendsAsSpecified fuel fails m s members ↔ LineFits m) := by
  have hroutes := routesAsSpecified hnul (Nat.lt_of_le_of_lt (Nat.succ_le_succ hlen) (by decide))
  refine ⟨hroutes, ?_⟩
  unfold SendsAsSpecified LineFits
  refine and_congr (forall_congr' fun hcommand => ?_) (forall_congr' fun target =>
    forall_congr' fun text => forall_congr' fun hcommand => forall_congr' fun hrun => ?_)
  · refine delivers_iff hmembers hfuel (hroutes.1 hcommand) fun temp htemp => ?_
    simp only [Target.addresses, strcmp_eq_zero_iff hgroup (hnames temp htemp).2, eq_comm]
  · -- the specified run is the one that was found
    have hsome : ∃ c ∈ m.message.drop 3, c ≠ space := by
      obtain ⟨spaces, tail, hafter, hne, hnospace, -⟩ := hrun
      obtain ⟨c, rest, rfl⟩ := List.exists_cons_of_ne_nil hne
      exact ⟨c, by simp [hafter], fun h => hnospace (h ▸ List.mem_cons_self ..)⟩
    obtain ⟨target', text', hrun', hroute⟩ := hroutes.2 hcommand hsome
    obtain ⟨rfl, rfl⟩ := hrun.unique hrun'
    have htarget : 0 ∉ target := by
      obtain ⟨spaces, tail, hafter, -⟩ := hrun
      intro h
      have hmem : 0 ∈ m.message.drop 3 := by simp [hafter, h]
      exact hnul (List.mem_of_mem_drop hmem)
    refine delivers_iff hmembers hfuel hroute fun temp htemp => ?_
    obtain ⟨hname, hgroup'⟩ := hnames temp htemp
    simp only [Target.addresses, strcmp_eq_zero_iff hgroup' htarget,
      strcmp_eq_zero_iff hname htarget]

end Sends

theorem FirstRun.length_le {after target text : List UInt8} (h : FirstRun after target text) :
    text.length ≤ after.length := by
  obtain ⟨spaces, tail, rfl, -, -, ⟨rfl, rfl⟩ | rfl⟩ := h
  · simp
  · simp only [List.length_append, List.length_cons]
    omega

namespace OneMember

/-- Bob in the group "g". -/
def bob : Member := ⟨5, 1, lit "bob", lit "g", 0⟩

def room : Server :=
  ⟨⟨fun _ => none, none⟩, ⟨fun a => if a = 1 then some ⟨bob, none, none⟩ else none, some 1⟩, [],
    false, false⟩

theorem represents_room : room.members.Represents [1] := by decide

theorem values_room : room.members.values [1] = [bob] := rfl

def hello : Message := ⟨1, lit "bob", lit "/W bob hi", lit "g"⟩

/-- The longest text that Bob can type, for his own group. -/
def longText : Message := ⟨1, lit "bob", List.replicate 510 97, lit "g"⟩

theorem sendsAsSpecified_hello : SendsAsSpecified 2 (fun _ => false) hello room [1] := by
  refine (privateMessage_iff (by decide) (by decide) (by decide) represents_room (by decide)
    (by rw [values_room]; decide)).2.mpr ⟨fun _ => by decide, fun target text _ hrun => ?_⟩
  have hle : text.length ≤ 6 := hrun.length_le
  have hfrom : hello.fromName.length = 3 := rfl
  have hsize : shortMess = 512 := rfl
  omega

theorem not_sendsAsSpecified : ¬ ∀ (fuel : ℕ) (fails : Member → Bool) (m : Message) (s : Server)
    (members : List ℕ), 0 ∉ m.message → m.message.length ≤ 510 → 0 ∉ m.senderGroup →
      s.members.Represents members → members.length < fuel →
      (∀ temp ∈ s.members.values members, 0 ∉ temp.name ∧ 0 ∉ temp.group) →
        RoutesAsSpecified m.message ∧ SendsAsSpecified fuel fails m s members := by
  intro h
  have hnul : 0 ∉ longText.message := fun hmem =>
    absurd (List.eq_of_mem_replicate hmem) (by decide)
  have hlen : longText.message.length = 510 := List.length_replicate
  have hlocal : ¬ command <+: longText.message := by
    rintro ⟨after, hafter⟩
    have hhead : longText.message.head? = some 47 := by
      rw [← hafter]
      rfl
    exact absurd hhead (by decide)
  have hall := h 2 (fun _ => false) longText room [1] hnul hlen.le (by decide) represents_room
    (by decide) (by rw [values_room]; decide)
  have hroute := hall.1.1 hlocal
  have hfits := (delivers_iff represents_room (by decide) hroute fun temp htemp => by
    rw [values_room, List.mem_singleton] at htemp
    rw [htemp]
    decide).mp (hall.2.1 hlocal)
  rw [hlen] at hfits
  exact absurd hfits (by decide)

end OneMember

end NetworkHomework.Chat
