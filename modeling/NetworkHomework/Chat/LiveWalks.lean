import NetworkHomework.Chat.OwnDescriptors

/-!
# Walks over live members

A session walks over the member list three times: for the roster, which counts the
members before it takes `member_mutex`; for the login notice, which reads
`MemberListFirst` before it takes it; and for the exit notice, which takes no mutex at
all.  In each gap other sessions link, unlink and free their members.

Every node in memory belongs to a session that has not ended, so what a walk meets can
be said in terms of the other sessions: the roster needs a member on the list if it has
counted one, the login notice needs the list to start where it did, and the exit notice
needs the session of the node it stands at.
-/

namespace NetworkHomework.Chat

open LinkedHeap CString

/-! ## The sessions own the nodes -/

variable {v v' : Descriptors} {listed : List ℕ}

/-- A session with the node `a` has not ended. -/
def Held (sessions : List (ℕ × Phase)) (a : ℕ) : Prop :=
  ∃ (t : ℕ) (phase : Phase), sessions[t]? = some (a, phase) ∧ phase ≠ .gone

/-- Every node in memory has such a session. -/
def Covered (v : Descriptors) : Prop :=
  ∀ a m, v.members.valueAt a = some m → Held v.sessions a

theorem Held.set {sessions : List (ℕ × Phase)} {t a b : ℕ} {old phase : Phase}
    (h : Held sessions b) (hsession : sessions[t]? = some (a, old)) (hphase : phase ≠ .gone) :
    Held (sessions.set t (a, phase)) b := by
  obtain ⟨hself, hother⟩ := sessions_set hsession (a, phase)
  obtain ⟨u, q, hu, hq⟩ := h
  by_cases hut : u = t
  · subst hut
    obtain ⟨rfl, -⟩ := Prod.mk.inj (Option.some.inj (hsession.symm.trans hu))
    exact ⟨u, phase, hself, hphase⟩
  · exact ⟨u, q, (hother u hut).trans hu, hq⟩

/-- **Every change** keeps the nodes covered. -/
theorem Covered.change (hv : Owned v listed) (hcovered : Covered v) (h : v.Change v') :
    Covered v' := by
  cases h with
  | accept hclosed hnone => exact hcovered
  | @create fd a haccepted hdead =>
      intro b m hb
      by_cases hba : b = a
      · subst hba
        exact ⟨v.sessions.length, .unlinked, by simp, by simp⟩
      · have hold : v.members.valueAt b = some m := by
          simpa [valueAt, LinkedHeap.malloc, hba] using hb
        obtain ⟨t, phase, ht, hphase⟩ := hcovered b m hold
        obtain ⟨hlt, -⟩ := List.getElem?_eq_some_iff.mp ht
        exact ⟨t, phase, (List.getElem?_append_left hlt).trans ht, hphase⟩
  | @name t a node value hsession hnode hfd hconnection =>
      intro b m hb
      by_cases hba : b = a
      · subst hba
        exact ⟨t, .unlinked, hsession, by simp⟩
      · exact hcovered b m (by simpa [valueAt, hba] using hb)
  | @link t a members hsession hlink =>
      obtain ⟨-, -, hunlisted, -⟩ := hv.session t a _ hsession (by simp)
      obtain ⟨node, hnode, hprev, hnext⟩ := hv.unlinked t a hsession
      obtain ⟨members', hlink', -, hvalue⟩ := hv.represents.linkFirst
        (fun hmem => hunlisted.mp hmem rfl) hnode hprev fun _ => hnext
      obtain rfl : members' = members := Except.ok.inj (hlink'.symm.trans hlink)
      intro b m hb
      exact (hcovered b m (hvalue ▸ hb)).set hsession (by simp)
  | close hsession hclient =>
      intro b m hb
      exact (hcovered b m hb).set hsession (by simp)
  | @unlink t a members members' hsession hdislink hfree =>
      obtain ⟨fd, -, hmem, -⟩ := hv.session t a _ hsession (by simp)
      obtain ⟨before, after, rfl⟩ := List.append_of_mem (hmem.mpr (by simp))
      obtain ⟨linked, freed, hdislink', hfree', -, hdead, hvalue, -⟩ := hv.represents.dislink_free
      obtain rfl : linked = members := Except.ok.inj (hdislink'.symm.trans hdislink)
      obtain rfl : freed = members' := Except.ok.inj (hfree'.symm.trans hfree)
      intro b m hb
      have hba : b ≠ a := by
        rintro rfl
        simp [valueAt, hdead] at hb
      obtain ⟨u, phase, hu, hphase⟩ := hcovered b m ((hvalue b hba).symm.trans hb)
      have hut : u ≠ t := by
        rintro rfl
        exact hba (Prod.mk.inj (Option.some.inj (hu.symm.trans hsession))).1
      exact ⟨u, phase, ((sessions_set hsession _).2 u hut).trans hu, hphase⟩

/-- A node is in memory exactly as long as its session has not ended. -/
theorem Owned.live_iff (hv : Owned v listed) (hcovered : Covered v) {a : ℕ} :
    (v.members.cell a).isSome ↔ Held v.sessions a := by
  constructor
  · intro hlive
    obtain ⟨node, hnode⟩ := Option.isSome_iff_exists.mp hlive
    exact hcovered a node.value (by simp [valueAt, hnode])
  · rintro ⟨t, phase, ht, hphase⟩
    obtain ⟨fd, hstamp, -⟩ := hv.session t a phase ht hphase
    obtain ⟨m, hm, -⟩ := Option.map_eq_some_iff.mp hstamp
    obtain ⟨node, hnode, -⟩ := Option.map_eq_some_iff.mp hm
    simp [hnode]

/-- Two nodes hold two members. -/
theorem Owned.eq_of_valueAt (hv : Owned v listed) (hcovered : Covered v) {a b : ℕ} {m : Member}
    (ha : v.members.valueAt a = some m) (hb : v.members.valueAt b = some m) : a = b := by
  obtain ⟨t, p, ht, hp⟩ := hcovered a m ha
  obtain ⟨u, q, hu, hq⟩ := hcovered b m hb
  by_contra hne
  have hut : u ≠ t := by
    rintro rfl
    exact hne (Prod.mk.inj (Option.some.inj (ht.symm.trans hu))).1
  obtain ⟨fd, hstamp, -⟩ := hv.session t a p ht hp
  obtain ⟨fd', hstamp', -⟩ := hv.session u b q hu hq
  simp only [stamp, ha, hb, Option.map_some, Option.some.injEq, Prod.mk.injEq] at hstamp hstamp'
  exact hut (hstamp'.2.symm.trans hstamp.2)

variable {s : ChatServer}

theorem covered_of_reachable (h : chatServerSystem.Reachable s) :
    ∃ listed, Owned s.descriptors listed ∧ Covered s.descriptors := by
  apply h.invariant
  · rintro s rfl
    refine ⟨[], owned_start, fun a m ha => ?_⟩
    simp [ChatServer.start, ChatServer.descriptors, valueAt] at ha
  · rintro s a s' ⟨listed, hv, hcovered⟩ - hstep
    rcases change_step hstep with heq | hchange
    · exact ⟨listed, heq ▸ hv, heq ▸ hcovered⟩
    · obtain ⟨listed', hv'⟩ := hv.change hchange
      exact ⟨listed', hv', hcovered.change hv hchange⟩

theorem held_iff_thread {a : ℕ} : Held s.descriptors.sessions a ↔
    ∃ other ∈ s.threads, other.client = a ∧ other.pc ≠ .returned := by
  have hgone : ∀ pc : ThreadPc, pc.phase = .gone ↔ pc = .returned := by
    intro pc
    cases pc <;> simp [ThreadPc.phase]
  constructor
  · rintro ⟨t, phase, ht, hphase⟩
    simp only [ChatServer.descriptors, List.getElem?_map, Option.map_eq_some_iff] at ht
    obtain ⟨other, hother, heq⟩ := ht
    obtain ⟨rfl, rfl⟩ := Prod.mk.inj heq
    exact ⟨other, List.mem_of_getElem? hother, rfl, mt (hgone _).mpr hphase⟩
  · rintro ⟨other, hmem, rfl, hreturned⟩
    obtain ⟨t, ht⟩ := List.mem_iff_getElem?.mp hmem
    exact ⟨t, _, sessions_of_thread ht, mt (hgone _).mp hreturned⟩

/-! ## The walks -/

/-- The login notice that starts at `temp` does what one over the listed members does: it sends to
all of them, or exits at the first whose send fails. -/
def NoticeReaches (s : Server) (listed : List ℕ) (temp : Option ℕ) : Prop :=
  ∀ fails client text, ∃ fuel, loginNotice fuel fails client text temp s =
    let targets := s.members.values listed
    let sent := s.sent ++ sendsOf client.thread text (reached fails (fun _ => true) targets)
    if SomeFail fails (fun _ => true) targets then
      .error (.exit { s with sent, memberMutex := true })
    else .ok { s with sent, memberMutex := false }

/-- What the thread does next to the member list, or to a node of it, goes right. -/
def WalksLive (s : ChatServer) (th : Thread) : Prop :=
  match th.pc with
  | .testSize | .readSize => ∃ fuel size, memberListSize s.server.members fuel = .ok size
  | .writeRoster size => ∃ text, s.server.members.forLoop id ChatServer.rosterEntry size
      s.server.members.first (lit "Member[Group] \n") = .ok text
  | .loginNotice temp =>
      ∃ listed, s.server.members.Represents listed ∧ NoticeReaches s.server listed temp
  | .exitSend (some temp) | .exitTest temp | .exitAdvance temp =>
      (s.server.members.cell temp).isSome
  | _ => True

/-- No walk goes wrong, whichever thread is next. -/
def LiveWalks (s : ChatServer) : Prop := ∀ th ∈ s.threads, WalksLive s th

/-- The thread's next step finds what it has read before to be true still. -/
def Undisturbed (s : ChatServer) (th : Thread) : Prop :=
  match th.pc with
  | .writeRoster size => size = 0 ∨ s.server.members.first ≠ none
  | .loginNotice temp => s.server.members.first = none ∨ temp = s.server.members.first
  | .exitSend (some temp) | .exitTest temp | .exitAdvance temp =>
      ∃ other ∈ s.threads, other.client = temp ∧ other.pc ≠ .returned
  | _ => True

/-! ### The roster -/

theorem foldlM_rosterEntry (list : List Member) (text : List UInt8) :
    list.foldlM ChatServer.rosterEntry text =
      .ok (text ++ list.flatMap fun temp => temp.name ++ lit "[" ++ temp.group ++ lit "],") := by
  induction list generalizing text with
  | nil => simp [pure, Except.pure]
  | cons temp rest ih =>
      rw [List.foldlM_cons, ChatServer.rosterEntry]
      simp only [bind, Except.bind, ih, List.flatMap_cons, List.append_assoc]

/-- The roster of a session that has counted `size` members, where it does not run into `NULL`. -/
theorem roster_eq {h : MemberHeap} (hh : h.Represents listed) {size : ℕ}
    (hany : size = 0 ∨ listed ≠ []) (text : List UInt8) :
    h.forLoop id ChatServer.rosterEntry size h.first text =
      .ok (text ++ (h.values (listed.take size)).flatMap fun temp =>
        temp.name ++ lit "[" ++ temp.group ++ lit "],") := by
  have hloop := @Represents.forLoop_take _ _ _ h [] listed hh id ChatServer.rosterEntry size hany
    text
  rw [foldlM_rosterEntry, ← hh.first_eq] at hloop
  exact hloop

theorem roster_iff {h : MemberHeap} (hh : h.Represents listed) (size : ℕ) (text : List UInt8) :
    (∃ roster, h.forLoop id ChatServer.rosterEntry size h.first text = .ok roster) ↔
      size = 0 ∨ h.first ≠ none := by
  constructor
  · rintro ⟨roster, hroster⟩
    by_contra hnot
    obtain ⟨hsize, hfirst⟩ := not_or.mp hnot
    obtain ⟨n, rfl⟩ := Nat.exists_eq_succ_of_ne_zero hsize
    simp [not_not.mp hfirst, forLoop, LinkedHeap.read] at hroster
  · intro hany
    have hn : size = 0 ∨ listed ≠ [] := by
      rwa [hh.first_eq, ne_eq, List.head?_eq_none_iff] at hany
    exact ⟨_, roster_eq hh hn text⟩

/-! ### The login notice -/

/-- Where all sends succeed, a walk with something to count begins with the member at `temp`. -/
theorem notice_first {s s' : Server} {fuel : ℕ} {client : Member} {text : List UInt8}
    {temp : Option ℕ} (hh : s.members.Represents listed) (hne : listed ≠ [])
    (h : loginNotice fuel (fun _ => false) client text temp s = .ok s') :
    ∃ a m, temp = some a ∧ s.members.valueAt a = some m ∧
      s.sent ++ [⟨m, client.thread, text⟩] <+: s'.sent := by
  obtain ⟨size, middle, hsize, hloop, rfl⟩ := lockedLoop_cases h
  obtain rfl := hh.eq_length_of_size hsize
  obtain ⟨n, hn⟩ := Nat.exists_eq_succ_of_ne_zero (mt List.length_eq_zero_iff.mp hne)
  rw [hn, forLoop] at hloop
  cases hread : s.members.read temp with
  | error fault => simp [hread] at hloop
  | ok node =>
      obtain ⟨a, rfl, ha⟩ := Option.bind_eq_some_iff.mp (read_eq_ok_iff.mp hread)
      refine ⟨a, node.value, rfl, by simp [valueAt, ha], ?_⟩
      simp only [hread, bind, Except.bind, sendOne, if_true, Bool.false_eq_true, if_false] at hloop
      split_ifs at hloop with hlast
      · obtain rfl := Except.ok.inj hloop
        exact List.prefix_refl _
      · -- the rest of the walk only adds to what is sent
        have hprefix : s.sent ++ [⟨node.value, client.thread, text⟩] <+: middle.sent := by
          refine @forLoop_preserves _ _ _ _ _ _
            (fun s' : Server => s.sent ++ [⟨node.value, client.thread, text⟩] <+: s'.sent)
            ?_ _ _ _ _ hloop (List.prefix_refl _)
          intro s₁ m s₂ hbody hs₁
          rcases sendOne_cases hbody with rfl | rfl
          · exact hs₁
          · exact hs₁.trans (List.prefix_append _ _)
        exact hprefix

theorem noticeReaches_iff {s : ChatServer} (hv : Owned s.descriptors listed)
    (hcovered : Covered s.descriptors) {temp : Option ℕ} : NoticeReaches s.server listed temp ↔
      s.server.members.first = none ∨ temp = s.server.members.first := by
  have hh : s.server.members.Represents listed := hv.represents
  constructor
  · intro hreaches
    cases listed with
    | nil => exact .inl hh.first_eq
    | cons b rest =>
        right
        obtain ⟨node, hnode⟩ := hh.live List.mem_cons_self
        obtain ⟨fuel, hnotice⟩ := hreaches (fun _ => false) node.value []
        have hnone : ¬ SomeFail (fun _ => false) (fun _ => true)
            (s.server.members.values (b :: rest)) := by simp [SomeFail]
        rw [if_neg hnone, reached_of_not_someFail hnone] at hnotice
        obtain ⟨a, m, rfl, ha, hprefix⟩ := notice_first hh (List.cons_ne_nil _ _) hnotice
        rw [List.prefix_append_right_inj, values_cons hnode] at hprefix
        -- the first member that is sent to is the first on the list
        have hm : m = node.value := by
          simpa [sendsOf] using hprefix
        have hb : s.server.members.valueAt b = some m := by simp [valueAt, hnode, hm]
        rw [hv.eq_of_valueAt hcovered ha hb]
        exact hh.first_eq.symm
  · intro hfirst fails client text
    refine ⟨listed.length + 1, ?_⟩
    have hloop := @lockedLoop_eq fails (fun _ => true) client.thread text s.server listed
      (listed.length + 1) hh (Nat.lt_succ_self _)
    rcases hfirst with hnone | rfl
    · obtain rfl : listed = [] := List.head?_eq_none_iff.mp (hh.first_eq.symm.trans hnone)
      -- nothing is counted, and `temp` is not looked at
      have hsize : memberListSize s.server.members ([].length + 1) = .ok 0 :=
        hh.size_eq (Nat.lt_succ_self _)
      rw [← hloop]
      simp only [loginNotice, lockedLoop, hsize]
      rfl
    · exact hloop

/-! ### Every run -/

/-- **Live walks.**  In every interleaving, no thread's next step touches a dead node, and a login
notice reaches exactly the listed members, exactly if no thread is disturbed: a roster that has
counted a member finds one, a login notice finds the list starting where it did, or empty, and an
exit notice stands at the node of a session that has not returned. -/
theorem liveWalks_iff (h : chatServerSystem.Reachable s) :
    LiveWalks s ↔ ∀ th ∈ s.threads, Undisturbed s th := by
  obtain ⟨listed, hv, hcovered⟩ := covered_of_reachable h
  have hh : s.server.members.Represents listed := hv.represents
  have hlive : ∀ temp, (s.server.members.cell temp).isSome ↔
      ∃ other ∈ s.threads, other.client = temp ∧ other.pc ≠ .returned := fun temp =>
    (hv.live_iff hcovered).trans held_iff_thread
  have hsize : ∃ fuel size, memberListSize s.server.members fuel = .ok size :=
    ⟨_, _, hh.size_eq (Nat.lt_succ_self _)⟩
  refine forall₂_congr fun th _ => ?_
  unfold WalksLive Undisturbed
  cases th.pc with
  | testSize => exact iff_of_true hsize trivial
  | readSize => exact iff_of_true hsize trivial
  | writeRoster size => exact roster_iff hh size _
  | loginNotice temp =>
      refine Iff.trans ?_ (noticeReaches_iff hv hcovered)
      constructor
      · rintro ⟨listed', hh', hreaches⟩
        exact hh'.unique hh ▸ hreaches
      · exact fun hreaches => ⟨listed, hh, hreaches⟩
  | exitSend temp =>
      cases temp with
      | none => exact Iff.rfl
      | some temp => exact hlive temp
  | exitTest temp => exact hlive temp
  | exitAdvance temp => exact hlive temp
  | welcome | recvName | sendRoster | recvGroup | readFirst | link | usage | recvLoop | queue
  | exitFirst | close | unlink | returned => exact Iff.rfl

/-! ## A roster of nobody -/

namespace EmptiedList

open ReusedDescriptor

/-- The first client is listed, and the second has counted it. -/
def counted : List ChatAction :=
  [.accept 4, .create 1, .go 0 9, .recv 0 (piece "ann"), .go 0 9, .go 0 9, .recv 0 (piece "blue"),
    .go 0 9, .go 0 9, .go 0 9, .go 0 9, .accept 5, .create 2, .go 1 9, .recv 1 (piece "bob"),
    .go 1 9, .go 1 9]

/-- Then the first client leaves, and nobody is listed. -/
def emptied : List ChatAction :=
  counted ++ [.recv 0 (piece "Bye"), .go 0 9, .go 0 9, .go 0 9, .go 0 9, .go 0 9]

theorem liveWalks_counted : ∃ s, chatServerSystem.run ChatServer.start counted = some s ∧
    LiveWalks s := by
  have hlast : (chatServerSystem.run ChatServer.start counted).map (fun s =>
      (s.threads, s.server.members.first)) =
        some ([⟨.recvLoop, 1⟩, ⟨.writeRoster 1, 2⟩], some 1) := by decide +kernel
  obtain ⟨s, hs, hshape⟩ := Option.map_eq_some_iff.mp hlast
  obtain ⟨hthreads, hfirst⟩ := Prod.mk.inj hshape
  refine ⟨s, hs, (liveWalks_iff ?_).mpr (by simp [hthreads, hfirst, Undisturbed])⟩
  exact TransitionSystem.reachable_of_run (.start rfl) hs

/-- The second client's roster goes through `NULL`. -/
theorem not_liveWalks_emptied : ¬ ∀ s, chatServerSystem.Reachable s → LiveWalks s := by
  intro hall
  have hlast : (chatServerSystem.run ChatServer.start emptied).map (fun s =>
      (s.threads, s.server.members.first)) =
        some ([⟨.returned, 1⟩, ⟨.writeRoster 1, 2⟩], none) := by decide +kernel
  obtain ⟨s, hs, hshape⟩ := Option.map_eq_some_iff.mp hlast
  obtain ⟨hthreads, hfirst⟩ := Prod.mk.inj hshape
  have hwalk := hall s (TransitionSystem.reachable_of_run (.start rfl) hs) ⟨.writeRoster 1, 2⟩
    (by simp [hthreads])
  obtain ⟨roster, hroster⟩ := hwalk
  simp [hfirst, forLoop, LinkedHeap.read] at hroster

end EmptiedList

end NetworkHomework.Chat
