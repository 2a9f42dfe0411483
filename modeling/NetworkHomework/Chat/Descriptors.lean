import NetworkHomework.Chat.Header

/-!
# The members and the descriptors

What the threads of the server do to the member list and to the table of open
descriptors is little: a member is created for an accepted connection, named, linked,
its descriptor closed, the member unlinked and freed.  A session closes the descriptor
before it takes `member_mutex` to unlink its member.  In between the member is listed
with a descriptor that is closed, or that `accept` has given to another connection.
-/

namespace NetworkHomework.Chat

open LinkedHeap

/-- What a session has done with its member. -/
inductive Phase
  | unlinked
  | linked
  | closed
  | gone
  deriving DecidableEq

/-- The members in memory, the open descriptors, and the node and the phase of each session. -/
structure Descriptors where
  members : MemberHeap
  table : ℕ → Option ℕ
  accepted : Option ℕ
  sessions : List (ℕ × Phase)

/-- The changes. -/
inductive Descriptors.Change (v : Descriptors) : Descriptors → Prop
  | accept {fd : ℕ} (hclosed : v.table fd = none) (hnone : v.accepted = none) :
      v.Change { v with
        table := Function.update v.table fd (some v.sessions.length)
        accepted := some fd }
  | create {fd a : ℕ} (haccepted : v.accepted = some fd) (hdead : v.members.cell a = none) :
      v.Change { v with
        members := v.members.malloc a
          ⟨⟨fd, v.sessions.length, [], [], v.sessions.length⟩, none, none⟩
        accepted := none
        sessions := v.sessions ++ [(a, .unlinked)] }
  | name {t a : ℕ} {node : LinkedNode Member} {value : Member}
      (hsession : v.sessions[t]? = some (a, .unlinked)) (hnode : v.members.cell a = some node)
      (hfd : value.fd = node.value.fd) (hconnection : value.connection = node.value.connection) :
      v.Change { v with members := { v.members with
        cell := Function.update v.members.cell a (some { node with value }) } }
  | link {t a : ℕ} {members : MemberHeap} (hsession : v.sessions[t]? = some (a, .unlinked))
      (hlink : memberLinkToList v.members a = .ok members) :
      v.Change { v with members, sessions := v.sessions.set t (a, .linked) }
  | close {t a : ℕ} {client : Member} (hsession : v.sessions[t]? = some (a, .linked))
      (hclient : v.members.valueAt a = some client) :
      v.Change { v with
        table := Function.update v.table client.fd none
        sessions := v.sessions.set t (a, .closed) }
  | unlink {t a : ℕ} {members members' : MemberHeap}
      (hsession : v.sessions[t]? = some (a, .closed))
      (hdislink : memberDislinkToList v.members a = .ok members)
      (hfree : members.free a = .ok members') :
      v.Change { v with members := members', sessions := v.sessions.set t (a, .gone) }

/-! ## The invariant -/

variable {v v' : Descriptors} {listed : List ℕ}

/-- The descriptor and the connection of the member at an address. -/
def stamp (h : MemberHeap) (a : ℕ) : Option (ℕ × ℕ) :=
  (h.valueAt a).map fun m => (m.fd, m.connection)

/-- A session owns its node, and its descriptor until it closes it; the nodes of the sessions that
have linked theirs are the list; every open descriptor belongs to a session or has just been
accepted. -/
structure Owned (v : Descriptors) (listed : List ℕ) : Prop where
  represents : v.members.Represents listed
  session : ∀ (t a : ℕ) (phase : Phase), v.sessions[t]? = some (a, phase) → phase ≠ .gone →
    ∃ fd, stamp v.members a = some (fd, t) ∧ (a ∈ listed ↔ phase ≠ .unlinked) ∧
      (phase ≠ .closed → v.table fd = some t)
  unlinked : ∀ t a : ℕ, v.sessions[t]? = some (a, Phase.unlinked) →
    ∃ node, v.members.cell a = some node ∧ node.prev = none ∧ node.next = none
  listed : ∀ a ∈ listed, ∃ (t : ℕ) (phase : Phase), v.sessions[t]? = some (a, phase) ∧ phase ≠ .gone
  table : ∀ fd c, v.table fd = some c → c = v.sessions.length ∧ v.accepted = some fd ∨
    ∃ (a : ℕ) (phase : Phase), v.sessions[c]? = some (a, phase) ∧ phase ≠ .gone ∧ phase ≠ .closed ∧
      stamp v.members a = some (fd, c)
  accepted : ∀ fd, v.accepted = some fd → v.table fd = some v.sessions.length

/-- Two sessions have two nodes. -/
theorem Owned.ne (hv : Owned v listed) {t u a b : ℕ} {p q : Phase}
    (ht : v.sessions[t]? = some (a, p)) (hp : p ≠ .gone) (hu : v.sessions[u]? = some (b, q))
    (hq : q ≠ .gone) (hne : u ≠ t) : b ≠ a := by
  rintro rfl
  obtain ⟨fd, hstamp, -⟩ := hv.session t b p ht hp
  obtain ⟨fd', hstamp', -⟩ := hv.session u b q hu hq
  rw [hstamp'] at hstamp
  exact hne (Prod.mk.inj (Option.some.inj hstamp)).2

theorem stamp_eq_of_valueAt {h h' : MemberHeap} (hvalue : h'.valueAt = h.valueAt) :
    stamp h' = stamp h := by
  funext a
  rw [stamp, stamp, hvalue]

/-- The sessions after a change of one of them. -/
theorem sessions_set {sessions : List (ℕ × Phase)} {t : ℕ} {old : ℕ × Phase}
    (h : sessions[t]? = some old) (new : ℕ × Phase) :
    (sessions.set t new)[t]? = some new ∧
      ∀ u, u ≠ t → (sessions.set t new)[u]? = sessions[u]? := by
  obtain ⟨hlt, -⟩ := List.getElem?_eq_some_iff.mp h
  exact ⟨by simp [hlt], fun u hu => List.getElem?_set_ne hu.symm⟩

/-- What is not the new session is another one, as it was. -/
theorem session_of_set {sessions : List (ℕ × Phase)} {t u : ℕ} {old new session : ℕ × Phase}
    (h : sessions[t]? = some old) (hu : (sessions.set t new)[u]? = some session)
    (hne : session ≠ new) : u ≠ t ∧ sessions[u]? = some session := by
  obtain ⟨hself, hother⟩ := sessions_set h new
  have hut : u ≠ t := by
    rintro rfl
    exact hne (Option.some.inj (hu.symm.trans hself))
  exact ⟨hut, (hother u hut).symm.trans hu⟩

theorem Owned.accept (hv : Owned v listed) {fd : ℕ} (hclosed : v.table fd = none)
    (hnone : v.accepted = none) :
    Owned { v with
      table := Function.update v.table fd (some v.sessions.length)
      accepted := some fd } listed where
  represents := hv.represents
  session := by
    intro t a phase hsession hphase
    obtain ⟨fd', hstamp, hlisted, htable⟩ := hv.session t a phase hsession hphase
    refine ⟨fd', hstamp, hlisted, fun hopen => ?_⟩
    have hne : fd' ≠ fd := by
      rintro rfl
      simp [hclosed] at htable
      exact hopen htable
    exact (Function.update_of_ne hne _ _).trans (htable hopen)
  unlinked := hv.unlinked
  listed := hv.listed
  table := by
    intro fd' c htable
    dsimp only at htable
    by_cases hfd : fd' = fd
    · subst hfd
      rw [Function.update_self] at htable
      exact .inl ⟨(Option.some.inj htable).symm, rfl⟩
    · rw [Function.update_of_ne hfd] at htable
      rcases hv.table fd' c htable with ⟨-, haccepted⟩ | hsession
      · simp [hnone] at haccepted
      · exact .inr hsession
  accepted := by
    intro fd' haccepted
    obtain rfl := Option.some.inj haccepted
    exact Function.update_self _ _ _

theorem Owned.create (hv : Owned v listed) {fd a : ℕ} (haccepted : v.accepted = some fd)
    (hdead : v.members.cell a = none) :
    Owned { v with
      members := v.members.malloc a ⟨⟨fd, v.sessions.length, [], [], v.sessions.length⟩, none, none⟩
      accepted := none
      sessions := v.sessions ++ [(a, .unlinked)] } listed := by
  have hnew : a ∉ listed := by
    intro ha
    obtain ⟨node, hnode⟩ := hv.represents.live ha
    simp [hdead] at hnode
  have hstamp : ∀ {b : ℕ} {s : ℕ × ℕ}, stamp v.members b = some s → stamp
      (v.members.malloc a ⟨⟨fd, v.sessions.length, [], [], v.sessions.length⟩, none, none⟩) b =
        some s := by
    intro b s hb
    have hne : b ≠ a := by
      rintro rfl
      simp [stamp, valueAt, hdead] at hb
    simpa [stamp, valueAt, LinkedHeap.malloc, hne] using hb
  -- a session is an old one or the new one
  have hcases : ∀ {t : ℕ} {x : ℕ × Phase}, (v.sessions ++ [(a, .unlinked)])[t]? = some x →
      v.sessions[t]? = some x ∨ t = v.sessions.length ∧ x = (a, .unlinked) := by
    intro t x hx
    rw [List.getElem?_append] at hx
    split_ifs at hx with hlt
    · exact .inl hx
    · rw [List.getElem?_singleton] at hx
      split_ifs at hx with hzero
      exact .inr ⟨by omega, (Option.some.inj hx).symm⟩
  refine ⟨hv.represents.malloc hdead _, ?_, ?_, ?_, ?_, by simp⟩
  · intro t b phase hsession hphase
    rcases hcases hsession with hold | ⟨rfl, heq⟩
    · obtain ⟨fd', hb, hlisted, htable⟩ := hv.session t b phase hold hphase
      exact ⟨fd', hstamp hb, hlisted, htable⟩
    · obtain ⟨rfl, rfl⟩ := Prod.mk.inj heq
      refine ⟨fd, ?_, by simp [hnew], fun _ => hv.accepted fd haccepted⟩
      simp [stamp, valueAt, LinkedHeap.malloc]
  · intro t b hsession
    rcases hcases hsession with hold | ⟨rfl, heq⟩
    · obtain ⟨node, hnode, hlinks⟩ := hv.unlinked t b hold
      have hne : b ≠ a := by
        rintro rfl
        simp [hdead] at hnode
      exact ⟨node, (Function.update_of_ne hne _ _).trans hnode, hlinks⟩
    · obtain ⟨rfl, -⟩ := Prod.mk.inj heq
      exact ⟨_, Function.update_self _ _ _, rfl, rfl⟩
  · intro b hb
    obtain ⟨t, phase, hsession, hphase⟩ := hv.listed b hb
    refine ⟨t, phase, ?_, hphase⟩
    obtain ⟨hlt, -⟩ := List.getElem?_eq_some_iff.mp hsession
    rw [List.getElem?_append_left hlt, hsession]
  · intro fd' c htable
    right
    rcases hv.table fd' c htable with ⟨rfl, hpending⟩ | ⟨b, phase, hsession, hgone, hopen, hb⟩
    · obtain rfl := Option.some.inj (haccepted.symm.trans hpending)
      refine ⟨a, .unlinked, by simp, by simp, by simp, ?_⟩
      simp [stamp, valueAt, LinkedHeap.malloc]
    · obtain ⟨hlt, -⟩ := List.getElem?_eq_some_iff.mp hsession
      refine ⟨b, phase, ?_, hgone, hopen, hstamp hb⟩
      rw [List.getElem?_append_left hlt, hsession]

theorem Owned.name (hv : Owned v listed) {t a : ℕ} {node : LinkedNode Member} {value : Member}
    (hsession : v.sessions[t]? = some (a, .unlinked)) (hnode : v.members.cell a = some node)
    (hfd : value.fd = node.value.fd) (hconnection : value.connection = node.value.connection) :
    Owned { v with members := { v.members with
      cell := Function.update v.members.cell a (some { node with value }) } } listed := by
  have hstamp : stamp { v.members with
      cell := Function.update v.members.cell a (some { node with value }) } = stamp v.members := by
    funext b
    by_cases hb : b = a
    · subst hb
      simp [stamp, valueAt, hnode, hfd, hconnection]
    · simp [stamp, valueAt, hb]
  obtain ⟨-, -, hunlisted, -⟩ := hv.session t a _ hsession (by simp)
  refine ⟨hv.represents.congr rfl fun b hb => ?_, ?_, ?_, hv.listed, ?_, hv.accepted⟩
  · have hne : b ≠ a := by
      rintro rfl
      exact hunlisted.mp hb rfl
    exact Function.update_of_ne hne _ _
  · simpa only [hstamp] using hv.session
  · intro u b hu
    obtain ⟨node', hnode', hlinks⟩ := hv.unlinked u b hu
    by_cases hb : b = a
    · subst hb
      obtain rfl := Option.some.inj (hnode.symm.trans hnode')
      exact ⟨_, Function.update_self _ _ _, hlinks⟩
    · exact ⟨node', (Function.update_of_ne hb _ _).trans hnode', hlinks⟩
  · simpa only [hstamp] using hv.table

theorem Owned.link (hv : Owned v listed) {t a : ℕ} {members : MemberHeap}
    (hsession : v.sessions[t]? = some (a, .unlinked))
    (hlink : memberLinkToList v.members a = .ok members) :
    Owned { v with members, sessions := v.sessions.set t (a, .linked) } (a :: listed) := by
  obtain ⟨fd, hstamp, hunlisted, htable⟩ := hv.session t a _ hsession (by simp)
  obtain ⟨node, hnode, hprev, hnext⟩ := hv.unlinked t a hsession
  have hnew : a ∉ listed := fun ha => hunlisted.mp ha rfl
  obtain ⟨members', hlink', hrepresents, hvalue⟩ :=
    hv.represents.linkFirst hnew hnode hprev fun _ => hnext
  obtain rfl : members' = members := Except.ok.inj (hlink'.symm.trans hlink)
  have hsame := stamp_eq_of_valueAt hvalue
  obtain ⟨hself, hother⟩ := sessions_set hsession (a, .linked)
  refine ⟨hrepresents, ?_, ?_, ?_, ?_, ?_⟩
  · intro u b phase hu hphase
    by_cases hut : u = t
    · subst hut
      obtain ⟨rfl, rfl⟩ := Prod.mk.inj (Option.some.inj (hself.symm.trans hu))
      exact ⟨fd, by rw [hsame]; exact hstamp, by simp, fun _ => htable (by simp)⟩
    · rw [hother u hut] at hu
      obtain ⟨fd', hb, hlisted, hopen⟩ := hv.session u b phase hu hphase
      have hne := hv.ne hsession (by simp) hu hphase hut
      exact ⟨fd', by rw [hsame]; exact hb, by simpa [hne] using hlisted, hopen⟩
  · intro u b hu
    obtain ⟨hut, hu⟩ := session_of_set hsession hu (by simp)
    obtain ⟨node', hnode', hlinks⟩ := hv.unlinked u b hu
    obtain ⟨-, -, hb, -⟩ := hv.session u b _ hu (by simp)
    have hunlinked : b ∉ a :: listed := by
      have hne := hv.ne hsession (by simp) hu (by simp) hut
      simpa [hne] using hb
    exact ⟨node', (hv.represents.linkFirst_frame hnew hnode hlink hunlinked).trans hnode', hlinks⟩
  · intro b hb
    rcases List.mem_cons.mp hb with rfl | hb
    · exact ⟨t, .linked, hself, by simp⟩
    · obtain ⟨u, phase, hu, hphase⟩ := hv.listed b hb
      have hut : u ≠ t := by
        rintro rfl
        obtain ⟨rfl, -⟩ := Prod.mk.inj (Option.some.inj (hsession.symm.trans hu))
        exact hnew hb
      exact ⟨u, phase, (hother u hut).trans hu, hphase⟩
  · intro fd' c hc
    rcases hv.table fd' c hc with hpending | ⟨b, phase, hu, hphase, hopen, hb⟩
    · exact .inl (by simpa using hpending)
    · right
      rw [hsame]
      by_cases hct : c = t
      · subst hct
        obtain ⟨rfl, rfl⟩ := Prod.mk.inj (Option.some.inj (hsession.symm.trans hu))
        exact ⟨a, .linked, hself, by simp, by simp, hb⟩
      · exact ⟨b, phase, (hother c hct).trans hu, hphase, hopen, hb⟩
  · simpa using hv.accepted

theorem Owned.close (hv : Owned v listed) {t a : ℕ} {client : Member}
    (hsession : v.sessions[t]? = some (a, .linked)) (hclient : v.members.valueAt a = some client) :
    Owned { v with
      table := Function.update v.table client.fd none
      sessions := v.sessions.set t (a, .closed) } listed := by
  obtain ⟨fd, hstamp, hlisted, htable⟩ := hv.session t a _ hsession (by simp)
  obtain rfl : client.fd = fd := by
    have heq : (client.fd, client.connection) = (fd, t) := by simpa [stamp, hclient] using hstamp
    exact (Prod.mk.inj heq).1
  have hopen := htable (by simp)
  obtain ⟨hlt, -⟩ := List.getElem?_eq_some_iff.mp hsession
  obtain ⟨hself, hother⟩ := sessions_set hsession (a, .closed)
  -- another connection has another descriptor
  have hkept : ∀ {fd' c : ℕ}, v.table fd' = some c → c ≠ t →
      Function.update v.table client.fd none fd' = some c := by
    intro fd' c hc hct
    have hne : fd' ≠ client.fd := by
      rintro rfl
      exact hct (Option.some.inj (hc.symm.trans hopen))
    rw [Function.update_of_ne hne, hc]
  refine ⟨hv.represents, ?_, ?_, ?_, ?_, ?_⟩
  · intro u b phase hu hphase
    by_cases hut : u = t
    · subst hut
      obtain ⟨rfl, rfl⟩ := Prod.mk.inj (Option.some.inj (hself.symm.trans hu))
      exact ⟨client.fd, hstamp, by simpa using hlisted, fun h => absurd rfl h⟩
    · rw [hother u hut] at hu
      obtain ⟨fd', hb, hmem, hfd'⟩ := hv.session u b phase hu hphase
      exact ⟨fd', hb, hmem, fun hphase' => hkept (hfd' hphase') hut⟩
  · intro u b hu
    exact hv.unlinked u b (session_of_set hsession hu (by simp)).2
  · intro b hb
    obtain ⟨u, phase, hu, hphase⟩ := hv.listed b hb
    by_cases hut : u = t
    · subst hut
      obtain ⟨rfl, -⟩ := Prod.mk.inj (Option.some.inj (hsession.symm.trans hu))
      exact ⟨u, .closed, hself, by simp⟩
    · exact ⟨u, phase, (hother u hut).trans hu, hphase⟩
  · intro fd' c hc
    dsimp only at hc
    have hne : fd' ≠ client.fd := by
      rintro rfl
      simp at hc
    rw [Function.update_of_ne hne] at hc
    rcases hv.table fd' c hc with hpending | ⟨b, phase, hu, hphase, hphase', hb⟩
    · exact .inl (by simpa using hpending)
    · have hct : c ≠ t := by
        rintro rfl
        obtain ⟨rfl, -⟩ := Prod.mk.inj (Option.some.inj (hsession.symm.trans hu))
        rw [hstamp] at hb
        exact hne (Prod.mk.inj (Option.some.inj hb)).1.symm
      exact .inr ⟨b, phase, (hother c hct).trans hu, hphase, hphase', hb⟩
  · intro fd' haccepted
    rw [List.length_set]
    exact hkept (hv.accepted fd' haccepted) (by omega)

theorem Owned.unlink (hv : Owned v listed) {t a : ℕ} {members members' : MemberHeap}
    (hsession : v.sessions[t]? = some (a, .closed))
    (hdislink : memberDislinkToList v.members a = .ok members)
    (hfree : members.free a = .ok members') :
    ∃ rest, Owned { v with members := members', sessions := v.sessions.set t (a, .gone) } rest := by
  obtain ⟨fd, -, hmem, -⟩ := hv.session t a _ hsession (by simp)
  obtain ⟨before, after, rfl⟩ := List.append_of_mem (hmem.mpr (by simp))
  obtain ⟨linked, freed, hdislink', hfree', hrepresents, -, hvalue, hcell⟩ :=
    hv.represents.dislink_free
  obtain rfl : linked = members := Except.ok.inj (hdislink'.symm.trans hdislink)
  obtain rfl : freed = members' := Except.ok.inj (hfree'.symm.trans hfree)
  have hnew : a ∉ before ++ after :=
    (List.nodup_cons.mp (List.nodup_middle.mp hv.represents.nodup)).1
  have hrest : ∀ {b : ℕ}, b ≠ a → (b ∈ before ++ after ↔ b ∈ before ++ a :: after) := by
    intro b hb
    simp [hb]
  have hsame : ∀ {b : ℕ}, b ≠ a → stamp freed b = stamp v.members b := by
    intro b hb
    rw [stamp, stamp, hvalue b hb]
  obtain ⟨hself, hother⟩ := sessions_set hsession (a, .gone)
  refine ⟨before ++ after, hrepresents, ?_, ?_, ?_, ?_, ?_⟩
  · intro u b phase hu hphase
    obtain ⟨hut, hu⟩ := session_of_set hsession hu (by simp [hphase])
    have hne := hv.ne hsession (by simp) hu hphase hut
    obtain ⟨fd', hb, hlisted, hopen⟩ := hv.session u b phase hu hphase
    exact ⟨fd', (hsame hne).trans hb, (hrest hne).trans hlisted, hopen⟩
  · intro u b hu
    obtain ⟨hut, hu⟩ := session_of_set hsession hu (by simp)
    obtain ⟨node', hnode', hlinks⟩ := hv.unlinked u b hu
    obtain ⟨-, -, hb, -⟩ := hv.session u b _ hu (by simp)
    exact ⟨node', (hcell b fun hmem => hb.mp hmem rfl).trans hnode', hlinks⟩
  · intro b hb
    have hne : b ≠ a := by
      rintro rfl
      exact hnew hb
    obtain ⟨u, phase, hu, hphase⟩ := hv.listed b ((hrest hne).mp hb)
    have hut : u ≠ t := by
      rintro rfl
      exact hne (Prod.mk.inj (Option.some.inj (hu.symm.trans hsession))).1
    exact ⟨u, phase, (hother u hut).trans hu, hphase⟩
  · intro fd' c hc
    rcases hv.table fd' c hc with hpending | ⟨b, phase, hu, hphase, hopen, hb⟩
    · exact .inl (by simpa using hpending)
    · have hct : c ≠ t := by
        rintro rfl
        obtain ⟨-, rfl⟩ := Prod.mk.inj (Option.some.inj (hsession.symm.trans hu))
        exact hopen rfl
      have hne := hv.ne hsession (by simp) hu hphase hct
      exact .inr ⟨b, phase, (hother c hct).trans hu, hphase, hopen, (hsame hne).trans hb⟩
  · simpa using hv.accepted

/-- **Every change** keeps the invariant. -/
theorem Owned.change (hv : Owned v listed) (h : v.Change v') : ∃ listed', Owned v' listed' := by
  cases h with
  | accept hclosed hnone => exact ⟨listed, hv.accept hclosed hnone⟩
  | create haccepted hdead => exact ⟨listed, hv.create haccepted hdead⟩
  | name hsession hnode hfd hconnection =>
      exact ⟨listed, hv.name hsession hnode hfd hconnection⟩
  | link hsession hlink => exact ⟨_, hv.link hsession hlink⟩
  | close hsession hclient => exact ⟨listed, hv.close hsession hclient⟩
  | unlink hsession hdislink hfree => exact hv.unlink hsession hdislink hfree

/-- **What the invariant says.**  The listed members have their own open descriptors exactly if no
session has closed its descriptor and not yet unlinked its member. -/
theorem Owned.open_iff (hv : Owned v listed) :
    (∀ m ∈ v.members.values listed, v.table m.fd = some m.connection) ↔
      ∀ session ∈ v.sessions, session.2 ≠ .closed := by
  constructor
  · rintro hall ⟨a, phase⟩ hmem (rfl : phase = .closed)
    obtain ⟨t, ht⟩ := List.mem_iff_getElem?.mp hmem
    obtain ⟨fd, hstamp, hlisted, -⟩ := hv.session t a _ ht (by simp)
    obtain ⟨m, hm, heq⟩ := Option.map_eq_some_iff.mp hstamp
    obtain ⟨rfl, rfl⟩ := Prod.mk.inj heq
    have hopen := hall m (List.mem_filterMap.mpr ⟨a, hlisted.mpr (by simp), hm⟩)
    rcases hv.table m.fd m.connection hopen with ⟨hlength, -⟩ | ⟨b, q, hu, -, hq, -⟩
    · obtain ⟨hlt, -⟩ := List.getElem?_eq_some_iff.mp ht
      omega
    · obtain ⟨-, rfl⟩ := Prod.mk.inj (Option.some.inj (hu.symm.trans ht))
      exact hq rfl
  · intro hnone m hm
    obtain ⟨a, ha, hvalue⟩ := List.mem_filterMap.mp hm
    obtain ⟨t, phase, ht, hphase⟩ := hv.listed a ha
    obtain ⟨fd, hstamp, -, hopen⟩ := hv.session t a phase ht hphase
    have heq : (m.fd, m.connection) = (fd, t) := by simpa [stamp, hvalue] using hstamp
    obtain ⟨rfl, rfl⟩ := Prod.mk.inj heq
    exact hopen (hnone (a, phase) (List.mem_of_getElem? ht))

end NetworkHomework.Chat
