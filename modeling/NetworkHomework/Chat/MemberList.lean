import NetworkHomework.Chat.Header
import NetworkHomework.Foundation.Transition

/-!
# The member list over whole runs

Members are created with both links `NULL`, as the accept loop does, linked once, taken
off the list while they are on it, and freed when they are not.  A run takes these steps
in any order and for any members.  `linked` and `fresh` are history: the members linked
and not taken off yet, newest first, and the members not linked yet.

That the memory represents `linked` is the invariant; the pointer facts, the count and
the frames of the two operations follow from it in every reachable state.
-/

namespace NetworkHomework.Chat

open LinkedHeap

/-- The memory of the members, and who is where. -/
structure MemberMemory where
  heap : MemberHeap
  linked : List ℕ
  fresh : List ℕ

inductive MemberAction
  /-- the accept loop: `malloc` returns `a` -/
  | create (a : ℕ) (member : Member)
  /-- `MemberLinkToList` -/
  | link (a : ℕ)
  /-- `MemberDislinkToList` -/
  | dislink (a : ℕ)
  /-- `free` -/
  | free (a : ℕ)

namespace MemberMemory

/-- Before the first member. -/
def start : MemberMemory := ⟨⟨fun _ => none, none⟩, [], []⟩

def step (s : MemberMemory) : MemberAction → Option MemberMemory
  | .create a member =>
      if (s.heap.cell a).isNone then
        some { s with heap := s.heap.malloc a ⟨member, none, none⟩, fresh := a :: s.fresh }
      else none
  | .link a =>
      if a ∈ s.fresh then
        (memberLinkToList s.heap a).toOption.map fun heap =>
          ⟨heap, a :: s.linked, s.fresh.filter (· ≠ a)⟩
      else none
  | .dislink a =>
      if a ∈ s.linked then
        (memberDislinkToList s.heap a).toOption.map fun heap =>
          { s with heap, linked := s.linked.erase a }
      else none
  | .free a =>
      if a ∉ s.linked ∧ a ∉ s.fresh then
        (s.heap.free a).toOption.map fun heap => { s with heap }
      else none

end MemberMemory

def memberMemorySystem : TransitionSystem MemberMemory MemberAction where
  initial s := s = MemberMemory.start
  step s a := s.step a

namespace MemberMemory

variable {s s' : MemberMemory} {a : ℕ}

/-- The list is well formed, and fresh members are off the list with both links `NULL`. -/
structure Inv (s : MemberMemory) : Prop where
  represents : s.heap.Represents s.linked
  fresh : ∀ a ∈ s.fresh, a ∉ s.linked ∧ ∃ member, s.heap.cell a = some ⟨member, none, none⟩

theorem inv_start : start.Inv :=
  ⟨represents_nil rfl, fun _ h => by simp [start] at h⟩

/-! ## Steps -/

theorem Inv.create (h : s.Inv) (hdead : s.heap.cell a = none) (member : Member) :
    Inv { s with heap := s.heap.malloc a ⟨member, none, none⟩, fresh := a :: s.fresh } := by
  refine ⟨h.represents.malloc hdead _, fun b hb => ?_⟩
  rcases List.mem_cons.mp hb with rfl | hb
  · refine ⟨fun hlinked => ?_, member, by simp [malloc]⟩
    obtain ⟨node, hnode⟩ := h.represents.live hlinked
    simp [hdead] at hnode
  · obtain ⟨hoff, member', hcell⟩ := h.fresh b hb
    have hba : b ≠ a := by
      rintro rfl
      simp [hdead] at hcell
    exact ⟨hoff, member', (Function.update_of_ne hba _ _).trans hcell⟩

/-- A fresh member can be linked. -/
theorem Inv.linkable (h : s.Inv) (ha : a ∈ s.fresh) :
    ∃ heap, memberLinkToList s.heap a = .ok heap ∧ heap.Represents (a :: s.linked) := by
  obtain ⟨hoff, member, hcell⟩ := h.fresh a ha
  obtain ⟨heap, hlink, hrep, -⟩ := h.represents.linkFirst hoff hcell rfl fun _ => rfl
  exact ⟨heap, hlink, hrep⟩

theorem Inv.link (h : s.Inv) (ha : a ∈ s.fresh) {heap : MemberHeap}
    (hlink : memberLinkToList s.heap a = .ok heap) :
    Inv ⟨heap, a :: s.linked, s.fresh.filter (· ≠ a)⟩ := by
  obtain ⟨heap', hlink', hrep⟩ := h.linkable ha
  obtain rfl : heap' = heap := Except.ok.inj (hlink'.symm.trans hlink)
  refine ⟨hrep, fun b hb => ?_⟩
  obtain ⟨hfresh, hba⟩ := List.mem_filter.mp hb
  obtain ⟨hoff, member, hcell⟩ := h.fresh b hfresh
  obtain ⟨hoff', member', hcell'⟩ := h.fresh a ha
  have hb : b ∉ a :: s.linked := by
    rw [List.mem_cons, not_or]
    exact ⟨of_decide_eq_true hba, hoff⟩
  exact ⟨hb, member, (h.represents.linkFirst_frame hoff' hcell' hlink hb).trans hcell⟩

/-- The first occurrence is the one that is removed. -/
theorem erase_eq {before after : List ℕ} (hnodup : (before ++ a :: after).Nodup) :
    (before ++ a :: after).erase a = before ++ after := by
  have hbefore : a ∉ before := by
    have hmiddle := (List.nodup_cons.mp (List.nodup_middle.mp hnodup)).1
    exact fun h => hmiddle (List.mem_append_left _ h)
  rw [List.erase_append_right _ hbefore, List.erase_cons_head]

theorem Inv.dislink (h : s.Inv) (ha : a ∈ s.linked) {heap : MemberHeap}
    (hdislink : memberDislinkToList s.heap a = .ok heap) :
    Inv { s with heap, linked := s.linked.erase a } := by
  obtain ⟨before, after, heq⟩ := List.append_of_mem ha
  have hrep := h.represents
  rw [heq] at hrep
  obtain ⟨heap', hdislink', hrep', -⟩ := hrep.dislink
  obtain rfl : heap' = heap := Except.ok.inj (hdislink'.symm.trans hdislink)
  refine ⟨?_, fun b hb => ?_⟩
  · rw [heq, erase_eq hrep.nodup]
    exact hrep'
  · obtain ⟨hoff, member, hcell⟩ := h.fresh b hb
    refine ⟨fun hmem => hoff (List.mem_of_mem_erase hmem), member, ?_⟩
    rw [heq] at hoff
    exact (hrep.dislink_frame hdislink hoff).trans hcell

theorem Inv.free (h : s.Inv) (hoff : a ∉ s.linked ∧ a ∉ s.fresh) {heap : MemberHeap}
    (hfree : s.heap.free a = .ok heap) : Inv { s with heap } := by
  cases hcell : s.heap.cell a with
  | none => simp [LinkedHeap.free, hcell] at hfree
  | some node =>
      obtain ⟨heap', hfree', hrep, hupdate⟩ := h.represents.free hoff.1 hcell
      obtain rfl : heap' = heap := Except.ok.inj (hfree'.symm.trans hfree)
      refine ⟨hrep, fun b hb => ?_⟩
      obtain ⟨hb', member, hcell'⟩ := h.fresh b hb
      have hba : b ≠ a := by
        rintro rfl
        exact hoff.2 hb
      refine ⟨hb', member, ?_⟩
      rw [hupdate, Function.update_of_ne hba, hcell']

theorem Inv.step (h : s.Inv) {action : MemberAction} (hstep : s.step action = some s') :
    s'.Inv := by
  cases action with
  | create a member =>
      obtain ⟨hdead, rfl⟩ := Option.ite_some_none_eq_some.mp hstep
      exact h.create (Option.isNone_iff_eq_none.mp hdead) member
  | link a =>
      rw [MemberMemory.step] at hstep
      split_ifs at hstep with ha
      obtain ⟨heap, hlink, rfl⟩ := Option.map_eq_some_iff.mp hstep
      exact h.link ha (toOption_eq_some_iff.mp hlink)
  | dislink a =>
      rw [MemberMemory.step] at hstep
      split_ifs at hstep with ha
      obtain ⟨heap, hdislink, rfl⟩ := Option.map_eq_some_iff.mp hstep
      exact h.dislink ha (toOption_eq_some_iff.mp hdislink)
  | free a =>
      rw [MemberMemory.step] at hstep
      split_ifs at hstep with hoff
      obtain ⟨heap, hfree, rfl⟩ := Option.map_eq_some_iff.mp hstep
      exact h.free hoff (toOption_eq_some_iff.mp hfree)

theorem inv_of_reachable (h : memberMemorySystem.Reachable s) : s.Inv := by
  refine h.invariant ?_ fun s a s' hs _ hstep => hs.step hstep
  rintro s rfl
  exact inv_start

/-! ## What the list promises -/

/-- The list from `MemberListFirst` is a finite, acyclic, `NULL`-terminated doubly linked list of
the linked members, newest first, and both operations keep to the neighbours. -/
structure Intact (s : MemberMemory) : Prop where
  represents : s.heap.Represents s.linked
  nodup : s.linked.Nodup
  prev_first : ∀ a node, s.heap.first = some a → s.heap.cell a = some node → node.prev = none
  next_last : ∀ a node, s.linked.getLast? = some a → s.heap.cell a = some node → node.next = none
  next_iff_prev : ∀ a ∈ s.linked, ∀ b ∈ s.linked, ∀ node node', s.heap.cell a = some node →
    s.heap.cell b = some node' → (node.next = some b ↔ node'.prev = some a)
  /-- the count, when it is given time enough -/
  size : ∀ fuel, s.linked.length < fuel → memberListSize s.heap fuel = .ok s.linked.length
  /-- insertion gives the old head a predecessor and changes no other node -/
  link : ∀ a ∈ s.fresh, ∃ heap, memberLinkToList s.heap a = .ok heap ∧ ∀ b, b ≠ a →
    heap.cell b = (s.heap.cell b).map fun node =>
      { node with prev := if s.linked.head? = some b then some a else node.prev }
  /-- removal links the two neighbours to each other and changes no other node -/
  dislink : ∀ before a after, s.linked = before ++ a :: after →
    ∃ heap, memberDislinkToList s.heap a = .ok heap ∧ ∀ b, heap.cell b =
      (s.heap.cell b).map fun node =>
        { node with
          prev := if after.head? = some b then before.getLast? else node.prev
          next := if before.getLast? = some b then after.head? else node.next }
  /-- the branch that ends in `DIE` is not taken -/
  noDie : ∀ a, memberDislinkToList s.heap a ≠ .error .notLinked

/-- **The member list** is intact in every reachable state. -/
theorem intact_of_reachable (h : memberMemorySystem.Reachable s) : s.Intact := by
  obtain ⟨hrep, hfresh⟩ := inv_of_reachable h
  refine ⟨hrep, hrep.nodup, fun a node hfirst hnode => ?_, fun a node hlast hnode => ?_,
    fun a ha b hb node node' hnode hnode' => hrep.next_iff_prev ha hb hnode hnode',
    fun fuel hfuel => hrep.size_eq hfuel, fun a ha => ?_, fun before a after heq => ?_,
    fun a => dislink_ne_notLinked s.heap a⟩
  · exact hrep.prev_first (hrep.first_eq.symm.trans hfirst) hnode
  · exact hrep.next_last hlast hnode
  · obtain ⟨hoff, member, hcell⟩ := hfresh a ha
    obtain ⟨heap, hlink, -, -, hothers⟩ := hrep.linkFirst_eq hoff hcell
    exact ⟨heap, hlink, hothers⟩
  · rw [heq] at hrep
    obtain ⟨heap, hdislink, -, hcell⟩ := hrep.dislink_eq
    exact ⟨heap, hdislink, hcell⟩

/-- Three members, the middle one of which left again. -/
def threeMembers : MemberMemory :=
  memberMemorySystem.after start
    [.create 1 ⟨5, 1, [97], [103], 0⟩, .create 2 ⟨6, 2, [98], [103], 1⟩, .link 1, .link 2,
      .create 3 ⟨7, 3, [99], [103], 2⟩, .link 3, .dislink 2, .free 2]

theorem size_threeMembers :
    threeMembers.linked = [3, 1] ∧ memberListSize threeMembers.heap 3 = .ok 2 := by
  have hreachable : memberMemorySystem.Reachable threeMembers :=
    TransitionSystem.reachable_of_run (.start rfl)
      (TransitionSystem.run_eq_some_after (by decide +kernel))
  have hlinked : threeMembers.linked = [3, 1] := by decide +kernel
  have hsize := (intact_of_reachable hreachable).size 3 (by rw [hlinked]; decide)
  rw [hlinked] at hsize
  exact ⟨hlinked, hsize⟩

end MemberMemory

end NetworkHomework.Chat
