import Mathlib.Data.List.Nodup
import Mathlib.Logic.Function.Basic

/-!
# Doubly linked lists in memory

Memory is a partial map from addresses to nodes: an address that holds no node is free,
and a read or write through it, or through `NULL`, is a fault.  A pointer is an
`Option ℕ`, `none` being `NULL`.  The list hangs off `first`.

The operations are those of a list in C with insertion at the head (`linkFirst`),
removal anywhere (`dislink`), counting (`size`), and two loops over the nodes
(`forLoop`, bounded by a count, and `whileLoop`).  Loops take a fuel argument, since
nothing but the shape of the list makes them end.

`Represents h addrs` says that the list from `first` is the well-formed doubly linked
list of the nodes `addrs`.  Each operation has one lemma that says what it does to a
represented list; a program that keeps its list represented never looks at pointers
again.
-/

/-- A node in memory. -/
structure LinkedNode (Val : Type) where
  value : Val
  prev : Option ℕ
  next : Option ℕ

structure LinkedHeap (Val : Type) where
  cell : ℕ → Option (LinkedNode Val)
  first : Option ℕ

namespace LinkedHeap

variable {Val : Type}

-- `notLinked`: no branch of `dislink` applies; `outOfFuel`: the loop did not end
inductive Fault
  | deadPointer
  | notLinked
  | outOfFuel
  deriving DecidableEq

/-- A program that runs into a fault has no next state. -/
theorem toOption_eq_some_iff {α β : Type} {result : Except α β} {b : β} :
    result.toOption = some b ↔ result = .ok b := by
  cases result <;> simp [Except.toOption]

/-! ## Memory -/

/-- The memory after `malloc` returned `a`, with whatever contents. -/
def malloc (h : LinkedHeap Val) (a : ℕ) (node : LinkedNode Val) : LinkedHeap Val :=
  { h with cell := Function.update h.cell a (some node) }

def free (h : LinkedHeap Val) (a : ℕ) : Except Fault (LinkedHeap Val) :=
  match h.cell a with
  | some _ => .ok { h with cell := Function.update h.cell a none }
  | none => .error .deadPointer

/-- A write to the node at `p`. -/
def write (h : LinkedHeap Val) (p : Option ℕ) (f : LinkedNode Val → LinkedNode Val) :
    Except Fault (LinkedHeap Val) :=
  match p with
  | none => .error .deadPointer
  | some a =>
      match h.cell a with
      | some node => .ok { h with cell := Function.update h.cell a (some (f node)) }
      | none => .error .deadPointer

/-- A read of the node at `p`. -/
def read (h : LinkedHeap Val) (p : Option ℕ) : Except Fault (LinkedNode Val) :=
  match p.bind h.cell with
  | some node => .ok node
  | none => .error .deadPointer

def valueAt (h : LinkedHeap Val) (a : ℕ) : Option Val := (h.cell a).map LinkedNode.value

/-! ## The operations -/

/-- Insertion at the head.  Into an empty list, no link of the node is written. -/
def linkFirst (h : LinkedHeap Val) (a : ℕ) : Except Fault (LinkedHeap Val) :=
  if h.first = none then .ok { h with first := some a }
  else do
    let linked ← h.write h.first fun node => { node with prev := some a }
    let linked ← linked.write (some a) fun node => { node with next := h.first }
    return { linked with first := some a }

/-- Removal of the node at `a`. -/
def dislink (h : LinkedHeap Val) (a : ℕ) : Except Fault (LinkedHeap Val) := do
  let client ← h.read (some a)
  if client.prev = none then
    let h := { h with first := client.next }
    if h.first ≠ none then h.write h.first fun node => { node with prev := none } else return h
  else if client.prev ≠ none ∧ client.next = none then
    h.write client.prev fun node => { node with next := client.next }
  else if client.prev ≠ none ∧ client.next ≠ none then
    let h ← h.write client.prev fun node => { node with next := client.next }
    h.write client.next fun node => { node with prev := client.prev }
  else throw .notLinked

/-- `while (temp != NULL) { i++; if (temp->next == NULL) break; temp = temp->next; }` -/
def sizeLoop (h : LinkedHeap Val) : ℕ → Option ℕ → ℕ → Except Fault ℕ
  | 0, _, _ => .error .outOfFuel
  | _ + 1, none, i => .ok i
  | fuel + 1, some a, i => do
      let temp ← h.read (some a)
      if temp.next = none then return i + 1 else h.sizeLoop fuel temp.next (i + 1)

def size (h : LinkedHeap Val) (fuel : ℕ) : Except Fault ℕ := h.sizeLoop fuel h.first 0

variable {State Stop : Type}

/-- `for (i = 0; i < n; i++) { body; if (temp->next == NULL) break; temp = temp->next; }`,
where `body` may end the program, as may a fault. -/
def forLoop (h : LinkedHeap Val) (onFault : Fault → Stop)
    (body : State → Val → Except Stop State) : ℕ → Option ℕ → State → Except Stop State
  | 0, _, s => .ok s
  | n + 1, temp, s =>
      match h.read temp with
      | .error fault => .error (onFault fault)
      | .ok node => do
          let s ← body s node.value
          if node.next = none then return s else h.forLoop onFault body n node.next s

/-- `while (temp != NULL) { body; if (temp->next == NULL) break; temp = temp->next; }` -/
def whileLoop (h : LinkedHeap Val) (onFault : Fault → Stop)
    (body : State → Val → Except Stop State) : ℕ → Option ℕ → State → Except Stop State
  | 0, _, _ => .error (onFault .outOfFuel)
  | _ + 1, none, s => .ok s
  | fuel + 1, some a, s =>
      match h.read (some a) with
      | .error fault => .error (onFault fault)
      | .ok node => do
          let s ← body s node.value
          if node.next = none then return s else h.whileLoop onFault body fuel node.next s

/-! ## Well-formed lists -/

/-- The list from `first` is doubly linked, ends with `NULL`, and has the nodes `addrs`. -/
structure Represents (h : LinkedHeap Val) (addrs : List ℕ) : Prop where
  nodup : addrs.Nodup
  first_eq : h.first = addrs.head?
  node : ∀ before a after, addrs = before ++ a :: after →
    ∃ node, h.cell a = some node ∧ node.prev = before.getLast? ∧ node.next = after.head?

variable {h h' : LinkedHeap Val} {addrs : List ℕ} {a : ℕ}

theorem represents_nil (hfirst : h.first = none) : h.Represents [] where
  nodup := List.nodup_nil
  first_eq := hfirst
  node before a after heq := by simp at heq

/-- The links of the nodes, along the list from a node whose predecessor is `prev`. -/
def Linked (h : LinkedHeap Val) : Option ℕ → List ℕ → Prop
  | _, [] => True
  | prev, a :: rest =>
      (∃ node ∈ h.cell a, node.prev = prev ∧ node.next = rest.head?) ∧ h.Linked (some a) rest

instance decidableLinked : ∀ prev addrs, Decidable (h.Linked prev addrs)
  | _, [] => .isTrue trivial
  | _, a :: rest =>
      haveI := decidableLinked (some a) rest
      inferInstanceAs (Decidable (_ ∧ _))

theorem linked_iff {prev : Option ℕ} : h.Linked prev addrs ↔
    ∀ before a after, addrs = before ++ a :: after →
      ∃ node, h.cell a = some node ∧ node.prev = before.getLast?.or prev ∧
        node.next = after.head? := by
  induction addrs generalizing prev with
  | nil => simp [Linked]
  | cons c rest ih =>
      rw [Linked, ih]
      constructor
      · rintro ⟨⟨node, hnode, hlinks⟩, hrest⟩ before a after heq
        cases before with
        | nil =>
            obtain ⟨rfl, rfl⟩ := List.cons.inj heq
            exact ⟨node, hnode, hlinks⟩
        | cons d before =>
            obtain ⟨rfl, htail⟩ := List.cons.inj heq
            obtain ⟨node, hnode, hprev, hnext⟩ := hrest before a after htail
            refine ⟨node, hnode, ?_, hnext⟩
            rw [hprev, List.getLast?_cons]
            cases before.getLast? <;> rfl
      · intro hall
        refine ⟨hall [] c rest rfl, fun before a after heq => ?_⟩
        obtain ⟨node, hnode, hprev, hnext⟩ := hall (c :: before) a after (by rw [heq]; rfl)
        refine ⟨node, hnode, ?_, hnext⟩
        rw [hprev, List.getLast?_cons]
        cases before.getLast? <;> rfl

theorem represents_iff : h.Represents addrs ↔
    addrs.Nodup ∧ h.first = addrs.head? ∧ h.Linked none addrs := by
  rw [linked_iff]
  simp only [Option.or_none]
  exact ⟨fun hh => ⟨hh.nodup, hh.first_eq, hh.node⟩, fun ⟨h1, h2, h3⟩ => ⟨h1, h2, h3⟩⟩

instance : Decidable (h.Represents addrs) := decidable_of_iff _ represents_iff.symm

theorem Linked.unique {addrs' : List ℕ} {prev prev' : Option ℕ} (hlinked : h.Linked prev addrs)
    (hlinked' : h.Linked prev' addrs') (hhead : addrs.head? = addrs'.head?) : addrs = addrs' := by
  induction addrs generalizing prev prev' addrs' with
  | nil => exact (List.head?_eq_none_iff.mp hhead.symm).symm
  | cons a rest ih =>
      cases addrs' with
      | nil => simp at hhead
      | cons b rest' =>
          obtain rfl : a = b := Option.some.inj hhead
          obtain ⟨⟨node, hnode, -, hnext⟩, hrest⟩ := hlinked
          obtain ⟨⟨node', hnode', -, hnext'⟩, hrest'⟩ := hlinked'
          obtain rfl := Option.some.inj (hnode.symm.trans hnode')
          rw [ih hrest hrest' (hnext.symm.trans hnext')]

/-- The memory determines the list. -/
theorem Represents.unique {addrs' : List ℕ} (hh : h.Represents addrs)
    (hh' : h.Represents addrs') : addrs = addrs' :=
  (represents_iff.mp hh).2.2.unique (represents_iff.mp hh').2.2
    (hh.first_eq.symm.trans hh'.first_eq)

/-- Only the nodes of the list matter. -/
theorem Represents.congr (hh : h.Represents addrs) (hfirst : h'.first = h.first)
    (hcell : ∀ b ∈ addrs, h'.cell b = h.cell b) : h'.Represents addrs where
  nodup := hh.nodup
  first_eq := hfirst.trans hh.first_eq
  node before a after heq := by
    rw [hcell a (by simp [heq])]
    exact hh.node before a after heq

theorem Represents.live (hh : h.Represents addrs) (ha : a ∈ addrs) :
    ∃ node, h.cell a = some node := by
  obtain ⟨before, after, heq⟩ := List.append_of_mem ha
  obtain ⟨node, hnode, -⟩ := hh.node before a after heq
  exact ⟨node, hnode⟩

theorem Represents.malloc (hh : h.Represents addrs) (hdead : h.cell a = none)
    (node : LinkedNode Val) : (h.malloc a node).Represents addrs := by
  refine hh.congr rfl fun b hb => Function.update_of_ne ?_ _ _
  rintro rfl
  obtain ⟨node, hnode⟩ := hh.live hb
  simp [hdead] at hnode

theorem Represents.free (hh : h.Represents addrs) (ha : a ∉ addrs) {node : LinkedNode Val}
    (hnode : h.cell a = some node) :
    ∃ h', h.free a = .ok h' ∧ h'.Represents addrs ∧ h'.cell = Function.update h.cell a none := by
  refine ⟨{ h with cell := Function.update h.cell a none }, ?_, ?_, rfl⟩
  · simp [LinkedHeap.free, hnode]
  · refine hh.congr rfl fun b hb => Function.update_of_ne ?_ _ _
    rintro rfl
    exact ha hb

/-- The head has no predecessor. -/
theorem Represents.prev_first (hh : h.Represents addrs) (hfirst : addrs.head? = some a)
    {node : LinkedNode Val} (hnode : h.cell a = some node) : node.prev = none := by
  obtain ⟨rest, rfl⟩ := List.head?_eq_some_iff.mp hfirst
  obtain ⟨node', hnode', hprev, -⟩ := hh.node [] a rest rfl
  obtain rfl := Option.some.inj (hnode.symm.trans hnode')
  exact hprev

/-- The last node has no successor. -/
theorem Represents.next_last (hh : h.Represents addrs) (hlast : addrs.getLast? = some a)
    {node : LinkedNode Val} (hnode : h.cell a = some node) : node.next = none := by
  obtain ⟨before, rfl⟩ := List.getLast?_eq_some_iff.mp hlast
  obtain ⟨node', hnode', -, hnext⟩ := hh.node before a [] rfl
  obtain rfl := Option.some.inj (hnode.symm.trans hnode')
  exact hnext

/-- Back pointers mirror forward pointers. -/
theorem Represents.next_iff_prev (hh : h.Represents addrs) {b : ℕ} (ha : a ∈ addrs)
    (hb : b ∈ addrs) {node node' : LinkedNode Val} (hnode : h.cell a = some node)
    (hnode' : h.cell b = some node') : node.next = some b ↔ node'.prev = some a := by
  constructor
  · intro hnext
    obtain ⟨before, after, rfl⟩ := List.append_of_mem ha
    obtain ⟨known, hknown, -, hknext⟩ := hh.node before a after rfl
    obtain rfl := Option.some.inj (hnode.symm.trans hknown)
    obtain ⟨rest, rfl⟩ := List.head?_eq_some_iff.mp (hknext.symm.trans hnext)
    obtain ⟨known', hknown', hprev, -⟩ := hh.node (before ++ [a]) b rest (by simp)
    obtain rfl := Option.some.inj (hnode'.symm.trans hknown')
    rw [hprev, List.getLast?_concat]
  · intro hprev
    obtain ⟨before, after, rfl⟩ := List.append_of_mem hb
    obtain ⟨known, hknown, hkprev, -⟩ := hh.node before b after rfl
    obtain rfl := Option.some.inj (hnode'.symm.trans hknown)
    obtain ⟨front, rfl⟩ := List.getLast?_eq_some_iff.mp (hkprev.symm.trans hprev)
    obtain ⟨known', hknown', -, hnext⟩ := hh.node front a (b :: after) (by simp)
    obtain rfl := Option.some.inj (hnode.symm.trans hknown')
    rw [hnext, List.head?_cons]

/-! ## Insertion and removal -/

theorem read_eq_ok_iff {p : Option ℕ} {node : LinkedNode Val} :
    h.read p = .ok node ↔ p.bind h.cell = some node := by
  unfold read
  cases p.bind h.cell <;> simp

theorem read_eq {node : LinkedNode Val} (hnode : h.cell a = some node) :
    h.read (some a) = .ok node :=
  read_eq_ok_iff.mpr hnode

theorem write_eq {node : LinkedNode Val} (hnode : h.cell a = some node)
    (f : LinkedNode Val → LinkedNode Val) :
    h.write (some a) f = .ok { h with cell := Function.update h.cell a (some (f node)) } := by
  simp [write, hnode]

/-- What `linkFirst` does to the nodes: the old head points back to the new one, and the new one
points to the old head if there is one. -/
theorem Represents.linkFirst_eq (hh : h.Represents addrs) (hnew : a ∉ addrs)
    {node : LinkedNode Val} (hnode : h.cell a = some node) :
    ∃ h', h.linkFirst a = .ok h' ∧ h'.first = some a ∧
      h'.cell a = some { node with next := if addrs = [] then node.next else addrs.head? } ∧
      ∀ b, b ≠ a → h'.cell b = (h.cell b).map fun other =>
        { other with prev := if addrs.head? = some b then some a else other.prev } := by
  cases addrs with
  | nil =>
      have hfirst : h.first = none := hh.first_eq
      refine ⟨{ h with first := some a }, ?_, rfl, by simp [hnode], fun b hb => by simp⟩
      simp [linkFirst, hfirst]
  | cons f rest =>
      obtain ⟨head, hhead⟩ := hh.live (by simp : f ∈ f :: rest)
      have hfirst : h.first = some f := hh.first_eq
      have hne : a ≠ f := by
        rintro rfl
        simp at hnew
      refine ⟨⟨Function.update (Function.update h.cell f (some { head with prev := some a })) a
        (some { node with next := some f }), some a⟩, ?_, rfl, ?_, ?_⟩
      · -- the second write finds the node where the first one left it
        have hnode' : Function.update h.cell f (some { head with prev := some a }) a =
            some node := by
          rw [Function.update_of_ne hne, hnode]
        rw [linkFirst, hfirst, if_neg (by simp), write_eq hhead]
        show (write _ (some a) _ >>= _) = _
        rw [write_eq hnode']
        rfl
      · simp
      · intro b hb
        by_cases hbf : b = f
        · subst hbf
          simp [hb, hhead]
        · have hfb : ¬ f = b := fun heq => hbf heq.symm
          simp [hb, hbf, hfb]

/-- A change of links leaves the contents. -/
theorem valueAt_eq_of_links {h h' : LinkedHeap Val} {prev next : ℕ → LinkedNode Val → Option ℕ}
    (hcell : ∀ b, h'.cell b = (h.cell b).map fun node =>
      { node with prev := prev b node, next := next b node }) : h'.valueAt = h.valueAt := by
  funext b
  rw [valueAt, valueAt, hcell, Option.map_map]
  rfl

/-- **Insertion.**  The list stays well formed exactly if the new node points back to `NULL`, and
forward to `NULL` if the list was empty. -/
theorem Represents.linkFirst_iff (hh : h.Represents addrs) (hnew : a ∉ addrs)
    {node : LinkedNode Val} (hnode : h.cell a = some node) (hlink : h.linkFirst a = .ok h') :
    h'.Represents (a :: addrs) ↔ node.prev = none ∧ (addrs = [] → node.next = none) := by
  obtain ⟨h'', hlink', hfirst, hself, hothers⟩ := hh.linkFirst_eq hnew hnode
  obtain rfl : h'' = h' := Except.ok.inj (hlink'.symm.trans hlink)
  constructor
  · intro hrep
    obtain ⟨node', hnode', hprev, hnext⟩ := hrep.node [] a addrs rfl
    obtain rfl := Option.some.inj (hself.symm.trans hnode')
    refine ⟨hprev, fun hempty => ?_⟩
    simpa [hempty] using hnext
  · rintro ⟨hprev, hnext⟩
    refine ⟨List.nodup_cons.mpr ⟨hnew, hh.nodup⟩, hfirst, fun before b after heq => ?_⟩
    cases before with
    | nil =>
        obtain ⟨rfl, rfl⟩ := List.cons.inj heq
        refine ⟨_, hself, hprev, ?_⟩
        by_cases hempty : addrs = []
        · simp [hempty, hnext hempty]
        · simp [hempty]
    | cons c before =>
        obtain ⟨rfl, htail⟩ := List.cons.inj heq
        have hb : b ∈ addrs := by simp [htail]
        have hba : b ≠ a := fun hba => hnew (hba ▸ hb)
        obtain ⟨other, hother, hprev', hnext'⟩ := hh.node before b after htail
        refine ⟨_, (hothers b hba).trans (congrArg (Option.map _) hother), ?_, hnext'⟩
        -- only the old head has a new predecessor
        cases before with
        | nil => simp [htail]
        | cons d before =>
            have hdb : ¬ d = b := by
              rintro rfl
              have hnodup := hh.nodup
              simp [htail] at hnodup
            simp [htail, hdb, hprev', List.getLast?_cons_cons]

theorem Represents.linkFirst (hh : h.Represents addrs) (hnew : a ∉ addrs)
    {node : LinkedNode Val} (hnode : h.cell a = some node) (hprev : node.prev = none)
    (hnext : addrs = [] → node.next = none) :
    ∃ h', h.linkFirst a = .ok h' ∧ h'.Represents (a :: addrs) ∧ h'.valueAt = h.valueAt := by
  obtain ⟨h', hlink, -, hself, hothers⟩ := hh.linkFirst_eq hnew hnode
  refine ⟨h', hlink, (hh.linkFirst_iff hnew hnode hlink).mpr ⟨hprev, hnext⟩, ?_⟩
  funext b
  by_cases hb : b = a
  · subst hb
    simp [valueAt, hself, hnode]
  · rw [valueAt, valueAt, hothers b hb, Option.map_map]
    rfl

/-- Insertion leaves the nodes alone that are not on the list. -/
theorem Represents.linkFirst_frame (hh : h.Represents addrs) (hnew : a ∉ addrs)
    {node : LinkedNode Val} (hnode : h.cell a = some node) (hlink : h.linkFirst a = .ok h') {b : ℕ}
    (hb : b ∉ a :: addrs) : h'.cell b = h.cell b := by
  obtain ⟨h'', hlink', -, -, hothers⟩ := hh.linkFirst_eq hnew hnode
  obtain rfl : h'' = h' := Except.ok.inj (hlink'.symm.trans hlink)
  obtain ⟨hba, hbaddrs⟩ := not_or.mp (mt List.mem_cons.mpr hb)
  -- only the old head has a new predecessor
  have hhead : addrs.head? ≠ some b := fun hhead => hbaddrs (List.mem_of_head? hhead)
  rw [hothers b hba]
  cases h.cell b <;> simp [hhead]

/-- What `dislink` does to the nodes: the two neighbours are linked to each other. -/
theorem Represents.dislink_eq {before after : List ℕ} (hh : h.Represents (before ++ a :: after)) :
    ∃ h', h.dislink a = .ok h' ∧ h'.first = (before ++ after).head? ∧
      ∀ b, h'.cell b = (h.cell b).map fun node =>
        { node with
          prev := if after.head? = some b then before.getLast? else node.prev
          next := if before.getLast? = some b then after.head? else node.next } := by
  obtain ⟨client, hclient, hprev, hnext⟩ := hh.node before a after rfl
  have hfirst := hh.first_eq
  have hread := read_eq hclient
  -- the four cases are: no neighbour, a next one, a previous one, both
  rcases List.eq_nil_or_concat before with rfl | ⟨before, p, rfl⟩ <;>
    rcases after with _ | ⟨n, after⟩
  · refine ⟨{ h with first := none }, ?_, rfl, fun b => by simp⟩
    simp_all [dislink, bind, Except.bind, pure, Except.pure]
  · obtain ⟨next, hcell⟩ := hh.live (by simp : n ∈ [] ++ a :: n :: after)
    refine ⟨⟨Function.update h.cell n (some { next with prev := none }), some n⟩, ?_, rfl, ?_⟩
    · simp_all [dislink, write, bind, Except.bind]
    · intro b
      by_cases hb : b = n
      · simp [hb, hcell]
      · have hnb : ¬ n = b := fun heq => hb heq.symm
        simp [hb, hnb]
  · obtain ⟨previous, hcell⟩ := hh.live (a := p) (by simp)
    refine ⟨{ h with cell := Function.update h.cell p (some { previous with next := none }) },
      ?_, ?_, ?_⟩
    · simp_all [dislink, write, bind, Except.bind]
    · cases before <;> simp_all
    · intro b
      by_cases hb : b = p
      · simp [hb, hcell]
      · have hpb : ¬ p = b := fun heq => hb heq.symm
        simp [hb, hpb]
  · obtain ⟨previous, hcell⟩ := hh.live (a := p) (by simp)
    obtain ⟨next, hcell'⟩ := hh.live (a := n) (by simp)
    have hne : n ≠ p := by
      rintro rfl
      have hnodup := hh.nodup
      simp [List.nodup_append] at hnodup
    refine ⟨⟨Function.update (Function.update h.cell p (some { previous with next := some n })) n
      (some { next with prev := some p }), h.first⟩, ?_, ?_, ?_⟩
    · simp_all [dislink, write, bind, Except.bind]
    · cases before <;> simp_all
    · intro b
      by_cases hbn : b = n
      · subst hbn
        have hpb : ¬ p = b := fun heq => hne heq.symm
        simp [hcell', hpb]
      · have hnb : ¬ n = b := fun heq => hbn heq.symm
        by_cases hbp : b = p
        · simp [hbp, hne.symm, hne, hcell]
        · have hpb : ¬ p = b := fun heq => hbp heq.symm
          simp [hbn, hbp, hnb, hpb]

/-- **Removal.**  The list stays well formed, without the node. -/
theorem Represents.dislink {before after : List ℕ} (hh : h.Represents (before ++ a :: after)) :
    ∃ h', h.dislink a = .ok h' ∧ h'.Represents (before ++ after) ∧ h'.valueAt = h.valueAt := by
  obtain ⟨h', hdislink, hfirst, hcell⟩ := hh.dislink_eq
  have hnodup := hh.nodup
  have hdisjoint := (List.nodup_append.mp hnodup).2.2
  refine ⟨h', hdislink, ⟨hnodup.sublist (by simp), hfirst, fun left b right heq => ?_⟩,
    valueAt_eq_of_links hcell⟩
  rcases List.append_eq_append_iff.mp heq with ⟨middle, rfl, rfl⟩ | ⟨middle, rfl, hright⟩
  · -- `b` comes after the removed node
    obtain ⟨node, hnode, hprev, hnext⟩ := hh.node (before ++ a :: middle) b right (by simp)
    have hlast : before.getLast? ≠ some b := fun hlast =>
      hdisjoint b (List.mem_of_getLast? hlast) b (by simp) rfl
    refine ⟨_, (hcell b).trans (congrArg (Option.map _) hnode), ?_, by simp [hlast, hnext]⟩
    cases middle with
    | nil => simp
    | cons c middle =>
        have hcb : ¬ c = b := by
          rintro rfl
          simp [List.nodup_append] at hnodup
        simp [hcb, hprev, List.getLast?_append]
  · cases middle with
    | nil =>
        -- `b` follows it
        obtain rfl : b :: right = after := hright
        obtain ⟨node, hnode, hprev, hnext⟩ := hh.node (left ++ [a]) b right (by simp)
        have hlast : left.getLast? ≠ some b := fun hlast =>
          hdisjoint b (by simpa using List.mem_of_getLast? hlast) b (by simp) rfl
        exact ⟨_, (hcell b).trans (congrArg (Option.map _) hnode), by simp, by simp [hlast, hnext]⟩
    | cons c middle =>
        -- `b` comes before it
        obtain ⟨rfl, rfl⟩ := List.cons.inj hright
        obtain ⟨node, hnode, hprev, hnext⟩ := hh.node left b (middle ++ a :: after) (by simp)
        have hhead : after.head? ≠ some b := fun hhead =>
          hdisjoint b (by simp) b (by simp [List.mem_of_head? hhead]) rfl
        refine ⟨_, (hcell b).trans (congrArg (Option.map _) hnode), by simp [hhead, hprev], ?_⟩
        cases middle with
        | nil => simp
        | cons d middle =>
            have hlast : (d :: middle).getLast? ≠ some b := by
              intro hlast
              have hb := List.mem_of_getLast? hlast
              have hleft := (List.nodup_append.mp (List.nodup_append.mp hnodup).1).2.1
              exact (List.nodup_cons.mp hleft).1 hb
            have hlast' : (left ++ b :: d :: middle).getLast? ≠ some b := by
              simpa [List.getLast?_append] using hlast
            simp only [hlast', if_false, hnext]
            simp

/-- Removal leaves the nodes alone that are not on the list. -/
theorem Represents.dislink_frame {before after : List ℕ}
    (hh : h.Represents (before ++ a :: after)) (hdislink : h.dislink a = .ok h') {b : ℕ}
    (hb : b ∉ before ++ a :: after) : h'.cell b = h.cell b := by
  obtain ⟨h'', hdislink', -, hcell⟩ := hh.dislink_eq
  obtain rfl : h'' = h' := Except.ok.inj (hdislink'.symm.trans hdislink)
  -- the neighbours that are linked to each other are on the list
  have hafter : after.head? ≠ some b := fun hhead => hb (by simp [List.mem_of_head? hhead])
  have hbefore : before.getLast? ≠ some b := fun hlast =>
    hb (by simp [List.mem_of_getLast? hlast])
  rw [hcell]
  cases h.cell b <;> simp [hafter, hbefore]

/-- One of the three branches of `dislink` always applies. -/
theorem dislink_ne_notLinked (h : LinkedHeap Val) (a : ℕ) : h.dislink a ≠ .error .notLinked := by
  have hwrite : ∀ (h : LinkedHeap Val) p f, h.write p f ≠ .error .notLinked := by
    intro h p f
    unfold write
    split
    · simp
    · split <;> simp
  unfold dislink read
  cases (some a).bind h.cell with
  | none => simp [bind, Except.bind]
  | some client =>
      simp only [bind, Except.bind]
      split_ifs with hhead hrest hlast hmiddle
      · exact hwrite _ _ _
      · simp [pure, Except.pure]
      · exact hwrite _ _ _
      · cases hresult : h.write client.prev fun node => { node with next := client.next } with
        | error fault =>
            intro heq
            exact hwrite _ _ _ (hresult.trans heq)
        | ok linked => exact hwrite _ _ _
      · exact absurd ⟨hhead, fun hnext => hlast ⟨hhead, hnext⟩⟩ hmiddle

/-- **Removal of a node that is then freed.** -/
theorem Represents.dislink_free {before after : List ℕ} (hh : h.Represents (before ++ a :: after)) :
    ∃ linked freed, h.dislink a = .ok linked ∧ linked.free a = .ok freed ∧
      freed.Represents (before ++ after) ∧ freed.cell a = none ∧
      (∀ b, b ≠ a → freed.valueAt b = h.valueAt b) ∧
      ∀ b, b ∉ before ++ a :: after → freed.cell b = h.cell b := by
  obtain ⟨linked, hdislink, hrep, hvalue⟩ := hh.dislink
  obtain ⟨linked', hdislink', -, hcell⟩ := hh.dislink_eq
  obtain rfl : linked' = linked := Except.ok.inj (hdislink'.symm.trans hdislink)
  obtain ⟨node, hnode⟩ := hh.live (by simp : a ∈ before ++ a :: after)
  have hnew : a ∉ before ++ after :=
    (List.nodup_cons.mp (List.nodup_middle.mp hh.nodup)).1
  obtain ⟨freed, hfree, hrep', hcell'⟩ := hrep.free hnew ((hcell a).trans (congrArg _ hnode))
  refine ⟨_, freed, hdislink, hfree, hrep', by simp [hcell'], fun b hb => ?_, fun b hb => ?_⟩
  · rw [← hvalue, valueAt, valueAt, hcell', Function.update_of_ne hb]
  · have hba : b ≠ a := by
      rintro rfl
      simp at hb
    rw [hcell', Function.update_of_ne hba, hh.dislink_frame hdislink hb]

/-! ## Walking over a list -/

/-- The contents of the nodes. -/
def values (h : LinkedHeap Val) (addrs : List ℕ) : List Val := addrs.filterMap h.valueAt

theorem values_cons {node : LinkedNode Val} (hnode : h.cell a = some node) (rest : List ℕ) :
    h.values (a :: rest) = node.value :: h.values rest := by
  simp [values, valueAt, hnode]

theorem Represents.length_values (hh : h.Represents addrs) :
    (h.values addrs).length = addrs.length := by
  apply List.filterMap_length_eq_length.mpr
  intro b hb
  obtain ⟨node, hnode⟩ := hh.live hb
  simp [valueAt, hnode]

/-- A walk stands at a node whose successor is the rest of the list. -/
theorem Represents.read_head {before after : List ℕ} (hh : h.Represents (before ++ a :: after)) :
    ∃ node, h.read (some a) = .ok node ∧ h.cell a = some node ∧ node.next = after.head? := by
  obtain ⟨node, hnode, -, hnext⟩ := hh.node before a after rfl
  exact ⟨node, read_eq hnode, hnode, hnext⟩

theorem Represents.sizeLoop_eq {before after : List ℕ} (hh : h.Represents (before ++ after))
    {fuel : ℕ} (hfuel : after.length < fuel) (i : ℕ) :
    h.sizeLoop fuel after.head? i = .ok (i + after.length) := by
  induction after generalizing before fuel i with
  | nil =>
      obtain ⟨fuel, rfl⟩ := Nat.exists_eq_succ_of_ne_zero (Nat.ne_of_gt hfuel)
      rfl
  | cons a after ih =>
      obtain ⟨fuel, rfl⟩ := Nat.exists_eq_succ_of_ne_zero (by omega : fuel ≠ 0)
      obtain ⟨node, hread, -, hnext⟩ := hh.read_head
      have hrest := @ih (before ++ [a]) (by simpa using hh) fuel (by simpa using hfuel) (i + 1)
      simp only [List.head?_cons, sizeLoop, hread, bind, Except.bind, hnext]
      split_ifs with hlast
      · rw [List.head?_eq_none_iff.mp hlast]
        rfl
      · rw [hrest, List.length_cons]
        congr 1
        omega

/-- **Counting.** -/
theorem Represents.size_eq (hh : h.Represents addrs) {fuel : ℕ} (hfuel : addrs.length < fuel) :
    h.size fuel = .ok addrs.length := by
  have hloop := @Represents.sizeLoop_eq _ h [] addrs hh fuel hfuel 0
  rw [size, hh.first_eq, hloop, Nat.zero_add]

/-- More fuel does not change a count. -/
theorem sizeLoop_mono {fuel fuel' : ℕ} (hle : fuel ≤ fuel') {p : Option ℕ} {i n : ℕ}
    (hloop : h.sizeLoop fuel p i = .ok n) : h.sizeLoop fuel' p i = .ok n := by
  induction fuel generalizing fuel' p i with
  | zero => simp [sizeLoop] at hloop
  | succ fuel ih =>
      obtain ⟨fuel', rfl⟩ := Nat.exists_eq_succ_of_ne_zero (by omega : fuel' ≠ 0)
      cases p with
      | none => exact hloop
      | some a =>
          simp only [sizeLoop, bind, Except.bind] at hloop ⊢
          cases hread : h.read (some a) with
          | error fault => simp [hread] at hloop
          | ok temp =>
              simp only [hread] at hloop ⊢
              split_ifs with hlast
              · rwa [if_pos hlast] at hloop
              · rw [if_neg hlast] at hloop
                exact ih (by omega) hloop

theorem Represents.eq_length_of_size (hh : h.Represents addrs) {fuel n : ℕ}
    (hsize : h.size fuel = .ok n) : n = addrs.length := by
  have hmore : h.size (fuel + addrs.length + 1) = .ok n := sizeLoop_mono (by omega) hsize
  rw [hh.size_eq (by omega)] at hmore
  exact (Except.ok.inj hmore).symm

/-- **The counted loop** runs its body over the contents of the first `n` nodes, in order.  It does
not look at `temp` when there is nothing to count, and stops at the end of the list otherwise. -/
theorem Represents.forLoop_take {before after : List ℕ} (hh : h.Represents (before ++ after))
    (onFault : Fault → Stop) (body : State → Val → Except Stop State) {n : ℕ}
    (hn : n = 0 ∨ after ≠ []) (s : State) :
    h.forLoop onFault body n after.head? s = (h.values (after.take n)).foldlM body s := by
  induction n generalizing before after s with
  | zero =>
      rw [List.take_zero]
      rfl
  | succ n ih =>
      obtain ⟨a, after, rfl⟩ := List.exists_cons_of_ne_nil (hn.resolve_left (Nat.succ_ne_zero n))
      obtain ⟨node, hread, hnode, hnext⟩ := hh.read_head
      simp only [List.head?_cons, forLoop, hread, List.take_succ_cons, values_cons hnode,
        List.foldlM_cons, hnext, bind, Except.bind]
      cases body s node.value with
      | error stop => rfl
      | ok s =>
          dsimp only
          split_ifs with hlast
          · rw [List.head?_eq_none_iff.mp hlast, List.take_nil]
            rfl
          · have hne : after ≠ [] := fun hnil => hlast (List.head?_eq_none_iff.mpr hnil)
            exact @ih (before ++ [a]) after (by simpa using hh) (.inr hne) s

/-- With a count that is right, it runs over the whole list. -/
theorem Represents.forLoop_eq {before after : List ℕ} (hh : h.Represents (before ++ after))
    (onFault : Fault → Stop) (body : State → Val → Except Stop State) (s : State) :
    h.forLoop onFault body after.length after.head? s = (h.values after).foldlM body s := by
  have hn : after.length = 0 ∨ after ≠ [] := by
    rw [List.length_eq_zero_iff]
    exact em _
  rw [hh.forLoop_take onFault body hn, List.take_length]

/-- A loop that ends keeps what its body keeps, whatever the list looks like. -/
theorem forLoop_preserves {onFault : Fault → Stop} {body : State → Val → Except Stop State}
    {kept : State → Prop} (hbody : ∀ s v s', body s v = .ok s' → kept s → kept s') {n : ℕ}
    {temp : Option ℕ} {s s' : State} (hloop : h.forLoop onFault body n temp s = .ok s')
    (hs : kept s) : kept s' := by
  induction n generalizing temp s with
  | zero =>
      obtain rfl : s = s' := Except.ok.inj hloop
      exact hs
  | succ n ih =>
      rw [forLoop] at hloop
      cases hread : h.read temp with
      | error fault => simp [hread] at hloop
      | ok node =>
          simp only [hread, bind, Except.bind] at hloop
          cases hstep : body s node.value with
          | error stop => simp [hstep] at hloop
          | ok middle =>
              simp only [hstep] at hloop
              split_ifs at hloop
              · obtain rfl : middle = s' := Except.ok.inj hloop
                exact hbody _ _ _ hstep hs
              · exact ih hloop (hbody _ _ _ hstep hs)

/-- **The uncounted loop** does the same. -/
theorem Represents.whileLoop_eq {before after : List ℕ} (hh : h.Represents (before ++ after))
    (onFault : Fault → Stop) (body : State → Val → Except Stop State) {fuel : ℕ}
    (hfuel : after.length < fuel) (s : State) :
    h.whileLoop onFault body fuel after.head? s = (h.values after).foldlM body s := by
  induction after generalizing before fuel s with
  | nil =>
      obtain ⟨fuel, rfl⟩ := Nat.exists_eq_succ_of_ne_zero (Nat.ne_of_gt hfuel)
      rfl
  | cons a after ih =>
      obtain ⟨fuel, rfl⟩ := Nat.exists_eq_succ_of_ne_zero (by omega : fuel ≠ 0)
      obtain ⟨node, hread, hnode, hnext⟩ := hh.read_head
      have hrest := fun s => @ih (before ++ [a]) (by simpa using hh) fuel (by simpa using hfuel) s
      simp only [List.head?_cons, whileLoop, hread, values_cons hnode, List.foldlM_cons, hnext,
        bind, Except.bind]
      cases body s node.value with
      | error stop => rfl
      | ok s =>
          dsimp only
          split_ifs with hlast
          · rw [List.head?_eq_none_iff.mp hlast]
            rfl
          · exact hrest s

/-! ## Contents

What the operations do to the contents of the nodes, on a list that may be malformed. -/

theorem valueAt_write {p : Option ℕ} {f : LinkedNode Val → LinkedNode Val}
    (hwrite : h.write p f = .ok h') (hf : ∀ node, (f node).value = node.value) :
    h'.valueAt = h.valueAt := by
  cases p with
  | none => cases hwrite
  | some a =>
      cases hnode : h.cell a with
      | none => simp [write, hnode] at hwrite
      | some node =>
          rw [write_eq hnode] at hwrite
          obtain rfl := Except.ok.inj hwrite
          funext b
          by_cases hba : b = a
          · subst hba
            simp [valueAt, hnode, hf]
          · simp [valueAt, hba]

theorem valueAt_linkFirst (hlink : h.linkFirst a = .ok h') : h'.valueAt = h.valueAt := by
  unfold linkFirst at hlink
  split_ifs at hlink
  · obtain rfl := Except.ok.inj hlink
    rfl
  · cases hfirst : h.write h.first fun node => { node with prev := some a } with
    | error fault => simp [hfirst, bind, Except.bind] at hlink
    | ok linked =>
        cases hsecond : linked.write (some a) fun node => { node with next := h.first } with
        | error fault => simp [hfirst, hsecond, bind, Except.bind] at hlink
        | ok linked' =>
            simp only [hfirst, hsecond, bind, Except.bind] at hlink
            obtain rfl := Except.ok.inj hlink
            calc ({ linked' with first := some a } : LinkedHeap Val).valueAt = linked'.valueAt := rfl
              _ = linked.valueAt := valueAt_write hsecond fun _ => rfl
              _ = h.valueAt := valueAt_write hfirst fun _ => rfl

theorem valueAt_dislink (hdislink : h.dislink a = .ok h') : h'.valueAt = h.valueAt := by
  unfold dislink at hdislink
  cases hread : h.read (some a) with
  | error fault => simp [hread, bind, Except.bind] at hdislink
  | ok client =>
      simp only [hread, bind, Except.bind] at hdislink
      split_ifs at hdislink
      · exact @valueAt_write _ { h with first := client.next } _ _ _ hdislink fun _ => rfl
      · obtain rfl := Except.ok.inj hdislink
        rfl
      · exact valueAt_write hdislink fun _ => rfl
      · cases hfirst : h.write client.prev fun node => { node with next := client.next } with
        | error fault => simp [hfirst] at hdislink
        | ok linked =>
            simp only [hfirst] at hdislink
            exact (valueAt_write hdislink fun _ => rfl).trans
              (valueAt_write hfirst fun _ => rfl)

/-- A node that is freed holds nothing any more, and the others hold what they held. -/
theorem valueAt_free (hfree : h.free a = .ok h') (b : ℕ) :
    h'.valueAt b = if b = a then none else h.valueAt b := by
  unfold free at hfree
  split at hfree
  · obtain rfl := Except.ok.inj hfree
    by_cases hba : b = a
    · subst hba
      simp [valueAt]
    · simp [valueAt, hba]
  · cases hfree

end LinkedHeap
