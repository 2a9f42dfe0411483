import NetworkHomework.Chat.Header
import NetworkHomework.Foundation.Transition

/-!
# The message queue

A session queues a message in a node that `malloc` returns, writes all its fields but
the two links, and links it; the dispatcher takes the head off and frees it until the
queue is empty.  `MessageLinkToList` writes `next` only if the queue was not empty, and
nothing ever writes the `prev` of a node that is linked, so that the list depends on
what `malloc` left there.

The theorem says on what exactly: the list is well formed after every operation of a
run if and only if every node came with `prev` NULL, and with `next` NULL where it was
linked into an empty queue.
-/

namespace NetworkHomework.Chat

open LinkedHeap

/-- The message a session queues for the text it received. -/
def newMessage (client : Member) (recvMessage : List UInt8) : Message :=
  { thread := client.thread, fromName := client.name, message := recvMessage,
    senderGroup := client.group }

/-- `while (MessageListSize() > 0)`: dislink the head and free it.  `freed` lists the nodes freed
so far. -/
def drainLoop : ℕ → MessageHeap → List ℕ → Except Fault (MessageHeap × List ℕ)
  | 0, _, _ => .error .outOfFuel
  | fuel + 1, h, freed => do
      let size ← messageListSize h (fuel + 1)
      if size = 0 then return (h, freed)
      else
        match h.first with
        | none => throw .deadPointer
        | some tempM => do
            let h ← messageDislinkToList h tempM
            let h ← h.free tempM
            drainLoop fuel h (freed ++ [tempM])

/-- The queue in memory; `queued` is history: the nodes queued and not yet freed, newest first. -/
structure Queue where
  heap : MessageHeap
  queued : List ℕ

-- `malloc` returns the node `a` with `prev` and `next` in its link fields; the fuel bounds the
-- loops of the dispatcher, which may not end
inductive QueueAction
  | enqueue (client : Member) (recvMessage : List UInt8) (a : ℕ) (prev next : Option ℕ)
  | drain (fuel : ℕ)

namespace Queue

def enqueue (s : Queue) (m : Message) (a : ℕ) (prev next : Option ℕ) : Except Fault Queue := do
  let h ← messageLinkToList (s.heap.malloc a ⟨m, prev, next⟩) a
  return { heap := h, queued := a :: s.queued }

/-- A drain, and the nodes it freed. -/
def drain (s : Queue) (fuel : ℕ) : Except Fault (Queue × List ℕ) := do
  let (h, freed) ← drainLoop fuel s.heap []
  return ({ heap := h, queued := s.queued.filter (· ∉ freed) }, freed)

def step (s : Queue) : QueueAction → Option Queue
  | .enqueue client recvMessage a prev next =>
      if s.heap.cell a = none then
        (s.enqueue (newMessage client recvMessage) a prev next).toOption
      else none
  | .drain fuel => ((s.drain fuel).map Prod.fst).toOption

/-- No message was ever queued. -/
def start : Queue := ⟨⟨fun _ => none, none⟩, []⟩

end Queue

/-- The runs of the sessions and the dispatcher on the queue. -/
def queueSystem : TransitionSystem Queue QueueAction where
  initial s := s = Queue.start
  step := Queue.step

/-- The queue is a well-formed list of the queued nodes, `MessageListSize` returns its length, and
a drain, given fuel for its loops, leaves it empty and frees each node once. -/
structure QueueOk (s : Queue) : Prop where
  listed : s.heap.Represents s.queued
  size : ∀ fuel, s.queued.length < fuel → messageListSize s.heap fuel = .ok s.queued.length
  drained : ∀ fuel, s.queued.length < fuel → ∃ s', s.drain fuel = .ok (s', s.queued) ∧
    s'.heap.first = none ∧ s'.queued = [] ∧ ∀ a ∈ s.queued, s'.heap.cell a = none

/-- `malloc` returned a node whose links may stay as they are. -/
def LinksNull (s : Queue) : QueueAction → Prop
  | .enqueue _ _ _ prev next => prev = none ∧ (s.heap.first = none → next = none)
  | .drain _ => True

instance (s : Queue) : (a : QueueAction) → Decidable (LinksNull s a)
  | .enqueue _ _ _ prev next =>
      inferInstanceAs (Decidable (prev = none ∧ (s.heap.first = none → next = none)))
  | .drain _ => inferInstanceAs (Decidable True)

/-! ## Draining a well-formed queue -/

/-- The head is dislinked and freed. -/
theorem drainLoop_cons {h : MessageHeap} {a : ℕ} {rest : List ℕ}
    (hh : h.Represents (a :: rest)) {fuel : ℕ}
    (hsize : messageListSize h (fuel + 1) = .ok (rest.length + 1)) (freed : List ℕ) :
    ∃ h', drainLoop (fuel + 1) h freed = drainLoop fuel h' (freed ++ [a]) ∧
      h'.Represents rest ∧ h'.cell a = none ∧ ∀ b, h.cell b = none → h'.cell b = none := by
  have hfirst : h.first = some a := hh.first_eq
  obtain ⟨linked, h', hdislink, hfree, hrep, hfreed, -, hkeep⟩ :=
    @Represents.dislink_free _ _ _ [] rest hh
  refine ⟨h', ?_, hrep, hfreed, fun b hb => ?_⟩
  · rw [drainLoop, hsize]
    simp only [bind, Except.bind, hfirst, messageDislinkToList, hdislink, hfree]
    rfl
  · have hunlisted : b ∉ a :: rest := by
      intro hmem
      obtain ⟨node, hnode⟩ := hh.live hmem
      simp [hb] at hnode
    exact (hkeep b hunlisted).trans hb

/-- **A drain of a well-formed queue** empties it and frees its nodes in order. -/
theorem drainLoop_eq {h : MessageHeap} {addrs : List ℕ} (hh : h.Represents addrs) {fuel : ℕ}
    (hfuel : addrs.length < fuel) (freed : List ℕ) :
    ∃ h', drainLoop fuel h freed = .ok (h', freed ++ addrs) ∧ h'.first = none ∧
      (∀ a ∈ addrs, h'.cell a = none) ∧ ∀ b, h.cell b = none → h'.cell b = none := by
  induction addrs generalizing h fuel freed with
  | nil =>
      obtain ⟨fuel, rfl⟩ := Nat.exists_eq_succ_of_ne_zero (Nat.ne_of_gt hfuel)
      have hsize := hh.size_eq (by simp : ([] : List ℕ).length < fuel + 1)
      refine ⟨h, ?_, hh.first_eq, by simp, fun b hb => hb⟩
      rw [drainLoop, messageListSize, hsize, List.append_nil]
      rfl
  | cons a rest ih =>
      obtain ⟨fuel, rfl⟩ := Nat.exists_eq_succ_of_ne_zero (by omega : fuel ≠ 0)
      have hfuel' : rest.length < fuel := by simpa using hfuel
      obtain ⟨linked, hloop, hrep, hdead, hkeep⟩ := drainLoop_cons hh (hh.size_eq hfuel) freed
      obtain ⟨h', hrest, hfirst, hfreed, hkeep'⟩ := ih hrep hfuel' (freed ++ [a])
      refine ⟨h', ?_, hfirst, fun b hb => ?_, fun b hb => hkeep' b (hkeep b hb)⟩
      · rw [hloop, hrest, List.append_assoc, List.singleton_append]
      · rcases List.mem_cons.mp hb with rfl | hb
        · exact hkeep' b hdead
        · exact hfreed b hb

/-- A drain that returns, with whatever fuel, has freed all the nodes. -/
theorem drainLoop_ok {h h' : MessageHeap} {addrs freed freed' : List ℕ} (hh : h.Represents addrs)
    {fuel : ℕ} (hloop : drainLoop fuel h freed = .ok (h', freed')) :
    h'.first = none ∧ freed' = freed ++ addrs := by
  induction fuel generalizing h addrs freed with
  | zero => simp [drainLoop] at hloop
  | succ fuel ih =>
      cases hsize : messageListSize h (fuel + 1) with
      | error fault =>
          rw [drainLoop, hsize] at hloop
          simp [bind, Except.bind] at hloop
      | ok size =>
          have hlength := hh.eq_length_of_size hsize
          cases addrs with
          | nil =>
              subst hlength
              rw [drainLoop, hsize] at hloop
              obtain ⟨rfl, rfl⟩ := Prod.mk.inj (Except.ok.inj hloop)
              exact ⟨hh.first_eq, (List.append_nil _).symm⟩
          | cons a rest =>
              subst hlength
              obtain ⟨linked, heq, hrep, -⟩ := drainLoop_cons hh hsize freed
              rw [heq] at hloop
              obtain ⟨hfirst, hfreed⟩ := ih hrep hloop
              rw [List.append_assoc, List.singleton_append] at hfreed
              exact ⟨hfirst, hfreed⟩

theorem queueOk_of_represents {s : Queue} (hh : s.heap.Represents s.queued) : QueueOk s := by
  refine ⟨hh, fun fuel hfuel => hh.size_eq hfuel, fun fuel hfuel => ?_⟩
  obtain ⟨h', hloop, hfirst, hfreed, -⟩ := drainLoop_eq hh hfuel []
  refine ⟨⟨h', s.queued.filter (· ∉ s.queued)⟩, ?_, hfirst, ?_, hfreed⟩
  · rw [Queue.drain, hloop]
    rfl
  · simp

/-! ## Every run -/

/-- A message queued in a well-formed queue leaves it so exactly if its links were NULL where
nothing writes them. -/
theorem queueOk_enqueue_iff {s s' : Queue} (hs : QueueOk s) {m : Message} {a : ℕ}
    {prev next : Option ℕ} (hdead : s.heap.cell a = none)
    (hstep : s.enqueue m a prev next = .ok s') :
    QueueOk s' ↔ prev = none ∧ (s.heap.first = none → next = none) := by
  have hrep := hs.listed.malloc hdead ⟨m, prev, next⟩
  have hnew : a ∉ s.queued := by
    intro ha
    obtain ⟨node, hnode⟩ := hs.listed.live ha
    simp [hdead] at hnode
  have hnode : (s.heap.malloc a ⟨m, prev, next⟩).cell a = some ⟨m, prev, next⟩ := by
    simp [LinkedHeap.malloc]
  obtain ⟨h', hlink, -⟩ := hrep.linkFirst_eq hnew hnode
  obtain rfl : (⟨h', a :: s.queued⟩ : Queue) = s' := by
    rw [Queue.enqueue, messageLinkToList, hlink] at hstep
    exact Except.ok.inj hstep
  have hempty : s.heap.first = none ↔ s.queued = [] := by
    rw [hs.listed.first_eq, List.head?_eq_none_iff]
  rw [hempty, ← hrep.linkFirst_iff hnew hnode hlink]
  exact ⟨fun hok => hok.listed, fun hlisted => queueOk_of_represents hlisted⟩

theorem queueOk_drain {s s' : Queue} (hs : QueueOk s) {fuel : ℕ} {freed : List ℕ}
    (hstep : s.drain fuel = .ok (s', freed)) : QueueOk s' := by
  cases hloop : drainLoop fuel s.heap [] with
  | error fault =>
      rw [Queue.drain, hloop] at hstep
      simp [bind, Except.bind] at hstep
  | ok result =>
      obtain ⟨h', freed'⟩ := result
      rw [Queue.drain, hloop] at hstep
      obtain ⟨rfl, -⟩ := Prod.mk.inj (Except.ok.inj hstep)
      obtain ⟨hfirst, rfl⟩ := drainLoop_ok hs.listed hloop
      apply queueOk_of_represents
      rw [show s.queued.filter (· ∉ [] ++ s.queued) = [] by simp]
      exact represents_nil hfirst

theorem queueOk_step_iff {s s' : Queue} {a : QueueAction} (hs : QueueOk s)
    (hstep : s.step a = some s') : QueueOk s' ↔ LinksNull s a := by
  cases a with
  | enqueue client recvMessage a prev next =>
      simp only [Queue.step] at hstep
      split_ifs at hstep with hdead
      exact queueOk_enqueue_iff hs hdead (toOption_eq_some_iff.mp hstep)
  | drain fuel =>
      obtain ⟨⟨drained, freed⟩, hdrain, rfl⟩ :
          ∃ result, s.drain fuel = .ok result ∧ result.1 = s' := by
        have hok := toOption_eq_some_iff.mp hstep
        cases hdrain : s.drain fuel with
        | error fault => simp [hdrain, Except.map] at hok
        | ok result =>
            rw [hdrain] at hok
            exact ⟨result, rfl, Except.ok.inj hok⟩
      exact iff_of_true (queueOk_drain hs hdrain) trivial

theorem queueOk_start : QueueOk Queue.start := queueOk_of_represents (represents_nil rfl)

/-- **The message queue.**  In every run of enqueues and drains the queue is well formed after
every operation, and every drain empties it, if and only if `malloc` returned every node with
`prev` NULL, and with `next` NULL when the queue was empty. -/
theorem queueOk_throughout_iff {actions : List QueueAction} {s' : Queue}
    (hrun : queueSystem.run Queue.start actions = some s') :
    queueSystem.Throughout QueueOk Queue.start actions ↔
      queueSystem.StepsMeet LinksNull Queue.start actions :=
  TransitionSystem.throughout_iff_stepsMeet (fun _ => True) (fun _ _ _ _ _ => trivial)
    (fun _ _ _ _ hs hstep => queueOk_step_iff hs hstep) trivial queueOk_start hrun

/-! ## A reused node -/

namespace ReusedNode

def ann : Member := ⟨4, 0, CString.lit "ann", CString.lit "blue", 0⟩

/-- Two messages are queued and freed, and the node of the second one is used again, with `next`
in its last link. -/
def actions (next : Option ℕ) : List QueueAction :=
  [.enqueue ann (CString.lit "one") 1 none none, .enqueue ann (CString.lit "two") 2 none none,
    .drain 3, .enqueue ann (CString.lit "three") 2 none next]

/-- With NULL in it, all is well. -/
theorem queueOk_throughout_cleared :
    queueSystem.Throughout QueueOk Queue.start (actions none) := by
  have hrun : (queueSystem.run Queue.start (actions none)).isSome := by decide +kernel
  obtain ⟨s', hs'⟩ := Option.isSome_iff_exists.mp hrun
  exact (queueOk_throughout_iff hs').mpr (by decide +kernel)

/-- With what the first use left in it, the list goes on into freed memory. -/
theorem not_queueOk_throughout_stale : ¬ ∀ actions s',
    queueSystem.run Queue.start actions = some s' →
      queueSystem.Throughout QueueOk Queue.start actions := by
  intro hall
  have hlast : (queueSystem.run Queue.start (actions (some 1))).map
      (fun s => (s.queued, (s.heap.cell 2).map LinkedNode.next)) = some ([2], some (some 1)) := by
    decide +kernel
  obtain ⟨s', hs', hshape⟩ := Option.map_eq_some_iff.mp hlast
  obtain ⟨hqueued, hnext⟩ := Prod.mk.inj hshape
  have hok := (hall _ _ hs').last hs'
  obtain ⟨node, hnode, -, hnull⟩ := hok.listed.node [] 2 [] hqueued
  simp [hnode, hnull] at hnext

end ReusedNode

end NetworkHomework.Chat
