import NetworkHomework.Foundation.Transition
import Mathlib.Data.Nat.Notation

/-!
# What a system can still do

`CanReach allowed goal s`: some run of allowed actions leads from `s` to a state with
`goal`.  A schedule that brings the goal nearer by a measure shows that it can be
reached, and an invariant of the allowed steps that excludes the goal shows that it
cannot.  Where every allowed step uses up exactly one unit of a measure, the measure is
the number of steps the system has left.  Where the states have ranks and every step that
meets a condition leads to a lower one, no run of such steps is longer than the rank it
starts with.
-/

namespace TransitionSystem

variable {State Action : Type*} (system : TransitionSystem State Action)

/-- Some run of allowed actions leads to a state with `goal`. -/
def CanReach (allowed : Action → Prop) (goal : State → Prop) (s : State) : Prop :=
  ∃ actions s', (∀ a ∈ actions, allowed a) ∧ system.run s actions = some s' ∧ goal s'

variable {system} {allowed : Action → Prop} {goal inv : State → Prop} {s s' : State}

/-! ## Runs in two parts -/

theorem run_append {first second : List Action} :
    system.run s (first ++ second) = some s' ↔
      ∃ middle, system.run s first = some middle ∧ system.run middle second = some s' := by
  induction first generalizing s with
  | nil => simp [run]
  | cons a rest ih =>
      simp only [List.cons_append, run_cons, ih]
      refine ⟨fun h => ?_, fun h => ?_⟩
      · obtain ⟨next, hstep, middle, hrest, hsecond⟩ := h
        exact ⟨middle, ⟨next, hstep, hrest⟩, hsecond⟩
      · obtain ⟨middle, ⟨next, hstep, hrest⟩, hsecond⟩ := h
        exact ⟨next, hstep, middle, hrest, hsecond⟩

/-- What allowed steps keep, a run of them keeps. -/
theorem run_invariant (hstep : ∀ s a s', inv s → allowed a → system.step s a = some s' → inv s')
    {actions : List Action} (hallowed : ∀ a ∈ actions, allowed a)
    (hrun : system.run s actions = some s') (hs : inv s) : inv s' := by
  induction actions generalizing s with
  | nil =>
      obtain rfl : s = s' := Option.some.inj hrun
      exact hs
  | cons a rest ih =>
      obtain ⟨middle, hmiddle, hrest⟩ := run_cons.mp hrun
      have hhead := hallowed a List.mem_cons_self
      exact ih (fun b hb => hallowed b (List.mem_cons_of_mem a hb)) hrest
        (hstep s a middle hs hhead hmiddle)

/-! ## Reaching a goal -/

theorem CanReach.here (h : goal s) : system.CanReach allowed goal s :=
  ⟨[], s, fun _ ha => absurd ha List.not_mem_nil, rfl, h⟩

theorem CanReach.step {a : Action} (ha : allowed a) (hstep : system.step s a = some s')
    (h : system.CanReach allowed goal s') : system.CanReach allowed goal s := by
  obtain ⟨actions, last, hallowed, hrun, hgoal⟩ := h
  refine ⟨a :: actions, last, fun b hb => ?_, run_cons.mpr ⟨s', hstep, hrun⟩, hgoal⟩
  rcases List.mem_cons.mp hb with rfl | hb
  · exact ha
  · exact hallowed b hb

theorem CanReach.imp {wider : Action → Prop} (h : system.CanReach allowed goal s)
    (hallowed : ∀ a, allowed a → wider a) : system.CanReach wider goal s := by
  obtain ⟨actions, s', hall, hrun, hgoal⟩ := h
  exact ⟨actions, s', fun a ha => hallowed a (hall a ha), hrun, hgoal⟩

/-- A goal reached by way of another. -/
theorem CanReach.trans {middle : State → Prop} (h : system.CanReach allowed middle s)
    (hgoal : ∀ s', middle s' → system.CanReach allowed goal s') :
    system.CanReach allowed goal s := by
  obtain ⟨first, t, hfirst, hrun, hmiddle⟩ := h
  obtain ⟨second, last, hsecond, hrest, hlast⟩ := hgoal t hmiddle
  refine ⟨first ++ second, last, fun a ha => ?_, run_append.mpr ⟨t, hrun, hrest⟩, hlast⟩
  rcases List.mem_append.mp ha with ha | ha
  · exact hfirst a ha
  · exact hsecond a ha

/-- **Progress.**  A goal can be reached where a schedule always either reaches it or brings down
a measure. -/
theorem CanReach.of_measure (inv : State → Prop) (measure : State → ℕ)
    (hprogress : ∀ s, inv s →
      system.CanReach allowed (fun s' => goal s' ∨ inv s' ∧ measure s' < measure s) s)
    (hs : inv s) : system.CanReach allowed goal s := by
  induction hn : measure s using Nat.strongRecOn generalizing s with
  | ind n ih =>
      apply (hprogress s hs).trans
      intro s' hs'
      rcases hs' with hgoal | ⟨hinv, hlt⟩
      · exact .here hgoal
      · exact ih (measure s') (hn ▸ hlt) hinv rfl

/-- An invariant that excludes the goal. -/
theorem not_canReach (inv : State → Prop)
    (hstep : ∀ s a s', inv s → allowed a → system.step s a = some s' → inv s')
    (hgoal : ∀ s, inv s → ¬ goal s) (hs : inv s) : ¬ system.CanReach allowed goal s := by
  intro hreach
  obtain ⟨actions, s', hallowed, hrun, hreached⟩ := hreach
  exact hgoal s' (run_invariant hstep hallowed hrun hs) hreached

/-! ## Steps left -/

/-- Where every allowed step uses up one unit of a measure, a run uses up as much as it is long. -/
theorem length_add_of_run (measure : State → ℕ)
    (hstep : ∀ s a s', inv s → allowed a → system.step s a = some s' →
      inv s' ∧ measure s' + 1 = measure s)
    {actions : List Action} (hallowed : ∀ a ∈ actions, allowed a)
    (hrun : system.run s actions = some s') (hs : inv s) :
    actions.length + measure s' = measure s := by
  induction actions generalizing s with
  | nil =>
      obtain rfl : s = s' := Option.some.inj hrun
      exact Nat.zero_add _
  | cons a rest ih =>
      obtain ⟨middle, hmiddle, hrest⟩ := run_cons.mp hrun
      obtain ⟨hinv, hmeasure⟩ := hstep s a middle hs (hallowed a List.mem_cons_self) hmiddle
      have htail := ih (fun b hb => hallowed b (List.mem_cons_of_mem a hb)) hrest hinv
      rw [List.length_cons]
      omega

/-- Where every step that meets `guard` leads to a lower rank, a run of such steps is no longer than
the rank it starts with. -/
theorem length_add_le_of_ranked {guard : State → Action → Prop} {ranked : ℕ → State → Prop}
    (hstep : ∀ r s a s', ranked r s → guard s a → system.step s a = some s' →
      ∃ r' < r, ranked r' s')
    {actions : List Action} (hmeet : system.StepsMeet guard s actions)
    (hrun : system.run s actions = some s') {r : ℕ} (hs : ranked r s) :
    ∃ r', ranked r' s' ∧ actions.length + r' ≤ r := by
  induction actions generalizing s r with
  | nil =>
      obtain rfl : s = s' := Option.some.inj hrun
      exact ⟨r, hs, Nat.le_of_eq (Nat.zero_add r)⟩
  | cons a rest ih =>
      obtain ⟨middle, hmiddle, hrest⟩ := run_cons.mp hrun
      obtain ⟨lower, hlt, hranked⟩ := hstep r s a middle hs hmeet.1 hmiddle
      obtain ⟨r', hlast, hle⟩ := ih (hmeet.2 middle hmiddle) hrest hranked
      refine ⟨r', hlast, ?_⟩
      rw [List.length_cons]
      omega

end TransitionSystem
