import Mathlib.Data.Option.Basic

/-!
# Runs of a guarded transition system

A system is a set of initial states and a step function: `step s a` is the state
after action `a`, and `none` when `a` is not enabled in `s`.  The step function
is executable, so that a concrete run can be evaluated, and the same definition
carries the proofs over all runs.

Two rules are used throughout:

* `ReachableUnder.invariant`: what holds initially and is kept by every step holds
  in every reachable state;
* `throughout_iff_stepsMeet`: where a step keeps a property exactly when it meets a
  condition, a run has the property throughout exactly when all its steps meet the
  condition.
-/

/-- A transition system with an executable step function. -/
structure TransitionSystem (State Action : Type*) where
  initial : State → Prop
  step : State → Action → Option State

namespace TransitionSystem

variable {State Action : Type*} (system : TransitionSystem State Action)

/-! ## Reachable states -/

/-- The states of the runs whose every step meets `guard`. -/
inductive ReachableUnder (guard : State → Action → Prop) : State → Prop
  | start {s : State} : system.initial s → ReachableUnder guard s
  | next {s s' : State} {a : Action} : ReachableUnder guard s → guard s a →
      system.step s a = some s' → ReachableUnder guard s'

/-- The states of all runs. -/
abbrev Reachable : State → Prop := system.ReachableUnder fun _ _ => True

variable {system} {guard weaker stronger : State → Action → Prop}

/-- An inductive invariant holds in every reachable state. -/
theorem ReachableUnder.invariant {inv : State → Prop}
    (hinitial : ∀ s, system.initial s → inv s)
    (hstep : ∀ s a s', inv s → guard s a → system.step s a = some s' → inv s')
    {s : State} (h : system.ReachableUnder guard s) : inv s := by
  induction h with
  | start hs => exact hinitial _ hs
  | next _ hguard hs ih => exact hstep _ _ _ ih hguard hs

/-- Fewer conditions on the steps, more reachable states. -/
theorem ReachableUnder.mono (hle : ∀ s a, guard s a → weaker s a)
    {s : State} (h : system.ReachableUnder guard s) : system.ReachableUnder weaker s := by
  induction h with
  | start hs => exact .start hs
  | next _ hguard hs ih => exact .next ih (hle _ _ hguard) hs

theorem ReachableUnder.reachable {s : State} (h : system.ReachableUnder guard s) :
    system.Reachable s :=
  h.mono fun _ _ _ => trivial

/-- An invariant may help to see that the steps meet a further condition. -/
theorem ReachableUnder.strengthen {inv : State → Prop}
    (hinitial : ∀ s, system.initial s → inv s)
    (hstep : ∀ s a s', inv s → guard s a → system.step s a = some s' → inv s')
    (hguard : ∀ s a s', inv s → guard s a → system.step s a = some s' → stronger s a)
    {s : State} (h : system.ReachableUnder guard s) : system.ReachableUnder stronger s ∧ inv s := by
  induction h with
  | start hs => exact ⟨.start hs, hinitial _ hs⟩
  | next _ hmeets hs ih =>
      exact ⟨.next ih.1 (hguard _ _ _ ih.2 hmeets hs) hs, hstep _ _ _ ih.2 hmeets hs⟩

/-! ## Runs -/

variable (system)

/-- The state after a list of actions, `none` if one of them is not enabled. -/
def run : State → List Action → Option State
  | s, [] => some s
  | s, a :: rest => (system.step s a).bind fun s' => run s' rest

/-- The state an enabled run ends in. -/
def after (s : State) (actions : List Action) : State := (system.run s actions).getD s

/-- Every step of the run of `actions` from `s` meets `guard`. -/
def StepsMeet (guard : State → Action → Prop) : State → List Action → Prop
  | _, [] => True
  | s, a :: rest => guard s a ∧ ∀ s', system.step s a = some s' → StepsMeet guard s' rest

instance decidableStepsMeet {guard : State → Action → Prop} [∀ s a, Decidable (guard s a)] :
    ∀ s actions, Decidable (system.StepsMeet guard s actions)
  | _, [] => .isTrue trivial
  | s, a :: rest =>
      match h : system.step s a with
      | none => decidable_of_iff (guard s a) (by simp [StepsMeet, h])
      | some s' =>
          haveI : Decidable (system.StepsMeet guard s' rest) := decidableStepsMeet s' rest
          decidable_of_iff (guard s a ∧ system.StepsMeet guard s' rest) (by simp [StepsMeet, h])

/-- Every state of the run of `actions` from `s` has `property`. -/
def Throughout (property : State → Prop) : State → List Action → Prop
  | s, [] => property s
  | s, a :: rest => property s ∧ ∀ s', system.step s a = some s' → Throughout property s' rest

variable {system}

theorem run_cons {s s' : State} {a : Action} {rest : List Action} :
    system.run s (a :: rest) = some s' ↔
      ∃ middle, system.step s a = some middle ∧ system.run middle rest = some s' := by
  simp [run, Option.bind_eq_some_iff]

theorem run_eq_some_after {s : State} {actions : List Action}
    (h : (system.run s actions).isSome) :
    system.run s actions = some (system.after s actions) := by
  obtain ⟨s', hs⟩ := Option.isSome_iff_exists.mp h
  rw [after, hs]
  rfl

/-- Where every action is enabled, so is every run. -/
theorem exists_run (hstep : ∀ s a, ∃ s', system.step s a = some s') (actions : List Action)
    (s : State) : ∃ s', system.run s actions = some s' := by
  induction actions generalizing s with
  | nil => exact ⟨s, rfl⟩
  | cons a rest ih =>
      obtain ⟨middle, hmiddle⟩ := hstep s a
      obtain ⟨s', hrest⟩ := ih middle
      exact ⟨s', run_cons.mpr ⟨middle, hmiddle, hrest⟩⟩

/-- A run whose steps all meet `guard` stays within the states reachable under it. -/
theorem reachableUnder_of_run {actions : List Action} {s s' : State}
    (hs : system.ReachableUnder guard s) (hmeet : system.StepsMeet guard s actions)
    (hrun : system.run s actions = some s') : system.ReachableUnder guard s' := by
  induction actions generalizing s with
  | nil =>
      simp only [run, Option.some.injEq] at hrun
      exact hrun ▸ hs
  | cons a rest ih =>
      obtain ⟨middle, hstep, hrest⟩ := run_cons.mp hrun
      exact ih (.next hs hmeet.1 hstep) (hmeet.2 middle hstep) hrest

theorem stepsMeet_true (actions : List Action) (s : State) :
    system.StepsMeet (fun _ _ => True) s actions := by
  induction actions generalizing s with
  | nil => trivial
  | cons a rest ih => exact ⟨trivial, fun s' _ => ih s'⟩

theorem reachable_of_run {actions : List Action} {s s' : State} (hs : system.Reachable s)
    (hrun : system.run s actions = some s') : system.Reachable s' :=
  reachableUnder_of_run hs (stepsMeet_true actions s) hrun

theorem Throughout.last {property : State → Prop} {actions : List Action} {s s' : State}
    (h : system.Throughout property s actions) (hrun : system.run s actions = some s') :
    property s' := by
  induction actions generalizing s with
  | nil =>
      obtain rfl : s = s' := Option.some.inj hrun
      exact h
  | cons a rest ih =>
      obtain ⟨middle, hmiddle, hrest⟩ := run_cons.mp hrun
      exact ih (h.2 middle hmiddle) hrest

/-- **Exact conditions.**  If a step from a state with `property` leads to one exactly when it
meets `guard`, an enabled run from such a state has `property` throughout exactly when all its
steps meet `guard`.  An invariant `inv` of all runs may help. -/
theorem throughout_iff_stepsMeet (inv : State → Prop) {property : State → Prop}
    (hinv : ∀ s a s', inv s → system.step s a = some s' → inv s')
    (hstep : ∀ s a s', inv s → property s → system.step s a = some s' →
      (property s' ↔ guard s a))
    {actions : List Action} {s s' : State} (hi : inv s) (hs : property s)
    (hrun : system.run s actions = some s') :
    system.Throughout property s actions ↔ system.StepsMeet guard s actions := by
  induction actions generalizing s with
  | nil => exact ⟨fun _ => trivial, fun _ => hs⟩
  | cons a rest ih =>
      obtain ⟨middle, hmiddle, hrest⟩ := run_cons.mp hrun
      have hiff := hstep s a middle hi hs hmiddle
      have himiddle := hinv s a middle hi hmiddle
      have hunique : ∀ t, system.step s a = some t → t = middle := fun t ht =>
        Option.some.inj (ht.symm.trans hmiddle)
      constructor
      · rintro ⟨-, hall⟩
        have hthroughout := hall middle hmiddle
        have hprop : property middle := by
          cases rest with
          | nil => exact hthroughout
          | cons b more => exact hthroughout.1
        refine ⟨hiff.mp hprop, fun t ht => ?_⟩
        rw [hunique t ht]
        exact (ih himiddle hprop hrest).mp hthroughout
      · rintro ⟨hguard, hall⟩
        refine ⟨hs, fun t ht => ?_⟩
        rw [hunique t ht]
        exact (ih himiddle (hiff.mpr hguard) hrest).mpr (hall middle hmiddle)

end TransitionSystem
