import NetworkHomework.Foundation.Progress

/-!
# Forward simulation

A concrete system refines an abstract one, its specification, when every concrete step
carries out a run of abstract events, often a single one and often none at all, and the
two states stay related.  `observe s s'` reads the events off the states before and after
a concrete step.

The events observed along a concrete run are then a run of the specification.

Where the abstract state can be read off the concrete one, a view of it, it is enough that
a concrete step changes the view by at most one abstract step: the view of a reachable
state is then reachable.
-/

namespace TransitionSystem

variable {State Action Spec Event : Type*}

/-- Every step of `concrete` that meets `guard` is a run of `abstract`. -/
structure Simulation (concrete : TransitionSystem State Action)
    (abstract : TransitionSystem Spec Event) (guard : State → Action → Prop)
    (observe : State → State → List Event) (Related : State → Spec → Prop) : Prop where
  initial : ∀ s, concrete.initial s → ∃ t, abstract.initial t ∧ Related s t
  step : ∀ s a s' t, Related s t → guard s a → concrete.step s a = some s' →
    ∃ t', abstract.run t (observe s s') = some t' ∧ Related s' t'

/-- The events of a run. -/
def observed (system : TransitionSystem State Action) (observe : State → State → List Event) :
    State → List Action → List Event
  | _, [] => []
  | s, a :: rest =>
      match system.step s a with
      | none => []
      | some s' => observe s s' ++ system.observed observe s' rest

variable {concrete : TransitionSystem State Action} {abstract : TransitionSystem Spec Event}
  {guard : State → Action → Prop} {observe : State → State → List Event}
  {Related : State → Spec → Prop}

theorem observed_cons {s s' : State} {a : Action} (hstep : concrete.step s a = some s')
    (rest : List Action) : concrete.observed observe s (a :: rest) =
      observe s s' ++ concrete.observed observe s' rest := by
  rw [observed, hstep]

/-- **The events of a run** are a run of the specification. -/
theorem Simulation.run (h : Simulation concrete abstract guard observe Related)
    {actions : List Action} {s s' : State} {t : Spec} (hrelated : Related s t)
    (hmeet : concrete.StepsMeet guard s actions) (hrun : concrete.run s actions = some s') :
    ∃ t', abstract.run t (concrete.observed observe s actions) = some t' ∧ Related s' t' := by
  induction actions generalizing s t with
  | nil =>
      obtain rfl : s = s' := Option.some.inj hrun
      exact ⟨t, rfl, hrelated⟩
  | cons a rest ih =>
      obtain ⟨middle, hmiddle, hrest⟩ := run_cons.mp hrun
      obtain ⟨next, hnext, hrelated'⟩ := h.step s a middle t hrelated hmeet.1 hmiddle
      obtain ⟨t', hlast, hend⟩ := ih hrelated' (hmeet.2 middle hmiddle) hrest
      refine ⟨t', ?_, hend⟩
      rw [observed_cons hmiddle]
      exact run_append.mpr ⟨next, hnext, hlast⟩

/-- What can be viewed of a reachable state is reachable. -/
theorem ReachableUnder.view (view : State → Spec) {other : Spec → Event → Prop}
    (hinitial : ∀ s, concrete.initial s → abstract.initial (view s))
    (hstep : ∀ s a s', concrete.ReachableUnder guard s → guard s a → concrete.step s a = some s' →
      view s' = view s ∨ ∃ b, other (view s) b ∧ abstract.step (view s) b = some (view s'))
    {s : State} (h : concrete.ReachableUnder guard s) : abstract.ReachableUnder other (view s) := by
  induction h with
  | start hs => exact .start (hinitial _ hs)
  | next hreach hguard hs ih =>
      rcases hstep _ _ _ hreach hguard hs with hsame | ⟨b, hmeets, hb⟩
      · rw [hsame]
        exact ih
      · exact .next ih hmeets hb

end TransitionSystem
