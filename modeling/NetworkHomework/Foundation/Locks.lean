import NetworkHomework.Foundation.Progress
import Mathlib.Logic.Function.Basic
import Mathlib.Tactic.SplitIfs

/-!
# Mutexes taken in order

Any number of processes that lock and unlock mutexes.  What is known of a process is where
it stands, which mutexes it holds there, and which moves it can make.

If nobody locks a mutex while it holds one of the same or a higher rank, then waiting leads
from mutex to mutex of ever higher ranks, and there is no deadlock.  If everybody who holds
a mutex is on the way to letting it go, its own moves let it go after as many as are left,
whatever the others do.  If none of them gets stuck on the way, the processes that hold
mutexes can always go on until a given mutex is free, and none of those that wait has to do
anything for it: no process is shut out.  If one gets stuck, those that wait for its mutex
wait for good.
-/

/-- What a move does to the mutexes. -/
inductive LockEvent (Mutex : Type*)
  | lock (m : Mutex)
  | unlock (m : Mutex)
  | run

/-- The places of the processes, and the moves from one to the next. -/
structure LockProgram (Place Mutex : Type*) where
  next : Place → LockEvent Mutex → Place → Prop
  holds : Place → Mutex → Prop
  rank : Mutex → ℕ
  left : Place → ℕ

namespace LockProgram

open TransitionSystem

variable {Place Mutex Process : Type*}

/-- The mutexes are locked in the order of their ranks, and who holds one is on the way to letting
it go. -/
structure Ordered (program : LockProgram Place Mutex) : Prop where
  lock : ∀ c m c', program.next c (.lock m) c' →
    (∀ k, program.holds c' k ↔ k = m ∨ program.holds c k) ∧
      ∀ k, program.holds c k → program.rank k < program.rank m
  unlock : ∀ c m c', program.next c (.unlock m) c' →
    program.holds c m ∧ ∀ k, program.holds c' k ↔ k ≠ m ∧ program.holds c k
  run : ∀ c c', program.next c .run c' → ∀ k, program.holds c' k ↔ program.holds c k
  left_lt : ∀ c m event c', program.holds c m → program.next c event c' →
    program.left c' < program.left c

/-- Nobody gets stuck while it holds a mutex. -/
def GoesOn (program : LockProgram Place Mutex) : Prop :=
  ∀ c m, program.holds c m → ∃ event c', program.next c event c'

/-- Where each process stands, and who has which mutex. -/
structure Locks (Process Place Mutex : Type*) where
  place : Process → Place
  owner : Mutex → Option Process

/-- A process makes a move. -/
structure Move (Process Place Mutex : Type*) where
  process : Process
  event : LockEvent Mutex
  place : Place

variable [DecidableEq Process] [DecidableEq Mutex] (program : LockProgram Place Mutex)

open Classical in
/-- `lock` waits for the mutex. -/
noncomputable def step (s : Locks Process Place Mutex) (a : Move Process Place Mutex) :
    Option (Locks Process Place Mutex) :=
  if program.next (s.place a.process) a.event a.place then
    let place := Function.update s.place a.process a.place
    match a.event with
    | .lock m =>
        if s.owner m = none then
          some { place, owner := Function.update s.owner m (some a.process) }
        else none
    | .unlock m => some { place, owner := Function.update s.owner m none }
    | .run => some { s with place }
  else none

/-- The runs from where the processes stand at first. -/
noncomputable def system (start : Process → Place) :
    TransitionSystem (Locks Process Place Mutex) (Move Process Place Mutex) where
  initial s := s = ⟨start, fun _ => none⟩
  step := program.step

variable {program} {start : Process → Place} {s s' : Locks Process Place Mutex} {p q : Process}
  {m : Mutex} {c' : Place} {event : LockEvent Mutex}

/-! ## Moves -/

theorem step_cases {a : Move Process Place Mutex} (h : program.step s a = some s') :
    program.next (s.place a.process) a.event a.place ∧
      s'.place = Function.update s.place a.process a.place ∧
      ((∃ m, a.event = .lock m ∧ s.owner m = none ∧
          s'.owner = Function.update s.owner m (some a.process)) ∨
        (∃ m, a.event = .unlock m ∧ s'.owner = Function.update s.owner m none) ∨
        a.event = .run ∧ s'.owner = s.owner) := by
  unfold step at h
  split_ifs at h with hnext
  refine ⟨hnext, ?_⟩
  cases hevent : a.event with
  | lock m =>
      simp only [hevent] at h
      split_ifs at h with hfree
      obtain rfl := Option.some.inj h
      exact ⟨rfl, .inl ⟨m, rfl, hfree, rfl⟩⟩
  | unlock m =>
      simp only [hevent] at h
      obtain rfl := Option.some.inj h
      exact ⟨rfl, .inr (.inl ⟨m, rfl, rfl⟩)⟩
  | run =>
      simp only [hevent] at h
      obtain rfl := Option.some.inj h
      exact ⟨rfl, .inr (.inr ⟨rfl, rfl⟩)⟩

theorem step_lock (hnext : program.next (s.place p) (.lock m) c') (hfree : s.owner m = none) :
    program.step s ⟨p, .lock m, c'⟩ = some
      ⟨Function.update s.place p c', Function.update s.owner m (some p)⟩ := by
  simp only [step, if_pos hnext, if_pos hfree]

theorem step_unlock (hnext : program.next (s.place p) (.unlock m) c') :
    program.step s ⟨p, .unlock m, c'⟩ = some
      ⟨Function.update s.place p c', Function.update s.owner m none⟩ := by
  simp only [step, if_pos hnext]

theorem step_run (hnext : program.next (s.place p) .run c') :
    program.step s ⟨p, .run, c'⟩ = some ⟨Function.update s.place p c', s.owner⟩ := by
  simp only [step, if_pos hnext]

/-- A move is enabled unless it locks a mutex that somebody has. -/
theorem exists_step (hnext : program.next (s.place p) event c')
    (hfree : ∀ m, event = .lock m → s.owner m = none) :
    ∃ s', program.step s ⟨p, event, c'⟩ = some s' := by
  cases event with
  | lock m => exact ⟨_, step_lock hnext (hfree m rfl)⟩
  | unlock m => exact ⟨_, step_unlock hnext⟩
  | run => exact ⟨_, step_run hnext⟩

/-! ## Mutual exclusion -/

/-- A mutex belongs to the process that holds it. -/
def Exclusive (program : LockProgram Place Mutex) (s : Locks Process Place Mutex) : Prop :=
  ∀ p m, s.owner m = some p ↔ program.holds (s.place p) m

theorem Exclusive.step (hordered : program.Ordered) (h : Exclusive program s)
    {a : Move Process Place Mutex} (hstep : program.step s a = some s') :
    Exclusive program s' := by
  obtain ⟨hnext, hplace, hcases⟩ := step_cases hstep
  have hother : ∀ q, q ≠ a.process → s'.place q = s.place q := fun q hq => by
    rw [hplace, Function.update_of_ne hq]
  have hself : s'.place a.process = a.place := by rw [hplace, Function.update_self]
  intro q k
  rcases hcases with ⟨m, hevent, hfree, howner⟩ | ⟨m, hevent, howner⟩ | ⟨hevent, howner⟩
  · obtain ⟨hholds, -⟩ := hordered.lock _ m _ (hevent ▸ hnext)
    rw [howner]
    by_cases hk : k = m
    · subst hk
      rw [Function.update_self, Option.some.injEq]
      constructor
      · rintro rfl
        rw [hself]
        exact (hholds k).mpr (.inl rfl)
      · intro hq
        by_contra hne
        rw [hother q (Ne.symm hne)] at hq
        simp [(h q k).mpr hq] at hfree
    · rw [Function.update_of_ne hk, h q k]
      by_cases hq : q = a.process
      · subst hq
        rw [hself, hholds k, or_iff_right hk]
      · rw [hother q hq]
  · obtain ⟨hheld, hholds⟩ := hordered.unlock _ m _ (hevent ▸ hnext)
    rw [howner]
    by_cases hk : k = m
    · subst hk
      rw [Function.update_self]
      refine iff_of_false (by simp) fun hq => ?_
      by_cases hqa : q = a.process
      · subst hqa
        rw [hself, hholds k] at hq
        exact hq.1 rfl
      · rw [hother q hqa] at hq
        have hsome := (h q k).mpr hq
        rw [(h a.process k).mpr hheld] at hsome
        exact hqa (Option.some.inj hsome).symm
    · rw [Function.update_of_ne hk, h q k]
      by_cases hq : q = a.process
      · subst hq
        rw [hself, hholds k, and_iff_right hk]
      · rw [hother q hq]
  · have hholds := hordered.run _ _ (hevent ▸ hnext)
    rw [howner, h q k]
    by_cases hq : q = a.process
    · subst hq
      rw [hself, hholds k]
    · rw [hother q hq]

theorem exclusive_of_reachable (hordered : program.Ordered)
    (hstart : ∀ p m, ¬ program.holds (start p) m) (h : (program.system start).Reachable s) :
    Exclusive program s := by
  apply h.invariant
  · intro s hs p m
    subst hs
    exact iff_of_false (by simp) (hstart p m)
  · exact fun _ _ _ hs _ hstep => hs.step hordered hstep

omit [DecidableEq Process] [DecidableEq Mutex] in
/-- **Mutual exclusion.** -/
theorem Exclusive.eq (h : Exclusive program s) (hp : program.holds (s.place p) m)
    (hq : program.holds (s.place q) m) : p = q :=
  Option.some.inj (((h p m).mpr hp).symm.trans ((h q m).mpr hq))

/-! ## Mutexes are let go -/

omit [DecidableEq Process] [DecidableEq Mutex] in
/-- A move that does not unlock `m` keeps it. -/
theorem Ordered.keeps (hordered : program.Ordered) {c : Place} (hheld : program.holds c m)
    (hnext : program.next c event c') (hevent : event ≠ .unlock m) : program.holds c' m := by
  cases event with
  | lock k => exact ((hordered.lock c k c' hnext).1 m).mpr (.inr hheld)
  | unlock k =>
      have hne : m ≠ k := fun heq => hevent (heq ▸ rfl)
      exact ((hordered.unlock c k c' hnext).2 m).mpr ⟨hne, hheld⟩
  | run => exact (hordered.run c c' hnext m).mpr hheld

/-- **Mutexes are let go.**  In any run, a process that does not unlock a mutex it holds makes no
more moves than are left. -/
theorem countP_moves (hordered : program.Ordered) {actions : List (Move Process Place Mutex)}
    (hrun : (program.system start).run s actions = some s') (hheld : program.holds (s.place p) m)
    (hkeeps : ∀ a ∈ actions, a.process = p → a.event ≠ .unlock m) :
    actions.countP (·.process = p) + program.left (s'.place p) ≤ program.left (s.place p) := by
  induction actions generalizing s with
  | nil =>
      obtain rfl : s = s' := Option.some.inj hrun
      simp
  | cons a rest ih =>
      obtain ⟨middle, hstep, hrest⟩ := run_cons.mp hrun
      obtain ⟨hnext, hplace, -⟩ := step_cases hstep
      have htail : ∀ b ∈ rest, b.process = p → b.event ≠ .unlock m := fun b hb =>
        hkeeps b (List.mem_cons_of_mem a hb)
      by_cases hp : a.process = p
      · subst hp
        have hself : middle.place a.process = a.place := by rw [hplace, Function.update_self]
        have hlt := hordered.left_lt _ m _ _ hheld hnext
        have hheld' : program.holds (middle.place a.process) m := by
          rw [hself]
          exact hordered.keeps hheld hnext (hkeeps a List.mem_cons_self rfl)
        have hle := ih hrest hheld' htail
        rw [hself] at hle
        rw [List.countP_cons_of_pos (by simp)]
        omega
      · have hother : middle.place p = s.place p := by
          rw [hplace, Function.update_of_ne (Ne.symm hp)]
        have hle := ih hrest (hother ▸ hheld) htail
        rw [hother] at hle
        rwa [List.countP_cons_of_neg (by simpa using hp)]

/-- **Waiting for good.**  While the process that has `m` is stuck, no run lets another lock it. -/
theorem not_canReach_lock (hordered : program.Ordered) (h : Exclusive program s)
    (hheld : program.holds (s.place q) m)
    (hstuck : ∀ event c', ¬ program.next (s.place q) event c') :
    ¬ (program.system start).CanReach (fun _ => True)
      (fun s' => (program.step s' ⟨p, .lock m, c'⟩).isSome) s := by
  apply not_canReach (fun t => Exclusive program t ∧ t.place q = s.place q)
  · rintro t a t' ⟨ht, hplace⟩ - hstep
    obtain ⟨hnext, hplace', -⟩ := step_cases hstep
    have hne : q ≠ a.process := by
      rintro rfl
      exact hstuck _ _ (hplace ▸ hnext)
    exact ⟨ht.step hordered hstep, by rw [hplace', Function.update_of_ne hne, hplace]⟩
  · rintro t ⟨ht, hplace⟩ henabled
    obtain ⟨t', hstep⟩ := Option.isSome_iff_exists.mp henabled
    obtain ⟨-, -, ⟨k, hk, hfree, -⟩ | ⟨k, hk, -⟩ | ⟨hk, -⟩⟩ := step_cases hstep
    · obtain rfl := LockEvent.lock.inj hk
      rw [(ht q m).mpr (hplace.symm ▸ hheld)] at hfree
      cases hfree
    · cases hk
    · cases hk
  · exact ⟨h, rfl⟩

/-! ## Mutexes get free -/

/-- A state with `m` free, in which the processes of `fixed` stand where they stand in `s`. -/
structure Freed (program : LockProgram Place Mutex) (fixed : Process → Prop) (m : Mutex)
    (s s' : Locks Process Place Mutex) : Prop where
  exclusive : Exclusive program s'
  free : s'.owner m = none
  place_eq : ∀ q, fixed q → s'.place q = s.place q

omit [DecidableEq Process] [DecidableEq Mutex] in
theorem Freed.trans {fixed : Process → Prop} {t : Locks Process Place Mutex}
    (h : Freed program fixed m s' t) (hplace : ∀ q, fixed q → s'.place q = s.place q) :
    Freed program fixed m s t :=
  ⟨h.exclusive, h.free, fun q hq => (h.place_eq q hq).trans (hplace q hq)⟩

/-- A mutex does not change hands in one move. -/
theorem Exclusive.owner_of_step (h : Exclusive program s) (hordered : program.Ordered)
    (hheld : program.holds (s.place p) m)
    (hstep : program.step s ⟨p, event, c'⟩ = some s') : s'.owner m = none ∨ s'.owner m = some p := by
  cases howner : s'.owner m with
  | none => exact .inl rfl
  | some q =>
      right
      by_contra hne
      have hother : q ≠ p := fun heq => hne (congrArg some heq)
      obtain ⟨-, hplace, -⟩ := step_cases hstep
      have hheld' := ((h.step hordered hstep) q m).mp howner
      rw [hplace, Function.update_of_ne hother] at hheld'
      exact hother (h.eq hheld' hheld)

/-- **Mutexes get free.**  The processes that hold mutexes can go on until `m` is free, and those
that hold nothing of its rank or above do not have to move. -/
theorem can_free (hordered : program.Ordered) (hgoesOn : program.GoesOn) {bound : ℕ}
    (hbound : ∀ m, program.rank m ≤ bound)
    (h : Exclusive program s) {fixed : Process → Prop}
    (hfixed : ∀ q, fixed q → ∀ k, program.holds (s.place q) k →
      program.rank k < program.rank m) :
    (program.system start).CanReach (fun a => ¬ fixed a.process) (Freed program fixed m s) s := by
  induction hrank : bound - program.rank m using Nat.strongRecOn generalizing s m fixed with
  | ind n ih =>
      cases howner : s.owner m with
      | none => exact .here ⟨h, howner, fun _ _ => rfl⟩
      | some p =>
          -- the owner goes on, as long as it has the mutex
          induction hleft : program.left (s.place p) using Nat.strongRecOn generalizing s with
          | ind left ihleft =>
              have hheld := (h p m).mp howner
              have hp : ¬ fixed p := fun hp => absurd (hfixed p hp m hheld) (Nat.lt_irrefl _)
              obtain ⟨event, c', hnext⟩ := hgoesOn _ m hheld
              have hmove : ∀ s₁, Exclusive program s₁ → s₁.place p = s.place p →
                  (∀ q, fixed q → s₁.place q = s.place q) →
                  (∀ k, event = .lock k → s₁.owner k = none) →
                  (program.system start).CanReach (fun a => ¬ fixed a.process)
                    (Freed program fixed m s) s₁ := by
                intro s₁ h₁ hplace hsame hfree
                obtain ⟨s₂, hstep⟩ := exists_step (hplace.symm ▸ hnext) hfree
                obtain ⟨-, hplace₂, -⟩ := step_cases hstep
                have h₂ := h₁.step hordered hstep
                have hself : s₂.place p = c' := by rw [hplace₂, Function.update_self]
                have hsame₂ : ∀ q, fixed q → s₂.place q = s.place q := by
                  intro q hq
                  have hqp : q ≠ p := fun heq => hp (heq ▸ hq)
                  rw [hplace₂, Function.update_of_ne hqp, hsame q hq]
                refine CanReach.step hp hstep ?_
                rcases h₁.owner_of_step hordered (hplace.symm ▸ hheld) hstep with hnone | howner₂
                · exact .here ⟨h₂, hnone, hsame₂⟩
                · have hlt : program.left (s₂.place p) < left := by
                    rw [hself, ← hleft]
                    exact hordered.left_lt _ m event c' hheld hnext
                  refine (ihleft _ hlt h₂ (fun q hq => ?_) howner₂ rfl).trans fun t ht =>
                    .here (ht.trans hsame₂)
                  rw [hsame₂ q hq]
                  exact hfixed q hq
              by_cases hwaits : ∃ k, event = .lock k ∧ s.owner k ≠ none
              · -- it waits for a mutex of a higher rank
                obtain ⟨k, rfl, -⟩ := hwaits
                obtain ⟨-, hrises⟩ := hordered.lock _ k _ hnext
                have hlt : program.rank m < program.rank k := hrises m hheld
                have hk := hbound k
                have hbelow : ∀ q, fixed q ∨ q = p →
                    ∀ l, program.holds (s.place q) l → program.rank l < program.rank k := by
                  intro q hq l hl
                  rcases hq with hq | rfl
                  · exact Nat.lt_trans (hfixed q hq l hl) hlt
                  · exact hrises l hl
                have hfirst := ih (bound - program.rank k) (by omega) h hbelow rfl
                refine (hfirst.imp fun a ha hq => ha (.inl hq)).trans fun s₁ hs₁ => ?_
                exact hmove s₁ hs₁.exclusive (hs₁.place_eq p (.inr rfl))
                  (fun q hq => hs₁.place_eq q (.inl hq)) fun l hl => by
                    obtain rfl := LockEvent.lock.inj hl
                    exact hs₁.free
              · refine hmove s h rfl (fun _ _ => rfl) fun k hk => ?_
                by_contra howned
                exact hwaits ⟨k, hk, howned⟩

/-- **Nobody is shut out.**  Whatever move a process is at, the others can go on until it is
enabled. -/
theorem can_move (hordered : program.Ordered) (hgoesOn : program.GoesOn) {bound : ℕ}
    (hbound : ∀ m, program.rank m ≤ bound)
    (h : Exclusive program s) (hnext : program.next (s.place p) event c') :
    (program.system start).CanReach (fun a => a.process ≠ p)
      (fun s' => s'.place p = s.place p ∧ (program.step s' ⟨p, event, c'⟩).isSome) s := by
  by_cases hlocks : ∃ m, event = .lock m
  · obtain ⟨m, rfl⟩ := hlocks
    obtain ⟨-, hrises⟩ := hordered.lock _ m _ hnext
    have hbelow : ∀ q, q = p → ∀ k, program.holds (s.place q) k →
        program.rank k < program.rank m := fun q hq => hq ▸ hrises
    have hfree : (program.system start).CanReach (fun a => ¬ a.process = p)
        (Freed program (fun q => q = p) m s) s := can_free hordered hgoesOn hbound h hbelow
    refine hfree.trans fun s' hs' => .here ?_
    have hplace : s'.place p = s.place p := hs'.place_eq p rfl
    refine ⟨hplace, ?_⟩
    rw [step_lock (hplace.symm ▸ hnext) hs'.free]
    rfl
  · obtain ⟨s', hs'⟩ := exists_step hnext fun m hm => absurd ⟨m, hm⟩ hlocks
    exact .here ⟨rfl, by rw [hs']; rfl⟩

end LockProgram
