import NetworkHomework.Foundation.Simulation
import Mathlib.Data.List.Basic

/-!
# Handing over a list, one piece at a time

A sender hands the pieces of a list to a receiver.  It offers a piece only when all those
before it were accepted, and the receiver accepts each piece offered once, in order, and
closes after the last one.  Either side may leave at any moment.  There is no network:
this is what a transfer over a network is supposed to amount to.
-/

namespace HandOver

variable {α : Type*}

inductive SenderStatus
  | active
  | done
  | left
  deriving DecidableEq, Repr

inductive ReceiverStatus
  | receiving
  | closed
  | left
  deriving DecidableEq, Repr

/-- `offered` counts the pieces offered so far. -/
structure State (α : Type*) where
  sender : SenderStatus
  offered : ℕ
  receiver : ReceiverStatus
  accepted : List α
  deriving DecidableEq

inductive Event (α : Type*)
  | offer
  | accept (piece : α)
  | complete
  | senderLeaves
  | receiverLeaves
  deriving DecidableEq, Repr

def start : State α := ⟨.active, 0, .receiving, []⟩

/-- The receiver with one more piece, of `total`. -/
def State.accept (s : State α) (total : ℕ) (piece : α) : State α :=
  { s with
    accepted := s.accepted ++ [piece]
    receiver := if s.accepted.length + 1 = total then .closed else .receiving }

variable [DecidableEq α]

def step (pieces : List α) (s : State α) : Event α → Option (State α)
  | .offer =>
      if s.sender = .active ∧ s.accepted.length = s.offered ∧ s.offered < pieces.length then
        some { s with offered := s.offered + 1 }
      else none
  | .accept piece =>
      if s.receiver = .receiving ∧ s.accepted.length < s.offered ∧
          pieces[s.accepted.length]? = some piece then
        some (s.accept pieces.length piece)
      else none
  | .complete =>
      if s.sender = .active ∧ s.accepted.length = pieces.length then
        some { s with sender := .done }
      else none
  | .senderLeaves => if s.sender = .active then some { s with sender := .left } else none
  | .receiverLeaves =>
      if s.receiver = .receiving then some { s with receiver := .left } else none

end HandOver

/-- The runs of a hand-over. -/
def handOver {α : Type*} [DecidableEq α] (pieces : List α) :
    TransitionSystem (HandOver.State α) (HandOver.Event α) where
  initial s := s = HandOver.start
  step := HandOver.step pieces

namespace HandOver

variable {α : Type*}

/-- The pieces accepted in a run. -/
def accepts : List (Event α) → List α
  | [] => []
  | .accept piece :: rest => piece :: accepts rest
  | .offer :: rest | .complete :: rest | .senderLeaves :: rest | .receiverLeaves :: rest =>
      accepts rest

/-- What a hand-over keeps: at most one piece is offered and not accepted. -/
structure Ordered (pieces : List α) (s : State α) : Prop where
  accepted_eq : s.accepted = pieces.take s.accepted.length
  accepted_le : s.accepted.length ≤ s.offered
  offered_le : s.offered ≤ s.accepted.length + 1
  offered_le_length : s.offered ≤ pieces.length
  done : s.sender = .done → s.accepted = pieces
  closed : s.receiver = .closed → s.accepted = pieces

variable [DecidableEq α] {pieces : List α} {s s' : State α}

theorem Ordered.step (h : Ordered pieces s) {event : Event α}
    (hstep : HandOver.step pieces s event = some s') : Ordered pieces s' := by
  cases event with
  | offer =>
      obtain ⟨⟨hactive, hall, hlt⟩, rfl⟩ := Option.ite_some_none_eq_some.mp hstep
      exact ⟨h.accepted_eq, Nat.le_succ_of_le h.accepted_le, by dsimp only; omega, hlt, h.done,
        h.closed⟩
  | accept piece =>
      obtain ⟨⟨-, hlt, hpiece⟩, rfl⟩ := Option.ite_some_none_eq_some.mp hstep
      have hlength : (s.accepted ++ [piece]).length = s.accepted.length + 1 := by simp
      have htaken : s.accepted ++ [piece] = pieces.take (s.accepted.length + 1) := by
        rw [List.take_add_one, hpiece, ← h.accepted_eq]
        rfl
      have hcomplete : s.accepted.length + 1 = pieces.length → s.accepted ++ [piece] = pieces := by
        intro htotal
        rw [htaken, htotal, List.take_length]
      have hlt' := h.offered_le_length
      refine ⟨?_, ?_, ?_, hlt', fun hdone => ?_, fun hclosed => hcomplete ?_⟩
      · simp only [State.accept]
        rw [hlength, htaken]
      · simp only [State.accept, hlength]
        exact hlt
      · simp only [State.accept, hlength]
        have := h.offered_le
        omega
      · have hall := congrArg List.length (h.done hdone)
        omega
      · by_contra hmore
        simp [State.accept, hmore] at hclosed
  | complete =>
      obtain ⟨⟨-, hall⟩, rfl⟩ := Option.ite_some_none_eq_some.mp hstep
      refine ⟨h.accepted_eq, h.accepted_le, h.offered_le, h.offered_le_length, fun _ => ?_,
        h.closed⟩
      rw [h.accepted_eq, hall, List.take_length]
  | senderLeaves =>
      obtain ⟨-, rfl⟩ := Option.ite_some_none_eq_some.mp hstep
      exact ⟨h.accepted_eq, h.accepted_le, h.offered_le, h.offered_le_length,
        fun hdone => absurd hdone (by simp), h.closed⟩
  | receiverLeaves =>
      obtain ⟨-, rfl⟩ := Option.ite_some_none_eq_some.mp hstep
      exact ⟨h.accepted_eq, h.accepted_le, h.offered_le, h.offered_le_length, h.done,
        fun hclosed => absurd hclosed (by simp)⟩

/-- **Hand-overs keep the order** of the pieces, and nobody takes an incomplete one for complete. -/
theorem ordered_of_reachable (h : (handOver pieces).Reachable s) : Ordered pieces s := by
  refine h.invariant (fun s hs => ?_) fun _ _ _ hordered _ hstep => hordered.step hstep
  obtain rfl : s = start := hs
  exact ⟨by simp [start], Nat.le_refl _, Nat.zero_le _, Nat.zero_le _,
    fun hdone => absurd hdone (by simp [start]), fun hclosed => absurd hclosed (by simp [start])⟩

/-- The receiver holds what the run made it accept. -/
theorem accepted_of_run {events : List (Event α)}
    (hrun : (handOver pieces).run s events = some s') :
    s'.accepted = s.accepted ++ accepts events := by
  induction events generalizing s with
  | nil =>
      obtain rfl : s = s' := Option.some.inj hrun
      exact (List.append_nil _).symm
  | cons event rest ih =>
      obtain ⟨middle, hstep, hrest⟩ := TransitionSystem.run_cons.mp hrun
      rw [ih hrest]
      cases event with
      | accept piece =>
          obtain ⟨-, rfl⟩ := Option.ite_some_none_eq_some.mp hstep
          simp [State.accept, accepts]
      | offer =>
          obtain ⟨-, rfl⟩ := Option.ite_some_none_eq_some.mp hstep
          rfl
      | complete =>
          obtain ⟨-, rfl⟩ := Option.ite_some_none_eq_some.mp hstep
          rfl
      | senderLeaves =>
          obtain ⟨-, rfl⟩ := Option.ite_some_none_eq_some.mp hstep
          rfl
      | receiverLeaves =>
          obtain ⟨-, rfl⟩ := Option.ite_some_none_eq_some.mp hstep
          rfl

end HandOver
