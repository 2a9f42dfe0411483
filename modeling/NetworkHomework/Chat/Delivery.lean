import Mathlib.Data.List.Infix
import NetworkHomework.Chat.Broadcast

/-!
# What a round delivers

Sessions queue messages, every node with its links NULL, and the dispatcher runs whole
rounds.  In a round `tempM` stays at the head of the queue: the newest message is sent
once for each message queued, and the others are freed without having been sent.

`Ordered` is what a chat should do: over any stretch of rounds with a member on the list,
what was sent to it on behalf of a session are the lines of the session's messages that
these rounds found and that were for this member, each once and in the order queued.  A
round keeps it exactly if it does not matter which of the queued messages is sent
(`Alike`).
-/

namespace NetworkHomework.Chat

open LinkedHeap

/-- A well-formed list of members, each with a connection of its own. -/
structure MemberList where
  heap : MemberHeap
  addrs : List ℕ
  listed : heap.Represents addrs
  distinct : ((heap.values addrs).map Member.connection).Nodup

/-- Nobody has logged in yet. -/
def MemberList.empty : MemberList where
  heap := ⟨fun _ => none, none⟩
  addrs := []
  listed := represents_nil rfl
  distinct := List.nodup_nil

def MemberList.values (list : MemberList) : List Member := list.heap.values list.addrs

/-- A round: the members on the list, the messages it found in the queue, oldest first, and what it
sent. -/
structure Round where
  members : List Member
  found : List Message
  sent : List Send

-- history are `pending`, the messages queued since the last round, oldest first, `queued`, their
-- nodes, and `rounds`
structure Dispatch where
  messages : MessageHeap
  queued : List ℕ
  pending : List Message
  rounds : List Round
  crashed : Bool

inductive DispatchAction
  | enqueue (client : Member) (recvMessage : List UInt8) (a : ℕ)
  | round (list : MemberList)

namespace Dispatch

/-- A session queues a message in a node whose links are NULL. -/
def enqueue (s : Dispatch) (m : Message) (a : ℕ) : Option Dispatch :=
  (messageLinkToList (s.messages.malloc a ⟨m, none, none⟩) a).toOption.map fun messages =>
    { s with messages, queued := a :: s.queued, pending := s.pending ++ [m] }

/-- A round on the members of `list`, all of whose connections work.  It stops, if at all, at the
first message, before anything is sent; after that there are no more rounds. -/
def round (s : Dispatch) (list : MemberList) : Dispatch :=
  let fuel := s.queued.length + list.addrs.length + 1
  let after (sent : List Send) : Dispatch :=
    { s with
      queued := [], pending := [],
      rounds := s.rounds ++ [Round.mk list.values s.pending sent] }
  match sendToClient fuel (fun _ => false) ⟨s.messages, list.heap, [], false, false⟩ with
  | .ok server => { after server.sent with messages := server.messages }
  | .error _ => { after [] with crashed := true }

def step (s : Dispatch) : DispatchAction → Option Dispatch
  | .enqueue client recvMessage a =>
      if ¬ s.crashed ∧ s.messages.cell a = none then
        s.enqueue (newMessage client recvMessage) a
      else none
  | .round list => if ¬ s.crashed then some (s.round list) else none

def start : Dispatch := ⟨⟨fun _ => none, none⟩, [], [], [], false⟩

end Dispatch

def dispatchSystem : TransitionSystem Dispatch DispatchAction where
  initial s := s = Dispatch.start
  step := Dispatch.step

/-- The texts among `sent` that go to `member` on behalf of the session `thread`. -/
def textsFor (sent : List Send) (thread : ℕ) (member : Member) : List (List UInt8) :=
  (sent.filter fun send => send.thread = thread ∧ send.member = member).map Send.text

/-- The lines of the messages of `thread` that are for `member`, in their order. -/
def linesFor (messages : List Message) (thread : ℕ) (member : Member) : List (List UInt8) :=
  (messages.filter fun m => m.thread = thread ∧ m.addressed member).map Message.line

/-- Exactly once and in order: what a stretch of rounds sends to a member that is on the list in
each of them are the lines for it of the messages that they found. -/
def Ordered (s : Dispatch) : Prop :=
  ∀ stretch, stretch <:+: s.rounds →
    ∀ thread member, (∀ round ∈ stretch, member ∈ round.members) →
      textsFor (stretch.flatMap Round.sent) thread member =
        linesFor (stretch.flatMap Round.found) thread member

/-- The messages are all the same to the member: none is for it, or all are, from one session and
with one line that can be delivered. -/
def Alike (messages : List Message) (member : Member) : Prop :=
  (∀ m ∈ messages, ¬ m.addressed member) ∨
    ∃ newest ∈ messages.getLast?, newest.Deliverable ∧
      ∀ m ∈ messages, m.thread = newest.thread ∧ m.addressed member ∧ m.line = newest.line

instance (messages : List Message) (member : Member) : Decidable (Alike messages member) :=
  inferInstanceAs (Decidable (_ ∨ _))

/-- A round finds messages that are all the same to every member on the list. -/
def RoundAlike (s : Dispatch) : DispatchAction → Prop
  | .enqueue .. => True
  | .round list => ∀ member ∈ list.values, Alike s.pending member

instance (s : Dispatch) : (a : DispatchAction) → Decidable (RoundAlike s a)
  | .enqueue .. => inferInstanceAs (Decidable True)
  | .round list => inferInstanceAs (Decidable (∀ member ∈ list.values, Alike s.pending member))

/-! ## The queue between rounds -/

/-- The queue holds the pending messages, newest first. -/
structure DispatchInv (s : Dispatch) : Prop where
  listed : s.messages.Represents s.queued
  values : s.messages.values s.queued = s.pending.reverse

theorem dispatchInv_enqueue {s s' : Dispatch} (h : DispatchInv s) {m : Message} {a : ℕ}
    (hdead : s.messages.cell a = none) (hstep : s.enqueue m a = some s') :
    DispatchInv s' ∧ s'.pending = s.pending ++ [m] ∧ s'.rounds = s.rounds ∧
      s'.crashed = s.crashed := by
  have hrep := h.listed.malloc hdead ⟨m, none, none⟩
  have hnew : a ∉ s.queued := by
    intro ha
    obtain ⟨node, hnode⟩ := h.listed.live ha
    simp [hdead] at hnode
  have hnode : (s.messages.malloc a ⟨m, none, none⟩).cell a = some ⟨m, none, none⟩ := by
    simp [LinkedHeap.malloc]
  obtain ⟨messages, hlink, hlisted, hvalue⟩ := hrep.linkFirst hnew hnode rfl fun _ => rfl
  rw [Dispatch.enqueue, messageLinkToList, hlink] at hstep
  obtain rfl := Option.some.inj hstep
  refine ⟨⟨hlisted, ?_⟩, rfl, rfl, rfl⟩
  have hkeep : s.queued.filterMap (s.messages.malloc a ⟨m, none, none⟩).valueAt =
      s.queued.filterMap s.messages.valueAt := by
    apply List.filterMap_congr
    intro b hb
    have hne : b ≠ a := fun hba => hnew (hba ▸ hb)
    simp [valueAt, LinkedHeap.malloc, hne]
  calc messages.values (a :: s.queued) =
        (a :: s.queued).filterMap (s.messages.malloc a ⟨m, none, none⟩).valueAt := by
        rw [values, hvalue]
    _ = m :: s.queued.filterMap s.messages.valueAt := by
      rw [List.filterMap_cons, hkeep]
      simp [valueAt, hnode]
    _ = m :: s.pending.reverse := congrArg (m :: ·) h.values
    _ = (s.pending ++ [m]).reverse := by simp

/-! ## One round -/

/-- What a round sends to the members of `list` when it finds `pending` in the queue. -/
def roundSends (pending : List Message) (list : List Member) : List Send :=
  pending.getLast?.elim [] fun newest =>
    if newest.Deliverable then
      (List.replicate pending.length
        (sendsOf newest.thread newest.line (list.filter newest.addressed))).flatten
    else []

theorem round_spec {s : Dispatch} (h : DispatchInv s) (list : MemberList) :
    (s.round list).pending = [] ∧
      (s.round list).rounds =
        s.rounds ++ [⟨list.values, s.pending, roundSends s.pending list.values⟩] ∧
      ((s.round list).crashed = false → DispatchInv (s.round list)) := by
  have hlength : s.queued.length = s.pending.length := by
    rw [← h.listed.length_values, h.values, List.length_reverse]
  set server : Server := ⟨s.messages, list.heap, [], false, false⟩ with hserver
  have hlisted : server.Listed list.addrs s.queued := ⟨list.listed, h.listed, rfl, rfl⟩
  have hnone : ∀ addressed, ¬ SomeFail (fun _ => false) addressed (list.heap.values list.addrs) :=
    fun addressed hsome => by simp [SomeFail] at hsome
  rcases List.eq_nil_or_concat s.pending with hpending | ⟨earlier, newest, hpending⟩
  · have hqueued : s.queued = [] := List.length_eq_zero_iff.mp (by rw [hlength, hpending]; rfl)
    have hround : sendToClient (s.queued.length + list.addrs.length + 1) (fun _ => false) server =
        .ok server := sendToClient_nil (hqueued ▸ hlisted) (by omega) _
    rw [hserver] at hround
    simp only [Dispatch.round, hround]
    refine ⟨trivial, by simp [roundSends, hpending], fun _ => ?_⟩
    exact ⟨hqueued ▸ h.listed, rfl⟩
  · -- the newest message is at the head of the queue
    have hvalues : s.messages.values s.queued = newest :: earlier.reverse := by
      rw [h.values, hpending, List.concat_eq_append, List.reverse_append]
      rfl
    obtain ⟨a, rest, hqueued⟩ : ∃ a rest, s.queued = a :: rest := by
      cases hq : s.queued with
      | nil => simp [hq, values] at hvalues
      | cons a rest => exact ⟨a, rest, rfl⟩
    have hm : server.messages.valueAt a = some newest := by
      obtain ⟨node, hnode⟩ := h.listed.live (by simp [hqueued] : a ∈ s.queued)
      rw [hqueued, values_cons hnode] at hvalues
      simp [hserver, valueAt, hnode, (List.cons.inj hvalues).1]
    have hlast : s.pending.getLast? = some newest := by simp [hpending]
    by_cases hdeliverable : newest.Deliverable
    · obtain ⟨messages, hround, hfirst, -⟩ := sendToClient_eq hlisted
        (by omega : list.addrs.length < s.queued.length + list.addrs.length + 1) (by omega)
        hqueued hm hdeliverable (hnone _)
      rw [hserver] at hround
      simp only [Dispatch.round, hround]
      refine ⟨trivial, by simp [roundSends, hlast, hdeliverable, hlength,
        MemberList.values], fun _ => ?_⟩
      exact ⟨represents_nil hfirst, rfl⟩
    · have hround := sendToClient_error hlisted
        (by omega : s.queued.length < s.queued.length + list.addrs.length + 1) hqueued hm
        (sendMessage_of_not_deliverable hdeliverable _ :
          sendMessage (s.queued.length + list.addrs.length + 1) (fun _ => false) newest _ = _)
      rw [hserver] at hround
      simp only [Dispatch.round, hround]
      exact ⟨trivial, by simp [roundSends, hlast, hdeliverable], by simp⟩

theorem textsFor_flatten (sends : List (List Send)) (thread : ℕ) (member : Member) :
    textsFor sends.flatten thread member =
      (sends.map fun sent => textsFor sent thread member).flatten := by
  rw [textsFor, List.filter_flatten, List.map_flatten, List.map_map]
  rfl

/-- What a round sends to one member on behalf of one session. -/
theorem textsFor_roundSends {pending : List Message} {list : List Member} (hdistinct : list.Nodup)
    {member : Member} (hmember : member ∈ list) (thread : ℕ) {newest : Message}
    (hlast : pending.getLast? = some newest) :
    textsFor (roundSends pending list) thread member =
      if newest.Deliverable ∧ newest.thread = thread ∧ newest.addressed member then
        List.replicate pending.length newest.line
      else [] := by
  -- the member occurs once on the list, and is addressed or not
  have hone : (list.filter newest.addressed).filter (fun temp => temp = member) =
      if newest.addressed member then [member] else [] := by
    rw [List.filter_eq]
    by_cases haddressed : newest.addressed member
    · have hmem := List.mem_filter.mpr ⟨hmember, haddressed⟩
      rw [List.count_eq_one_of_mem (hdistinct.filter _) hmem, if_pos haddressed]
      rfl
    · have hmem : member ∉ list.filter newest.addressed := by simp [haddressed]
      rw [List.count_eq_zero_of_not_mem hmem, if_neg haddressed]
      rfl
  have hround : textsFor (sendsOf newest.thread newest.line (list.filter newest.addressed)) thread
      member = if newest.thread = thread ∧ newest.addressed member then [newest.line] else [] := by
    rw [textsFor, sendsOf, List.filter_map, List.map_map]
    by_cases hthread : newest.thread = thread
    · have heq : ((fun send : Send => decide (send.thread = thread ∧ send.member = member)) ∘
          fun temp => (⟨temp, newest.thread, newest.line⟩ : Send)) = fun temp => temp = member := by
        funext temp
        simp [hthread]
      rw [heq, hone]
      by_cases haddressed : newest.addressed member <;> simp [hthread, haddressed]
    · simp [hthread]
  simp only [roundSends, hlast, Option.elim_some]
  by_cases hdeliverable : newest.Deliverable
  · rw [if_pos hdeliverable, textsFor_flatten, List.map_replicate, hround]
    by_cases hto : newest.thread = thread ∧ newest.addressed member
    · simp [hdeliverable, hto]
    · rw [if_neg hto, if_neg fun h => hto h.2]
      simp
  · simp [hdeliverable, textsFor]

theorem linesFor_eq_nil_iff {messages : List Message} {thread : ℕ} {member : Member} :
    linesFor messages thread member = [] ↔
      ∀ m ∈ messages, m.thread = thread → ¬ m.addressed member := by
  simp only [linesFor, List.map_eq_nil_iff, List.filter_eq_nil_iff, decide_eq_true_eq, not_and]

/-- As many lines as messages, and all the same. -/
theorem linesFor_eq_replicate_iff {messages : List Message} {thread : ℕ} {member : Member}
    {line : List UInt8} :
    linesFor messages thread member = List.replicate messages.length line ↔
      ∀ m ∈ messages, m.thread = thread ∧ m.addressed member ∧ m.line = line := by
  constructor
  · intro hlines
    have hfilter : (messages.filter fun m => m.thread = thread ∧ m.addressed member) =
        messages := by
      have hlength := congrArg List.length hlines
      rw [linesFor, List.length_replicate, List.length_map] at hlength
      exact List.filter_sublist.eq_of_length hlength
    rw [linesFor, hfilter] at hlines
    intro m hm
    have hfor := List.filter_eq_self.mp hfilter m hm
    have hline : m.line ∈ List.replicate messages.length line :=
      hlines ▸ List.mem_map_of_mem hm
    simp only [decide_eq_true_eq] at hfor
    exact ⟨hfor.1, hfor.2, List.eq_of_mem_replicate hline⟩
  · intro hall
    have hfilter : (messages.filter fun m => m.thread = thread ∧ m.addressed member) =
        messages := by
      apply List.filter_eq_self.mpr
      intro m hm
      simp [(hall m hm).1, (hall m hm).2.1]
    rw [linesFor, hfilter, List.eq_replicate_iff]
    refine ⟨List.length_map _, fun line hline => ?_⟩
    obtain ⟨m, hm, rfl⟩ := List.mem_map.mp hline
    exact (hall m hm).2.2

/-- **The choice of the message does not matter** exactly if they are all alike. -/
theorem linesFor_eq_iff_alike {pending : List Message} {member : Member} {newest : Message}
    (hlast : pending.getLast? = some newest) :
    (∀ thread, (if newest.Deliverable ∧ newest.thread = thread ∧ newest.addressed member then
        List.replicate pending.length newest.line else []) = linesFor pending thread member) ↔
      Alike pending member := by
  have hnewest : newest ∈ pending := List.mem_of_getLast? hlast
  constructor
  · intro hall
    by_cases hsent : newest.Deliverable ∧ newest.addressed member
    · -- as many lines as messages: all of them are for the member, and all are the newest's
      have hlines := hall newest.thread
      rw [if_pos ⟨hsent.1, rfl, hsent.2⟩] at hlines
      exact .inr ⟨newest, hlast, hsent.1, linesFor_eq_replicate_iff.mp hlines.symm⟩
    · -- nothing is sent, on behalf of anyone
      left
      intro m hm
      have hlines := hall m.thread
      rw [if_neg fun h => hsent ⟨h.1, h.2.2⟩] at hlines
      exact linesFor_eq_nil_iff.mp hlines.symm m hm rfl
  · rintro (hnone | ⟨newest', hlast', hdeliverable, hall⟩) thread
    · have hlines : linesFor pending thread member = [] :=
        linesFor_eq_nil_iff.mpr fun m hm _ => hnone m hm
      rw [hlines, if_neg fun h => hnone newest hnewest h.2.2]
    · obtain rfl : newest = newest' := Option.some.inj (hlast.symm.trans hlast')
      have haddressed := (hall newest hnewest).2.1
      by_cases hthread : newest.thread = thread
      · subst hthread
        rw [if_pos ⟨hdeliverable, rfl, haddressed⟩, linesFor_eq_replicate_iff.mpr hall]
      · have hlines : linesFor pending thread member = [] :=
          linesFor_eq_nil_iff.mpr fun m hm heq =>
            absurd ((hall m hm).1.symm.trans heq) hthread
        rw [hlines, if_neg fun h => hthread h.2.1]

/-! ## Every run -/

/-- A stretch of rounds adds up what its rounds send and find. -/
theorem textsFor_flatMap (stretch : List Round) (thread : ℕ) (member : Member) :
    textsFor (stretch.flatMap Round.sent) thread member =
      stretch.flatMap fun round => textsFor round.sent thread member := by
  rw [List.flatMap_def, textsFor_flatten, List.map_map]
  rfl

theorem linesFor_flatMap (stretch : List Round) (thread : ℕ) (member : Member) :
    linesFor (stretch.flatMap Round.found) thread member =
      stretch.flatMap fun round => linesFor round.found thread member := by
  rw [linesFor, List.filter_flatMap, List.map_flatMap]
  rfl

/-- The round sends to every member on the list the lines for it of the messages found. -/
def Round.Serves (round : Round) : Prop :=
  ∀ member ∈ round.members, ∀ thread,
    textsFor round.sent thread member = linesFor round.found thread member

/-- It is enough to look at the rounds one by one. -/
theorem ordered_iff {s : Dispatch} : Ordered s ↔ ∀ round ∈ s.rounds, round.Serves := by
  constructor
  · intro hordered round hround member hmember thread
    have hone := hordered [round] ((List.singleton_infix_iff round s.rounds).mpr hround) thread member
      (fun _ hr => List.mem_singleton.mp hr ▸ hmember)
    simpa using hone
  · intro hserves stretch hstretch thread member hlisted
    rw [textsFor_flatMap, linesFor_flatMap]
    apply List.flatMap_congr
    intro round hround
    exact hserves round (hstretch.subset hround) member (hlisted round hround) thread

/-- **A round keeps the order** exactly if it finds messages that are all the same to every
member. -/
theorem ordered_round_iff {s : Dispatch} (h : DispatchInv s) (hs : Ordered s) (list : MemberList) :
    Ordered (s.round list) ↔ RoundAlike s (.round list) := by
  obtain ⟨-, hrounds, -⟩ := round_spec h list
  have hdistinct : list.values.Nodup := list.distinct.of_map _
  -- the round that is added decides, member by member
  have hadded : Ordered (s.round list) ↔
      Round.Serves ⟨list.values, s.pending, roundSends s.pending list.values⟩ := by
    rw [ordered_iff, hrounds, List.forall_mem_append, List.forall_mem_singleton,
      and_iff_right (ordered_iff.mp hs)]
  rw [hadded]
  show (∀ member ∈ list.values, ∀ thread, textsFor (roundSends s.pending list.values) thread
    member = linesFor s.pending thread member) ↔ ∀ member ∈ list.values, Alike s.pending member
  refine forall_congr' fun member => forall_congr' fun hmember => ?_
  cases hlast : s.pending.getLast? with
  | none =>
      have hpending : s.pending = [] := List.getLast?_eq_none_iff.mp hlast
      simp [hpending, roundSends, linesFor, textsFor, Alike]
  | some newest =>
      rw [← linesFor_eq_iff_alike hlast]
      simp only [textsFor_roundSends hdistinct hmember _ hlast]

theorem dispatch_step {s s' : Dispatch} {a : DispatchAction}
    (h : s.crashed = false → DispatchInv s) (hstep : s.step a = some s') :
    (s'.crashed = false → DispatchInv s') ∧
      (Ordered s → (Ordered s' ↔ RoundAlike s a)) := by
  cases a with
  | enqueue client recvMessage a =>
      simp only [Dispatch.step] at hstep
      split_ifs at hstep with henabled
      have hinv := h (by simpa using henabled.1)
      obtain ⟨hinv', -, hrounds, -⟩ := dispatchInv_enqueue hinv henabled.2 hstep
      refine ⟨fun _ => hinv', fun hs => iff_of_true ?_ trivial⟩
      rw [Ordered, hrounds]
      exact hs
  | round list =>
      obtain ⟨hcrashed, rfl⟩ := Option.ite_some_none_eq_some.mp hstep
      have hinv := h (by simpa using hcrashed)
      exact ⟨(round_spec hinv list).2.2, fun hs => ordered_round_iff hinv hs list⟩

/-- The messages queued by these actions, in their order. -/
def queuedIn (actions : List DispatchAction) : List Message :=
  actions.filterMap fun
    | .enqueue client recvMessage _ => some (newMessage client recvMessage)
    | .round _ => none

theorem queued_of_step {s s' : Dispatch} {a : DispatchAction} (hstep : s.step a = some s') :
    s'.rounds.flatMap Round.found ++ s'.pending =
      s.rounds.flatMap Round.found ++ s.pending ++ queuedIn [a] := by
  cases a with
  | enqueue client recvMessage a =>
      simp only [Dispatch.step] at hstep
      split_ifs at hstep with henabled
      rw [Dispatch.enqueue] at hstep
      obtain ⟨messages, -, rfl⟩ := Option.map_eq_some_iff.mp hstep
      rw [List.append_assoc]
      rfl
  | round list =>
      obtain ⟨-, rfl⟩ := Option.ite_some_none_eq_some.mp hstep
      unfold Dispatch.round
      dsimp only
      split <;> simp [queuedIn]

/-- **The rounds find what is queued**, each message once and in the order queued; what is not yet
found is pending. -/
theorem queued_of_run {s s' : Dispatch} {actions : List DispatchAction}
    (hrun : dispatchSystem.run s actions = some s') :
    s'.rounds.flatMap Round.found ++ s'.pending =
      s.rounds.flatMap Round.found ++ s.pending ++ queuedIn actions := by
  induction actions generalizing s with
  | nil =>
      obtain rfl : s = s' := Option.some.inj hrun
      exact (List.append_nil _).symm
  | cons a rest ih =>
      obtain ⟨middle, hstep, hrest⟩ := TransitionSystem.run_cons.mp hrun
      rw [ih hrest, queued_of_step hstep, List.append_assoc, queuedIn, queuedIn,
        ← List.filterMap_append]
      rfl

/-- **Delivery.**  Throughout a run every member gets, while it is on the list, the messages for it
exactly once and in order if and only if every round finds messages in the queue that are all the
same to every member on the list. -/
theorem ordered_throughout_iff {actions : List DispatchAction} {s' : Dispatch}
    (hrun : dispatchSystem.run Dispatch.start actions = some s') :
    dispatchSystem.Throughout Ordered Dispatch.start actions ↔
      dispatchSystem.StepsMeet RoundAlike Dispatch.start actions := by
  refine TransitionSystem.throughout_iff_stepsMeet
    (fun s => s.crashed = false → DispatchInv s) ?_ ?_ ?_ ?_ hrun
  · exact fun s a s' h hstep => (dispatch_step h hstep).1
  · exact fun s a s' h hs hstep => (dispatch_step h hstep).2 hs
  · exact fun _ => ⟨represents_nil rfl, rfl⟩
  · rw [ordered_iff]
    exact fun round hround => absurd hround List.not_mem_nil

/-! ## One member and two messages -/

namespace TwoMessages

def ann : Member := ⟨4, 0, CString.lit "ann", CString.lit "blue", 0⟩

/-- Ann alone is on the list. -/
def list : MemberList where
  heap := ⟨fun a => if a = 1 then some ⟨ann, none, none⟩ else none, some 1⟩
  addrs := [1]
  listed := by decide
  distinct := by decide

/-- A round after every message. -/
def oneByOne : List DispatchAction :=
  [.round .empty, .enqueue ann (CString.lit "one") 8, .round list,
    .enqueue ann (CString.lit "two") 8, .round list]

/-- Both messages before a round. -/
def together : List DispatchAction :=
  [.round .empty, .enqueue ann (CString.lit "one") 8, .enqueue ann (CString.lit "two") 9,
    .round list]

theorem ordered_oneByOne : dispatchSystem.Throughout Ordered Dispatch.start oneByOne := by
  have hrun : (dispatchSystem.run Dispatch.start oneByOne).isSome := by decide +kernel
  obtain ⟨s', hs'⟩ := Option.isSome_iff_exists.mp hrun
  exact (ordered_throughout_iff hs').mpr (by decide +kernel)

/-- Then Ann gets the second message twice, and never the first. -/
theorem not_ordered_together : ¬ ∀ actions s',
    dispatchSystem.run Dispatch.start actions = some s' → Ordered s' := by
  intro hall
  have hlast : (dispatchSystem.run Dispatch.start together).map
      (fun s => s.rounds.map fun round => (round.members, textsFor round.sent 0 ann,
        linesFor round.found 0 ann)) =
      some [([], [], []), ([ann], [CString.lit "ann : two\n", CString.lit "ann : two\n"],
        [CString.lit "ann : one\n", CString.lit "ann : two\n"])] := by
    decide +kernel
  obtain ⟨s', hs', hshape⟩ := Option.map_eq_some_iff.mp hlast
  obtain ⟨idle, round, hrounds⟩ := List.length_eq_two.mp (by
    simpa using congrArg List.length hshape : s'.rounds.length = 2)
  simp only [hrounds, List.map_cons, List.map_nil, List.cons.injEq, Prod.mk.injEq] at hshape
  obtain ⟨-, ⟨hmembers, hsent, hlines⟩, -⟩ := hshape
  have hserves := ordered_iff.mp (hall _ _ hs') round (by simp [hrounds]) ann (by simp [hmembers]) 0
  rw [hsent, hlines] at hserves
  exact absurd hserves (by decide)

end TwoMessages

end NetworkHomework.Chat
