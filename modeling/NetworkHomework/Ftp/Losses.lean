import NetworkHomework.Ftp.Stages

/-!
# Which losses are made up for

While nothing is lost but what the message of the client makes up for, every run by the
clock ends, and it ends with the whole file at the client.

After any other loss the server ignores what the client sends, and by receiving it never
comes to a timeout of its own: one lost first packet, or one lost acknowledgement before
the last, and the client gives up.
-/

namespace NetworkHomework.Ftp

open TransitionSystem Pair

variable {config : PairConfig} {n latency first time : ℕ} {s s' : Timed} {a : TimedAction}

namespace Timed

/-! ## Before the end there is a step -/

/-- What is in flight may arrive now. -/
theorem exists_deliver {f : Flight} (hflying : s.flying = [f])
    (hontime : s.OnTime latency s.now) :
    ∃ a s', a.Lossless ∧ s.step config latency a = some s' := by
  have hf : s.flying[0]? = some f := by rw [hflying]; rfl
  exact ⟨⟨s.now, .deliver 0⟩, _, fun i => by simp, (Happens.deliver hf).step hontime⟩

/-- If nothing is in flight, whoever times out first may wait until then. -/
theorem exists_timeout (hflying : s.flying = []) (hontime : s.OnTime latency s.now)
    (hwaiting : s.pair.server.Waiting) (hreceiving : s.pair.client.pc = .receiving) :
    ∃ a s', a.Lossless ∧ s.step config latency a = some s' := by
  have hserver := hontime.server hwaiting
  have hclient := hontime.client hreceiving
  have hpair : s.pair.step config .serverTimeout = some (s.pair.serverStep config .timeout) :=
    if_pos hwaiting
  have hpair' : s.pair.step config .clientTimeout =
      some (s.pair.clientStep config none .timeout) := if_pos hreceiving
  rcases Nat.le_total (s.serverSince + serverTimeval) (s.clientSince + clientTimeval) with
    hle | hle
  · have hdue : s.OnTime latency (s.serverSince + serverTimeval) :=
      ⟨hserver, fun _ => Nat.le_refl _, fun _ => hle, by simp [hflying]⟩
    exact ⟨⟨_, .serverTimeout⟩, _, fun i => by simp, (Happens.serverTimeout rfl hpair).step hdue⟩
  · have hdue : s.OnTime latency (s.clientSince + clientTimeval) :=
      ⟨hclient, fun _ => hle, fun _ => Nat.le_refl _, by simp [hflying]⟩
    exact ⟨⟨_, .clientTimeout⟩, _, fun i => by simp, (Happens.clientTimeout rfl hpair').step hdue⟩

theorem Stage.progress {r : ℕ} (h : Stage config latency first r s)
    (hontime : s.OnTime latency s.now) :
    Completed config s.pair ∨ ∃ a s', a.Lossless ∧ s.step config latency a = some s' := by
  cases h with
  | requesting h =>
      rcases h.one with hone | hnone
      · exact .inr (exists_deliver hone hontime)
      · exact .inr (exists_timeout hnone hontime (.inl h.waiting) h.receiving)
  | delivering h =>
      rcases h.one with hone | hnone
      · exact .inr (exists_deliver hone hontime)
      · exact .inr (exists_timeout hnone hontime (.inr h.underway.sending.pc_eq)
          h.underway.receiving)
  | retrying h => exact .inr (exists_deliver h.flying hontime)
  | acking h => exact .inr (exists_deliver h.flying hontime)
  | finishing h => exact .inr (exists_deliver h.flying hontime)
  | completed h hflying => exact .inl h

/-- Every run under the condition is in one of the stages. -/
theorem stage_of_reachable (hname : config.client.filename = config.server.filename)
    (hlatency : 2 * latency < clientTimeval)
    (h : (timedSystem config latency).ReachableUnder (Spared config) s) :
    (∃ first ≤ serverTimeval, ∃ r, Stage config latency first r s) ∧ s.OnTime latency s.now := by
  apply h.invariant
  · rintro s ⟨clientaddr, garbage, first, hfirst, rfl⟩
    exact ⟨⟨first, hfirst, _, .requesting (requesting_start clientaddr garbage first)⟩,
      onTime_start clientaddr garbage hfirst⟩
  · rintro s a s' ⟨⟨first, hfirst, r, hstage⟩, -⟩ hspared hstep
    obtain ⟨r', -, hnext⟩ := hstage.step hname hfirst hlatency hspared hstep
    exact ⟨⟨first, hfirst, r', hnext⟩, onTime_step hstep⟩

/-! ## Losses nothing makes up for -/

/-- The first packet is lost, or the acknowledgement of a chunk before the last. -/
def Cuts (config : PairConfig) (s : Timed) (a : TimedAction) : Prop :=
  ∃ i f, a.event = .lose i ∧ s.flying[i]? = some f ∧
    (f.datagram = dataOf config 0 ∨
      ∃ n < lastChunk config.server.file, f.datagram = ackOf config n)

/-- The client hears nothing and the server ignores its messages, with a bound on the number of
steps before the client gives up. -/
inductive CutOff (config : PairConfig) (latency : ℕ) : ℕ → Timed → Prop
  | silent {n k : ℕ} {s : Timed} (h : Underway config n k s.pair) (hmute : ¬ (0 < n ∧ k = n))
      (hsince : s.clientSince ≤ s.serverSince + latency) (hflying : s.flying = []) :
      CutOff config latency (2 * (11 - s.pair.client.timeouts) + 1) s
  | retrying {n k : ℕ} {s : Timed} (h : Underway config n k s.pair) (hmute : ¬ (0 < n ∧ k = n))
      (hnet : retryOf config k ∈ s.pair.net) (hle_now : s.clientSince ≤ s.now)
      (hsince : s.clientSince ≤ s.serverSince + latency + clientTimeval)
      (hflying : s.flying = [⟨retryOf config k, s.clientSince⟩]) :
      CutOff config latency (2 * (11 - s.pair.client.timeouts) + 2) s

theorem CutOff.receiving {r : ℕ} (h : CutOff config latency r s) :
    s.pair.client.pc = .receiving := by
  cases h with
  | silent h => exact h.receiving
  | retrying h => exact h.receiving

theorem CutOff.pos {r : ℕ} (h : CutOff config latency r s) : 0 < r := by
  cases h <;> exact Nat.succ_pos _

theorem CutOff.progress {r : ℕ} (h : CutOff config latency r s)
    (hontime : s.OnTime latency s.now) :
    ∃ a s', a.Lossless ∧ s.step config latency a = some s' := by
  cases h with
  | silent h hmute hsince hflying =>
      exact exists_timeout hflying hontime (.inr h.sending.pc_eq) h.receiving
  | retrying h hmute hnet hle_now hsince hflying => exact exists_deliver hflying hontime

/-- A client that is cut off and hears nothing times out: it sends its message, or gives up. -/
theorem step_silent {k : ℕ} (h : Underway config n k s.pair) (hmute : ¬ (0 < n ∧ k = n))
    (hsince : s.clientSince ≤ s.serverSince + latency) (hflying : s.flying = [])
    (hlatency : 2 * latency < clientTimeval) (ha : a.Lossless)
    (hstep : s.step config latency a = some s') :
    s'.pair.client.pc = .stopped ∨
      ∃ r' < 2 * (11 - s.pair.client.timeouts) + 1, CutOff config latency r' s' := by
  obtain ⟨hontime, hhappens⟩ := step_happens hstep
  have hclient := hontime.client h.receiving
  generalize hevent : a.event = event at hhappens
  generalize a.time = time at hontime hclient hhappens
  cases hhappens with
  | serverTimeout htime hpair =>
      simp only [serverTimeval, clientTimeval] at *
      omega
  | @clientTimeout pair htime hpair =>
      by_cases hretry : s.pair.client.MayRetry
      · obtain ⟨hunderway, hnet, hflying', hcount, hle⟩ :=
          underway_clientTimeout h hretry hflying hpair
        refine .inr ⟨_, ?_, .retrying (s := s.clientMoves time pair) hunderway hmute hnet
          (Nat.le_refl _) ?_ hflying'⟩
        · simp only [clientMoves, hcount]
          omega
        · show time ≤ s.serverSince + latency + clientTimeval
          omega
      · obtain ⟨-, rfl⟩ := Option.ite_some_none_eq_some.mp hpair
        left
        simp only [clientMoves, clientStep, Client.timedOut_of_not_mayRetry h.receiving hretry]
  | deliver hf => simp [hflying] at hf
  | lose hf => exact absurd hevent (ha _)

/-- **A step of a client that is cut off** leaves it cut off, or it gives up. -/
theorem CutOff.step {r : ℕ} (h : CutOff config latency r s)
    (hlatency : 2 * latency < clientTimeval) (ha : a.Lossless)
    (hstep : s.step config latency a = some s') :
    s'.pair.client.pc = .stopped ∨ ∃ r' < r, CutOff config latency r' s' := by
  cases h with
  | silent h hmute hsince hflying => exact step_silent h hmute hsince hflying hlatency ha hstep
  | @retrying n k _ h hmute hnet hle_now hsince hflying =>
      obtain ⟨hontime, rfl | ⟨i, hevent, -⟩⟩ := step_answering hflying rfl hsince hlatency hstep
      · -- the server ignores the message
        have hnow := hontime.now_le
        obtain ⟨other, hother, hclient, hunderway, hnet'⟩ := h.retried hnet
        rw [if_neg hmute] at hnet'
        rw [arrive_toServer rfl hother hnet']
        refine .inr ⟨_, ?_, .silent hunderway hmute ?_ rfl⟩
        · simp only [hclient]
          omega
        · show s.clientSince ≤ a.time + latency
          omega
      · exact absurd hevent (ha i)

/-- A client that gave up does not come back. -/
theorem stopped_step (h : s.pair.client.pc = .stopped)
    (hstep : s.step config latency a = some s') :
    s'.pair.client.pc = .stopped := by
  rcases (step_happens hstep).2.pair with hsame | ⟨b, hb⟩
  · rw [hsame]
    exact h
  · cases b <;> obtain ⟨hguard, hs'⟩ := Option.ite_some_none_eq_some.mp hb <;> rw [← hs'] <;>
      first
        | exact h
        | simp [h] at hguard

/-- What is lost if at most the one datagram `f` is in flight. -/
theorem Cuts.one {f : Flight} (h : Cuts config s a) (hflying : s.flying = [f] ∨ s.flying = [])
    (hstep : s.step config latency a = some s') :
    s' = { s with now := a.time, flying := [] } ∧ (f.datagram = dataOf config 0 ∨
      ∃ n < lastChunk config.server.file, f.datagram = ackOf config n) := by
  obtain ⟨i, g, hevent, hg, hlost⟩ := h
  obtain ⟨-, hhappens⟩ := step_happensOne hflying hstep
  rw [hevent] at hhappens
  cases hhappens with
  | lose _ hf =>
      obtain rfl := Option.some.inj (hf.symm.trans hg)
      exact ⟨rfl, hlost⟩

/-- A message of the client but an acknowledgement is none of the losses. -/
theorem retryOf_not_cuts (k : ℕ) : ¬ (retryOf config k = dataOf config 0 ∨
    ∃ n < lastChunk config.server.file, retryOf config k = ackOf config n) := by
  rintro (hlost | ⟨n, -, hlost⟩)
  · exact absurd (congrArg Datagram.dest hlost) config.distinct
  · cases congrArg Datagram.about hlost

/-- **The loss cuts the client off.** -/
theorem Stage.cutOff {r : ℕ} (h : Stage config latency first r s) (hcuts : Cuts config s a)
    (hstep : s.step config latency a = some s') :
    CutOff config latency (2 * (11 - s'.pair.client.timeouts) + 1) s' := by
  cases h with
  | requesting h =>
      obtain ⟨-, hlost⟩ := hcuts.one h.one hstep
      exact absurd hlost (retryOf_not_cuts 0)
  | @delivering n _ h =>
      obtain ⟨rfl, hlost⟩ := hcuts.one h.one hstep
      have hzero : n = 0 := by
        rcases hlost with hlost | ⟨m, -, hlost⟩
        · exact Option.some.inj (congrArg Datagram.about hlost)
        · exact absurd (congrArg Datagram.dest hlost).symm config.distinct
      have hmute : ¬ (0 < n ∧ n = n) := by omega
      exact .silent (s := { s with now := a.time, flying := [] }) h.underway hmute
        (h.since.1.trans (Nat.le_add_right _ _)) rfl
  | @retrying n _ h =>
      obtain ⟨-, hlost⟩ := hcuts.one (.inl h.flying) hstep
      exact absurd hlost (retryOf_not_cuts n)
  | @acking n _ h =>
      obtain ⟨rfl, -⟩ := hcuts.one (.inl h.flying) hstep
      have hmute : ¬ (0 < n ∧ n + 1 = n) := by omega
      exact .silent (s := { s with now := a.time, flying := [] }) h.underway hmute h.since.2 rfl
  | finishing h =>
      obtain ⟨-, hlost⟩ := hcuts.one (.inl h.flying) hstep
      rcases hlost with hlost | ⟨m, hm, hlost⟩
      · exact absurd (congrArg Datagram.dest hlost).symm config.distinct.symm
      · have habout := congrArg Datagram.about hlost
        exact absurd (Option.some.inj habout) (Nat.ne_of_gt hm)
  | completed h hflying =>
      obtain ⟨i, f, -, hf, -⟩ := hcuts
      simp [hflying] at hf

/-- A client that is cut off stays so, until it gives up. -/
theorem CutOff.run {r : ℕ} {actions : List TimedAction} (h : CutOff config latency r s)
    (hlatency : 2 * latency < clientTimeval) (hlossless : ∀ a ∈ actions, a.Lossless)
    (hrun : (timedSystem config latency).run s actions = some s') :
    s'.pair.client.pc = .stopped ∨
      ∃ r', CutOff config latency r' s' ∧ actions.length + r' ≤ r := by
  induction actions generalizing s r with
  | nil =>
      obtain rfl : s = s' := Option.some.inj hrun
      exact .inr ⟨r, h, Nat.le_of_eq (Nat.zero_add r)⟩
  | cons a rest ih =>
      obtain ⟨middle, hstep, hrest⟩ := run_cons.mp hrun
      have htail : ∀ b ∈ rest, b.Lossless := fun b hb => hlossless b (List.mem_cons_of_mem a hb)
      rcases h.step hlatency (hlossless a List.mem_cons_self) hstep with hstopped | ⟨r', hlt, h'⟩
      · left
        exact @run_invariant _ _ (timedSystem config latency) TimedAction.Lossless
          (fun s => s.pair.client.pc = .stopped) _ _
          (fun _ _ _ hs _ hstep => stopped_step hs hstep) _ htail hrest hstopped
      · rcases ih h' htail hrest with hstopped | ⟨r'', h'', hle⟩
        · exact .inl hstopped
        · refine .inr ⟨r'', h'', ?_⟩
          rw [List.length_cons]
          omega

end Timed

/-! ## Either way -/

open Timed

/-- A run in which only what can be made up for is lost. -/
theorem completes_of_spared {actions : List TimedAction}
    (hname : config.client.filename = config.server.filename)
    (hlatency : 2 * latency < clientTimeval) (hs : (timedSystem config latency).initial s)
    (hspared : (timedSystem config latency).StepsMeet (Spared config) s actions)
    (hrun : (timedSystem config latency).run s actions = some s') :
    actions.length ≤ 100 * (lastChunk config.server.file + 3) ∧
      (Completed config s'.pair ∨
        ∃ a s'', a.Lossless ∧ s'.step config latency a = some s'') := by
  have hreach : (timedSystem config latency).ReachableUnder (Spared config) s' :=
    reachableUnder_of_run (.start hs) hspared hrun
  obtain ⟨-, hontime⟩ := stage_of_reachable hname hlatency hreach
  obtain ⟨clientaddr, garbage, first, hfirst, rfl⟩ := hs
  obtain ⟨r', hstage, hle⟩ := length_add_le_of_ranked
    (fun r s a s' hstage hspared hstep => Stage.step hstage hname hfirst hlatency hspared hstep)
    hspared hrun (Stage.requesting (requesting_start clientaddr garbage first))
  refine ⟨?_, hstage.progress hontime⟩
  have hlength : (Timed.start config clientaddr garbage first).flying.length = 1 := rfl
  omega

/-- **Losses by the clock.**  Let the network be fast: twice its latency is less than a second.  If
only requests and packets of chunks behind the first are lost, and only while the client would not
give up at its next timeout, then the transfer completes: no run goes on for ever, and none ends
before both parties are at their end, the client with the whole file.  If the first packet is lost
or the acknowledgement of a chunk before the last, the client does not get the file any more, even
if nothing else is lost: after 23 steps at most it gives up. -/
theorem losses_made_up_for (config : PairConfig)
    (hname : config.client.filename = config.server.filename) (latency : ℕ)
    (hlatency : 2 * latency < clientTimeval) :
    (∀ s actions s', (timedSystem config latency).initial s →
      (timedSystem config latency).StepsMeet (Spared config) s actions →
      (timedSystem config latency).run s actions = some s' →
      actions.length ≤ 100 * (lastChunk config.server.file + 3) ∧
        (Completed config s'.pair ∨
          ∃ a s'', a.Lossless ∧ s'.step config latency a = some s'')) ∧
    (∀ s a cut actions s', (timedSystem config latency).ReachableUnder (Spared config) s →
      Cuts config s a → s.step config latency a = some cut →
      (∀ b ∈ actions, TimedAction.Lossless b) →
      (timedSystem config latency).run cut actions = some s' →
      s'.pair.client.pc ≠ .finished ∧
        (s'.pair.client.pc = .stopped ∨ actions.length < 23 ∧
          ∃ b s'', b.Lossless ∧ s'.step config latency b = some s'')) := by
  refine ⟨fun s actions s' hs hspared hrun => completes_of_spared hname hlatency hs hspared hrun,
    fun s a cut actions s' hreach hcuts hcut hlossless hrun => ?_⟩
  obtain ⟨⟨first, -, r, hstage⟩, -⟩ := stage_of_reachable hname hlatency hreach
  have hontime : s'.OnTime latency s'.now := by
    exact @run_invariant _ _ (timedSystem config latency) TimedAction.Lossless
      (fun s => s.OnTime latency s.now) _ _ (fun _ _ _ _ _ hstep => onTime_step hstep) _
      hlossless hrun (onTime_step hcut)
  rcases (hstage.cutOff hcuts hcut).run hlatency hlossless hrun with hstopped | ⟨r', hcutOff, hle⟩
  · exact ⟨by simp [hstopped], .inl hstopped⟩
  · have hpos := hcutOff.pos
    exact ⟨by simp [hcutOff.receiving], .inr ⟨by omega, hcutOff.progress hontime⟩⟩

namespace FullChunk

/-- The request is lost, and the second packet. -/
def lossy : List TimedAction :=
  [⟨0, .lose 0⟩, ⟨1000, .clientTimeout⟩, ⟨1100, .deliver 0⟩, ⟨1200, .deliver 0⟩,
    ⟨1300, .deliver 0⟩, ⟨1400, .lose 0⟩, ⟨2200, .clientTimeout⟩, ⟨2300, .deliver 0⟩,
    ⟨2400, .deliver 0⟩, ⟨2500, .deliver 0⟩]

def timedStart : Timed := Timed.start pair pair.clientAddr (Buffer.zero 6) 0

theorem losses_made_up_for_lossy :
    ∃ s', (timedSystem pair 100).run timedStart lossy = some s' ∧
      (Completed pair s'.pair ∨ ∃ a s'', a.Lossless ∧ s'.step pair 100 a = some s'') := by
  have hrun : ((timedSystem pair 100).run timedStart lossy).isSome := by decide +kernel
  have hspared : (timedSystem pair 100).StepsMeet (Spared pair) timedStart lossy := by
    decide +kernel
  obtain ⟨s', hs'⟩ := Option.isSome_iff_exists.mp hrun
  have hstart : (timedSystem pair 100).initial timedStart := ⟨_, _, 0, Nat.zero_le _, rfl⟩
  exact ⟨s', hs', ((losses_made_up_for pair rfl 100 (by decide)).1 _ _ _ hstart hspared hs').2⟩

end FullChunk

end NetworkHomework.Ftp
