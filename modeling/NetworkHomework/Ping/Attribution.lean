import NetworkHomework.Ping.Packet

/-!
# Late replies

The capture is a queue: what `pcap_next` has returned, followed by what it has not, is what
came in and passed the filter, in this order.  So with a target that answers every probe
once and in turn, the reports are about the first, the second, the third probe and so on,
however late the replies are, while a round that times out uses up a probe.  From the
first timeout on, every report is about the reply to an older probe.
-/

namespace NetworkHomework.Ping

variable {config : PingConfig} {s s' : Pinger} {actions : List PingAction}

/-! ## The queue -/

/-- The packets that pass the filter, in the order they come in. -/
def passing (config : PingConfig) (actions : List PingAction) : List IpPacket :=
  actions.filterMap fun
    | .capture packet => if filter config packet then some packet else none
    | _ => none

/-- What was reported and what is left to be read. -/
def Pinger.taken (s : Pinger) : List IpPacket :=
  (s.reports.map Report.reply ++ s.unread).map Captured.packet

theorem taken_step {a : PingAction} (hstep : s.step config a = some s') :
    s'.taken = s.taken ++ passing config [a] := by
  cases a with
  | sendto =>
      obtain ⟨-, rfl⟩ := Option.ite_some_none_eq_some.mp hstep
      exact (List.append_nil _).symm
  | sendError =>
      obtain ⟨-, rfl⟩ := Option.ite_some_none_eq_some.mp hstep
      exact (List.append_nil _).symm
  | gettimeofday =>
      obtain ⟨-, rfl⟩ := Option.ite_some_none_eq_some.mp hstep
      exact (List.append_nil _).symm
  | pcapNext =>
      obtain ⟨-, reply, unread, hunread, rfl⟩ := Pinger.step_pcapNext hstep
      simp [Pinger.taken, Pinger.nextRound, passing, hunread]
  | timeout =>
      obtain ⟨-, rfl⟩ := Option.ite_some_none_eq_some.mp hstep
      exact (List.append_nil _).symm
  | wait micros =>
      obtain rfl := Option.some.inj hstep
      exact (List.append_nil _).symm
  | capture packet =>
      by_cases hpasses : filter config packet
      · obtain rfl : { s with unread := s.unread ++ [⟨packet, .ofMicros s.clock⟩] } = s' := by
          simpa [Pinger.step, hpasses] using hstep
        simp [Pinger.taken, passing, hpasses]
      · obtain rfl : s = s' := by simpa [Pinger.step, hpasses] using hstep
        simp [passing, hpasses]

/-- **First in, first out.** -/
theorem taken_run (hrun : (pingSystem config).run s actions = some s') :
    s'.taken = s.taken ++ passing config actions := by
  induction actions generalizing s with
  | nil =>
      obtain rfl := Option.some.inj hrun
      exact (List.append_nil _).symm
  | cons a rest ih =>
      obtain ⟨middle, hstep, hrest⟩ := TransitionSystem.run_cons.mp hrun
      calc s'.taken = middle.taken ++ passing config rest := ih hrest
        _ = s.taken ++ passing config [a] ++ passing config rest := by rw [taken_step hstep]
        _ = s.taken ++ passing config (a :: rest) := by
          rw [List.append_assoc, passing, passing, passing, ← List.filterMap_append]
          rfl

/-! ## The rounds -/

/-- The rounds of the reports. -/
def Pinger.reportRounds (s : Pinger) : List ℕ := s.reports.map Report.round

/-- The reports are of different rounds, in order, and all of these are over and had a probe. -/
structure Pinger.RoundsInOrder (s : Pinger) : Prop where
  increasing : s.reportRounds.Pairwise (· < ·)
  past : ∀ round ∈ s.reportRounds, round < s.i ∧ round < s.sent.length

theorem Pinger.RoundsInOrder.step {a : PingAction} (h : s.RoundsInOrder)
    (hround : s.InRound config) (hstep : s.step config a = some s') : s'.RoundsInOrder := by
  cases a with
  | sendto =>
      obtain ⟨-, rfl⟩ := Option.ite_some_none_eq_some.mp hstep
      refine ⟨h.increasing, fun round hmem => ⟨(h.past round hmem).1, ?_⟩⟩
      rw [List.length_append]
      exact Nat.lt_add_right _ (h.past round hmem).2
  | sendError =>
      obtain ⟨-, rfl⟩ := Option.ite_some_none_eq_some.mp hstep
      exact ⟨h.increasing, h.past⟩
  | gettimeofday =>
      obtain ⟨-, rfl⟩ := Option.ite_some_none_eq_some.mp hstep
      exact ⟨h.increasing, h.past⟩
  | pcapNext =>
      obtain ⟨hpc, reply, unread, -, rfl⟩ := Pinger.step_pcapNext hstep
      have hlength := hround.behind (.inr hpc)
      constructor
      · have hrounds : (s.reportRounds ++ [s.i]).Pairwise (· < ·) :=
          List.pairwise_append.mpr ⟨h.increasing, List.pairwise_singleton _ _,
            fun round hmem last hlast => List.mem_singleton.mp hlast ▸ (h.past round hmem).1⟩
        simpa [Pinger.reportRounds, Pinger.nextRound] using hrounds
      · intro round hmem
        have hcases : round ∈ s.reportRounds ∨ round = s.i := by
          simpa [Pinger.reportRounds, Pinger.nextRound] using hmem
        rcases hcases with hbefore | rfl
        · exact ⟨Nat.lt_succ_of_lt (h.past round hbefore).1, (h.past round hbefore).2⟩
        · exact ⟨Nat.lt_succ_self _, by simp [Pinger.nextRound, hlength]⟩
  | timeout =>
      obtain ⟨-, rfl⟩ := Option.ite_some_none_eq_some.mp hstep
      exact ⟨h.increasing, fun round hmem =>
        ⟨Nat.lt_succ_of_lt (h.past round hmem).1, (h.past round hmem).2⟩⟩
  | wait micros =>
      obtain rfl := Option.some.inj hstep
      exact ⟨h.increasing, h.past⟩
  | capture packet =>
      rcases Pinger.step_capture hstep with rfl | ⟨-, rfl⟩
      · exact h
      · exact ⟨h.increasing, h.past⟩

/-! ## Increasing lists -/

variable {rounds : List ℕ} {i j : ℕ}

/-- An increasing list grows by at least one with each place. -/
theorem getElem_add_le (h : rounds.Pairwise (· < ·)) (hij : i ≤ j) (hj : j < rounds.length) :
    rounds[i] + (j - i) ≤ rounds[j] := by
  induction j, hij using Nat.le_induction with
  | base => simp
  | succ j hij ih =>
      have hlt : rounds[j] < rounds[j + 1] :=
        List.pairwise_iff_getElem.mp h j (j + 1) (by omega) hj (Nat.lt_succ_self j)
      have hle := ih (by omega)
      omega

/-- An increasing list has its place at a place exactly if it has left out nothing before. -/
theorem getElem_eq_iff (h : rounds.Pairwise (· < ·)) (hj : j < rounds.length) :
    rounds[j] = j ↔ ∀ k < rounds[j], k ∈ rounds := by
  have hle : ∀ i (hi : i ≤ j), i ≤ rounds[i] := fun i hi => by
    have := getElem_add_le h (Nat.zero_le i) (by omega)
    omega
  constructor
  · intro heq k hk
    have hkj : k ≤ j := by omega
    have hlow := hle k hkj
    have hhigh := getElem_add_le h hkj hj
    have hget : rounds[k] = k := by omega
    exact List.mem_of_getElem hget
  · intro hall
    by_contra hne
    -- the places below `rounds[j]` would have to hold more numbers than there are places
    have hsub : List.range rounds[j] ⊆ rounds.take j := by
      intro k hk
      have hlt := List.mem_range.mp hk
      obtain ⟨i, hi, hget⟩ := List.getElem_of_mem (hall k hlt)
      have hij : i < j := by
        by_contra hge
        have := getElem_add_le h (Nat.not_lt.mp hge) hi
        omega
      rw [← hget]
      exact List.mem_take_iff_getElem.mpr ⟨i, by omega, rfl⟩
    have hlength := (List.subperm_of_subset List.nodup_range hsub).length_le
    rw [List.length_range, List.length_take] at hlength
    have := hle j le_rfl
    omega

/-! ## Replies in turn -/

/-- The packets are replies to the first, the second, the third probe and so on. -/
def InTurn (config : PingConfig) (packets : List IpPacket) : Prop :=
  ∀ j packet, packets[j]? = some packet →
    echoId packet.payload = config.pid % 65536 ∧ echoSequence packet.payload = (j + 1) % 65536

/-- The reply that is reported answers the probe of round `k`. -/
structure Report.Answers (config : PingConfig) (sent : List (List UInt8)) (r : Report) (k : ℕ) :
    Prop where
  id_eq : echoId r.reply.packet.payload = config.pid % 65536
  sequence_eq : ∃ probe, sent[k]? = some probe ∧
    echoSequence r.reply.packet.payload = echoSequence probe

/-- The probes are told apart by their numbers. -/
theorem Pinger.InRound.answers_iff (h : s.InRound config) {r : Report} {j k : ℕ}
    (hid : echoId r.reply.packet.payload = config.pid % 65536)
    (hsequence : echoSequence r.reply.packet.payload = (j + 1) % 65536) :
    r.Answers config s.sent k ↔ k < s.sent.length ∧ (k + 1) % 65536 = (j + 1) % 65536 := by
  have hsent : ∀ probe, s.sent[k]? = some probe ↔
      k < s.sent.length ∧ Ping.probe config.order config.pid (k + 1) = probe := by
    intro probe
    rw [h.sent_eq]
    simp [List.getElem?_eq_some_iff]
  constructor
  · intro hanswers
    obtain ⟨probe, hprobe, heq⟩ := hanswers.sequence_eq
    obtain ⟨hlt, rfl⟩ := (hsent probe).mp hprobe
    rw [echoSequence_probe, hsequence] at heq
    exact ⟨hlt, heq.symm⟩
  · intro hk
    refine ⟨hid, _, (hsent _).mpr ⟨hk.1, rfl⟩, ?_⟩
    rw [echoSequence_probe, hsequence]
    exact hk.2.symm

theorem inOrder_of_reachable (h : (pingSystem config).Reachable s) :
    s.InRound config ∧ s.InCount config ∧ s.RoundsInOrder := by
  induction h with
  | start hstart =>
      obtain ⟨clock, tv, rfl⟩ := hstart
      exact ⟨.start clock tv, Pinger.inCount_start clock tv, List.Pairwise.nil,
        fun _ hmem => absurd hmem List.not_mem_nil⟩
  | next _ _ hstep ih =>
      obtain ⟨hround, hcount, horder⟩ := ih
      exact ⟨hround.step hstep, hcount.step hround hstep, horder.step hround hstep⟩

/-- **Late replies.**  If the target answers every probe once and in turn, and the sequence numbers
do not wrap, then the `j`-th report is about the probe of round `j`, however late the replies come.
So it is about the probe of its own round exactly if no round before has timed out. -/
theorem reports_in_turn {clock : ℕ} {tv : Timeval}
    (hrun : (pingSystem config).run (.start config clock tv) actions = some s')
    (hcount : config.count ≤ 65536) (hturn : InTurn config (passing config actions))
    {j : ℕ} {r : Report} (hr : s'.reports[j]? = some r) :
    r.Answers config s'.sent j ∧
      (r.Answers config s'.sent r.round ↔
        ∀ k < r.round, ∃ earlier ∈ s'.reports, earlier.round = k) := by
  obtain ⟨hround, hincount, horder⟩ := inOrder_of_reachable
    (TransitionSystem.reachable_of_run (.start ⟨clock, tv, rfl⟩) hrun)
  obtain ⟨hj, hget⟩ := List.getElem?_eq_some_iff.mp hr
  -- the packet of the report is the one with the same number among those that came in
  have hpacket : (passing config actions)[j]? = some r.reply.packet := by
    have htaken : s'.taken = passing config actions := taken_run hrun
    have hlt : j < (s'.reports.map Report.reply).length := by rwa [List.length_map]
    rw [← htaken, Pinger.taken, List.getElem?_map, List.getElem?_append_left hlt,
      List.getElem?_map, hr]
    rfl
  obtain ⟨hid, hsequence⟩ := hturn j r.reply.packet hpacket
  have hjlt : j < s'.reportRounds.length := by rwa [Pinger.reportRounds, List.length_map]
  have hrounds : s'.reportRounds[j] = r.round := by simp [Pinger.reportRounds, hget]
  have hle : j ≤ r.round := by
    have := getElem_add_le horder.increasing (Nat.zero_le j) hjlt
    omega
  have hlt : r.round < s'.sent.length :=
    (horder.past _ (hrounds ▸ List.getElem_mem hjlt)).2
  have hsent := hincount.sent_le
  constructor
  · exact (hround.answers_iff hid hsequence).mpr ⟨by omega, rfl⟩
  · calc r.Answers config s'.sent r.round
      _ ↔ s'.reportRounds[j] = j := by
          rw [hround.answers_iff hid hsequence, hrounds]
          omega
      _ ↔ ∀ k < r.round, ∃ earlier ∈ s'.reports, earlier.round = k := by
          rw [getElem_eq_iff horder.increasing hjlt, hrounds]
          simp [Pinger.reportRounds]

/-- The only report of the run with the late reply is of the second round, and not about its
probe. -/
theorem Mispaired.reports_in_turn_late :
    ∃ s r, (pingSystem Mispaired.pinging).run Mispaired.begin Mispaired.late = some s ∧
      s.reports[0]? = some r ∧ r.round = 1 ∧ r.Answers Mispaired.pinging s.sent 0 ∧
      ¬ r.Answers Mispaired.pinging s.sent r.round := by
  have hshape : ((pingSystem Mispaired.pinging).run Mispaired.begin Mispaired.late).map
      (fun s => s.reports.map Report.round) = some [1] := by decide +kernel
  obtain ⟨s, hs, hrounds⟩ := Option.map_eq_some_iff.mp hshape
  obtain ⟨r, hreports, hround⟩ := List.map_eq_singleton_iff.mp hrounds
  have hturn : InTurn Mispaired.pinging (passing Mispaired.pinging Mispaired.late) := by
    have hnumbers : (passing Mispaired.pinging Mispaired.late).map (fun packet =>
        (echoId packet.payload, echoSequence packet.payload)) = [(4242, 1)] := by decide +kernel
    intro j packet hpacket
    have hpair : [(4242, 1)][j]? =
        some (echoId packet.payload, echoSequence packet.payload) := by
      rw [← hnumbers, List.getElem?_map, hpacket]
      rfl
    cases j with
    | zero =>
        obtain ⟨hid, hsequence⟩ := Prod.mk.inj (Option.some.inj hpair)
        exact ⟨hid.symm, hsequence.symm⟩
    | succ j => cases hpair
  have hr : s.reports[0]? = some r := by rw [hreports]; rfl
  obtain ⟨hfirst, howniff⟩ := reports_in_turn hs (by decide) hturn hr
  refine ⟨s, r, hs, hr, hround, hfirst, fun hown => ?_⟩
  obtain ⟨earlier, hmem, hearlier⟩ := howniff.mp hown 0 (by omega)
  rw [hreports, List.mem_singleton] at hmem
  subst hmem
  omega

end NetworkHomework.Ping
