import NetworkHomework.Foundation.Progress
import NetworkHomework.Ftp.Integrity

/-!
# How long the two wait

Both parties count the timeouts since the last datagram, the client in one counter while
it has accepted nothing and in another one afterwards, and leave at the twelfth.  The
patience of a party is the number of timeouts it has left; every timeout uses up one, so
over a network that delivers nothing any more the two leave after exactly as many
timeouts as they have left between them, at most 24.
-/

namespace NetworkHomework.Ftp

open TransitionSystem

def PairAction.IsTimeout : PairAction → Prop
  | .serverTimeout | .clientTimeout => True
  | .toServer _ | .toClient _ | .damagedToServer _ | .damagedToClient _ => False

/-- The timeouts after which the process leaves. -/
def Server.patience (s : Server) : ℕ :=
  match s.pc with
  | .waitFrq => 12 - s.timeoutNum
  | .waitAck => 12 - s.timeoutNum
  | .returned => 0
  | .exited => 0

/-- The counter a timeout of the client increments. -/
def Client.timeouts (c : Client) : ℕ := if c.block = 0 then c.timeoutFirstNum else c.timeoutNum

/-- The timeouts after which the client leaves. -/
def Client.patience (c : Client) : ℕ :=
  match c.pc with
  | .receiving => 12 - c.timeouts
  | .finished => 0
  | .stopped => 0
  | .overrun => 0

def Pair.patience (s : Pair) : ℕ := s.server.patience + s.client.patience

/-- No counter has passed the limit. -/
structure Counted (s : Pair) : Prop where
  server : s.server.timeoutNum ≤ 11
  first : s.client.timeoutFirstNum ≤ 11
  later : s.client.timeoutNum ≤ 11

variable {config : PairConfig} {s s' : Pair}

/-! ## The counters in every run -/

theorem Server.timeoutNum_step {config : ServerConfig} {s : Server} (h : s.timeoutNum ≤ 11)
    (r : Recv) : (startMyftpServer config s r).1.timeoutNum ≤ 11 := by
  unfold startMyftpServer
  cases s.pc with
  | waitFrq =>
      cases r <;> simp only [waitFrq, sendChunk] <;> split_ifs <;> simp <;> omega
  | waitAck =>
      cases r <;> simp only [waitAck, resend, sendChunk] <;> split_ifs <;> simp <;> omega
  | returned => exact h
  | exited => exact h

theorem Client.timeouts_step {config : ClientConfig} {c : Client}
    (h : c.timeoutFirstNum ≤ 11 ∧ c.timeoutNum ≤ 11) (r : Recv) :
    (startMyftpClient config c r).1.timeoutFirstNum ≤ 11 ∧
      (startMyftpClient config c r).1.timeoutNum ≤ 11 := by
  unfold startMyftpClient
  cases c.pc with
  | receiving =>
      cases r with
      | timeout =>
          simp only [transmission, timedOut]
          split_ifs <;> simp <;> omega
      | datagram source bytes =>
          simp only [transmission, accept]
          split_ifs <;> simp
  | finished => exact h
  | stopped => exact h
  | overrun => exact h

theorem counted_of_reachable (h : (pairSystem config).Reachable s) : Counted s := by
  refine h.invariant ?_ ?_
  · intro s hs
    obtain ⟨clientaddr, garbage, rfl⟩ := hs
    exact ⟨Nat.zero_le _, Nat.zero_le _, Nat.zero_le _⟩
  · intro s a s' hcounted _ hstep
    have hserver : ∀ r, Counted (s.serverStep config r) := fun r =>
      ⟨Server.timeoutNum_step hcounted.server r, hcounted.first, hcounted.later⟩
    have hclient : ∀ about r, Counted (s.clientStep config about r) := fun about r =>
      have hstep := Client.timeouts_step ⟨hcounted.first, hcounted.later⟩ r
      ⟨hcounted.server, hstep.1, hstep.2⟩
    cases a <;>
      obtain ⟨-, rfl⟩ := Option.ite_some_none_eq_some.mp hstep <;>
      first
        | exact hserver _
        | exact hclient _ _

/-! ## One timeout -/

theorem Server.patience_eq_zero_iff {s : Server} (h : s.timeoutNum ≤ 11) :
    s.patience = 0 ↔ ¬ s.Waiting := by
  unfold patience Waiting
  cases s.pc <;> simp <;> omega

theorem Client.timeouts_le {c : Client} (hfirst : c.timeoutFirstNum ≤ 11)
    (hlater : c.timeoutNum ≤ 11) : c.timeouts ≤ 11 := by
  unfold timeouts
  split_ifs
  · exact hfirst
  · exact hlater

theorem Client.patience_eq_zero_iff {c : Client} (h : c.timeouts ≤ 11) :
    c.patience = 0 ↔ c.pc ≠ .receiving := by
  unfold patience
  cases c.pc <;> simp
  omega

/-- A timeout of the process uses up one unit of its patience. -/
theorem Server.patience_timeout {config : ServerConfig} {s : Server} (h : s.timeoutNum ≤ 11)
    (hwaiting : s.Waiting) : (startMyftpServer config s .timeout).1.patience + 1 = s.patience := by
  rcases hwaiting with hpc | hpc
  · simp only [startMyftpServer, hpc, waitFrq, patience]
    split_ifs <;> dsimp only <;> omega
  · simp only [startMyftpServer, hpc, waitAck, resend, patience]
    split_ifs <;> dsimp only <;> omega

/-- A process that only waited did not come to the end of its transfer. -/
theorem Server.returned_timeout {config : ServerConfig} {s : Server} (hwaiting : s.Waiting) :
    (startMyftpServer config s .timeout).1.pc ≠ .returned := by
  rcases hwaiting with hpc | hpc
  · simp only [startMyftpServer, hpc, waitFrq]
    split_ifs <;> simp
  · simp only [startMyftpServer, hpc, waitAck, resend]
    split_ifs <;> simp

/-- A timeout of the client uses up one unit of its patience, and writes nothing. -/
theorem Client.patience_timeout {config : ClientConfig} {c : Client} (h : c.timeouts ≤ 11)
    (hpc : c.pc = .receiving) :
    (startMyftpClient config c .timeout).1.patience + 1 = c.patience ∧
      (startMyftpClient config c .timeout).1.written = c.written ∧
      (startMyftpClient config c .timeout).1.pc ≠ .finished := by
  simp only [startMyftpClient, hpc, transmission, timedOut, patience]
  unfold timeouts at h ⊢
  split_ifs at h ⊢ <;> simp_all <;> omega

/-- What a run of timeouts keeps. -/
structure Silent (before s : Pair) : Prop where
  counted : Counted s
  written : s.client.written = before.client.written
  finished : s.client.pc = .finished ↔ before.client.pc = .finished
  returned : s.server.pc = .returned ↔ before.server.pc = .returned

theorem Silent.step {before : Pair} (h : Silent before s) {a : PairAction} (ha : a.IsTimeout)
    (hstep : s.step config a = some s') : Silent before s' ∧ s'.patience + 1 = s.patience := by
  cases a with
  | serverTimeout =>
      obtain ⟨hwaiting, rfl⟩ := Option.ite_some_none_eq_some.mp hstep
      have hpatience := @Server.patience_timeout config.server _ h.counted.server hwaiting
      have hreturned : s.server.pc ≠ .returned := by
        rcases hwaiting with hpc | hpc <;> simp [hpc]
      refine ⟨⟨⟨Server.timeoutNum_step h.counted.server .timeout, h.counted.first,
        h.counted.later⟩, h.written, h.finished, ?_⟩, ?_⟩
      · exact iff_of_false (Server.returned_timeout hwaiting) (mt h.returned.mpr hreturned)
      · show (startMyftpServer config.server s.server .timeout).1.patience + s.client.patience + 1 =
          s.server.patience + s.client.patience
        omega
  | clientTimeout =>
      obtain ⟨hpc, rfl⟩ := Option.ite_some_none_eq_some.mp hstep
      have htimeouts := Client.timeouts_le h.counted.first h.counted.later
      obtain ⟨hpatience, hwritten, hfinished⟩ :=
        @Client.patience_timeout config.client _ htimeouts hpc
      have hcounted := @Client.timeouts_step config.client _ ⟨h.counted.first, h.counted.later⟩
        .timeout
      have hbefore : s.client.pc ≠ .finished := by simp [hpc]
      refine ⟨⟨⟨h.counted.server, hcounted.1, hcounted.2⟩, hwritten.trans h.written, ?_,
        h.returned⟩, ?_⟩
      · exact iff_of_false hfinished (mt h.finished.mpr hbefore)
      · show s.server.patience + (startMyftpClient config.client s.client .timeout).1.patience + 1 =
          s.server.patience + s.client.patience
        omega
  | toServer d => exact absurd ha id
  | toClient d => exact absurd ha id
  | damagedToServer bytes => exact absurd ha id
  | damagedToClient bytes => exact absurd ha id

/-! ## A run of timeouts -/

theorem Pair.patience_le (s : Pair) : s.patience ≤ 24 := by
  have hserver : s.server.patience ≤ 12 := by
    unfold Server.patience
    cases s.server.pc <;> simp
  have hclient : s.client.patience ≤ 12 := by
    unfold Client.patience
    cases s.client.pc <;> simp
  exact Nat.add_le_add hserver hclient

/-- Patience is at its end when both have left. -/
theorem Counted.patience_eq_zero_iff (h : Counted s) :
    s.patience = 0 ↔ ¬ s.server.Waiting ∧ s.client.pc ≠ .receiving := by
  rw [Pair.patience, Nat.add_eq_zero_iff, Server.patience_eq_zero_iff h.server,
    Client.patience_eq_zero_iff (Client.timeouts_le h.first h.later)]

/-- **Silence.**  Over a network that delivers nothing any more, every timeout uses up one unit of
the patience of the two, of which there are at most 24, and both have left exactly when it is used
up.  Nothing is written meanwhile, and nobody takes the transfer for completed. -/
theorem silence_ends (h : (pairSystem config).Reachable s) {actions : List PairAction}
    (hsilent : ∀ a ∈ actions, a.IsTimeout) (hrun : (pairSystem config).run s actions = some s') :
    s.patience ≤ 24 ∧ actions.length + s'.patience = s.patience ∧
      (s'.patience = 0 ↔ ¬ s'.server.Waiting ∧ s'.client.pc ≠ .receiving) ∧
      s'.client.written = s.client.written ∧
      (s'.client.pc = .finished ↔ s.client.pc = .finished) ∧
      (s'.server.pc = .returned ↔ s.server.pc = .returned) := by
  have hcounted := counted_of_reachable h
  have hstart : Silent s s := ⟨hcounted, rfl, Iff.rfl, Iff.rfl⟩
  have hend : Silent s s' :=
    run_invariant (fun _ _ _ hs ha hstep => (hs.step ha hstep).1) hsilent hrun hstart
  refine ⟨s.patience_le, ?_, hend.counted.patience_eq_zero_iff, hend.written, hend.finished,
    hend.returned⟩
  exact length_add_of_run Pair.patience (fun _ _ _ hs ha hstep => hs.step ha hstep) hsilent hrun
    hstart

namespace FullChunk

/-- The request is lost: the server leaves after twelve timeouts, the client has eleven left. -/
theorem silence_ends_request :
    let s' := after (List.replicate 12 .serverTimeout ++ [.clientTimeout])
    13 + s'.patience = start.patience := by
  have hrun : ((pairSystem pair).run start
      (List.replicate 12 .serverTimeout ++ [.clientTimeout])).isSome := by decide +kernel
  obtain ⟨s', hs'⟩ := Option.isSome_iff_exists.mp hrun
  have hreach : (pairSystem pair).Reachable start := .start ⟨_, _, rfl⟩
  have htimeouts : ∀ a ∈ List.replicate 12 PairAction.serverTimeout ++ [.clientTimeout],
      a.IsTimeout := by
    intro a ha
    rcases List.mem_append.mp ha with ha | ha
    · rw [List.eq_of_mem_replicate ha]
      trivial
    · rw [List.mem_singleton.mp ha]
      trivial
  rw [after, hs']
  exact (silence_ends hreach htimeouts hs').2.1

end FullChunk

end NetworkHomework.Ftp
