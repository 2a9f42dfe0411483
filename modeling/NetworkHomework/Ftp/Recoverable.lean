import NetworkHomework.Ftp.Exchange
import NetworkHomework.Ftp.Patience

/-!
# From where a transfer can still complete

Suppose that everything in flight is lost.  What matters then is who may still time out:
the server repeats its packet, and a message of the client, whatever it is, makes the
server count its own timeouts from 0 again, also when the server does not answer it.  So
one try left on either side is enough, and with none left on either side the file does
not arrive any more.  Before the request has arrived only the client can help.
-/

namespace NetworkHomework.Ftp

open TransitionSystem

/-- Timeouts, and datagrams that were sent. -/
def PairAction.Genuine : PairAction → Prop
  | .serverTimeout | .clientTimeout | .toServer _ | .toClient _ => True
  | .damagedToServer _ | .damagedToClient _ => False

/-- The next timeout of the client does not make it give up. -/
def Client.MayRetry (c : Client) : Prop :=
  if c.block = 0 then c.timeoutFirstNum ≤ 10 else c.timeoutNum ≤ 10

instance (c : Client) : Decidable c.MayRetry :=
  inferInstanceAs (Decidable (if c.block = 0 then c.timeoutFirstNum ≤ 10 else c.timeoutNum ≤ 10))

namespace Pair

/-- Everything in flight is lost. -/
def lose (s : Pair) : Pair := { s with net := [] }

/-- One of the two that can help may still time out. -/
def TriesLeft (s : Pair) : Prop :=
  match s.server.pc with
  | .waitFrq => s.client.MayRetry
  | .waitAck => s.server.timeoutNum ≤ 10 ∨ s.client.MayRetry
  | .returned => False
  | .exited => False

end Pair

variable {config : PairConfig} {s : Pair} {n k : ℕ}

open Pair

/-! ## Before the request has arrived -/

theorem Client.block_timeout {config : ClientConfig} {c : Client} (hpc : c.pc = .receiving) :
    (startMyftpClient config c .timeout).1.block = c.block := by
  simp only [startMyftpClient, hpc, transmission, timedOut]
  split_ifs <;> rfl

theorem Client.block_damaged {config : ClientConfig} {c : Client} {bytes : List UInt8}
    (hpc : c.pc = .receiving) (hdetects : Detects config bytes) (source : Addr) :
    (startMyftpClient config c (.datagram source bytes)).1.block = c.block := by
  have hcksum : inCksum config.order
      ((Buffer.zero maxFilePacketSize).recvfrom bytes).bytes ≠ 0 := hdetects
  simp only [startMyftpClient, hpc, transmission, if_pos hcksum]
  split_ifs <;> rfl

/-- While the server waits for the request, nothing was sent to the client. -/
def Pair.Untouched (config : PairConfig) (s : Pair) : Prop :=
  s.server.pc = .waitFrq → s.client.block = 0 ∧ ∀ d ∈ s.net, d.dest = config.serverAddr

/-- A server that waits on has sent nothing. -/
theorem Pair.Untouched.serverStep (h : s.Untouched config) (r : Recv) :
    (s.serverStep config r).Untouched config := by
  intro hpc
  obtain ⟨hblock, hnet⟩ := h (Server.waitFrq_of_step hpc).1
  refine ⟨hblock, fun d hd => ?_⟩
  rcases List.mem_append.mp hd with hd | hd
  · exact hnet d hd
  · obtain ⟨packet, hpacket, -⟩ := List.mem_map.mp hd
    have hwait := (Server.dest_startMyftpServer r packet hpacket).2
    exact absurd (hpc.symm.trans hwait) (by simp)

/-- A client that hears nothing from the server keeps its block. -/
theorem Pair.Untouched.clientStep (h : s.Untouched config)
    (hservaddr : s.client.servaddr = config.serverAddr) (hreceiving : s.client.pc = .receiving)
    (about : Option ℕ) {r : Recv} (hsource : r.sourceOr config.serverAddr = config.serverAddr)
    (hkept : (startMyftpClient config.client s.client r).1.block = s.client.block) :
    (s.clientStep config about r).Untouched config := by
  intro hpc
  obtain ⟨hblock, hnet⟩ := h hpc
  refine ⟨hkept.trans hblock, fun d hd => ?_⟩
  rcases List.mem_append.mp hd with hd | hd
  · exact hnet d hd
  · obtain ⟨packet, hpacket, rfl⟩ := List.mem_map.mp hd
    have hdest := Client.dest_startMyftpClient hreceiving r packet hpacket
    rw [Client.servaddr_startMyftpClient hreceiving, hservaddr, hsource] at hdest
    exact hdest

theorem untouched_of_reachable (h : (pairSystem config).ReachableUnder Pair.Fresh s) :
    s.Untouched config := by
  induction h with
  | start hstart =>
      obtain ⟨clientaddr, garbage, rfl⟩ := hstart
      refine fun _ => ⟨rfl, fun d hd => ?_⟩
      rw [List.mem_singleton.mp hd]
  | @next s s' a hreach _ hstep ih =>
      obtain ⟨k, hinv⟩ := pairInv_of_reachable hreach
      cases a with
      | serverTimeout | toServer _ | damagedToServer _ =>
          obtain ⟨-, rfl⟩ := Option.ite_some_none_eq_some.mp hstep
          exact ih.serverStep _
      | clientTimeout =>
          obtain ⟨hreceiving, rfl⟩ := Option.ite_some_none_eq_some.mp hstep
          exact ih.clientStep hinv.servaddr hreceiving none rfl (Client.block_timeout hreceiving)
      | damagedToClient bytes =>
          obtain ⟨⟨hreceiving, hdetects⟩, rfl⟩ := Option.ite_some_none_eq_some.mp hstep
          exact ih.clientStep hinv.servaddr hreceiving none rfl
            (Client.block_damaged hreceiving hdetects _)
      | toClient d =>
          obtain ⟨⟨-, hd, hdest⟩, rfl⟩ := Option.ite_some_none_eq_some.mp hstep
          intro hpc
          exact absurd (((ih hpc).2 d hd).symm.trans hdest) config.distinct

/-! ## With a try left -/

/-- Where the current packet is in flight, exchange after exchange leads to the end. -/
theorem Pair.Underway.canComplete (h : Underway config n k s) (hd : dataOf config n ∈ s.net) :
    (pairSystem config).CanReach PairAction.Genuine (Completed config) s := by
  apply CanReach.of_measure (fun s => ∃ n k, Underway config n k s ∧ dataOf config n ∈ s.net)
    (fun s => lastChunk config.server.file - s.server.chunk) ?_ ⟨n, k, h, hd⟩
  intro s hs
  obtain ⟨n, k, h, hd⟩ := hs
  obtain ⟨s', hrun, hnet, hnext, hend⟩ := h.exchanged hd
  have hgenuine : ∀ a ∈ exchange config n, a.Genuine := by simp [exchange, PairAction.Genuine]
  refine ⟨exchange config n, s', hgenuine, hrun, ?_⟩
  rcases Nat.lt_or_eq_of_le h.le_last.1 with hlt | hlast
  · have hunderway := (hnext hlt).1
    refine .inr ⟨⟨n + 1, n + 1, hunderway, ?_⟩, ?_⟩
    · rw [hnet, nextData, if_pos hlt]
      simp
    · rw [hunderway.chunk_eq, h.chunk_eq]
      omega
  · exact .inl (hend hlast)

/-- The server has a timeout left. -/
theorem Pair.Underway.canComplete_of_server (h : Underway config n k s)
    (hleft : s.server.timeoutNum ≤ 10) :
    (pairSystem config).CanReach PairAction.Genuine (Completed config) s := by
  obtain ⟨s', hstep, hunderway, hnet, -⟩ := h.resends hleft
  exact .step (a := .serverTimeout) trivial hstep (hunderway.canComplete (by simp [hnet]))

variable (config) in
/-- What a client that has accepted `k` chunks sends when it times out. -/
def Pair.retryOf (k : ℕ) : Datagram :=
  ⟨config.clientAddr, config.serverAddr,
    if k = 0 then frqPacket config.client.order config.client.filename
    else Client.answer config.client Opcode.error (blockNumber k - 1), none⟩

theorem Client.mayRetry_iff {c : Client} : c.MayRetry ↔ c.timeouts ≤ 10 := by
  unfold MayRetry timeouts
  split_ifs <;> rfl

/-- The block of a client says whether it has accepted anything. -/
theorem Client.Accepted.block_eq_zero_iff {file : List UInt8} {c : Client} (h : c.Accepted file k)
    (hpc : c.pc = .receiving) : c.block = 0 ↔ k = 0 := by
  have hnumber := (h.receiving hpc).2
  rw [blockNumber_eq] at hnumber
  split_ifs at hnumber with hk <;> omega

theorem isRecovery_retryOf (k : ℕ) : Client.IsRecovery config.client (retryOf config k).bytes := by
  have hlt := blockNumber_lt k
  unfold retryOf
  dsimp only
  split_ifs with hk
  · exact .inl rfl
  · exact .inr ⟨_, by omega, rfl⟩

theorem Client.IsRecovery.length_ne_zero {config : ClientConfig} {bytes : List UInt8}
    (h : IsRecovery config bytes) : bytes.length ≠ 0 := by
  rcases h with rfl | ⟨block, -, rfl⟩
  · rw [length_frqPacket, FileName.frqSize]
    omega
  · rw [length_answer]
    decide

/-- A recovery message is about no chunk. -/
theorem Client.IsRecovery.about {config : ClientConfig} {bytes : List UInt8}
    (h : IsRecovery config bytes) (about : Option ℕ) : aboutOfAnswer about bytes = none := by
  apply if_neg
  rcases h with rfl | ⟨block, -, rfl⟩
  · rw [mfOpcode_frqPacket]
    decide
  · rw [mfOpcode_answer _ (by decide)]
    decide

/-- The client has a timeout left: its message is on its way to the server. -/
theorem clientTimeout_of_mayRetry (haccepted : s.client.Accepted config.server.file k)
    (hpc : s.client.pc = .receiving) (hservaddr : s.client.servaddr = config.serverAddr)
    (hretry : s.client.MayRetry) :
    ∃ s', s.step config .clientTimeout = some s' ∧ s'.server = s.server ∧
      s'.client.Accepted config.server.file k ∧ s'.client.pc = .receiving ∧
      s'.client.servaddr = config.serverAddr ∧ s'.client.timeouts = s.client.timeouts + 1 ∧
      s'.net = s.net ++ [retryOf config k] := by
  have hstep : s.step config .clientTimeout = some (s.clientStep config none .timeout) :=
    if_pos hpc
  have htimeout : startMyftpClient config.client s.client .timeout =
      s.client.timedOut config.client := by
    rw [startMyftpClient, hpc]
    rfl
  have hzero := haccepted.block_eq_zero_iff hpc
  have hblock := (haccepted.receiving hpc).2
  have habout : aboutOfAnswer none (retryOf config k).bytes = none :=
    (isRecovery_retryOf k).about none
  refine ⟨_, hstep, rfl, ?_⟩
  rw [Client.mayRetry_iff, Client.timeouts] at hretry
  by_cases hk : k = 0
  · have hnone := hzero.mpr hk
    rw [if_pos hnone] at hretry
    simp only [clientStep, htimeout, Client.timedOut, if_pos hnone,
      if_neg (Nat.not_lt.mpr hretry)]
    refine ⟨haccepted.congr _ _ _, hpc, hservaddr, by simp [Client.timeouts, hnone], ?_⟩
    rw [retryOf, if_pos hk] at habout ⊢
    simp only [List.map_singleton, hservaddr, habout]
  · have hsome : s.client.block ≠ 0 := fun heq => hk (hzero.mp heq)
    rw [if_neg hsome] at hretry
    simp only [clientStep, htimeout, Client.timedOut, if_neg hsome,
      if_neg (Nat.not_lt.mpr hretry)]
    refine ⟨haccepted.congr _ _ _, hpc, hservaddr, by simp [Client.timeouts, hsome], ?_⟩
    rw [retryOf, if_neg hk, ← hblock, Nat.add_sub_cancel] at habout ⊢
    simp only [List.map_singleton, hservaddr, habout]

theorem Pair.Underway.canComplete_of_client (h : Underway config n k s)
    (hretry : s.client.MayRetry) :
    (pairSystem config).CanReach PairAction.Genuine (Completed config) s := by
  obtain ⟨middle, hfirst, hserver, haccepted, hpc, hservaddr, -, hnet⟩ :=
    clientTimeout_of_mayRetry h.accepted h.receiving h.servaddr hretry
  have hrecovery : Client.IsRecovery config.client (retryOf config k).bytes := isRecovery_retryOf k
  have hsending : middle.server.Sending config.server := hserver ▸ h.sending
  obtain ⟨server, out, hheard, hsending', hchunk, haddr, hzero⟩ := hsending.heard
    config.clientAddr hrecovery.length_ne_zero fun m => not_acksBlock_of_isRecovery hrecovery _ m
  have hsecond : middle.step config (.toServer (retryOf config k)) =
      some (middle.serverStep config (.datagram config.clientAddr (retryOf config k).bytes)) :=
    if_pos ⟨.inr hsending.pc_eq, by simp [hnet], rfl⟩
  have hunderway : Underway config n k
      (middle.serverStep config (.datagram config.clientAddr (retryOf config k).bytes)) := by
    simp only [serverStep, hheard]
    exact ⟨hsending', hchunk.trans (hserver ▸ h.chunk_eq), haddr, hpc, hservaddr, haccepted, h.le,
      h.near⟩
  have hleft : (middle.serverStep config
      (.datagram config.clientAddr (retryOf config k).bytes)).server.timeoutNum ≤ 10 := by
    simp only [serverStep, hheard, hzero]
    exact Nat.zero_le _
  exact .step (a := .clientTimeout) trivial hfirst
    (.step (a := .toServer _) trivial hsecond (hunderway.canComplete_of_server hleft))

/-- The request was lost, and the client has a timeout left. -/
theorem canComplete_of_request (hname : config.client.filename = config.server.filename)
    (hpc : s.server.pc = .waitFrq) (haccepted : s.client.Accepted config.server.file 0)
    (hreceiving : s.client.pc = .receiving) (hservaddr : s.client.servaddr = config.serverAddr)
    (hretry : s.client.MayRetry) :
    (pairSystem config).CanReach PairAction.Genuine (Completed config) s := by
  obtain ⟨middle, hfirst, hserver, haccepted', hpc', hservaddr', -, hnet⟩ :=
    clientTimeout_of_mayRetry haccepted hreceiving hservaddr hretry
  have hrequest : request config ∈ middle.net := by
    rw [hnet]
    exact List.mem_append_right _ (List.mem_singleton_self _)
  obtain ⟨s', hsecond, hnet', hunderway, -⟩ := deliverRequest hname (hserver ▸ hpc) hpc' hservaddr'
    haccepted' hrequest
  exact .step (a := .clientTimeout) trivial hfirst
    (.step (a := .toServer _) trivial hsecond (hunderway.canComplete (by simp [hnet'])))

/-- Where nothing gets lost the transfer completes. -/
theorem canComplete_start (hname : config.client.filename = config.server.filename)
    (clientaddr : Addr) (garbage : Buffer 6) :
    (pairSystem config).CanReach PairAction.Genuine (Completed config)
      (Pair.start config clientaddr garbage) := by
  have hrequest : request config ∈ (Pair.start config clientaddr garbage).net :=
    List.mem_singleton_self _
  obtain ⟨s', hstep, hnet, hunderway, -⟩ :=
    deliverRequest hname rfl rfl rfl (Client.accepted_start _ _) hrequest
  exact .step (a := .toServer _) trivial hstep (hunderway.canComplete (by simp [hnet]))

/-! ## Without a try left -/

/-- Nothing is in flight, and nobody will send anything to a party that listens. -/
structure Hopeless (config : PairConfig) (s : Pair) : Prop where
  not_finished : s.client.pc ≠ .finished
  servaddr : s.client.servaddr = config.serverAddr
  net : ∀ d ∈ s.net, d.dest = config.serverAddr
  cut : s.server.Waiting → s.net = [] ∧ (s.client.pc = .receiving → ¬ s.client.MayRetry) ∧
    (s.server.pc = .waitAck → 10 < s.server.timeoutNum)

/-- A timeout without a try left. -/
theorem Client.timedOut_of_not_mayRetry {config : ClientConfig} {c : Client}
    (hpc : c.pc = .receiving) (hretry : ¬ c.MayRetry) :
    startMyftpClient config c .timeout = ({ c with pc := .stopped }, []) := by
  unfold MayRetry at hretry
  simp only [startMyftpClient, hpc, transmission, timedOut]
  split_ifs at hretry ⊢ <;> first | rfl | omega

theorem Hopeless.serverTimeout (h : Hopeless config s) (hlive : s.server.Waiting) :
    Hopeless config (s.serverStep config .timeout) := by
  obtain ⟨hnet, hclient, hserver⟩ := h.cut hlive
  rcases hlive with hpc | hpc
  · simp only [serverStep, startMyftpServer, hpc, Server.waitFrq]
    split_ifs with hlimit
    · refine ⟨h.not_finished, h.servaddr, by simp [hnet], fun hwait => ?_⟩
      simp [Server.Waiting] at hwait
    · refine ⟨h.not_finished, h.servaddr, by simp [hnet], fun _ => ⟨by simp [hnet], hclient, ?_⟩⟩
      exact fun hack => by simp at hack
  · have hlimit : s.server.timeoutNum > 10 := hserver hpc
    simp only [serverStep, startMyftpServer, hpc, Server.waitAck, if_pos hlimit]
    refine ⟨h.not_finished, h.servaddr, by simp [hnet], fun hwait => ?_⟩
    simp [Server.Waiting] at hwait

theorem Hopeless.clientTimeout (h : Hopeless config s) (hpc : s.client.pc = .receiving) :
    Hopeless config (s.clientStep config none .timeout) := by
  have hservaddr : (startMyftpClient config.client s.client .timeout).1.servaddr =
      config.serverAddr := (Client.servaddr_startMyftpClient hpc .timeout).trans h.servaddr
  refine ⟨?_, hservaddr, fun d hd => ?_, fun hlive => ?_⟩
  · simp only [clientStep, startMyftpClient, hpc, Client.transmission, Client.timedOut]
    split_ifs <;> simp
  · rcases List.mem_append.mp hd with hd | hd
    · exact h.net d hd
    · obtain ⟨packet, hpacket, rfl⟩ := List.mem_map.mp hd
      exact (Client.dest_startMyftpClient hpc .timeout packet hpacket).trans hservaddr
  · obtain ⟨hnet, hretry, hserver⟩ := h.cut hlive
    rw [clientStep, Client.timedOut_of_not_mayRetry hpc (hretry hpc)]
    exact ⟨by simp [hnet], fun hrec => absurd hrec (by simp), hserver⟩

theorem Hopeless.step (h : Hopeless config s) {a : PairAction} {s' : Pair} (ha : a.Genuine)
    (hstep : s.step config a = some s') : Hopeless config s' := by
  cases a with
  | serverTimeout =>
      obtain ⟨hlive, rfl⟩ := Option.ite_some_none_eq_some.mp hstep
      exact h.serverTimeout hlive
  | clientTimeout =>
      obtain ⟨hpc, rfl⟩ := Option.ite_some_none_eq_some.mp hstep
      exact h.clientTimeout hpc
  | toServer d =>
      obtain ⟨⟨hlive, hd, -⟩, -⟩ := Option.ite_some_none_eq_some.mp hstep
      rw [(h.cut hlive).1] at hd
      exact absurd hd List.not_mem_nil
  | toClient d =>
      obtain ⟨⟨-, hd, hdest⟩, -⟩ := Option.ite_some_none_eq_some.mp hstep
      exact absurd ((h.net d hd).symm.trans hdest) config.distinct
  | damagedToServer bytes => exact absurd ha id
  | damagedToClient bytes => exact absurd ha id

/-! ## Either way -/

/-- **Recovery from total loss.**  Let everything in flight be lost while the client receives.  If
the server or the client may still time out, and before the request arrived the client, the
transfer can be completed by timeouts and what they make the two send; if not, the client never
finishes. -/
theorem canComplete_after_loss (hname : config.client.filename = config.server.filename)
    (h : (pairSystem config).ReachableUnder Pair.Fresh s) (hreceiving : s.client.pc = .receiving) :
    (s.TriesLeft →
      (pairSystem config).CanReach PairAction.Genuine (Completed config) s.lose) ∧
    (¬ s.TriesLeft →
      ¬ (pairSystem config).CanReach PairAction.Genuine (fun s' => s'.client.pc = .finished)
        s.lose) := by
  obtain ⟨k, hinv⟩ := pairInv_of_reachable h
  refine ⟨fun htries => ?_, fun htries => ?_⟩
  · unfold TriesLeft at htries
    cases hpc : s.server.pc with
    | waitFrq =>
        rw [hpc] at htries
        have hblock := (untouched_of_reachable h hpc).1
        have hzero := (hinv.accepted.block_eq_zero_iff hreceiving).mp hblock
        subst hzero
        exact canComplete_of_request (s := s.lose) hname hpc hinv.accepted hreceiving hinv.servaddr
          htries
    | waitAck =>
        rw [hpc] at htries
        have hunderway : Underway config s.server.chunk k s.lose :=
          let h := hinv.underway hpc hreceiving
          ⟨h.sending, h.chunk_eq, h.clientaddr, h.receiving, h.servaddr, h.accepted, h.le, h.near⟩
        rcases htries with hserver | hclient
        · exact hunderway.canComplete_of_server hserver
        · exact hunderway.canComplete_of_client hclient
    | returned =>
        rw [hpc] at htries
        exact absurd htries id
    | exited =>
        rw [hpc] at htries
        exact absurd htries id
  · apply not_canReach (Hopeless config) (fun _ _ _ hs ha hstep => hs.step ha hstep)
      fun _ hs => hs.not_finished
    refine ⟨by simp [lose, hreceiving], hinv.servaddr, fun d hd => absurd hd List.not_mem_nil,
      fun hlive => ⟨rfl, fun _ => ?_, fun hpc => ?_⟩⟩
    · unfold TriesLeft at htries
      rcases hlive with hpc | hpc <;> rw [show s.server.pc = _ from hpc] at htries
      · exact htries
      · exact fun hretry => htries (.inr hretry)
    · unfold TriesLeft at htries
      rw [show s.server.pc = _ from hpc] at htries
      exact Nat.lt_of_not_le fun hle => htries (.inl hle)

namespace FullChunk

/-- The packet of the second chunk is lost, and with it everything else in flight. -/
theorem canComplete_secondLost :
    (pairSystem pair).CanReach PairAction.Genuine (Completed pair) (after secondLost).lose := by
  have hreach : (pairSystem pair).ReachableUnder Pair.Fresh (after secondLost) :=
    reachable_after (by decide +kernel) (by decide +kernel)
  have hreceiving : (after secondLost).client.pc = .receiving := by decide +kernel
  have hwait : (after secondLost).server.pc = .waitAck := by decide +kernel
  have htimeouts : (after secondLost).server.timeoutNum = 0 := by decide +kernel
  -- from here on the state is arbitrary, so that nothing evaluates it again
  generalize after secondLost = s at *
  have htries : s.TriesLeft := by
    unfold TriesLeft
    rw [hwait]
    exact .inl (htimeouts.trans_le (Nat.zero_le _))
  exact (canComplete_after_loss rfl hreach hreceiving).1 htries

end FullChunk

end NetworkHomework.Ftp
