import NetworkHomework.Foundation.HandOver
import NetworkHomework.Ftp.Emitted
import NetworkHomework.Ftp.Exchange

/-!
# The transfer as a hand-over

Two levels of one design.  Above, a sender hands the chunks of a file to a receiver one
at a time, without a network; below, the two programs over a network that loses, repeats,
delays and damages datagrams.  A step of the programs is one event of the hand-over, or
none: a new chunk was sent, a chunk was written, or one of the two left the transfer.
Retransmissions, repeated acknowledgements, requests and ERROR packets are not events.
-/

namespace NetworkHomework.Ftp

open TransitionSystem

/-- What is handed over: the chunks of the file, the short one last. -/
def pieces (config : PairConfig) : List (List UInt8) :=
  (List.range (lastChunk config.server.file + 1)).map (chunk config.server.file)

/-! ## Events -/

/-- The event of a step of the server. -/
def Server.events (s s' : Server) : List (HandOver.Event (List UInt8)) :=
  if s'.pc = .waitAck ∧ (s.pc = .waitFrq ∨ s'.chunk ≠ s.chunk) then [.offer]
  else if s'.pc = .returned ∧ s.pc ≠ .returned then [.complete]
  else if s'.pc = .exited ∧ s.pc ≠ .exited then [.senderLeaves]
  else []

/-- The event of a step of the client: what it wrote, or that it stopped. -/
def Client.events (c c' : Client) : List (HandOver.Event (List UInt8)) :=
  if c'.written ≠ c.written ∨ c'.pc = .finished ∧ c.pc ≠ .finished then
    [.accept (c'.written.drop c.written.length)]
  else if c'.pc = .stopped ∧ c.pc ≠ .stopped then [.receiverLeaves]
  else []

def Pair.events (s s' : Pair) : List (HandOver.Event (List UInt8)) :=
  s.server.events s'.server ++ s.client.events s'.client

@[simp] theorem Server.events_self (s : Server) : s.events s = [] := by
  unfold events
  cases s.pc <;> simp

@[simp] theorem Client.events_self (c : Client) : c.events c = [] := by
  unfold events
  cases c.pc <;> simp

/-- The status of the sender while the process stands at `pc`. -/
def senderStatus : ServerPc → HandOver.SenderStatus
  | .waitFrq => .active
  | .waitAck => .active
  | .returned => .done
  | .exited => .left

def receiverStatus : ClientPc → HandOver.ReceiverStatus
  | .receiving => .receiving
  | .finished => .closed
  | .stopped => .left
  | .overrun => .left

/-- The two programs stand where the hand-over does. -/
structure HandsOver (config : PairConfig) (s : Pair) (t : HandOver.State (List UInt8)) :
    Prop where
  inv : PairInv config s t.accepted.length
  accepted : t.accepted = (List.range t.accepted.length).map (chunk config.server.file)
  waiting : s.server.pc = .waitFrq → t.offered = 0
  sending : s.server.pc = .waitAck → t.offered = s.server.chunk + 1
  accepted_le : t.accepted.length ≤ t.offered
  sender : t.sender = senderStatus s.server.pc
  receiver : t.receiver = receiverStatus s.client.pc
  net : ∀ d ∈ s.net, d.dest = config.clientAddr → ∀ j ∈ d.about, j < t.offered

variable {config : PairConfig} {s : Pair} {t : HandOver.State (List UInt8)}

theorem length_pieces (config : PairConfig) :
    (pieces config).length = lastChunk config.server.file + 1 := by
  simp [pieces]

theorem getElem?_pieces {i : ℕ} (h : i ≤ lastChunk config.server.file) :
    (pieces config)[i]? = some (chunk config.server.file i) := by
  rw [pieces, List.getElem?_map, List.getElem?_range (by omega)]
  rfl

/-- The pieces accepted are what was written. -/
theorem HandsOver.flatten (h : HandsOver config s t) : t.accepted.flatten = s.client.written := by
  rw [h.accepted, flatten_chunks, h.inv.accepted.written_eq]

theorem handsOver_start (config : PairConfig) (clientaddr : Addr) (garbage : Buffer 6) :
    HandsOver config (Pair.start config clientaddr garbage) HandOver.start where
  inv := pairInv_start config clientaddr garbage
  accepted := rfl
  waiting _ := rfl
  sending h := by simp [Pair.start, Server.start] at h
  accepted_le := Nat.le_refl _
  sender := rfl
  receiver := rfl
  net := by
    intro d hd _ j hj
    rw [List.mem_singleton.mp hd] at hj
    simp at hj

/-! ## Steps of the server -/

/-- A server that only waits on, or left, sends nothing new. -/
theorem HandsOver.serverSame (h : HandsOver config s t) {r : Recv} {sender : HandOver.SenderStatus}
    (hinv : PairInv config (s.serverStep config r) t.accepted.length)
    (hstatus : sender = senderStatus (startMyftpServer config.server s.server r).1.pc)
    (hwaiting : (startMyftpServer config.server s.server r).1.pc = .waitFrq → t.offered = 0)
    (hsending : (startMyftpServer config.server s.server r).1.pc = .waitAck →
      t.offered = (startMyftpServer config.server s.server r).1.chunk + 1) :
    HandsOver config (s.serverStep config r) { t with sender } where
  inv := hinv
  accepted := h.accepted
  waiting := hwaiting
  sending := hsending
  accepted_le := h.accepted_le
  sender := hstatus
  receiver := h.receiver
  net := by
    intro d hd hdest j hj
    rcases List.mem_append.mp hd with hd | hd
    · exact h.net d hd hdest j hj
    · obtain ⟨packet, hpacket, rfl⟩ := List.mem_map.mp hd
      have hoffered := hsending (Server.dest_startMyftpServer r packet hpacket).2
      obtain rfl : _ = j := Option.some.inj hj
      rw [hoffered]
      exact Nat.lt_succ_self _

/-- A server that sends a new chunk. -/
theorem HandsOver.serverOffers (h : HandsOver config s t) {r : Recv}
    (hinv : PairInv config (s.serverStep config r) t.accepted.length)
    (hactive : t.sender = .active) (hall : t.accepted.length = t.offered)
    (hpc : (startMyftpServer config.server s.server r).1.pc = .waitAck)
    (hchunk : (startMyftpServer config.server s.server r).1.chunk = t.offered) :
    ∃ t', (handOver (pieces config)).run t [.offer] = some t' ∧
      HandsOver config (s.serverStep config r) t' := by
  have hlast : t.offered < (pieces config).length := by
    rw [length_pieces, ← hchunk]
    exact Nat.lt_succ_of_le hinv.serves.chunk_le_last
  refine ⟨{ t with offered := t.offered + 1 }, run_cons.mpr ⟨_, if_pos ⟨hactive, hall, hlast⟩, rfl⟩,
    hinv, h.accepted, fun hfrq => ?_, fun _ => ?_, Nat.le_succ_of_le h.accepted_le, ?_, h.receiver,
    ?_⟩
  · exact absurd (hpc.symm.trans hfrq) (by simp)
  · exact congrArg (· + 1) hchunk.symm
  · show t.sender = senderStatus (startMyftpServer config.server s.server r).1.pc
    rw [hpc, hactive]
    rfl
  · intro d hd hdest j hj
    rcases List.mem_append.mp hd with hd | hd
    · exact Nat.lt_succ_of_lt (h.net d hd hdest j hj)
    · obtain ⟨packet, -, rfl⟩ := List.mem_map.mp hd
      obtain rfl : _ = j := Option.some.inj hj
      exact Nat.lt_succ_of_le hchunk.le

/-- **A step of the server** is an event of the sender, or none. -/
theorem HandsOver.serverStep (h : HandsOver config s t) {r : Recv} (hlive : s.server.Waiting)
    (hinv : PairInv config (s.serverStep config r) t.accepted.length) :
    ∃ t', (handOver (pieces config)).run t (s.events (s.serverStep config r)) = some t' ∧
      HandsOver config (s.serverStep config r) t' := by
  have hevents : s.events (s.serverStep config r) =
      s.server.events (startMyftpServer config.server s.server r).1 := by
    simp [Pair.events, Pair.serverStep]
  have hactive : t.sender = .active := by
    rw [h.sender]
    rcases hlive with hpc | hpc <;> rw [hpc] <;> rfl
  have hleaves : (startMyftpServer config.server s.server r).1.pc = .exited →
      ∃ t', (handOver (pieces config)).run t (s.events (s.serverStep config r)) = some t' ∧
        HandsOver config (s.serverStep config r) t' := by
    intro hpc
    have hleft : s.server.events (startMyftpServer config.server s.server r).1 =
        [.senderLeaves] := by
      rcases hlive with hwas | hwas <;> simp [Server.events, hpc, hwas]
    rw [hevents, hleft]
    refine ⟨{ t with sender := .left }, run_cons.mpr ⟨_, if_pos hactive, rfl⟩,
      h.serverSame hinv (by rw [hpc]; rfl) (fun hfrq => ?_) fun hack => ?_⟩
    · exact absurd (hpc.symm.trans hfrq) (by simp)
    · exact absurd (hpc.symm.trans hack) (by simp)
  rcases hlive with hwas | hwas
  · have hround := @Server.waitFrq_round config.server s.server hwas r
    rw [← Server.startMyftpServer_waitFrq hwas] at hround
    have hoffered := h.waiting hwas
    cases hround with
    | exited hpc hchunk hout => exact hleaves hpc
    | waiting hpc hchunk hout =>
        have hnone : s.server.events (startMyftpServer config.server s.server r).1 = [] := by
          simp [Server.events, hpc]
        rw [hevents, hnone]
        exact ⟨t, rfl, h.serverSame hinv (by rw [hactive, hpc]; rfl) (fun _ => hoffered)
          fun hack => absurd (hpc.symm.trans hack) (by simp)⟩
    | accepted source bytes hr hsending hchunk hout =>
        have hoffer : s.server.events (startMyftpServer config.server s.server r).1 =
            [.offer] := by
          simp [Server.events, hsending.pc_eq, hwas]
        rw [hevents, hoffer]
        have hle := h.accepted_le
        exact h.serverOffers hinv hactive (by omega) hsending.pc_eq (by omega)
  · obtain ⟨hsending, -⟩ := h.inv.serves.sending hwas
    have hround := hsending.waitAck r
    rw [← Server.startMyftpServer_waitAck hwas] at hround
    have hoffered := h.sending hwas
    -- what the process does without moving on is not an event
    have hsame : ∀ s', Server.Sending config.server s' → s'.chunk = s.server.chunk →
        (startMyftpServer config.server s.server r).1 = s' →
        ∃ t', (handOver (pieces config)).run t (s.events (s.serverStep config r)) = some t' ∧
          HandsOver config (s.serverStep config r) t' := by
      intro s' hsending' hchunk hs'
      have hpc := hsending'.pc_eq
      have hnone : s.server.events (startMyftpServer config.server s.server r).1 = [] := by
        simp [Server.events, hs', hpc, hwas, hchunk]
      rw [hevents, hnone]
      refine ⟨t, rfl, h.serverSame hinv (by rw [hactive, hs', hpc]; rfl) (fun hfrq => ?_)
        fun _ => ?_⟩
      · rw [hs', hpc] at hfrq
        exact absurd hfrq (by simp)
      · rw [hoffered, hs', hchunk]
    cases hround with
    | exited hpc hchunk hout => exact hleaves hpc
    | ignored hsending' hchunk hout => exact hsame _ hsending' hchunk rfl
    | resent hsending' hchunk hout => exact hsame _ hsending' hchunk rfl
    | returned source bytes hr hack hpc hchunk hout =>
        have hcomplete : s.server.events (startMyftpServer config.server s.server r).1 =
            [.complete] := by
          simp [Server.events, hpc, hwas]
        have hall : t.accepted.length = (pieces config).length := by
          have hlast := hinv.serves.returned hpc
          have hchunk' := h.inv.serves.chunk_le_last
          have hnear := h.inv.le_chunk
          rw [length_pieces]
          omega
        rw [hevents, hcomplete]
        refine ⟨{ t with sender := .done }, run_cons.mpr ⟨_, if_pos ⟨hactive, hall⟩, rfl⟩,
          h.serverSame hinv (by rw [hpc]; rfl) (fun hfrq => ?_) fun hwait => ?_⟩
        · exact absurd (hpc.symm.trans hfrq) (by simp)
        · exact absurd (hpc.symm.trans hwait) (by simp)
    | advanced source bytes hr hack hchunk hnext =>
        have hle : (startMyftpServer config.server s.server r).1.chunk ≤ t.accepted.length :=
          hinv.serves.chunk_le
        have hlast : (startMyftpServer config.server s.server r).1.chunk ≤
            lastChunk config.server.file := hinv.serves.chunk_le_last
        have hpc := (hnext (by omega)).1.pc_eq
        have hoffer : s.server.events (startMyftpServer config.server s.server r).1 =
            [.offer] := by
          simp [Server.events, hpc, hchunk]
        have hbehind := h.accepted_le
        rw [hevents, hoffer]
        exact h.serverOffers hinv hactive (by omega) hpc (by omega)

/-! ## Steps of the client -/

/-- What the client sends is on its way to the server. -/
theorem PairInv.dest_of_client {about : Option ℕ} {r : Recv} {k : ℕ}
    (h : PairInv config (s.clientStep config about r) k) (d : Datagram)
    (hd : d ∈ (s.clientStep config about r).net) (hdest : d.dest = config.clientAddr) :
    d ∈ s.net := by
  rcases List.mem_append.mp hd with hold | hnew
  · exact hold
  · obtain ⟨packet, -, rfl⟩ := List.mem_map.mp hnew
    rcases h.net _ hd with ⟨hsource, -, -⟩ | ⟨-, hserver, -⟩
    · exact absurd hsource.symm config.distinct
    · exact absurd (hserver.symm.trans hdest) config.distinct

/-- A client that wrote nothing went on receiving or stopped. -/
theorem HandsOver.clientSame (h : HandsOver config s t) {about : Option ℕ} {r : Recv}
    (hreceiving : s.client.pc = .receiving)
    (hinv : PairInv config (s.clientStep config about r) t.accepted.length) :
    ∃ t', (handOver (pieces config)).run t (s.events (s.clientStep config about r)) = some t' ∧
      HandsOver config (s.clientStep config about r) t' := by
  have hk := (h.inv.accepted.receiving hreceiving).1
  have hevents : s.events (s.clientStep config about r) =
      s.client.events (startMyftpClient config.client s.client r).1 := by
    simp [Pair.events, Pair.clientStep]
  have haccepted : (startMyftpClient config.client s.client r).1.Accepted config.server.file
      t.accepted.length := hinv.accepted
  have hwritten : (startMyftpClient config.client s.client r).1.written = s.client.written := by
    rw [haccepted.written_eq, h.inv.accepted.written_eq]
  have hnet : ∀ d ∈ (s.clientStep config about r).net, d.dest = config.clientAddr →
      ∀ j ∈ d.about, j < t.offered := fun d hd hdest =>
    h.net d (hinv.dest_of_client d hd hdest) hdest
  have hactive : t.receiver = .receiving := by
    rw [h.receiver, hreceiving]
    rfl
  rw [hevents]
  cases hpc : (startMyftpClient config.client s.client r).1.pc with
  | receiving =>
      have hnone : s.client.events (startMyftpClient config.client s.client r).1 = [] := by
        simp [Client.events, hwritten, hpc]
      rw [hnone]
      refine ⟨t, rfl, hinv, h.accepted, h.waiting, h.sending, h.accepted_le, h.sender, ?_, hnet⟩
      show t.receiver = receiverStatus (startMyftpClient config.client s.client r).1.pc
      rw [hpc, hactive]
      rfl
  | stopped =>
      have hleaves : s.client.events (startMyftpClient config.client s.client r).1 =
          [.receiverLeaves] := by
        simp [Client.events, hwritten, hpc, hreceiving]
      rw [hleaves]
      refine ⟨{ t with receiver := .left }, run_cons.mpr ⟨_, if_pos hactive, rfl⟩, hinv, h.accepted,
        h.waiting, h.sending, h.accepted_le, h.sender, ?_, hnet⟩
      show .left = receiverStatus (startMyftpClient config.client s.client r).1.pc
      rw [hpc]
      rfl
  | finished =>
      have hend := haccepted.finished hpc
      omega
  | overrun => exact absurd hpc haccepted.not_overrun

/-- **The chunk it waits for** makes the client accept a piece. -/
theorem HandsOver.clientAccepts (h : HandsOver config s t) (hreceiving : s.client.pc = .receiving)
    (hoffered : t.accepted.length < t.offered) (hchunk : t.accepted.length ≤ s.server.chunk)
    {s' : Pair} (hs' : s' = s.clientStep config (some t.accepted.length) (.datagram
      config.serverAddr (dataPacket config.server.order config.server.file t.accepted.length))) :
    ∃ t', (handOver (pieces config)).run t (s.events s') = some t' ∧ HandsOver config s' t' := by
  have hk := (h.inv.accepted.receiving hreceiving).1
  obtain ⟨c', hc', haccepted, -, hpc⟩ := @Client.Accepted.receives config.client
    config.server.file s.client _ h.inv.accepted hreceiving config.serverAddr config.server.order
  have hinv : PairInv config s' (t.accepted.length + 1) := by
    rw [hs']
    apply h.inv.clientStep hreceiving rfl (.inr ⟨rfl, hchunk⟩) (by rw [hc']; exact haccepted)
    intro packet hpacket
    rw [hc'] at hpacket
    rw [List.mem_singleton.mp hpacket]
    refine ⟨rfl, ?_⟩
    dsimp only
    rw [aboutOfAnswer_ack]
    split_ifs with hlast
    · exact .lastAck (by omega) rfl
    · exact .ack _ (Nat.lt_succ_self _) (by omega) rfl rfl
  have hclient : s'.client = c' := by
    rw [hs', Pair.clientStep, hc']
  have hwritten : c'.written = s.client.written ++ chunk config.server.file t.accepted.length := by
    rw [haccepted.written_eq, h.inv.accepted.written_eq, firstChunks_succ]
  have hevents : s.events s' = [.accept (chunk config.server.file t.accepted.length)] := by
    have hserver : s'.server = s.server := by
      rw [hs']
      rfl
    -- a full chunk shows in the file, the short one in the program counter
    have hmoved : c'.written ≠ s.client.written ∨
        c'.pc = .finished ∧ s.client.pc ≠ .finished := by
      rcases Nat.lt_or_eq_of_le hk with hlt | hlast
      · have hfull := length_chunk_of_lt hlt
        refine .inl fun heq => ?_
        have hlength := congrArg List.length (hwritten.symm.trans heq)
        rw [List.length_append, hfull, mfMaxData] at hlength
        omega
      · rw [if_pos hlast] at hpc
        exact .inr ⟨hpc, by simp [hreceiving]⟩
    rw [Pair.events, hserver, Server.events_self, List.nil_append, hclient, Client.events,
      if_pos hmoved, hwritten, List.drop_left]
  have hactive : t.receiver = .receiving := by
    rw [h.receiver, hreceiving]
    rfl
  rw [hevents]
  refine ⟨t.accept (pieces config).length (chunk config.server.file t.accepted.length),
    run_cons.mpr ⟨_, if_pos ⟨hactive, hoffered, getElem?_pieces hk⟩, rfl⟩, ?_⟩
  have hlength : (t.accepted ++ [chunk config.server.file t.accepted.length]).length =
      t.accepted.length + 1 := by simp
  refine ⟨?_, ?_, fun hfrq => ?_, fun hwait => ?_, ?_, ?_, ?_, fun d hd hdest => ?_⟩
  · rw [HandOver.State.accept, hlength]
    exact hinv
  · rw [HandOver.State.accept, hlength, List.range_succ, List.map_append, ← h.accepted]
    rfl
  · rw [hs'] at hfrq
    exact h.waiting hfrq
  · rw [hs'] at hwait ⊢
    exact h.sending hwait
  · rw [HandOver.State.accept, hlength]
    exact hoffered
  · rw [hs']
    exact h.sender
  · rw [HandOver.State.accept, hclient, hpc, length_pieces]
    simp only [Nat.add_right_cancel_iff]
    split_ifs <;> rfl
  · rw [hs'] at hd hinv
    exact h.net d (hinv.dest_of_client d hd hdest) hdest

/-- **A datagram for the client** is an event of the receiver, or none. -/
theorem HandsOver.toClient (h : HandsOver config s t) {d : Datagram}
    (hreceiving : s.client.pc = .receiving) (hd : d ∈ s.net) (hdest : d.dest = config.clientAddr)
    (hfresh : ∀ j ∈ d.about, s.server.chunk < j + 64000) :
    ∃ t', (handOver (pieces config)).run t
        (s.events (s.clientStep config d.about (.datagram d.source d.bytes))) = some t' ∧
      HandsOver config (s.clientStep config d.about (.datagram d.source d.bytes)) t' := by
  rcases h.inv.net d hd with ⟨hsource, -, j, hj, hlast, habout, hbytes⟩ | ⟨-, hserver, -⟩
  · have hoffered := h.net d hd hdest j habout
    rw [habout, hsource, hbytes]
    rcases Nat.lt_or_eq_of_le (hj.trans h.inv.serves.chunk_le) with hlt | rfl
    · -- a chunk it has already: acknowledged again
      have hclose := hfresh j habout
      have hnear := h.inv.le_chunk
      have hk := (h.inv.accepted.receiving hreceiving).1
      have hagain := @Client.Accepted.receives_again config.client config.server.file s.client
        _ h.inv.accepted hreceiving config.serverAddr config.server.order j
        (blockNumber_ne hlt (by omega))
      apply h.clientSame hreceiving
      apply h.inv.clientStep hreceiving rfl (.inl rfl)
      · rw [hagain]
        exact h.inv.accepted.congr _ _ _
      · intro packet hpacket
        rw [hagain] at hpacket
        rw [List.mem_singleton.mp hpacket]
        refine ⟨rfl, ?_⟩
        dsimp only
        rw [aboutOfAnswer_ack]
        exact .ack j hlt (hlt.trans_le hk) rfl rfl
    · exact h.clientAccepts hreceiving hoffered hj rfl
  · exact absurd (hserver.symm.trans hdest) config.distinct

/-! ## Every run -/

/-- **Refinement.**  While no datagram is kept back for 64000 chunks, every step of the two programs
is an event of the hand-over of the chunks, or none. -/
theorem simulation_handOver (config : PairConfig) :
    Simulation (pairSystem config) (handOver (pieces config)) Pair.Fresh Pair.events
      (HandsOver config) where
  initial s hs := by
    obtain ⟨clientaddr, garbage, rfl⟩ := hs
    exact ⟨HandOver.start, rfl, handsOver_start config clientaddr garbage⟩
  step s a s' t h hfresh hstep := by
    cases a with
    | serverTimeout =>
        obtain ⟨hlive, rfl⟩ := Option.ite_some_none_eq_some.mp hstep
        exact h.serverStep hlive (h.inv.serverTimeout hlive)
    | clientTimeout =>
        obtain ⟨hreceiving, rfl⟩ := Option.ite_some_none_eq_some.mp hstep
        exact h.clientSame hreceiving (h.inv.clientTimeout hreceiving)
    | toServer d =>
        obtain ⟨⟨hlive, hd, hdest⟩, rfl⟩ := Option.ite_some_none_eq_some.mp hstep
        exact h.serverStep hlive (h.inv.toServer hlive hd hdest hfresh)
    | toClient d =>
        obtain ⟨⟨hreceiving, hd, hdest⟩, rfl⟩ := Option.ite_some_none_eq_some.mp hstep
        exact h.toClient hreceiving hd hdest hfresh
    | damagedToServer bytes =>
        obtain ⟨⟨hlive, hdetects⟩, rfl⟩ := Option.ite_some_none_eq_some.mp hstep
        exact h.serverStep hlive (h.inv.damagedToServer hlive hdetects)
    | damagedToClient bytes =>
        obtain ⟨⟨hreceiving, hdetects⟩, rfl⟩ := Option.ite_some_none_eq_some.mp hstep
        exact h.clientSame hreceiving (h.inv.damagedToClient hreceiving hdetects)

/-- **Runs as hand-overs.**  The events of a run are those of a hand-over of the chunks of the file:
a chunk is offered when all before it were accepted, and what the client writes are the chunks
offered, each once and in order, whatever the network does in between. -/
theorem transfer_handsOver (config : PairConfig) (clientaddr : Addr) (garbage : Buffer 6)
    {actions : List PairAction} {s' : Pair}
    (hmeet : (pairSystem config).StepsMeet Pair.Fresh (Pair.start config clientaddr garbage) actions)
    (hrun : (pairSystem config).run (Pair.start config clientaddr garbage) actions = some s') :
    ∃ t, (handOver (pieces config)).run HandOver.start ((pairSystem config).observed Pair.events
        (Pair.start config clientaddr garbage) actions) = some t ∧
      HandOver.Ordered (pieces config) t ∧
      HandOver.accepts ((pairSystem config).observed Pair.events
        (Pair.start config clientaddr garbage) actions) = t.accepted ∧
      s'.client.written = t.accepted.flatten ∧
      t.sender = senderStatus s'.server.pc ∧ t.receiver = receiverStatus s'.client.pc := by
  obtain ⟨t, ht, hrelated⟩ := (simulation_handOver config).run
    (handsOver_start config clientaddr garbage) hmeet hrun
  have hreach : (handOver (pieces config)).Reachable t := reachable_of_run (.start rfl) ht
  have haccepted := HandOver.accepted_of_run ht
  exact ⟨t, ht, HandOver.ordered_of_reachable hreach, haccepted.symm, hrelated.flatten.symm,
    hrelated.sender, hrelated.receiver⟩

namespace FullChunk

/-- The repeated packet is no event: the run is a hand-over of a full and an empty chunk. -/
theorem transfer_handsOver_fullChunk :
    ∃ t, (handOver (pieces pair)).run HandOver.start
        ((pairSystem pair).observed Pair.events start transfer) = some t ∧
      HandOver.Ordered (pieces pair) t ∧
      HandOver.accepts ((pairSystem pair).observed Pair.events start transfer) = t.accepted := by
  have hmeet : (pairSystem pair).StepsMeet Pair.Fresh start transfer := by decide +kernel
  have hrun : ((pairSystem pair).run start transfer).isSome := by decide +kernel
  obtain ⟨s', hs'⟩ := Option.isSome_iff_exists.mp hrun
  obtain ⟨t, ht, hordered, haccepts, -⟩ := transfer_handsOver pair ⟨2, 7000⟩ (Buffer.zero 6) hmeet hs'
  exact ⟨t, ht, hordered, haccepts⟩

end FullChunk

end NetworkHomework.Ftp
