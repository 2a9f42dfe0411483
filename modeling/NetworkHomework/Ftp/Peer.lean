import NetworkHomework.Ftp.Truncated

/-!
# Whom a transfer is sent to

Both parties keep the address they answer in the variable that every `recvfrom`
overwrites, also with the source of a datagram that is then ignored or rejected.  What
the two have in common is a `Correspondent`: a party that sends everything to the source
of the last datagram.  Its peer is the source of the datagram it accepts first, and
`keepsPeer_step_iff` says when a step keeps to that peer: whenever it calls for a packet,
the last datagram came from there.

Both parties are correspondents, so the exact condition on whole runs is the same for
both and is proved once.
-/

namespace NetworkHomework.Ftp

/-- The source of a datagram. -/
def Recv.source? : Recv → Option Addr
  | .timeout => none
  | .datagram source _ => some source

/-! ## Parties that answer whoever spoke last -/

/-- A party with its variable for the address, and what can be said of its steps: what it sends
goes to that address, which every receive sets while the party is in its loops. -/
structure Correspondent (Party : Type) where
  step : Party → Recv → Party × List Packet
  addr : Party → Addr
  /-- the party is in one of its loops -/
  Live : Party → Prop
  /-- the datagram starts the transfer -/
  Accepts : Party → Recv → Prop
  /-- the packets of the transfer that the peer is to get -/
  Counts : Packet → Prop
  /-- the receive makes the party send such a packet -/
  Transmits : Party → Recv → Prop
  left : ∀ p r, ¬ Live p → step p r = (p, [])
  addr_step : ∀ p r, Live p → addr (step p r).1 = r.sourceOr (addr p)
  dest : ∀ p r, ∀ packet ∈ (step p r).2, packet.dest = addr (step p r).1
  source_of_accepts : ∀ p r, Accepts p r → r.source?.isSome
  transmits_iff : ∀ p r, Transmits p r ↔ ∃ packet ∈ (step p r).2, Counts packet

/-- A party with the history of its transfer: the source of the datagram that started it, the
source of the last datagram, and what was sent since the start. -/
structure Peered (Party : Type) where
  party : Party
  peer : Option Addr
  last : Option Addr
  sent : List Packet

namespace Peered

variable {Party : Type} (kind : Correspondent Party) [∀ p r, Decidable (kind.Accepts p r)]

def start (p : Party) : Peered Party := ⟨p, none, none, []⟩

/-- The source of the last datagram, when `r` is received next. -/
def latest (s : Peered Party) (r : Recv) : Option Addr := r.source?.or s.last

def step (s : Peered Party) (r : Recv) : Peered Party :=
  let (party, out) := kind.step s.party r
  let peer := s.peer.or (if kind.Accepts s.party r then s.latest r else none)
  { party, peer, last := s.latest r, sent := s.sent ++ if peer.isSome then out else [] }

def system (p : Party) : TransitionSystem (Peered Party) Recv where
  initial s := s = start p
  step s r := some (s.step kind r)

/-- Everything went to the peer. -/
def KeepsPeer (s : Peered Party) : Prop :=
  ∀ packet ∈ s.sent, kind.Counts packet → some packet.dest = s.peer

/-- Once the transfer has started, a receive calls for a packet only when the last datagram, this
one or an earlier one, came from the peer. -/
def PeerSpokeLast (s : Peered Party) (r : Recv) : Prop :=
  s.peer.isSome → kind.Transmits s.party r → s.latest r = s.peer

/-- The address is the source of the last datagram. -/
structure Inv (s : Peered Party) : Prop where
  addr : kind.Live s.party → ∀ a ∈ s.last, kind.addr s.party = a
  spoken : s.peer.isSome → s.last.isSome
  unsent : s.peer = none → s.sent = []

variable {kind} {s : Peered Party}

omit [∀ p r, Decidable (kind.Accepts p r)] in
theorem inv_start (p : Party) : Inv kind (start p) :=
  ⟨fun _ _ h => by simp [start] at h, fun h => h, fun _ => rfl⟩

theorem latest_isSome (h : s.last.isSome) (r : Recv) : (s.latest r).isSome := by
  cases r with
  | timeout => exact h
  | datagram source bytes => rfl

omit [∀ p r, Decidable (kind.Accepts p r)] in
/-- What a step sends goes to whoever spoke last. -/
theorem Inv.dest_eq (h : Inv kind s) {r : Recv} (hspoken : (s.latest r).isSome) :
    ∀ packet ∈ (kind.step s.party r).2, some packet.dest = s.latest r := by
  intro packet hmem
  by_cases hlive : kind.Live s.party
  · rw [kind.dest _ _ packet hmem, kind.addr_step _ _ hlive]
    cases r with
    | timeout =>
        obtain ⟨a, ha⟩ := Option.isSome_iff_exists.mp hspoken
        have hlast : s.last = some a := ha
        rw [ha]
        exact congrArg some (h.addr hlive a hlast)
    | datagram source bytes => rfl
  · rw [kind.left _ _ hlive] at hmem
    simp at hmem

theorem Inv.step (h : Inv kind s) (r : Recv) : Inv kind (s.step kind r) := by
  refine ⟨fun hlive a ha => ?_, fun hpeer => ?_, fun hnone => ?_⟩
  · by_cases hlive' : kind.Live s.party
    · have haddr : kind.addr (s.step kind r).party = r.sourceOr (kind.addr s.party) :=
        kind.addr_step s.party r hlive'
      rw [haddr]
      cases r with
      | timeout => exact h.addr hlive' a ha
      | datagram source bytes => exact Option.some.inj ha
    · have hsame : (s.step kind r).party = s.party := by
        simp only [Peered.step, kind.left s.party r hlive']
      rw [hsame] at hlive
      exact absurd hlive hlive'
  · simp only [Peered.step, Option.isSome_or, Bool.or_eq_true] at hpeer ⊢
    rcases hpeer with hpeer | hpeer
    · exact latest_isSome (h.spoken hpeer) r
    · split_ifs at hpeer
      · exact hpeer
      · simp at hpeer
  · simp only [Peered.step, Option.or_eq_none_iff] at hnone ⊢
    rw [h.unsent hnone.1, hnone.1, hnone.2]
    rfl

/-- **One step** keeps to the peer exactly when a receive that calls for a packet finds the peer
the last one to have spoken. -/
theorem Inv.keepsPeer_step_iff (h : Inv kind s) (hs : s.KeepsPeer kind) (r : Recv) :
    (s.step kind r).KeepsPeer kind ↔ s.PeerSpokeLast kind r := by
  cases hpeer : s.peer with
  | none =>
      -- the datagram that starts the transfer is answered to its source
      refine iff_of_true ?_ fun hsome => by simp [hpeer] at hsome
      intro packet hmem _
      simp only [Peered.step, hpeer, h.unsent hpeer, Option.none_or, List.nil_append] at hmem ⊢
      by_cases haccepts : kind.Accepts s.party r
      · have hspoken : (s.latest r).isSome := by
          rw [latest, Option.isSome_or, kind.source_of_accepts _ _ haccepts, Bool.true_or]
        rw [if_pos haccepts, if_pos hspoken] at hmem
        rw [if_pos haccepts]
        exact h.dest_eq hspoken packet hmem
      · rw [if_neg haccepts] at hmem
        simp at hmem
  | some peer =>
      have hspoken := latest_isSome (h.spoken (by rw [hpeer]; rfl)) r
      have hdest := h.dest_eq hspoken
      have hstep : (s.step kind r).KeepsPeer kind ↔ ∀ packet ∈ (kind.step s.party r).2,
          kind.Counts packet → some packet.dest = s.peer := by
        simp only [KeepsPeer, Peered.step, hpeer, Option.some_or, Option.isSome_some, if_true,
          List.forall_mem_append]
        simp only [KeepsPeer, hpeer] at hs
        exact ⟨fun hall => hall.2, fun hout => ⟨hs, hout⟩⟩
      rw [hstep, PeerSpokeLast, kind.transmits_iff, hpeer]
      constructor
      · rintro hall - ⟨packet, hmem, hcounts⟩
        rw [← hdest packet hmem]
        exact hall packet hmem hcounts
      · intro hlast packet hmem hcounts
        rw [hdest packet hmem]
        exact hlast rfl ⟨packet, hmem, hcounts⟩

/-- **Every run** keeps to the peer exactly when all its steps do so. -/
theorem keepsPeer_iff (p : Party) (receives : List Recv) :
    (system kind p).Throughout (KeepsPeer kind) (start p) receives ↔
      (system kind p).StepsMeet (PeerSpokeLast kind) (start p) receives := by
  obtain ⟨s', hrun⟩ := (system kind p).exists_run (fun s r => ⟨s.step kind r, rfl⟩) receives
    (start p)
  refine TransitionSystem.throughout_iff_stepsMeet (Inv kind) ?_ ?_ (inv_start p)
    (fun _ hmem => ?_) hrun
  · intro s r s' hinv hstep
    obtain rfl := Option.some.inj hstep
    exact hinv.step r
  · intro s r s' hinv hs hstep
    obtain rfl := Option.some.inj hstep
    exact hinv.keepsPeer_step_iff hs r
  · simp [start] at hmem

end Peered

/-! ## The server -/

namespace Server

/-- The request loop takes the datagram for a request. -/
def AcceptsFrq (config : ServerConfig) (s : Server) : Recv → Prop
  | .timeout => False
  | .datagram _ bytes => s.pc = .waitFrq ∧ bytes.length ≠ 0 ∧
      inCksum config.order ((Buffer.zero config.filename.frqSize).recvfrom bytes).bytes = 0

instance (config : ServerConfig) (s : Server) : (r : Recv) → Decidable (s.AcceptsFrq config r)
  | .timeout => inferInstanceAs (Decidable False)
  | .datagram _ _ => inferInstanceAs (Decidable (_ ∧ _))

/-- The packet is answered with DATA: an ERROR about the block before, a packet that fails the
checksum, or an acknowledgement of the current block. -/
def CallsForData (config : ServerConfig) (block : ℕ) (ackPacket : List UInt8) : Prop :=
  (mfOpcode ackPacket = Opcode.error ∧ mfBlock ackPacket = block - 1) ∨
    (mfOpcode ackPacket ≠ Opcode.frq ∧ mfOpcode ackPacket ≠ Opcode.error ∧
      inCksum config.order ackPacket ≠ 0) ∨
    (AcksBlock config ackPacket block ∧ mfBlock ackPacket ≠ 0)

instance (config : ServerConfig) (ackPacket : List UInt8) (n : ℕ) :
    Decidable (AcksBlock config ackPacket n) :=
  inferInstanceAs (Decidable (_ ∧ _))

instance (config : ServerConfig) (block : ℕ) (ackPacket : List UInt8) :
    Decidable (CallsForData config block ackPacket) :=
  inferInstanceAs (Decidable (_ ∨ _))

/-- The receive makes the process send DATA. -/
def Transmits (config : ServerConfig) (s : Server) : Recv → Prop
  | .timeout => s.pc = .waitAck ∧ s.timeoutNum ≤ 10
  | .datagram source bytes => s.AcceptsFrq config (.datagram source bytes) ∨
      s.pc = .waitAck ∧ bytes.length ≠ 0 ∧
        CallsForData config s.block (s.ackPacket.recvfrom bytes).bytes

instance (config : ServerConfig) (s : Server) : (r : Recv) → Decidable (s.Transmits config r)
  | .timeout => inferInstanceAs (Decidable (_ ∧ _))
  | .datagram _ _ => inferInstanceAs (Decidable (_ ∨ _))

variable {config : ServerConfig} {s : Server}

theorem callsForData_iff {block : ℕ} {ackPacket : List UInt8} :
    CallsForData config block ackPacket ↔
      verdict config block ackPacket = .resent ∨ verdict config block ackPacket = .advanced := by
  unfold CallsForData
  by_cases hfrq : mfOpcode ackPacket = Opcode.frq
  · have hother : Opcode.frq ≠ Opcode.error ∧ Opcode.frq ≠ Opcode.ack := by decide
    simp [verdict, AcksBlock, hfrq, hother.1, hother.2]
  by_cases herror : mfOpcode ackPacket = Opcode.error
  · have hother : Opcode.error ≠ Opcode.ack := by decide
    rw [verdict_of_error herror]
    simp only [AcksBlock, herror, hother, ne_eq, not_true_eq_false, false_and, and_false, or_false,
      true_and]
    split_ifs with hcurrent <;> simp [hcurrent]
  by_cases hcksum : inCksum config.order ackPacket = 0
  · by_cases hack : mfOpcode ackPacket = Opcode.ack
    · rw [verdict_of_ack hcksum hack]
      simp only [AcksBlock, hcksum, hack, ne_eq, not_true_eq_false, and_false, false_or, true_and]
      split_ifs with hzero hother <;> simp_all
    · simp [verdict, AcksBlock, hfrq, herror, hcksum, hack]
  · simp [(verdict_of_other hfrq herror).mpr hcksum, hfrq, herror, hcksum]

theorem transmits_iff (config : ServerConfig) (s : Server) (r : Recv) :
    s.Transmits config r ↔ ∃ packet ∈ (startMyftpServer config s r).2, True := by
  unfold startMyftpServer
  cases r with
  | timeout =>
      cases hpc : s.pc with
      | waitFrq =>
          simp only [Transmits, hpc, waitFrq]
          split_ifs <;> simp
      | waitAck =>
          simp only [Transmits, hpc, waitAck, resend]
          split_ifs with hlimit <;> simp <;> omega
      | returned => simp [Transmits, hpc]
      | exited => simp [Transmits, hpc]
  | datagram source bytes =>
      cases hpc : s.pc with
      | waitFrq =>
          simp only [Transmits, AcceptsFrq, hpc, waitFrq, sendChunk]
          split_ifs with hempty hcksum <;> simp [hempty] <;> simpa using hcksum
      | waitAck =>
          simp only [Transmits, AcceptsFrq, hpc]
          by_cases hempty : bytes.length = 0
          · simp [waitAck, hempty]
          · rw [waitAck_eq_act config s source hempty, callsForData_iff]
            cases verdict config s.block (s.ackPacket.recvfrom bytes).bytes <;>
              simp [act, resend, sendChunk, hempty]
      | returned => simp [Transmits, AcceptsFrq, hpc]
      | exited => simp [Transmits, AcceptsFrq, hpc]

/-- A transfer process, whose packets are all DATA. -/
def correspondent (config : ServerConfig) : Correspondent Server where
  step := startMyftpServer config
  addr := Server.clientaddr
  Live s := s.pc = .waitFrq ∨ s.pc = .waitAck
  Accepts := AcceptsFrq config
  Counts _ := True
  Transmits := Transmits config
  left s r h := by
    unfold startMyftpServer
    cases hpc : s.pc with
    | waitFrq => exact absurd (.inl hpc) h
    | waitAck => exact absurd (.inr hpc) h
    | returned => rfl
    | exited => rfl
  addr_step s r h := clientaddr_startMyftpServer h r
  dest s r packet hmem := (dest_startMyftpServer r packet hmem).1
  source_of_accepts s r h := by
    cases r with
    | timeout => exact h.elim
    | datagram source bytes => rfl
  transmits_iff := transmits_iff config

end Server

/-! ## The client -/

namespace Client

instance (config : ClientConfig) (c : Client) (bytes : List UInt8) :
    Decidable (c.Expects config bytes) :=
  inferInstanceAs (Decidable (_ ∧ _))

/-- The transmission loop takes the datagram for the packet it waits for. -/
def AcceptsData (config : ClientConfig) (c : Client) : Recv → Prop
  | .timeout => False
  | .datagram _ bytes => bytes.length ≠ 0 ∧ c.Expects config bytes

instance (config : ClientConfig) (c : Client) : (r : Recv) → Decidable (c.AcceptsData config r)
  | .timeout => inferInstanceAs (Decidable False)
  | .datagram _ _ => inferInstanceAs (Decidable (_ ∧ _))

/-- The receive makes the client send an ACK or an ERROR: a timeout once a block was accepted, a
packet that fails the checksum, or DATA, unless it is expected and shorter than a header. -/
def Transmits (config : ClientConfig) (c : Client) : Recv → Prop
  | .timeout => c.pc = .receiving ∧ c.block ≠ 0 ∧ c.timeoutNum ≤ 10
  | .datagram _ bytes => c.pc = .receiving ∧ bytes.length ≠ 0 ∧
      (inCksum config.order (filePacketOf bytes) ≠ 0 ∨
        mfOpcode (filePacketOf bytes) = Opcode.data ∧
          (mfBlock (filePacketOf bytes) = c.block + 1 → 6 ≤ bytes.length))

instance (config : ClientConfig) (c : Client) : (r : Recv) → Decidable (c.Transmits config r)
  | .timeout => inferInstanceAs (Decidable (_ ∧ _))
  | .datagram _ _ => inferInstanceAs (Decidable (_ ∧ _))

/-- An ACK or an ERROR. -/
def IsAnswer (packet : Packet) : Prop :=
  mfOpcode packet.bytes = Opcode.ack ∨ mfOpcode packet.bytes = Opcode.error

instance (packet : Packet) : Decidable (IsAnswer packet) := inferInstanceAs (Decidable (_ ∨ _))

theorem not_isAnswer_frqPacket (dest : Addr) (order : ByteOrder) (name : FileName) :
    ¬ IsAnswer ⟨dest, frqPacket order name⟩ := by
  rw [IsAnswer, mfOpcode_frqPacket]
  decide

variable {config : ClientConfig} {c : Client}

theorem isAnswer_ack (dest : Addr) (block : ℕ) : IsAnswer ⟨dest, answer config Opcode.ack block⟩ :=
  .inl (mfOpcode_answer block (by decide))

theorem isAnswer_error (dest : Addr) (block : ℕ) :
    IsAnswer ⟨dest, answer config Opcode.error block⟩ :=
  .inr (mfOpcode_answer block (by decide))

theorem transmits_iff (config : ClientConfig) (c : Client) (r : Recv) :
    c.Transmits config r ↔ ∃ packet ∈ (startMyftpClient config c r).2, IsAnswer packet := by
  unfold startMyftpClient
  cases hpc : c.pc with
  | receiving =>
      cases r with
      | timeout =>
          simp only [Transmits, hpc, transmission, timedOut]
          split_ifs with hblock hfirst hlimit
          · simp [hblock]
          · simp [hblock, not_isAnswer_frqPacket]
          · simp
            omega
          · simp [hblock, isAnswer_error]
            omega
      | datagram source bytes =>
          simp only [Transmits, hpc, transmission]
          split_ifs with hempty hcksum hother hnext
          · simp [hempty]
          · simp [hempty, hcksum, isAnswer_error]
          · simp [hempty, hother.1, hother.2, isAnswer_ack]
          · -- the expected packet is acknowledged when there is something to write
            have hgood := not_not.mp hcksum
            have hsize : 6 ≤ maxFilePacketSize := by decide
            by_cases hlong : 6 ≤ bytes.length
            · have hnot : ¬ min bytes.length maxFilePacketSize < 6 := by omega
              rw [accept, if_neg hnot]
              dsimp only
              split_ifs <;> simp [hempty, hnext.1, hlong, isAnswer_ack]
            · have hshort : min bytes.length maxFilePacketSize < 6 := by omega
              rw [accept, if_pos hshort]
              simp [hgood, hnext.2, hlong]
          · have hgood := not_not.mp hcksum
            have hnot : mfOpcode (filePacketOf bytes) ≠ Opcode.data := by
              intro hdata
              rcases eq_or_ne (mfBlock (filePacketOf bytes)) (c.block + 1) with h | h
              · exact hnext ⟨hdata, h⟩
              · exact hother ⟨hdata, h⟩
            simp [hgood, hnot]
  | finished => cases r <;> simp [Transmits, hpc]
  | stopped => cases r <;> simp [Transmits, hpc]
  | overrun => cases r <;> simp [Transmits, hpc]

/-- A downloading client; what counts are its ACKs and ERRORs. -/
def correspondent (config : ClientConfig) : Correspondent Client where
  step := startMyftpClient config
  addr := Client.servaddr
  Live c := c.pc = .receiving
  Accepts := AcceptsData config
  Counts := IsAnswer
  Transmits := Transmits config
  left c r h := by
    unfold startMyftpClient
    cases hpc : c.pc with
    | receiving => exact absurd hpc h
    | finished => rfl
    | stopped => rfl
    | overrun => rfl
  addr_step c r h := servaddr_startMyftpClient h r
  dest c r packet hmem := by
    by_cases hpc : c.pc = .receiving
    · exact dest_startMyftpClient hpc r packet hmem
    · unfold startMyftpClient at hmem
      cases h : c.pc <;> simp [h] at hmem
      exact absurd h hpc
  source_of_accepts c r h := by
    cases r with
    | timeout => exact h.elim
    | datagram source bytes => rfl
  transmits_iff := transmits_iff config

end Client

/-! ## Both parties -/

instance (config : ServerConfig) (s : Server) (r : Recv) :
    Decidable ((Server.correspondent config).Accepts s r) :=
  inferInstanceAs (Decidable (s.AcceptsFrq config r))

instance (config : ClientConfig) (c : Client) (r : Recv) :
    Decidable ((Client.correspondent config).Accepts c r) :=
  inferInstanceAs (Decidable (c.AcceptsData config r))

/-- **The peer of a transfer.**  In every run of the server, all DATA goes to the source of the
accepted request, and in every run of the client, all ACKs and ERRORs from the first accepted packet
on go to the source of that packet, exactly if no receive calls for such a packet when someone
else spoke last. -/
theorem peer_iff (server : ServerConfig) (client : ClientConfig) (clientaddr servaddr : Addr)
    (garbage : Buffer 6) (receives : List Recv) :
    ((Peered.system (Server.correspondent server) (Server.start clientaddr garbage)).Throughout
        (Peered.KeepsPeer (Server.correspondent server))
        (Peered.start (Server.start clientaddr garbage)) receives ↔
      (Peered.system (Server.correspondent server) (Server.start clientaddr garbage)).StepsMeet
        (Peered.PeerSpokeLast (Server.correspondent server))
        (Peered.start (Server.start clientaddr garbage)) receives) ∧
    ((Peered.system (Client.correspondent client) (Client.start servaddr)).Throughout
        (Peered.KeepsPeer (Client.correspondent client))
        (Peered.start (Client.start servaddr)) receives ↔
      (Peered.system (Client.correspondent client) (Client.start servaddr)).StepsMeet
        (Peered.PeerSpokeLast (Client.correspondent client))
        (Peered.start (Client.start servaddr)) receives) :=
  ⟨Peered.keepsPeer_iff _ receives, Peered.keepsPeer_iff _ receives⟩

namespace Stray

def server : ServerConfig := ⟨.little, FileName.a, [7]⟩

def client : ClientConfig := ⟨.little, FileName.a⟩

/-- A datagram of no meaning, from an address that is not part of the transfer. -/
def datagram : Recv := .datagram ⟨3, 9000⟩ [0, 5, 0, 0, 0, 0]

/-- The server accepts a request and then hears the stray datagram. -/
def atServer : Peered Server :=
  (Peered.system (Server.correspondent server) (Server.start ⟨2, 7000⟩ (Buffer.zero 6))).after
    (Peered.start (Server.start ⟨2, 7000⟩ (Buffer.zero 6)))
    [.datagram ⟨2, 6000⟩ (frqPacket .little FileName.a), datagram]

/-- The client accepts a full block and then hears the stray datagram. -/
def atClient : Peered Client :=
  (Peered.system (Client.correspondent client) (Client.start ⟨1, 5000⟩)).after
    (Peered.start (Client.start ⟨1, 5000⟩))
    [.datagram ⟨1, 5000⟩ (dataPacket .little (List.replicate 512 7) 0), datagram]

theorem reachable_atServer :
    (Peered.system (Server.correspondent server)
      (Server.start ⟨2, 7000⟩ (Buffer.zero 6))).Reachable atServer :=
  TransitionSystem.reachable_of_run (.start rfl)
    (TransitionSystem.run_eq_some_after (by decide +kernel))

theorem reachable_atClient :
    (Peered.system (Client.correspondent client) (Client.start ⟨1, 5000⟩)).Reachable atClient :=
  TransitionSystem.reachable_of_run (.start rfl)
    (TransitionSystem.run_eq_some_after (by decide +kernel))

/-- The stray datagram is answered with DATA and with an ERROR to its source. -/
theorem not_keepsPeer :
    (¬ ∀ (config : ServerConfig) (clientaddr : Addr) (garbage : Buffer 6) (s : Peered Server),
      (Peered.system (Server.correspondent config) (Server.start clientaddr garbage)).Reachable s →
        s.KeepsPeer (Server.correspondent config)) ∧
    ¬ ∀ (config : ClientConfig) (servaddr : Addr) (s : Peered Client),
      (Peered.system (Client.correspondent config) (Client.start servaddr)).Reachable s →
        s.KeepsPeer (Client.correspondent config) := by
  constructor
  · intro h
    have hstray : ∃ packet ∈ atServer.sent, some packet.dest ≠ atServer.peer := by
      decide +kernel
    obtain ⟨packet, hmem, hne⟩ := hstray
    exact hne (h server _ _ atServer reachable_atServer packet hmem trivial)
  · intro h
    have hstray : ∃ packet ∈ atClient.sent,
        Client.IsAnswer packet ∧ some packet.dest ≠ atClient.peer := by
      decide +kernel
    obtain ⟨packet, hmem, hanswer, hne⟩ := hstray
    exact hne (h client _ atClient reachable_atClient packet hmem hanswer)

end Stray

end NetworkHomework.Ftp
