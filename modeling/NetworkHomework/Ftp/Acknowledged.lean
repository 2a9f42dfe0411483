import NetworkHomework.Foundation.Transition
import NetworkHomework.Ftp.InFlight
import NetworkHomework.Ftp.Reception

/-!
# What the client acknowledges

A history of the client's run: the DATA packets whose payload it wrote, and every
packet it sent together with the part of that history before it and the contents of its
file then.  An acknowledgement is sound when the payloads of the history are what the
file holds, and the history has a packet of its number, and, for ACK 0, a short one.

While the client receives, it has written packets `1, 2, …, 64999, 2, 3, …`, each
full.  So the acknowledgement of an accepted packet is sound, and the one unsound
acknowledgement comes from the branch for a packet that is not the expected one
("Server dose not receive previous Ack"): it answers any number, also one from the
future or 0, which a server takes for the end of the transfer.
-/

namespace NetworkHomework.Ftp

namespace Client

/-! ## The history -/

/-- A DATA packet that was written: its number and the bytes `fwrite` was given. -/
structure Taken where
  number : ℕ
  payload : List UInt8
  deriving DecidableEq

/-- A packet that was sent, the packets taken before, and the contents of the file then. -/
structure Sent where
  bytes : List UInt8
  taken : List Taken
  written : List UInt8
  deriving DecidableEq

/-- A client with its history. -/
structure Recorded where
  client : Client
  taken : List Taken
  sent : List Sent
  deriving DecidableEq

/-- The datagram is an intact DATA packet. -/
def IsIntactData (config : ClientConfig) (bytes : List UInt8) : Prop :=
  inCksum config.order (filePacketOf bytes) = 0 ∧ mfOpcode (filePacketOf bytes) = Opcode.data

instance (config : ClientConfig) (bytes : List UInt8) : Decidable (IsIntactData config bytes) :=
  inferInstanceAs (Decidable (_ ∧ _))

/-- The DATA packet that a receive brings to a client that expects it. -/
def takes (config : ClientConfig) (c : Client) : Recv → List Taken
  | .timeout => []
  | .datagram _ bytes =>
      if c.pc = .receiving ∧ 6 ≤ bytes.length ∧ IsIntactData config bytes ∧
          mfBlock (filePacketOf bytes) = c.block + 1 then
        [⟨mfBlock (filePacketOf bytes),
          (mfData (filePacketOf bytes)).take (min bytes.length maxFilePacketSize - 6)⟩]
      else []

/-- A timeout, or a datagram with at least a whole header. -/
def HeaderReceived : Recv → Prop
  | .timeout => True
  | .datagram _ bytes => 6 ≤ bytes.length

instance : (r : Recv) → Decidable (HeaderReceived r)
  | .timeout => inferInstanceAs (Decidable True)
  | .datagram _ bytes => inferInstanceAs (Decidable (6 ≤ bytes.length))

namespace Recorded

def start (servaddr : Addr) : Recorded := ⟨Client.start servaddr, [], []⟩

/-- The client's own step; it writes before it sends. -/
def step (config : ClientConfig) (s : Recorded) (r : Recv) : Recorded :=
  let (client, out) := startMyftpClient config s.client r
  let taken := s.taken ++ takes config s.client r
  ⟨client, taken, s.sent ++ out.map fun packet => ⟨packet.bytes, taken, client.written⟩⟩

end Recorded

def recordedSystem (config : ClientConfig) (servaddr : Addr) : TransitionSystem Recorded Recv where
  initial s := s = Recorded.start servaddr
  step s r := if HeaderReceived r then some (s.step config r) else none

/-- An acknowledgement of `n` is about a packet taken before; ACK 0 about a short one. -/
def Sent.AcksTaken (sent : Sent) : Prop :=
  mfOpcode sent.bytes = Opcode.ack →
    if mfBlock sent.bytes = 0 then ∃ t ∈ sent.taken, t.payload.length < mfMaxData
    else ∃ t ∈ sent.taken, t.number = mfBlock sent.bytes

instance (sent : Sent) : Decidable sent.AcksTaken :=
  inferInstanceAs (Decidable (_ → _))

/-- What is acknowledged was taken, and what was taken is what the file holds. -/
def Sent.Sound (sent : Sent) : Prop :=
  sent.AcksTaken ∧ sent.written = (sent.taken.map Taken.payload).flatten

instance (sent : Sent) : Decidable sent.Sound :=
  inferInstanceAs (Decidable (_ ∧ _))

/-- Every acknowledgement sent so far is sound. -/
def Recorded.AcksWritten (s : Recorded) : Prop := ∀ sent ∈ s.sent, sent.Sound

instance (s : Recorded) : Decidable s.AcksWritten := inferInstanceAs (Decidable (∀ _ ∈ _, _))

/-- No intact DATA packet carries a number other than the next one and those already used:
`1, …, k` after `k` full packets, as far as the numbers go. -/
def NumberInUse (config : ClientConfig) (s : Recorded) : Recv → Prop
  | .timeout => True
  | .datagram _ bytes =>
      s.client.pc = .receiving → IsIntactData config bytes →
        mfBlock (filePacketOf bytes) = s.client.block + 1 ∨
          1 ≤ mfBlock (filePacketOf bytes) ∧
            mfBlock (filePacketOf bytes) ≤ min 64999 (s.client.written.length / mfMaxData)

instance (config : ClientConfig) (s : Recorded) : (r : Recv) → Decidable (NumberInUse config s r)
  | .timeout => inferInstanceAs (Decidable True)
  | .datagram _ _ => inferInstanceAs (Decidable (_ → _ → _))

/-! ## What one receive can do -/

section Rounds

variable {config : ClientConfig} {c : Client}

/-- The outcomes of a receive, by what is acknowledged. -/
inductive Round (config : ClientConfig) (c : Client) (r : Recv) (c' : Client)
    (out : List Packet) : Prop
  /-- nothing is written, and nothing is acknowledged -/
  | quiet (hmeets : ∀ source bytes, r = .datagram source bytes → ¬ IsIntactData config bytes)
      (htakes : takes config c r = []) (hwritten : c'.written = c.written)
      (hblock : c'.block = c.block) (hout : ∀ packet ∈ out, mfOpcode packet.bytes ≠ Opcode.ack)
  /-- not the expected number: that number is acknowledged -/
  | again (source : Addr) (bytes : List UInt8) (hr : r = .datagram source bytes)
      (hdata : IsIntactData config bytes) (hnumber : mfBlock (filePacketOf bytes) ≠ c.block + 1)
      (htakes : takes config c r = []) (hwritten : c'.written = c.written)
      (hblock : c'.block = c.block)
      (hout : out = [⟨source, answer config Opcode.ack (mfBlock (filePacketOf bytes))⟩])
  /-- the expected packet, full -/
  | full (source : Addr) (bytes payload : List UInt8) (hr : r = .datagram source bytes)
      (hnumber : mfBlock (filePacketOf bytes) = c.block + 1)
      (htakes : takes config c r = [⟨c.block + 1, payload⟩]) (hpayload : payload.length = mfMaxData)
      (hwritten : c'.written = c.written ++ payload)
      (hblock : c'.block = if c.block + 1 = 64999 then 1 else c.block + 1)
      (hout : out = [⟨source, answer config Opcode.ack (c.block + 1)⟩])
  /-- the expected packet, short -/
  | last (source : Addr) (bytes payload : List UInt8) (hr : r = .datagram source bytes)
      (hnumber : mfBlock (filePacketOf bytes) = c.block + 1)
      (htakes : takes config c r = [⟨c.block + 1, payload⟩]) (hpayload : payload.length < mfMaxData)
      (hpc : c'.pc = .finished) (hwritten : c'.written = c.written ++ payload)
      (hout : out = [⟨source, answer config Opcode.ack 0⟩])

/-- A timed-out receive acknowledges nothing. -/
theorem round_timedOut (config : ClientConfig) (c : Client) :
    Round config c .timeout (c.timedOut config).1 (c.timedOut config).2 := by
  refine .quiet (fun _ _ hr => by simp at hr) rfl ?_ ?_ ?_
  · unfold timedOut
    split_ifs <;> rfl
  · unfold timedOut
    split_ifs <;> rfl
  · unfold timedOut
    split_ifs <;> simp [mfOpcode_frqPacket, mfOpcode_answer, Opcode.frq, Opcode.ack, Opcode.error]

/-- The payload is as long as the datagram says. -/
theorem length_take_mfData {bytes : List UInt8} (h : 6 ≤ bytes.length) :
    ((mfData (filePacketOf bytes)).take (min bytes.length maxFilePacketSize - 6)).length =
      min bytes.length maxFilePacketSize - 6 := by
  have hsize := ((Buffer.zero maxFilePacketSize).recvfrom bytes).length_bytes
  rw [List.length_take, mfData, List.length_drop, hsize]
  omega

/-- The expected packet is written and acknowledged. -/
theorem round_accept {source : Addr} {bytes : List UInt8} (hpc : c.pc = .receiving)
    (hlen : 6 ≤ bytes.length) (hdata : IsIntactData config bytes)
    (hnumber : mfBlock (filePacketOf bytes) = c.block + 1) {c' : Client} {out : List Packet}
    (heq : accept config { c with servaddr := source, timeoutFirstNum := 0, timeoutNum := 0 }
      (min bytes.length maxFilePacketSize) (filePacketOf bytes) = (c', out)) :
    Round config c (.datagram source bytes) c' out := by
  have hlong : ¬ min bytes.length maxFilePacketSize < 6 := by
    have hsize : 6 ≤ maxFilePacketSize := by decide
    omega
  have htakes : takes config c (.datagram source bytes) = [⟨c.block + 1,
      (mfData (filePacketOf bytes)).take (min bytes.length maxFilePacketSize - 6)⟩] := by
    rw [takes, if_pos ⟨hpc, hlen, hdata, hnumber⟩, hnumber]
  have hpayload := length_take_mfData hlen
  simp only [accept, if_neg hlong, hnumber] at heq
  by_cases hshort : min bytes.length maxFilePacketSize - 6 < mfMaxData
  · rw [if_pos hshort] at heq
    obtain ⟨rfl, rfl⟩ := Prod.mk.inj heq
    exact .last source bytes _ rfl hnumber htakes (hpayload.trans_lt hshort) rfl rfl rfl
  · rw [if_neg hshort] at heq
    obtain ⟨rfl, rfl⟩ := Prod.mk.inj heq
    have hfull : min bytes.length maxFilePacketSize - 6 = mfMaxData := by
      have : maxFilePacketSize = 6 + mfMaxData := rfl
      omega
    exact .full source bytes _ rfl hnumber htakes (hpayload.trans hfull) rfl rfl rfl

/-- **The outcomes of a receive.** -/
theorem round_transmission (hpc : c.pc = .receiving) {r : Recv} (hr : HeaderReceived r) :
    Round config c r (c.transmission config r).1 (c.transmission config r).2 := by
  cases r with
  | timeout => exact round_timedOut config c
  | datagram source bytes =>
      have hlen : 6 ≤ bytes.length := hr
      have hnonempty : bytes.length ≠ 0 := by omega
      -- a packet that is not an intact DATA packet is not written either
      have hnothing : ¬ IsIntactData config bytes →
          (∀ source' bytes', Recv.datagram source bytes = .datagram source' bytes' →
            ¬ IsIntactData config bytes') ∧ takes config c (.datagram source bytes) = [] := by
        intro hnot
        refine ⟨fun source' bytes' heq => ?_, ?_⟩
        · obtain ⟨-, rfl⟩ := Recv.datagram.inj heq
          exact hnot
        · rw [takes, if_neg fun h => hnot h.2.2.1]
      rw [transmission]
      dsimp only
      rw [if_neg hnonempty]
      split_ifs with hcksum hother hnext
      · obtain ⟨hmeets, htakes⟩ := hnothing fun h => hcksum h.1
        refine .quiet hmeets htakes rfl rfl ?_
        simp [mfOpcode_answer, Opcode.ack, Opcode.error]
      · refine .again source bytes rfl ⟨not_not.mp hcksum, hother.1⟩ hother.2 ?_ rfl rfl rfl
        rw [takes, if_neg fun h => hother.2 h.2.2.2]
      · exact round_accept hpc hlen ⟨not_not.mp hcksum, hnext.1⟩ hnext.2 rfl
      · obtain ⟨hmeets, htakes⟩ := hnothing fun h => by
          rcases eq_or_ne (mfBlock (filePacketOf bytes)) (c.block + 1) with hnumber | hnumber
          · exact hnext ⟨h.2, hnumber⟩
          · exact hother ⟨h.2, hnumber⟩
        exact .quiet hmeets htakes rfl rfl (by simp)

end Rounds

/-! ## Numbers in use -/

/-- The first `k` packets use the numbers from 1 to `k`, as far as they go. -/
theorem exists_blockNumber_iff {k n : ℕ} :
    (∃ i < k, blockNumber i = n) ↔ 1 ≤ n ∧ n ≤ min 64999 k := by
  constructor
  · rintro ⟨i, hi, rfl⟩
    rw [blockNumber_eq]
    split_ifs <;> omega
  · rintro ⟨hpos, hle⟩
    refine ⟨n - 1, by omega, ?_⟩
    rw [blockNumber_eq]
    split_ifs <;> omega

section Histories

variable {config : ClientConfig} {s : Recorded}

/-- The history holds what was written: of a receiving client full packets, numbered in order. -/
structure Recorded.Inv (s : Recorded) : Prop where
  written : s.client.written = (s.taken.map Taken.payload).flatten
  numbers : s.client.pc = .receiving →
    s.taken.map Taken.number = (List.range s.taken.length).map blockNumber
  block : s.client.pc = .receiving → s.client.block + 1 = blockNumber s.taken.length
  full : s.client.pc = .receiving → ∀ t ∈ s.taken, t.payload.length = mfMaxData

theorem Recorded.inv_start (servaddr : Addr) : (Recorded.start servaddr).Inv :=
  ⟨rfl, fun _ => rfl, fun _ => rfl, fun _ _ h => by simp [Recorded.start] at h⟩

/-- Before the short packet, the length of the file tells the number of packets. -/
theorem Recorded.Inv.length_written (h : s.Inv) (hpc : s.client.pc = .receiving) :
    s.client.written.length / mfMaxData = s.taken.length := by
  have hlengths : (s.taken.map Taken.payload).map List.length =
      List.replicate s.taken.length mfMaxData := by
    rw [List.map_map, List.eq_replicate_iff]
    refine ⟨List.length_map _, fun n hn => ?_⟩
    obtain ⟨t, ht, rfl⟩ := List.mem_map.mp hn
    exact h.full hpc t ht
  calc s.client.written.length / mfMaxData =
        (List.replicate s.taken.length mfMaxData).sum / mfMaxData := by
        rw [h.written, List.length_flatten, hlengths]
    _ = s.taken.length * mfMaxData / mfMaxData := by rw [List.sum_replicate_nat]
    _ = s.taken.length := Nat.mul_div_cancel _ (by decide)

/-- The numbers written so far. -/
theorem Recorded.Inv.exists_taken_iff (h : s.Inv) (hpc : s.client.pc = .receiving) {n : ℕ} :
    (∃ t ∈ s.taken, t.number = n) ↔
      1 ≤ n ∧ n ≤ min 64999 (s.client.written.length / mfMaxData) := by
  rw [h.length_written hpc, ← exists_blockNumber_iff]
  calc (∃ t ∈ s.taken, t.number = n) ↔ n ∈ s.taken.map Taken.number := List.mem_map.symm
    _ ↔ n ∈ (List.range s.taken.length).map blockNumber := by rw [h.numbers hpc]
    _ ↔ ∃ i < s.taken.length, blockNumber i = n := by simp

/-! ## Steps -/

/-- A client that left the loop does nothing more. -/
theorem Recorded.step_of_left (hpc : s.client.pc ≠ .receiving) (r : Recv) :
    s.step config r = s := by
  have htakes : takes config s.client r = [] := by
    cases r with
    | timeout => rfl
    | datagram source bytes => rw [takes, if_neg fun h => hpc h.1]
  have hclient : startMyftpClient config s.client r = (s.client, []) := by
    unfold startMyftpClient
    cases h : s.client.pc with
    | receiving => exact absurd h hpc
    | finished => rfl
    | stopped => rfl
    | overrun => rfl
  simp only [Recorded.step, hclient, htakes, List.append_nil, List.map_nil]

/-- A step, as an outcome of its receive. -/
theorem Recorded.round_step (hpc : s.client.pc = .receiving) {r : Recv} (hr : HeaderReceived r) :
    ∃ out, Round config s.client r (s.step config r).client out ∧
      (s.step config r).taken = s.taken ++ takes config s.client r ∧
      (s.step config r).sent =
        s.sent ++ out.map fun packet =>
          ⟨packet.bytes, (s.step config r).taken, (s.step config r).client.written⟩ := by
  have hstep : startMyftpClient config s.client r = s.client.transmission config r := by
    rw [startMyftpClient, hpc]
  refine ⟨(startMyftpClient config s.client r).2, ?_, rfl, rfl⟩
  have hround := @round_transmission config s.client hpc r hr
  rw [← hstep] at hround
  exact hround

theorem Recorded.Inv.step (h : s.Inv) {r : Recv} (hr : HeaderReceived r) :
    (s.step config r).Inv := by
  by_cases hpc : s.client.pc = .receiving
  · obtain ⟨out, hround, htaken, -⟩ := @Recorded.round_step config s hpc r hr
    -- a step that writes nothing keeps the block
    have hsame : takes config s.client r = [] →
        (s.step config r).client.written = s.client.written →
        (s.step config r).client.block = s.client.block → (s.step config r).Inv := by
      intro htakes hwritten hblock
      rw [htakes, List.append_nil] at htaken
      refine ⟨?_, fun _ => ?_, fun _ => ?_, fun _ => ?_⟩
      · rw [htaken, hwritten, h.written]
      · rw [htaken, h.numbers hpc]
      · rw [htaken, hblock, h.block hpc]
      · rw [htaken]
        exact h.full hpc
    -- a step that writes one packet
    have hmore : ∀ payload, takes config s.client r = [⟨s.client.block + 1, payload⟩] →
        (s.step config r).client.written = s.client.written ++ payload →
        (s.step config r).client.written =
          ((s.step config r).taken.map Taken.payload).flatten := by
      intro payload htakes hwritten
      rw [htaken, htakes, hwritten, h.written]
      simp
    cases hround with
    | quiet _ htakes hwritten hblock _ => exact hsame htakes hwritten hblock
    | again _ _ _ _ _ htakes hwritten hblock _ => exact hsame htakes hwritten hblock
    | full source bytes payload _ _ htakes hpayload hwritten hblock _ =>
        have hblock' := h.block hpc
        refine ⟨hmore payload htakes hwritten, fun _ => ?_, fun _ => ?_, fun _ t ht => ?_⟩
        · rw [htaken, htakes, List.map_append, h.numbers hpc, List.length_append,
            List.length_singleton, List.range_succ, List.map_append, List.map_singleton,
            List.map_singleton, hblock']
        · rw [htaken, htakes, hblock, hblock', List.length_append, List.length_singleton]
          exact clientBlock_succ _
        · rw [htaken, htakes] at ht
          rcases List.mem_append.mp ht with ht | ht
          · exact h.full hpc t ht
          · rw [List.mem_singleton.mp ht]
            exact hpayload
    | last source bytes payload _ _ htakes _ hpc' hwritten _ =>
        have hleft : (s.step config r).client.pc ≠ .receiving := by simp [hpc']
        exact ⟨hmore payload htakes hwritten, fun hrec => absurd hrec hleft,
          fun hrec => absurd hrec hleft, fun hrec => absurd hrec hleft⟩
  · rw [Recorded.step_of_left hpc]
    exact h

/-- What a step sends keeps the history sound when it acknowledges what was taken: the file holds
that in any case. -/
theorem Recorded.acksWritten_append (h : s.AcksWritten) {s' : Recorded} (hs' : s'.Inv)
    {out : List Packet} (hsent : s'.sent =
      s.sent ++ out.map fun packet => ⟨packet.bytes, s'.taken, s'.client.written⟩) :
    s'.AcksWritten ↔ ∀ packet ∈ out,
      (Sent.mk packet.bytes s'.taken s'.client.written).AcksTaken := by
  unfold Recorded.AcksWritten at *
  rw [hsent, List.forall_mem_append, List.forall_mem_map]
  constructor
  · intro hall packet hmem
    exact (hall.2 packet hmem).1
  · intro hadded
    exact ⟨h, fun packet hmem => ⟨hadded packet hmem, hs'.written⟩⟩

/-- **One step.**  The acknowledgements stay sound exactly when a DATA packet with a number never
used does not come in. -/
theorem Recorded.Inv.acksWritten_step (h : s.Inv) (hs : s.AcksWritten) {r : Recv}
    (hr : HeaderReceived r) : (s.step config r).AcksWritten ↔ NumberInUse config s r := by
  by_cases hpc : s.client.pc = .receiving
  · obtain ⟨out, hround, htaken, hsent⟩ := @Recorded.round_step config s hpc r hr
    rw [Recorded.acksWritten_append hs (h.step hr) hsent]
    cases hround with
    | quiet hmeets _ _ _ hout =>
        constructor
        · intro _
          cases r with
          | timeout => trivial
          | datagram source bytes => exact fun _ hdata => absurd hdata (hmeets source bytes rfl)
        · intro _ packet hpacket hack
          exact absurd hack (hout packet hpacket)
    | again source bytes heq hdata hnumber htakes _ _ hout =>
        subst heq
        rw [htakes, List.append_nil] at htaken
        have hread := @mfBlock_answer config Opcode.ack _ (mfBlock_lt (filePacketOf bytes))
        have hopcode := @mfOpcode_answer config Opcode.ack (mfBlock (filePacketOf bytes))
          (by decide)
        rw [hout, htaken]
        simp only [List.mem_singleton, forall_eq, Sent.AcksTaken, hopcode, hread, forall_const]
        have hshort : ¬ ∃ t ∈ s.taken, t.payload.length < mfMaxData := by
          rintro ⟨t, ht, hlt⟩
          exact absurd (h.full hpc t ht) (Nat.ne_of_lt hlt)
        simp only [NumberInUse, hpc, hdata, hnumber, forall_const, false_or]
        rw [← h.exists_taken_iff hpc]
        split_ifs with hzero
        · refine ⟨fun hex => absurd hex hshort, fun hex => ?_⟩
          have hpos := ((h.exists_taken_iff hpc).mp hex).1
          omega
        · exact Iff.rfl
    | full source bytes payload heq hnumber htakes hpayload _ _ hout =>
        subst heq
        have hlt : s.client.block + 1 < 2 ^ 16 := hnumber ▸ mfBlock_lt _
        have hread := @mfBlock_answer config Opcode.ack _ hlt
        rw [hout, htaken, htakes]
        refine ⟨fun _ _ _ => .inl hnumber, fun _ packet hmem => ?_⟩
        obtain rfl := List.mem_singleton.mp hmem
        intro _
        dsimp only
        rw [hread, if_neg (Nat.succ_ne_zero _)]
        exact ⟨_, List.mem_append_right _ (List.mem_singleton_self _), rfl⟩
    | last source bytes payload heq hnumber htakes hpayload _ _ hout =>
        subst heq
        have hread := @mfBlock_answer config Opcode.ack 0 (by decide)
        rw [hout, htaken, htakes]
        refine ⟨fun _ _ _ => .inl hnumber, fun _ packet hmem => ?_⟩
        obtain rfl := List.mem_singleton.mp hmem
        intro _
        dsimp only
        rw [hread, if_pos rfl]
        exact ⟨_, List.mem_append_right _ (List.mem_singleton_self _), hpayload⟩
  · rw [Recorded.step_of_left hpc]
    refine ⟨fun _ => ?_, fun _ => hs⟩
    cases r with
    | timeout => trivial
    | datagram source bytes => exact fun hrec => absurd hrec hpc

/-! ## Every run -/

theorem recordedSystem_step {servaddr : Addr} {r : Recv} {s' : Recorded} :
    (recordedSystem config servaddr).step s r = some s' ↔
      HeaderReceived r ∧ s.step config r = s' :=
  Option.ite_some_none_eq_some

/-- **Only what was written is acknowledged**, in a run of timeouts and datagrams with a whole
header, exactly while no intact DATA packet brings a number that is neither the next one nor one
used before. -/
theorem acksWritten_iff (config : ClientConfig) (servaddr : Addr) {receives : List Recv}
    {s' : Recorded}
    (hrun : (recordedSystem config servaddr).run (Recorded.start servaddr) receives = some s') :
    (recordedSystem config servaddr).Throughout Recorded.AcksWritten (Recorded.start servaddr)
        receives ↔
      (recordedSystem config servaddr).StepsMeet (NumberInUse config) (Recorded.start servaddr)
        receives := by
  refine TransitionSystem.throughout_iff_stepsMeet Recorded.Inv ?_ ?_
    (Recorded.inv_start servaddr) (fun _ hmem => ?_) hrun
  · intro s r s' hinv hstep
    obtain ⟨hr, rfl⟩ := recordedSystem_step.mp hstep
    exact hinv.step hr
  · intro s r s' hinv hs hstep
    obtain ⟨hr, rfl⟩ := recordedSystem_step.mp hstep
    exact hinv.acksWritten_step hs hr
  · simp [Recorded.start] at hmem

end Histories

/-! ## A block never written -/

namespace Stray

/-- A client on a little-endian host that asks for the file "a". -/
def config : ClientConfig := ⟨.little, FileName.a⟩

/-- The address of the server. -/
def servaddr : Addr := ⟨1, 5000⟩

/-- A DATA packet of the given number without content. -/
def data (number : ℕ) : Recv :=
  .datagram servaddr (fillHeader .little Opcode.data number (List.replicate 6 0))

/-- A timeout and the packet of an empty file keep the history sound. -/
theorem acksWritten_emptyFile :
    (recordedSystem config servaddr).Throughout Recorded.AcksWritten (Recorded.start servaddr)
      [.timeout, data 1] :=
  (acksWritten_iff config servaddr
    (TransitionSystem.run_eq_some_after (by decide +kernel))).mpr (by decide +kernel)

/-- DATA 7 as the first packet is answered with ACK 7, and DATA 0 with ACK 0. -/
theorem not_acksWritten : ¬ ∀ (config : ClientConfig) (servaddr : Addr) (receives : List Recv)
    (s' : Recorded), (recordedSystem config servaddr).run (Recorded.start servaddr) receives =
      some s' → s'.AcksWritten := by
  intro h
  have hfuture := h config servaddr [data 7] _
    (TransitionSystem.run_eq_some_after (by decide +kernel))
  exact absurd hfuture (by decide +kernel)

end Stray

end Client

end NetworkHomework.Ftp
