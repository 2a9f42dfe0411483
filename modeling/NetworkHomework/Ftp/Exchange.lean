import NetworkHomework.Foundation.Progress
import NetworkHomework.Ftp.Integrity
import NetworkHomework.Ftp.Numbering

/-!
# One chunk, one exchange

What a delivered datagram does, now exactly and not only as what it may do at most: the
packet of the current chunk brings the client to the next one and is acknowledged, its
acknowledgement brings the server to the next one, and a server whose receive times out
sends the packet again.

An exchange delivers the packet of the current chunk and its acknowledgement.  Any
number of losses up to eleven may come before it: the client acknowledges a repeated
packet again, so it does not matter which of the two datagrams was lost.  The one loss
nothing makes up for is that of the last acknowledgement, since a client that has
finished does not answer any more.
-/

namespace NetworkHomework.Ftp

/-! ## The server -/

namespace Server

variable {config : ServerConfig} {s : Server}

/-- The acknowledgement of the current chunk: the next chunk is sent. -/
theorem Sending.acknowledged (h : Sending config s) (hlt : s.chunk < lastChunk config.file)
    (client : ClientConfig) (source : Addr) :
    ∃ s', startMyftpServer config s
        (.datagram source (Client.answer client Opcode.ack (blockNumber s.chunk))) =
          (s', [dataTo config source (s.chunk + 1)]) ∧
      Sending config s' ∧ s'.chunk = s.chunk + 1 ∧ s'.clientaddr = source ∧
        s'.timeoutNum = 0 := by
  have hblock := h.block_eq
  have hbound : blockNumber s.chunk < 2 ^ 16 := (blockNumber_lt _).trans (by decide)
  rw [startMyftpServer_answer h.pc_eq (blockNumber_pos _) hbound, if_neg (not_not.mpr hblock.symm)]
  obtain ⟨hsending, hout⟩ := @sending_sendChunk config
    { s with
      clientaddr := source, timeoutNum := 0,
      ackPacket := s.ackPacket.recvfrom (Client.answer client Opcode.ack (blockNumber s.chunk)),
      block := nextBlock s.block, chunk := s.chunk + 1 }
    hlt (by rw [hblock, blockNumber]) h.fin_eq
  exact ⟨_, Prod.ext rfl hout, hsending, rfl, rfl, rfl⟩

/-- The acknowledgement of 0: the transfer is over. -/
theorem Sending.finished (h : Sending config s) (client : ClientConfig) (source : Addr) :
    ∃ s', startMyftpServer config s (.datagram source (Client.answer client Opcode.ack 0)) =
        (s', []) ∧ s'.pc = .returned := by
  have hnonempty : (Client.answer client Opcode.ack 0).length ≠ 0 := by
    rw [length_answer]
    decide
  have hcksum : inCksum config.order (Client.answer client Opcode.ack 0) = 0 :=
    inCksum_fillHeader _ _ _ _ (by decide)
  have hverdict := @verdict_of_ack config s.block _ hcksum (mfOpcode_answer 0 (by decide))
  rw [startMyftpServer_waitAck h.pc_eq, waitAck_eq_act config s source hnonempty, recvfrom_answer,
    hverdict, mfBlock_answer _ (by decide), if_pos rfl]
  exact ⟨_, rfl, rfl⟩

/-- A timed-out receive: the packet again, up to eleven times in a row. -/
theorem Sending.timeout (h : Sending config s) (hleft : s.timeoutNum ≤ 10) :
    startMyftpServer config s .timeout =
      ({ s with timeoutNum := s.timeoutNum + 1 }, [dataTo config s.clientaddr s.chunk]) := by
  have hsending := h.congr s.clientaddr (s.timeoutNum + 1) s.ackPacket
  rw [startMyftpServer_waitAck h.pc_eq, Server.waitAck, if_neg (Nat.not_lt.mpr hleft), hsending.resend]

/-- Any other datagram is a sign of life: the timeouts are counted from 0 again. -/
theorem Sending.heard (h : Sending config s) (source : Addr) {bytes : List UInt8}
    (hbytes : bytes.length ≠ 0)
    (hnot : ∀ n, ¬ AcksBlock config (s.ackPacket.recvfrom bytes).bytes n) :
    ∃ s' out, startMyftpServer config s (.datagram source bytes) = (s', out) ∧
      Sending config s' ∧ s'.chunk = s.chunk ∧ s'.clientaddr = source ∧ s'.timeoutNum = 0 := by
  have hother := @verdict_of_not_ack config s.block (s.ackPacket.recvfrom bytes).bytes
    fun hacks => hnot _ ⟨hacks.1, hacks.2, rfl⟩
  have hsending := h.congr source 0 (s.ackPacket.recvfrom bytes)
  rw [startMyftpServer_waitAck h.pc_eq, waitAck_eq_act config s source hbytes]
  rcases hother with hverdict | hverdict
  · rw [hverdict]
    exact ⟨_, _, rfl, hsending, rfl, rfl, rfl⟩
  · rw [hverdict, act, hsending.resend]
    exact ⟨_, _, rfl, hsending, rfl, rfl, rfl⟩

end Server

/-! ## The client -/

namespace Client

variable {config : ClientConfig} {file : List UInt8} {c : Client} {k : ℕ}

theorem decodes_dataPacket (order : ByteOrder) (file : List UInt8) (j : ℕ) :
    Decodes config (dataPacket order file j) (blockNumber j) (chunk file j) := by
  rw [dataPacket_eq]
  exact decodes_fillHeader order config ((blockNumber_lt j).trans (by decide))
    (length_chunk_le file j)

/-- The packet of the chunk it waits for: written and acknowledged, the last one with 0. -/
theorem Accepted.receives (h : Accepted file c k) (hpc : c.pc = .receiving) (source : Addr)
    (order : ByteOrder) :
    ∃ c', startMyftpClient config c (.datagram source (dataPacket order file k)) =
        (c', [⟨source, answer config Opcode.ack
          (if k = lastChunk file then 0 else blockNumber k)⟩]) ∧
      Accepted file c' (k + 1) ∧ c'.servaddr = source ∧
        c'.pc = if k = lastChunk file then .finished else .receiving := by
  obtain ⟨hk, hblock⟩ := h.receiving hpc
  have hdecodes := @decodes_dataPacket config order file k
  have hlen := length_dataPacket order file k
  have hnonempty : (dataPacket order file k).length ≠ 0 := by omega
  have hlong : ¬ min (dataPacket order file k).length maxFilePacketSize < 6 := by
    have hsize : 6 ≤ maxFilePacketSize := by decide
    omega
  have hstep : startMyftpClient config c (.datagram source (dataPacket order file k)) =
      accept config { c with servaddr := source, timeoutFirstNum := 0, timeoutNum := 0 }
        (min (dataPacket order file k).length maxFilePacketSize)
        (filePacketOf (dataPacket order file k)) := by
    simp only [startMyftpClient, hpc, transmission, if_neg hnonempty, hdecodes.cksum,
      hdecodes.opcode, hdecodes.block_eq, hblock, ne_eq, not_true_eq_false, and_false, and_self,
      if_false, if_true]
  have hwritten : c.written ++ chunk file k = firstChunks file (k + 1) := by
    rw [firstChunks_succ, h.written_eq]
  simp only [hstep, accept, if_neg hlong, hdecodes.writeBytes, hdecodes.data, hdecodes.block_eq,
    hwritten]
  rcases Nat.lt_or_eq_of_le hk with hlt | rfl
  · -- a full chunk: the client waits for the next one
    have hfull : ¬ (chunk file k).length < mfMaxData := by
      rw [length_chunk_of_lt hlt]
      exact Nat.lt_irrefl _
    rw [if_neg hfull, if_neg (Nat.ne_of_lt hlt), if_neg (Nat.ne_of_lt hlt)]
    refine ⟨_, rfl, ⟨rfl, fun _ => ⟨hlt, clientBlock_succ k⟩, fun hfin => ?_, h.not_overrun⟩,
      rfl, hpc⟩
    exact absurd (hpc.symm.trans hfin) (by simp)
  · -- the short chunk ends the transfer
    rw [if_pos (length_chunk_last file), if_pos rfl, if_pos rfl]
    exact ⟨_, rfl, ⟨rfl, fun hrec => by simp at hrec, fun _ => rfl, by simp⟩, rfl, rfl⟩

/-- The packet of a chunk before: acknowledged again, and nothing written. -/
theorem Accepted.receives_again (h : Accepted file c k) (hpc : c.pc = .receiving) (source : Addr)
    (order : ByteOrder) {j : ℕ} (hnumber : blockNumber j ≠ blockNumber k) :
    startMyftpClient config c (.datagram source (dataPacket order file j)) =
      ({ c with servaddr := source, timeoutFirstNum := 0, timeoutNum := 0 },
        [⟨source, answer config Opcode.ack (blockNumber j)⟩]) := by
  obtain ⟨-, hblock⟩ := h.receiving hpc
  have hdecodes := @decodes_dataPacket config order file j
  have hnonempty : (dataPacket order file j).length ≠ 0 := by
    rw [length_dataPacket]
    omega
  have hother : mfBlock (filePacketOf (dataPacket order file j)) ≠ c.block + 1 := by
    rw [hdecodes.block_eq, hblock]
    exact hnumber
  simp only [startMyftpClient, hpc, transmission, if_neg hnonempty, hdecodes.cksum,
    hdecodes.opcode, hdecodes.block_eq, hblock, hnumber, ne_eq, not_true_eq_false, not_false_eq_true,
    and_self, if_false, if_true]

end Client

/-! ## The pair -/

namespace Pair

variable (config : PairConfig)

/-- The request of the client. -/
def request : Datagram :=
  ⟨config.clientAddr, config.serverAddr,
    frqPacket config.client.order config.client.filename, none⟩

/-- The packet of chunk `i`. -/
def dataOf (i : ℕ) : Datagram :=
  ⟨config.serverAddr, config.clientAddr,
    dataPacket config.server.order config.server.file i, some i⟩

/-- The client's acknowledgement of chunk `i`. -/
def ackOf (i : ℕ) : Datagram :=
  ⟨config.clientAddr, config.serverAddr, Client.answer config.client Opcode.ack
    (if i = lastChunk config.server.file then 0 else blockNumber i), some i⟩

/-- Both parties know that the file has arrived. -/
structure Completed (s : Pair) : Prop where
  finished : s.client.pc = .finished
  written : s.client.written = config.server.file
  returned : s.server.pc = .returned

/-- The server waits for the acknowledgement of chunk `n`, and the client, which has accepted `k`
chunks, receives. -/
structure Underway (n k : ℕ) (s : Pair) : Prop where
  sending : s.server.Sending config.server
  chunk_eq : s.server.chunk = n
  clientaddr : s.server.clientaddr = config.clientAddr
  receiving : s.client.pc = .receiving
  servaddr : s.client.servaddr = config.serverAddr
  accepted : s.client.Accepted config.server.file k
  le : n ≤ k
  near : k ≤ n + 1

end Pair

section Exchange

variable {config : PairConfig} {s : Pair} {n k : ℕ}

open Pair

theorem PairInv.underway (h : PairInv config s k) (hwait : s.server.pc = .waitAck)
    (hreceiving : s.client.pc = .receiving) : Underway config s.server.chunk k s where
  sending := (h.serves.sending hwait).1
  chunk_eq := rfl
  clientaddr := (h.serves.sending hwait).2
  receiving := hreceiving
  servaddr := h.servaddr
  accepted := h.accepted
  le := h.serves.chunk_le
  near := h.le_chunk

/-- The chunk underway is not past the end, and the client is behind the server only by none. -/
theorem Pair.Underway.le_last (h : Underway config n k s) :
    n ≤ lastChunk config.server.file ∧ k ≤ lastChunk config.server.file :=
  ⟨h.chunk_eq ▸ h.sending.chunk_le, (h.accepted.receiving h.receiving).1⟩

/-- The acknowledgement of the datagram about chunk `i` is about chunk `i`. -/
theorem aboutOfAnswer_ack (client : ClientConfig) (i block : ℕ) :
    aboutOfAnswer (some i) (Client.answer client Opcode.ack block) = some i :=
  if_pos (mfOpcode_answer block (by decide))

/-! ### Delivering one datagram -/

/-- **The packet of the current chunk** brings the client past it, and is acknowledged. -/
theorem Pair.Underway.deliverData (h : Underway config n k s) (hd : dataOf config n ∈ s.net) :
    ∃ s', s.step config (.toClient (dataOf config n)) = some s' ∧ s'.server = s.server ∧
      s'.net = s.net ++ [ackOf config n] ∧ s'.client.Accepted config.server.file (n + 1) ∧
      s'.client.servaddr = config.serverAddr ∧
      s'.client.pc = if n = lastChunk config.server.file then .finished else .receiving := by
  have hstep : s.step config (.toClient (dataOf config n)) =
      some (s.clientStep config (some n) (.datagram config.serverAddr
        (dataPacket config.server.order config.server.file n))) :=
    if_pos ⟨h.receiving, hd, rfl⟩
  refine ⟨_, hstep, rfl, ?_⟩
  obtain ⟨-, hk⟩ := h.le_last
  rcases Nat.lt_or_eq_of_le h.le with hlt | rfl
  · -- the client has it already, and says so again
    obtain rfl : k = n + 1 := Nat.le_antisymm h.near hlt
    have hlast : n ≠ lastChunk config.server.file := by omega
    have hnumber := blockNumber_ne (Nat.lt_succ_self n) (by omega)
    simp only [clientStep, h.accepted.receives_again h.receiving config.serverAddr _ hnumber,
      List.map_singleton, aboutOfAnswer_ack, ackOf, if_neg hlast]
    exact ⟨trivial, h.accepted.congr _ _ _, trivial, h.receiving⟩
  · obtain ⟨c', hc', haccepted, hservaddr, hpc⟩ := @Client.Accepted.receives config.client
      config.server.file s.client n h.accepted h.receiving config.serverAddr config.server.order
    simp only [clientStep, hc', List.map_singleton, aboutOfAnswer_ack]
    exact ⟨rfl, haccepted, hservaddr, hpc⟩

/-- **The acknowledgement of the current chunk** brings the server to the next one. -/
theorem deliverAck (hsending : s.server.Sending config.server) (hchunk : s.server.chunk = n)
    (hlt : n < lastChunk config.server.file) (hd : ackOf config n ∈ s.net) :
    ∃ s', s.step config (.toServer (ackOf config n)) = some s' ∧ s'.client = s.client ∧
      s'.net = s.net ++ [dataOf config (n + 1)] ∧ s'.server.Sending config.server ∧
      s'.server.chunk = n + 1 ∧ s'.server.clientaddr = config.clientAddr ∧
      s'.server.timeoutNum = 0 := by
  subst hchunk
  have hstep : s.step config (.toServer (ackOf config s.server.chunk)) =
      some (s.serverStep config (.datagram config.clientAddr (ackOf config s.server.chunk).bytes)) :=
    if_pos ⟨.inr hsending.pc_eq, hd, rfl⟩
  refine ⟨_, hstep, rfl, ?_⟩
  obtain ⟨server, hserver, hnext, hmoved, haddr, hzero⟩ :=
    hsending.acknowledged hlt config.client config.clientAddr
  simp only [serverStep, ackOf, if_neg (Nat.ne_of_lt hlt), hserver, List.map_singleton, hmoved,
    Server.dataTo]
  exact ⟨rfl, hnext, trivial, haddr, hzero⟩

/-- **The acknowledgement of the last chunk** brings the server to its end. -/
theorem deliverLastAck (hsending : s.server.Sending config.server)
    (hd : ackOf config (lastChunk config.server.file) ∈ s.net) :
    ∃ s', s.step config (.toServer (ackOf config (lastChunk config.server.file))) = some s' ∧
      s'.client = s.client ∧ s'.net = s.net ∧ s'.server.pc = .returned := by
  have hstep : s.step config (.toServer (ackOf config (lastChunk config.server.file))) =
      some (s.serverStep config (.datagram config.clientAddr
        (ackOf config (lastChunk config.server.file)).bytes)) :=
    if_pos ⟨.inr hsending.pc_eq, hd, rfl⟩
  refine ⟨_, hstep, rfl, ?_⟩
  obtain ⟨server, hserver, hreturned⟩ := hsending.finished config.client config.clientAddr
  simp only [serverStep, ackOf, if_true, hserver, List.map_nil, List.append_nil]
  exact ⟨trivial, hreturned⟩

/-- **A timeout of the server** sends the packet of the current chunk again. -/
theorem Pair.Underway.resends (h : Underway config n k s) (hleft : s.server.timeoutNum ≤ 10) :
    ∃ s', s.step config .serverTimeout = some s' ∧ Underway config n k s' ∧
      s'.net = s.net ++ [dataOf config n] ∧
      s'.server.timeoutNum = s.server.timeoutNum + 1 := by
  have hstep : s.step config .serverTimeout = some (s.serverStep config .timeout) :=
    if_pos (.inr h.sending.pc_eq)
  refine ⟨_, hstep, ?_⟩
  have hsending := h.sending.congr s.server.clientaddr (s.server.timeoutNum + 1) s.server.ackPacket
  have hnet : (⟨config.serverAddr, s.server.clientaddr,
      dataPacket config.server.order config.server.file s.server.chunk,
      some s.server.chunk⟩ : Datagram) = dataOf config n := by
    rw [h.clientaddr, h.chunk_eq, dataOf]
  simp only [serverStep, h.sending.timeout hleft, List.map_singleton, Server.dataTo, hnet]
  exact ⟨⟨hsending, h.chunk_eq, h.clientaddr, h.receiving, h.servaddr, h.accepted, h.le, h.near⟩,
    trivial, trivial⟩

/-! ### The exchange -/

variable (config) in
/-- The packet of the current chunk is delivered, and its acknowledgement. -/
def exchange (n : ℕ) : List PairAction :=
  [.toClient (dataOf config n), .toServer (ackOf config n)]

variable (config) in
/-- What the acknowledgement of chunk `n` makes the server send. -/
def nextData (n : ℕ) : List Datagram :=
  if n < lastChunk config.server.file then [dataOf config (n + 1)] else []

/-- **One exchange** brings both parties to the next chunk, or the last one to the end. -/
theorem Pair.Underway.exchanged (h : Underway config n k s) (hd : dataOf config n ∈ s.net) :
    ∃ s', (pairSystem config).run s (exchange config n) = some s' ∧
      s'.net = s.net ++ ackOf config n :: nextData config n ∧
      (n < lastChunk config.server.file →
        Underway config (n + 1) (n + 1) s' ∧ s'.server.timeoutNum = 0) ∧
      (n = lastChunk config.server.file → Completed config s') := by
  obtain ⟨middle, hfirst, hserver, hnet, haccepted, hservaddr, hpc⟩ := h.deliverData hd
  have hsending : middle.server.Sending config.server := hserver ▸ h.sending
  have hack : ackOf config n ∈ middle.net := by simp [hnet]
  rcases Nat.lt_or_eq_of_le h.le_last.1 with hlt | rfl
  · rw [if_neg (Nat.ne_of_lt hlt)] at hpc
    obtain ⟨s', hsecond, hclient, hnet', hsending', hchunk, haddr, hzero⟩ :=
      deliverAck hsending (by rw [hserver, h.chunk_eq]) hlt hack
    refine ⟨s', TransitionSystem.run_cons.mpr ⟨middle, hfirst,
      TransitionSystem.run_cons.mpr ⟨s', hsecond, rfl⟩⟩, ?_, fun _ => ⟨?_, hzero⟩, fun heq => ?_⟩
    · rw [hnet', hnet, nextData, if_pos hlt, List.append_assoc]
      rfl
    · rw [← hclient] at hpc hservaddr haccepted
      exact ⟨hsending', hchunk, haddr, hpc, hservaddr, haccepted, Nat.le_refl _, Nat.le_succ _⟩
    · exact absurd heq (Nat.ne_of_lt hlt)
  · rw [if_pos rfl] at hpc
    obtain ⟨s', hsecond, hclient, hnet', hreturned⟩ := deliverLastAck hsending hack
    refine ⟨s', TransitionSystem.run_cons.mpr ⟨middle, hfirst,
      TransitionSystem.run_cons.mpr ⟨s', hsecond, rfl⟩⟩, ?_, fun hlt => ?_, fun _ => ?_⟩
    · rw [hnet', hnet, nextData, if_neg (Nat.lt_irrefl _)]
    · exact absurd hlt (Nat.lt_irrefl _)
    · rw [← hclient] at hpc haccepted
      exact ⟨hpc, haccepted.written_of_finished hpc, hreturned⟩

/-- The first step of a transfer: the request is taken and the first chunk sent. -/
theorem deliverRequest (hname : config.client.filename = config.server.filename)
    (hpc : s.server.pc = .waitFrq) (hreceiving : s.client.pc = .receiving)
    (hservaddr : s.client.servaddr = config.serverAddr)
    (haccepted : s.client.Accepted config.server.file 0) (hd : request config ∈ s.net) :
    ∃ s', s.step config (.toServer (request config)) = some s' ∧
      s'.net = s.net ++ [dataOf config 0] ∧ Underway config 0 0 s' ∧
      s'.server.timeoutNum = 0 := by
  have hstep : s.step config (.toServer (request config)) =
      some (s.serverStep config (.datagram config.clientAddr (request config).bytes)) :=
    if_pos ⟨.inl hpc, hd, rfl⟩
  refine ⟨_, hstep, ?_⟩
  have hlength := length_frqPacket config.client.order config.client.filename
  have hnonempty : (frqPacket config.client.order config.client.filename).length ≠ 0 := by
    rw [hlength, FileName.frqSize]
    omega
  have hbuffer := (Buffer.zero config.server.filename.frqSize).recvfrom_bytes_of_length_eq
    (hlength.trans (congrArg FileName.frqSize hname))
  obtain ⟨hsending, hout⟩ := @Server.sending_sendChunk config.server
    { s.server with
      clientaddr := config.clientAddr, block := 1, chunk := 0, fin := config.server.file }
    (Nat.zero_le _) rfl rfl
  have hserver : startMyftpServer config.server s.server
      (.datagram config.clientAddr (request config).bytes) =
        Server.sendChunk config.server { s.server with
          clientaddr := config.clientAddr, block := 1, chunk := 0, fin := config.server.file } := by
    simp only [startMyftpServer, hpc, Server.waitFrq, request, if_neg hnonempty, hbuffer,
      inCksum_frqPacket, ne_eq, not_true_eq_false, if_false]
  simp only [serverStep, hserver, hout, List.map_singleton, Server.dataTo]
  exact ⟨rfl, ⟨hsending, rfl, rfl, hreceiving, hservaddr, haccepted, Nat.le_refl _,
    Nat.zero_le _⟩, rfl⟩

end Exchange

end NetworkHomework.Ftp
