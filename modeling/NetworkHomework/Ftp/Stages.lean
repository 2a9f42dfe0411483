import NetworkHomework.Ftp.Timers

/-!
# The stages of a transfer

By the clock the client always times out before the server, and its message makes the
server wait anew.  So a loss is made up for if the message of the client makes up for it: a
lost request, and a lost packet of a chunk behind the first, as often as the client may
time out.  As long as nothing else is lost there is at most one datagram in flight, and the
stages of a transfer come in turn, each step bringing the end nearer.
-/

namespace NetworkHomework.Ftp

open TransitionSystem Pair

/-! ## The server and the message of the client -/

namespace Server

variable {config : ServerConfig} {s : Server}

/-- A message that is not an acknowledgement has been received from `source`. -/
def heardFrom (s : Server) (source : Addr) (bytes : List UInt8) : Server :=
  { s with clientaddr := source, timeoutNum := 0, ackPacket := s.ackPacket.recvfrom bytes }

theorem Sending.heardFrom (h : Sending config s) (source : Addr) (bytes : List UInt8) :
    Sending config (s.heardFrom source bytes) :=
  h.congr source 0 (s.ackPacket.recvfrom bytes)

/-- The request again: ignored. -/
theorem Sending.request (h : Sending config s) (source : Addr) (order : ByteOrder)
    (name : FileName) : startMyftpServer config s (.datagram source (frqPacket order name)) =
      (s.heardFrom source (frqPacket order name), []) := by
  have hnonempty : (frqPacket order name).length ≠ 0 := by
    rw [length_frqPacket, FileName.frqSize]
    omega
  rw [startMyftpServer_waitAck h.pc_eq]
  simp only [Server.waitAck, if_neg hnonempty, mfOpcode_recvfrom_frqPacket, if_true]
  rfl

/-- An ERROR: answered with the current packet if it names the block before the current one. -/
theorem Sending.error (h : Sending config s) (source : Addr) (client : ClientConfig) {block : ℕ}
    (hblock : block < 2 ^ 16) :
    startMyftpServer config s (.datagram source (Client.answer client Opcode.error block)) =
      (s.heardFrom source (Client.answer client Opcode.error block),
        if block = s.block - 1 then [dataTo config source s.chunk] else []) := by
  have hnonempty : (Client.answer client Opcode.error block).length ≠ 0 := by
    rw [length_answer]
    decide
  have hopcode : mfOpcode (Client.answer client Opcode.error block) = Opcode.error :=
    mfOpcode_answer block (by decide)
  have hfrq : ¬ Opcode.error = Opcode.frq := by decide
  have hresend := (h.heardFrom source (Client.answer client Opcode.error block)).resend
  have hround : startMyftpServer config s
      (.datagram source (Client.answer client Opcode.error block)) =
        if block = s.block - 1 then
          Server.resend config (s.heardFrom source (Client.answer client Opcode.error block))
        else (s.heardFrom source (Client.answer client Opcode.error block), []) := by
    rw [startMyftpServer_waitAck h.pc_eq]
    simp only [Server.waitAck, recvfrom_answer, hopcode, mfBlock_answer Opcode.error hblock,
      if_neg hnonempty, if_neg hfrq, if_true]
    rfl
  rw [hround, hresend]
  split_ifs <;> rfl

end Server

variable {config : PairConfig} {p : Pair} {n k : ℕ}

/-- The message of the client arrives. -/
theorem Pair.Underway.retried (h : Underway config n k p) (hd : retryOf config k ∈ p.net) :
    ∃ p', p.step config (.toServer (retryOf config k)) = some p' ∧ p'.client = p.client ∧
      Underway config n k p' ∧
      p'.net = p.net ++ if 0 < n ∧ k = n then [dataOf config n] else [] := by
  have hstep : p.step config (.toServer (retryOf config k)) =
      some (p.serverStep config (.datagram config.clientAddr (retryOf config k).bytes)) :=
    if_pos ⟨.inr h.sending.pc_eq, hd, rfl⟩
  refine ⟨_, hstep, rfl, ?_⟩
  have hserver : startMyftpServer config.server p.server
      (.datagram config.clientAddr (retryOf config k).bytes) =
        (p.server.heardFrom config.clientAddr (retryOf config k).bytes,
          if 0 < n ∧ k = n then [Server.dataTo config.server config.clientAddr n] else []) := by
    unfold retryOf
    by_cases hk : k = 0
    · have hnot : ¬ (0 < n ∧ k = n) := by omega
      simp only [if_pos hk, if_neg hnot]
      exact h.sending.request _ _ _
    · have hlt := blockNumber_lt k
      have hcurrent : blockNumber k - 1 = p.server.block - 1 ↔ 0 < n ∧ k = n := by
        have hpos := blockNumber_pos k
        have hpos' := blockNumber_pos n
        rw [h.sending.block_eq, h.chunk_eq]
        constructor
        · intro heq
          have hnumber : blockNumber n = blockNumber k := by omega
          rcases Nat.lt_or_eq_of_le h.le with hnk | hnk
          · have hnear := h.near
            exact absurd hnumber (blockNumber_ne hnk (by omega))
          · omega
        · rintro ⟨-, rfl⟩
          rfl
      simp only [if_neg hk]
      rw [h.sending.error _ _ (by omega), h.chunk_eq]
      simp only [hcurrent]
  have hsending := h.sending.heardFrom config.clientAddr (retryOf config k).bytes
  simp only [serverStep, hserver]
  refine ⟨⟨hsending, h.chunk_eq, rfl, h.receiving, h.servaddr, h.accepted, h.le, h.near⟩, ?_⟩
  have hchunk : (p.server.heardFrom config.clientAddr (retryOf config k).bytes).chunk = n :=
    h.chunk_eq
  rw [hchunk]
  split_ifs <;> rfl

/-- A timeout of a process that waits for the request. -/
theorem serverTimeout_waitFrq (hpc : p.server.pc = .waitFrq) (hleft : p.server.timeoutNum ≤ 10) :
    ∃ p', p.step config .serverTimeout = some p' ∧ p'.client = p.client ∧ p'.net = p.net ∧
      p'.server.pc = .waitFrq ∧ p'.server.timeoutNum = p.server.timeoutNum + 1 := by
  have hstep : p.step config .serverTimeout = some (p.serverStep config .timeout) :=
    if_pos (.inl hpc)
  refine ⟨_, hstep, rfl, ?_⟩
  rw [serverStep, Server.startMyftpServer_waitFrq hpc, Server.waitFrq, if_neg (Nat.not_lt.mpr hleft)]
  exact ⟨List.append_nil _, hpc, rfl⟩

/-! ## The stages of a transfer -/

def TimedAction.Lossless (a : TimedAction) : Prop := ∀ i, a.event ≠ .lose i

/-- Only requests and packets of chunks behind the first are lost, and only while the next timeout
of the client does not make it give up. -/
def Spared (config : PairConfig) (s : Timed) (a : TimedAction) : Prop :=
  match a.event with
  | .lose i => ∀ f ∈ s.flying[i]?, s.pair.client.MayRetry ∧ (f.datagram = request config ∨
      ∃ n ∈ f.datagram.about, 0 < n ∧ f.datagram = dataOf config n)
  | .serverTimeout | .clientTimeout | .deliver _ => True

instance (config : PairConfig) (s : Timed) (a : TimedAction) : Decidable (Spared config s a) := by
  unfold Spared
  split <;> infer_instance

theorem Spared.lost {config : PairConfig} {s : Timed} {a : TimedAction} {i : ℕ} {f : Flight}
    (h : Spared config s a) (hevent : a.event = .lose i) (hf : s.flying[i]? = some f) :
    s.pair.client.MayRetry ∧ (f.datagram = request config ∨
      ∃ n ∈ f.datagram.about, 0 < n ∧ f.datagram = dataOf config n) := by
  unfold Spared at h
  rw [hevent] at h
  exact h f hf

namespace Timed

/-- The request is on its way, or lost. -/
structure Requesting (config : PairConfig) (first : ℕ) (s : Timed) : Prop where
  waiting : s.pair.server.pc = .waitFrq
  receiving : s.pair.client.pc = .receiving
  servaddr : s.pair.client.servaddr = config.serverAddr
  accepted : s.pair.client.Accepted config.server.file 0
  net : request config ∈ s.pair.net
  serverSince : s.serverSince = serverTimeval * s.pair.server.timeoutNum
  clientSince : s.clientSince = first + clientTimeval * s.pair.client.timeouts
  le_now : s.clientSince ≤ s.now
  timeouts : s.pair.client.timeouts ≤ 11
  flying : s.flying = [⟨request config, s.clientSince⟩] ∨
    s.flying = [] ∧ s.pair.client.MayRetry

/-- The packet of chunk `n` is on its way, or lost. -/
structure Delivering (config : PairConfig) (latency n : ℕ) (s : Timed) : Prop where
  underway : Underway config n n s.pair
  net : dataOf config n ∈ s.pair.net
  since : s.clientSince ≤ s.serverSince ∧ s.serverSince ≤ s.clientSince + latency
  le_now : s.serverSince ≤ s.now
  flying : s.flying = [⟨dataOf config n, s.serverSince⟩] ∨
    s.flying = [] ∧ 0 < n ∧ s.pair.client.MayRetry

/-- The packet of chunk `n` was lost, and the message of the client is on its way. -/
structure Retrying (config : PairConfig) (n : ℕ) (s : Timed) : Prop where
  pos : 0 < n
  underway : Underway config n n s.pair
  net : retryOf config n ∈ s.pair.net
  since : s.serverSince ≤ s.clientSince ∧ s.clientSince ≤ s.serverSince + clientTimeval
  le_now : s.clientSince ≤ s.now
  flying : s.flying = [⟨retryOf config n, s.clientSince⟩]

/-- The acknowledgement of chunk `n` is on its way, which is not the last one. -/
structure Acking (config : PairConfig) (latency n : ℕ) (s : Timed) : Prop where
  lt : n < lastChunk config.server.file
  underway : Underway config n (n + 1) s.pair
  net : ackOf config n ∈ s.pair.net
  since : s.serverSince ≤ s.clientSince ∧ s.clientSince ≤ s.serverSince + latency
  le_now : s.clientSince ≤ s.now
  flying : s.flying = [⟨ackOf config n, s.clientSince⟩]

/-- The last acknowledgement is on its way. -/
structure Finishing (config : PairConfig) (latency : ℕ) (s : Timed) : Prop where
  sending : s.pair.server.Sending config.server
  finished : s.pair.client.pc = .finished
  written : s.pair.client.written = config.server.file
  net : ackOf config (lastChunk config.server.file) ∈ s.pair.net
  since : s.clientSince ≤ s.serverSince + latency
  flying : s.flying = [⟨ackOf config (lastChunk config.server.file), s.clientSince⟩]

/-- The stages, with a bound on the number of steps to the end. -/
inductive Stage (config : PairConfig) (latency first : ℕ) : ℕ → Timed → Prop
  | requesting {s : Timed} (h : Requesting config first s) :
      Stage config latency first (100 * (lastChunk config.server.file + 2) +
        3 * (11 - s.pair.client.timeouts) + 2 * (11 - s.pair.server.timeoutNum) +
        s.flying.length) s
  | delivering {n : ℕ} {s : Timed} (h : Delivering config latency n s) :
      Stage config latency first (100 * (lastChunk config.server.file - n) +
        4 * (11 - s.pair.client.timeouts) + s.flying.length + 12) s
  | retrying {n : ℕ} {s : Timed} (h : Retrying config n s) :
      Stage config latency first (100 * (lastChunk config.server.file - n) +
        4 * (11 - s.pair.client.timeouts) + 14) s
  | acking {n : ℕ} {s : Timed} (h : Acking config latency n s) :
      Stage config latency first (100 * (lastChunk config.server.file - n) + 5) s
  | finishing {s : Timed} (h : Finishing config latency s) : Stage config latency first 1 s
  | completed {s : Timed} (h : Completed config s.pair) (hflying : s.flying = []) :
      Stage config latency first 0 s

variable {latency first time : ℕ} {s s' : Timed} {a : TimedAction} {pair : Pair}

/-! ### The request -/

theorem requesting_start (clientaddr : Addr) (garbage : Buffer 6) (first : ℕ) :
    Requesting config first (Timed.start config clientaddr garbage first) where
  waiting := rfl
  receiving := rfl
  servaddr := rfl
  accepted := Client.accepted_start _ _
  net := List.mem_singleton_self _
  serverSince := rfl
  clientSince := rfl
  le_now := Nat.le_refl _
  timeouts := Nat.zero_le _
  flying := .inl rfl

theorem Requesting.one (h : Requesting config first s) :
    s.flying = [⟨request config, s.clientSince⟩] ∨ s.flying = [] :=
  h.flying.imp_right And.left

/-- The client gives up before the process does. -/
theorem Requesting.timeoutNum_le (h : Requesting config first s) (hfirst : first ≤ serverTimeval)
    (hontime : s.OnTime latency time) (htime : time = s.serverSince + serverTimeval) :
    s.pair.server.timeoutNum ≤ 10 := by
  have hclient := hontime.client h.receiving
  have hsince := h.serverSince
  have hsince' := h.clientSince
  have htimeouts := h.timeouts
  simp only [serverTimeval, clientTimeval] at *
  omega

theorem Requesting.serverTimeout (h : Requesting config first s)
    (hleft : s.pair.server.timeoutNum ≤ 10) (hontime : s.OnTime latency time)
    (htime : time = s.serverSince + serverTimeval)
    (hpair : s.pair.step config .serverTimeout = some pair) :
    Requesting config first (s.serverMoves time pair) ∧
      (s.serverMoves time pair).flying = s.flying ∧ pair.client = s.pair.client ∧
      pair.server.timeoutNum = s.pair.server.timeoutNum + 1 := by
  obtain ⟨other, hother, hsame, hnet, hwaiting, hcount⟩ :=
    @serverTimeout_waitFrq config s.pair h.waiting hleft
  obtain rfl := Option.some.inj (hother.symm.trans hpair)
  have hflying : (s.serverMoves time other).flying = s.flying := by
    rw [@flying_serverMoves s other [] (hnet.trans (List.append_nil _).symm)]
    exact List.append_nil _
  refine ⟨⟨hwaiting, hsame ▸ h.receiving, hsame ▸ h.servaddr, hsame ▸ h.accepted, hnet ▸ h.net,
    ?_, ?_, h.le_now.trans hontime.now_le, hsame ▸ h.timeouts, ?_⟩, hflying, hsame, hcount⟩
  · calc
      time = serverTimeval * s.pair.server.timeoutNum + serverTimeval :=
        htime.trans (h.serverSince ▸ rfl)
      _ = serverTimeval * other.server.timeoutNum := by rw [hcount, Nat.mul_succ]
  · exact hsame ▸ h.clientSince
  · rw [hflying]
    exact hsame ▸ h.flying

/-- When the client times out, nothing is in flight any more. -/
theorem flying_of_clientTimeout {d : Datagram} (hlatency : 2 * latency < clientTimeval)
    (hontime : s.OnTime latency time) (htime : time = s.clientSince + clientTimeval)
    (hsince : ∃ since ≤ s.clientSince + latency, s.flying = [⟨d, since⟩] ∨ s.flying = []) :
    s.flying = [] := by
  obtain ⟨since, hle, hflying | hflying⟩ := hsince
  · have hlate := hontime.flying ⟨d, since⟩ (hflying ▸ List.mem_singleton_self _)
    dsimp only at hlate
    omega
  · exact hflying

theorem Requesting.clientTimeout (h : Requesting config first s)
    (hretry : s.pair.client.MayRetry) (hflying : s.flying = [])
    (htime : time = s.clientSince + clientTimeval)
    (hpair : s.pair.step config .clientTimeout = some pair) :
    Requesting config first (s.clientMoves time pair) ∧
      (s.clientMoves time pair).flying.length = 1 ∧ pair.server = s.pair.server ∧
      pair.client.timeouts = s.pair.client.timeouts + 1 := by
  obtain ⟨other, hother, hserver, haccepted, hreceiving, hservaddr, hcount, hnet⟩ :=
    clientTimeout_of_mayRetry h.accepted h.receiving h.servaddr hretry
  obtain rfl := Option.some.inj (hother.symm.trans hpair)
  have hflying' := flying_clientMoves hnet time
  rw [hflying, List.nil_append, List.map_singleton] at hflying'
  rw [Client.mayRetry_iff] at hretry
  refine ⟨⟨hserver ▸ h.waiting, hreceiving, hservaddr, haccepted,
    hnet ▸ List.mem_append_left _ h.net, hserver ▸ h.serverSince, ?_, Nat.le_refl _, ?_,
    .inl hflying'⟩, ?_, hserver, hcount⟩
  · calc
      time = first + clientTimeval * s.pair.client.timeouts + clientTimeval :=
        htime.trans (h.clientSince ▸ rfl)
      _ = first + clientTimeval * other.client.timeouts := by
        rw [hcount, Nat.mul_succ, Nat.add_assoc]
  · show other.client.timeouts ≤ 11
    omega
  · rw [hflying']
    rfl

theorem Requesting.arrives (h : Requesting config first s)
    (hname : config.client.filename = config.server.filename) (hontime : s.OnTime latency time)
    (hflying : s.flying = [⟨request config, s.clientSince⟩]) :
    Delivering config latency 0
      (arrive config { s with flying := [] } time (request config)) := by
  have hlate := hontime.flying _ (hflying ▸ List.mem_singleton_self _)
  obtain ⟨other, hother, hnet, hunderway, -⟩ :=
    deliverRequest hname h.waiting h.receiving h.servaddr h.accepted h.net
  rw [arrive_toServer rfl hother hnet]
  refine ⟨hunderway, ?_, ⟨h.le_now.trans hontime.now_le, hlate⟩, Nat.le_refl _, .inl rfl⟩
  exact hnet ▸ List.mem_append_right _ (List.mem_singleton_self _)

theorem Requesting.loses (h : Requesting config first s) (hontime : s.OnTime latency time)
    (hretry : s.pair.client.MayRetry) :
    Requesting config first { s with now := time, flying := [] } :=
  ⟨h.waiting, h.receiving, h.servaddr, h.accepted, h.net, h.serverSince, h.clientSince,
    h.le_now.trans hontime.now_le, h.timeouts, .inr ⟨rfl, hretry⟩⟩

/-! ### The packet of a chunk -/

variable {n : ℕ}

theorem Delivering.one (h : Delivering config latency n s) :
    s.flying = [⟨dataOf config n, s.serverSince⟩] ∨ s.flying = [] :=
  h.flying.imp_right And.left

theorem Delivering.length_flying_le (h : Delivering config latency n s) : s.flying.length ≤ 1 := by
  rcases h.one with hone | hnone
  · rw [hone]
    rfl
  · rw [hnone]
    exact Nat.zero_le _

theorem Delivering.not_serverTimeout (h : Delivering config latency n s)
    (hontime : s.OnTime latency time) (htime : time = s.serverSince + serverTimeval) : False := by
  have hclient := hontime.client h.underway.receiving
  obtain ⟨hsince, -⟩ := h.since
  simp only [serverTimeval, clientTimeval] at *
  omega

/-- A client that times out in the middle of the file sends its message. -/
theorem underway_clientTimeout {k : ℕ} (h : Underway config n k s.pair)
    (hretry : s.pair.client.MayRetry) (hflying : s.flying = [])
    (hpair : s.pair.step config .clientTimeout = some pair) :
    Underway config n k pair ∧ retryOf config k ∈ pair.net ∧
      (s.clientMoves time pair).flying = [⟨retryOf config k, time⟩] ∧
      pair.client.timeouts = s.pair.client.timeouts + 1 ∧ s.pair.client.timeouts ≤ 10 := by
  obtain ⟨other, hother, hserver, haccepted, hreceiving, hservaddr, hcount, hnet⟩ :=
    clientTimeout_of_mayRetry h.accepted h.receiving h.servaddr hretry
  obtain rfl := Option.some.inj (hother.symm.trans hpair)
  refine ⟨⟨hserver ▸ h.sending, hserver ▸ h.chunk_eq, hserver ▸ h.clientaddr, hreceiving,
    hservaddr, haccepted, h.le, h.near⟩, ?_, ?_, hcount, Client.mayRetry_iff.mp hretry⟩
  · exact hnet ▸ List.mem_append_right _ (List.mem_singleton_self _)
  · rw [flying_clientMoves hnet time, hflying]
    rfl

theorem Delivering.clientTimeout (h : Delivering config latency n s) (hpos : 0 < n)
    (hretry : s.pair.client.MayRetry) (hflying : s.flying = [])
    (hlatency : 2 * latency < clientTimeval) (htime : time = s.clientSince + clientTimeval)
    (hpair : s.pair.step config .clientTimeout = some pair) :
    Retrying config n (s.clientMoves time pair) ∧
      pair.client.timeouts = s.pair.client.timeouts + 1 ∧ s.pair.client.timeouts ≤ 10 := by
  obtain ⟨hunderway, hnet, hflying', hcount⟩ := underway_clientTimeout h.underway hretry hflying
    hpair
  obtain ⟨hsince, hsince'⟩ := h.since
  refine ⟨⟨hpos, hunderway, hnet, ⟨?_, ?_⟩, Nat.le_refl _, hflying'⟩, hcount⟩
  · show s.serverSince ≤ time
    omega
  · show time ≤ s.serverSince + clientTimeval
    omega

theorem Delivering.loses (h : Delivering config latency n s) (hontime : s.OnTime latency time)
    (hpos : 0 < n) (hretry : s.pair.client.MayRetry) :
    Delivering config latency n { s with now := time, flying := [] } :=
  ⟨h.underway, h.net, h.since, h.le_now.trans hontime.now_le, .inr ⟨rfl, hpos, hretry⟩⟩

/-- The packet arrives, and the client acknowledges it. -/
theorem Delivering.arrives (h : Delivering config latency n s) (hontime : s.OnTime latency time)
    (hflying : s.flying = [⟨dataOf config n, s.serverSince⟩]) :
    Acking config latency n (arrive config { s with flying := [] } time (dataOf config n)) ∨
      Finishing config latency
        (arrive config { s with flying := [] } time (dataOf config n)) := by
  have hunderway := h.underway
  have hlate := hontime.flying _ (hflying ▸ List.mem_singleton_self _)
  have hnow := h.le_now.trans hontime.now_le
  obtain ⟨other, hother, hserver, hnet, haccepted, hservaddr, hpc⟩ := hunderway.deliverData h.net
  have hmem : ackOf config n ∈ other.net :=
    hnet ▸ List.mem_append_right _ (List.mem_singleton_self _)
  rw [arrive_toClient rfl hother hnet]
  rcases Nat.lt_or_eq_of_le hunderway.le_last.1 with hlt | rfl
  · rw [if_neg (Nat.ne_of_lt hlt)] at hpc
    refine .inl ⟨hlt, ⟨hserver ▸ hunderway.sending, hserver ▸ hunderway.chunk_eq,
      hserver ▸ hunderway.clientaddr, hpc, hservaddr, haccepted, Nat.le_succ _, Nat.le_refl _⟩,
      hmem, ⟨hnow, hlate⟩, Nat.le_refl _, rfl⟩
  · rw [if_pos rfl] at hpc
    exact .inr ⟨hserver ▸ hunderway.sending, hpc, haccepted.written_of_finished hpc, hmem, hlate,
      rfl⟩

/-! ### The message of the client -/

theorem Retrying.arrives (h : Retrying config n s) (hontime : s.OnTime latency time) :
    Delivering config latency n
        (arrive config { s with flying := [] } time (retryOf config n)) ∧
      (arrive config { s with flying := [] } time (retryOf config n)).flying.length = 1 ∧
      (arrive config { s with flying := [] } time (retryOf config n)).pair.client =
        s.pair.client := by
  have hlate := hontime.flying _ (h.flying ▸ List.mem_singleton_self _)
  obtain ⟨other, hother, hclient, hunderway, hnet⟩ := h.underway.retried h.net
  rw [if_pos ⟨h.pos, rfl⟩] at hnet
  rw [arrive_toServer rfl hother hnet]
  refine ⟨⟨hunderway, ?_, ⟨h.le_now.trans hontime.now_le, hlate⟩, Nat.le_refl _, .inl rfl⟩, rfl,
    hclient⟩
  exact hnet ▸ List.mem_append_right _ (List.mem_singleton_self _)

/-! ### The acknowledgement -/

theorem Acking.arrives (h : Acking config latency n s) (hontime : s.OnTime latency time) :
    Delivering config latency (n + 1)
        (arrive config { s with flying := [] } time (ackOf config n)) ∧
      (arrive config { s with flying := [] } time (ackOf config n)).flying.length = 1 := by
  have hunderway := h.underway
  have hlate := hontime.flying _ (h.flying ▸ List.mem_singleton_self _)
  obtain ⟨other, hother, hclient, hnet, hsending, hchunk, haddr, -⟩ :=
    deliverAck hunderway.sending hunderway.chunk_eq h.lt h.net
  rw [arrive_toServer rfl hother hnet]
  refine ⟨⟨⟨hsending, hchunk, haddr, hclient ▸ hunderway.receiving, hclient ▸ hunderway.servaddr,
    hclient ▸ hunderway.accepted, Nat.le_refl _, Nat.le_succ _⟩, ?_,
    ⟨h.le_now.trans hontime.now_le, hlate⟩, Nat.le_refl _, .inl rfl⟩, rfl⟩
  exact hnet ▸ List.mem_append_right _ (List.mem_singleton_self _)

theorem Finishing.arrives (h : Finishing config latency s) :
    Completed config (arrive config { s with flying := [] } time
        (ackOf config (lastChunk config.server.file))).pair ∧
      (arrive config { s with flying := [] } time
        (ackOf config (lastChunk config.server.file))).flying = [] := by
  obtain ⟨other, hother, hclient, hnet, hreturned⟩ := deliverLastAck h.sending h.net
  rw [arrive_toServer rfl hother (hnet.trans (List.append_nil _).symm)]
  exact ⟨⟨hclient ▸ h.finished, hclient ▸ h.written, hreturned⟩, rfl⟩

/-! ### All stages -/

theorem retryOf_not_spared (hpos : 0 < n) : ¬ (retryOf config n = request config ∨
    ∃ m ∈ (retryOf config n).about, 0 < m ∧ retryOf config n = dataOf config m) := by
  rintro (hlost | ⟨m, -, -, hlost⟩)
  · have hbytes := congrArg (fun d => mfOpcode d.bytes) hlost
    simp only [retryOf, if_neg (Nat.pos_iff_ne_zero.mp hpos), request,
      mfOpcode_answer _ (show Opcode.error < 2 ^ 16 by decide), mfOpcode_frqPacket] at hbytes
    cases hbytes
  · exact absurd (congrArg Datagram.dest hlost) config.distinct

theorem ackOf_not_spared (n : ℕ) : ¬ (ackOf config n = request config ∨
    ∃ m ∈ (ackOf config n).about, 0 < m ∧ ackOf config n = dataOf config m) := by
  rintro (hlost | ⟨m, -, -, hlost⟩)
  · cases congrArg Datagram.about hlost
  · exact absurd (congrArg Datagram.dest hlost) config.distinct

theorem Requesting.step (h : Requesting config first s)
    (hname : config.client.filename = config.server.filename) (hfirst : first ≤ serverTimeval)
    (hlatency : 2 * latency < clientTimeval) (hspared : Spared config s a)
    (hstep : s.step config latency a = some s') :
    ∃ r' < 100 * (lastChunk config.server.file + 2) + 3 * (11 - s.pair.client.timeouts) +
      2 * (11 - s.pair.server.timeoutNum) + s.flying.length, Stage config latency first r' s' := by
  obtain ⟨hontime, hhappens⟩ := step_happensOne h.one hstep
  generalize hevent : a.event = event at hhappens
  generalize a.time = time at hontime hhappens
  cases hhappens with
  | serverTimeout htime hpair =>
      have hleft := h.timeoutNum_le hfirst hontime htime
      obtain ⟨hnext, hflying, hclient, hcount⟩ := h.serverTimeout hleft hontime htime hpair
      refine ⟨_, ?_, .requesting hnext⟩
      rw [hflying]
      simp only [serverMoves, hclient, hcount]
      omega
  | clientTimeout htime hpair =>
      have hnone := flying_of_clientTimeout hlatency hontime htime
        ⟨s.clientSince, Nat.le_add_right _ _, h.one⟩
      have hretry : s.pair.client.MayRetry := by
        rcases h.flying with hflying | ⟨-, hretry⟩
        · simp [hflying] at hnone
        · exact hretry
      obtain ⟨hnext, hflying, hserver, hcount⟩ := h.clientTimeout hretry hnone htime hpair
      rw [Client.mayRetry_iff] at hretry
      refine ⟨_, ?_, .requesting hnext⟩
      rw [hflying]
      simp only [clientMoves, hserver, hcount]
      omega
  | deliver i hflying =>
      have hnext := h.arrives hname hontime hflying
      have hshort := hnext.length_flying_le
      refine ⟨_, ?_, .delivering hnext⟩
      dsimp only
      omega
  | @lose i hflying hf =>
      obtain ⟨hretry, -⟩ := hspared.lost hevent hf
      refine ⟨_, ?_, .requesting (h.loses hontime hretry)⟩
      simp only [hflying, List.length_nil, List.length_singleton]
      omega

theorem Delivering.step (h : Delivering config latency n s)
    (hlatency : 2 * latency < clientTimeval) (hspared : Spared config s a)
    (hstep : s.step config latency a = some s') :
    ∃ r' < 100 * (lastChunk config.server.file - n) + 4 * (11 - s.pair.client.timeouts) +
      s.flying.length + 12, Stage config latency first r' s' := by
  obtain ⟨hontime, hhappens⟩ := step_happensOne h.one hstep
  generalize hevent : a.event = event at hhappens
  generalize a.time = time at hontime hhappens
  cases hhappens with
  | serverTimeout htime hpair => exact absurd htime fun htime => h.not_serverTimeout hontime htime
  | clientTimeout htime hpair =>
      have hnone := flying_of_clientTimeout hlatency hontime htime ⟨s.serverSince, h.since.2, h.one⟩
      obtain ⟨hpos, hretry⟩ : 0 < n ∧ s.pair.client.MayRetry := by
        rcases h.flying with hflying | ⟨-, hlost⟩
        · simp [hflying] at hnone
        · exact hlost
      obtain ⟨hnext, hcount, hle⟩ := h.clientTimeout hpos hretry hnone hlatency htime hpair
      refine ⟨_, ?_, .retrying hnext⟩
      simp only [clientMoves, hcount]
      omega
  | deliver i hflying =>
      rcases h.arrives hontime hflying with hnext | hnext
      · refine ⟨_, ?_, .acking hnext⟩
        omega
      · refine ⟨_, ?_, .finishing hnext⟩
        omega
  | @lose i hflying hf =>
      obtain ⟨hretry, hlost⟩ := hspared.lost hevent hf
      have hpos : 0 < n := by
        rcases hlost with hlost | ⟨m, -, hm, hlost⟩
        · exact absurd (congrArg Datagram.dest hlost).symm config.distinct
        · have habout := congrArg Datagram.about hlost
          obtain rfl : n = m := Option.some.inj habout
          exact hm
      refine ⟨_, ?_, .delivering (h.loses hontime hpos hretry)⟩
      simp only [hflying, List.length_nil, List.length_singleton]
      omega

/-- While a message of the client is on its way nobody times out. -/
theorem step_answering {f : Flight} (hflying : s.flying = [f]) (hsent : f.sentAt = s.clientSince)
    (hsince : s.clientSince ≤ s.serverSince + latency + clientTimeval)
    (hlatency : 2 * latency < clientTimeval) (hstep : s.step config latency a = some s') :
    s.OnTime latency a.time ∧
      (s' = arrive config { s with flying := [] } a.time f.datagram ∨
        ∃ i, a.event = .lose i ∧ s.flying[i]? = some f) := by
  obtain ⟨hontime, hhappens⟩ := step_happensOne (.inl hflying) hstep
  have hlate := hontime.flying f (hflying ▸ List.mem_singleton_self f)
  refine ⟨hontime, ?_⟩
  generalize a.event = event at hhappens
  generalize a.time = time at hhappens hlate
  cases hhappens with
  | serverTimeout htime hpair =>
      simp only [serverTimeval, clientTimeval] at *
      omega
  | clientTimeout htime hpair => omega
  | deliver i _ => exact .inl rfl
  | lose _ hf => exact .inr ⟨_, rfl, hf⟩

theorem Retrying.step (h : Retrying config n s) (hlatency : 2 * latency < clientTimeval)
    (hspared : Spared config s a) (hstep : s.step config latency a = some s') :
    ∃ r' < 100 * (lastChunk config.server.file - n) + 4 * (11 - s.pair.client.timeouts) + 14,
      Stage config latency first r' s' := by
  have hsince : s.clientSince ≤ s.serverSince + latency + clientTimeval := by
    have hlater := h.since.2
    omega
  obtain ⟨hontime, rfl | ⟨i, hevent, hf⟩⟩ := step_answering h.flying rfl hsince hlatency hstep
  · obtain ⟨hnext, hflying, hclient⟩ := h.arrives hontime
    refine ⟨_, ?_, .delivering hnext⟩
    simp only [hflying, hclient]
    omega
  · exact absurd (hspared.lost hevent hf).2 (retryOf_not_spared h.pos)

theorem Acking.step (h : Acking config latency n s) (hlatency : 2 * latency < clientTimeval)
    (hspared : Spared config s a) (hstep : s.step config latency a = some s') :
    ∃ r' < 100 * (lastChunk config.server.file - n) + 5, Stage config latency first r' s' := by
  have hsince := h.since.2.trans (Nat.le_add_right _ clientTimeval)
  obtain ⟨hontime, rfl | ⟨i, hevent, hf⟩⟩ := step_answering h.flying rfl hsince hlatency hstep
  · have hlt := h.lt
    obtain ⟨hnext, hflying⟩ := h.arrives hontime
    refine ⟨_, ?_, .delivering hnext⟩
    simp only [hflying]
    omega
  · exact absurd (hspared.lost hevent hf).2 (ackOf_not_spared n)

theorem Finishing.step (h : Finishing config latency s) (hlatency : 2 * latency < clientTimeval)
    (hspared : Spared config s a) (hstep : s.step config latency a = some s') :
    Stage config latency first 0 s' := by
  have hsince := h.since.trans (Nat.le_add_right _ clientTimeval)
  obtain ⟨-, rfl | ⟨i, hevent, hf⟩⟩ := step_answering h.flying rfl hsince hlatency hstep
  · obtain ⟨hcompleted, hnone⟩ := h.arrives
    exact .completed hcompleted hnone
  · exact absurd (hspared.lost hevent hf).2 (ackOf_not_spared _)

/-- Behind the end there is no step. -/
theorem not_step_of_completed (h : Completed config s.pair) (hflying : s.flying = []) :
    s.step config latency a ≠ some s' := by
  intro hstep
  obtain ⟨-, hhappens⟩ := step_happens hstep
  generalize a.event = event at hhappens
  generalize a.time = time at hhappens
  cases hhappens with
  | serverTimeout htime hpair =>
      obtain ⟨hwaiting, -⟩ := Option.ite_some_none_eq_some.mp hpair
      rcases hwaiting with hpc | hpc <;> simp [h.returned] at hpc
  | clientTimeout htime hpair =>
      obtain ⟨hpc, -⟩ := Option.ite_some_none_eq_some.mp hpair
      simp [h.finished] at hpc
  | deliver hf => simp [hflying] at hf
  | lose hf => simp [hflying] at hf

/-- **The stages come in turn.** -/
theorem Stage.step {r : ℕ} (h : Stage config latency first r s)
    (hname : config.client.filename = config.server.filename) (hfirst : first ≤ serverTimeval)
    (hlatency : 2 * latency < clientTimeval) (hspared : Spared config s a)
    (hstep : s.step config latency a = some s') :
    ∃ r' < r, Stage config latency first r' s' := by
  cases h with
  | requesting h => exact h.step hname hfirst hlatency hspared hstep
  | delivering h => exact h.step hlatency hspared hstep
  | retrying h => exact h.step hlatency hspared hstep
  | acking h => exact h.step hlatency hspared hstep
  | finishing h => exact ⟨0, Nat.one_pos, h.step hlatency hspared hstep⟩
  | completed h hflying => exact absurd hstep (not_step_of_completed h hflying)

end Timed

end NetworkHomework.Ftp
