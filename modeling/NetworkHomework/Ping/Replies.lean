import NetworkHomework.Foundation.Transition
import NetworkHomework.Ping.Probe

/-!
# Probes and replies

The loop of `main.c` with `pcap_get_reply`, against a capture that queues every packet
that passes the filter.  A round sends a probe, reads the clock, and takes the oldest
packet of the queue, if one comes before the timeout.

The filter asks for echo replies from the target and for nothing else, and the loop
does not look into the packet.  So what is reported for a probe is whatever the queue
starts with: a late reply to an earlier probe, a reply to another process, or a reply
that was there before the clock was read.  The pairing is right where the packets are
prompt: each comes in while it is waited for (`Prompt`).
-/

namespace NetworkHomework.Ping

open Ftp

/-- `struct timeval` -/
structure Timeval where
  sec : ℕ
  usec : ℕ
  usec_lt : usec < 1000000
  deriving DecidableEq

namespace Timeval

/-- The time of a clock that counts microseconds. -/
def ofMicros (n : ℕ) : Timeval := ⟨n / 1000000, n % 1000000, Nat.mod_lt _ (by decide)⟩

def micros (t : Timeval) : ℕ := t.sec * 1000000 + t.usec

@[simp] theorem micros_ofMicros (n : ℕ) : (ofMicros n).micros = n := by
  dsimp only [micros, ofMicros]
  omega

end Timeval

/-- `(hdr.ts.tv_sec-tv.tv_sec)+(hdr.ts.tv_usec-tv.tv_usec)/1000000.0`, in microseconds. -/
def elapsed (ts tv : Timeval) : ℤ :=
  ((ts.sec : ℤ) - tv.sec) * 1000000 + ((ts.usec : ℤ) - tv.usec)

theorem elapsed_eq (ts tv : Timeval) : elapsed ts tv = (ts.micros : ℤ) - tv.micros := by
  unfold elapsed Timeval.micros
  omega

/-- An IP packet on the wire. -/
structure IpPacket where
  source : ℕ
  protocol : ℕ
  payload : List UInt8
  deriving DecidableEq

/-- `*ptr` and `hdr.ts` -/
structure Captured where
  packet : IpPacket
  ts : Timeval
  deriving DecidableEq

/-- What `main` and `pcap_init` are given. -/
structure PingConfig where
  order : ByteOrder
  pid : ℕ
  target : ℕ
  count : ℤ

/-- `src host TARGET and icmp and icmp[icmptype] == 0` -/
def filter (config : PingConfig) (packet : IpPacket) : Bool :=
  packet.source = config.target && packet.protocol = 1 && icmpType packet.payload = some 0

/-- A reply that is printed: the round, the packet, the value of `tv`, and the time. -/
structure Report where
  round : ℕ
  reply : Captured
  start : Timeval
  time : ℤ

-- `next` stands before `pcap_next`, with `tv` read
inductive PingPc
  | send
  | gettimeofday
  | next
  | returned
  | exited
  deriving DecidableEq

/-- The loop and the capture.  `sent` and `reports` are in order, oldest first, as is `unread`. -/
structure Pinger where
  pc : PingPc
  i : ℕ
  seq : ℕ
  tv : Timeval
  clock : ℕ
  unread : List Captured
  sent : List (List UInt8)
  reports : List Report

inductive PingAction
  /-- `sendto` succeeds -/
  | sendto
  /-- `sendto` fails -/
  | sendError
  | gettimeofday
  /-- `pcap_next` returns a packet -/
  | pcapNext
  /-- `pcap_next` returns `NULL`, perhaps before it has seen a packet that is there -/
  | timeout
  /-- time goes by -/
  | wait (micros : ℕ)
  /-- a packet comes in -/
  | capture (packet : IpPacket)

namespace Pinger

variable (config : PingConfig)

/-- `seq++; i++` and the test `i<count`. -/
def nextRound (s : Pinger) : Pinger :=
  { s with
    pc := if (s.i + 1 : ℤ) < config.count then .send else .returned
    i := s.i + 1, seq := s.seq + 1 }

def step (s : Pinger) : PingAction → Option Pinger
  | .sendto =>
      if s.pc = .send then
        some { s with pc := .gettimeofday, sent := s.sent ++ [probe config.order config.pid s.seq] }
      else none
  | .sendError => if s.pc = .send then some { s with pc := .exited } else none
  | .gettimeofday =>
      if s.pc = .gettimeofday then some { s with pc := .next, tv := .ofMicros s.clock } else none
  | .pcapNext =>
      match s.pc, s.unread with
      | .next, reply :: unread =>
          let report := ⟨s.i, reply, s.tv, elapsed reply.ts s.tv⟩
          some ({ s with unread, reports := s.reports ++ [report] }.nextRound config)
      | _, _ => none
  | .timeout => if s.pc = .next then some (s.nextRound config) else none
  | .wait micros => some { s with clock := s.clock + micros }
  | .capture packet =>
      if filter config packet then
        some { s with unread := s.unread ++ [⟨packet, .ofMicros s.clock⟩] }
      else some s

def start (clock : ℕ) (tv : Timeval) : Pinger :=
  { pc := if 0 < config.count then .send else .returned
    i := 0, seq := 1, tv, clock, unread := [], sent := [], reports := [] }

end Pinger

/-- The runs of the loop. -/
def pingSystem (config : PingConfig) : TransitionSystem Pinger PingAction where
  initial s := ∃ clock tv, s = Pinger.start config clock tv
  step := Pinger.step config

/-- A report is about the reply to the probe of its round. -/
structure Report.Paired (config : PingConfig) (sent : List (List UInt8)) (r : Report) : Prop where
  passes : filter config r.reply.packet
  id_eq : echoId r.reply.packet.payload = config.pid % 65536
  sequence_eq : ∃ probe, sent[r.round]? = some probe ∧
    echoSequence r.reply.packet.payload = echoSequence probe
  started : r.start.micros ≤ r.reply.ts.micros
  time_eq : r.time = (r.reply.ts.micros : ℤ) - r.start.micros

/-- All reports are. -/
def Paired (config : PingConfig) (s : Pinger) : Prop := ∀ r ∈ s.reports, r.Paired config s.sent

instance (config : PingConfig) (sent : List (List UInt8)) (r : Report) :
    Decidable (r.Paired config sent) :=
  decidable_of_iff (filter config r.reply.packet ∧
      echoId r.reply.packet.payload = config.pid % 65536 ∧
      (∃ probe ∈ sent[r.round]?, echoSequence r.reply.packet.payload = echoSequence probe) ∧
      r.start.micros ≤ r.reply.ts.micros ∧
      r.time = (r.reply.ts.micros : ℤ) - r.start.micros)
    ⟨fun ⟨h₁, h₂, h₃, h₄, h₅⟩ => ⟨h₁, h₂, h₃, h₄, h₅⟩,
      fun ⟨h₁, h₂, h₃, h₄, h₅⟩ => ⟨h₁, h₂, h₃, h₄, h₅⟩⟩

instance (config : PingConfig) (s : Pinger) : Decidable (Paired config s) :=
  inferInstanceAs (Decidable (∀ r ∈ s.reports, _))

/-- How many times the loop may still read a packet. -/
def Pinger.readsLeft (config : PingConfig) (s : Pinger) : ℕ :=
  match s.pc with
  | .returned | .exited => 0
  | .send | .gettimeofday | .next => (config.count - (s.i + 1)).toNat + 1

/-- A packet passes the filter only while it is waited for, with nothing else to be read, and
answers the current probe, or when there is already as much to be read as the loop may read; and
`pcap_next` gives up only when there is nothing, or in the last round. -/
def Prompt (config : PingConfig) (s : Pinger) : PingAction → Prop
  | .capture packet => filter config packet →
      (s.pc = .next ∧ s.unread = [] ∧ echoId packet.payload = config.pid % 65536 ∧
        echoSequence packet.payload = s.seq % 65536) ∨
      s.readsLeft config ≤ s.unread.length
  | .timeout => s.unread = [] ∨ s.readsLeft config ≤ 1
  | _ => True

instance (config : PingConfig) : ∀ s a, Decidable (Prompt config s a)
  | _, .capture packet => inferInstanceAs (Decidable (filter config packet → _))
  | s, .timeout => inferInstanceAs (Decidable (s.unread = [] ∨ _))
  | _, .sendto | _, .sendError | _, .gettimeofday | _, .pcapNext | _, .wait _ => .isTrue trivial

variable {config : PingConfig} {s s' : Pinger} {a : PingAction}

namespace Pinger

/-- What `pcap_next` and the print behind it do. -/
theorem step_pcapNext (hstep : s.step config .pcapNext = some s') :
    s.pc = .next ∧ ∃ reply unread, s.unread = reply :: unread ∧
      s' = nextRound config { s with
        unread, reports := s.reports ++ [⟨s.i, reply, s.tv, elapsed reply.ts s.tv⟩] } := by
  simp only [Pinger.step] at hstep
  split at hstep
  · rename_i reply unread hpc hunread
    exact ⟨hpc, reply, unread, hunread, (Option.some.inj hstep).symm⟩
  · cases hstep

/-- What the capture does with a packet. -/
theorem step_capture {packet : IpPacket} (hstep : s.step config (.capture packet) = some s') :
    s' = s ∨ filter config packet ∧
      s' = { s with unread := s.unread ++ [⟨packet, .ofMicros s.clock⟩] } := by
  simp only [Pinger.step] at hstep
  split_ifs at hstep with hpasses
  · exact .inr ⟨hpasses, (Option.some.inj hstep).symm⟩
  · exact .inl (Option.some.inj hstep).symm

/-- The numbers of the loop, and what it has sent and can take. -/
structure InRound (config : PingConfig) (s : Pinger) : Prop where
  seq_eq : s.seq = s.i + 1
  sent_eq : s.sent = (List.range s.sent.length).map fun i =>
    probe config.order config.pid (i + 1)
  before : s.pc = .send → s.sent.length = s.i
  behind : s.pc = .gettimeofday ∨ s.pc = .next → s.sent.length = s.i + 1
  passes : ∀ reply ∈ s.unread, filter config reply.packet

theorem InRound.nextRound (h : s.InRound config) (hpc : s.pc = .next) :
    (s.nextRound config).InRound config := by
  refine ⟨congrArg (· + 1) h.seq_eq, h.sent_eq, fun _ => h.behind (.inr hpc), ?_, h.passes⟩
  intro hwaits
  unfold Pinger.nextRound at hwaits
  split_ifs at hwaits <;> simp at hwaits

theorem InRound.step (h : s.InRound config) (hstep : s.step config a = some s') :
    s'.InRound config := by
  cases a with
  | sendto =>
      obtain ⟨hpc, rfl⟩ := Option.ite_some_none_eq_some.mp hstep
      have hlen := h.before hpc
      refine ⟨h.seq_eq, ?_, fun hsend => by simp at hsend, fun _ => by simp [hlen], h.passes⟩
      rw [List.length_append, List.length_singleton, List.range_succ, List.map_append, ← h.sent_eq,
        List.map_singleton, h.seq_eq, hlen]
  | sendError =>
      obtain ⟨-, rfl⟩ := Option.ite_some_none_eq_some.mp hstep
      exact ⟨h.seq_eq, h.sent_eq, by simp, by simp, h.passes⟩
  | gettimeofday =>
      obtain ⟨hpc, rfl⟩ := Option.ite_some_none_eq_some.mp hstep
      exact ⟨h.seq_eq, h.sent_eq, by simp, fun _ => h.behind (.inl hpc), h.passes⟩
  | pcapNext =>
      obtain ⟨hpc, reply, unread, hunread, rfl⟩ := step_pcapNext hstep
      refine InRound.nextRound ⟨h.seq_eq, h.sent_eq, h.before, h.behind, ?_⟩ hpc
      intro other hmem
      exact h.passes other (hunread ▸ List.mem_cons_of_mem _ hmem)
  | timeout =>
      obtain ⟨hpc, rfl⟩ := Option.ite_some_none_eq_some.mp hstep
      exact h.nextRound hpc
  | wait micros =>
      obtain rfl := Option.some.inj hstep
      exact ⟨h.seq_eq, h.sent_eq, h.before, h.behind, h.passes⟩
  | capture packet =>
      rcases step_capture hstep with rfl | ⟨hpasses, rfl⟩
      · exact h
      · refine ⟨h.seq_eq, h.sent_eq, h.before, h.behind, ?_⟩
        exact List.forall_mem_append.mpr ⟨h.passes, List.forall_mem_singleton.mpr hpasses⟩

theorem InRound.start (clock : ℕ) (tv : Timeval) : (start config clock tv).InRound config := by
  refine ⟨rfl, rfl, fun _ => rfl, fun hwaits => ?_, fun _ hmem => absurd hmem List.not_mem_nil⟩
  unfold Pinger.start at hwaits
  split_ifs at hwaits <;> simp at hwaits

/-- The probe of the current round. -/
theorem InRound.sent_getElem? (h : s.InRound config) (hpc : s.pc = .next) :
    s.sent[s.i]? = some (probe config.order config.pid s.seq) := by
  rw [h.sent_eq, List.getElem?_map, List.getElem?_range (by simp [h.behind (.inr hpc)]), h.seq_eq]
  rfl

end Pinger

/-! ## Pairing -/

/-- What is sent later does not matter. -/
theorem Report.Paired.append {sent : List (List UInt8)} {r : Report} (h : r.Paired config sent)
    (more : List (List UInt8)) : r.Paired config (sent ++ more) := by
  obtain ⟨probe, hprobe, hsequence⟩ := h.sequence_eq
  have hlt : r.round < sent.length := (List.getElem?_eq_some_iff.mp hprobe).1
  refine ⟨h.passes, h.id_eq, ⟨probe, ?_, hsequence⟩, h.started, h.time_eq⟩
  rwa [List.getElem?_append_left hlt]

/-- The new report of a `pcap_next`. -/
theorem Pinger.InRound.paired_iff (h : s.InRound config) (hpc : s.pc = .next) {reply : Captured}
    (hmem : reply ∈ s.unread) :
    Report.Paired config s.sent ⟨s.i, reply, s.tv, elapsed reply.ts s.tv⟩ ↔
      echoId reply.packet.payload = config.pid % 65536 ∧
        echoSequence reply.packet.payload = s.seq % 65536 ∧ s.tv.micros ≤ reply.ts.micros := by
  have hsent := h.sent_getElem? hpc
  constructor
  · rintro ⟨-, hid, ⟨sent, hsent', hsequence⟩, hstarted, -⟩
    obtain rfl := Option.some.inj (hsent.symm.trans hsent')
    rw [echoSequence_probe] at hsequence
    exact ⟨hid, hsequence, hstarted⟩
  · rintro ⟨hid, hsequence, hstarted⟩
    refine ⟨h.passes reply hmem, hid, ⟨_, hsent, ?_⟩, hstarted, elapsed_eq _ _⟩
    rw [echoSequence_probe]
    exact hsequence

/-- A step keeps the reports paired if the packet it takes answers the current probe. -/
theorem paired_step (hround : s.InRound config) (h : Paired config s)
    (hanswers : a = .pcapNext → ∀ reply ∈ s.unread.head?,
      echoId reply.packet.payload = config.pid % 65536 ∧
        echoSequence reply.packet.payload = s.seq % 65536 ∧ s.tv.micros ≤ reply.ts.micros)
    (hstep : s.step config a = some s') : Paired config s' := by
  cases a with
  | sendto =>
      obtain ⟨-, rfl⟩ := Option.ite_some_none_eq_some.mp hstep
      exact fun r hr => (h r hr).append _
  | sendError | gettimeofday | timeout =>
      obtain ⟨-, rfl⟩ := Option.ite_some_none_eq_some.mp hstep
      exact h
  | pcapNext =>
      obtain ⟨hpc, reply, unread, hunread, rfl⟩ := Pinger.step_pcapNext hstep
      have hmem : reply ∈ s.unread := hunread ▸ List.mem_cons_self
      have hreply := hanswers rfl reply (by rw [hunread]; rfl)
      unfold Paired Pinger.nextRound
      rw [List.forall_mem_append, List.forall_mem_singleton]
      exact ⟨h, (hround.paired_iff hpc hmem).mpr hreply⟩
  | wait micros =>
      obtain rfl := Option.some.inj hstep
      exact h
  | capture packet =>
      rcases Pinger.step_capture hstep with rfl | ⟨-, rfl⟩
      · exact h
      · exact h

/-! ## Prompt replies -/

/-- At most one packet that is there will be read, and it is what is waited for. -/
structure Pinger.Awaiting (config : PingConfig) (s : Pinger) : Prop where
  clock_le : s.pc = .next → s.tv.micros ≤ s.clock
  none_read : s.pc ≠ .next → s.unread.take (s.readsLeft config) = []
  one_read : (s.unread.take (s.readsLeft config)).tail = []
  answers : ∀ reply ∈ (s.unread.take (s.readsLeft config)).head?,
    echoId reply.packet.payload = config.pid % 65536 ∧
      echoSequence reply.packet.payload = s.seq % 65536 ∧ s.tv.micros ≤ reply.ts.micros

theorem Pinger.Awaiting.of_nil (hclock : s.pc = .next → s.tv.micros ≤ s.clock)
    (hunread : s.unread.take (s.readsLeft config) = []) : s.Awaiting config :=
  ⟨hclock, fun _ => hunread, by rw [hunread]; rfl, by simp [hunread]⟩

theorem Pinger.nextRound_pc : (s.nextRound config).pc ≠ .next := by
  unfold Pinger.nextRound
  split_ifs <;> simp

theorem Pinger.readsLeft_nextRound (hpc : s.pc = .next) :
    (s.nextRound config).readsLeft config = s.readsLeft config - 1 := by
  unfold Pinger.nextRound Pinger.readsLeft
  rw [hpc]
  split_ifs with hmore
  · dsimp only
    push_cast
    omega
  · dsimp only
    omega

theorem Pinger.Awaiting.step (h : s.Awaiting config) (hprompt : Prompt config s a)
    (hstep : s.step config a = some s') : s'.Awaiting config := by
  cases a with
  | sendto =>
      obtain ⟨hpc, rfl⟩ := Option.ite_some_none_eq_some.mp hstep
      refine .of_nil (fun hnext => by simp at hnext) ?_
      have hnone := h.none_read (by simp [hpc])
      simpa only [readsLeft, hpc] using hnone
  | sendError =>
      obtain ⟨hpc, rfl⟩ := Option.ite_some_none_eq_some.mp hstep
      exact .of_nil (fun hnext => by simp at hnext) (List.take_zero)
  | gettimeofday =>
      obtain ⟨hpc, rfl⟩ := Option.ite_some_none_eq_some.mp hstep
      refine .of_nil (fun _ => ?_) ?_
      · rw [Timeval.micros_ofMicros]
      · have hnone := h.none_read (by simp [hpc])
        simpa only [readsLeft, hpc] using hnone
  | pcapNext =>
      obtain ⟨hpc, reply, unread, hunread, rfl⟩ := step_pcapNext hstep
      refine .of_nil (fun hnext => absurd hnext nextRound_pc) ?_
      -- one packet less is there, and one less will be read
      obtain ⟨n, hn⟩ : ∃ n, s.readsLeft config = n + 1 := by
        unfold readsLeft
        rw [hpc]
        exact ⟨_, rfl⟩
      have htail := h.one_read
      rw [hunread, hn, List.take_succ_cons, List.tail_cons] at htail
      have hleft := @readsLeft_nextRound config { s with
        unread, reports := s.reports ++ [⟨s.i, reply, s.tv, elapsed reply.ts s.tv⟩] } hpc
      rw [hleft]
      show List.take (s.readsLeft config - 1) unread = []
      rw [hn]
      exact htail
  | timeout =>
      obtain ⟨hpc, rfl⟩ := Option.ite_some_none_eq_some.mp hstep
      refine .of_nil (fun hnext => absurd hnext nextRound_pc) ?_
      rw [readsLeft_nextRound hpc]
      rcases hprompt with hunread | hlast
      · show List.take _ s.unread = []
        rw [hunread, List.take_nil]
      · rw [Nat.sub_eq_zero_of_le hlast, List.take_zero]
  | wait micros =>
      obtain rfl := Option.some.inj hstep
      exact ⟨fun hpc => Nat.le_add_right_of_le (h.clock_le hpc), h.none_read, h.one_read,
        h.answers⟩
  | capture packet =>
      rcases step_capture hstep with rfl | ⟨hpasses, rfl⟩
      · exact h
      · rcases hprompt hpasses with ⟨hpc, hunread, hid, hsequence⟩ | hfull
        · have hclock := h.clock_le hpc
          refine ⟨h.clock_le, fun hne => absurd hpc hne, by simp [hunread, readsLeft, hpc], ?_⟩
          simp [hunread, readsLeft, hpc, hid, hsequence, hclock]
        · -- the packet will not be read
          have hread : (s.unread ++ [Captured.mk packet (.ofMicros s.clock)]).take
              (s.readsLeft config) =
              s.unread.take (s.readsLeft config) := List.take_append_of_le_length hfull
          exact ⟨h.clock_le, fun hne => hread.trans (h.none_read hne),
            (congrArg List.tail hread).trans h.one_read, fun other hmem =>
              h.answers other (hread ▸ hmem)⟩

/-- **Pairing.**  In every run whose packets are prompt, the reports are about the replies to their
own probes, and their times are not negative. -/
theorem paired_of_prompt (h : (pingSystem config).ReachableUnder (Prompt config) s) :
    Paired config s := by
  have hinv : s.InRound config ∧ s.Awaiting config ∧ Paired config s := by
    apply h.invariant
    · rintro _ ⟨clock, tv, rfl⟩
      refine ⟨.start clock tv, .of_nil (fun hnext => ?_) List.take_nil, fun _ hmem =>
        absurd hmem List.not_mem_nil⟩
      unfold Pinger.start at hnext
      split_ifs at hnext
    · intro s a s' hs hprompt hstep
      obtain ⟨hround, hawaiting, hpaired⟩ := hs
      refine ⟨hround.step hstep, hawaiting.step hprompt hstep,
        paired_step hround hpaired (fun hnext reply hmem => ?_) hstep⟩
      -- the packet that is read is the one that is waited for
      subst hnext
      obtain ⟨hpc, first, unread, hunread, -⟩ := Pinger.step_pcapNext hstep
      apply hawaiting.answers
      rw [hunread] at hmem ⊢
      simpa [Pinger.readsLeft, hpc] using hmem
  exact hinv.2.2

/-! ### Replies out of their round -/

namespace Mispaired

/-- Two probes to host 1. -/
def pinging : PingConfig := ⟨.little, 4242, 1, 2⟩

/-- The answer of the target to an echo message. -/
def echoReply (icmp : List UInt8) : PingAction :=
  let unsigned := [0, 0] ++ [0, 0] ++ icmp.drop 4
  .capture ⟨1, 1, [0, 0] ++ ByteOrder.little.store (inCksum .little unsigned) ++ icmp.drop 4⟩

/-- Both probes are answered while they are waited for. -/
def inTime : List PingAction :=
  [.sendto, .gettimeofday, .wait 300, echoReply (probe .little 4242 1), .pcapNext,
    .sendto, .gettimeofday, .wait 300, echoReply (probe .little 4242 2), .pcapNext]

/-- The first reply comes after the timeout. -/
def late : List PingAction :=
  [.sendto, .gettimeofday, .wait 2000000, .timeout, echoReply (probe .little 4242 1),
    .sendto, .gettimeofday, .pcapNext]

/-- The reply comes before the clock is read. -/
def early : List PingAction :=
  [.sendto, echoReply (probe .little 4242 1), .wait 1, .gettimeofday, .pcapNext]

/-- The reply is to another process. -/
def foreign : List PingAction :=
  [.sendto, .gettimeofday, echoReply (probe .little 4243 1), .pcapNext]

def begin : Pinger := .start pinging 0 (.ofMicros 0)

theorem paired_inTime :
    ∃ s, (pingSystem pinging).run begin inTime = some s ∧ Paired pinging s := by
  have hrun : ((pingSystem pinging).run begin inTime).isSome := by decide +kernel
  obtain ⟨s, hs⟩ := Option.isSome_iff_exists.mp hrun
  have hmeets : (pingSystem pinging).StepsMeet (Prompt pinging) begin inTime := by decide +kernel
  exact ⟨s, hs, paired_of_prompt (TransitionSystem.reachableUnder_of_run (.start ⟨0, _, rfl⟩)
    hmeets hs)⟩

theorem not_throughout {actions : List PingAction}
    (h : ((pingSystem pinging).run begin actions).any fun s => ¬ Paired pinging s) :
    ¬ ∀ s', (pingSystem pinging).run begin actions = some s' →
      (pingSystem pinging).Throughout (Paired pinging) begin actions := by
  intro hall
  obtain ⟨s', hs', hnot⟩ := (Option.any_eq_true _ _).mp h
  exact of_decide_eq_true hnot ((hall s' hs').last hs')

/-- A late reply is reported for the next probe, an early one with a negative time, and one to
another process like an own one. -/
theorem not_paired_throughout :
    (¬ ∀ s', (pingSystem pinging).run begin late = some s' →
      (pingSystem pinging).Throughout (Paired pinging) begin late) ∧
    (¬ ∀ s', (pingSystem pinging).run begin early = some s' →
      (pingSystem pinging).Throughout (Paired pinging) begin early) ∧
    ¬ ∀ s', (pingSystem pinging).run begin foreign = some s' →
      (pingSystem pinging).Throughout (Paired pinging) begin foreign :=
  ⟨not_throughout (by decide +kernel), not_throughout (by decide +kernel),
    not_throughout (by decide +kernel)⟩

end Mispaired

end NetworkHomework.Ping
