import NetworkHomework.Foundation.Fields
import NetworkHomework.Ping.Replies

/-!
# The packet of the send loop

`main` fills the IP header and the option of one packet of 92 bytes.  Each pass of its
loop then fills the data and the ICMP header in that packet, over the sequence number
and the checksum of the pass before, and sends the whole packet.  The header and the
option are not touched again, and what a pass writes does not depend on what was there.

The size macros have no parentheses, so `sizeof(struct icmphdr)+ICMP_DATA_SIZE` reads
`8 + 92 - 20 - 8 - 8`; read from the left, this is the 64 bytes that it should be.
-/

namespace NetworkHomework.Ping

open Fields Ftp

/-- The fields of `myicmp`; `ip_v` and `ip_hl` share a byte, and the option is taken apart as `main`
fills it. -/
inductive MyIcmpField
  | ip_v_hl
  | ip_tos
  | ip_len
  | ip_id
  | ip_off
  | ip_ttl
  | ip_p
  | ip_sum
  | ip_src
  | ip_dst
  | option_type
  | option_length
  | option_ptr
  | option_data
  | option_end
  | icmp_type
  | icmp_code
  | icmp_checksum
  | echo_id
  | echo_sequence
  | data
  deriving DecidableEq

namespace MyIcmpField

def offset : MyIcmpField → ℕ
  | ip_v_hl => 0
  | ip_tos => 1
  | ip_len => 2
  | ip_id => 4
  | ip_off => 6
  | ip_ttl => 8
  | ip_p => 9
  | ip_sum => 10
  | ip_src => 12
  | ip_dst => 16
  | option_type => 20
  | option_length => 21
  | option_ptr => 22
  | option_data => 23
  | option_end => 27
  | icmp_type => 28
  | icmp_code => 29
  | icmp_checksum => 30
  | echo_id => 32
  | echo_sequence => 34
  | data => 36

def size : MyIcmpField → ℕ
  | ip_v_hl | ip_tos | ip_ttl | ip_p | option_type | option_length | option_ptr | option_end
  | icmp_type | icmp_code => 1
  | ip_len | ip_id | ip_off | ip_sum | icmp_checksum | echo_id | echo_sequence => 2
  | ip_src | ip_dst | option_data => 4
  | data => icmpDataSize

def all : List MyIcmpField :=
  [ip_v_hl, ip_tos, ip_len, ip_id, ip_off, ip_ttl, ip_p, ip_sum, ip_src, ip_dst, option_type,
    option_length, option_ptr, option_data, option_end, icmp_type, icmp_code, icmp_checksum,
    echo_id, echo_sequence, data]

theorem mem_all (f : MyIcmpField) : f ∈ all := by cases f <;> decide

end MyIcmpField

open MyIcmpField

/-- `PACKET_SIZE` -/
def packetSize : ℕ := 92

/-- The data, an array of no elements in `myicmp`, goes up to the end of the packet. -/
def myIcmpLayout : Layout MyIcmpField where
  offset := offset
  size := size
  total := packetSize
  bounded f := by cases f <;> decide
  disjoint f g := by
    have hall : ∀ f ∈ all, ∀ g ∈ all, f ≠ g →
        offset f + size f ≤ offset g ∨ offset g + size g ≤ offset f := by decide +kernel
    exact hall f (mem_all f) g (mem_all g)
  covers i hi := by
    have hsome : ∀ i : Fin packetSize, ∃ f ∈ all, offset f ≤ i ∧ i < offset f + size f := by
      decide +kernel
    obtain ⟨f, -, hf⟩ := hsome ⟨i, hi⟩
    exact ⟨f, hf⟩

abbrev MyIcmp : Type := Record UInt8 myIcmpLayout

/-- `s_addr`: an address, in network order. -/
abbrev InAddr : Type := Buffer 4

/-! ## Filling it -/

/-- `memset(packet,0,PACKET_SIZE)` -/
def cleared : MyIcmp := ⟨List.replicate packetSize 0, List.length_replicate⟩

/-- `fill_iphdr`; `dst` is what `inet_addr` makes of `dst_ip`. -/
def fillIphdr (dst : InAddr) (packet : MyIcmp) : MyIcmp :=
  let packet := packet.set ip_v_hl [16 * 4 + 28 / 4]
  let packet := packet.set ip_len (htons 92)
  let packet := packet.set ip_id [0, 0]
  let packet := packet.set ip_off (htons 0x4000)  -- IP_DF
  let packet := packet.set ip_ttl [64]
  let packet := packet.set ip_p [1]
  let packet := packet.set ip_sum [0, 0]
  packet.set ip_dst dst.bytes

/-- The packet before the loop: to the gateway, and from there by a loose source route to the
target. -/
def prepared (gateway target : InAddr) : MyIcmp :=
  let packet := fillIphdr gateway cleared
  let packet := packet.set option_type [131]  -- IPOPT_LSRR
  let packet := packet.set option_length [1 + 1 + 1 + 4]
  let packet := packet.set option_ptr [4]
  packet.set option_data target.bytes

/-- The IP header and the option. -/
def headerBytes (packet : MyIcmp) : List UInt8 := packet.bytes.take icmp_type.offset

/-- The bytes from `packet->icmp_hdr` on. -/
def icmpBytes (packet : MyIcmp) : List UInt8 := packet.bytes.drop icmp_type.offset

theorem length_fillIcmphdr (order : ByteOrder) (pid seq : ℕ) {icmp : List UInt8}
    (h : 8 ≤ icmp.length) : (fillIcmphdr order pid seq icmp).length = icmp.length := by
  obtain ⟨first, second, heq⟩ := @fillIcmphdr_eq order pid seq icmp
  rw [heq]
  simp only [List.length_cons, List.length_append, length_htons, List.length_drop]
  omega

theorem length_headerBytes (packet : MyIcmp) : (headerBytes packet).length = 28 := by
  rw [headerBytes, List.length_take, packet.length_bytes]
  rfl

theorem length_icmpBytes (packet : MyIcmp) : (icmpBytes packet).length = 8 + icmpDataSize := by
  rw [icmpBytes, List.length_drop, packet.length_bytes]
  rfl

/-- `fill_icmphdr(&(packet->icmp_hdr))` -/
def fillIcmphdrOf (order : ByteOrder) (pid seq : ℕ) (packet : MyIcmp) : MyIcmp where
  bytes := headerBytes packet ++ fillIcmphdr order pid seq (icmpBytes packet)
  length_bytes := by
    have hicmp := length_icmpBytes packet
    rw [List.length_append, length_headerBytes, length_fillIcmphdr _ _ _ (by omega), hicmp]
    rfl

/-- One pass of the loop, up to `sendto`. -/
def fillPass (order : ByteOrder) (pid seq : ℕ) (packet : MyIcmp) : MyIcmp :=
  let packet := packet.set data (List.replicate icmpDataSize 72)
  fillIcmphdrOf order pid seq packet

/-- The passes left of the loop: the packets given to `sendto`, as far as it succeeds. -/
def sendLoop (order : ByteOrder) (pid : ℕ) : ℕ → ℕ → MyIcmp → List MyIcmp
  | 0, _, _ => []
  | passes + 1, seq, packet =>
      let packet := fillPass order pid seq packet
      packet :: sendLoop order pid passes (seq + 1) packet

/-- The packets of `main`; there are none if `count` is negative. -/
def sentPackets (order : ByteOrder) (pid : ℕ) (count : ℤ) (gateway target : InAddr) :
    List MyIcmp :=
  sendLoop order pid count.toNat 1 (prepared gateway target)

/-- The IP header gives the size of the packet, and its own with the option. -/
theorem prepared_sizes (gateway target : InAddr) :
    ntohsAt ((prepared gateway target).get ip_len) 0 = packetSize ∧
      (prepared gateway target).get ip_v_hl = [16 * 4 + UInt8.ofNat (icmp_type.offset / 4)] := by
  constructor
  · simp (disch := decide) only [prepared, fillIphdr, Record.get_set_of_ne]
    rw [Record.get_set _ rfl]
    decide
  · simp (disch := decide) only [prepared, fillIphdr, Record.get_set_of_ne]
    exact Record.get_set _ rfl

/-! ## What a pass writes -/

variable {order : ByteOrder} {pid seq : ℕ} {packet : MyIcmp}

/-- Of the header of an echo message nothing is kept. -/
theorem fillIcmphdr_congr {icmp icmp' : List UInt8} (h : icmp.drop 8 = icmp'.drop 8) :
    fillIcmphdr order pid seq icmp = fillIcmphdr order pid seq icmp' := by
  simp only [fillIcmphdr, h]

/-- The data is all that lies behind the ICMP header. -/
theorem drop_icmpBytes_set {src : List UInt8} (h : src.length = icmpDataSize) :
    (icmpBytes (packet.set data src)).drop 8 = src := by
  have hlength : ((packet.set data src).bytes.drop data.offset).length ≤ data.size := by
    rw [List.length_drop, Record.length_bytes]
    exact le_rfl
  calc (icmpBytes (packet.set data src)).drop 8 = (packet.set data src).bytes.drop data.offset := by
        rw [icmpBytes, List.drop_drop]
        rfl
    _ = (packet.set data src).get data := (List.take_of_length_le hlength).symm
    _ = src := packet.get_set h

/-- A pass keeps the IP header and the option, and puts the probe behind them. -/
theorem bytes_fillPass :
    (fillPass order pid seq packet).bytes = headerBytes packet ++ probe order pid seq := by
  have hheader : headerBytes (packet.set data (List.replicate icmpDataSize 72)) =
      headerBytes packet := take_overwrite_of_le (by decide) _ _
  have hdata : (icmpBytes (packet.set data (List.replicate icmpDataSize 72))).drop 8 =
      (List.replicate 8 (0 : UInt8) ++ List.replicate icmpDataSize 72).drop 8 := by
    rw [drop_icmpBytes_set List.length_replicate, List.drop_left' List.length_replicate]
  show headerBytes _ ++ fillIcmphdr order pid seq (icmpBytes _) = _
  rw [hheader, fillIcmphdr_congr hdata, probe]

theorem length_probe : (probe order pid seq).length = 8 + icmpDataSize :=
  length_fillIcmphdr order pid seq (by decide)

theorem headerBytes_fillPass :
    headerBytes (fillPass order pid seq packet) = headerBytes packet := by
  rw [headerBytes, bytes_fillPass]
  exact List.take_left' (length_headerBytes packet)

theorem icmpBytes_fillPass : icmpBytes (fillPass order pid seq packet) = probe order pid seq := by
  rw [icmpBytes, bytes_fillPass]
  exact List.drop_left' (length_headerBytes packet)

/-- What was left in the packet by another pass makes no difference. -/
theorem fillPass_fillPass (other : ℕ) :
    fillPass order pid seq (fillPass order pid other packet) = fillPass order pid seq packet :=
  Record.ext_bytes (by rw [bytes_fillPass, bytes_fillPass, headerBytes_fillPass])

/-- The fields of the echo message are those of the probe. -/
theorem get_fillPass (f : MyIcmpField) (off : ℕ) (h : f.offset = icmp_type.offset + off) :
    (fillPass order pid seq packet).get f = field off f.size (probe order pid seq) := by
  have happend := field_append_right (headerBytes packet) (probe order pid seq) off f.size
  rw [length_headerBytes] at happend
  rw [Record.get, bytes_fillPass, ← happend, ← (show f.offset = 28 + off from h)]
  rfl

/-! ## The loop -/

theorem length_sendLoop (passes : ℕ) :
    (sendLoop order pid passes seq packet).length = passes := by
  induction passes generalizing seq packet with
  | zero => rfl
  | succ passes ih => rw [sendLoop, List.length_cons, ih]

/-- The packet of a pass is as if it were the only one. -/
theorem sendLoop_getElem? {passes i : ℕ} (hi : i < passes) :
    (sendLoop order pid passes seq packet)[i]? = some (fillPass order pid (seq + i) packet) := by
  induction passes generalizing seq packet i with
  | zero => exact absurd hi (Nat.not_lt_zero i)
  | succ passes ih =>
      rw [sendLoop]
      cases i with
      | zero => rfl
      | succ i =>
          rw [List.getElem?_cons_succ, ih (Nat.lt_of_succ_lt_succ hi), fillPass_fillPass,
            Nat.add_right_comm, Nat.add_assoc]

/-! ## Well-formed probes -/

/-- Probe number `n` of the process: an echo request whose words, the checksum among them, add up to
all ones on hosts of both byte orders. -/
structure WellFormed (pid n : ℕ) (packet : MyIcmp) : Prop where
  length_eq : packet.bytes.length = 92
  type_eq : packet.get icmp_type = [8]
  code_eq : packet.get icmp_code = [0]
  id_eq : ntohsAt (packet.get echo_id) 0 = pid % 65536
  sequence_eq : ntohsAt (packet.get echo_sequence) 0 = n % 65536
  payload_length : (packet.get data).length = 56
  payload_ne : ∀ byte ∈ packet.get data, byte ≠ 0
  payload_end : packet.bytes.drop data.offset = packet.get data
  icmp_length : (icmpBytes packet).length = 64
  icmp_sum : ∀ reader, OnesComplement.sum 65535 (words reader (icmpBytes packet)) = 65535

theorem probe_eq : ∃ first second, probe order pid seq = 8 :: 0 :: first :: second ::
    (htons pid ++ htons seq ++ List.replicate icmpDataSize 72) := by
  rw [probe]
  exact fillIcmphdr_eq

theorem get_data_fillPass :
    (fillPass order pid seq packet).get data = List.replicate icmpDataSize 72 := by
  obtain ⟨first, second, heq⟩ := @probe_eq order pid seq
  rw [get_fillPass data 8 rfl, heq]
  rfl

theorem wellFormed_fillPass : WellFormed pid seq (fillPass order pid seq packet) := by
  obtain ⟨first, second, heq⟩ := @probe_eq order pid seq
  have hlength := (fillPass order pid seq packet).length_bytes
  have hdata := @get_data_fillPass order pid seq packet
  constructor
  · exact hlength
  · rw [get_fillPass icmp_type 0 rfl, heq]
    rfl
  · rw [get_fillPass icmp_code 1 rfl, heq]
    rfl
  · rw [get_fillPass echo_id 4 rfl, heq]
    exact ntohs_htons pid
  · rw [get_fillPass echo_sequence 6 rfl, heq]
    exact ntohs_htons seq
  · rw [hdata, List.length_replicate]
    rfl
  · intro byte hmem
    rw [hdata] at hmem
    rw [List.eq_of_mem_replicate hmem]
    decide
  · refine (List.take_of_length_le ?_).symm
    rw [List.length_drop, hlength]
    exact le_rfl
  · exact length_icmpBytes _
  · intro reader
    have hcksum : inCksum reader (probe order pid seq) = 0 := inCksum_fillIcmphdr reader rfl
    rw [icmpBytes_fillPass]
    exact (inCksum_eq_zero_iff_sum (by rw [length_probe]; decide)).mp hcksum

/-- There are `count` packets. -/
theorem length_sentPackets (count : ℤ) (gateway target : InAddr) :
    (sentPackets order pid count gateway target).length = count.toNat :=
  length_sendLoop count.toNat

theorem sentPackets_getElem? {count : ℤ} {gateway target : InAddr} {i : ℕ} (hi : (i : ℤ) < count) :
    (sentPackets order pid count gateway target)[i]? =
      some (fillPass order pid (i + 1) (prepared gateway target)) := by
  rw [sentPackets, sendLoop_getElem? (by omega), Nat.add_comm]

/-- **Probes.**  Whatever the process id and however often the sequence number wraps, packet `i` of
the loop is a well-formed probe of number `i + 1`, under the IP header and the option of the first
packet. -/
theorem sentPackets_wellFormed (order : ByteOrder) (pid : ℕ) {count : ℤ}
    (gateway target : InAddr) {i : ℕ} (hi : (i : ℤ) < count) :
    ∃ packet first, (sentPackets order pid count gateway target)[i]? = some packet ∧
      (sentPackets order pid count gateway target)[0]? = some first ∧
      WellFormed pid (i + 1) packet ∧ headerBytes packet = headerBytes first := by
  refine ⟨_, _, sentPackets_getElem? hi, sentPackets_getElem? (by omega), wellFormed_fillPass, ?_⟩
  rw [headerBytes_fillPass, headerBytes_fillPass]

/-- The sequence number has wrapped, and the process id does not fit. -/
theorem sentPackets_wrapped :
    ∃ packet first,
      (sentPackets .little 70000 65537 (Buffer.zero 4) (Buffer.zero 4))[65536]? = some packet ∧
        (sentPackets .little 70000 65537 (Buffer.zero 4) (Buffer.zero 4))[0]? = some first ∧
        WellFormed 70000 65537 packet ∧ headerBytes packet = headerBytes first :=
  sentPackets_wellFormed .little 70000 (Buffer.zero 4) (Buffer.zero 4) (by decide)

/-! ## In the runs with replies -/

namespace Pinger

variable {config : PingConfig} {s s' : Pinger} {a : PingAction}

/-- The number of passes. -/
structure InCount (config : PingConfig) (s : Pinger) : Prop where
  looping : s.pc ≠ .returned → s.pc ≠ .exited → (s.i : ℤ) < config.count
  sent_le : (s.sent.length : ℤ) ≤ max config.count 0

theorem inCount_start (clock : ℕ) (tv : Timeval) : (start config clock tv).InCount config := by
  refine ⟨fun hreturned _ => ?_, by simp [Pinger.start]⟩
  unfold Pinger.start at hreturned ⊢
  split_ifs at hreturned with hcount
  · exact hcount
  · exact absurd rfl hreturned

theorem InCount.nextRound (h : s.InCount config) : (s.nextRound config).InCount config := by
  refine ⟨fun hreturned _ => ?_, h.sent_le⟩
  unfold Pinger.nextRound at hreturned ⊢
  split_ifs at hreturned with hcount
  · exact_mod_cast hcount
  · exact absurd rfl hreturned

theorem InCount.step (h : s.InCount config) (hround : s.InRound config)
    (hstep : s.step config a = some s') : s'.InCount config := by
  cases a with
  | sendto =>
      obtain ⟨hpc, rfl⟩ := Option.ite_some_none_eq_some.mp hstep
      have hlt := h.looping (by simp [hpc]) (by simp [hpc])
      have hlength := hround.before hpc
      refine ⟨fun _ _ => hlt, ?_⟩
      rw [List.length_append, List.length_singleton]
      omega
  | sendError =>
      obtain ⟨-, rfl⟩ := Option.ite_some_none_eq_some.mp hstep
      exact ⟨fun _ hexited => absurd rfl hexited, h.sent_le⟩
  | gettimeofday =>
      obtain ⟨hpc, rfl⟩ := Option.ite_some_none_eq_some.mp hstep
      exact ⟨fun _ _ => h.looping (by simp [hpc]) (by simp [hpc]), h.sent_le⟩
  | pcapNext =>
      obtain ⟨-, reply, unread, -, rfl⟩ := step_pcapNext hstep
      exact InCount.nextRound ⟨h.looping, h.sent_le⟩
  | timeout =>
      obtain ⟨-, rfl⟩ := Option.ite_some_none_eq_some.mp hstep
      exact h.nextRound
  | wait micros =>
      obtain rfl := Option.some.inj hstep
      exact ⟨h.looping, h.sent_le⟩
  | capture packet =>
      rcases step_capture hstep with rfl | ⟨-, rfl⟩
      · exact h
      · exact ⟨h.looping, h.sent_le⟩

/-- In every run, whatever comes in and whichever `sendto` fails, the messages sent so far are those
of the first packets. -/
theorem sent_eq_sentPackets (h : (pingSystem config).Reachable s) (gateway target : InAddr) :
    s.sent = ((sentPackets config.order config.pid config.count gateway target).map
      icmpBytes).take s.sent.length := by
  have hinv : s.InRound config ∧ s.InCount config := by
    induction h with
    | start hstart =>
        obtain ⟨clock, tv, rfl⟩ := hstart
        exact ⟨.start clock tv, inCount_start clock tv⟩
    | next _ _ hstep ih => exact ⟨ih.1.step hstep, ih.2.step ih.1 hstep⟩
  obtain ⟨hround, hcount⟩ := hinv
  refine List.ext_getElem? fun i => ?_
  rw [List.getElem?_take]
  split_ifs with hi
  · have hlt : (i : ℤ) < config.count := by
      have := hcount.sent_le
      omega
    rw [hround.sent_eq, List.getElem?_map, List.getElem?_range (by simpa using hi),
      List.getElem?_map, sentPackets_getElem? hlt, Option.map_some, Option.map_some,
      icmpBytes_fillPass]
  · exact List.getElem?_eq_none (Nat.le_of_not_lt hi)

end Pinger

end NetworkHomework.Ping
