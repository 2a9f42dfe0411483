import Mathlib.Data.List.Forall2
import NetworkHomework.Foundation.Fields
import NetworkHomework.Foundation.Scan
import NetworkHomework.Ftp.Checksum
import NetworkHomework.Arp.CommandLine

/-!
# Spoofing mode

The loop of the mode `SendWrongReply`: every received frame is looked at as an
`arp_packet`, and a request for the target address is answered with the MAC address
from the command line.  The fields `ether_type` and `arp_op` are shorts of the host,
so they are compared and written by way of `htons`.  The other fields are copied as
bytes, and so are the addresses `MyMac` and `targetIP`, which is in network order.

`sscanf` reads the fake MAC address anew for every answer.  If it did not assign all six
numbers, the answer would carry bytes that nobody set.
-/

namespace NetworkHomework.Arp

open Fields Scan
open NetworkHomework.Ftp (ByteOrder)

/-- The fields of `struct arp_packet`. -/
inductive ArpField
  | ether_dhost
  | ether_shost
  | ether_type
  | arp_hrd
  | arp_pro
  | arp_hln
  | arp_pln
  | arp_op
  | arp_sha
  | arp_spa
  | arp_tha
  | arp_tpa
  deriving DecidableEq

namespace ArpField

def offset : ArpField → ℕ
  | ether_dhost => 0
  | ether_shost => 6
  | ether_type => 12
  | arp_hrd => 14
  | arp_pro => 16
  | arp_hln => 18
  | arp_pln => 19
  | arp_op => 20
  | arp_sha => 22
  | arp_spa => 28
  | arp_tha => 32
  | arp_tpa => 38

def size : ArpField → ℕ
  | ether_dhost | ether_shost | arp_sha | arp_tha => 6
  | ether_type | arp_hrd | arp_pro | arp_op => 2
  | arp_hln | arp_pln => 1
  | arp_spa | arp_tpa => 4

def all : List ArpField :=
  [ether_dhost, ether_shost, ether_type, arp_hrd, arp_pro, arp_hln, arp_pln, arp_op, arp_sha,
    arp_spa, arp_tha, arp_tpa]

end ArpField

open ArpField

/-- `struct arp_packet` has no padding. -/
def arpLayout : Layout ArpField where
  offset := offset
  size := size
  total := 42
  bounded f := by cases f <;> decide
  disjoint f g := by cases f <;> cases g <;> decide
  covers i hi := by
    have hsome : ∀ i : Fin 42, ∃ f ∈ ArpField.all, offset f ≤ i ∧ i < offset f + size f := by
      decide
    obtain ⟨f, -, hf⟩ := hsome ⟨i, hi⟩
    exact ⟨f, hf⟩

abbrev ArpPacket : Type := Record UInt8 arpLayout

/-- An address of `n` bytes. -/
structure Octets (n : ℕ) where
  bytes : List UInt8
  length_bytes : bytes.length = n

/-- A received frame that holds a whole `arp_packet`. -/
structure Frame where
  bytes : List UInt8
  whole : 42 ≤ bytes.length

/-- The bytes of a frame where an `arp_packet` has the field. -/
def Frame.get (frame : Frame) (f : ArpField) : List UInt8 := field f.offset f.size frame.bytes

/-- `recvfrom` into the cleared packet. -/
def recvfrom (frame : List UInt8) : ArpPacket where
  bytes := frame.take 42 ++ List.replicate (42 - frame.length) 0
  length_bytes := by
    show _ = 42
    rw [List.length_append, List.length_take, List.length_replicate]
    omega

/-- The short of the host that lies in two bytes. -/
def loadShort (order : ByteOrder) : List UInt8 → ℕ
  | first :: second :: _ => order.load first second
  | _ => 0

/-- `htons(n)`, as the host sees it. -/
def htons : ByteOrder → ℕ → ℕ
  | .little, n => 256 * (n % 256) + n / 256
  | .big, n => n

/-- `"%x:%x:%x:%x:%x:%x"` -/
def macFormat : List Directive :=
  [.hex, .char colon, .hex, .char colon, .hex, .char colon, .hex, .char colon, .hex, .char colon,
    .hex]

/-- `fakemac`, if `sscanf` sets all of it. -/
def fakeMac (mac : Argument) : Option (List UInt8) :=
  let iMac := sscanf macFormat mac.chars
  if iMac.length = 6 then some (iMac.map UInt8.ofInt) else none

section

variable (order : ByteOrder) (myMac : Octets 6) (mac : Argument) (targetIP : Octets 4)

/-- `SendArpPacket`, built from `RecArpPacket`. -/
def sendArpPacket (fakemac : List UInt8) (received : ArpPacket) : ArpPacket :=
  let send := received
  let send := send.set ether_dhost (received.get ether_shost)
  let send := send.set ether_shost myMac.bytes
  let send := send.set arp_op (order.store (htons order 0x0002))
  let send := send.set arp_sha fakemac
  let send := send.set arp_spa targetIP.bytes
  let send := send.set arp_tha (received.get arp_sha)
  send.set arp_tpa (received.get arp_spa)

/-- One pass of the loop: what it sends. -/
def spoofPass (frame : List UInt8) : Option (List ArpPacket) :=
  let received := recvfrom frame
  if htons order (loadShort order (received.get ether_type)) = 0x806 then
    if htons order (loadShort order (received.get arp_op)) ≠ 0x0001 then some []
    else if received.get arp_tpa = targetIP.bytes then
      (fakeMac mac).map fun fakemac => [sendArpPacket order myMac targetIP fakemac received]
    else some []
  else some []

/-- The loop, over the frames received. -/
def sendWrongReplyLoop : List (List UInt8) → Option (List ArpPacket)
  | [] => some []
  | frame :: frames => do
      let sent ← spoofPass order myMac mac targetIP frame
      let later ← sendWrongReplyLoop frames
      return sent ++ later

end

/-! ## What is answered, and how -/

/-- An ARP request whose target protocol address is the target IP. -/
structure RequestFor (targetIP : Octets 4) (frame : Frame) : Prop where
  arp : frame.get ether_type = [0x08, 0x06]
  request : frame.get arp_op = [0x00, 0x01]
  target : frame.get arp_tpa = targetIP.bytes

instance (targetIP : Octets 4) : DecidablePred (RequestFor targetIP) := fun frame =>
  decidable_of_iff (frame.get ether_type = [0x08, 0x06] ∧ frame.get arp_op = [0x00, 0x01] ∧
    frame.get arp_tpa = targetIP.bytes)
    ⟨fun ⟨harp, hrequest, htarget⟩ => ⟨harp, hrequest, htarget⟩,
      fun ⟨harp, hrequest, htarget⟩ => ⟨harp, hrequest, htarget⟩⟩

/-- The fields in which an answer differs from its request. -/
def answerFields : List ArpField :=
  [ether_dhost, ether_shost, arp_op, arp_sha, arp_spa, arp_tha, arp_tpa]

/-- The reply to a request that says the target IP is at the address `fake`. -/
structure Answers (myMac fake : Octets 6) (targetIP : Octets 4) (request : Frame)
    (sent : ArpPacket) : Prop where
  op : sent.get arp_op = [0x00, 0x02]
  sha : sent.get arp_sha = fake.bytes
  spa : sent.get arp_spa = targetIP.bytes
  tha : sent.get arp_tha = request.get arp_sha
  tpa : sent.get arp_tpa = request.get arp_spa
  dhost : sent.get ether_dhost = request.get ether_shost
  shost : sent.get ether_shost = myMac.bytes
  others : ∀ f, f ∉ answerFields → sent.get f = request.get f

/-- The MAC address is written as these octets are. -/
def Denotes (mac : Argument) (octets : Octets 6) : Prop := mac.chars = macText octets.bytes

/-! ## Shorts -/

variable {order : ByteOrder} {myMac fake : Octets 6} {mac : Argument} {targetIP : Octets 4}

/-- On either host `htons` of a short is the number its bytes are in network order. -/
theorem htons_load (first second : UInt8) :
    htons order (order.load first second) = 256 * first.toNat + second.toNat := by
  have hfirst : first.toNat < 256 := first.toNat_lt
  cases order with
  | little =>
      simp only [ByteOrder.load, htons]
      omega
  | big => rfl

theorem htons_loadShort_eq_iff {bytes : List UInt8} (hlength : bytes.length = 2)
    {first second : UInt8} :
    htons order (loadShort order bytes) = 256 * first.toNat + second.toNat ↔
      bytes = [first, second] := by
  obtain ⟨high, low, rfl⟩ := List.length_eq_two.mp hlength
  have hlow : low.toNat < 256 := low.toNat_lt
  have hsecond : second.toNat < 256 := second.toNat_lt
  rw [loadShort, htons_load, List.cons.injEq, List.cons.injEq, ← UInt8.toNat_inj,
    ← UInt8.toNat_inj]
  constructor
  · intro h
    exact ⟨by omega, by omega, rfl⟩
  · rintro ⟨hhigh, hlow, -⟩
    rw [hhigh, hlow]

/-! ## The received packet -/

theorem get_recvfrom (frame : Frame) (f : ArpField) :
    (recvfrom frame.bytes).get f = frame.get f :=
  field_take_append (arpLayout.bounded f) frame.whole _

/-! ## The fake address -/

theorem digitValue_hexChar {d : ℕ} (h : d < 16) : digitValue (hexChar d) = some d := by
  have hall : ∀ d : Fin 16, digitValue (hexChar d) = some d.val := by decide
  exact hall ⟨d, h⟩

theorem scanHex_octetText (octet : UInt8) {s : List UInt8} (hend : s.head?.bind digitValue = none) :
    scanHex (octetText octet ++ s) = some ((octet.toNat : ℤ), s) := by
  have hoctet : octet.toNat < 256 := octet.toNat_lt
  have hpair := scanHex_pair (digitValue_hexChar (by omega : octet.toNat / 16 < 16))
    (digitValue_hexChar (by omega : octet.toNat % 16 < 16)) hend
  rw [Nat.div_add_mod] at hpair
  exact hpair

/-- The format for `n + 1` octets. -/
def octetsFormat : ℕ → List Directive
  | 0 => [.hex]
  | n + 1 => .hex :: .char colon :: octetsFormat n

/-- `sscanf` reads the octets back from their text. -/
theorem sscanf_macText {octets : List UInt8} {n : ℕ} (h : octets.length = n + 1) :
    sscanf (octetsFormat n) (macText octets) = octets.map fun octet => (octet.toNat : ℤ) := by
  induction n generalizing octets with
  | zero =>
      obtain ⟨octet, rfl⟩ := List.length_eq_one_iff.mp h
      have hscan := scanHex_octetText octet (s := []) rfl
      rw [List.append_nil] at hscan
      simp [octetsFormat, macText, sscanf, hscan]
  | succ n ih =>
      obtain ⟨octet, octets, rfl⟩ := List.exists_cons_of_length_eq_add_one h
      rw [List.length_cons, Nat.add_right_cancel_iff] at h
      have hscan := scanHex_octetText octet (s := colon :: macText octets) rfl
      rw [macText_cons octet (List.ne_nil_of_length_eq_add_one h)]
      simp [octetsFormat, sscanf, hscan, ih h]

theorem fakeMac_of_denotes (h : Denotes mac fake) : fakeMac mac = some fake.bytes := by
  have hscan : sscanf macFormat mac.chars = fake.bytes.map fun octet => (octet.toNat : ℤ) := by
    rw [h]
    exact sscanf_macText fake.length_bytes
  have hcast : ∀ octet : UInt8, UInt8.ofInt octet.toNat = octet := by
    intro octet
    have hoctet : octet.toNat < 256 := octet.toNat_lt
    have hmod : ((octet.toNat : ℤ) % 2 ^ 8).toNat = octet.toNat := by omega
    rw [UInt8.ofInt, hmod, UInt8.ofNat_toNat]
  simp only [fakeMac, hscan, List.length_map, fake.length_bytes, if_true, List.map_map]
  simp [Function.comp_def, hcast]

/-- An accepted MAC address denotes six octets, and no others. -/
theorem exists_denotes (h : isValidMacAddress mac.chars = 1) :
    ∃ octets, Denotes mac octets ∧ ∀ other, Denotes mac other → other = octets := by
  obtain ⟨octets, hsix, hmac⟩ := isValidMacAddress_iff.mp h
  have hfake := @fakeMac_of_denotes ⟨octets, hsix⟩ mac hmac
  refine ⟨⟨octets, hsix⟩, hmac, fun other hother => ?_⟩
  rw [fakeMac_of_denotes hother] at hfake
  cases other
  simpa using hfake

/-! ## The answer -/

theorem answers_sendArpPacket (frame : Frame) :
    Answers myMac fake targetIP frame
      (sendArpPacket order myMac targetIP fake.bytes (recvfrom frame.bytes)) := by
  have hstore : order.store (htons order 0x0002) = [0x00, 0x02] := by cases order <;> rfl
  have hlength : ∀ f, (frame.get f).length = f.size := fun f =>
    get_recvfrom frame f ▸ (recvfrom frame.bytes).length_get f
  simp only [sendArpPacket, hstore, get_recvfrom]
  refine ⟨?_, ?_, ?_, ?_, ?_, ?_, ?_, fun f hf => ?_⟩
  · simp (disch := decide) only [Record.get_set_of_ne]
    exact Record.get_set _ rfl
  · simp (disch := decide) only [Record.get_set_of_ne]
    exact Record.get_set _ fake.length_bytes
  · simp (disch := decide) only [Record.get_set_of_ne]
    exact Record.get_set _ targetIP.length_bytes
  · simp (disch := decide) only [Record.get_set_of_ne]
    exact Record.get_set _ (hlength arp_sha)
  · exact Record.get_set _ (hlength arp_spa)
  · simp (disch := decide) only [Record.get_set_of_ne]
    exact Record.get_set _ (hlength ether_shost)
  · simp (disch := decide) only [Record.get_set_of_ne]
    exact Record.get_set _ myMac.length_bytes
  · simp only [answerFields, List.mem_cons, List.not_mem_nil, or_false, not_or] at hf
    obtain ⟨hdhost, hshost, hop, hsha, hspa, htha, htpa⟩ := hf
    rw [Record.get_set_of_ne _ htpa, Record.get_set_of_ne _ htha, Record.get_set_of_ne _ hspa,
      Record.get_set_of_ne _ hsha, Record.get_set_of_ne _ hop, Record.get_set_of_ne _ hshost,
      Record.get_set_of_ne _ hdhost, get_recvfrom]

/-- There is only one answer to a request. -/
theorem answers_iff {frame : Frame} {sent : ArpPacket} :
    Answers myMac fake targetIP frame sent ↔
      sent = sendArpPacket order myMac targetIP fake.bytes (recvfrom frame.bytes) := by
  constructor
  · intro h
    have h' : Answers myMac fake targetIP frame
        (sendArpPacket order myMac targetIP fake.bytes (recvfrom frame.bytes)) :=
      answers_sendArpPacket frame
    refine Record.ext_get fun f => ?_
    by_cases hf : f ∈ answerFields
    · simp only [answerFields, List.mem_cons, List.not_mem_nil, or_false] at hf
      rcases hf with rfl | rfl | rfl | rfl | rfl | rfl | rfl
      · rw [h.dhost, h'.dhost]
      · rw [h.shost, h'.shost]
      · rw [h.op, h'.op]
      · rw [h.sha, h'.sha]
      · rw [h.spa, h'.spa]
      · rw [h.tha, h'.tha]
      · rw [h.tpa, h'.tpa]
    · rw [h.others f hf, h'.others f hf]
  · rintro rfl
    exact answers_sendArpPacket frame

/-! ## The loop -/

/-- A pass answers a request for the target, and sends nothing otherwise. -/
theorem spoofPass_eq (hmac : Denotes mac fake) (frame : Frame) :
    spoofPass order myMac mac targetIP frame.bytes = some
      (if RequestFor targetIP frame then
        [sendArpPacket order myMac targetIP fake.bytes (recvfrom frame.bytes)] else []) := by
  have hlength : ∀ f, (frame.get f).length = f.size := fun f =>
    get_recvfrom frame f ▸ (recvfrom frame.bytes).length_get f
  have htype : htons order (loadShort order (frame.get ether_type)) = 0x806 ↔
      frame.get ether_type = [0x08, 0x06] :=
    @htons_loadShort_eq_iff order _ (hlength ether_type) 0x08 0x06
  have hop : htons order (loadShort order (frame.get arp_op)) = 0x0001 ↔
      frame.get arp_op = [0x00, 0x01] :=
    @htons_loadShort_eq_iff order _ (hlength arp_op) 0x00 0x01
  simp only [spoofPass, get_recvfrom, htype, ne_eq, hop, fakeMac_of_denotes hmac, Option.map_some]
  by_cases harp : frame.get ether_type = [0x08, 0x06]
  · rw [if_pos harp]
    by_cases hrequest : frame.get arp_op = [0x00, 0x01]
    · rw [if_neg (not_not.mpr hrequest)]
      by_cases htarget : frame.get arp_tpa = targetIP.bytes
      · rw [if_pos htarget, if_pos ⟨harp, hrequest, htarget⟩]
      · rw [if_neg htarget, if_neg fun h => htarget h.target]
    · rw [if_pos hrequest, if_neg fun h => hrequest h.request]
  · rw [if_neg harp, if_neg fun h => harp h.arp]

theorem sendWrongReplyLoop_eq (hmac : Denotes mac fake) (frames : List Frame) :
    sendWrongReplyLoop order myMac mac targetIP (frames.map Frame.bytes) = some
      ((frames.filter (RequestFor targetIP)).map fun frame =>
        sendArpPacket order myMac targetIP fake.bytes (recvfrom frame.bytes)) := by
  induction frames with
  | nil => rfl
  | cons frame frames ih =>
      rw [List.map_cons, sendWrongReplyLoop, spoofPass_eq hmac, ih]
      by_cases hrequest : RequestFor targetIP frame
      · rw [List.filter_cons_of_pos (by simpa using hrequest), if_pos hrequest]
        rfl
      · rw [List.filter_cons_of_neg (by simpa using hrequest), if_neg hrequest]
        rfl

/-- In its mode the loop sends nothing that was not set, whatever is received. -/
theorem sendWrongReplyLoop_isSome {inetPton : Argument → ℤ} {arp ip : Argument}
    (h : findCommentType inetPton [arp, mac, ip] = .sendWrongReply) (frames : List (List UInt8)) :
    (sendWrongReplyLoop order myMac mac targetIP frames).isSome := by
  obtain ⟨_, _, _, hargv, hmac⟩ := findCommentType_eq_sendWrongReply_iff.mp h
  simp only [List.cons.injEq, and_true] at hargv
  obtain ⟨rfl, rfl, rfl⟩ := hargv
  obtain ⟨fake, hfake, -⟩ := exists_denotes hmac
  induction frames with
  | nil => rfl
  | cons frame frames ih =>
      obtain ⟨later, hlater⟩ := Option.isSome_iff_exists.mp ih
      have hpass : (spoofPass order myMac mac targetIP frame).isSome := by
        simp only [spoofPass, fakeMac_of_denotes hfake]
        split_ifs <;> rfl
      obtain ⟨sent, hsent⟩ := Option.isSome_iff_exists.mp hpass
      rw [sendWrongReplyLoop, hsent, hlater]
      rfl

/-- **Spoofing mode.**  With an accepted MAC address, the frames sent answer the requests for the
target IP among the frames received, one by one and in order, and there are no others. -/
theorem sendWrongReply_answers (order : ByteOrder) (myMac : Octets 6) (targetIP : Octets 4)
    (mac : Argument) (h : isValidMacAddress mac.chars = 1) (frames : List Frame) :
    ∃ fake, Denotes mac fake ∧ (∀ other, Denotes mac other → other = fake) ∧
      ∃ sent, sendWrongReplyLoop order myMac mac targetIP (frames.map Frame.bytes) = some sent ∧
        List.Forall₂ (Answers myMac fake targetIP) (frames.filter (RequestFor targetIP)) sent := by
  obtain ⟨fake, hmac, hunique⟩ := exists_denotes h
  refine ⟨fake, hmac, hunique, _, sendWrongReplyLoop_eq hmac frames, ?_⟩
  rw [List.forall₂_map_right_iff]
  exact List.forall₂_same.mpr fun frame _ => answers_iff.mpr rfl

namespace WhoHas

def own : Octets 6 := ⟨[0x02, 0, 0, 0, 0, 0x01], rfl⟩

def target : Octets 4 := ⟨[10, 0, 0, 1], rfl⟩

def typedMac : Argument := ⟨CString.lit "0a:1b:2c:3d:4e:5f", by decide⟩

/-- 10.0.0.2 asks who has 10.0.0.1. -/
def request : Frame where
  bytes := [0xff, 0xff, 0xff, 0xff, 0xff, 0xff, 0x02, 0, 0, 0, 0, 0x02, 0x08, 0x06, 0, 1, 0x08, 0,
    6, 4, 0, 1, 0x02, 0, 0, 0, 0, 0x02, 10, 0, 0, 2, 0, 0, 0, 0, 0, 0, 10, 0, 0, 1]
  whole := by decide

theorem sendWrongReply_request : ∃ octets, Denotes typedMac octets ∧
    (∀ other, Denotes typedMac other → other = octets) ∧
      ∃ sent,
        sendWrongReplyLoop .little own typedMac target ([request].map Frame.bytes) = some sent ∧
        List.Forall₂ (Answers own octets target) ([request].filter (RequestFor target)) sent :=
  sendWrongReply_answers .little own target typedMac (by decide) [request]

example :
    (sendWrongReplyLoop .little own typedMac target [request.bytes]).map (·.map Record.bytes) =
      some [[0x02, 0, 0, 0, 0, 0x02, 0x02, 0, 0, 0, 0, 0x01, 0x08, 0x06, 0, 1, 0x08, 0, 6, 4, 0, 2,
        0x0a, 0x1b, 0x2c, 0x3d, 0x4e, 0x5f, 10, 0, 0, 1, 0x02, 0, 0, 0, 0, 0x02, 10, 0, 0, 2]] := by
  decide

end WhoHas

end NetworkHomework.Arp
