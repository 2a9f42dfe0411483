import NetworkHomework.Arp.Listing

/-!
# Query mode

`SendBroadcastToQuery` broadcasts one request and then reads replies.  Every reply is
printed, also those from other addresses, and the first one from the address asked for
ends the program.  The program does not look at what a reply answers, so whoever speaks
first for the address is believed, and a host in spoofing mode on the same network is
believed if it comes first.
-/

namespace NetworkHomework.Arp

open ArpField CString Scan Fields
open NetworkHomework.Ftp (ByteOrder)

/-- `memset(&ArpPacket, 0, sizeof(ArpPacket))` -/
def clearedPacket : ArpPacket := ⟨List.replicate 42 0, List.length_replicate⟩

section

variable (order : ByteOrder) (myMac : Octets 6) (myIP targetIP : Octets 4)

/-- The request that is broadcast; `arp_tha` stays cleared. -/
def queryPacket : ArpPacket :=
  let arp := clearedPacket
  let arp := arp.set ether_dhost [0xff, 0xff, 0xff, 0xff, 0xff, 0xff]
  let arp := arp.set ether_shost myMac.bytes
  let arp := arp.set ether_type (order.store (htons order 0x0806))
  let arp := arp.set arp_hrd (order.store (htons order 0x0001))
  let arp := arp.set arp_pro (order.store (htons order 0x0800))
  let arp := arp.set arp_hln [6]
  let arp := arp.set arp_pln [4]
  let arp := arp.set arp_op (order.store (htons order 0x0001))
  let arp := arp.set arp_sha myMac.bytes
  let arp := arp.set arp_spa myIP.bytes
  arp.set arp_tpa targetIP.bytes

/-- The loop behind the request, over the frames received: what it prints, and whether it
returns. -/
def queryLoop : List (List UInt8) → List UInt8 × Bool
  | [] => ([], false)
  | frame :: frames =>
      let arp := recvfrom frame
      if htons order (loadShort order (arp.get ether_type)) = 0x806 then
        if htons order (loadShort order (arp.get arp_op)) ≠ 0x0002 then queryLoop frames
        else if arp.get arp_spa = targetIP.bytes then (replyLines order printedChar arp, true)
        else
          let (printed, returned) := queryLoop frames
          (replyLines order printedChar arp ++ printed, returned)
      else queryLoop frames

end

/-! ## The loop -/

/-- A reply, as it is printed. -/
structure ReplyLine where
  spa : Octets 4
  sha : Octets 6

/-- The reply an `arp_packet` is, if it is one. -/
def replyOf (arp : ArpPacket) : Option ReplyLine :=
  if arp.get ether_type = [0x08, 0x06] ∧ arp.get arp_op = [0x00, 0x02] then
    some ⟨⟨arp.get arp_spa, arp.length_get arp_spa⟩, ⟨arp.get arp_sha, arp.length_get arp_sha⟩⟩
  else none

/-- The replies among the frames received. -/
def replies (frames : List (List UInt8)) : List ReplyLine := (frames.map recvfrom).filterMap replyOf

def ReplyLine.text (line : ReplyLine) : List UInt8 :=
  Entry.text [] [] (.reply line.spa line.sha)

def ReplyLine.From (targetIP : Octets 4) (line : ReplyLine) : Prop :=
  line.spa.bytes = targetIP.bytes

instance (targetIP : Octets 4) : DecidablePred (ReplyLine.From targetIP) := fun line =>
  inferInstanceAs (Decidable (line.spa.bytes = _))

variable {order : ByteOrder} {myMac fake : Octets 6} {myIP targetIP : Octets 4}

theorem replies_cons (frame : List UInt8) (frames : List (List UInt8)) :
    replies (frame :: frames) = (replyOf (recvfrom frame)).toList ++ replies frames := by
  rw [replies, List.map_cons, List.filterMap_cons]
  cases replyOf (recvfrom frame) <;> rfl

theorem replyOf_of_reply {arp : ArpPacket} (harp : arp.get ether_type = [0x08, 0x06])
    (hreply : arp.get arp_op = [0x00, 0x02]) :
    replyOf arp = some ⟨⟨arp.get arp_spa, arp.length_get arp_spa⟩,
      ⟨arp.get arp_sha, arp.length_get arp_sha⟩⟩ :=
  if_pos ⟨harp, hreply⟩

/-- A pass looks at the reply and at nothing else. -/
theorem queryLoop_cons (frame : List UInt8) (frames : List (List UInt8)) :
    queryLoop order targetIP (frame :: frames) =
      match replyOf (recvfrom frame) with
      | none => queryLoop order targetIP frames
      | some line =>
          if line.From targetIP then (line.text, true)
          else (line.text ++ (queryLoop order targetIP frames).1,
            (queryLoop order targetIP frames).2) := by
  generalize hargument : recvfrom frame = arp
  have htype : htons order (loadShort order (arp.get ether_type)) = 0x806 ↔
      arp.get ether_type = [0x08, 0x06] :=
    @htons_loadShort_eq_iff order _ (arp.length_get ether_type) 0x08 0x06
  have hop : htons order (loadShort order (arp.get arp_op)) = 0x0002 ↔
      arp.get arp_op = [0x00, 0x02] :=
    @htons_loadShort_eq_iff order _ (arp.length_get arp_op) 0x00 0x02
  simp only [queryLoop, hargument, htype, ne_eq, hop]
  by_cases harp : arp.get ether_type = [0x08, 0x06]
  · by_cases hreply : arp.get arp_op = [0x00, 0x02]
    · have htext : replyLines order printedChar arp = ReplyLine.text
          ⟨⟨arp.get arp_spa, arp.length_get arp_spa⟩,
            ⟨arp.get arp_sha, arp.length_get arp_sha⟩⟩ := by
        rw [replyLines, @operationText_reply order printedChar rfl arp hreply]
        simp only [ReplyLine.text, Entry.text, List.append_assoc]
      rw [replyOf_of_reply harp hreply, if_pos harp, if_neg (not_not.mpr hreply), htext]
      rfl
    · have hnone : replyOf arp = none := if_neg fun h => hreply h.2
      rw [hnone, if_pos harp, if_pos hreply]
  · have hnone : replyOf arp = none := if_neg fun h => harp h.1
    rw [hnone, if_neg harp]

/-- **The query loop** prints the replies up to the first one from the address asked for, and
returns when there is one. -/
theorem queryLoop_eq (order : ByteOrder) (targetIP : Octets 4) (frames : List (List UInt8)) :
    queryLoop order targetIP frames =
      (((replies frames).takeWhile fun line => ¬ line.From targetIP).flatMap ReplyLine.text ++
          (((replies frames).find? fun line => line.From targetIP).map ReplyLine.text).getD [],
        ((replies frames).find? fun line => line.From targetIP).isSome) := by
  induction frames with
  | nil => rfl
  | cons frame frames ih =>
      rw [queryLoop_cons, replies_cons]
      cases replyOf (recvfrom frame) with
      | none => exact ih
      | some line =>
          by_cases hfrom : line.From targetIP
          · simp [hfrom]
          · simp [hfrom, ih]

/-! ## The request -/

/-- A broadcast request for the MAC address of the target IP, field by field. -/
structure IsQuery (myMac : Octets 6) (myIP targetIP : Octets 4) (arp : ArpPacket) : Prop where
  dhost : arp.get ether_dhost = [0xff, 0xff, 0xff, 0xff, 0xff, 0xff]
  shost : arp.get ether_shost = myMac.bytes
  type : arp.get ether_type = [0x08, 0x06]
  hrd : arp.get arp_hrd = [0x00, 0x01]
  pro : arp.get arp_pro = [0x08, 0x00]
  hln : arp.get arp_hln = [6]
  pln : arp.get arp_pln = [4]
  op : arp.get arp_op = [0x00, 0x01]
  sha : arp.get arp_sha = myMac.bytes
  spa : arp.get arp_spa = myIP.bytes
  tha : arp.get arp_tha = [0, 0, 0, 0, 0, 0]
  tpa : arp.get arp_tpa = targetIP.bytes

/-- `htons` stores the bytes of a number in network order on any host. -/
theorem store_htons (first second : UInt8) :
    order.store (htons order (256 * first.toNat + second.toNat)) = [first, second] := by
  have hfirst : first.toNat < 256 := first.toNat_lt
  have hsecond : second.toNat < 256 := second.toNat_lt
  have hdiv : (256 * first.toNat + second.toNat) / 256 = first.toNat := by omega
  have hmod : (256 * first.toNat + second.toNat) % 256 = second.toNat := by omega
  cases order with
  | little =>
      simp only [htons, hdiv, hmod, ByteOrder.store, List.cons.injEq, and_true,
        ← UInt8.toNat_inj, UInt8.toNat_ofNat']
      omega
  | big =>
      simp only [htons, hdiv, ByteOrder.store, List.cons.injEq, and_true, ← UInt8.toNat_inj,
        UInt8.toNat_ofNat']
      omega

theorem isQuery_queryPacket (order : ByteOrder) (myMac : Octets 6) (myIP targetIP : Octets 4) :
    IsQuery myMac myIP targetIP (queryPacket order myMac myIP targetIP) := by
  have htype : order.store (htons order 0x0806) = [0x08, 0x06] := store_htons 0x08 0x06
  have hone : order.store (htons order 0x0001) = [0x00, 0x01] := store_htons 0x00 0x01
  have hpro : order.store (htons order 0x0800) = [0x08, 0x00] := store_htons 0x08 0x00
  simp only [queryPacket, htype, hone, hpro]
  constructor
  case tpa => exact Record.get_set _ targetIP.length_bytes
  case tha =>
    simp (disch := decide) only [Record.get_set_of_ne]
    rfl
  all_goals simp (disch := decide) only [Record.get_set_of_ne]
  case shost => exact Record.get_set _ myMac.length_bytes
  case sha => exact Record.get_set _ myMac.length_bytes
  case spa => exact Record.get_set _ myIP.length_bytes
  all_goals exact Record.get_set _ rfl

/-! ## A spoofing host on the same network -/

/-- The request as a frame on the wire. -/
def ArpPacket.toFrame (arp : ArpPacket) : Frame := ⟨arp.bytes, Nat.le_of_eq arp.length_bytes.symm⟩

theorem IsQuery.requestFor {arp : ArpPacket} (h : IsQuery myMac myIP targetIP arp) :
    RequestFor targetIP arp.toFrame :=
  ⟨h.type, h.op, h.tpa⟩

/-- The reply in the answer of a spoofing host. -/
theorem replyOf_answer {spoofer : Octets 6} {arp sent : ArpPacket}
    (hquery : IsQuery myMac myIP targetIP arp)
    (h : Answers spoofer fake targetIP arp.toFrame sent) :
    replyOf (recvfrom sent.bytes) = some ⟨targetIP, fake⟩ := by
  have hrecv : ∀ f, (recvfrom sent.bytes).get f = sent.get f := fun f =>
    get_recvfrom sent.toFrame f
  generalize recvfrom sent.bytes = received at *
  have hspa : (⟨received.get arp_spa, received.length_get arp_spa⟩ : Octets 4) = targetIP :=
    Octets.ext ((hrecv arp_spa).trans h.spa)
  have hsha : (⟨received.get arp_sha, received.length_get arp_sha⟩ : Octets 6) = fake :=
    Octets.ext ((hrecv arp_sha).trans h.sha)
  have htype : sent.get ether_type = [0x08, 0x06] :=
    (h.others ether_type (by decide)).trans hquery.type
  rw [replyOf_of_reply ((hrecv ether_type).trans htype) ((hrecv arp_op).trans h.op), hspa, hsha]

/-- The output and the end of a query whose first reply from the address is `line`. -/
theorem queryLoop_first {before later : List (List UInt8)} {frame : List UInt8} {line : ReplyLine}
    (hbefore : ∀ other ∈ replies before, ¬ other.From targetIP)
    (hframe : replyOf (recvfrom frame) = some line) (hline : line.From targetIP) :
    queryLoop order targetIP (before ++ frame :: later) =
      ((replies before).flatMap ReplyLine.text ++ line.text, true) := by
  induction before with
  | nil =>
      rw [List.nil_append, queryLoop_cons, hframe]
      simp [hline, replies]
  | cons other before ih =>
      rw [List.cons_append, queryLoop_cons]
      rw [replies_cons] at hbefore ⊢
      cases hother : replyOf (recvfrom other) with
      | none =>
          rw [hother] at hbefore
          exact ih hbefore
      | some otherLine =>
          rw [hother] at hbefore
          have hnot := hbefore otherLine (by simp)
          have hrest := ih fun line hline => hbefore line (List.mem_append_right _ hline)
          simp [hnot, hrest]

/-- The answer of a spoofing host to a query. -/
theorem exists_answer (spooferOrder : ByteOrder) (spoofer : Octets 6) {mac : Argument}
    (hfake : Denotes mac fake) {arp : ArpPacket} (hquery : IsQuery myMac myIP targetIP arp) :
    ∃ answer, Answers spoofer fake targetIP arp.toFrame answer ∧
      ∀ frames : List Frame, arp.toFrame ∈ frames →
        ∃ sent, sendWrongReplyLoop spooferOrder spoofer mac targetIP
          (frames.map Frame.bytes) = some sent ∧ answer ∈ sent := by
  have hanswer := @answers_sendArpPacket spooferOrder spoofer fake targetIP arp.toFrame
  refine ⟨_, hanswer, fun frames hmem => ?_⟩
  refine ⟨_, sendWrongReplyLoop_eq hfake frames, ?_⟩
  have hrequest : arp.toFrame ∈ frames.filter (RequestFor targetIP) :=
    List.mem_filter.mpr ⟨hmem, decide_eq_true hquery.requestFor⟩
  exact List.mem_map_of_mem hrequest

/-- **A spoofed query.**  Whatever else the spoofing host receives, it answers the query of another
host, and if no reply from the address asked for comes before this answer, the query ends with it:
the last line printed says that the address is at the MAC address typed in at the spoofing host. -/
theorem query_spoofed (order spooferOrder : ByteOrder) (myMac spoofer : Octets 6)
    (myIP targetIP : Octets 4) (mac : Argument) (h : isValidMacAddress mac.chars = 1) :
    ∃ fake answer, Denotes mac fake ∧
      (∀ frames : List Frame, (queryPacket order myMac myIP targetIP).toFrame ∈ frames →
        ∃ sent, sendWrongReplyLoop spooferOrder spoofer mac targetIP
          (frames.map Frame.bytes) = some sent ∧ answer ∈ sent) ∧
      (answer.get ether_dhost = myMac.bytes ∧ answer.get arp_tha = myMac.bytes ∧
        answer.get arp_tpa = myIP.bytes) ∧
      ∀ before later : List (List UInt8), (∀ line ∈ replies before, ¬ line.From targetIP) →
        queryLoop order targetIP (before ++ answer.bytes :: later) =
          ((replies before).flatMap ReplyLine.text ++ ReplyLine.text ⟨targetIP, fake⟩, true) := by
  obtain ⟨fake, hfake, -⟩ := exists_denotes h
  have hquery := isQuery_queryPacket order myMac myIP targetIP
  generalize queryPacket order myMac myIP targetIP = arp at *
  obtain ⟨answer, hanswer, hsent⟩ :=
    exists_answer spooferOrder spoofer hfake hquery
  refine ⟨fake, answer, hfake, hsent, ⟨?_, ?_, ?_⟩, fun before later hbefore => ?_⟩
  · exact hanswer.dhost.trans hquery.shost
  · exact hanswer.tha.trans hquery.sha
  · exact hanswer.tpa.trans hquery.spa
  · exact queryLoop_first hbefore (replyOf_answer hquery hanswer) rfl

namespace WhoHas

/-- 10.0.0.2 asks, and the host in spoofing mode is not at 10.0.0.1. -/
theorem query_spoofed_target : ∃ fake answer, Denotes typedMac fake ∧
    (∀ frames : List Frame,
      (queryPacket .little ⟨[0x02, 0, 0, 0, 0, 0x02], rfl⟩ ⟨[10, 0, 0, 2], rfl⟩ target).toFrame ∈
        frames →
      ∃ sent, sendWrongReplyLoop .big own typedMac target (frames.map Frame.bytes) = some sent ∧
        answer ∈ sent) ∧
    (answer.get ether_dhost = [0x02, 0, 0, 0, 0, 0x02] ∧
      answer.get arp_tha = [0x02, 0, 0, 0, 0, 0x02] ∧ answer.get arp_tpa = [10, 0, 0, 2]) ∧
    ∀ before later : List (List UInt8), (∀ line ∈ replies before, ¬ line.From target) →
      queryLoop .little target (before ++ answer.bytes :: later) =
        ((replies before).flatMap ReplyLine.text ++ ReplyLine.text ⟨target, fake⟩, true) :=
  query_spoofed .little .big ⟨[0x02, 0, 0, 0, 0, 0x02], rfl⟩ own ⟨[10, 0, 0, 2], rfl⟩ target
    typedMac (by decide)

end WhoHas

end NetworkHomework.Arp
