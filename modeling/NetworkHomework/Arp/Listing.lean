import NetworkHomework.Foundation.ReadsBack
import NetworkHomework.Arp.PrintedMac

/-!
# The listing modes

`ShowAllArpPacket` and `ShowWithFilter` print what they receive for as long as they run:
for a request who asks for which address, for a reply which address is where.  The two
modes differ in the words around the addresses, and the second one leaves out what is
not about the address on the command line.

IP addresses are printed in decimal with at least two digits, so their texts have no
fixed length.  Still the output of either mode tells exactly which requests and replies
were received, in which order, and it does not depend on the byte order of the host.
-/

namespace NetworkHomework.Arp

open ArpField CString Scan
open NetworkHomework.Ftp (ByteOrder)

/-! ## What is printed -/

/-- `printf("%02d", octet)` -/
def decimalText (octet : UInt8) : List UInt8 :=
  let n := octet.toNat
  if n < 100 then [printedChar (n / 10), printedChar (n % 10)]
  else [printedChar (n / 100), printedChar (n / 10 % 10), printedChar (n % 10)]

/-- `printf("%02d:%02d:%02d:%02d", ...)` -/
def ipText : List UInt8 → List UInt8 := ReadsBack.joined [colon] decimalText

/-- `printf("%x", n)` of a short, or `%X`, by the digits used. -/
def hexText (digit : ℕ → UInt8) (n : ℕ) : List UInt8 :=
  (([n / 4096 % 16, n / 256 % 16, n / 16 % 16].dropWhile (· = 0)) ++ [n % 16]).map digit

section

variable (order : ByteOrder)

/-- `printf("OPERATION : %x \n", ntohs(arp_op))` -/
def operationText (digit : ℕ → UInt8) (arp : ArpPacket) : List UInt8 :=
  lit "OPERATION : " ++ hexText digit (htons order (loadShort order (arp.get arp_op))) ++ lit " \n"

/-- The lines for a request, with the words of the mode. -/
def requestLines (whoHas teller : List UInt8) (arp : ArpPacket) : List UInt8 :=
  operationText order hexChar arp ++ whoHas ++ ipText (arp.get arp_tpa) ++ teller ++
    ipText (arp.get arp_spa) ++ lit "\n"

/-- The lines for a reply. -/
def replyLines (digit : ℕ → UInt8) (arp : ArpPacket) : List UInt8 :=
  operationText order digit arp ++ lit "Mac address of Target IP : " ++ ipText (arp.get arp_spa) ++
    lit " is  address: " ++ printedText (arp.get arp_sha) ++ lit "\n"

/-- One pass of a listing mode, which shows the requests and the replies that it wants. -/
def listPass (whoHas teller : List UInt8) (wantsRequest wantsReply : ArpPacket → Bool)
    (frame : List UInt8) : List UInt8 :=
  let arp := recvfrom frame
  if loadShort order (arp.get ether_type) = htons order 0x0806 then
    (if loadShort order (arp.get arp_op) = htons order 0x0001 ∧ wantsRequest arp then
      requestLines order whoHas teller arp else []) ++
    (if loadShort order (arp.get arp_op) = htons order 0x0002 ∧ wantsReply arp then
      replyLines order hexChar arp else [])
  else []

/-- The output of the mode `-l -a` for the frames received. -/
def showAllArpPacket (frames : List (List UInt8)) : List UInt8 :=
  frames.flatMap (listPass order (lit "Who has IP address: ") (lit "\tTeller IP address: ")
    (fun _ => true) fun _ => true)

/-- The output of the mode `-l <ip>`. -/
def showWithFilter (targetIP : Octets 4) (frames : List (List UInt8)) : List UInt8 :=
  frames.flatMap (listPass order (lit "Who has Target IP address: ")
    (lit "\tTeller Sender IP address: ") (fun arp => arp.get arp_tpa = targetIP.bytes)
    fun arp => arp.get arp_spa = targetIP.bytes)

end

/-! ## What is shown -/

/-- A request, or a reply, by the addresses that are printed for it. -/
inductive Entry
  | request (tpa spa : Octets 4)
  | reply (spa : Octets 4) (sha : Octets 6)

def requestEntry (arp : ArpPacket) : Entry :=
  .request ⟨arp.get arp_tpa, arp.length_get arp_tpa⟩ ⟨arp.get arp_spa, arp.length_get arp_spa⟩

def replyEntry (arp : ArpPacket) : Entry :=
  .reply ⟨arp.get arp_spa, arp.length_get arp_spa⟩ ⟨arp.get arp_sha, arp.length_get arp_sha⟩

/-- What an `arp_packet` is listed as. -/
def entryOf (arp : ArpPacket) : Option Entry :=
  if arp.get ether_type = [0x08, 0x06] then
    if arp.get arp_op = [0x00, 0x01] then some (requestEntry arp)
    else if arp.get arp_op = [0x00, 0x02] then some (replyEntry arp)
    else none
  else none

/-- The requests and replies among the frames received. -/
def entries (frames : List (List UInt8)) : List Entry :=
  (frames.map recvfrom).filterMap entryOf

/-- A request for the address, or a reply from it. -/
def Entry.About (targetIP : Octets 4) : Entry → Prop
  | .request tpa _ => tpa.bytes = targetIP.bytes
  | .reply spa _ => spa.bytes = targetIP.bytes

instance (targetIP : Octets 4) : DecidablePred (Entry.About targetIP)
  | .request tpa _ => inferInstanceAs (Decidable (tpa.bytes = _))
  | .reply spa _ => inferInstanceAs (Decidable (spa.bytes = _))

/-- The lines for an entry. -/
def Entry.text (whoHas teller : List UInt8) : Entry → List UInt8
  | .request tpa spa =>
      lit "OPERATION : 1 \n" ++ (whoHas ++ (ipText tpa.bytes ++ (teller ++
        (ipText spa.bytes ++ lit "\n"))))
  | .reply spa sha =>
      lit "OPERATION : 2 \n" ++ (lit "Mac address of Target IP : " ++ (ipText spa.bytes ++
        (lit " is  address: " ++ (printedText sha.bytes ++ lit "\n"))))

theorem Octets.ext {n : ℕ} {first second : Octets n} (h : first.bytes = second.bytes) :
    first = second := by
  cases first
  cases second
  congr

/-! ## Reading the addresses back -/

/-- A decimal digit. -/
def isDecimal (c : UInt8) : Bool := 48 ≤ c ∧ c ≤ 57

theorem isDecimal_of_mem_decimalText (octet : UInt8) : ∀ c ∈ decimalText octet, isDecimal c := by
  revert octet
  apply forall_byte
  decide +kernel

theorem decimalText_inj {a b : UInt8} (h : decimalText a = decimalText b) : a = b := by
  have hvalue : ∀ octet, (decimalText octet).foldl (fun n c => 10 * n + (c.toNat - 48)) 0 =
      octet.toNat := by
    apply forall_byte
    decide +kernel
  exact UInt8.toNat_inj.mp (by rw [← hvalue a, h, hvalue b])

/-- What must follow a decimal number. -/
def EndsNumber (s : List UInt8) : Prop := ∀ c ∈ s.head?, ¬ isDecimal c

theorem readsBack_decimalText : ReadsBack decimalText EndsNumber :=
  .of_run isDecimal (fun _ _ => decimalText_inj) isDecimal_of_mem_decimalText

theorem readsBack_ipText : ReadsBack (fun ip : Octets 4 => ipText ip.bytes) EndsNumber := by
  intro a b s t hs ht h
  have hcolon : ∀ s, EndsNumber ([colon] ++ s) := by
    intro s c hc
    obtain rfl : colon = c := Option.some.inj hc
    decide
  have hlength : a.bytes.length = b.bytes.length := a.length_bytes.trans b.length_bytes.symm
  obtain ⟨hbytes, hst⟩ := readsBack_decimalText.joined_inj hcolon hlength hs ht h
  exact ⟨Octets.ext hbytes, hst⟩

/-- MAC addresses are printed with two digits to an octet. -/
theorem readsBack_printedText {Ends : List UInt8 → Prop} :
    ReadsBack (fun mac : Octets 6 => printedText mac.bytes) Ends := by
  refine .of_length (fun a b h => Octets.ext ?_) fun a b => ?_
  · have hmac : printedMac a = printedMac b := by
      simp only [printedMac, h]
    have hfake := fakeMac_printedMac a
    rw [hmac, fakeMac_printedMac b] at hfake
    exact (Option.some.inj hfake).symm
  · rw [printedText_eq, printedText_eq, List.length_map, List.length_map,
      length_macText (n := 5) a.length_bytes, length_macText (n := 5) b.length_bytes]

/-! ## The output is the text of the entries -/

variable {order : ByteOrder} {whoHas teller : List UInt8}

/-- A short received in network order, compared with a number by way of `htons`. -/
theorem loadShort_eq_htons_iff {bytes : List UInt8} (hlength : bytes.length = 2)
    {first second : UInt8} :
    loadShort order bytes = htons order (256 * first.toNat + second.toNat) ↔
      bytes = [first, second] := by
  have hinvolutive : ∀ n < 65536, htons order (htons order n) = n := by
    intro n hn
    cases order with
    | little =>
        simp only [htons]
        omega
    | big => rfl
  rw [← @htons_loadShort_eq_iff order _ hlength]
  obtain ⟨high, low, rfl⟩ := List.length_eq_two.mp hlength
  have hhigh : high.toNat < 256 := high.toNat_lt
  have hlow : low.toNat < 256 := low.toNat_lt
  have hfirst : first.toNat < 256 := first.toNat_lt
  have hsecond : second.toNat < 256 := second.toNat_lt
  have hload : loadShort order [high, low] < 65536 := by
    cases order <;> simp only [loadShort, ByteOrder.load] <;> omega
  constructor
  · intro h
    rw [h, hinvolutive _ (by omega)]
  · intro h
    rw [← h, hinvolutive _ hload]

theorem operationText_request {digit : ℕ → UInt8} (hdigit : digit 1 = 49) {arp : ArpPacket}
    (hop : arp.get arp_op = [0x00, 0x01]) :
    operationText order digit arp = lit "OPERATION : 1 \n" := by
  have hnumber : htons order (loadShort order [0x00, 0x01]) = 1 := by cases order <;> rfl
  have htext : hexText digit 1 = [digit 1] := rfl
  rw [operationText, hop, hnumber, htext, hdigit]
  decide

theorem operationText_reply {digit : ℕ → UInt8} (hdigit : digit 2 = 50) {arp : ArpPacket}
    (hop : arp.get arp_op = [0x00, 0x02]) :
    operationText order digit arp = lit "OPERATION : 2 \n" := by
  have hnumber : htons order (loadShort order [0x00, 0x02]) = 2 := by cases order <;> rfl
  have htext : hexText digit 2 = [digit 2] := rfl
  rw [operationText, hop, hnumber, htext, hdigit]
  decide

/-- A pass prints the text of the entry, if there is one and the mode shows it. -/
theorem listPass_eq {wantsRequest wantsReply : ArpPacket → Bool} {shown : Entry → Bool}
    (hrequest : ∀ arp, wantsRequest arp = shown (requestEntry arp))
    (hreply : ∀ arp, wantsReply arp = shown (replyEntry arp))
    (frame : List UInt8) :
    listPass order whoHas teller wantsRequest wantsReply frame =
      ((entryOf (recvfrom frame)).toList.filter shown).flatMap (Entry.text whoHas teller) := by
  generalize hargument : recvfrom frame = arp
  have htype : loadShort order (arp.get ether_type) = htons order 0x0806 ↔
      arp.get ether_type = [0x08, 0x06] :=
    @loadShort_eq_htons_iff order _ (arp.length_get ether_type) 0x08 0x06
  have hone : loadShort order (arp.get arp_op) = htons order 0x0001 ↔
      arp.get arp_op = [0x00, 0x01] :=
    @loadShort_eq_htons_iff order _ (arp.length_get arp_op) 0x00 0x01
  have htwo : loadShort order (arp.get arp_op) = htons order 0x0002 ↔
      arp.get arp_op = [0x00, 0x02] :=
    @loadShort_eq_htons_iff order _ (arp.length_get arp_op) 0x00 0x02
  simp only [listPass, hargument, htype, hone, htwo, hrequest, hreply, entryOf]
  by_cases harp : arp.get ether_type = [0x08, 0x06]
  · rw [if_pos harp, if_pos harp]
    by_cases hask : arp.get arp_op = [0x00, 0x01]
    · have hother : ¬ (arp.get arp_op = [0x00, 0x02] ∧ shown (replyEntry arp) = true) := by
        rw [hask]
        simp
      rw [if_neg hother, if_pos hask, List.append_nil]
      cases hshown : shown (requestEntry arp)
      · simp [hshown]
      · have hop := @operationText_request order hexChar rfl arp hask
        have hkept : [requestEntry arp].filter shown = [requestEntry arp] := by simp [hshown]
        rw [if_pos ⟨hask, rfl⟩, requestLines, hop, Option.toList_some, hkept,
          List.flatMap_singleton]
        simp only [requestEntry, Entry.text, List.append_assoc]
    · rw [if_neg fun h => hask h.1, if_neg hask, List.nil_append]
      by_cases htell : arp.get arp_op = [0x00, 0x02]
      · rw [if_pos htell]
        cases hshown : shown (replyEntry arp)
        · simp [hshown]
        · have hop := @operationText_reply order hexChar rfl arp htell
          have hkept : [replyEntry arp].filter shown = [replyEntry arp] := by simp [hshown]
          rw [if_pos ⟨htell, rfl⟩, replyLines, hop, Option.toList_some, hkept,
            List.flatMap_singleton]
          simp only [replyEntry, Entry.text, List.append_assoc]
      · simp [htell]
  · simp [harp]

/-- The output of a listing mode. -/
theorem flatMap_listPass {wantsRequest wantsReply : ArpPacket → Bool} {shown : Entry → Bool}
    (hrequest : ∀ arp, wantsRequest arp = shown (requestEntry arp))
    (hreply : ∀ arp, wantsReply arp = shown (replyEntry arp))
    (frames : List (List UInt8)) :
    frames.flatMap (listPass order whoHas teller wantsRequest wantsReply) =
      ((entries frames).filter shown).flatMap (Entry.text whoHas teller) := by
  induction frames with
  | nil => rfl
  | cons frame frames ih =>
      have hentries : entries (frame :: frames) =
          (entryOf (recvfrom frame)).toList ++ entries frames := by
        rw [entries, List.map_cons, List.filterMap_cons]
        cases entryOf (recvfrom frame) <;> rfl
      rw [List.flatMap_cons, ih, listPass_eq hrequest hreply, hentries, List.filter_append,
        List.flatMap_append]

theorem showAllArpPacket_eq (frames : List (List UInt8)) : showAllArpPacket order frames =
    (entries frames).flatMap
      (Entry.text (lit "Who has IP address: ") (lit "\tTeller IP address: ")) := by
  have hshown := @flatMap_listPass order (lit "Who has IP address: ") (lit "\tTeller IP address: ")
    (fun _ => true) (fun _ => true) (fun _ => true) (fun _ => rfl) (fun _ => rfl) frames
  rwa [List.filter_true] at hshown

theorem showWithFilter_eq (targetIP : Octets 4) (frames : List (List UInt8)) :
    showWithFilter order targetIP frames = ((entries frames).filter (Entry.About targetIP)).flatMap
      (Entry.text (lit "Who has Target IP address: ") (lit "\tTeller Sender IP address: ")) := by
  apply flatMap_listPass
  · exact fun arp => rfl
  · exact fun arp => rfl

/-! ## Reading the output -/

/-- The text of an entry can be read in front of anything, if the words of the mode keep the
addresses apart. -/
theorem readsBack_entryText (hteller : ∀ s, EndsNumber (teller ++ s)) :
    ReadsBack (Entry.text whoHas teller) fun _ => True := by
  have hnewline : ∀ s, EndsNumber (lit "\n" ++ s) := by
    intro s c hc
    obtain rfl : 10 = c := Option.some.inj hc
    decide
  have hspace : ∀ s, EndsNumber (lit " is  address: " ++ s) := by
    intro s c hc
    obtain rfl : 32 = c := Option.some.inj hc
    decide
  have hrequest : ReadsBack (fun ips : Octets 4 × Octets 4 => ipText ips.1.bytes ++
      (teller ++ (ipText ips.2.bytes ++ lit "\n"))) fun _ => True :=
    readsBack_ipText.seq ((readsBack_ipText.before hnewline).after teller)
      fun ip s _ => by simpa using hteller _
  have hreply : ReadsBack (fun pair : Octets 4 × Octets 6 => ipText pair.1.bytes ++
      (lit " is  address: " ++ (printedText pair.2.bytes ++ lit "\n"))) fun _ => True :=
    readsBack_ipText.seq ((readsBack_printedText.before hnewline).after _)
      fun mac s _ => by simpa using hspace _
  -- the number of the operation tells a request from a reply
  have hkind : ∀ s t : List UInt8, lit "OPERATION : 1 \n" ++ s ≠ lit "OPERATION : 2 \n" ++ t := by
    intro s t h
    exact absurd (List.append_inj h (by decide)).1 (by decide)
  intro a b s t _ _ h
  cases a with
  | request tpa spa =>
      cases b with
      | request tpa' spa' =>
          simp only [Entry.text, List.append_assoc] at h
          rw [List.append_right_inj, List.append_right_inj] at h
          obtain ⟨hpair, hst⟩ := hrequest (tpa, spa) (tpa', spa') s t trivial trivial
            (by simpa only [List.append_assoc] using h)
          obtain ⟨rfl, rfl⟩ := Prod.mk.inj hpair
          exact ⟨rfl, hst⟩
      | reply spa' sha =>
          rw [Entry.text, Entry.text, List.append_assoc, List.append_assoc] at h
          exact absurd h (hkind _ _)
  | reply spa sha =>
      cases b with
      | request tpa' spa' =>
          rw [Entry.text, Entry.text, List.append_assoc, List.append_assoc] at h
          exact absurd h.symm (hkind _ _)
      | reply spa' sha' =>
          simp only [Entry.text, List.append_assoc] at h
          rw [List.append_right_inj, List.append_right_inj] at h
          obtain ⟨hpair, hst⟩ := hreply (spa, sha) (spa', sha') s t trivial trivial
            (by simpa only [List.append_assoc] using h)
          obtain ⟨rfl, rfl⟩ := Prod.mk.inj hpair
          exact ⟨rfl, hst⟩

theorem entryText_ne_nil (e : Entry) : Entry.text whoHas teller e ≠ [] := by
  cases e <;> simp [Entry.text, lit]

/-- **The listings** tell what was received: on hosts of any byte order, the output of the mode for
all packets is the same exactly if the requests and replies received are the same, in the same
order, and that of the mode with a filter exactly if those about the address are. -/
theorem listing_determines (order order' : ByteOrder) (targetIP : Octets 4)
    (frames frames' : List (List UInt8)) :
    (showAllArpPacket order frames = showAllArpPacket order' frames' ↔
        entries frames = entries frames') ∧
      (showWithFilter order targetIP frames = showWithFilter order' targetIP frames' ↔
        (entries frames).filter (Entry.About targetIP) =
          (entries frames').filter (Entry.About targetIP)) := by
  have htab : ∀ rest s : List UInt8, EndsNumber ((9 :: rest) ++ s) := by
    intro rest s c hc
    obtain rfl : 9 = c := Option.some.inj hc
    decide
  constructor
  · rw [showAllArpPacket_eq, showAllArpPacket_eq]
    exact (readsBack_entryText (htab _)).flatMap_inj entryText_ne_nil
  · rw [showWithFilter_eq, showWithFilter_eq]
    exact (readsBack_entryText (htab _)).flatMap_inj entryText_ne_nil

end NetworkHomework.Arp
