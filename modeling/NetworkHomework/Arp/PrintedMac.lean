import NetworkHomework.Arp.Spoof

/-!
# Printed MAC addresses

Wherever the arp tool prints a hardware address it uses `%02X`, with upper-case digits.
On the command line `isValidMacAddress` takes lower-case digits only, though the `%x`
behind it reads both.  The printed form of an address and the form that is accepted are
the same text in two cases, so they agree exactly when there are no letters in it.
-/

namespace NetworkHomework.Arp

open Scan

/-! ## Printing -/

/-- The upper-case digit `d`. -/
def printedChar (d : ℕ) : UInt8 := if d < 10 then UInt8.ofNat (48 + d) else UInt8.ofNat (55 + d)

/-- `printf("%02X", octet)` -/
def printedOctet (octet : UInt8) : List UInt8 :=
  [printedChar (octet.toNat / 16), printedChar (octet.toNat % 16)]

/-- `printf("%02X:%02X: ...", ...)`, one octet after the other. -/
def printedText : List UInt8 → List UInt8
  | [] => []
  | [octet] => printedOctet octet
  | octet :: octets => printedOctet octet ++ colon :: printedText octets

theorem printedChar_eq {d : ℕ} (h : d < 16) : printedChar d = upper (hexChar d) := by
  have hall : ∀ d : Fin 16, printedChar d = upper (hexChar d) := by decide
  exact hall ⟨d, h⟩

theorem printedOctet_eq (octet : UInt8) : printedOctet octet = (octetText octet).map upper := by
  have hoctet : octet.toNat < 256 := octet.toNat_lt
  rw [printedOctet, printedChar_eq (by omega), printedChar_eq (by omega)]
  rfl

/-- What is printed is the text of the octets in upper case. -/
theorem printedText_eq (octets : List UInt8) : printedText octets = (macText octets).map upper := by
  induction octets using macText.induct with
  | case1 => rfl
  | case2 octet => exact printedOctet_eq octet
  | case3 octet octets hne ih =>
      rw [printedText, macText, List.map_append, List.map_cons, ← printedOctet_eq, ih]
      · rfl
      · exact hne
      · exact hne

/-- The characters of a text of octets. -/
theorem isHexDigit_of_mem_macText {octets : List UInt8} {c : UInt8} (h : c ∈ macText octets) :
    isHexDigit c ∨ c = colon := by
  have hoctetText : ∀ octet, c ∈ octetText octet → isHexDigit c := by
    intro octet hc
    obtain ⟨hfirst, hsecond⟩ := octetText_iff.mpr ⟨octet, rfl⟩
    rcases List.mem_pair.mp hc with rfl | rfl
    · exact hfirst
    · exact hsecond
  induction octets using macText.induct with
  | case1 => exact absurd h List.not_mem_nil
  | case2 octet => exact .inl (hoctetText octet h)
  | case3 octet octets hne ih =>
      rw [macText_cons octet hne, List.mem_append, List.mem_cons] at h
      rcases h with hc | hc | hc
      · exact .inl (hoctetText octet hc)
      · exact .inr hc
      · exact ih hc

theorem zero_notMem_macText (octets : List UInt8) : 0 ∉ macText octets := by
  intro h
  have hzero := isHexDigit_of_mem_macText h
  exact absurd hzero (by decide)

/-- The text of the octets, as it is accepted. -/
def acceptedMac (octets : Octets 6) : Argument := ⟨macText octets.bytes, zero_notMem_macText _⟩

/-- The text that is printed for `arp_sha`, when it is typed in. -/
def printedMac (arp_sha : Octets 6) : Argument where
  chars := printedText arp_sha.bytes
  noNul := by
    rw [printedText_eq, List.mem_map]
    rintro ⟨c, hc, hupper⟩
    rw [upper_eq_iff (by decide) (by decide)] at hupper
    exact zero_notMem_macText _ (hupper ▸ hc)

/-! ## Feeding it back -/

/-- What is printed for the octets is accepted, and read as these octets. -/
structure FedBack (octets : Octets 6) : Prop where
  accepted : isValidMacAddress (printedMac octets).chars = 1
  decoded : fakeMac (printedMac octets) = some octets.bytes

/-- The string is what is printed for the octets it is read as. -/
def IsPrinted (mac : Argument) : Prop :=
  ∃ octets : Octets 6, fakeMac mac = some octets.bytes ∧ mac = printedMac octets

/-- No octet has a hexadecimal digit above 9. -/
def DecimalDigits (octets : List UInt8) : Prop :=
  ∀ octet ∈ octets, octet.toNat / 16 < 10 ∧ octet.toNat % 16 < 10

instance (octets : List UInt8) : Decidable (DecimalDigits octets) :=
  inferInstanceAs (Decidable (∀ _ ∈ _, _))

/-- The printed text is always read back, were it accepted. -/
theorem fakeMac_printedMac (octets : Octets 6) :
    fakeMac (printedMac octets) = some octets.bytes := by
  have hformat : ∀ d, Directive.char d ∈ macFormat → ¬ IsLower d ∧ ¬ IsUpper d := by
    intro d hd
    have hcolon : d = colon := by simpa [macFormat] using hd
    rw [hcolon]
    decide
  have hscan : sscanf macFormat (printedMac octets).chars =
      sscanf macFormat (acceptedMac octets).chars := by
    show sscanf macFormat (printedText octets.bytes) = _
    rw [printedText_eq, sscanf_map_upper hformat]
    rfl
  rw [fakeMac, hscan]
  exact fakeMac_of_denotes rfl

theorem isLower_hexChar {d : ℕ} (h : d < 16) : ¬ IsLower (hexChar d) ↔ d < 10 := by
  have hall : ∀ d : Fin 16, ¬ IsLower (hexChar d) ↔ d.val < 10 := by decide
  exact hall ⟨d, h⟩

/-- The letters of a text of octets are the digits above 9. -/
theorem decimalDigits_iff (octets : List UInt8) :
    (∀ c ∈ macText octets, ¬ IsLower c) ↔ DecimalDigits octets := by
  have hoctetText : ∀ octet : UInt8, (∀ c ∈ octetText octet, ¬ IsLower c) ↔
      octet.toNat / 16 < 10 ∧ octet.toNat % 16 < 10 := by
    intro octet
    have hoctet : octet.toNat < 256 := octet.toNat_lt
    rw [octetText, List.forall_mem_cons, List.forall_mem_singleton, isLower_hexChar (by omega),
      isLower_hexChar (by omega)]
  unfold DecimalDigits
  induction octets using macText.induct with
  | case1 => simp [macText]
  | case2 octet => rw [macText, List.forall_mem_singleton, hoctetText]
  | case3 octet octets hne ih =>
      have hcolon : ¬ IsLower colon := by decide
      rw [macText_cons octet hne, List.forall_mem_append, List.forall_mem_cons,
        List.forall_mem_cons, hoctetText, and_iff_right hcolon]
      exact and_congr_right' ih

theorem map_upper_eq_self_iff {s : List UInt8} : s.map upper = s ↔ ∀ c ∈ s, ¬ IsLower c := by
  conv_lhs => rhs; rw [← List.map_id s]
  rw [List.map_inj_left]
  simp only [id_eq, upper_eq_self_iff]

/-- `isValidMacAddress` takes no letter in upper case. -/
theorem not_isUpper : ∀ c, isHexDigit c ∨ c = colon → ¬ IsUpper c := by
  apply forall_byte
  decide +kernel

/-- Printed text is accepted if it is the text that is accepted for these octets. -/
theorem isValidMacAddress_printedMac_iff (octets : Octets 6) :
    isValidMacAddress (printedMac octets).chars = 1 ↔ DecimalDigits octets.bytes := by
  show isValidMacAddress (printedText octets.bytes) = 1 ↔ _
  rw [← decimalDigits_iff, printedText_eq]
  constructor
  · intro h c hc hlower
    obtain ⟨others, -, htext⟩ := isValidMacAddress_iff.mp h
    have haccepted : isHexDigit (upper c) ∨ upper c = colon :=
      isHexDigit_of_mem_macText (htext ▸ List.mem_map_of_mem hc)
    exact not_isUpper (upper c) haccepted (isUpper_upper c hlower)
  · intro h
    rw [map_upper_eq_self_iff.mpr h]
    exact isValidMacAddress_iff.mpr ⟨octets.bytes, octets.length_bytes, rfl⟩

/-- An accepted string is a printed one if it is its own upper case. -/
theorem isPrinted_iff {mac : Argument} (h : isValidMacAddress mac.chars = 1) :
    IsPrinted mac ↔ ∀ c ∈ mac.chars, ¬ IsLower c := by
  obtain ⟨octets, hmac, -⟩ := exists_denotes h
  have hfake := fakeMac_of_denotes hmac
  rw [← map_upper_eq_self_iff]
  constructor
  · rintro ⟨others, hothers, hprinted⟩
    have hsame : others.bytes = octets.bytes := Option.some.inj (hothers.symm.trans hfake)
    calc mac.chars.map upper = (macText octets.bytes).map upper := by rw [hmac]
      _ = printedText others.bytes := by rw [printedText_eq, hsame]
      _ = mac.chars := by rw [hprinted]; rfl
  · intro hupper
    refine ⟨octets, hfake, ?_⟩
    have hchars : mac.chars = (printedMac octets).chars := by
      calc mac.chars = mac.chars.map upper := hupper.symm
        _ = (macText octets.bytes).map upper := by rw [hmac]
        _ = (printedMac octets).chars := (printedText_eq octets.bytes).symm
    cases mac
    exact Argument.mk.injEq .. ▸ hchars

/-- **Printed MAC addresses.**  What is printed for six octets is accepted and read as these octets
exactly if none of their hexadecimal digits is above 9, and a string that is accepted is the printed
form of what it is read as exactly if it has no letters. -/
theorem printedMac_iff (octets : Octets 6) (mac : Argument) :
    (FedBack octets ↔ DecimalDigits octets.bytes) ∧
      ((isValidMacAddress mac.chars = 1 → IsPrinted mac) ↔
        (isValidMacAddress mac.chars = 1 → ∀ c ∈ mac.chars, ¬ IsLower c)) := by
  refine ⟨?_, forall_congr' isPrinted_iff⟩
  rw [← isValidMacAddress_printedMac_iff]
  exact ⟨fun hback => hback.accepted, fun haccepted => ⟨haccepted, fakeMac_printedMac octets⟩⟩

namespace Letters

/-- An address with letters. -/
def target : Octets 6 := ⟨[0x00, 0x13, 0x72, 0xaf, 0xee, 0x7c], rfl⟩

def numeric : Octets 6 := ⟨[0x00, 0x11, 0x22, 0x33, 0x44, 0x55], rfl⟩

/-- An address without letters can be fed back. -/
theorem printedMac_numeric : FedBack numeric ∧ IsPrinted (printedMac numeric) := by
  have haccepted : isValidMacAddress (printedMac numeric).chars = 1 := by decide +kernel
  obtain ⟨hback, hprinted⟩ := printedMac_iff numeric (printedMac numeric)
  exact ⟨hback.mpr (by decide +kernel), hprinted.mpr (fun _ => by decide +kernel) haccepted⟩

/-- The tool prints 00:13:72:AF:EE:7C and does not accept it; it accepts 00:13:72:af:ee:7c and does
not print it. -/
theorem not_printedMac : (¬ ∀ octets, FedBack octets) ∧
    ¬ ∀ mac : Argument, isValidMacAddress mac.chars = 1 → IsPrinted mac := by
  constructor
  · intro h
    exact absurd (h target).accepted (by decide +kernel)
  · intro h
    obtain ⟨octets, hfake, hprinted⟩ := h (acceptedMac target) (by decide +kernel)
    have hread : fakeMac (acceptedMac target) = some target.bytes := fakeMac_of_denotes rfl
    have hsame := hread.symm.trans hfake
    have hchars : (acceptedMac target).chars = printedText octets.bytes :=
      congrArg Argument.chars hprinted
    rw [← Option.some.inj hsame] at hchars
    exact absurd hchars (by decide +kernel)

end Letters

end NetworkHomework.Arp
