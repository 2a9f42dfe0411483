import NetworkHomework.Arp.MacAddress
import NetworkHomework.Foundation.CString

/-!
# The command line of the arp tool

`FindCommentType` chooses the mode of the tool.  Its help text lists four forms:
`-l -a`, `-l` with an address to filter on, `-q` with an address to ask for, and a fake
MAC address with the address it is to stand for.  Only the second of them has its IP
address checked.

Whether a string is an IPv4 address is up to `inet_pton`, here a parameter.
-/

namespace NetworkHomework.Arp

open CString

/-- An argument of the command line, a C string. -/
structure Argument where
  chars : List UInt8
  noNul : 0 ∉ chars
  deriving DecidableEq

namespace Argument

def help : Argument := ⟨lit "-h", by decide⟩
def list : Argument := ⟨lit "-l", by decide⟩
def all : Argument := ⟨lit "-a", by decide⟩
def query : Argument := ⟨lit "-q", by decide⟩

end Argument

inductive CommentType
  | errorComment
  | showCommentFormat
  | showAllArpPacket
  | showWithFilter
  | sendBroadcastToQuery
  | sendWrongReply
  deriving DecidableEq

open CommentType

section

variable (inetPton : Argument → ℤ)

/-- `isValidIpAddress`, over the result of `inet_pton(AF_INET, Ip, &addr)`. -/
def isValidIpAddress (ip : Argument) : ℤ := if inetPton ip ≤ 0 then -1 else 1

/-- `FindCommentType(argc, argv)`; `argc` is the length of `argv`. -/
def findCommentType (argv : List Argument) : CommentType :=
  match argv with
  | [_, only] =>
      if strcmp only.chars Argument.help.chars = 0 then showCommentFormat else errorComment
  | [_, first, second] =>
      if strcmp first.chars Argument.list.chars = 0 then
        if strcmp second.chars Argument.all.chars = 0 then showAllArpPacket
        else if isValidIpAddress inetPton second ≤ 0 then errorComment
        else showWithFilter
      else if strcmp first.chars Argument.query.chars = 0 then sendBroadcastToQuery
      else if isValidMacAddress first.chars < 0 then errorComment
      else sendWrongReply
  | _ => errorComment

/-! ## What is documented -/

/-- `inet_pton` takes the string for an address. -/
def ValidIp (ip : Argument) : Prop := 0 < inetPton ip

instance (ip : Argument) : Decidable (ValidIp inetPton ip) := inferInstanceAs (Decidable (_ < _))

/-- The forms of the help text, with the modes they stand for. -/
inductive Form : List Argument → CommentType → Prop
  | help (arp : Argument) : Form [arp, .help] showCommentFormat
  | all (arp : Argument) : Form [arp, .list, .all] showAllArpPacket
  | filter (arp ip : Argument) (hip : ValidIp inetPton ip) :
      Form [arp, .list, ip] showWithFilter
  | query (arp ip : Argument) (hip : ValidIp inetPton ip) :
      Form [arp, .query, ip] sendBroadcastToQuery
  | spoof (arp mac ip : Argument) (hmac : isValidMacAddress mac.chars = 1)
      (hip : ValidIp inetPton ip) : Form [arp, mac, ip] sendWrongReply

/-- The documented mode; `errorComment` is for all that has no form. -/
def Documented (argv : List Argument) : CommentType → Prop
  | errorComment => ∀ type, ¬ Form inetPton argv type
  | type => Form inetPton argv type

/-- The modes that filter on the second argument or send for it. -/
def UsesAddress (type : CommentType) : Prop :=
  type = showWithFilter ∨ type = sendBroadcastToQuery ∨ type = sendWrongReply

/-- The command line is taken as it is documented, and the address used has been validated. -/
structure AsDocumented (argv : List Argument) : Prop where
  accepted : ∀ type, findCommentType inetPton argv = type ↔ Documented inetPton argv type
  validated : UsesAddress (findCommentType inetPton argv) →
    ∃ arp first ip, argv = [arp, first, ip] ∧ ValidIp inetPton ip

/-- Behind `-q` and behind a MAC address stands an IPv4 address. -/
def AddressGiven (argv : List Argument) : Prop :=
  ∀ arp first ip, argv = [arp, first, ip] →
    first = .query ∨ isValidMacAddress first.chars = 1 → ValidIp inetPton ip

end

/-! ## The forms are accepted -/

variable {inetPton : Argument → ℤ} {argv : List Argument} {type : CommentType}

theorem strcmp_argument {first second : Argument} :
    strcmp first.chars second.chars = 0 ↔ first = second := by
  rw [strcmp_eq_zero_iff first.noNul second.noNul, Argument.mk.injEq]

theorem isValidIpAddress_nonpos_iff {ip : Argument} :
    isValidIpAddress inetPton ip ≤ 0 ↔ ¬ ValidIp inetPton ip := by
  unfold isValidIpAddress ValidIp
  split_ifs with h
  · exact iff_of_true (by decide) (Int.not_lt.mpr h)
  · exact iff_of_false (by decide) (not_not.mpr (Int.not_le.mp h))

/-- Neither option is a MAC address. -/
theorem isValidMacAddress_options :
    isValidMacAddress Argument.list.chars = -1 ∧ isValidMacAddress Argument.query.chars = -1 := by
  decide

/-- A MAC address is enough for the last mode. -/
theorem findCommentType_mac {mac : Argument} (arp ip : Argument)
    (hmac : isValidMacAddress mac.chars = 1) :
    findCommentType inetPton [arp, mac, ip] = sendWrongReply := by
  have hl : mac ≠ .list := by
    rintro rfl
    rw [isValidMacAddress_options.1] at hmac
    exact absurd hmac (by decide)
  have hq : mac ≠ .query := by
    rintro rfl
    rw [isValidMacAddress_options.2] at hmac
    exact absurd hmac (by decide)
  simp only [findCommentType, strcmp_argument]
  rw [if_neg hl, if_neg hq, hmac]
  rfl

/-- The last mode is for an accepted MAC address, and two arguments. -/
theorem findCommentType_eq_sendWrongReply_iff :
    findCommentType inetPton argv = sendWrongReply ↔
      ∃ arp mac ip, argv = [arp, mac, ip] ∧ isValidMacAddress mac.chars = 1 := by
  constructor
  · intro h
    match argv, h with
    | [arp, only], h =>
        simp only [findCommentType] at h
        split_ifs at h
    | [arp, mac, ip], h =>
        simp only [findCommentType] at h
        split_ifs at h with hl ha hip hq hmac
        rw [Int.not_lt, isValidMacAddress_nonneg_iff] at hmac
        exact ⟨arp, mac, ip, rfl, hmac⟩
  · rintro ⟨arp, mac, ip, rfl, hmac⟩
    exact findCommentType_mac arp ip hmac

/-- Every documented form is accepted. -/
theorem findCommentType_of_form (hall : ¬ ValidIp inetPton Argument.all)
    (h : Form inetPton argv type) : findCommentType inetPton argv = type := by
  cases h with
  | help arp => rfl
  | all arp => rfl
  | filter arp ip hip =>
      have hne : ip ≠ .all := fun hsame => hall (hsame ▸ hip)
      have hvalid : ¬ isValidIpAddress inetPton ip ≤ 0 := by
        rw [isValidIpAddress_nonpos_iff]
        exact not_not.mpr hip
      simp only [findCommentType, strcmp_argument]
      rw [if_pos trivial, if_neg hne, if_neg hvalid]
  | query arp ip hip => rfl
  | spoof arp mac ip hmac hip => exact findCommentType_mac arp ip hmac

/-- Where an address is given, nothing else is accepted. -/
theorem form_findCommentType (hgiven : AddressGiven inetPton argv)
    (h : findCommentType inetPton argv ≠ errorComment) :
    Form inetPton argv (findCommentType inetPton argv) := by
  match argv, hgiven, h with
  | [arp, only], _, h =>
      simp only [findCommentType, strcmp_argument] at h ⊢
      split_ifs at h ⊢ with honly
      · exact honly ▸ .help arp
      · exact absurd rfl h
  | [arp, first, second], hgiven, h =>
      have hgiven := hgiven arp first second rfl
      simp only [findCommentType, strcmp_argument] at h ⊢
      split_ifs at h ⊢ with hl ha hip hq hmac
      · exact hl ▸ ha ▸ .all arp
      · exact absurd rfl h
      · rw [isValidIpAddress_nonpos_iff, not_not] at hip
        exact hl ▸ .filter arp second hip
      · have hip := hgiven (.inl hq)
        exact hq ▸ .query arp second hip
      · exact absurd rfl h
      · rw [Int.not_lt, isValidMacAddress_nonneg_iff] at hmac
        exact .spoof arp first second hmac (hgiven (.inr hmac))
  | [], _, h => exact absurd rfl h
  | [_], _, h => exact absurd rfl h
  | _ :: _ :: _ :: _ :: _, _, h => exact absurd rfl h

theorem form_iff (hall : ¬ ValidIp inetPton Argument.all) (hgiven : AddressGiven inetPton argv) :
    Form inetPton argv type ↔ type ≠ errorComment ∧ findCommentType inetPton argv = type := by
  constructor
  · intro hform
    refine ⟨?_, findCommentType_of_form hall hform⟩
    rintro rfl
    cases hform
  · rintro ⟨hne, rfl⟩
    exact form_findCommentType hgiven hne

/-- A form that uses its address has a valid one. -/
theorem Form.validIp (h : Form inetPton argv type) (huses : UsesAddress type) :
    ∃ arp first ip, argv = [arp, first, ip] ∧ ValidIp inetPton ip := by
  cases h with
  | help arp => simp [UsesAddress] at huses
  | all arp => simp [UsesAddress] at huses
  | filter arp ip hip => exact ⟨arp, .list, ip, rfl, hip⟩
  | query arp ip hip => exact ⟨arp, .query, ip, rfl, hip⟩
  | spoof arp mac ip hmac hip => exact ⟨arp, mac, ip, rfl, hip⟩

/-- **The command line.**  It is taken as it is documented, with every address validated, exactly
if behind `-q` or a MAC address stands an IPv4 address. -/
theorem asDocumented_iff (hall : ¬ ValidIp inetPton Argument.all) :
    AsDocumented inetPton argv ↔ AddressGiven inetPton argv := by
  constructor
  · rintro h arp first second rfl hfirst
    have huses : UsesAddress (findCommentType inetPton [arp, first, second]) := by
      rcases hfirst with rfl | hmac
      · exact .inr (.inl rfl)
      · exact .inr (.inr (findCommentType_mac arp second hmac))
    obtain ⟨_, _, ip, hargv, hip⟩ := h.validated huses
    simp only [List.cons.injEq, and_true] at hargv
    exact hargv.2.2 ▸ hip
  · intro hgiven
    refine ⟨fun type => ?_, fun huses => ?_⟩
    · cases type with
      | errorComment =>
          show _ ↔ ∀ other, ¬ Form inetPton argv other
          simp only [form_iff hall hgiven]
          constructor
          · rintro herror other ⟨hne, hother⟩
            exact hne (hother.symm.trans herror)
          · intro hnone
            by_contra hne
            exact hnone _ ⟨hne, rfl⟩
      | showCommentFormat | showAllArpPacket | showWithFilter | sendBroadcastToQuery
      | sendWrongReply => simp [Documented, form_iff hall hgiven]
    · refine (form_findCommentType hgiven fun herror => ?_).validIp huses
      simp [UsesAddress, herror] at huses

namespace Unchecked

def arp : Argument := ⟨lit "./arp", by decide⟩

def ten : Argument := ⟨lit "10.0.0.1", by decide⟩

def word : Argument := ⟨lit "abc", by decide⟩

/-- What `inet_pton` says of the strings used here. -/
def pton (ip : Argument) : ℤ := if ip = ten then 1 else 0

/-- A query for an address. -/
theorem asDocumented_ten : AsDocumented pton [arp, .query, ten] := by
  refine (asDocumented_iff (by decide)).mpr fun _ _ ip hargv _ => ?_
  simp only [List.cons.injEq, and_true] at hargv
  rw [← hargv.2.2]
  decide

/-- A query for a word is sent as well. -/
theorem not_asDocumented : ¬ ∀ (inetPton : Argument → ℤ) (argv : List Argument),
    ¬ ValidIp inetPton Argument.all → AsDocumented inetPton argv := by
  intro h
  have hform := ((h pton [arp, .query, word] (by decide)).accepted
    sendBroadcastToQuery).mp rfl
  cases hform with
  | query _ _ hip => exact absurd hip (by decide)

end Unchecked

end NetworkHomework.Arp
