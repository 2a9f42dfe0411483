import Mathlib.Algebra.GroupWithZero.Nat
import NetworkHomework.Chat.LiveWalks

/-!
# Room for the texts of the server

The server puts its texts together in buffers of `SHORTMESS` bytes: the roster, the
login and the exit notice of a session in `SendMessage`, the line of a message in
`NameSendMessage`.  Each is some fixed words around fields that may fill such a buffer
alone, and the roster has two fields for every member of the list.

`Assembles s text` says that a thread puts `text` together in the state `s`, and
`Room s` says how long the fields may be.  `strcat` only appends, so a text that fits
has fitted at every stage.
-/

namespace NetworkHomework.Chat

open LinkedHeap CString

/-- The text fits its buffer, with its NUL, after every `strcat`. -/
def FitsBuffer (text : List UInt8) : Prop := ∀ stage, stage <+: text → stage.length < shortMess

theorem fitsBuffer_iff {text : List UInt8} : FitsBuffer text ↔ text.length < shortMess :=
  ⟨fun h => h text (List.prefix_refl text), fun h _ hstage => hstage.length_le.trans_lt h⟩

/-- What the threads put together in the state `s`. -/
inductive Assembles (s : ChatServer) : List UInt8 → Prop
  /-- a roster without members -/
  | noGroup (th : Thread) (hth : th ∈ s.threads) (hpc : th.pc = .testSize) (fuel : ℕ)
      (hsize : memberListSize s.server.members fuel = .ok 0) :
      Assembles s (lit "Member[Group] \n" ++ lit "No Group" ++ lit " Please Select Group:")
  /-- a roster -/
  | roster (th : Thread) (hth : th ∈ s.threads) (size : ℕ) (hpc : th.pc = .writeRoster size)
      (text : List UInt8) (hloop : s.server.members.forLoop id ChatServer.rosterEntry size
        s.server.members.first (lit "Member[Group] \n") = .ok text) :
      Assembles s (text ++ lit " Please Select Group:")
  /-- a login notice -/
  | login (th : Thread) (hth : th ∈ s.threads) (temp : Option ℕ) (hpc : th.pc = .loginNotice temp)
      (client : Member) (hclient : s.server.members.valueAt th.client = some client) :
      Assembles s (loginText client.name client.group)
  /-- an exit notice -/
  | exit (th : Thread) (hth : th ∈ s.threads) (hpc : th.pc = .exitFirst)
      (client : Member) (hclient : s.server.members.valueAt th.client = some client) :
      Assembles s (exitText client.name)
  /-- the line of a message -/
  | line (n : ℕ) (hround : s.round = some (n + 1)) (node : LinkedNode Message)
      (hread : s.server.messages.read s.server.messages.first = .ok node) (target : Target)
      (text : List UInt8) (hroute : route node.value.message = some (target, text)) :
      Assembles s (nameSendMessage node.value text)

/-- The line of the roster for a member has this length. -/
def entryLength (temp : Member) : ℕ := temp.name.length + temp.group.length + 3

/-- The fields leave room for what stands around them. -/
structure Room (s : ChatServer) : Prop where
  roster : ∀ th ∈ s.threads, ∀ size, th.pc = .writeRoster size →
    ∀ listed, s.server.members.Represents listed →
      ((s.server.members.values (listed.take size)).map entryLength).sum + 36 < shortMess
  login : ∀ th ∈ s.threads, ∀ temp, th.pc = .loginNotice temp →
    ∀ client, s.server.members.valueAt th.client = some client →
      client.name.length + client.group.length + 29 < shortMess
  exit : ∀ th ∈ s.threads, th.pc = .exitFirst →
    ∀ client, s.server.members.valueAt th.client = some client →
      client.name.length + 27 < shortMess
  line : ∀ n, s.round = some (n + 1) → ∀ node,
    s.server.messages.read s.server.messages.first = .ok node → ∀ target text,
      route node.value.message = some (target, text) →
        node.value.fromName.length + text.length + 4 < shortMess

/-! ## The lengths -/

theorem length_loginText (name group : List UInt8) :
    (loginText name group).length = name.length + group.length + 29 := by
  simp only [loginText, List.length_append]
  rw [show (lit "!!Server Note Client ").length = 21 from rfl,
    show (lit " Login ").length = 7 from rfl, show (lit "\n").length = 1 from rfl]
  omega

theorem length_exitText (name : List UInt8) : (exitText name).length = name.length + 27 := by
  simp only [exitText, List.length_append]
  rw [show (lit "!!Server Note Client ").length = 21 from rfl,
    show (lit " Exit").length = 5 from rfl, show (lit "\n").length = 1 from rfl]
  omega

/-- The entries of a roster. -/
theorem length_entries (list : List Member) :
    (list.flatMap fun temp => temp.name ++ lit "[" ++ temp.group ++ lit "],").length =
      (list.map entryLength).sum := by
  have hentry : (fun temp : Member =>
      (temp.name ++ lit "[" ++ temp.group ++ lit "],").length) = entryLength := by
    funext temp
    simp only [List.length_append, entryLength]
    rw [show (lit "[").length = 1 from rfl, show (lit "],").length = 2 from rfl]
    omega
  rw [List.length_flatMap, hentry]

/-- **Room for the texts.**  In every reachable state, whatever the threads put together fits its
buffer at every stage exactly if the fields leave room for it. -/
theorem fitsBuffer_iff_room {s : ChatServer} (h : chatServerSystem.Reachable s) :
    (∀ text, Assembles s text → FitsBuffer text) ↔ Room s := by
  obtain ⟨listed, hv⟩ := owned_of_reachable h
  have hh : s.server.members.Represents listed := hv.represents
  have hfixed : (lit "Member[Group] \n").length = 15 ∧
      (lit " Please Select Group:").length = 21 := ⟨rfl, rfl⟩
  simp only [fitsBuffer_iff]
  constructor
  · intro hfits
    refine ⟨fun th hth size hpc listed' hh' => ?_, fun th hth temp hpc client hclient => ?_,
      fun th hth hpc client hclient => ?_, fun n hround node hread target text hroute => ?_⟩
    · obtain rfl := hh'.unique hh
      by_cases hany : size = 0 ∨ listed' ≠ []
      · have hroster := hfits _ (.roster th hth size hpc _ (roster_eq hh hany _))
        simp only [List.length_append, length_entries, hfixed] at hroster
        omega
      · -- no text is put together when the members counted have all left
        rw [not_or, not_not] at hany
        rw [hany.2]
        simp [values, shortMess]
    · rw [← length_loginText]
      exact hfits _ (.login th hth temp hpc client hclient)
    · rw [← length_exitText]
      exact hfits _ (.exit th hth hpc client hclient)
    · rw [← length_nameSendMessage]
      exact hfits _ (.line n hround node hread target text hroute)
  · rintro hroom text (⟨th, hth, hpc, fuel, hsize⟩ | ⟨th, hth, size, hpc, text, hloop⟩ |
      ⟨th, hth, temp, hpc, client, hclient⟩ | ⟨th, hth, hpc, client, hclient⟩ |
      ⟨n, hround, node, hread, target, text, hroute⟩)
    · decide
    · have hany : size = 0 ∨ listed ≠ [] := by
        have hfirst := (roster_iff hh size _).mp ⟨text, hloop⟩
        rwa [hh.first_eq, ne_eq, List.head?_eq_none_iff] at hfirst
      rw [roster_eq hh hany] at hloop
      obtain rfl := Except.ok.inj hloop
      have hbound := hroom.roster th hth size hpc listed hh
      simp only [List.length_append, length_entries, hfixed]
      omega
    · rw [length_loginText]
      exact hroom.login th hth temp hpc client hclient
    · rw [length_exitText]
      exact hroom.exit th hth hpc client hclient
    · rw [length_nameSendMessage]
      exact hroom.line n hround node hread target text hroute

/-- What arrives is what a chat client can send: up to 510 characters. -/
def Typed (_ : ChatServer) : ChatAction → Prop
  | .recv _ (.bytes piece) => (recvText piece).length ≤ 510
  | _ => True

instance (s : ChatServer) : (a : ChatAction) → Decidable (Typed s a)
  | .recv _ (.bytes _) => inferInstanceAs (Decidable (_ ≤ _))
  | .recv _ .error => inferInstanceAs (Decidable True)
  | .accept _ | .create _ | .queue .. | .go .. | .beginRound _ | .deliver _ | .endRound _ =>
      inferInstanceAs (Decidable True)

namespace LongName

/-- A client gives a name and the group "g". -/
def login (name : List UInt8) : List ChatAction :=
  [.accept 4, .create 1, .go 0 9, .recv 0 (.bytes (frame name)), .go 0 9, .go 0 9,
    .recv 0 (.bytes (frame (lit "g"))), .go 0 9]

theorem fitsBuffer_ann : ∃ s, chatServerSystem.run ChatServer.start (login (lit "ann")) = some s ∧
    ∀ text, Assembles s text → FitsBuffer text := by
  have hlast : (chatServerSystem.run ChatServer.start (login (lit "ann"))).map (fun s =>
      (s.threads, s.server.members.valueAt 1, s.round)) =
        some ([⟨.loginNotice none, 1⟩], some ⟨4, 0, lit "ann", lit "g", 0⟩, none) := by
    decide +kernel
  obtain ⟨s, hs, hshape⟩ := Option.map_eq_some_iff.mp hlast
  obtain ⟨hthreads, hshape⟩ := Prod.mk.inj hshape
  obtain ⟨hclient, hround⟩ := Prod.mk.inj hshape
  refine ⟨s, hs, (fitsBuffer_iff_room ?_).mpr ?_⟩
  · exact TransitionSystem.reachable_of_run (.start rfl) hs
  · have honly : ∀ th ∈ s.threads, th = ⟨.loginNotice none, 1⟩ := by simp [hthreads]
    refine ⟨fun th hth size hpc => ?_, fun th hth temp _ client hvalue => ?_,
      fun th hth hpc => ?_, fun n hsome => ?_⟩
    · simp [honly th hth] at hpc
    · rw [honly th hth, hclient] at hvalue
      obtain rfl := Option.some.inj hvalue
      decide
    · simp [honly th hth] at hpc
    · simp [hround] at hsome

/-- The longest name that can be typed. -/
def longName : List UInt8 := List.replicate 510 97

theorem not_fitsBuffer : ¬ ∀ s, chatServerSystem.ReachableUnder Typed s →
    ∀ text, Assembles s text → FitsBuffer text := by
  intro h
  have hlast : (chatServerSystem.run ChatServer.start (login longName)).map (fun s =>
      (s.threads, s.server.members.valueAt 1)) =
        some ([⟨.loginNotice none, 1⟩], some ⟨4, 0, longName, lit "g", 0⟩) := by
    decide +kernel
  obtain ⟨s, hs, hshape⟩ := Option.map_eq_some_iff.mp hlast
  obtain ⟨hthreads, hclient⟩ := Prod.mk.inj hshape
  have hreachable : chatServerSystem.ReachableUnder Typed s :=
    TransitionSystem.reachableUnder_of_run (.start rfl) (by decide +kernel) hs
  have hfits := h s hreachable _ (.login ⟨.loginNotice none, 1⟩ (by simp [hthreads]) none rfl _
    hclient)
  rw [fitsBuffer_iff, length_loginText] at hfits
  exact absurd hfits (by decide +kernel)

end LongName

end NetworkHomework.Chat
