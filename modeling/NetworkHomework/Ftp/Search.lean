import NetworkHomework.Foundation.Simulation
import NetworkHomework.Ftp.Embedding
import NetworkHomework.Ftp.FindServer

/-!
# Clients that search for the server

`main` of the client calls `findServerAddr`, and with the address this leaves in
`servaddr` it calls `startMyftpClient`.  A broadcast of a client may reach the server any
number of times, at any time, or never, also when the client has gone on; and a reply to
the socket of a client may reach it as long as it is in `findServerAddr`.

`Site.lean` leaves the search out: there requests come from anywhere, and a client starts
with some reply that was sent to it.  Here this is proved of the clients that search.
-/

namespace NetworkHomework.Ftp

open CString TransitionSystem

/-- The reply as it lies in `packet` when `listenClient` sends it. -/
def BootServerInfo.packet (reply : BootServerInfo) : BootPacket :=
  ⟨(Buffer.zero 15).strcpy reply.servAddr, reply.connectPort,
    (Buffer.zero 128).strcpy reply.filename⟩

/-- Each client with its `findServerAddr`, and the site. -/
structure Search (Name : Type) where
  finder : Name → FindServer
  site : Site Name

inductive SearchAction (Name : Type)
  | findTimeout (x : Name)
  /-- the broadcast `n` of the client reaches the server -/
  | broadcast (x : Name) (n : ℕ) (rand : ℕ) (garbage : Buffer 6)
  /-- the reply `n` of the server reaches the client -/
  | reply (x : Name) (n : ℕ)
  | startTransfer (x : Name)
  | transfer (a : SiteAction Name)

def SiteAction.isTransfer {Name : Type} : SiteAction Name → Bool
  | .request .. | .startClient .. => false
  | .bind .. | .processTimeout _ | .toProcess .. | .clientTimeout _ | .toClient .. => true

namespace Search

variable {Name : Type} [DecidableEq Name] (config : SiteConfig Name)

/-- The `findServerAddr` of the client runs on. -/
def find (s : Search Name) (x : Name) (r : Option (Addr × BootPacket)) : Search Name :=
  { s with finder := Function.update s.finder x (findServerAddr (s.finder x) r) }

/-- `startMyftpClient` up to its first `recvfrom`. -/
def startTransfer (s : Search Name) (x : Name) (servaddr : Addr) : Search Name :=
  { s with
    site := { s.site with
      client := Function.update s.site.client x (some (Client.start servaddr))
      net := s.site.net ++ [⟨config.clientAddr x, servaddr,
        frqPacket (config.client x).order (config.client x).filename, none⟩] } }

def step (s : Search Name) : SearchAction Name → Option (Search Name)
  | .findTimeout x => if (s.finder x).pc = .receiving then some (s.find x none) else none
  | .broadcast x n rand garbage =>
      match (s.finder x).sent[n]? with
      | some packet =>
          let request := packet.request (config.discoveryAddr x)
          some { s with site := s.site.handle config request rand garbage }
      | none => none
  | .reply x n =>
      match s.site.replies[n]? with
      | some (dest, reply) =>
          if (s.finder x).pc = .receiving ∧ dest = config.discoveryAddr x then
            let source := Site.socket config (portOf config.listen.port)
            some (s.find x (some (source, reply.packet)))
          else none
      | none => none
  | .startTransfer x =>
      match (s.finder x).servaddr with
      | some servaddr =>
          if (s.finder x).pc = .found ∧ s.site.client x = none then
            some (s.startTransfer config x servaddr)
          else none
      | none => none
  | .transfer a =>
      if a.isTransfer then (s.site.step config a).map fun site => { s with site } else none

/-- `garbage x` is what `packet` of the client holds on entry. -/
def start (tempPort : ℤ) (garbage : Name → BootPacket) : Search Name where
  finder x := .start (config.client x).filename.chars (garbage x)
  site := .start tempPort

end Search

/-- The runs of the server, its processes, and the clients from their search on. -/
def searchSystem {Name : Type} [DecidableEq Name] (config : SiteConfig Name) :
    TransitionSystem (Search Name) (SearchAction Name) where
  initial s := ∃ tempPort garbage, s = Search.start config tempPort garbage
  step := Search.step config

/-- What each action does when it is enabled. -/
inductive Search.Stepped {Name : Type} [DecidableEq Name] (config : SiteConfig Name)
    (s : Search Name) : SearchAction Name → Search Name → Prop
  | findTimeout {x : Name} (hpc : (s.finder x).pc = .receiving) :
      Stepped config s (.findTimeout x) (s.find x none)
  | broadcast {x : Name} {n : ℕ} {packet : BootPacket} (rand : ℕ) (garbage : Buffer 6)
      (hsent : (s.finder x).sent[n]? = some packet) :
      Stepped config s (.broadcast x n rand garbage)
        { s with
          site := s.site.handle config (packet.request (config.discoveryAddr x)) rand garbage }
  | reply {x : Name} {n : ℕ} {reply : BootServerInfo} (hpc : (s.finder x).pc = .receiving)
      (htold : (config.discoveryAddr x, reply) ∈ s.site.replies) :
      Stepped config s (.reply x n)
        (s.find x (some (Site.socket config (portOf config.listen.port), reply.packet)))
  | startTransfer {x : Name} {servaddr : Addr} (haddr : (s.finder x).servaddr = some servaddr)
      (hpc : (s.finder x).pc = .found) (hnone : s.site.client x = none) :
      Stepped config s (.startTransfer x) (s.startTransfer config x servaddr)
  | transfer {a : SiteAction Name} {site : Site Name} (htransfer : a.isTransfer)
      (hstep : s.site.step config a = some site) :
      Stepped config s (.transfer a) { s with site }

section

variable {Name : Type} [DecidableEq Name] {config : SiteConfig Name} {s s' : Search Name}

theorem Search.stepped_of_step {a : SearchAction Name} (h : s.step config a = some s') :
    s.Stepped config a s' := by
  cases a with
  | findTimeout x =>
      obtain ⟨hpc, rfl⟩ := Option.ite_some_none_eq_some.mp h
      exact .findTimeout hpc
  | broadcast x n rand garbage =>
      simp only [Search.step] at h
      cases hsent : (s.finder x).sent[n]? with
      | none => simp [hsent] at h
      | some packet =>
          rw [hsent] at h
          obtain rfl := Option.some.inj h
          exact .broadcast rand garbage hsent
  | reply x n =>
      simp only [Search.step] at h
      cases hn : s.site.replies[n]? with
      | none => simp [hn] at h
      | some told =>
          obtain ⟨dest, reply⟩ := told
          rw [hn] at h
          obtain ⟨⟨hpc, rfl⟩, rfl⟩ := Option.ite_some_none_eq_some.mp h
          exact .reply hpc (List.mem_of_getElem? hn)
  | startTransfer x =>
      simp only [Search.step] at h
      cases haddr : (s.finder x).servaddr with
      | none => simp [haddr] at h
      | some servaddr =>
          rw [haddr] at h
          obtain ⟨⟨hpc, hnone⟩, rfl⟩ := Option.ite_some_none_eq_some.mp h
          exact .startTransfer haddr hpc hnone
  | transfer a =>
      simp only [Search.step] at h
      split_ifs at h with htransfer
      obtain ⟨site, hstep, rfl⟩ := Option.map_eq_some_iff.mp h
      exact .transfer htransfer hstep

/-! ## What the site keeps -/

theorem mem_set_or {Element : Type} {l : List Element} {i : ℕ} {a : Element} (ha : a ∈ l)
    (b : Element) : a ∈ l.set i b ∨ l[i]? = some a := by
  obtain ⟨j, hj, rfl⟩ := List.getElem_of_mem ha
  by_cases hij : i = j
  · subst hij
    exact .inr (List.getElem?_eq_getElem hj)
  · left
    rw [List.mem_iff_getElem?]
    exact ⟨j, by rw [List.getElem?_set_ne hij, List.getElem?_eq_getElem hj]⟩

omit [DecidableEq Name] in
/-- A process that keeps its port does so for the whole list. -/
theorem exists_port_set {site : Site Name} {i port : ℕ} {p q : Process}
    (hp : site.processes[i]? = some p) (hport : p.port = port → q.port = port)
    (h : ∃ p ∈ site.processes, p.port = port) :
    ∃ p ∈ site.processes.set i q, p.port = port := by
  obtain ⟨holder, hholder, hown⟩ := h
  rcases mem_set_or hholder q with hmem | hat
  · exact ⟨holder, hmem, hown⟩
  · obtain rfl := Option.some.inj (hp.symm.trans hat)
    exact ⟨q, List.mem_set (List.getElem?_eq_some_iff.mp hp).1 q, hport hown⟩

/-- A transfer tells nobody a port, starts no client, and no process changes its port. -/
structure Site.Goes (site site' : Site Name) : Prop where
  replies : site'.replies = site.replies
  unstarted : ∀ x, site.client x = none → site'.client x = none
  ports : ∀ port ≠ 0, (∃ p ∈ site.processes, p.port = port) →
    ∃ p ∈ site'.processes, p.port = port

theorem Site.goes_of_step {site site' : Site Name} {a : SiteAction Name}
    (htransfer : a.isTransfer) (h : site.step config a = some site') : site.Goes site' := by
  have hclient : ∀ {x : Name} {c c' : Client}, site.client x = some c →
      ∀ y, site.client y = none → Function.update site.client x (some c') y = none := by
    intro x c c' hc y hy
    have hyx : y ≠ x := by
      intro heq
      rw [heq, hc] at hy
      exact absurd hy (Option.some_ne_none c)
    rw [Function.update_of_ne hyx, hy]
  cases Site.stepped_of_step h with
  | request | startClient => exact absurd htransfer Bool.false_ne_true
  | @bind i p ephemeral hp hpc hunbound =>
      refine ⟨rfl, fun _ hx => hx, fun port hport => exists_port_set hp fun hown => ?_⟩
      have hgiven : (if p.port = 0 then ephemeral else p.port) = port := by
        rw [hown, if_neg hport]
      simp only [Site.bindPort, hgiven]
      split_ifs
      · exact hown
      · rfl
  | processTimeout hp hlive =>
      exact ⟨rfl, fun _ hx => hx, fun _ _ => exists_port_set hp id⟩
  | toProcess hp hlive hd hdest =>
      exact ⟨rfl, fun _ hx => hx, fun _ _ => exists_port_set hp id⟩
  | clientTimeout hc hpc => exact ⟨rfl, hclient hc, fun _ _ h => h⟩
  | toClient hc hpc hd hdest => exact ⟨rfl, hclient hc, fun _ _ h => h⟩

/-! ## What a search keeps -/

/-- A search for `filename`: only its first broadcast names it. -/
structure FindServer.Seeks (filename : List UInt8) (f : FindServer) : Prop where
  sent : ∃ first n, f.sent = first :: List.replicate n .zero ∧
    cString first.filename.bytes = filename
  cleared : f.pc = .receiving → f.packet = .zero

theorem FindServer.seeks_start (name : FileName) (garbage : BootPacket) :
    (FindServer.start name.chars garbage).Seeks name.chars := by
  have hfits : name.chars.length < 128 := Nat.lt_trans name.fits (by decide)
  exact ⟨⟨_, 0, rfl, cString_strcpy _ name.noNul hfits⟩, fun _ => rfl⟩

theorem FindServer.Seeks.timeout {filename : List UInt8} {f : FindServer}
    (h : f.Seeks filename) (hpc : f.pc = .receiving) :
    (findServerAddr f none).Seeks filename ∧ (findServerAddr f none).pc ≠ .found := by
  obtain ⟨first, n, hsent, hname⟩ := h.sent
  simp only [findServerAddr, hpc]
  split_ifs with hlimit
  · exact ⟨⟨h.sent, fun hrec => absurd hrec (by simp)⟩, by simp⟩
  · refine ⟨⟨⟨first, n + 1, ?_, hname⟩, fun _ => rfl⟩, by simp⟩
    rw [h.cleared hpc, hsent, List.cons_append, List.replicate_succ']

theorem FindServer.Seeks.heard {filename : List UInt8} {f : FindServer}
    (h : f.Seeks filename) (hpc : f.pc = .receiving) (source : Addr) (packet : BootPacket) :
    (findServerAddr f (some (source, packet))).Seeks filename ∧
      (findServerAddr f (some (source, packet))).pc = .found ∧
      (findServerAddr f (some (source, packet))).servaddr =
        some ⟨source.host, portOf packet.connectPort⟩ := by
  simp only [findServerAddr, hpc]
  exact ⟨⟨h.sent, fun hrec => absurd hrec (by simp)⟩, trivial, trivial⟩

/-- The first broadcast asks for the file, all others for nothing. -/
theorem FindServer.Seeks.asks {filename : List UInt8} {f : FindServer} (h : f.Seeks filename)
    {n : ℕ} {packet : BootPacket} (hsent : f.sent[n]? = some packet) :
    n = 0 ∧ cString packet.filename.bytes = filename ∨
      n ≠ 0 ∧ cString packet.filename.bytes = [] := by
  obtain ⟨first, count, hall, hname⟩ := h.sent
  rw [hall] at hsent
  cases n with
  | zero =>
      obtain rfl : first = packet := by simpa using hsent
      exact .inl ⟨rfl, hname⟩
  | succ n =>
      rw [List.getElem?_cons_succ] at hsent
      rw [List.eq_of_mem_replicate (List.mem_of_getElem? hsent)]
      exact .inr ⟨Nat.succ_ne_zero n, cString_zero 128⟩

/-- A client with an address has it from a reply, and one without has not started. -/
structure SearchInv (config : SiteConfig Name) (s : Search Name) : Prop where
  seeks : ∀ x, (s.finder x).Seeks (config.client x).filename.chars
  found : ∀ x, (s.finder x).pc = .found → ∃ reply,
    (config.discoveryAddr x, reply) ∈ s.site.replies ∧
      (s.finder x).servaddr = some (Site.socket config (portOf reply.connectPort))
  unstarted : ∀ x, (s.finder x).pc ≠ .found → s.site.client x = none

omit [DecidableEq Name] in
/-- The server may tell more, while no client starts. -/
theorem SearchInv.site (h : SearchInv config s) {site : Site Name}
    (hreplies : s.site.replies ⊆ site.replies)
    (hunstarted : ∀ x, s.site.client x = none → site.client x = none) :
    SearchInv config { s with site } := by
  refine ⟨h.seeks, fun x hpc => ?_, fun x hpc => hunstarted x (h.unstarted x hpc)⟩
  obtain ⟨reply, htold, haddr⟩ := h.found x hpc
  exact ⟨reply, hreplies htold, haddr⟩

theorem SearchInv.find (h : SearchInv config s) {x : Name} {r : Option (Addr × BootPacket)}
    (hseeks : (findServerAddr (s.finder x) r).Seeks (config.client x).filename.chars)
    (hfound : (findServerAddr (s.finder x) r).pc = .found → ∃ reply,
      (config.discoveryAddr x, reply) ∈ s.site.replies ∧
        (findServerAddr (s.finder x) r).servaddr =
          some (Site.socket config (portOf reply.connectPort)))
    (hpc : (s.finder x).pc = .receiving) : SearchInv config (s.find x r) := by
  refine ⟨fun y => ?_, fun y hy => ?_, fun y hy => ?_⟩ <;> by_cases hyx : y = x
  · subst hyx
    simpa [Search.find] using hseeks
  · simpa [Search.find, hyx] using h.seeks y
  · subst hyx
    simp only [Search.find, Function.update_self] at hy ⊢
    exact hfound hy
  · simp only [Search.find, Function.update_of_ne hyx] at hy ⊢
    exact h.found y hy
  · subst hyx
    exact h.unstarted y (by simp [hpc])
  · simp only [Search.find, Function.update_of_ne hyx] at hy
    exact h.unstarted y hy

omit [DecidableEq Name] in
theorem Site.replies_handle (site : Site Name) (r : Request) (rand : ℕ) (garbage : Buffer 6) :
    site.replies ⊆ (site.handle config r rand garbage).replies :=
  List.subset_append_left _ _

theorem searchInv_step {a : SearchAction Name} (h : SearchInv config s)
    (hstep : s.step config a = some s') : SearchInv config s' := by
  cases Search.stepped_of_step hstep with
  | @findTimeout x hpc =>
      obtain ⟨hseeks, hnot⟩ := (h.seeks x).timeout hpc
      exact h.find hseeks (fun hfound => absurd hfound hnot) hpc
  | broadcast rand garbage hsent => exact h.site (Site.replies_handle _ _ _ _) fun _ hx => hx
  | @reply x n reply hpc htold =>
      obtain ⟨hseeks, -, haddr⟩ := (h.seeks x).heard hpc
        (Site.socket config (portOf config.listen.port)) reply.packet
      exact h.find hseeks (fun _ => ⟨reply, htold, haddr⟩) hpc
  | @startTransfer x servaddr haddr hpc hnone =>
      refine ⟨h.seeks, h.found, fun y hy => ?_⟩
      have hyx : y ≠ x := fun heq => hy (heq ▸ hpc)
      exact (Function.update_of_ne hyx _ _).trans (h.unstarted y hy)
  | transfer htransfer hsite =>
      have hgoes := Site.goes_of_step htransfer hsite
      exact h.site (hgoes.replies ▸ List.Subset.refl _) hgoes.unstarted

theorem searchInv_of_reachable (h : (searchSystem config).Reachable s) :
    SearchInv config s := by
  apply h.invariant
  · rintro s ⟨tempPort, garbage, rfl⟩
    refine ⟨fun x => FindServer.seeks_start _ _, fun x hpc => ?_, fun _ _ => rfl⟩
    exact absurd hpc (by simp [Search.start, FindServer.start])
  · exact fun s a s' hs _ hstep => searchInv_step hs hstep

/-! ## Two clients that search -/

namespace TwoClients

def searching : Search Bool := Search.start site 0 fun _ => .zero

/-- The second client times out; what it broadcasts then gets a process of its own, with the port
of the first client.  Its first broadcast is late. -/
def search : List (SearchAction Bool) :=
  [.findTimeout false, .broadcast true 0 0 (Buffer.zero 6), .broadcast false 1 5 (Buffer.zero 6),
    .reply true 0, .transfer (.bind 0 1), .transfer (.bind 1 1), .startTransfer true,
    .transfer (.toProcess 0 (frq true 0)), .broadcast false 0 1 (Buffer.zero 6), .reply false 1,
    .startTransfer false, .transfer (.bind 2 1), .transfer (.toProcess 2 (frq false 1)),
    .transfer (.toClient false (data false 1)), .transfer (.toClient true (data true 0))]

/-- Only what the second client broadcasts again reaches the server. -/
def lost : List (SearchAction Bool) :=
  [.findTimeout false, .broadcast false 1 5 (Buffer.zero 6), .broadcast true 0 0 (Buffer.zero 6),
    .reply true 0]

theorem reachable_search {guard : Search Bool → SearchAction Bool → Prop}
    {actions : List (SearchAction Bool)}
    (hmeet : (searchSystem site).StepsMeet guard searching actions)
    (hrun : ((searchSystem site).run searching actions).isSome) :
    (searchSystem site).ReachableUnder guard ((searchSystem site).after searching actions) :=
  reachableUnder_of_run (.start ⟨0, _, rfl⟩) hmeet (run_eq_some_after hrun)

end TwoClients

/-! ## The site of clients that search -/

/-- A condition on the steps of the site, asked of those of the clients that search. -/
def Search.Lifted (config : SiteConfig Name) (guard : Site Name → SiteAction Name → Prop)
    (s : Search Name) : SearchAction Name → Prop
  | .broadcast x n rand garbage => ∀ packet ∈ (s.finder x).sent[n]?,
      guard s.site (.request (packet.request (config.discoveryAddr x)) rand garbage)
  | .startTransfer x => ∀ told ∈ s.site.replies, told.1 = config.discoveryAddr x →
      (s.finder x).servaddr = some (Site.socket config (portOf told.2.connectPort)) →
        guard s.site (.startClient x told.2)
  | .transfer a => guard s.site a
  | .findTimeout _ | .reply .. => True

instance {guard : Site Name → SiteAction Name → Prop} [∀ s a, Decidable (guard s a)]
    (s : Search Name) : (a : SearchAction Name) → Decidable (s.Lifted config guard a)
  | .broadcast x n rand garbage => inferInstanceAs (Decidable (∀ packet ∈ (s.finder x).sent[n]?,
      guard s.site (.request (packet.request (config.discoveryAddr x)) rand garbage)))
  | .startTransfer x => inferInstanceAs (Decidable (∀ told ∈ s.site.replies,
      told.1 = config.discoveryAddr x →
        (s.finder x).servaddr = some (Site.socket config (portOf told.2.connectPort)) →
          guard s.site (.startClient x told.2)))
  | .transfer a => inferInstanceAs (Decidable (guard s.site a))
  | .findTimeout _ | .reply .. => inferInstanceAs (Decidable True)

/-- **The search refines the site.**  What the server, its processes and the clients do after and
beside the searches is a run of the site, in which every client starts with a reply sent to it; and
conditions on the runs of the site can be asked of the searching clients. -/
theorem search_refines (config : SiteConfig Name) (guard : Site Name → SiteAction Name → Prop)
    {s : Search Name} (h : (searchSystem config).ReachableUnder (Search.Lifted config guard) s) :
    (siteSystem config).ReachableUnder guard s.site := by
  apply h.view Search.site
  · rintro s ⟨tempPort, garbage, rfl⟩
    exact ⟨tempPort, rfl⟩
  · intro s a s' hreach hguard hstep
    cases Search.stepped_of_step hstep with
    | findTimeout hpc => exact .inl rfl
    | reply hpc htold => exact .inl rfl
    | broadcast rand garbage hsent => exact .inr ⟨_, hguard _ hsent, rfl⟩
    | @startTransfer x servaddr haddr hpc hnone =>
        obtain ⟨reply, htold, hreply⟩ := (searchInv_of_reachable hreach.reachable).found x hpc
        obtain rfl : _ = servaddr := Option.some.inj (hreply.symm.trans haddr)
        exact .inr ⟨.startClient x reply, hguard _ htold rfl hreply, if_pos ⟨hnone, htold⟩⟩
    | transfer htransfer hsite => exact .inr ⟨_, hguard, hsite⟩

namespace TwoClients

/-- Both clients find a port of their own and get the file. -/
theorem search_refines_distinct :
    (siteSystem site).ReachableUnder DistinctPorts
        ((searchSystem site).after searching search).site ∧
      ∀ x, (((searchSystem site).after searching search).site.client x).map Client.written =
        some [7] := by
  have hreach := @reachable_search (Search.Lifted site DistinctPorts) search (by decide +kernel)
    (by decide +kernel)
  exact ⟨search_refines site DistinctPorts hreach, by decide +kernel⟩

end TwoClients

/-! ## What a client that found the server was told -/

omit [DecidableEq Name] in
/-- A request for another file is answered by nothing; its process gets the port drawn before. -/
theorem Site.handle_of_mismatch (site : Site Name) {r : Request} (rand : ℕ) (garbage : Buffer 6)
    (hother : strncmp r.filename config.listen.serFilename config.listen.serFilename.length ≠ 0) :
    site.handle config r rand garbage =
      { site with
        processes := site.processes ++ [.forked ⟨site.tempPort, r.source⟩ garbage] } := by
  have hround : mainRound config.listen site.tempPort r rand =
      (site.tempPort, ⟨none, some ⟨site.tempPort, r.source⟩⟩) := by
    simp only [mainRound, listenClient, if_pos hother]
    rfl
  rw [Site.handle, hround]
  simp

/-- `listenClient` compares as far as the served name goes. -/
theorem strncmp_length_eq_zero_iff {filename served : List UInt8} (hfilename : 0 ∉ filename)
    (hserved : 0 ∉ served) :
    strncmp filename served served.length = 0 ↔ served <+: filename := by
  rw [strncmp_eq_zero_iff hfilename hserved, List.take_length, List.prefix_iff_eq_take]
  exact eq_comm

/-- The reply tells the client the port drawn for its own request, for which a process was forked,
and the name it asked for begins with the served one. -/
structure SiteConfig.Tells (config : SiteConfig Name) (site : Site Name) (x : Name) (rand : ℕ) :
    Prop where
  asked : config.listen.serFilename <+: (config.client x).filename.chars
  forked : portOf (config.drawn rand) ≠ 0 →
    ∃ p ∈ site.processes, p.port = portOf (config.drawn rand)

omit [DecidableEq Name] in
/-- A broadcast is answered to its sender, or by nothing.  Only the first can be answered, unless
the served name is empty. -/
theorem SearchInv.answered (h : SearchInv config s) (hserved : 0 ∉ config.listen.serFilename)
    {x : Name} {n : ℕ} {packet : BootPacket} (hsent : (s.finder x).sent[n]? = some packet)
    (rand : ℕ) (garbage : Buffer 6) :
    (∃ p, p.port = portOf (config.drawn rand) ∧
      (n = 0 ∨ config.listen.serFilename = []) ∧
      config.listen.serFilename <+: (config.client x).filename.chars ∧
      s.site.handle config (packet.request (config.discoveryAddr x)) rand garbage =
        { s.site with
          tempPort := config.drawn rand
          replies := s.site.replies ++ [(config.discoveryAddr x, config.reply rand)]
          processes := s.site.processes ++ [p] }) ∨
    s.site.handle config (packet.request (config.discoveryAddr x)) rand garbage =
      { s.site with
        processes := s.site.processes ++
          [.forked ⟨s.site.tempPort, config.discoveryAddr x⟩ garbage] } := by
  set r := packet.request (config.discoveryAddr x) with hr
  by_cases hmatch :
      strncmp r.filename config.listen.serFilename config.listen.serFilename.length = 0
  · have hprefix : config.listen.serFilename <+: r.filename :=
      (strncmp_length_eq_zero_iff (zero_notMem_cString _) hserved).mp hmatch
    have hhandle := s.site.handle_of_match rand garbage hmatch
    rcases (h.seeks x).asks hsent with ⟨hn, hname⟩ | ⟨-, hname⟩
    · exact .inl ⟨_, rfl, .inl hn, hname ▸ hprefix, hhandle⟩
    · -- a cleared packet asks for the empty name
      have hempty : config.listen.serFilename = [] := List.prefix_nil.mp (hname ▸ hprefix)
      exact .inl ⟨_, rfl, .inr hempty, hempty ▸ List.nil_prefix, hhandle⟩
  · exact .inr (s.site.handle_of_mismatch rand garbage hmatch)

omit [DecidableEq Name] in
theorem SiteConfig.Tells.mono {site site' : Site Name} {x : Name} {rand : ℕ}
    (h : config.Tells site x rand)
    (hports : ∀ port ≠ 0, (∃ p ∈ site.processes, p.port = port) →
      ∃ p ∈ site'.processes, p.port = port) : config.Tells site' x rand :=
  ⟨h.asked, fun hport => hports _ hport (h.forked hport)⟩

/-- In the run of `actions` from here a broadcast of the client is answered: the port is drawn for
it, and the reply is to its sender. -/
inductive Search.Draws (config : SiteConfig Name) (x : Name) (rand : ℕ) :
    Search Name → List (SearchAction Name) → Prop
  | here {s s' : Search Name} {n : ℕ} {garbage : Buffer 6} {rest : List (SearchAction Name)}
      (hstep : s.step config (.broadcast x n rand garbage) = some s')
      (hreply : s'.site.replies =
        s.site.replies ++ [(config.discoveryAddr x, config.reply rand)]) :
      Draws config x rand s (.broadcast x n rand garbage :: rest)
  | later {s s' : Search Name} {a : SearchAction Name} {rest : List (SearchAction Name)}
      (hstep : s.step config a = some s') (h : Draws config x rand s' rest) :
      Draws config x rand s (a :: rest)

theorem Search.ports_of_step {a : SearchAction Name} (hstep : s.step config a = some s') {port : ℕ}
    (hport : port ≠ 0) (hheld : ∃ p ∈ s.site.processes, p.port = port) :
    ∃ p ∈ s'.site.processes, p.port = port := by
  cases Search.stepped_of_step hstep with
  | findTimeout | reply | startTransfer => exact hheld
  | broadcast rand garbage hsent =>
      obtain ⟨p, hp, hown⟩ := hheld
      exact ⟨p, List.mem_append_left _ hp, hown⟩
  | transfer htransfer hsite => exact (Site.goes_of_step htransfer hsite).ports port hport hheld

/-- What a step tells: nothing, or the port drawn for a broadcast, to its sender. -/
theorem SearchInv.replies_of_step (h : SearchInv config s)
    (hserved : 0 ∉ config.listen.serFilename) {a : SearchAction Name}
    (hstep : s.step config a = some s') :
    s'.site.replies = s.site.replies ∨ ∃ x n rand garbage, a = .broadcast x n rand garbage ∧
      s'.site.replies = s.site.replies ++ [(config.discoveryAddr x, config.reply rand)] ∧
      config.Tells s'.site x rand := by
  cases Search.stepped_of_step hstep with
  | findTimeout | reply | startTransfer => exact .inl rfl
  | @broadcast x n packet rand garbage hsent =>
      rcases h.answered hserved hsent rand garbage with ⟨p, hport, -, hprefix, heq⟩ | heq
      · refine .inr ⟨x, n, rand, garbage, rfl, ?_, hprefix, fun _ => ⟨p, ?_, hport⟩⟩
        · rw [heq]
        · rw [heq]
          exact List.mem_append_right _ (List.mem_singleton_self p)
      · exact .inl (by rw [heq])
  | transfer htransfer hsite => exact .inl (Site.goes_of_step htransfer hsite).replies

theorem SiteConfig.Tells.run {x : Name} {rand : ℕ} {actions : List (SearchAction Name)}
    (h : config.Tells s.site x rand) (hrun : (searchSystem config).run s actions = some s') :
    config.Tells s'.site x rand := by
  induction actions generalizing s with
  | nil =>
      obtain rfl : s = s' := Option.some.inj hrun
      exact h
  | cons a rest ih =>
      obtain ⟨middle, hstep, hrest⟩ := run_cons.mp hrun
      exact ih (h.mono fun port hport hheld => Search.ports_of_step hstep hport hheld) hrest

/-- **What a run tells** are ports drawn in it for broadcasts, to their senders. -/
theorem SearchInv.told_of_run (h : SearchInv config s) (hserved : 0 ∉ config.listen.serFilename)
    {actions : List (SearchAction Name)} (hrun : (searchSystem config).run s actions = some s')
    {told : Addr × BootServerInfo} (htold : told ∈ s'.site.replies) :
    told ∈ s.site.replies ∨ ∃ x rand, told = (config.discoveryAddr x, config.reply rand) ∧
      Search.Draws config x rand s actions ∧ config.Tells s'.site x rand := by
  induction actions generalizing s with
  | nil =>
      obtain rfl : s = s' := Option.some.inj hrun
      exact .inl htold
  | cons a rest ih =>
      obtain ⟨middle, hstep, hrest⟩ := run_cons.mp hrun
      rcases ih (searchInv_step h hstep) hrest with hmiddle | ⟨x, rand, heq, hdraws, htells⟩
      · rcases h.replies_of_step hserved hstep with
          hsame | ⟨x, n, rand, garbage, rfl, hmore, htells⟩
        · exact .inl (hsame ▸ hmiddle)
        · rw [hmore] at hmiddle
          rcases List.mem_append.mp hmiddle with hold | hnew
          · exact .inl hold
          · exact .inr ⟨x, rand, List.mem_singleton.mp hnew, .here hstep hmore, htells.run hrest⟩
      · exact .inr ⟨x, rand, heq, .later hstep hdraws, htells⟩

namespace TwoClients

theorem discoveryAddr_injective : Function.Injective site.discoveryAddr := by
  intro x y
  revert x y
  decide

end TwoClients

/-! ## A lost broadcast -/

/-- The first broadcast of the client does not reach the server. -/
def Search.LosesFirst (x : Name) (_ : Search Name) : SearchAction Name → Prop
  | .broadcast y n _ _ => y = x → n ≠ 0
  | .findTimeout _ | .reply .. | .startTransfer _ | .transfer _ => True

instance (x : Name) (s : Search Name) : (a : SearchAction Name) → Decidable (s.LosesFirst x a)
  | .broadcast y n _ _ => inferInstanceAs (Decidable (y = x → n ≠ 0))
  | .findTimeout _ | .reply .. | .startTransfer _ | .transfer _ =>
      inferInstanceAs (Decidable True)

/-- **Lost for good.**  If the first broadcast of a client is lost, none of its later ones makes up
for it: nothing is ever told to the client, so it does not find the server and its transfer never
starts. -/
theorem lost_never_found (config : SiteConfig Name) (hserved : 0 ∉ config.listen.serFilename)
    (hname : config.listen.serFilename ≠ []) (hown : Function.Injective config.discoveryAddr)
    (x : Name) {s : Search Name}
    (h : (searchSystem config).ReachableUnder (Search.LosesFirst x) s) :
    (∀ reply, (config.discoveryAddr x, reply) ∉ s.site.replies) ∧
      (s.finder x).pc ≠ .found ∧ s.site.client x = none := by
  have hinv := searchInv_of_reachable h.reachable
  suffices htold : ∀ reply, (config.discoveryAddr x, reply) ∉ s.site.replies by
    have hnot : (s.finder x).pc ≠ .found := by
      intro hfound
      obtain ⟨reply, hreply, -⟩ := hinv.found x hfound
      exact htold reply hreply
    exact ⟨htold, hnot, hinv.unstarted x hnot⟩
  clear hinv
  induction h with
  | start hstart =>
      obtain ⟨tempPort, garbage, rfl⟩ := hstart
      exact fun reply htold => absurd htold List.not_mem_nil
  | @next s s' a hreach hlost hstep ih =>
      cases Search.stepped_of_step hstep with
      | findTimeout | reply | startTransfer => exact ih
      | @broadcast y n packet rand garbage hsent =>
          intro reply htold
          have hinv := searchInv_of_reachable hreach.reachable
          rcases hinv.answered hserved hsent rand garbage with ⟨p, -, hn, -, heq⟩ | heq
          · rw [heq] at htold
            rcases List.mem_append.mp htold with hold | hnew
            · exact ih reply hold
            · have hdest := (Prod.mk.inj (List.mem_singleton.mp hnew)).1
              exact hlost (hown hdest).symm (hn.resolve_right hname)
          · rw [heq] at htold
            exact ih reply htold
      | transfer htransfer hsite =>
          intro reply htold
          rw [(Site.goes_of_step htransfer hsite).replies] at htold
          exact ih reply htold

namespace TwoClients

/-- The server heard of the second client, which has nothing. -/
theorem lost_never_found_again :
    (((searchSystem site).after searching lost).finder false).pc ≠ .found ∧
      ((searchSystem site).after searching lost).site.client false = none := by
  have hreach := @reachable_search (Search.LosesFirst false) lost (by decide +kernel)
    (by decide +kernel)
  generalize (searchSystem site).after searching lost = s at *
  exact (lost_never_found site (by decide) (by decide) discoveryAddr_injective false hreach).2

end TwoClients

end

end NetworkHomework.Ftp
