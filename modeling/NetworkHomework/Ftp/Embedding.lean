import NetworkHomework.Ftp.Isolation
import NetworkHomework.Ftp.Recoverable

/-!
# A transfer among others

What a process and a client can do by themselves, they can do at a site with any number of
other processes and clients, whatever those are in the middle of, and none of the others
has to move or notices.  So what is known of a pair holds at the site: a client that has
not started yet can always be told a port, have a process forked for it and get the file,
if the draw is a port that no live process holds.  Nothing makes the network deliver, so
this says what can happen, not what will.
-/

namespace NetworkHomework.Ftp

open CString TransitionSystem

variable {Name : Type} [DecidableEq Name] (config : SiteConfig Name)

/-- The process with this port and the client by themselves. -/
def SiteConfig.pair (x : Name) (port : ℕ) : PairConfig where
  server := config.server
  client := config.client x
  serverAddr := Site.socket config port
  clientAddr := config.clientAddr x
  distinct h := config.remote x (congrArg Addr.host h).symm

/-- The action at the site.  The network of the site does not damage anything. -/
def PairAction.atSite (x : Name) (i : ℕ) : PairAction → Option (SiteAction Name)
  | .serverTimeout => some (.processTimeout i)
  | .clientTimeout => some (.clientTimeout x)
  | .toServer d => some (.toProcess i d)
  | .toClient d => some (.toClient x d)
  | .damagedToServer _ | .damagedToClient _ => none

/-- The process `i` and the client `x` of the site are the pair. -/
structure Site.Embeds (x : Name) (i port : ℕ) (t : Pair) (s : Site Name) : Prop where
  process : ∃ p, s.processes[i]? = some p ∧ p.bound ∧ p.port = port ∧ p.server = t.server
  client : s.client x = some t.client
  net : t.net ⊆ s.net

/-- Nobody but the process `i` and the client `x` has done anything. -/
structure Site.OthersKeep (x : Name) (i : ℕ) (s s' : Site Name) : Prop where
  processes : ∀ j, j ≠ i → s'.processes[j]? = s.processes[j]?
  clients : ∀ y, y ≠ x → s'.client y = s.client y
  replies : s'.replies = s.replies

variable {config} {x : Name} {i port : ℕ} {s s' middle : Site Name} {t t' : Pair}

omit [DecidableEq Name] in
theorem Site.OthersKeep.trans (h : s.OthersKeep x i middle) (h' : middle.OthersKeep x i s') :
    s.OthersKeep x i s' where
  processes j hj := (h'.processes j hj).trans (h.processes j hj)
  clients y hy := (h'.clients y hy).trans (h.clients y hy)
  replies := h'.replies.trans h.replies

/-! ## One step -/

omit [DecidableEq Name] in
/-- The process runs on. -/
theorem Site.Embeds.processStep (h : s.Embeds x i port t) (r : Recv) {p : Process}
    (hp : s.processes[i]? = some p) (hport : p.port = port) (hserver : p.server = t.server)
    (hbound : p.bound) :
    (s.processStep config i p r).Embeds x i port (t.serverStep (config.pair x port) r) ∧
      s.OthersKeep x i (s.processStep config i p r) := by
  have hlt : i < s.processes.length := (List.getElem?_eq_some_iff.mp hp).1
  refine ⟨⟨⟨_, List.getElem?_set_self hlt, hbound, hport, ?_⟩, h.client, ?_⟩, ?_, ?_, rfl⟩
  · rw [hserver]
    rfl
  · simp only [Pair.serverStep, Site.processStep, hserver, hport]
    exact List.append_subset.mpr
      ⟨List.subset_append_of_subset_left _ h.net, List.subset_append_right _ _⟩
  · exact fun j hj => List.getElem?_set_ne hj.symm
  · exact fun y _ => rfl

/-- The client runs on. -/
theorem Site.Embeds.clientStep (h : s.Embeds x i port t) (about : Option ℕ) (r : Recv) :
    (s.clientStep config x t.client about r).Embeds x i port
        (t.clientStep (config.pair x port) about r) ∧
      s.OthersKeep x i (s.clientStep config x t.client about r) := by
  refine ⟨⟨h.process, Function.update_self _ _ _, ?_⟩, fun _ _ => rfl, fun y hy => ?_, rfl⟩
  · exact List.append_subset.mpr
      ⟨List.subset_append_of_subset_left _ h.net, List.subset_append_right _ _⟩
  · exact Function.update_of_ne hy _ _

theorem Site.Embeds.step (h : s.Embeds x i port t) {a : PairAction} (hgenuine : a.Genuine)
    (hstep : t.step (config.pair x port) a = some t') :
    ∃ b s', a.atSite x i = some b ∧ s.step config b = some s' ∧ s'.Embeds x i port t' ∧
      s.OthersKeep x i s' := by
  obtain ⟨p, hp, hbound, hport, hserver⟩ := h.process
  have hlive : t.server.Waiting → p.Live := fun hwaiting => ⟨hbound, hserver ▸ hwaiting⟩
  cases a with
  | serverTimeout =>
      obtain ⟨hwaiting, rfl⟩ := Option.ite_some_none_eq_some.mp hstep
      refine ⟨_, s.processStep config i p .timeout, rfl, ?_,
        h.processStep .timeout hp hport hserver hbound⟩
      simp only [Site.step, hp, if_pos (hlive hwaiting)]
  | clientTimeout =>
      obtain ⟨hreceiving, rfl⟩ := Option.ite_some_none_eq_some.mp hstep
      refine ⟨_, s.clientStep config x t.client none .timeout, rfl, ?_, h.clientStep none .timeout⟩
      simp only [Site.step, h.client, if_pos hreceiving]
  | toServer d =>
      obtain ⟨⟨hwaiting, hd, hdest⟩, rfl⟩ := Option.ite_some_none_eq_some.mp hstep
      have hdest : d.dest = Site.socket config p.port := hport ▸ hdest
      refine ⟨_, s.processStep config i p (.datagram d.source d.bytes), rfl, ?_,
        h.processStep _ hp hport hserver hbound⟩
      have hguard : p.Live ∧ d ∈ s.net ∧ d.dest = Site.socket config p.port :=
        ⟨hlive hwaiting, h.net hd, hdest⟩
      simp only [Site.step, hp, if_pos hguard]
  | toClient d =>
      obtain ⟨⟨hreceiving, hd, hdest⟩, rfl⟩ := Option.ite_some_none_eq_some.mp hstep
      have hdest : d.dest = config.clientAddr x := hdest
      refine ⟨_, s.clientStep config x t.client d.about (.datagram d.source d.bytes), rfl, ?_,
        h.clientStep _ _⟩
      have hguard : t.client.pc = .receiving ∧ d ∈ s.net ∧ d.dest = config.clientAddr x :=
        ⟨hreceiving, h.net hd, hdest⟩
      simp only [Site.step, h.client, if_pos hguard]
  | damagedToServer bytes => cases hgenuine
  | damagedToClient bytes => cases hgenuine

/-- **A run of a pair** is a run of the site, at which the others keep still. -/
theorem Site.Embeds.run {actions : List PairAction} (h : s.Embeds x i port t)
    (hgenuine : ∀ a ∈ actions, a.Genuine)
    (hrun : (pairSystem (config.pair x port)).run t actions = some t') :
    ∃ s', (siteSystem config).run s (actions.filterMap (PairAction.atSite x i)) = some s' ∧
      s'.Embeds x i port t' ∧ s.OthersKeep x i s' := by
  induction actions generalizing s t with
  | nil =>
      obtain rfl := Option.some.inj hrun
      exact ⟨s, rfl, h, fun _ _ => rfl, fun _ _ => rfl, rfl⟩
  | cons a rest ih =>
      obtain ⟨next, hstep, hrest⟩ := run_cons.mp hrun
      obtain ⟨b, middle, hb, hmiddle, hembeds, hkeep⟩ :=
        h.step (hgenuine a List.mem_cons_self) hstep
      obtain ⟨s', hlast, hembeds', hkeep'⟩ :=
        ih hembeds (fun other hother => hgenuine other (List.mem_cons_of_mem a hother)) hrest
      refine ⟨s', ?_, hembeds', hkeep.trans hkeep'⟩
      rw [List.filterMap_cons_some hb]
      exact run_cons.mpr ⟨middle, hmiddle, hlast⟩

/-! ## A newcomer -/

section Newcomer

variable (config : SiteConfig Name) (x : Name)

/-- The port drawn for a request. -/
def SiteConfig.drawn (rand : ℕ) : ℤ := config.listen.port + (rand % 1000 : ℕ) + 33

/-- The reply with the drawn port. -/
def SiteConfig.reply (rand : ℕ) : BootServerInfo :=
  ⟨config.listen.myIP, config.drawn rand, config.listen.serFilename⟩

/-- What `findServerAddr` of the client asks for, with `filename` as the name. -/
def SiteConfig.request (filename : List UInt8) : Request := ⟨config.discoveryAddr x, filename⟩

/-- The client is told a port, and the process `i` forked for it binds this port. -/
def arrival (i : ℕ) (filename : List UInt8) (rand : ℕ) (garbage : Buffer 6) :
    List (SiteAction Name) :=
  [.request (config.request x filename) rand garbage, .bind i 1,
    .startClient x (config.reply rand)]

/-- The arrival, and what the process and the client do by themselves. -/
def newcomerActions (i : ℕ) (filename : List UInt8) (rand : ℕ) (garbage : Buffer 6)
    (actions : List PairAction) : List (SiteAction Name) :=
  arrival config x i filename rand garbage ++ actions.filterMap (PairAction.atSite x i)

end Newcomer

omit [DecidableEq Name] in
/-- A request for the served file: the reply tells the port of the process. -/
theorem Site.handle_of_match (s : Site Name) {r : Request} (rand : ℕ) (garbage : Buffer 6)
    (hmatch : strncmp r.filename config.listen.serFilename config.listen.serFilename.length = 0) :
    s.handle config r rand garbage =
      { s with
        tempPort := config.drawn rand
        replies := s.replies ++ [(r.source, config.reply rand)]
        processes := s.processes ++ [.forked ⟨config.drawn rand, r.source⟩ garbage] } := by
  have hround : mainRound config.listen s.tempPort r rand =
      (config.drawn rand,
        ⟨some (config.reply rand), some ⟨config.drawn rand, r.source⟩⟩) := by
    simp only [mainRound, listenClient, hmatch]
    rfl
  rw [Site.handle, hround]
  rfl

omit [DecidableEq Name] in
/-- Nobody holds the port of the process: it gets it. -/
theorem Site.bindPort_of_free (s : Site Name) {p : Process} (hport : p.port ≠ 0)
    (hfree : ∀ q ∈ s.processes, q.Live → q.port ≠ p.port) (ephemeral : ℕ) :
    s.bindPort p ephemeral = { p with bound := true } := by
  have hown : (if p.port = 0 then ephemeral else p.port) = p.port := if_neg hport
  have hnobody : ¬ ∃ q ∈ s.processes, q.Live ∧ q.port = p.port := by
    intro hheld
    obtain ⟨q, hq, hlive, hqport⟩ := hheld
    exact hfree q hq hlive hqport
  rw [Site.bindPort, hown, if_neg hnobody]

/-- The arrival of a client whose name is served, on a port that no live process holds. -/
theorem Site.arrives (s : Site Name) {filename : List UInt8}
    (hmatch : strncmp filename config.listen.serFilename config.listen.serFilename.length = 0)
    (hnew : s.client x = none) {rand : ℕ} (hport : portOf (config.drawn rand) ≠ 0)
    (hfree : ∀ p ∈ s.processes, p.Live → p.port ≠ portOf (config.drawn rand))
    (garbage : Buffer 6) :
    ∃ s', (siteSystem config).run s
        (arrival config x s.processes.length filename rand garbage) = some s' ∧
      s'.Embeds x s.processes.length (portOf (config.drawn rand))
        (Pair.start (config.pair x (portOf (config.drawn rand))) (config.discoveryAddr x)
          garbage) ∧
      (∀ j < s.processes.length, s'.processes[j]? = s.processes[j]?) ∧
      ∀ y, y ≠ x → s'.client y = s.client y := by
  set p := Process.forked ⟨config.drawn rand, config.discoveryAddr x⟩ garbage with hp
  set asked := s.handle config (config.request x filename) rand garbage with hasked
  rw [s.handle_of_match rand garbage hmatch] at hasked
  have hprocesses : asked.processes = s.processes ++ [p] := by rw [hasked]; rfl
  have hreplies : asked.replies = s.replies ++ [(config.discoveryAddr x, config.reply rand)] := by
    rw [hasked]
    rfl
  have hclient : asked.client = s.client := by rw [hasked]
  -- nobody holds the port, so the process gets it
  have hlast : asked.processes[s.processes.length]? = some p := by
    rw [hprocesses]
    exact List.getElem?_concat_length
  have hbind : asked.bindPort p 1 = { p with bound := true } := by
    apply asked.bindPort_of_free hport
    intro q hq hlive
    rw [hprocesses, List.mem_append, List.mem_singleton] at hq
    rcases hq with hq | rfl
    · exact hfree q hq hlive
    · exact absurd hlive.1 (by simp [hp, Process.forked])
  set bound : Site Name :=
    { asked with processes := asked.processes.set s.processes.length { p with bound := true } }
    with hbound
  have hstepBind : asked.step config (.bind s.processes.length 1) = some bound := by
    have hguard : p.server.pc = .waitFrq ∧ ¬ p.bound ∧ 1 ≠ 0 :=
      ⟨rfl, by simp [hp, Process.forked], one_ne_zero⟩
    simp only [Site.step, hlast, if_pos hguard, hbind, hbound]
  have hstepStart : bound.step config (.startClient x (config.reply rand)) =
      some (bound.launch config x (config.reply rand)) := by
    refine if_pos ⟨hclient ▸ hnew, ?_⟩
    rw [hbound]
    simp [hreplies]
  have hlt : s.processes.length < asked.processes.length := by simp [hprocesses]
  refine ⟨bound.launch config x (config.reply rand),
    run_cons.mpr ⟨asked, rfl, run_cons.mpr ⟨bound, hstepBind, run_cons.mpr ⟨_, hstepStart, rfl⟩⟩⟩,
    ⟨⟨_, List.getElem?_set_self hlt, rfl, rfl, rfl⟩, Function.update_self _ _ _, ?_⟩, ?_, ?_⟩
  · exact List.subset_append_right _ _
  · intro j hj
    calc
      (bound.launch config x (config.reply rand)).processes[j]?
          = asked.processes[j]? := List.getElem?_set_ne (by omega)
      _ = s.processes[j]? := by rw [hprocesses, List.getElem?_append_left hj]
  · intro y hy
    calc
      (bound.launch config x (config.reply rand)).client y
          = asked.client y := Function.update_of_ne hy _ _
      _ = s.client y := by rw [hclient]

/-- What the newcomer and its process do by themselves, they can do at the site. -/
theorem Site.newcomer (s : Site Name) {filename : List UInt8}
    (hmatch : strncmp filename config.listen.serFilename config.listen.serFilename.length = 0)
    (hnew : s.client x = none) {rand : ℕ} (hport : portOf (config.drawn rand) ≠ 0)
    (hfree : ∀ p ∈ s.processes, p.Live → p.port ≠ portOf (config.drawn rand))
    (garbage : Buffer 6) {actions : List PairAction} (hgenuine : ∀ a ∈ actions, a.Genuine)
    (hrun : (pairSystem (config.pair x (portOf (config.drawn rand)))).run
      (Pair.start (config.pair x (portOf (config.drawn rand))) (config.discoveryAddr x) garbage)
      actions = some t) :
    ∃ s', (siteSystem config).run s
        (newcomerActions config x s.processes.length filename rand garbage actions) = some s' ∧
      s'.client x = some t.client ∧
      (∃ p, s'.processes[s.processes.length]? = some p ∧ p.server = t.server) ∧
      (∀ j < s.processes.length, s'.processes[j]? = s.processes[j]?) ∧
      ∀ y, y ≠ x → s'.client y = s.client y := by
  obtain ⟨arrived, harrival, hembeds, hprocesses, hclients⟩ :=
    s.arrives hmatch hnew hport hfree garbage
  obtain ⟨s', hrun', hembeds', hkeep⟩ := hembeds.run hgenuine hrun
  obtain ⟨p, hp, -, -, hserver⟩ := hembeds'.process
  refine ⟨s', run_append.mpr ⟨arrived, harrival, hrun'⟩, hembeds'.client, ⟨p, hp, hserver⟩, ?_, ?_⟩
  · intro j hj
    rw [hkeep.processes j (Nat.ne_of_lt hj), hprocesses j hj]
  · intro y hy
    rw [hkeep.clients y hy, hclients y hy]

/-- **A newcomer can be served**, whatever the others are in the middle of: a client that asks for
the served file is told the drawn port, a process gets that port if no live one holds it, and
whatever the two could do if they were alone, with timeouts, and datagrams lost, repeated, late or
out of order, they can do here, while the other processes and clients stay where they are.  In
particular the client can get the whole file. -/
theorem newcomer_served (config : SiteConfig Name) (s : Site Name) (x : Name)
    (hname : (config.client x).filename = config.server.filename) (filename : List UInt8)
    (hmatch : strncmp filename config.listen.serFilename config.listen.serFilename.length = 0)
    (hnew : s.client x = none) (rand : ℕ) (hport : portOf (config.drawn rand) ≠ 0)
    (hfree : ∀ p ∈ s.processes, p.Live → p.port ≠ portOf (config.drawn rand))
    (garbage : Buffer 6) :
    (∀ actions t, (∀ a ∈ actions, PairAction.Genuine a) →
      (pairSystem (config.pair x (portOf (config.drawn rand)))).run
        (Pair.start (config.pair x (portOf (config.drawn rand))) (config.discoveryAddr x) garbage)
        actions = some t →
      ∃ s', (siteSystem config).run s
          (newcomerActions config x s.processes.length filename rand garbage actions) = some s' ∧
        s'.client x = some t.client ∧
        (∃ p, s'.processes[s.processes.length]? = some p ∧ p.server = t.server) ∧
        (∀ j < s.processes.length, s'.processes[j]? = s.processes[j]?) ∧
        ∀ y, y ≠ x → s'.client y = s.client y) ∧
    ∃ actions s', (siteSystem config).run s
        (newcomerActions config x s.processes.length filename rand garbage actions) = some s' ∧
      (∃ c, s'.client x = some c ∧ c.pc = .finished ∧ c.written = config.server.file) ∧
      (∃ p, s'.processes[s.processes.length]? = some p ∧ p.server.pc = .returned) ∧
      (∀ j < s.processes.length, s'.processes[j]? = s.processes[j]?) ∧
      ∀ y, y ≠ x → s'.client y = s.client y := by
  refine ⟨fun actions t hgenuine hrun => s.newcomer hmatch hnew hport hfree garbage hgenuine hrun,
    ?_⟩
  obtain ⟨actions, t, hgenuine, hrun, hcompleted⟩ :=
    @canComplete_start (config.pair x (portOf (config.drawn rand))) hname (config.discoveryAddr x)
      garbage
  obtain ⟨s', hrun', hclient, ⟨p, hp, hserver⟩, hprocesses, hclients⟩ :=
    s.newcomer hmatch hnew hport hfree garbage hgenuine hrun
  refine ⟨actions, s', hrun', ⟨t.client, hclient, hcompleted.finished, hcompleted.written⟩,
    ⟨p, hp, ?_⟩, hprocesses, hclients⟩
  rw [hserver]
  exact hcompleted.returned

namespace TwoClients

/-- The first client waits for the only packet of its file. -/
def underway : List (SiteAction Bool) :=
  [.request (request true) 0 (Buffer.zero 6), .bind 0 1, .startClient true (reply 0),
    .toProcess 0 (frq true 0)]

/-- Meanwhile the second client can get the file. -/
theorem newcomer_served_underway :
    ∃ actions s', (siteSystem site).run (after underway)
        (newcomerActions site false (after underway).processes.length [97] 1 (Buffer.zero 6)
          actions) = some s' ∧
      (∃ c, s'.client false = some c ∧ c.pc = .finished ∧ c.written = [7]) ∧
      s'.client true = (after underway).client true := by
  have hnew : (after underway).client false = none := by decide +kernel
  have hfree : ∀ p ∈ (after underway).processes, p.Live → p.port ≠ portOf (site.drawn 1) := by
    decide +kernel
  obtain ⟨-, actions, s', hrun, hfinished, -, -, hclients⟩ := newcomer_served site (after underway)
    false rfl [97] (by decide) hnew 1 (by decide) hfree (Buffer.zero 6)
  exact ⟨actions, s', hrun, hfinished, hclients true (by decide)⟩

end TwoClients

end NetworkHomework.Ftp
