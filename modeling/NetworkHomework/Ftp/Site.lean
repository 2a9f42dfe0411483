import NetworkHomework.Ftp.Discovery
import NetworkHomework.Ftp.Pair
import Mathlib.Logic.Function.Basic

/-!
# A server, its transfer processes, and several clients

The whole system: the main loop forks a process for every request it receives
(`mainRound`), a process binds the port it was given and exits if a live process holds
it, and a client, once it has a reply, starts `startMyftpClient` towards the port in
it.  The network is that of `Pair.lean`: any datagram sent is delivered any number of
times, in any order, or never, to whatever socket has its destination address.

A client sends its request for a port from one socket, closes it, and transfers over a
second one, so it has two addresses.  `accepted` is history: the source of the request
a process accepted.  The clients run on other hosts than the server.
-/

namespace NetworkHomework.Ftp

/-- The server host with what it serves, and the clients. -/
structure SiteConfig (Name : Type) where
  server : ServerConfig
  listen : ListenConfig
  host : ℕ
  client : Name → ClientConfig
  discoveryAddr : Name → Addr
  clientAddr : Name → Addr
  injective : Function.Injective clientAddr
  remote : ∀ x, (clientAddr x).host ≠ host

/-- A forked transfer process. -/
structure Process where
  port : ℕ
  bound : Bool
  server : Server
  accepted : Option Addr
  deriving DecidableEq

structure Site (Name : Type) where
  tempPort : ℤ
  replies : List (Addr × BootServerInfo)
  processes : List Process
  client : Name → Option Client
  net : List Datagram

inductive SiteAction (Name : Type)
  | request (r : Request) (rand : ℕ) (garbage : Buffer 6)
  | bind (i : ℕ) (ephemeral : ℕ)
  | startClient (x : Name) (reply : BootServerInfo)
  | processTimeout (i : ℕ)
  | toProcess (i : ℕ) (d : Datagram)
  | clientTimeout (x : Name)
  | toClient (x : Name) (d : Datagram)

/-- `htons` of a port held in an `int`. -/
def portOf (port : ℤ) : ℕ := (port % 2 ^ 16).toNat

/-- A process before its `bind`. -/
def Process.forked (fork : Fork) (garbage : Buffer 6) : Process :=
  { port := portOf fork.tempPort, bound := false, accepted := none,
    server := Server.start fork.clientaddr garbage }

/-- The process has its port and is blocked in a `recvfrom`. -/
def Process.Live (p : Process) : Prop := p.bound ∧ p.server.Waiting

instance (p : Process) : Decidable p.Live := inferInstanceAs (Decidable (_ ∧ _))

namespace Site

variable {Name : Type} [DecidableEq Name] (config : SiteConfig Name)

/-- The address of the transfer socket with this port. -/
def socket (port : ℕ) : Addr := ⟨config.host, port⟩

/-- The main loop handles a request: the reply, if any, and the process it forks. -/
def handle (s : Site Name) (r : Request) (rand : ℕ) (garbage : Buffer 6) : Site Name :=
  let (tempPort, round) := mainRound config.listen s.tempPort r rand
  { s with
    tempPort
    replies := s.replies ++ round.reply.toList.map fun reply => (r.source, reply)
    processes := s.processes ++ round.fork.toList.map fun fork => .forked fork garbage }

/-- `bind`: port 0 stands for any free one; a port that a live process holds makes it exit. -/
def bindPort (s : Site Name) (p : Process) (ephemeral : ℕ) : Process :=
  let port := if p.port = 0 then ephemeral else p.port
  if ∃ q ∈ s.processes, q.Live ∧ q.port = port then
    { p with server := { p.server with pc := .exited } }
  else { p with port, bound := true }

/-- A process runs on with the result `r` of its `recvfrom`. -/
def processStep (s : Site Name) (i : ℕ) (p : Process) (r : Recv) : Site Name :=
  let (server, out) := startMyftpServer config.server p.server r
  let accepted :=
    if p.server.pc = .waitFrq ∧ server.pc = .waitAck then some server.clientaddr else p.accepted
  { s with
    processes := s.processes.set i { p with server, accepted }
    net := s.net ++ out.map fun packet =>
      ⟨socket config p.port, packet.dest, packet.bytes, some server.chunk⟩ }

/-- A client runs on with the result `r` of its `recvfrom`, a datagram about `about`. -/
def clientStep (s : Site Name) (x : Name) (c : Client) (about : Option ℕ) (r : Recv) :
    Site Name :=
  let (client, out) := startMyftpClient (config.client x) c r
  { s with
    client := Function.update s.client x (some client)
    net := s.net ++ out.map fun packet =>
      ⟨config.clientAddr x, packet.dest, packet.bytes, aboutOfAnswer about packet.bytes⟩ }

/-- A client with a reply starts its transfer by sending the request to the port in it. -/
def launch (s : Site Name) (x : Name) (reply : BootServerInfo) : Site Name :=
  let servaddr := socket config (portOf reply.connectPort)
  { s with
    client := Function.update s.client x (some (Client.start servaddr))
    net := s.net ++ [⟨config.clientAddr x, servaddr,
      frqPacket (config.client x).order (config.client x).filename, none⟩] }

def step (s : Site Name) : SiteAction Name → Option (Site Name)
  | .request r rand garbage => some (s.handle config r rand garbage)
  | .bind i ephemeral =>
      match s.processes[i]? with
      | some p =>
          if p.server.pc = .waitFrq ∧ ¬ p.bound ∧ ephemeral ≠ 0 then
            some { s with processes := s.processes.set i (s.bindPort p ephemeral) }
          else none
      | none => none
  | .startClient x reply =>
      if s.client x = none ∧ (config.discoveryAddr x, reply) ∈ s.replies then
        some (s.launch config x reply)
      else none
  | .processTimeout i =>
      match s.processes[i]? with
      | some p => if p.Live then some (s.processStep config i p .timeout) else none
      | none => none
  | .toProcess i d =>
      match s.processes[i]? with
      | some p =>
          if p.Live ∧ d ∈ s.net ∧ d.dest = socket config p.port then
            some (s.processStep config i p (.datagram d.source d.bytes))
          else none
      | none => none
  | .clientTimeout x =>
      match s.client x with
      | some c =>
          if c.pc = .receiving then some (s.clientStep config x c none .timeout) else none
      | none => none
  | .toClient x d =>
      match s.client x with
      | some c =>
          if c.pc = .receiving ∧ d ∈ s.net ∧ d.dest = config.clientAddr x then
            some (s.clientStep config x c d.about (.datagram d.source d.bytes))
          else none
      | none => none

def start (tempPort : ℤ) : Site Name :=
  { tempPort, replies := [], processes := [], client := fun _ => none, net := [] }

end Site

/-- What each action does when it is enabled. -/
inductive Site.Stepped {Name : Type} [DecidableEq Name] (config : SiteConfig Name)
    (s : Site Name) : SiteAction Name → Site Name → Prop
  | request (r : Request) (rand : ℕ) (garbage : Buffer 6) :
      Stepped config s (.request r rand garbage) (s.handle config r rand garbage)
  | bind {i : ℕ} {p : Process} (ephemeral : ℕ) (hp : s.processes[i]? = some p)
      (hpc : p.server.pc = .waitFrq) (hunbound : ¬ p.bound) :
      Stepped config s (.bind i ephemeral)
        { s with processes := s.processes.set i (s.bindPort p ephemeral) }
  | startClient {x : Name} {reply : BootServerInfo} (hnone : s.client x = none) :
      Stepped config s (.startClient x reply) (s.launch config x reply)
  | processTimeout {i : ℕ} {p : Process} (hp : s.processes[i]? = some p) (hlive : p.Live) :
      Stepped config s (.processTimeout i) (s.processStep config i p .timeout)
  | toProcess {i : ℕ} {p : Process} {d : Datagram} (hp : s.processes[i]? = some p)
      (hlive : p.Live) (hd : d ∈ s.net) (hdest : d.dest = Site.socket config p.port) :
      Stepped config s (.toProcess i d)
        (s.processStep config i p (.datagram d.source d.bytes))
  | clientTimeout {x : Name} {c : Client} (hc : s.client x = some c)
      (hpc : c.pc = .receiving) :
      Stepped config s (.clientTimeout x) (s.clientStep config x c none .timeout)
  | toClient {x : Name} {c : Client} {d : Datagram} (hc : s.client x = some c)
      (hpc : c.pc = .receiving) (hd : d ∈ s.net) (hdest : d.dest = config.clientAddr x) :
      Stepped config s (.toClient x d)
        (s.clientStep config x c d.about (.datagram d.source d.bytes))

theorem Site.stepped_of_step {Name : Type} [DecidableEq Name] {config : SiteConfig Name}
    {s s' : Site Name} {a : SiteAction Name} (h : s.step config a = some s') :
    s.Stepped config a s' := by
  cases a with
  | request r rand garbage =>
      obtain rfl := Option.some.inj h
      exact .request r rand garbage
  | bind i ephemeral =>
      simp only [Site.step] at h
      cases hp : s.processes[i]? with
      | none => simp [hp] at h
      | some p =>
          rw [hp] at h
          obtain ⟨⟨hpc, hunbound, -⟩, rfl⟩ := Option.ite_some_none_eq_some.mp h
          exact .bind ephemeral hp hpc hunbound
  | startClient x reply =>
      obtain ⟨⟨hnone, -⟩, rfl⟩ := Option.ite_some_none_eq_some.mp h
      exact .startClient hnone
  | processTimeout i =>
      simp only [Site.step] at h
      cases hp : s.processes[i]? with
      | none => simp [hp] at h
      | some p =>
          rw [hp] at h
          obtain ⟨hlive, rfl⟩ := Option.ite_some_none_eq_some.mp h
          exact .processTimeout hp hlive
  | toProcess i d =>
      simp only [Site.step] at h
      cases hp : s.processes[i]? with
      | none => simp [hp] at h
      | some p =>
          rw [hp] at h
          obtain ⟨⟨hlive, hd, hdest⟩, rfl⟩ := Option.ite_some_none_eq_some.mp h
          exact .toProcess hp hlive hd hdest
  | clientTimeout x =>
      simp only [Site.step] at h
      cases hc : s.client x with
      | none => simp [hc] at h
      | some c =>
          rw [hc] at h
          obtain ⟨hpc, rfl⟩ := Option.ite_some_none_eq_some.mp h
          exact .clientTimeout hc hpc
  | toClient x d =>
      simp only [Site.step] at h
      cases hc : s.client x with
      | none => simp [hc] at h
      | some c =>
          rw [hc] at h
          obtain ⟨⟨hpc, hd, hdest⟩, rfl⟩ := Option.ite_some_none_eq_some.mp h
          exact .toClient hc hpc hd hdest

/-- The runs of the server, its processes and the clients. -/
def siteSystem {Name : Type} [DecidableEq Name] (config : SiteConfig Name) :
    TransitionSystem (Site Name) (SiteAction Name) where
  initial s := ∃ tempPort, s = Site.start tempPort
  step := Site.step config

end NetworkHomework.Ftp
