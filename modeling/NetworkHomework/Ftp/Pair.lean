import NetworkHomework.Foundation.Transition
import NetworkHomework.Ftp.InFlight

/-!
# One server process, one client, and the network between them

The network is the list of every datagram sent so far.  A step delivers any of them,
any number of times and in any order, or never, so that loss, duplication, delay and
reordering are all runs of the same system; and it may deliver arbitrary bytes in the
place of a datagram, as long as the checksum of the receiver fails on them.  Timeouts
fire at any moment.

A datagram carries as history the chunk it is about: a DATA packet the chunk in it, an
acknowledgement the chunk of the packet it answers.  A request or an ERROR is about no
chunk.  The history serves one purpose, to say that the network holds nothing back for
longer than the block numbers can tell apart: `Fresh`.
-/

namespace NetworkHomework.Ftp

/-- A datagram on the network; `about` is history. -/
structure Datagram where
  source : Addr
  dest : Addr
  bytes : List UInt8
  about : Option ℕ
  deriving DecidableEq

/-- The two parties and their addresses. -/
structure PairConfig where
  server : ServerConfig
  client : ClientConfig
  serverAddr : Addr
  clientAddr : Addr
  distinct : serverAddr ≠ clientAddr

structure Pair where
  server : Server
  client : Client
  net : List Datagram
  deriving DecidableEq

inductive PairAction
  | serverTimeout
  | clientTimeout
  | toServer (d : Datagram)
  | toClient (d : Datagram)
  | damagedToServer (bytes : List UInt8)
  | damagedToClient (bytes : List UInt8)
  deriving DecidableEq

/-- The process is blocked in a `recvfrom`. -/
def Server.Waiting (s : Server) : Prop := s.pc = .waitFrq ∨ s.pc = .waitAck

instance (s : Server) : Decidable s.Waiting := inferInstanceAs (Decidable (_ ∨ _))

/-- The checksum of the process, over the buffer it receives into, fails on `bytes`. -/
def Server.Detects (config : ServerConfig) (s : Server) (bytes : List UInt8) : Prop :=
  match s.pc with
  | .waitFrq =>
      inCksum config.order ((Buffer.zero config.filename.frqSize).recvfrom bytes).bytes ≠ 0
  | .waitAck => inCksum config.order (s.ackPacket.recvfrom bytes).bytes ≠ 0
  | .returned => False
  | .exited => False

instance (config : ServerConfig) (s : Server) (bytes : List UInt8) :
    Decidable (s.Detects config bytes) :=
  match h : s.pc with
  | .waitFrq => decidable_of_iff (inCksum config.order
      ((Buffer.zero config.filename.frqSize).recvfrom bytes).bytes ≠ 0)
    (by simp [Server.Detects, h])
  | .waitAck => decidable_of_iff (inCksum config.order (s.ackPacket.recvfrom bytes).bytes ≠ 0)
      (by simp [Server.Detects, h])
  | .returned => .isFalse (by simp [Server.Detects, h])
  | .exited => .isFalse (by simp [Server.Detects, h])

/-- The checksum of the client, over its zeroed buffer, fails on `bytes`. -/
def Client.Detects (config : ClientConfig) (bytes : List UInt8) : Prop :=
  inCksum config.order ((Buffer.zero Client.maxFilePacketSize).recvfrom bytes).bytes ≠ 0

instance (config : ClientConfig) (bytes : List UInt8) : Decidable (Client.Detects config bytes) :=
  inferInstanceAs (Decidable (_ ≠ _))

namespace Pair

variable (config : PairConfig)

/-- The server process runs on with the result `r` of its `recvfrom`. -/
def serverStep (s : Pair) (r : Recv) : Pair :=
  let (server, out) := startMyftpServer config.server s.server r
  { s with
    server
    net := s.net ++ out.map fun packet =>
      ⟨config.serverAddr, packet.dest, packet.bytes, some server.chunk⟩ }

/-- The client runs on with the result `r` of its `recvfrom`, a datagram about `about`. -/
def clientStep (s : Pair) (about : Option ℕ) (r : Recv) : Pair :=
  let (client, out) := startMyftpClient config.client s.client r
  { s with
    client
    net := s.net ++ out.map fun packet =>
      ⟨config.clientAddr, packet.dest, packet.bytes,
        aboutOfAnswer about packet.bytes⟩ }

def step (s : Pair) : PairAction → Option Pair
  | .serverTimeout => if s.server.Waiting then some (s.serverStep config .timeout) else none
  | .clientTimeout =>
      if s.client.pc = .receiving then some (s.clientStep config none .timeout) else none
  | .toServer d =>
      if s.server.Waiting ∧ d ∈ s.net ∧ d.dest = config.serverAddr then
        some (s.serverStep config (.datagram d.source d.bytes))
      else none
  | .toClient d =>
      if s.client.pc = .receiving ∧ d ∈ s.net ∧ d.dest = config.clientAddr then
        some (s.clientStep config d.about (.datagram d.source d.bytes))
      else none
  | .damagedToServer bytes =>
      if s.server.Waiting ∧ s.server.Detects config.server bytes then
        some (s.serverStep config (.datagram config.clientAddr bytes))
      else none
  | .damagedToClient bytes =>
      if s.client.pc = .receiving ∧ Client.Detects config.client bytes then
        some (s.clientStep config none (.datagram config.serverAddr bytes))
      else none

/-- The process waits for a request, with whatever `listenClient` and `malloc` left in its
variables, and the client has just sent one. -/
def start (clientaddr : Addr) (garbage : Buffer 6) : Pair where
  server := Server.start clientaddr garbage
  client := Client.start config.serverAddr
  net := [⟨config.clientAddr, config.serverAddr,
    frqPacket config.client.order config.client.filename, none⟩]

/-- The server has not moved 64000 or more chunks past the chunk a delivered datagram is about. -/
def Fresh (s : Pair) : PairAction → Prop
  | .toServer d => ∀ j ∈ d.about, s.server.chunk < j + 64000
  | .toClient d => ∀ j ∈ d.about, s.server.chunk < j + 64000
  | _ => True

instance (s : Pair) : (a : PairAction) → Decidable (s.Fresh a)
  | .toServer d => inferInstanceAs (Decidable (∀ j ∈ d.about, s.server.chunk < j + 64000))
  | .toClient d => inferInstanceAs (Decidable (∀ j ∈ d.about, s.server.chunk < j + 64000))
  | .serverTimeout | .clientTimeout | .damagedToServer _ | .damagedToClient _ =>
      inferInstanceAs (Decidable True)

end Pair

/-- The runs of a server process and a client. -/
def pairSystem (config : PairConfig) : TransitionSystem Pair PairAction where
  initial s := ∃ clientaddr garbage, s = Pair.start config clientaddr garbage
  step := Pair.step config

end NetworkHomework.Ftp
