import NetworkHomework.Chat.Broadcast
import NetworkHomework.Chat.Session

/-!
# The threads of the chat server

The whole of the chat server: the main thread, which accepts connections, one thread of
`recv_from_client` for each, and the dispatcher, over the two lists, the two mutexes
and the table of open descriptors.  A step is a section under a mutex or a statement
outside of one; the steps of all threads interleave in any order.

A thread that runs into a fault, a text that does not fit its buffer, or a failed send
has no next step: the process is gone, or nothing is known about it.  A send to a closed
descriptor fails.
-/

namespace NetworkHomework.Chat

open LinkedHeap CString

/-- Where a thread of `recv_from_client` stands, with the local variables it will still read. -/
inductive ThreadPc
  | welcome
  | recvName
  | testSize
  | readSize
  | writeRoster (size : ℕ)
  | sendRoster (text : List UInt8)
  | recvGroup
  | readFirst
  | loginNotice (temp : Option ℕ)
  | link
  | usage
  | recvLoop
  | queue (recvMessage : List UInt8)
  | exitFirst
  | exitSend (temp : Option ℕ)
  | exitTest (temp : ℕ)
  | exitAdvance (temp : ℕ)
  | close
  | unlink
  | returned
  deriving DecidableEq

/-- A thread of `recv_from_client`, for the member at `client`. -/
structure Thread where
  pc : ThreadPc
  client : ℕ
  deriving DecidableEq

-- `table` maps an open descriptor to its connection, and the connections are numbered as they are
-- accepted; `accepted` is `ClientDescriptor` before its thread is created; `round` counts what is
-- left of the dispatcher's loop while it holds `message_mutex`
structure ChatServer where
  server : Server
  table : ℕ → Option ℕ
  accepted : Option ℕ
  threads : List Thread
  round : Option ℕ

-- an address is what `malloc` returned, and `prev` and `next` what it left there; the fuel bounds
-- the loops of a step
inductive ChatAction
  | accept (fd : ℕ)
  | create (a : ℕ)
  | recv (t : ℕ) (r : Received)
  | queue (t : ℕ) (a : ℕ) (prev next : Option ℕ)
  | go (t : ℕ) (fuel : ℕ)
  | beginRound (fuel : ℕ)
  | deliver (fuel : ℕ)
  | endRound (fuel : ℕ)

namespace ChatServer

/-- A send to the member fails: its descriptor is closed. -/
def closed (s : ChatServer) (temp : Member) : Bool := (s.table temp.fd).isNone

def setPc (s : ChatServer) (t : ℕ) (th : Thread) (pc : ThreadPc) : ChatServer :=
  { s with threads := s.threads.set t { th with pc } }

def sendTo (s : ChatServer) (temp : Member) (thread : ℕ) (text : List UInt8) :
    Option ChatServer :=
  if shortMess ≤ text.length ∨ s.closed temp then none
  else some { s with server := { s.server with sent := s.server.sent ++ [⟨temp, thread, text⟩] } }

/-- A send of a session to its own client. -/
def sendOwn (s : ChatServer) (th : Thread) (text : List UInt8) : Option ChatServer :=
  (s.server.members.valueAt th.client).bind fun client => s.sendTo client client.thread text

/-! ## The main thread -/

def accept (s : ChatServer) (fd : ℕ) : Option ChatServer :=
  if s.table fd = none ∧ s.accepted = none then
    some { s with
      table := Function.update s.table fd (some s.threads.length)
      accepted := some fd }
  else none

/-- `malloc`, the fields of the new member, and `pthread_create`. -/
def create (s : ChatServer) (a : ℕ) : Option ChatServer :=
  s.accepted.bind fun fd =>
    if s.server.members.cell a = none then
      let temp : Member := ⟨fd, s.threads.length, [], [], s.threads.length⟩
      some { s with
        server := { s.server with members := s.server.members.malloc a ⟨temp, none, none⟩ }
        accepted := none
        threads := s.threads ++ [⟨.welcome, a⟩] }
    else none

/-! ## A thread of `recv_from_client` -/

/-- `strcpy` to a field of the member. -/
def writeClient (s : ChatServer) (th : Thread) (f : Member → Member) : Option ChatServer :=
  (s.server.members.write (some th.client) fun node =>
    { node with value := f node.value }).toOption.map fun members =>
      { s with server := { s.server with members } }

/-- A `recv` that returns, and what is done with the text before anything shared is read. -/
def recv (s : ChatServer) (t : ℕ) (th : Thread) (r : Received) : Option ChatServer :=
  match th.pc, r with
  | .recvName, .bytes piece =>
      (s.writeClient th fun client => { client with name := recvText piece }).map
        (setPc · t th .testSize)
  | .recvGroup, .bytes piece =>
      (s.writeClient th fun client => { client with group := recvText piece }).map
        (setPc · t th .readFirst)
  | .recvLoop, r =>
      match loopRound r with
      | none => some (s.setPc t th .exitFirst)
      | some text => some (s.setPc t th (.queue text))
  | _, _ => none

/-- The section under `message_mutex`. -/
def queue (s : ChatServer) (t : ℕ) (th : Thread) (a : ℕ) (prev next : Option ℕ) :
    Option ChatServer :=
  match th.pc with
  | .queue recvMessage =>
      if s.round = none ∧ s.server.messages.cell a = none then
        (s.server.members.valueAt th.client).bind fun client =>
          let m := newMessage client recvMessage
          (messageLinkToList (s.server.messages.malloc a ⟨m, prev, next⟩) a).toOption.map
            fun messages =>
              { s with server := { s.server with messages } }.setPc t th .recvLoop
      else none
  | _ => none

/-- The line of the roster for one member. -/
def rosterEntry (text : List UInt8) (temp : Member) : Except Fault (List UInt8) :=
  .ok (text ++ (temp.name ++ lit "[" ++ temp.group ++ lit "],"))

/-- Everything else a session does. -/
def go (s : ChatServer) (t : ℕ) (th : Thread) (fuel : ℕ) : Option ChatServer :=
  match th.pc with
  | .welcome => (s.sendOwn th welcomeText).map (setPc · t th .recvName)
  | .testSize =>
      (memberListSize s.server.members fuel).toOption.map fun size =>
        if size = 0 then s.setPc t th (.sendRoster (lit "Member[Group] \n" ++ lit "No Group"))
        else s.setPc t th .readSize
  | .readSize =>
      (memberListSize s.server.members fuel).toOption.map fun size =>
        s.setPc t th (.writeRoster size)
  | .writeRoster size =>
      (s.server.members.forLoop id rosterEntry size s.server.members.first
        (lit "Member[Group] \n")).toOption.map fun text => s.setPc t th (.sendRoster text)
  | .sendRoster text =>
      (s.sendOwn th (text ++ lit " Please Select Group:")).map (setPc · t th .recvGroup)
  | .readFirst => some (s.setPc t th (.loginNotice s.server.members.first))
  | .loginNotice temp =>
      (s.server.members.valueAt th.client).bind fun client =>
        let text := loginText client.name client.group
        if shortMess ≤ text.length then none
        else
          (Chat.loginNotice fuel s.closed client text temp s.server).toOption.map fun server =>
            { s with server }.setPc t th .link
  | .link =>
      (memberLinkToList s.server.members th.client).toOption.map fun members =>
        { s with server := { s.server with members } }.setPc t th .usage
  | .usage => (s.sendOwn th usageText).map (setPc · t th .recvLoop)
  | .exitFirst => some (s.setPc t th (.exitSend s.server.members.first))
  | .exitSend none => some (s.setPc t th .close)
  | .exitSend (some temp) =>
      (s.server.members.valueAt th.client).bind fun client =>
        (s.server.members.valueAt temp).bind fun member =>
          (s.sendTo member client.thread (exitText client.name)).map (setPc · t th (.exitTest temp))
  | .exitTest temp =>
      (s.server.members.cell temp).map fun node =>
        s.setPc t th (if node.next = none then .close else .exitAdvance temp)
  | .exitAdvance temp =>
      (s.server.members.cell temp).map fun node => s.setPc t th (.exitSend node.next)
  | .close =>
      (s.server.members.valueAt th.client).map fun client =>
        { s with table := Function.update s.table client.fd none }.setPc t th .unlink
  | .unlink =>
      (memberDislinkToList s.server.members th.client).toOption.bind fun members =>
        (members.free th.client).toOption.map fun members =>
          { s with server := { s.server with members } }.setPc t th .returned
  | .recvName | .recvGroup | .recvLoop | .queue _ | .returned => none

/-! ## The dispatcher -/

/-- `message_mutex` is taken and the messages are counted, which no other thread can change. -/
def beginRound (s : ChatServer) (fuel : ℕ) : Option ChatServer :=
  if s.round = none then
    (messageListSize s.server.messages fuel).toOption.map fun size =>
      { s with server := { s.server with messageMutex := true }, round := some size }
  else none

/-- One turn of the dispatcher's loop, with its section under `member_mutex`. -/
def deliver (s : ChatServer) (fuel : ℕ) : Option ChatServer :=
  match s.round with
  | some (n + 1) =>
      (s.server.messages.read s.server.messages.first).toOption.bind fun node =>
        (sendMessage fuel s.closed node.value s.server).toOption.map fun server =>
          { s with server, round := some n }
  | _ => none

/-- The messages are freed, and `message_mutex` is released. -/
def endRound (s : ChatServer) (fuel : ℕ) : Option ChatServer :=
  if s.round = some 0 then
    (drainLoop fuel s.server.messages []).toOption.map fun drained =>
      { s with
        server := { s.server with messages := drained.1, messageMutex := false }
        round := none }
  else none

def step (s : ChatServer) : ChatAction → Option ChatServer
  | .accept fd => s.accept fd
  | .create a => s.create a
  | .recv t r => s.threads[t]?.bind fun th => s.recv t th r
  | .queue t a prev next => s.threads[t]?.bind fun th => s.queue t th a prev next
  | .go t fuel => s.threads[t]?.bind fun th => s.go t th fuel
  | .beginRound fuel => s.beginRound fuel
  | .deliver fuel => s.deliver fuel
  | .endRound fuel => s.endRound fuel

/-- Nobody is connected yet. -/
def start : ChatServer where
  server := ⟨⟨fun _ => none, none⟩, ⟨fun _ => none, none⟩, [], false, false⟩
  table _ := none
  accepted := none
  threads := []
  round := none

end ChatServer

/-- The runs of the whole server. -/
def chatServerSystem : TransitionSystem ChatServer ChatAction where
  initial s := s = ChatServer.start
  step := ChatServer.step

end NetworkHomework.Chat
