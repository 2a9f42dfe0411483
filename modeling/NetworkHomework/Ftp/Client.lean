import NetworkHomework.Ftp.Server

/-!
# `startMyftpClient`

The downloading client, cut at its `recvfrom`.  `FilePacket` is zeroed before every
receive and checked over its full size, so a short datagram is read padded with
zeros.  `servaddr` is an output argument of the `recvfrom`, so every answer goes to
whoever spoke last.
-/

namespace NetworkHomework.Ftp

/-- Where a client stands. -/
inductive ClientPc
  /-- in the `recvfrom` of the transmission loop -/
  | receiving
  /-- reported "Transmission finish" -/
  | finished
  /-- left because the server shut down or too many receives timed out -/
  | stopped
  /-- called `fwrite` with a negative length, from where the behaviour is undefined -/
  | overrun
  deriving DecidableEq, Repr

/-- What a client is started with: the byte order of its host and the file it asks for. -/
structure ClientConfig where
  order : ByteOrder
  filename : FileName

/-- The variables of `startMyftpClient`; `written` is the contents of `client_<filename>`. -/
structure Client where
  pc : ClientPc
  servaddr : Addr
  block : ℕ
  timeoutFirstNum : ℕ
  timeoutNum : ℕ
  written : List UInt8
  deriving DecidableEq

namespace Client

/-- The client on entry to the transmission loop. -/
def start (servaddr : Addr) : Client :=
  { pc := .receiving, servaddr, block := 0, timeoutFirstNum := 0, timeoutNum := 0, written := [] }

/-- `MaxFilePacketSize` -/
def maxFilePacketSize : ℕ := 6 + mfMaxData

/-- The 6-byte `AckPacket` with the given opcode and block, signed. -/
def answer (config : ClientConfig) (opcode block : ℕ) : List UInt8 :=
  fillHeader config.order opcode block (List.replicate 6 0)

/-- The branch of a receive that timed out: the request again while no block was accepted, after
that an ERROR with the current block. -/
def timedOut (config : ClientConfig) (c : Client) : Client × List Packet :=
  if c.block = 0 then
    if c.timeoutFirstNum > 10 then ({ c with pc := .stopped }, [])
    else ({ c with timeoutFirstNum := c.timeoutFirstNum + 1 },
      [⟨c.servaddr, frqPacket config.order config.filename⟩])
  else
    if c.timeoutNum > 10 then ({ c with pc := .stopped }, [])
    else ({ c with timeoutNum := c.timeoutNum + 1 },
      [⟨c.servaddr, answer config Opcode.error c.block⟩])

/-- The branch of the expected DATA packet: write `RecBytes - 6` bytes, acknowledge; a short
packet ends the transfer with ACK 0, and block 64999 is replaced by 1 after its ACK is sent. -/
def accept (config : ClientConfig) (c : Client) (recBytes : ℕ) (filePacket : List UInt8) :
    Client × List Packet :=
  if recBytes < 6 then ({ c with pc := .overrun }, [])
  else
    let writeBytes := recBytes - 6
    let c := { c with written := c.written ++ (mfData filePacket).take writeBytes }
    if writeBytes < mfMaxData then
      ({ c with pc := .finished, block := 0 }, [⟨c.servaddr, answer config Opcode.ack 0⟩])
    else
      let block := mfBlock filePacket
      ({ c with block := if block = 64999 then 1 else block },
        [⟨c.servaddr, answer config Opcode.ack block⟩])

/-- One round of the transmission loop. -/
def transmission (config : ClientConfig) (c : Client) : Recv → Client × List Packet
  | .timeout => timedOut config c
  | .datagram source bytes =>
      let c := { c with servaddr := source, timeoutFirstNum := 0, timeoutNum := 0 }
      let filePacket := ((Buffer.zero maxFilePacketSize).recvfrom bytes).bytes
      if bytes.length = 0 then ({ c with pc := .stopped }, [])
      else if inCksum config.order filePacket ≠ 0 then
        (c, [⟨c.servaddr, answer config Opcode.error c.block⟩])
      else if mfOpcode filePacket = Opcode.data ∧ mfBlock filePacket ≠ c.block + 1 then
        (c, [⟨c.servaddr, answer config Opcode.ack (mfBlock filePacket)⟩])
      else if mfOpcode filePacket = Opcode.data ∧ mfBlock filePacket = c.block + 1 then
        accept config c (min bytes.length maxFilePacketSize) filePacket
      else (c, [])

end Client

/-- A step of `startMyftpClient` from one `recvfrom` to the next. -/
def startMyftpClient (config : ClientConfig) (c : Client) (r : Recv) : Client × List Packet :=
  match c.pc with
  | .receiving => c.transmission config r
  | .finished => (c, [])
  | .stopped => (c, [])
  | .overrun => (c, [])

end NetworkHomework.Ftp
