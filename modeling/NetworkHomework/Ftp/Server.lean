import NetworkHomework.Ftp.Packet

/-!
# `startMyftpServer`

The transfer process, cut at its two `recvfrom` calls.  Between two calls the
process only computes and sends, so one step takes the result of a `recvfrom` and
gives the state at the next one together with the packets sent in between.

`waitFrq` is the body of the loop under "Server Get FRQ begin", `sendChunk` the top
of the outer transmission loop (read a chunk, build the packet, send it), and
`waitAck` the body of the inner loop.  `clientaddr` is an output argument of every
`recvfrom`: each received datagram sets it, whatever it contains.

`PreFilePacket` is written and never read, and is left out.
-/

namespace NetworkHomework.Ftp

/-- What a `recvfrom` with `SO_RCVTIMEO` gives: `-1`, or a datagram and its source. -/
inductive Recv
  | timeout
  | datagram (source : Addr) (bytes : List UInt8)
  deriving DecidableEq

/-- The address argument of the `recvfrom` afterwards, `old` being its value before. -/
def Recv.sourceOr (old : Addr) : Recv → Addr
  | .timeout => old
  | .datagram source _ => source

/-- A packet handed to `sendto`. -/
structure Packet where
  dest : Addr
  bytes : List UInt8
  deriving DecidableEq

/-- Where a transfer process stands. -/
inductive ServerPc
  /-- in the `recvfrom` of the request loop -/
  | waitFrq
  /-- in the `recvfrom` of the inner transmission loop -/
  | waitAck
  /-- left the transmission loop with `GetBlock0 == 1` -/
  | returned
  /-- left by `exit(1)` -/
  | exited
  deriving DecidableEq, Repr

/-- What a transfer process is started with: the byte order of its host, the name it serves and
the contents of that file. -/
structure ServerConfig where
  order : ByteOrder
  filename : FileName
  file : List UInt8

/-- The variables of `startMyftpServer`.  `chunk` is a history variable: the number of chunks the
process has moved past.  No branch reads it. -/
structure Server where
  pc : ServerPc
  timeoutNum : ℕ
  clientaddr : Addr
  block : ℕ
  chunk : ℕ
  /-- the bytes of `fin` not read yet -/
  fin : List UInt8
  filePacket : List UInt8
  ackPacket : Buffer 6
  deriving DecidableEq

namespace Server

/-- The process on entry to the request loop; `garbage` is what `malloc` returns for `AckPacket`. -/
def start (clientaddr : Addr) (garbage : Buffer 6) : Server :=
  { pc := .waitFrq, timeoutNum := 0, clientaddr, block := 1, chunk := 0, fin := [],
    filePacket := [], ackPacket := garbage }

/-- The packet for the bytes `fread` returned.  At the end of the file it is an `EndFilePacket`
of exactly `ReadSize + 6` bytes, before that the zeroed `FilePacket` of full size. -/
def newFilePacket (order : ByteOrder) (block : ℕ) (readBytes : List UInt8) : List UInt8 :=
  if readBytes.length < mfMaxData then
    fillHeader order Opcode.data block (List.replicate 6 0 ++ readBytes)
  else
    fillHeader order Opcode.data block
      (List.replicate 6 0 ++ readBytes ++ List.replicate (mfMaxData - readBytes.length) 0)

/-- The top of the outer loop: read a chunk, build its packet, send it, enter the inner loop. -/
def sendChunk (config : ServerConfig) (s : Server) : Server × List Packet :=
  let filePacket := newFilePacket config.order s.block (s.fin.take mfMaxData)
  ({ s with pc := .waitAck, timeoutNum := 0, fin := s.fin.drop mfMaxData, filePacket },
    [⟨s.clientaddr, filePacket⟩])

/-- The retransmissions of the inner loop: sign `FilePacket` again and send it. -/
def resend (config : ServerConfig) (s : Server) : Server × List Packet :=
  let filePacket := fillHeader config.order Opcode.data s.block s.filePacket
  ({ s with filePacket }, [⟨s.clientaddr, filePacket⟩])

/-- One round of the request loop.  Any packet with a good checksum is taken for the request. -/
def waitFrq (config : ServerConfig) (s : Server) : Recv → Server × List Packet
  | .timeout =>
      if s.timeoutNum > 10 then ({ s with pc := .exited }, [])
      else ({ s with timeoutNum := s.timeoutNum + 1 }, [])
  | .datagram source bytes =>
      let s := { s with clientaddr := source }
      let frqPacket := (Buffer.zero config.filename.frqSize).recvfrom bytes
      if bytes.length = 0 then ({ s with pc := .exited }, [])
      else if inCksum config.order frqPacket.bytes ≠ 0 then (s, [])
      else sendChunk config { s with block := 1, chunk := 0, fin := config.file }

/-- The block after `block++`: 65000 is replaced by 2, the client's restart being 1. -/
def nextBlock (block : ℕ) : ℕ := if block + 1 = 65000 then 2 else block + 1

/-- One round of the inner loop.  `FRQ` and `ERROR` are handled before the checksum is looked at. -/
def waitAck (config : ServerConfig) (s : Server) : Recv → Server × List Packet
  | .timeout =>
      if s.timeoutNum > 10 then ({ s with pc := .exited }, [])
      else resend config { s with timeoutNum := s.timeoutNum + 1 }
  | .datagram source bytes =>
      let s := { s with clientaddr := source, timeoutNum := 0,
                        ackPacket := s.ackPacket.recvfrom bytes }
      let ackPacket := s.ackPacket.bytes
      if bytes.length = 0 then ({ s with pc := .exited }, [])
      else if mfOpcode ackPacket = Opcode.frq then (s, [])
      else if mfOpcode ackPacket = Opcode.error then
        if mfBlock ackPacket = s.block - 1 then resend config s else (s, [])
      else if inCksum config.order ackPacket ≠ 0 then resend config s
      else if mfOpcode ackPacket = Opcode.ack then
        if mfBlock ackPacket = 0 then ({ s with pc := .returned }, [])
        else if mfBlock ackPacket ≠ s.block then (s, [])
        else sendChunk config { s with block := nextBlock s.block, chunk := s.chunk + 1 }
      else (s, [])

end Server

/-- A step of `startMyftpServer` from one `recvfrom` to the next. -/
def startMyftpServer (config : ServerConfig) (s : Server) (r : Recv) : Server × List Packet :=
  match s.pc with
  | .waitFrq => s.waitFrq config r
  | .waitAck => s.waitAck config r
  | .returned => (s, [])
  | .exited => (s, [])

end NetworkHomework.Ftp
