import Locus.Buffer
import Locus.RawVector

set_option autoImplicit false

/- client/ClientBuffer and the two calls of client/SimpleClient that use it. -/
namespace Locus

/-- `Message::Type`, in the order of the source. -/
inductive MessageType where
  | Empty
  | Error
  | Close
  | AddClient
  | EraseClient
  | AddEPollEvent
  | ChangeEPollEvent
  | EraseFileDescriptor
  | PacketSend
  | PacketReceive
  | Update
  | EraseObserver
  deriving DecidableEq, Repr

/-- What one `::recv` did. Out of outcomes, a socket has nothing more to read. -/
inductive RecvOutcome where
  | data (bytes : Bytes)
  | again
  | error
  | endOfFile
  deriving DecidableEq, Repr

/-- What one `::send` did. Out of outcomes, a socket takes nothing more. -/
inductive SendOutcome where
  | count (count : Nat)
  | again
  | error
  deriving DecidableEq, Repr

structure ClientBuffer where
  close : Bool := false
  bufferIn : Buffer := {}
  bufferOut : Buffer := {}
  /-- The messages that wait in `clientBlockingQueue`, which `SimpleClient` sets. -/
  clientQueue : List MessageType := []
  /-- Every byte `::send` has taken, oldest first. -/
  written : Bytes := []

namespace ClientBuffer

def notify (type : MessageType) (c : ClientBuffer) : ClientBuffer :=
  { c with clientQueue := c.clientQueue ++ [type] }

def onBufferIn (change : Buffer → Buffer) (c : ClientBuffer) : ClientBuffer :=
  { c with bufferIn := change c.bufferIn }

def onBufferOut (change : Buffer → Buffer) (c : ClientBuffer) : ClientBuffer :=
  { c with bufferOut := change c.bufferOut }

/-- The loop of `recv(n)`: each turn shrinks the vector to what is missing and
reads behind what it has. It leaves the vector, what is missing and `close`. -/
def recvLoop (n : Nat) : List RecvOutcome → (remaining : Nat) → RawVector →
    RawVector × Nat × Bool
  | _, 0, buffer => (buffer, 0, false)
  | [], remaining + 1, buffer => (buffer.resize (remaining + 1), remaining + 1, false)
  | .again :: _, remaining + 1, buffer => (buffer.resize (remaining + 1), remaining + 1, false)
  | .error :: _, remaining + 1, buffer => (buffer.resize (remaining + 1), remaining + 1, true)
  | .endOfFile :: _, remaining + 1, buffer => (buffer.resize (remaining + 1), remaining + 1, true)
  | .data bytes :: outcomes, remaining + 1, buffer =>
      recvLoop n outcomes (remaining + 1 - bytes.length)
        ((buffer.resize (remaining + 1)).write (n - (remaining + 1)) bytes)

/-- `recv(n)` on an open connection: the bytes it returns, and `close`. -/
def recvN (n : Nat) (outcomes : List RecvOutcome) : Bytes × Bool :=
  let (buffer, remaining, close) := recvLoop n outcomes n (RawVector.zeros n)
  (if close then [] else (buffer.resize (n - remaining)).contents, close)

/-- `recv()`, first part: the size of the next packet. -/
def recvHeader (outcomes : List RecvOutcome) (c : ClientBuffer) : ClientBuffer :=
  if c.close = false ∧ c.bufferIn.stage = .Empty then
    let (buffer, close) := recvN 2 outcomes
    let c := { c with close }
    if buffer = [] then c
    else
      let size := LittleEndian.decode (fromBytes buffer (toBytes 2 0))
      c.onBufferIn fun bufferIn => (bufferIn.setMaxSize size).setStage .Receiving
  else c

/-- `recv()`, second part: the bytes of the packet. -/
def recvBody (outcomes : List RecvOutcome) (c : ClientBuffer) : ClientBuffer :=
  if c.close = false ∧ c.bufferIn.stage = .Receiving then
    let (buffer, close) := recvN c.bufferIn.remainingSize outcomes
    let c := { c with close }
    if buffer = [] then c
    else
      let c := c.onBufferIn (·.pushBack buffer)
      if c.bufferIn.remainingSize = 0 then
        (c.onBufferIn (·.setStage .Full)).notify .PacketReceive
      else c
  else c

/-- `recv()`, last part: tell the client that the connection is closed. -/
def recvClose (c : ClientBuffer) : ClientBuffer := if c.close then c.notify .Close else c

/-- `recv()`, with what `::recv` does in its two calls of `recv(n)`. -/
def recv (header body : List RecvOutcome) (c : ClientBuffer) : ClientBuffer :=
  recvClose (recvBody body (recvHeader header c))

/-- `SimpleClient::recvData`. -/
def recvData (c : ClientBuffer) : Except Fault (Bytes × ClientBuffer) :=
  match c.bufferIn.popN c.bufferIn.size with
  | .error fault => .error fault
  | .ok (bytes, bufferIn) => .ok (bytes, { c with bufferIn := bufferIn.setStage .Empty })

/-- `send(buffer)`: what is left of the vector, and the outcomes not used up. -/
def sendVector (outcomes : List SendOutcome) (buffer : Bytes) (c : ClientBuffer) :
    Bytes × List SendOutcome × ClientBuffer :=
  if c.close = false ∧ buffer ≠ [] then
    match outcomes with
    | [] => (buffer, [], c)
    | .again :: rest => (buffer, rest, c)
    | .error :: rest => (buffer, rest, { c with close := true })
    | .count count :: rest =>
        (buffer.drop count, rest, { c with written := c.written ++ buffer.take count })
  else (buffer, outcomes, c)

/-- The loop of `send()`. Every turn that does not end it takes one vector out of
the list, so `turns` more than the list has vectors are never used up. -/
def sendLoop : (turns : Nat) → List SendOutcome → ClientBuffer → Except Fault ClientBuffer
  | 0, _, _ => .error .nonTermination
  | turns + 1, outcomes, c =>
      if c.close = false ∧ c.bufferOut.stage = .Sending then
        match c.bufferOut.pop with
        | .error fault => .error fault
        | .ok (front, bufferOut) =>
            let (buffer, outcomes, c) := sendVector outcomes front { c with bufferOut }
            if buffer ≠ [] then .ok (c.onBufferOut (·.pushFront buffer))
            else if c.bufferOut.empty then
              .ok ((c.onBufferOut (·.setStage .Empty)).notify .PacketSend)
            else sendLoop turns outcomes c
      else .ok c

/-- `send()`, first part: put the size before the bytes of a new packet. -/
def sendHeader (c : ClientBuffer) : ClientBuffer :=
  if c.close = false ∧ c.bufferOut.stage = .Full then
    let size := c.bufferOut.size % 2 ^ 16
    let c := c.onBufferOut (·.pushFront (toBytes 2 size))
    c.onBufferOut fun bufferOut => (bufferOut.setMaxSize bufferOut.size).setStage .Sending
  else c

/-- `send()`, with what `::send` does in each turn of its loop. -/
def send (outcomes : List SendOutcome) (c : ClientBuffer) : Except Fault ClientBuffer :=
  let c := sendHeader c
  sendLoop (c.bufferOut.buffer.length + 1) outcomes c

/-- `SimpleClient::sendData`. The Sender may call `send()` between its steps. -/
def sendData (bytes : Bytes) (outcomes : List SendOutcome) (c : ClientBuffer) :
    Except Fault ClientBuffer :=
  ((c.onBufferOut (·.pushBack bytes)).onBufferOut (·.setStage .Full)).send outcomes

/-- A packet on the wire: its size in two bytes, and its bytes. -/
def frame (packet : Bytes) : Bytes := toBytes 2 packet.length ++ packet

/-- Packets that a size in two bytes can announce. -/
def Sendable (packets : List Bytes) : Prop :=
  ∀ packet ∈ packets, packet ≠ [] ∧ packet.length ≤ 65535

end ClientBuffer

end Locus
