import Locus.BlockingQueue
import Locus.ClientBuffer
import Locus.KeyMap
import Locus.Transition

set_option autoImplicit false

/- server/ClientManager with the descriptors that server/Acceptor accepts and the messages
of `SimpleClient::closeConnection`. Descriptors are used again after they are closed. -/
namespace Locus

open Transition Program

structure Message where
  type : MessageType := .Empty
  fileDescriptor : Option Int := none
  /-- The session that pushed the message. The program does not keep it. -/
  sender : Option Nat := none
  deriving DecidableEq, Repr

/-- What an open descriptor is used for. -/
inductive Usage where
  | connection
  | other
  deriving DecidableEq, Repr

structure ClientManager where
  /-- The sessions, by their numbers. -/
  clientsMap : KeyMap Int Nat := KeyMap.empty
  blockingQueue : BlockingQueue Message := {}
  /-- The message that `recv()` has popped and has not dealt with. -/
  msg : Option Message := none
  /-- The descriptor that `Acceptor::recv` holds. -/
  inFd : Option Int := none
  /-- The descriptors that the kernel has opened. -/
  descriptors : KeyMap Int Usage := KeyMap.empty
  /-- How many sessions were made. -/
  created : Nat := 0

namespace ClientManager

/-- The destructor of a `ClientBuffer`. -/
def closeDescriptor (fileDescriptor : Int) (m : ClientManager) : ClientManager :=
  { m with descriptors := m.descriptors.erase fileDescriptor }

/-- A session that is not made, because its constructor throws, or that finds its place in the
map taken, is destroyed with its `ClientBuffer`. -/
def addClient (fileDescriptor : Int) (made : Bool) (m : ClientManager) : ClientManager :=
  if made then
    match m.clientsMap fileDescriptor with
    | none => { m with
        clientsMap := m.clientsMap.insert fileDescriptor m.created
        created := m.created + 1 }
    | some _ => { m.closeDescriptor fileDescriptor with created := m.created + 1 }
  else m.closeDescriptor fileDescriptor

def eraseClient (fileDescriptor : Int) (m : ClientManager) : ClientManager :=
  match m.clientsMap fileDescriptor with
  | none => m
  | some _ => { m.closeDescriptor fileDescriptor with
      clientsMap := m.clientsMap.erase fileDescriptor }

/-- The `switch` of `recv()`. -/
def serve (msg : Message) (made : Bool) (m : ClientManager) : ClientManager :=
  match msg.type, msg.fileDescriptor with
  | .AddClient, some fileDescriptor => m.addClient fileDescriptor made
  | .EraseClient, some fileDescriptor => m.eraseClient fileDescriptor
  | _, _ => m

inductive Event where
  | accept (fileDescriptor : Int)
  /-- `setNonBlock` fails. -/
  | refuse
  /-- The Acceptor pushes `AddClient`. The write to the pipe may fail. -/
  | announce (written : Bool)
  | closeConnection (session address : Nat) (written : Bool)
  /-- `recv()` pops a message. -/
  | pop
  /-- `recv()` goes on with the message. -/
  | serve (made : Bool)
  /-- A message of another type. -/
  | post (type : MessageType) (written : Bool)
  | openOther (fileDescriptor : Int)
  | closeOther (fileDescriptor : Int)
  deriving DecidableEq, Repr

/-- The Acceptor runs in the Receiver thread, the other calls in the Server thread. -/
inductive Step (m : ClientManager) : Event → ClientManager → Prop
  | accept {fileDescriptor : Int} (idle : m.inFd = none)
      (closed : m.descriptors fileDescriptor = none) :
      Step m (.accept fileDescriptor)
        { m with
          inFd := some fileDescriptor
          descriptors := m.descriptors.insert fileDescriptor .connection }
  | refuse {fileDescriptor : Int} (held : m.inFd = some fileDescriptor) :
      Step m .refuse { m.closeDescriptor fileDescriptor with inFd := none }
  | announce {fileDescriptor : Int} {written : Bool} (held : m.inFd = some fileDescriptor)
      (room : m.blockingQueue.HasRoom) :
      Step m (.announce written)
        { m with
          inFd := none
          blockingQueue := finalState (BlockingQueue.push written
            { type := .AddClient, fileDescriptor := some fileDescriptor } m.blockingQueue) }
  | closeConnection {fileDescriptor : Int} {session address : Nat} {written : Bool}
      (alive : m.clientsMap fileDescriptor = some session)
      (fresh : ∀ node ∈ m.blockingQueue.priority, node.1 ≠ address) :
      Step m (.closeConnection session address written)
        { m with
          blockingQueue := finalState (BlockingQueue.priorityPush written address
            { type := .EraseClient
              fileDescriptor := some fileDescriptor
              sender := some session } m.blockingQueue) }
  | pop {msg : Message} {queue : BlockingQueue Message} (idle : m.msg = none)
      (popped : BlockingQueue.popFor m.blockingQueue = .ok (some msg) queue) :
      Step m .pop { m with msg := some msg, blockingQueue := queue }
  | popNothing {queue : BlockingQueue Message} (idle : m.msg = none)
      (empty : BlockingQueue.popFor m.blockingQueue = .ok none queue) :
      Step m .pop { m with blockingQueue := queue }
  /-- The pipe has no byte, and the message is lost. -/
  | popFails {what : String} {queue : BlockingQueue Message} (idle : m.msg = none)
      (failed : BlockingQueue.popFor m.blockingQueue = .error (.exception what) queue) :
      Step m .pop { m with blockingQueue := queue }
  | serve {msg : Message} {made : Bool} (held : m.msg = some msg) :
      Step m (.serve made) { m.serve msg made with msg := none }
  | post {type : MessageType} {written : Bool} (plain : type ≠ .AddClient ∧ type ≠ .EraseClient)
      (room : m.blockingQueue.HasRoom) :
      Step m (.post type written)
        { m with
          blockingQueue := finalState (BlockingQueue.push written { type } m.blockingQueue) }
  | openOther {fileDescriptor : Int} (closed : m.descriptors fileDescriptor = none) :
      Step m (.openOther fileDescriptor)
        { m with descriptors := m.descriptors.insert fileDescriptor .other }
  | closeOther {fileDescriptor : Int} (opened : m.descriptors fileDescriptor = some .other) :
      Step m (.closeOther fileDescriptor) (m.closeDescriptor fileDescriptor)

/-- A session leaves the map only for a message that it pushed, and `addClient` finds its
descriptor absent. -/
def ErasesOwn (before : ClientManager) (event : Event) (after : ClientManager) : Prop :=
  (∀ fileDescriptor session, before.clientsMap fileDescriptor = some session →
    after.clientsMap fileDescriptor ≠ some session →
    ∃ msg made, event = .serve made ∧ before.msg = some msg ∧ msg.type = .EraseClient ∧
      msg.sender = some session) ∧
  ∀ made msg fileDescriptor, event = .serve made → before.msg = some msg →
    msg.type = .AddClient → msg.fileDescriptor = some fileDescriptor →
    before.clientsMap fileDescriptor = none

/-- The descriptor that a message asks a session for. -/
def wanted (msg : Message) : Option Int :=
  if msg.type = .AddClient then msg.fileDescriptor else none

/-- The connections on their way into the map. -/
def expected (m : ClientManager) : List Int :=
  m.inFd.toList ++ (m.msg.toList ++ m.blockingQueue.queue).filterMap wanted

/-- The message of a session that has not been followed by another one at its descriptor. -/
def Owned (m : ClientManager) (msg : Message) : Prop :=
  msg.type = .EraseClient ∧ ∃ fileDescriptor session,
    msg.fileDescriptor = some fileDescriptor ∧ msg.sender = some session ∧
    ∀ other, m.clientsMap fileDescriptor = some other → other = session

structure Sound (m : ClientManager) : Prop where
  mapped : ∀ fileDescriptor session, m.clientsMap fileDescriptor = some session →
    m.descriptors fileDescriptor = some .connection
  expected : ∀ fileDescriptor ∈ m.expected,
    m.descriptors fileDescriptor = some .connection ∧ m.clientsMap fileDescriptor = none
  distinct : m.expected.Nodup
  queued : ∀ msg ∈ m.blockingQueue.queue, msg.type ≠ .EraseClient
  erasing : ∀ node ∈ m.blockingQueue.priority, m.Owned node.2
  held : ∀ msg, m.msg = some msg → msg.type = .EraseClient → m.Owned msg
  /-- While a session is made, no message is left that could end it. -/
  alone : ∀ msg fileDescriptor, m.msg = some msg → wanted msg = some fileDescriptor →
    ∀ node ∈ m.blockingQueue.priority, node.2.fileDescriptor ≠ some fileDescriptor

end ClientManager

end Locus
