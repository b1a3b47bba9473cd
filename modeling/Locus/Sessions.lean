import Locus.ClientDataManagerPosts
import Locus.ClientDataManagerRegister
import Locus.ProtocolClientStable

set_option autoImplicit false

/- The sessions that share one manager: what may happen to them between two
moments at which the Server thread waits for events. -/
namespace Locus

variable {Key : Type}

namespace Act

/-- A call of the manager that returned. -/
def call : Act → Option (ClientDataManager.Op × ClientDataManager.Reply)
  | .called op (some reply) => some (op, reply)
  | _ => none

/-- A packet that went through `sendPacket`. -/
def packet : Act → Option (PacketType × Bytes)
  | .sent type _ payload _ => some (type, payload)
  | _ => none

end Act

/-- The type and the payload of a packet. -/
def Packet.content (packet : Packet) : PacketType × Bytes := (packet.type, packet.buffer.bytes)

namespace ProtocolClient

/-- The last steps of `testKey`: the session takes up communication and registers. -/
def openSession (lib : CryptoLibrary Key) : SessionM Key Unit := do
  setStage .StableCommunication
  selfRegister lib

/-- `update()` without its last line. -/
def queueNews (turn : Turn) : SessionM Key Unit := do
  if (← get).client.stage = .StableCommunication then
    let names ← manager (.getNewNames (← get).client.id)
    queuePackets (names.toNames.map (followedPacket turn))
    let positions ← manager (.getNewPositions (← get).client.id)
    queuePackets (positions.toPositions.map locationPacket)

/-- `testKey` registers a session in the call that sets this stage. -/
def Registered (client : ProtocolClient Key) : Prop := client.stage = .StableCommunication

instance (client : ProtocolClient Key) : Decidable client.Registered :=
  inferInstanceAs (Decidable (client.stage = .StableCommunication))

end ProtocolClient

/-- The shared manager, and the sessions at the addresses of their queues. In a server
`database.posted` holds the `Update` messages that have not been popped. -/
structure Server (Key : Type) where
  database : Database := {}
  sessions : KeyMap QueueRef (ProtocolClient Key) := KeyMap.empty

namespace Server

/-- What can happen, with what the session logged meanwhile. -/
inductive Event where
  /-- A connection is accepted. -/
  | create (queue : QueueRef)
  /-- A handler that leaves the id, the queued packets and the manager alone. -/
  | advance (queue : QueueRef)
  | selfRegister (queue : QueueRef) (acts : List Act)
  /-- `update()` for client `id` queues `packets`. -/
  | update (queue : QueueRef) (id : Int16) (turn : Turn) (packets : List Packet)
      (acts : List Act)
  | sendRemainingData (queue : QueueRef) (id : Int16) (acts : List Act)
  /-- `EraseClient`, or the end of the server. -/
  | destroy (queue : QueueRef) (acts : List Act)
  /-- Any other call of the manager. -/
  | call (op : ClientDataManager.Op) (reply : ClientDataManager.Reply)
  /-- A call that throws at a post, after it has put a message into the queues `made`. -/
  | callThrows (op : ClientDataManager.Op) (made : List QueueRef)

namespace Event

def acts : Event → List Act
  | .create _ | .advance _ => []
  | .selfRegister _ acts | .update _ _ _ _ acts | .sendRemainingData _ _ acts
  | .destroy _ acts => acts
  | .call op reply => [.called op (some reply)]
  | .callThrows op _ => [.called op none]

/-- The calls that have changed the manager. One that throws at a post has, too. -/
def calls : Event → List (ClientDataManager.Op × ClientDataManager.Reply)
  | .create _ | .advance _ => []
  | .selfRegister _ acts | .update _ _ _ _ acts | .sendRemainingData _ _ acts
  | .destroy _ acts => acts.filterMap Act.call
  | .call op reply => [(op, reply)]
  | .callThrows op _ => [(op, ClientDataManager.answerOf op)]

/-- The packets that a session of client `id` handed to `sendPacket`. -/
def handed (id : Int16) : Event → List (PacketType × Bytes)
  | .update _ caller _ _ acts | .sendRemainingData _ caller acts =>
      if caller = id then acts.filterMap Act.packet else []
  | _ => []

/-- The packets that `update()` queued for client `id`. -/
def queued (id : Int16) : Event → List Packet
  | .update _ caller _ packets _ => if caller = id then packets else []
  | _ => []

/-- The names that `update()` was told for client `id`, each with the packet it made of it. -/
def told (id : Int16) : Event → List ((Int16 × Bytes) × Packet)
  | .update _ caller turn _ acts =>
      if caller = id then
        (acts.filterMap Act.call).flatMap fun call =>
          call.2.toNames.map fun news => (news, ProtocolClient.followedPacket turn news)
      else []
  | _ => []

end Event

/-- The calls of the manager in a history. -/
def callsOf (events : List Event) :
    List (ClientDataManager.Op × ClientDataManager.Reply) := events.flatMap Event.calls

/-- The public keys that sessions registered. -/
def distinctKeys (events : List Event) : Nat := ClientDataManager.distinctKeys (callsOf events)

/-- The session while one of its handlers runs. -/
def enter (server : Server Key) (client : ProtocolClient Key) : Session Key :=
  { client, database := server.database }

/-- The server after a handler of the session at `queue`. -/
def leave (server : Server Key) (queue : QueueRef) (s : Session Key) : Server Key :=
  { database := s.database
    sessions := server.sessions.modify queue fun _ => s.client }

/-- One `Update` message is taken out of a queue. -/
def popUpdate (server : Server Key) (queue : QueueRef) : Server Key :=
  { server with database := { server.database with
    posted := server.database.posted.erase queue } }

/-- `readEPoll` goes on after a handler that returned or threw an exception. -/
def GoesOn {σ α : Type} : EStateM.Result Fault σ α → Prop
  | .ok _ _ => True
  | .error (.exception _) _ => True
  | .error _ _ => False

instance {σ α : Type} (result : EStateM.Result Fault σ α) : Decidable (GoesOn result) :=
  match result with
  | .ok _ _ | .error (.exception _) _ => .isTrue trivial
  | .error .undefinedBehaviour _ | .error .nonTermination _ => .isFalse id

/-- The calls that only a session makes, when it registers and when it ends. -/
def isEnrolment : ClientDataManager.Op → Bool
  | .registerClient _ _ | .unregister _ => true
  | _ => false

open Program in
/-- An address is not given to a second session while the first one lives. -/
inductive Step (lib : CryptoLibrary Key) (server : Server Key) : Event → Server Key → Prop
  | create {queue : QueueRef} {rsaServerCrypto : RSASimpleCrypto Key} {blank : Key}
      {aesKey : Bytes} (unused : server.sessions queue = none) :
      Step lib server (.create queue) { server with
        sessions := server.sessions.insert queue
          (ProtocolClient.create lib rsaServerCrypto blank aesKey queue).client }
  | advance {queue : QueueRef} {client after : ProtocolClient Key}
      (alive : server.sessions queue = some client)
      (sameQueue : after.blockingQueue = client.blockingQueue) (sameId : after.id = client.id)
      (samePackets : after.remainingPackets = client.remainingPackets)
      (registered : after.Registered ↔ client.Registered) :
      Step lib server (.advance queue) { server with
        sessions := server.sessions.modify queue fun _ => after }
  | selfRegister {queue : QueueRef} {client : ProtocolClient Key} {after : Session Key}
      (alive : server.sessions queue = some client) (tested : client.stage = .TestKey)
      (ran : ProtocolClient.openSession lib (server.enter client) = .ok () after) :
      Step lib server (.selfRegister queue after.acts) (server.leave queue after)
  | update {queue : QueueRef} {client : ProtocolClient Key} {turn : Turn}
      {packets : List Packet} {result : EStateM.Result Fault (Session Key) Unit}
      (alive : server.sessions queue = some client)
      (posted : queue ∈ server.database.posted)
      (ran : ProtocolClient.update lib turn ((server.popUpdate queue).enter client) = result)
      (goesOn : GoesOn result)
      (queued : (finalState (ProtocolClient.queueNews turn
        ((server.popUpdate queue).enter client))).client.remainingPackets =
          client.remainingPackets ++ packets) :
      Step lib server (.update queue client.id turn packets (finalState result).acts)
        (server.leave queue (finalState result))
  | sendRemainingData {queue : QueueRef} {client : ProtocolClient Key}
      {result : EStateM.Result Fault (Session Key) Unit}
      (alive : server.sessions queue = some client)
      (ran : ProtocolClient.sendRemainingData lib (server.enter client) = result)
      (goesOn : GoesOn result) :
      Step lib server (.sendRemainingData queue client.id (finalState result).acts)
        (server.leave queue (finalState result))
  | destroy {queue : QueueRef} {client : ProtocolClient Key} {after : Session Key}
      (alive : server.sessions queue = some client)
      (ran : ProtocolClient.destroy (server.enter client) = .ok () after) :
      Step lib server (.destroy queue after.acts)
        { database := { after.database with
            posted := after.database.posted.filter (· ≠ queue) }
          sessions := server.sessions.erase queue }
  | call {op : ClientDataManager.Op} {reply : ClientDataManager.Reply} {database : Database}
      (shared : isEnrolment op = false)
      (ran : ClientDataManager.Step server.database (op, reply) database) :
      Step lib server (.call op reply) { server with database }
  | callThrows {op : ClientDataManager.Op} {refusal : Option Nat} {made : List QueueRef}
      {database : Database} (direct : ClientDataManager.isDirect op)
      (ran : ClientDataManager.run op { server.database with refusal } =
        .error ClientDataManager.pipeRefuses database)
      (posted : database.posted = server.database.posted ++ made) :
      Step lib server (.callThrows op made) { server with
        database := { database with refusal := server.database.refusal } }

end Server

end Locus
