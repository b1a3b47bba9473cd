import Locus.ProtocolClientLocation
import Locus.SessionsHandlers

set_option autoImplicit false

/- EPollManager::readEPoll on the thread of the sessions: the handler of one message runs from its
start to its end, on the manager that all sessions share. -/
namespace Locus.Service

open Program Transition ProtocolClient
open ClientDataManager (Op Reply)

variable {Key : Type}

/-- What the thread does between two waits, with what the session logged meanwhile. -/
inductive Event where
  | accept (queue : QueueRef)
  /-- `recv()` of a session that is client `id` when the call comes back. -/
  | serve (queue : QueueRef) (id : Int16) (turn : Turn) (acts : List Act)
  /-- `EraseClient`, or the end of the server. -/
  | erase (queue : QueueRef) (acts : List Act)

def Event.acts : Event → List Act
  | .accept _ => []
  | .serve _ _ _ acts | .erase _ acts => acts

/-- The calls of the manager. -/
def Event.calls (event : Event) : List (Op × Reply) := event.acts.filterMap Act.call

def callsOf (history : List Event) : List (Op × Reply) := history.flatMap Event.calls

/-- The packets that sessions of client `id` took out of their queues and sent. -/
def Event.forwarded (id : Int16) : Event → List (PacketType × Bytes)
  | .serve _ caller turn acts =>
      if caller = id ∧ (turn.message = .Update ∨ turn.message = .PacketSend) then
        acts.filterMap Act.packet
      else []
  | _ => []

def forwardedTo (history : List Event) (id : Int16) : List (PacketType × Bytes) :=
  history.flatMap (Event.forwarded id)

/-- A message that is popped is no longer posted. -/
def pops (server : Server Key) (queue : QueueRef) (message : MessageType) : Server Key :=
  if message = .Update then server.popUpdate queue else server

/-- The session at the start of `recv()`. The manager is the one that all sessions share. -/
def attend (server : Server Key) (queue : QueueRef) (client : ProtocolClient Key) (turn : Turn) :
    Session Key :=
  { (pops server queue turn.message).enter client with inbound := turn.inbound }

/-- An address is not given to a second session while the first one lives. A handler that does
not come back ends the run. Posts go through, since nothing sets `refusal`. -/
inductive Step (lib : CryptoLibrary Key) (server : Server Key) : Event → Server Key → Prop
  | accept {queue : QueueRef} {rsaServerCrypto : RSASimpleCrypto Key} {blank : Key}
      {aesKey : Bytes} (unused : server.sessions queue = none) :
      Step lib server (.accept queue) { server with
        sessions := server.sessions.insert queue
          (ProtocolClient.create lib rsaServerCrypto blank aesKey queue).client }
  | serve {queue : QueueRef} {client : ProtocolClient Key} {turn : Turn}
      {result : EStateM.Result Fault (Session Key) Unit}
      (alive : server.sessions queue = some client)
      (posted : turn.message = .Update → queue ∈ server.database.posted)
      (ran : recv lib turn (attend server queue client turn) = result)
      (goesOn : Server.GoesOn result) :
      Step lib server (.serve queue (finalState result).client.id turn (finalState result).acts)
        (server.leave queue (finalState result))
  | erase {queue : QueueRef} {client : ProtocolClient Key} {after : Session Key}
      (alive : server.sessions queue = some client)
      (ran : destroy (server.enter client) = .ok () after) :
      Step lib server (.erase queue after.acts)
        { database := { after.database with
            posted := after.database.posted.filter (· ≠ queue) }
          sessions := server.sessions.erase queue }

/-- Messages for sessions, one after the other, as long as the handlers come back. -/
def replay (lib : CryptoLibrary Key) :
    List (QueueRef × Turn) → Server Key → Option (List Event × Server Key)
  | [], server => some ([], server)
  | (queue, turn) :: rest, server => do
      let client ← server.sessions queue
      let result := recv lib turn (attend server queue client turn)
      if (turn.message = .Update → queue ∈ server.database.posted) ∧ Server.GoesOn result then
        let (history, after) ← replay lib rest (server.leave queue (finalState result))
        return (.serve queue (finalState result).client.id turn (finalState result).acts ::
          history, after)
      else none

theorem replay_run {lib : CryptoLibrary Key} {inputs : List (QueueRef × Turn)} :
    ∀ {server after : Server Key} {history : List Event},
      replay lib inputs server = some (history, after) →
      Run (Step lib) server history after := by
  induction inputs with
  | nil =>
      intro server after history replayed
      cases replayed
      exact .nil
  | cons input rest ih =>
      intro server after history replayed
      obtain ⟨queue, turn⟩ := input
      simp only [replay, Option.bind_eq_bind, Option.bind_eq_some_iff] at replayed
      obtain ⟨client, alive, replayed⟩ := replayed
      split at replayed
      · rename_i served
        obtain ⟨⟨later, final⟩, more, same⟩ := Option.bind_eq_some_iff.mp replayed
        cases same
        exact .cons (.serve alive served.1 rfl served.2) (ih more)
      · cases replayed

/-- The call that a packet makes for the client whose name it holds. -/
def namedCall : PacketType → Option (Int16 → Int16 → Op)
  | .ADD_FOLLOWER => some .addFollower
  | .REMOVE_FOLLOWER => some .removeFollower
  | .REMOVE_FOLLOWED => some .stopFollowing
  | _ => none

/-- The calls that a packet from client `id` can lead to. -/
inductive Asks (turn : Turn) (id : Int16) : PacketType → Bytes → List (Op × Reply) → Prop
  | nothing {type : PacketType} {payload : Bytes} : Asks turn id type payload []
  | name {payload : Bytes} {reply : Reply} :
      Asks turn id .SET_NAME payload [(.setName id payload, reply)]
  | unknown {type : PacketType} {call : Int16 → Int16 → Op} {payload : Bytes} {reply : Reply}
      (kind : namedCall type = some call) :
      Asks turn id type payload [(.getNameId payload, reply)]
  | known {type : PacketType} {call : Int16 → Int16 → Op} {payload : Bytes} {other : Int16}
      {reply : Reply} (kind : namedCall type = some call) :
      Asks turn id type payload [(.getNameId payload, .id other), (call id other, reply)]
  | place {payload : Bytes} {reply : Reply} (sixteen : payload.length = 16) :
      Asks turn id .MY_LOCATION payload [(located turn id payload, reply)]

/-- The calls are those of one packet that was received. -/
def Prompted (turn : Turn) (id : Int16) (acts : List Act) (calls : List (Op × Reply)) : Prop :=
  calls = [] ∨ ∃ type payload, .received type payload ∈ acts ∧ Asks turn id type payload calls

end Locus.Service
