import Locus.JavaClient
import Locus.ProtocolClientFrames

set_option autoImplicit false

/- A session of the server and a client, with a link between them that carries whole frames
in order and loses none. -/
namespace Locus

open Program Transition Java

/-- A frame that its receiver set out to decrypt: how it was encrypted, and the cipher that
was applied to it, if the receiver had one. -/
structure Opened (Key : Type) where
  sealing : Seal Key
  opening : Option Opening
  deriving DecidableEq, Repr

structure Dialogue (Key : Type) where
  server : ProtocolClient.Life Key
  client : Client := {}
  /-- All the frames that the server has sent, and how many the client has taken. -/
  down : List (Seal Key × Bytes) := []
  fetched : Nat := 0
  /-- All the frames that the client has sent, and how many the server has taken. -/
  up : List (Seal Key × Bytes) := []
  handled : Nat := 0
  opened : List (Opened Key) := []

namespace Dialogue

variable {Key : Type}

inductive Event where
  | main
  | mainThrows
  | mainInterrupted
  | read
  | readerFails
  | fetch
  | decipher
  | take
  | send (draw : Nat)
  | writerFails (caught : Bool)
  /-- The session serves a message, when so many of the client's frames have arrived. -/
  | serve (turn : Turn) (arrived : Nat)
  | erase (database : Database)

/-- The frames of the client that have arrived and wait to be read. -/
def inbound (dialogue : Dialogue Key) (arrived : Nat) : List (Seal Key × Bytes) :=
  (dialogue.up.drop dialogue.handled).take arrived

/-- The dialogue after the server's session has moved on. Its reads took the frames in order. -/
def advance (dialogue : Dialogue Key) (server : ProtocolClient.Life Key)
    (inbound : List (Seal Key × Bytes)) : Dialogue Key :=
  let news := server.acts.drop dialogue.server.acts.length
  let count := min (news.countP Act.isRead) inbound.length
  { dialogue with
    server
    down := dialogue.down ++ news.filterMap (Act.sealed server.client.cryptoModule)
    handled := dialogue.handled + count
    opened := dialogue.opened ++ (inbound.take count).map fun frame =>
      { sealing := frame.1, opening := dialogue.server.client.opening } }

/-- The message that the session serves finds the frames that have arrived. -/
def delivered (dialogue : Dialogue Key) (turn : Turn) (arrived : Nat) : ProtocolClient.Event :=
  .serve { turn with inbound := (dialogue.inbound arrived).map (·.2) }

def step (lib : CryptoLibrary Key) (java : Library) (dialogue : Dialogue Key) :
    Event → Option (Dialogue Key)
  | .main => (dialogue.client.main java).map fun client => { dialogue with client }
  | .mainThrows => dialogue.client.mainThrows.map fun client => { dialogue with client }
  | .mainInterrupted => dialogue.client.mainInterrupted.map fun client => { dialogue with client }
  | .read => dialogue.client.read.map fun client => { dialogue with client }
  | .readerFails => dialogue.client.readerFails.map fun client => { dialogue with client }
  | .take => dialogue.client.take.map fun client => { dialogue with client }
  | .writerFails caught =>
      (dialogue.client.writerFails caught).map fun client => { dialogue with client }
  | .fetch =>
      dialogue.down[dialogue.fetched]?.bind fun frame =>
        (dialogue.client.fetch frame.2).map fun client =>
          { dialogue with client, fetched := dialogue.fetched + 1 }
  | .decipher =>
      dialogue.down[dialogue.fetched - 1]?.bind fun frame =>
        (dialogue.client.decipher java).map fun client =>
          { dialogue with
            client
            opened := dialogue.opened ++
              [{ sealing := frame.1, opening := dialogue.client.opening }] }
  | .send draw =>
      match dialogue.client.closed, dialogue.client.sent java draw,
        dialogue.client.sealing Key with
      | false, .ok frame, some sealing =>
          some { dialogue with
            client := dialogue.client.written
            up := dialogue.up ++ [(sealing, frame)] }
      | _, _, _ => none
  | .serve turn arrived =>
      if dialogue.server.status = .alive then
        some (dialogue.advance ((dialogue.delivered turn arrived).apply lib dialogue.server)
          (dialogue.inbound arrived))
      else none
  | .erase database =>
      if dialogue.server.status = .alive then
        some (dialogue.advance
          ((ProtocolClient.Event.erase database).apply lib dialogue.server) [])
      else none

def Step (lib : CryptoLibrary Key) (java : Library) (before : Dialogue Key) (event : Event)
    (after : Dialogue Key) : Prop :=
  before.step lib java event = some after

/-- The client has connected, and the session that was created for it has greeted it. -/
def start (server : ProtocolClient.Life Key) : Dialogue Key :=
  { server, down := server.acts.filterMap (Act.sealed server.client.cryptoModule) }

/-- The dialogue after some events, if each of them can come. -/
def play (lib : CryptoLibrary Key) (java : Library) (dialogue : Dialogue Key) :
    List Event → Option (Dialogue Key)
  | [] => some dialogue
  | event :: events => (dialogue.step lib java event).bind fun next => play lib java next events

theorem run_of_play {lib : CryptoLibrary Key} {java : Library} {events : List Event}
    {dialogue after : Dialogue Key} (played : dialogue.play lib java events = some after) :
    Run (Step lib java) dialogue events after := by
  induction events generalizing dialogue with
  | nil =>
      cases played
      exact .nil
  | cons event events ih =>
      obtain ⟨next, stepped, rest⟩ := Option.bind_eq_some_iff.mp played
      exact .cons stepped (ih rest)

end Dialogue

end Locus
