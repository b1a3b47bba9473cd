import Locus.ClientBufferSend
import Locus.SessionsHandlers
import Locus.SessionsQueues

set_option autoImplicit false

/- The way of a packet from `update()` to `sendPacket`: the session at one address, its
`ClientBuffer`, and the Sender, which may call `send()` at any moment. -/
namespace Locus

open Program Transition

/-- The frame that was handed to `SimpleClient::sendData`. -/
def Act.frame : Act → Option Bytes
  | .sent _ _ _ frame => some frame
  | _ => none

/-- The session that an event is about. -/
def Server.Event.session : Server.Event → Option QueueRef
  | .create queue | .advance queue | .selfRegister queue _ | .update queue _ _ _ _
  | .sendRemainingData queue _ _ | .destroy queue _ => some queue
  | .call _ _ | .callThrows _ _ => none

namespace Outbound

variable {Key : Type}

/-- The three calls that `SimpleClient::sendData` is made of. -/
inductive Call where
  | pushBack (frame : Bytes)
  | setFull
  | send
  deriving DecidableEq, Repr

def sendData (frame : Bytes) : List Call := [.pushBack frame, .setFull, .send]

/-- The calls that a handler with these acts makes. -/
def callsOf (acts : List Act) : List Call := (acts.filterMap Act.frame).flatMap sendData

end Outbound

/-- A server, and what belongs to the session at one of its addresses. -/
structure Outbound (Key : Type) where
  server : Server Key := {}
  buffer : ClientBuffer := {}
  /-- What is left of the `sendData` calls of the handler that runs. -/
  todo : List Outbound.Call := []
  /-- The packets that `update()` has queued, oldest first. -/
  queued : List Packet := []
  /-- The packets that `sendRemainingData` has given to `sendPacket`, oldest first. -/
  handed : List (PacketType × Bytes) := []

namespace Outbound

variable {Key : Type}

inductive Event where
  | accept
  /-- An event of another session, or a call of the manager. -/
  | elsewhere (event : Server.Event)
  | erase
  | update (turn : Turn)
  | packetSend
  | packetReceive (turn : Turn)
  /-- A message that sends nothing and queues nothing. -/
  | ignore (type : MessageType)
  /-- The Server thread takes the next step of `sendData`. -/
  | call (outcomes : List SendOutcome)
  | senderSend (outcomes : List SendOutcome)
  | receiverRecv (header body : List RecvOutcome)
  /-- The bytes that a handler reads leave `bufferIn`. -/
  | recvData

/-- A message leaves the queue of the session. -/
def take (type : MessageType) (c : ClientBuffer) : ClientBuffer :=
  { c with clientQueue := c.clientQueue.erase type }

/-- The server's events, with the calls of the session's handlers made one by one. A handler
starts when the one before it has made all its calls. -/
inductive Step (lib : CryptoLibrary Key) (queue : QueueRef) (before : Outbound Key) :
    Event → Outbound Key → Prop
  | accept {rsaServerCrypto : RSASimpleCrypto Key} {blank : Key} {aesKey : Bytes}
      (idle : before.todo = []) (unused : before.server.sessions queue = none) :
      Step lib queue before .accept
        { server := { before.server with
            sessions := before.server.sessions.insert queue
              (ProtocolClient.create lib rsaServerCrypto blank aesKey queue).client }
          todo := callsOf (ProtocolClient.create lib rsaServerCrypto blank aesKey queue).acts }
  | elsewhere {event : Server.Event} {server : Server Key} (idle : before.todo = [])
      (other : event.session ≠ some queue)
      (step : Server.Step lib before.server event server) :
      Step lib queue before (.elsewhere event) { before with server }
  | erase {acts : List Act} {server : Server Key} (idle : before.todo = [])
      (step : Server.Step lib before.server (.destroy queue acts) server) :
      Step lib queue before .erase { server }
  | update {id : Int16} {turn : Turn} {packets : List Packet} {acts : List Act}
      {server : Server Key} (idle : before.todo = [])
      (step : Server.Step lib before.server (.update queue id turn packets acts) server) :
      Step lib queue before (.update turn) { before with
        server
        todo := callsOf acts
        queued := before.queued ++ packets
        handed := before.handed ++ acts.filterMap Act.packet }
  | packetSend {id : Int16} {acts : List Act} {server : Server Key} (idle : before.todo = [])
      (posted : .PacketSend ∈ before.buffer.clientQueue)
      (step : Server.Step lib before.server (.sendRemainingData queue id acts) server) :
      Step lib queue before .packetSend { before with
        server
        buffer := take .PacketSend before.buffer
        todo := callsOf acts
        handed := before.handed ++ acts.filterMap Act.packet }
  | packetReceive {client : ProtocolClient Key} {turn : Turn}
      {result : EStateM.Result Fault (Session Key) Unit} (idle : before.todo = [])
      (message : turn.message = .PacketReceive)
      (posted : .PacketReceive ∈ before.buffer.clientQueue)
      (alive : before.server.sessions queue = some client)
      (ran : ProtocolClient.receiveData lib turn
        { before.server.enter client with inbound := turn.inbound } = result)
      (goesOn : Server.GoesOn result) :
      Step lib queue before (.packetReceive turn) { before with
        server := before.server.leave queue (finalState result)
        buffer := take .PacketReceive before.buffer
        todo := callsOf (finalState result).acts }
  | ignore {type : MessageType} (idle : before.todo = [])
      (posted : type ∈ before.buffer.clientQueue) (kind : type ≠ .PacketSend)
      (unread : type ≠ .PacketReceive) :
      Step lib queue before (.ignore type) { before with buffer := take type before.buffer }
  | pushBack {frame : Bytes} {todo : List Call} (next : before.todo = .pushBack frame :: todo) :
      Step lib queue before (.call []) { before with
        buffer := before.buffer.onBufferOut (·.pushBack frame)
        todo }
  | setFull {todo : List Call} (next : before.todo = .setFull :: todo) :
      Step lib queue before (.call []) { before with
        buffer := before.buffer.onBufferOut (·.setStage .Full)
        todo }
  | send {outcomes : List SendOutcome} {todo : List Call} {buffer : ClientBuffer}
      (next : before.todo = .send :: todo) (returned : before.buffer.send outcomes = .ok buffer) :
      Step lib queue before (.call outcomes) { before with buffer, todo }
  | senderSend {outcomes : List SendOutcome} {buffer : ClientBuffer}
      (returned : before.buffer.send outcomes = .ok buffer) :
      Step lib queue before (.senderSend outcomes) { before with buffer }
  | receiverRecv {header body : List RecvOutcome} :
      Step lib queue before (.receiverRecv header body)
        { before with buffer := before.buffer.recv header body }
  | recvData {bytes : Bytes} {buffer : ClientBuffer}
      (returned : before.buffer.recvData = .ok (bytes, buffer)) :
      Step lib queue before .recvData { before with buffer }

/-- What is still to come when a packet waits: the end of the one under way, the message that
calls for the next one, or nothing because the connection is closed. -/
def Moving (c : ClientBuffer) : Prop :=
  c.bufferOut.stage = .Sending ∨ .PacketSend ∈ c.clientQueue ∨ c.close = true

/-- The packets that `update()` queued are those handed over and those that wait, and between
two handlers they wait for something that comes. No `send()` fails. -/
structure Flows (queue : QueueRef) (o : Outbound Key) : Prop where
  order : ∀ client, o.server.sessions queue = some client →
    o.queued.map Packet.content = o.handed ++ client.remainingPackets.map Packet.content
  moves : o.todo = [] → ∀ client, o.server.sessions queue = some client →
    client.remainingPackets ≠ [] → Moving o.buffer
  sends : ∀ outcomes, ∃ buffer, o.buffer.send outcomes = .ok buffer

section Buffer

open ClientBuffer

/-- A buffer that sends has something to send. -/
def Startable (c : ClientBuffer) : Prop := c.bufferOut.stage = .Sending → c.bufferOut.bytes ≠ []

theorem startable_new : Startable {} := by
  intro impossible
  cases impossible

/-- After `send()` of a buffer that is filled, or of one that moves, the buffer moves. -/
theorem send_moving {c : ClientBuffer} (outcomes : List SendOutcome) (startable : Startable c) :
    ∃ after, c.send outcomes = .ok after ∧ Startable after ∧
      (c.bufferOut.stage = .Full ∨ Moving c → Moving after) := by
  by_cases closed : c.close = true
  · exact ⟨c, send_idle outcomes (.inl closed), startable, fun _ => .inr (.inr closed)⟩
  have opened : c.close = false := by simpa using closed
  have rests : ∀ after, c.send outcomes = .ok after →
      (c.bufferOut.stage = .Full ∧ c.close = false ∨ c.bufferOut.stage = .Sending) →
      Resting after → Startable after ∧ Moving after := by
    intro after ran filled resting
    rcases resting with ⟨sending, present⟩ | ⟨empty, nothing⟩
    · exact ⟨fun _ => present, .inl sending⟩
    · refine ⟨?_, .inr (.inl (send_notifies ran filled empty))⟩
      intro sending
      rw [empty] at sending
      cases sending
  by_cases full : c.bufferOut.stage = .Full
  · obtain ⟨after, ran, _, resting⟩ := send_full outcomes opened full
    obtain ⟨started, moving⟩ := rests after ran (.inl ⟨full, opened⟩) resting
    exact ⟨after, ran, started, fun _ => moving⟩
  by_cases sending : c.bufferOut.stage = .Sending
  · obtain ⟨after, ran, _, resting⟩ := send_sending outcomes sending (startable sending)
    obtain ⟨started, moving⟩ := rests after ran (.inr sending) resting
    exact ⟨after, ran, started, fun _ => moving⟩
  · refine ⟨c, send_idle outcomes (.inr ⟨full, sending⟩), startable, ?_⟩
    rintro (filled | moving)
    · exact absurd filled full
    · exact moving

/-- The Receiver leaves `bufferOut` alone, and takes no message and no end back. -/
structure Undisturbed (before after : ClientBuffer) : Prop where
  same : after.bufferOut = before.bufferOut
  posted : ∀ type ∈ before.clientQueue, type ∈ after.clientQueue
  closed : before.close = true → after.close = true

theorem Undisturbed.refl (c : ClientBuffer) : Undisturbed c c :=
  ⟨rfl, fun _ member => member, fun shut => shut⟩

theorem Undisturbed.trans {first second third : ClientBuffer} (left : Undisturbed first second)
    (right : Undisturbed second third) : Undisturbed first third :=
  ⟨right.same.trans left.same, fun type member => right.posted type (left.posted type member),
    fun shut => right.closed (left.closed shut)⟩

theorem recvHeader_undisturbed (outcomes : List RecvOutcome) (c : ClientBuffer) :
    Undisturbed c (recvHeader outcomes c) := by
  unfold recvHeader
  split
  · rename_i ready
    have opened : ∀ close, c.close = true → close = true := by
      intro close shut
      rw [ready.1] at shut
      cases shut
    dsimp only
    split
    · exact ⟨rfl, fun _ member => member, opened _⟩
    · exact ⟨rfl, fun _ member => member, opened _⟩
  · exact .refl c

theorem recvBody_undisturbed (outcomes : List RecvOutcome) (c : ClientBuffer) :
    Undisturbed c (recvBody outcomes c) := by
  unfold recvBody
  split
  · rename_i ready
    have opened : ∀ close, c.close = true → close = true := by
      intro close shut
      rw [ready.1] at shut
      cases shut
    dsimp only
    split
    · exact ⟨rfl, fun _ member => member, opened _⟩
    · split
      · exact ⟨rfl, fun _ member => List.mem_append_left _ member, opened _⟩
      · exact ⟨rfl, fun _ member => member, opened _⟩
  · exact .refl c

theorem recv_undisturbed (header body : List RecvOutcome) (c : ClientBuffer) :
    Undisturbed c (c.recv header body) := by
  refine (recvHeader_undisturbed header c).trans ((recvBody_undisturbed body _).trans ?_)
  unfold recv recvClose
  split
  · exact ⟨rfl, fun _ member => List.mem_append_left _ member, fun shut => shut⟩
  · exact .refl _

end Buffer

section Handlers

open ProtocolClient

variable {lib : CryptoLibrary Key} {events : List Server.Event} {server : Server Key}
  {queue : QueueRef} {client : ProtocolClient Key}

/-- AES encryption never throws. -/
def Encrypts (lib : CryptoLibrary Key) : Prop :=
  ∀ aesKey text, ∃ frame, lib.aesEncrypt aesKey text = .ok frame

/-- A handler with these acts has sent the first of the packets that waited, if there was one. -/
inductive SentFirst (acts : List Act) : List Packet → List Packet → Prop
  | none (frames : acts.filterMap Act.frame = []) (sent : acts.filterMap Act.packet = []) :
      SentFirst acts [] []
  | first (packet : Packet) (rest : List Packet) (frame : Bytes)
      (frames : acts.filterMap Act.frame = [frame])
      (sent : acts.filterMap Act.packet = [packet.content]) :
      SentFirst acts (packet :: rest) rest

theorem SentFirst.order {acts : List Act} {packets rest : List Packet}
    (sent : SentFirst acts packets rest) :
    packets.map Packet.content = acts.filterMap Act.packet ++ rest.map Packet.content := by
  cases sent with
  | none frames sent =>
      rw [sent]
      rfl
  | first packet rest frame frames sent =>
      rw [sent]
      rfl

/-- A handler that makes no calls leaves nothing behind. -/
theorem SentFirst.rests {acts : List Act} {packets rest : List Packet}
    (sent : SentFirst acts packets rest) (idle : callsOf acts = []) : rest = [] := by
  cases sent with
  | none => rfl
  | first packet rest frame frames =>
      rw [callsOf, frames] at idle
      cases idle

theorem sendRemainingData_sends (encrypts : Encrypts lib) {s : Session Key}
    (aes : s.client.cryptoModule.algorithm = .AES) (unsent : s.acts.filterMap Act.frame = [])
    (silent : s.acts.filterMap Act.packet = []) :
    SentFirst (finalState (sendRemainingData lib s)).acts s.client.remainingPackets
      (finalState (sendRemainingData lib s)).client.remainingPackets := by
  cases waiting : s.client.remainingPackets with
  | nil =>
      rw [sendRemainingData_empty lib waiting, finalState, waiting]
      exact .none unsent silent
  | cons packet rest =>
      obtain ⟨frame, encrypted⟩ := encrypts s.client.cryptoModule.aesKey
        (packet.type.toUInt8 :: packet.buffer.bytes)
      rw [sendRemainingData_aes_ok aes waiting encrypted, finalState]
      refine .first packet rest frame ?_ ?_
      · simp only [forwarded, List.filterMap_append, unsent]
        rfl
      · simp only [forwarded, List.filterMap_append, silent]
        rfl

/-- `PacketSend` sends the first packet. -/
theorem packetSend_sends (encrypts : Encrypts lib) (consistent : Server.Consistent events server)
    (alive : server.sessions queue = some client) (sound : Sound client) :
    SentFirst (finalState (sendRemainingData lib (server.enter client))).acts
      client.remainingPackets
      (finalState (sendRemainingData lib (server.enter client))).client.remainingPackets := by
  by_cases registered : client.Registered
  · exact sendRemainingData_sends (s := server.enter client) encrypts (sound.aes registered) rfl rfl
  · have nothing := (consistent.fresh queue client alive registered).2
    rw [sendRemainingData_empty lib (s := server.enter client) nothing, finalState]
    change SentFirst [] client.remainingPackets client.remainingPackets
    rw [nothing]
    exact .none rfl rfl

/-- `update()` sends the first packet of the queue that it has made longer. -/
theorem update_sends (encrypts : Encrypts lib) (consistent : Server.Consistent events server)
    (alive : server.sessions queue = some client) (sound : Sound client) {turn : Turn}
    {packets : List Packet} (queued : (finalState (queueNews turn
      ((server.popUpdate queue).enter client))).client.remainingPackets =
        client.remainingPackets ++ packets) :
    SentFirst (finalState (update lib turn ((server.popUpdate queue).enter client))).acts
      (client.remainingPackets ++ packets)
      (finalState (update lib turn
        ((server.popUpdate queue).enter client))).client.remainingPackets := by
  by_cases registered : client.Registered
  · obtain ⟨names, positions, middle, database, named, placed⟩ := Server.queries_return consistent
      alive registered (server.database.posted.erase queue)
    have news : queueNews turn ((server.popUpdate queue).enter client) = _ :=
      queueNews_run turn registered named placed
    rw [news, finalState] at queued
    rw [update_run, bind_of_ok news, ← queued]
    exact sendRemainingData_sends encrypts (sound.aes registered) rfl rfl
  · have nothing := (consistent.fresh queue client alive registered).2
    have news := queueNews_unregistered turn (s := (server.popUpdate queue).enter client) registered
    have sent := sendRemainingData_empty lib (s := (server.popUpdate queue).enter client) nothing
    have none_queued : packets = [] := by
      rw [news, finalState] at queued
      exact List.self_eq_append_right.mp queued
    rw [update_run, bind_of_ok news, sent, finalState, none_queued, List.append_nil]
    change SentFirst [] client.remainingPackets client.remainingPackets
    rw [nothing]
    exact .none rfl rfl

end Handlers

section Invariant

variable {lib : CryptoLibrary Key} {queue : QueueRef}

/-- The calls of a handler end with those of a whole `sendData`. -/
def Ends (todo : List Call) : Prop :=
  todo = [] ∨ todo = [.send] ∨ [.setFull, .send] <:+ todo

theorem callsOf_ends (acts : List Act) :
    callsOf acts = [] ∨ ∃ frame rest, callsOf acts = .pushBack frame :: rest ∧
      [.setFull, .send] <:+ rest := by
  unfold callsOf
  induction acts.filterMap Act.frame with
  | nil => exact .inl rfl
  | cons frame frames ih =>
      refine .inr ⟨frame, [.setFull, .send] ++ frames.flatMap sendData, rfl, ?_⟩
      rcases ih with empty | ⟨other, rest, split, ends⟩
      · rw [empty, List.append_nil]
      · rw [split]
        exact ends.trans ⟨[.setFull, .send, .pushBack other], rfl⟩

/-- What holds of a session and its buffer at every moment. -/
structure Flowing (queue : QueueRef) (o : Outbound Key) : Prop where
  consistent : ∃ past, Server.Consistent past o.server
  sound : ∀ client, o.server.sessions queue = some client → ProtocolClient.Sound client
  order : ∀ client, o.server.sessions queue = some client →
    o.queued.map Packet.content = o.handed ++ client.remainingPackets.map Packet.content
  startable : Startable o.buffer
  ends : Ends o.todo
  rests : o.todo = [] → ∀ client, o.server.sessions queue = some client →
    client.remainingPackets ≠ [] → Moving o.buffer
  starts : o.todo = [.send] → o.buffer.bufferOut.stage = .Full ∨ Moving o.buffer

section Keep

variable {o : Outbound Key} {server : Server Key} {buffer : ClientBuffer}

theorem Startable.of_same {before after : ClientBuffer} (startable : Startable before)
    (same : after.bufferOut = before.bufferOut) : Startable after := by
  unfold Startable
  rw [same]
  exact startable

/-- A handler has run, and its calls are still to be made. -/
theorem flowing_of_handler {acts : List Act} {queued : List Packet}
    {handed : List (PacketType × Bytes)} (consistent : ∃ past, Server.Consistent past server)
    (startable : Startable buffer)
    (session : ∀ client, server.sessions queue = some client → ProtocolClient.Sound client ∧
      queued.map Packet.content = handed ++ client.remainingPackets.map Packet.content ∧
      (callsOf acts = [] → client.remainingPackets ≠ [] → Moving buffer)) :
    Flowing queue { server, buffer, todo := callsOf acts, queued, handed } := by
  refine ⟨consistent, fun client alive => (session client alive).1,
    fun client alive => (session client alive).2.1, startable, ?_,
    fun idle client alive => (session client alive).2.2 idle, ?_⟩
  · rcases callsOf_ends acts with empty | ⟨frame, rest, split, ends⟩
    · exact .inl empty
    · refine .inr (.inr ?_)
      change _ <:+ callsOf acts
      rw [split]
      exact ends.trans (List.suffix_cons _ _)
  · intro alone
    change callsOf acts = _ at alone
    rcases callsOf_ends acts with empty | ⟨frame, rest, split, _⟩
    · rw [empty] at alone
      cases alone
    · rw [split] at alone
      cases alone

/-- A call of `sendData` has been made. -/
theorem Flowing.call (flowing : Flowing queue o) {call : Call} {todo : List Call}
    (next : o.todo = call :: todo) (startable : Startable buffer)
    (rests : call = .send → (o.buffer.bufferOut.stage = .Full ∨ Moving o.buffer →
      Moving buffer))
    (starts : call = .setFull → buffer.bufferOut.stage = .Full) :
    Flowing queue { o with buffer, todo } := by
  have ends := flowing.ends
  have started := flowing.starts
  rw [next] at ends started
  rcases ends with impossible | last | whole
  · cases impossible
  · cases last
    refine ⟨flowing.consistent, flowing.sound, flowing.order, startable, .inl rfl, ?_, ?_⟩
    · intro _ client alive waits
      exact rests rfl (started rfl)
    · intro impossible
      cases impossible
  · rcases List.suffix_cons_iff.mp whole with same | ends
    · cases same
      refine ⟨flowing.consistent, flowing.sound, flowing.order, startable, .inr (.inl rfl), ?_, ?_⟩
      · intro impossible
        cases impossible
      · intro _
        exact .inl (starts rfl)
    · -- there are at least two calls to come
      have long : 2 ≤ todo.length := ends.length_le
      refine ⟨flowing.consistent, flowing.sound, flowing.order, startable, .inr (.inr ends), ?_, ?_⟩
      · intro idle
        change todo = [] at idle
        rw [idle] at long
        exact absurd long (by decide)
      · intro alone
        change todo = [.send] at alone
        rw [alone] at long
        exact absurd long (by decide)

/-- Something else has happened to the buffer. -/
theorem Flowing.interfere (flowing : Flowing queue o) (startable : Startable buffer)
    (moving : Moving o.buffer → Moving buffer)
    (full : o.buffer.bufferOut.stage = .Full → buffer.bufferOut.stage = .Full ∨ Moving buffer) :
    Flowing queue { o with buffer } := by
  refine ⟨flowing.consistent, flowing.sound, flowing.order, startable, flowing.ends, ?_, ?_⟩
  · intro idle client alive waits
    exact moving (flowing.rests idle client alive waits)
  · intro alone
    rcases flowing.starts alone with filled | moves
    · exact full filled
    · exact .inr (moving moves)

/-- A change that leaves `bufferOut` alone, and takes no `PacketSend` and no end back. -/
theorem Flowing.keep (flowing : Flowing queue o)
    (same : buffer.bufferOut = o.buffer.bufferOut)
    (posted : .PacketSend ∈ o.buffer.clientQueue → .PacketSend ∈ buffer.clientQueue)
    (closed : o.buffer.close = true → buffer.close = true) : Flowing queue { o with buffer } := by
  refine flowing.interfere (flowing.startable.of_same same) ?_ ?_
  · rintro (sending | waits | shut)
    · exact .inl (by rw [same]; exact sending)
    · exact .inr (.inl (posted waits))
    · exact .inr (.inr (closed shut))
  · intro filled
    exact .inl (by rw [same]; exact filled)

end Keep

/-- An event of another session leaves this one alone. -/
theorem elsewhere_kept {before after : Server Key} {event : Server.Event}
    (effect : Server.Effect before event after) (other : event.session ≠ some queue) :
    after.sessions queue = before.sessions queue := by
  have apart : ∀ {address : QueueRef}, some address ≠ some queue → queue ≠ address := by
    rintro address differ rfl
    exact differ rfl
  cases effect with
  | create => exact KeyMap.insert_of_ne _ _ (apart other)
  | advance | selfRegister | update | ignore | sendRemainingData =>
      exact KeyMap.modify_of_ne _ _ (apart other)
  | unregister | vanish => exact KeyMap.erase_of_ne _ (apart other)
  | call | callThrows => rfl

section Events

variable {before : Outbound Key} {past : List Server.Event} {server : Server Key}

theorem flowing_accept {rsaServerCrypto : RSASimpleCrypto Key} {blank : Key} {aesKey : Bytes}
    (consistent : Server.Consistent past before.server)
    (unused : before.server.sessions queue = none) :
    Flowing queue
      { server := { before.server with
          sessions := before.server.sessions.insert queue
            (ProtocolClient.create lib rsaServerCrypto blank aesKey queue).client }
        todo := callsOf (ProtocolClient.create lib rsaServerCrypto blank aesKey queue).acts } := by
  have created : Server.Step lib before.server (.create queue)
      { before.server with
        sessions := before.server.sessions.insert queue
          (ProtocolClient.create lib rsaServerCrypto blank aesKey queue).client } :=
    .create unused
  have consistent' := Server.consistent_step consistent (Server.effect_of_step consistent created)
  refine flowing_of_handler ⟨_, consistent'⟩ startable_new fun client alive => ?_
  rcases KeyMap.insert_eq_some unused alive with ⟨_, rfl⟩ | ⟨impossible, _⟩
  · refine ⟨ProtocolClient.create_sound .., ?_, ?_⟩
    · rw [ProtocolClient.create_eq]
      rfl
    · rw [ProtocolClient.create_eq]
      exact fun _ waits => absurd rfl waits
  · exact absurd rfl impossible

theorem flowing_elsewhere {event : Server.Event} (flowing : Flowing queue before)
    (consistent : Server.Consistent past before.server) (other : event.session ≠ some queue)
    (step : Server.Step lib before.server event server) :
    Flowing queue { before with server } := by
  have effect := Server.effect_of_step consistent step
  have kept := elsewhere_kept effect other
  refine ⟨⟨_, Server.consistent_step consistent effect⟩, ?_, ?_, flowing.startable,
    flowing.ends, ?_, flowing.starts⟩
  · exact fun client alive => flowing.sound client (kept ▸ alive)
  · exact fun client alive => flowing.order client (kept ▸ alive)
  · exact fun todo client alive => flowing.rests todo client (kept ▸ alive)

theorem flowing_erase {acts : List Act} (consistent : Server.Consistent past before.server)
    (step : Server.Step lib before.server (.destroy queue acts) server) :
    Flowing queue { server } := by
  have effect := Server.effect_of_step consistent step
  have consistent' := Server.consistent_step consistent effect
  have gone : server.sessions queue = none := by
    cases effect with
    | unregister | vanish => exact KeyMap.erase_self _ _
  have silent : callsOf [] = [] := rfl
  rw [← silent]
  refine flowing_of_handler ⟨_, consistent'⟩ startable_new fun client alive => ?_
  rw [gone] at alive
  cases alive

theorem flowing_update {id : Int16} {turn : Turn} {packets : List Packet} {acts : List Act}
    (encrypts : Encrypts lib) (flowing : Flowing queue before)
    (consistent : Server.Consistent past before.server)
    (step : Server.Step lib before.server (.update queue id turn packets acts) server) :
    Flowing queue { before with
      server
      todo := callsOf acts
      queued := before.queued ++ packets
      handed := before.handed ++ acts.filterMap Act.packet } := by
  have consistent' := Server.consistent_step consistent (Server.effect_of_step consistent step)
  cases step with
  | @update _ client _ _ result there posted ran goesOn queued =>
      subst ran
      have sound := flowing.sound client there
      have sent := update_sends encrypts consistent there sound queued
      refine flowing_of_handler ⟨_, consistent'⟩ flowing.startable fun next alive => ?_
      rw [Server.leave_alive (by rw [there]; rfl)] at alive
      cases alive
      refine ⟨?_, ?_, fun idle waits => absurd (sent.rests idle) waits⟩
      · exact (ProtocolClient.recv_outcome lib { turn with message := .Update }
          (s := (before.server.popUpdate queue).enter client) sound).sound sound
      · rw [List.map_append, flowing.order client there, List.append_assoc,
          List.append_assoc, ← List.map_append, sent.order]

theorem flowing_packetSend {id : Int16} {acts : List Act} (encrypts : Encrypts lib)
    (flowing : Flowing queue before) (consistent : Server.Consistent past before.server)
    (step : Server.Step lib before.server (.sendRemainingData queue id acts) server) :
    Flowing queue { before with
      server
      buffer := take .PacketSend before.buffer
      todo := callsOf acts
      handed := before.handed ++ acts.filterMap Act.packet } := by
  have consistent' := Server.consistent_step consistent (Server.effect_of_step consistent step)
  cases step with
  | @sendRemainingData _ client result there ran goesOn =>
      subst ran
      have sound := flowing.sound client there
      have sent := packetSend_sends encrypts consistent there sound
      refine flowing_of_handler ⟨_, consistent'⟩
        (flowing.startable.of_same rfl) fun next alive => ?_
      rw [Server.leave_alive (by rw [there]; rfl)] at alive
      cases alive
      refine ⟨?_, ?_, fun idle waits => absurd (sent.rests idle) waits⟩
      · exact (ProtocolClient.recv_outcome lib { message := .PacketSend }
          (s := before.server.enter client) sound).sound sound
      · rw [flowing.order client there, List.append_assoc, sent.order]

theorem flowing_packetReceive {client : ProtocolClient Key} {turn : Turn}
    (flowing : Flowing queue before) (consistent : Server.Consistent past before.server)
    (idle : before.todo = []) (message : turn.message = .PacketReceive)
    (there : before.server.sessions queue = some client)
    (goesOn : Server.GoesOn (ProtocolClient.receiveData lib turn
      { before.server.enter client with inbound := turn.inbound })) :
    Flowing queue { before with
      server := before.server.leave queue (finalState (ProtocolClient.receiveData lib turn
        { before.server.enter client with inbound := turn.inbound }))
      buffer := take .PacketReceive before.buffer
      todo := callsOf (finalState (ProtocolClient.receiveData lib turn
        { before.server.enter client with inbound := turn.inbound })).acts } := by
  obtain ⟨consistent', sound, kept⟩ := Server.receiveData_leaves consistent there
    (flowing.sound client there) message (s := { before.server.enter client with
      inbound := turn.inbound }) rfl rfl goesOn
  refine flowing_of_handler consistent' (flowing.startable.of_same rfl) fun next alive => ?_
  rw [Server.leave_alive (by rw [there]; rfl)] at alive
  cases alive
  refine ⟨sound, ?_, ?_⟩
  · rw [kept]
    exact flowing.order client there
  · intro _ waits
    rw [kept] at waits
    rcases flowing.rests idle client there waits with sending | told | closed
    · exact .inl sending
    · exact .inr (.inl ((List.mem_erase_of_ne (by decide)).mpr told))
    · exact .inr (.inr closed)

/-- The calls of `sendData`, each of them made on its own. -/
theorem flowing_pushBack {frame : Bytes} {todo : List Call} (flowing : Flowing queue before)
    (next : before.todo = .pushBack frame :: todo) :
    Flowing queue { before with
      buffer := before.buffer.onBufferOut (·.pushBack frame)
      todo } := by
  refine flowing.call next ?_ (fun impossible => by cases impossible)
    (fun impossible => by cases impossible)
  intro sending
  simp only [ClientBuffer.onBufferOut, Buffer.bytes_pushBack]
  exact fun nothing => flowing.startable sending (List.append_eq_nil_iff.mp nothing).1

theorem flowing_setFull {todo : List Call} (flowing : Flowing queue before)
    (next : before.todo = .setFull :: todo) :
    Flowing queue { before with
      buffer := before.buffer.onBufferOut (·.setStage .Full)
      todo } := by
  refine flowing.call next ?_ (fun impossible => by cases impossible) (fun _ => rfl)
  intro impossible
  cases impossible

end Events

theorem flowing_step {before after : Outbound Key} {event : Event} (encrypts : Encrypts lib)
    (flowing : Flowing queue before) (step : Step lib queue before event after) :
    Flowing queue after := by
  obtain ⟨past, consistent⟩ := flowing.consistent
  cases step with
  | accept idle unused => exact flowing_accept consistent unused
  | elsewhere idle other step => exact flowing_elsewhere flowing consistent other step
  | erase idle step => exact flowing_erase consistent step
  | update idle step => exact flowing_update encrypts flowing consistent step
  | packetSend idle posted step => exact flowing_packetSend encrypts flowing consistent step
  | packetReceive idle message posted there ran goesOn =>
      subst ran
      exact flowing_packetReceive flowing consistent idle message there goesOn
  | ignore idle posted kind unread =>
      refine flowing.keep rfl (fun waits => ?_) id
      exact (List.mem_erase_of_ne kind.symm).mpr waits
  | pushBack next => exact flowing_pushBack flowing next
  | setFull next => exact flowing_setFull flowing next
  | @send outcomes todo buffer next returned =>
      obtain ⟨sent, ran, startable, moves⟩ := send_moving outcomes flowing.startable
      rw [returned] at ran
      cases ran
      exact flowing.call next startable (fun _ => moves) (fun impossible => by cases impossible)
  | @senderSend outcomes buffer returned =>
      obtain ⟨sent, ran, startable, moves⟩ := send_moving outcomes flowing.startable
      rw [returned] at ran
      cases ran
      exact flowing.interfere startable (fun moving => moves (.inr moving))
        (fun full => .inr (moves (.inl full)))
  | @receiverRecv header body =>
      obtain ⟨same, posted, closed⟩ := recv_undisturbed header body before.buffer
      exact flowing.keep same (posted _) closed
  | recvData returned =>
      unfold ClientBuffer.recvData at returned
      split at returned
      · cases returned
      · cases returned
        exact flowing.keep rfl id id

/-- In every run of a session and the Sender the packets leave in the order in which `update()`
queued them, each of them once, and between two handlers none waits for nothing. -/
theorem outbound_flows (encrypts : Encrypts lib) {events : List Event} {o : Outbound Key}
    (run : Run (Step lib queue) {} events o) : Flows queue o := by
  have flowing : Flowing queue o := by
    refine run.invariant (Flowing queue) ?_ fun _ _ _ => flowing_step encrypts
    change Flowing queue { todo := callsOf [] }
    exact flowing_of_handler ⟨[], Server.consistent_start⟩ startable_new (by simp)
  refine ⟨flowing.order, flowing.rests, fun outcomes => ?_⟩
  obtain ⟨buffer, ran, _⟩ := send_moving outcomes flowing.startable
  exact ⟨buffer, ran⟩

end Invariant

open ProtocolClient (transparent newcomer)

/-- `queueNews` puts packets behind those that wait. -/
theorem queueNews_grows (turn : Turn) (s : Session Key) :
    s.client.remainingPackets <+:
      (finalState (ProtocolClient.queueNews turn s)).client.remainingPackets := by
  let Grows (before after : Session Key) : Prop :=
    before.client.remainingPackets <+: after.client.remainingPackets
  have refl : ∀ s : Session Key, Grows s s := fun _ => List.prefix_refl _
  have trans : ∀ {first second third : Session Key}, Grows first second → Grows second third →
      Grows first third := List.IsPrefix.trans
  have asks : ∀ op, Keeps Grows (ProtocolClient.manager op : SessionM Key _) := by
    intro op s
    unfold KeepsAt
    cases ran : ClientDataManager.run op s.database with
    | ok reply database =>
        rw [ProtocolClient.manager_ok ran]
        exact List.prefix_refl _
    | error fault database =>
        rw [ProtocolClient.manager_error ran]
        exact List.prefix_refl _
  have queues : ∀ packets, Keeps Grows (ProtocolClient.queuePackets packets : SessionM Key Unit) :=
    fun packets => .modify fun _ => List.prefix_append _ packets
  have whole : Keeps Grows (ProtocolClient.queueNews turn : SessionM Key Unit) := by
    unfold ProtocolClient.queueNews
    refine .bind trans (.get refl) fun s => ?_
    split
    · refine .bind trans (.get refl) fun s => .bind trans (asks _) fun names => ?_
      refine .bind trans (queues _) fun _ => .bind trans (.get refl) fun s => ?_
      exact .bind trans (asks _) fun positions => queues _
    · exact .pure refl _
  exact whole s

/-- The state after an event of this session or of its buffer, where the event can happen. -/
def play (lib : CryptoLibrary Key) (queue : QueueRef) (before : Outbound Key) :
    Event → Option (Outbound Key)
  | .update turn => do
      let client ← before.server.sessions queue
      let start := (before.server.popUpdate queue).enter client
      let result := ProtocolClient.update lib turn start
      let waiting := (finalState (ProtocolClient.queueNews turn start)).client.remainingPackets
      let packets := waiting.drop client.remainingPackets.length
      if before.todo = [] ∧ queue ∈ before.server.database.posted ∧ Server.GoesOn result then
        some { before with
          server := before.server.leave queue (finalState result)
          todo := callsOf (finalState result).acts
          queued := before.queued ++ packets
          handed := before.handed ++ (finalState result).acts.filterMap Act.packet }
      else none
  | .packetSend => do
      let client ← before.server.sessions queue
      let result := ProtocolClient.sendRemainingData lib (before.server.enter client)
      if before.todo = [] ∧ .PacketSend ∈ before.buffer.clientQueue ∧ Server.GoesOn result then
        some { before with
          server := before.server.leave queue (finalState result)
          buffer := take .PacketSend before.buffer
          todo := callsOf (finalState result).acts
          handed := before.handed ++ (finalState result).acts.filterMap Act.packet }
      else none
  | .packetReceive turn => do
      let client ← before.server.sessions queue
      let result := ProtocolClient.receiveData lib turn
        { before.server.enter client with inbound := turn.inbound }
      if before.todo = [] ∧ turn.message = .PacketReceive ∧
          .PacketReceive ∈ before.buffer.clientQueue ∧ Server.GoesOn result then
        some { before with
          server := before.server.leave queue (finalState result)
          buffer := take .PacketReceive before.buffer
          todo := callsOf (finalState result).acts }
      else none
  | .call outcomes =>
      match before.todo, outcomes with
      | .pushBack frame :: todo, [] =>
          some { before with buffer := before.buffer.onBufferOut (·.pushBack frame), todo }
      | .setFull :: todo, [] =>
          some { before with buffer := before.buffer.onBufferOut (·.setStage .Full), todo }
      | .send :: todo, outcomes =>
          (before.buffer.send outcomes).toOption.map fun buffer => { before with buffer, todo }
      | _, _ => none
  | .senderSend outcomes =>
      (before.buffer.send outcomes).toOption.map fun buffer => { before with buffer }
  | .receiverRecv header body => some { before with buffer := before.buffer.recv header body }
  | .recvData => before.buffer.recvData.toOption.map fun taken => { before with buffer := taken.2 }
  | .accept | .elsewhere _ | .erase | .ignore _ => none

theorem eq_ok_of_toOption {α : Type} {result : Except Fault α} {value : α}
    (returned : result.toOption = some value) : result = .ok value := by
  cases result with
  | error fault => cases returned
  | ok other =>
      cases returned
      rfl

theorem play_step {lib : CryptoLibrary Key} {queue : QueueRef} {before after : Outbound Key}
    {event : Event} (played : play lib queue before event = some after) :
    Step lib queue before event after := by
  cases event with
  | update turn =>
      simp only [play, Option.bind_eq_bind, Option.bind_eq_some_iff, Option.ite_none_right_eq_some,
        Option.some.injEq] at played
      obtain ⟨client, alive, ⟨idle, posted, goesOn⟩, rfl⟩ := played
      exact .update idle (.update alive posted rfl goesOn
        (List.prefix_iff_eq_append.mp (queueNews_grows turn _)).symm)
  | packetSend =>
      simp only [play, Option.bind_eq_bind, Option.bind_eq_some_iff, Option.ite_none_right_eq_some,
        Option.some.injEq] at played
      obtain ⟨client, alive, ⟨idle, posted, goesOn⟩, rfl⟩ := played
      exact .packetSend idle posted (.sendRemainingData alive rfl goesOn)
  | packetReceive turn =>
      simp only [play, Option.bind_eq_bind, Option.bind_eq_some_iff, Option.ite_none_right_eq_some,
        Option.some.injEq] at played
      obtain ⟨client, alive, ⟨idle, message, posted, goesOn⟩, rfl⟩ := played
      exact .packetReceive idle message posted alive rfl goesOn
  | call outcomes =>
      simp only [play] at played
      split at played
      · cases played
        exact .pushBack ‹_›
      · cases played
        exact .setFull ‹_›
      · obtain ⟨buffer, returned, rfl⟩ := Option.map_eq_some_iff.mp played
        exact .send ‹_› (eq_ok_of_toOption returned)
      · cases played
  | senderSend outcomes =>
      obtain ⟨buffer, returned, rfl⟩ := Option.map_eq_some_iff.mp played
      exact .senderSend (eq_ok_of_toOption returned)
  | receiverRecv header body =>
      cases played
      exact .receiverRecv
  | recvData =>
      obtain ⟨⟨bytes, buffer⟩, returned, rfl⟩ := Option.map_eq_some_iff.mp played
      exact .recvData (eq_ok_of_toOption returned)
  | accept | elsewhere | erase | ignore => cases played

theorem play_run {lib : CryptoLibrary Key} {queue : QueueRef} {events : List Event} :
    ∀ {before after : Outbound Key}, events.foldlM (play lib queue) before = some after →
      Run (Step lib queue) before events after := by
  induction events with
  | nil =>
      intro before after played
      cases played
      exact .nil
  | cons event events ih =>
      intro before after played
      obtain ⟨middle, first, rest⟩ := Option.bind_eq_some_iff.mp played
      exact .cons (play_step first) (ih rest)

/-- The calls of one `sendData`, with what the socket takes. -/
def sends (outcomes : List SendOutcome) : List Event := [.call [], .call [], .call outcomes]

/-- A frame comes in, and the session serves it. -/
def serves (frame : Bytes) (now : Int) : List Event :=
  [.receiverRecv [.data (toBytes 2 frame.length)] [.data frame],
    .packetReceive { message := .PacketReceive, inbound := [frame], now }, .recvData]

/-- A client signs in and takes a name, follows itself and says where it is. Then `update()` queues
two packets; the socket takes a part of the first one, the Sender writes the rest of it, and the
session is told to send the second one. -/
def visit : List Event :=
  let whole := [SendOutcome.count 2, .count 64]
  sends whole ++ serves [9, 5] 0 ++ sends whole ++ serves [10, 7] 0 ++ sends whole ++
    serves [7, 11, 7] 0 ++ sends whole ++ serves [7, 17, 65] 0 ++ sends whole ++
    serves [7, 18, 65] 0 ++ serves (7 :: 22 :: List.replicate 16 0) 9 ++
    .update { message := .Update } :: sends [.count 2, .count 4] ++
    .senderSend [.count 64] :: .packetSend :: sends whole

theorem outbound_flows_visit : ∃ o : Outbound Unit,
    Run (Step transparent 0) {} (.accept :: visit) o ∧ o.todo = [] ∧
    o.handed = [(.NEW_FOLLOWED, [1, 0, 65]),
      (.LOCATION, [1, 0] ++ List.replicate 8 0 ++ 9 :: List.replicate 7 0)] ∧
    Flows 0 o := by
  have played : (visit.foldlM (play transparent 0)
      { server := { sessions := KeyMap.empty.insert 0 newcomer.client }
        todo := callsOf newcomer.acts }).map (fun o => (o.todo, o.handed)) = some ([],
      [(.NEW_FOLLOWED, [1, 0, 65]),
        (.LOCATION, [1, 0] ++ List.replicate 8 0 ++ 9 :: List.replicate 7 0)]) := by
    decide +kernel
  obtain ⟨o, reached, same⟩ := Option.map_eq_some_iff.mp played
  obtain ⟨idle, handed⟩ := Prod.mk.inj same
  have run : Run (Step transparent 0) {} (.accept :: visit) o :=
    .cons (.accept rfl rfl) (play_run reached)
  exact ⟨o, run, idle, handed, outbound_flows (fun _ _ => ⟨_, rfl⟩) run⟩

end Outbound

end Locus
