import Locus.ClientManager

set_option autoImplicit false

/- main.cpp, server/BasicThread and EPollManager::readEPoll: the threads Server, Receiver and
Sender with their queues and epoll instances, and the handlers that they call. An exception
that leaves the function of a thread ends the program. -/
namespace Locus

open Transition Program

/-- A handler. A session has two, and is known by its number. -/
inductive EPollEvent where
  | ClientManager
  | Acceptor
  | ProtocolClient (session : Nat)
  | ClientBuffer (session : Nat)
  deriving DecidableEq, Repr

def EPollEvent.isOf : EPollEvent → Nat → Bool
  | .ProtocolClient session, other | .ClientBuffer session, other => session = other
  | .ClientManager, _ | .Acceptor, _ => false

/-- `BasicThread::name`. -/
inductive ThreadName where
  | Server
  | Receiver
  | Sender
  deriving DecidableEq, Repr

/-- The messages that go into the queue of a thread. -/
inductive ThreadMessage where
  | Close
  | AddEPollEvent (event : EPollEvent)
  deriving DecidableEq, Repr

/-- Where a thread is. -/
inductive Place where
  /-- At the head of the loop in `readMessage`. -/
  | readMessage
  | addEPollEvent (event : EPollEvent)
  /-- Before `epoll_wait`. -/
  | readEPoll
  /-- In the loop of `readEPoll`, with the events that it has not come to. -/
  | dispatch (events : List EPollEvent)
  /-- In `recv()` or `send()` of a handler. -/
  | call (event : EPollEvent) (events : List EPollEvent)
  /-- In `ClientManager::recv`, behind the pop. -/
  | switch (events : List EPollEvent)
  /-- In `ClientManager::recv`, with the messages that `addClient` has still to push. -/
  | addClient (pushes : List (ThreadName × EPollEvent)) (events : List EPollEvent)
  /-- In `Acceptor::recv`, behind `accept`. -/
  | setNonBlock (events : List EPollEvent)
  /-- In `Acceptor::recv`, before the push to the manager. -/
  | announce (events : List EPollEvent)
  | ended
  deriving DecidableEq, Repr

/-- What `main` does besides its loop over the commands. -/
inductive MainStep where
  | push (thread : ThreadName) (message : ThreadMessage)
  | commands
  | join (thread : ThreadName)
  deriving DecidableEq, Repr

structure Threads where
  /-- The manager, with its queue and with the descriptor that the Acceptor holds. -/
  manager : ClientManager := {}
  queues : ThreadName → BlockingQueue ThreadMessage := fun _ => {}
  place : ThreadName → Place := fun _ => .readMessage
  exit : ThreadName → Bool := fun _ => false
  watched : ThreadName → EPollEvent → Bool := fun _ _ => false
  /-- Something has arrived at the descriptor of a handler since its last report. -/
  armed : ThreadName → EPollEvent → Bool := fun _ _ => false
  /-- The handlers that have been made and not destroyed. -/
  live : EPollEvent → Bool := fun event => event = .ClientManager || event = .Acceptor
  main : List MainStep :=
    [.push .Server (.AddEPollEvent .ClientManager), .push .Receiver (.AddEPollEvent .Acceptor),
      .commands, .push .Sender .Close, .join .Sender, .push .Receiver .Close, .join .Receiver,
      .push .Server .Close, .join .Server]

namespace Threads

def goTo (s : Threads) (thread : ThreadName) (place : Place) : Threads :=
  { s with place := Function.update s.place thread place }

def setQueue (s : Threads) (thread : ThreadName) (queue : BlockingQueue ThreadMessage) :
    Threads :=
  { s with queues := Function.update s.queues thread queue }

@[simp] theorem place_goTo (s : Threads) (thread : ThreadName) (place : Place) :
    (s.goTo thread place).place thread = place := by
  simp only [goTo, Function.update_self]

theorem place_goTo_of_ne (s : Threads) {thread other : ThreadName} (place : Place)
    (apart : other ≠ thread) : (s.goTo thread place).place other = s.place other := by
  simp only [goTo, Function.update_of_ne apart]

@[simp] theorem queues_setQueue (s : Threads) (thread : ThreadName)
    (queue : BlockingQueue ThreadMessage) : (s.setQueue thread queue).queues thread = queue := by
  simp only [setQueue, Function.update_self]

theorem queues_setQueue_of_ne (s : Threads) {thread other : ThreadName}
    (queue : BlockingQueue ThreadMessage) (apart : other ≠ thread) :
    (s.setQueue thread queue).queues other = s.queues other := by
  simp only [setQueue, Function.update_of_ne apart]

/-- Something arrives at a handler's descriptor, in the epoll instance of a thread. -/
def arm (s : Threads) (thread : ThreadName) (event : EPollEvent) : Threads :=
  { s with armed := fun other handler =>
      s.armed other handler || (other = thread && handler = event) }

/-- A push into the manager's queue wakes the manager if its byte is written to the pipe. -/
def ring (s : Threads) (written : Bool) : Threads :=
  { s with armed := fun other handler =>
      s.armed other handler || (written && other = .Server && handler = .ClientManager) }

/-- The session that `addClient` puts into the map. -/
def created (msg : Message) (made : Bool) (m : ClientManager) : Option Nat :=
  match msg.type, msg.fileDescriptor with
  | .AddClient, some fileDescriptor =>
      if made && (m.clientsMap fileDescriptor).isNone then some m.created else none
  | _, _ => none

/-- The session that `eraseClient` takes out of the map. -/
def erased (msg : Message) (m : ClientManager) : Option Nat :=
  match msg.type, msg.fileDescriptor with
  | .EraseClient, some fileDescriptor => m.clientsMap fileDescriptor
  | _, _ => none

/-- A session is made, and another one destroyed. The socket of that one is closed, which takes
it out of the epoll instances; the pipe of its queue is not. -/
def renew (created erased : Option Nat) (s : Threads) : Threads :=
  { s with
    live := fun event => (s.live event || created.any event.isOf) && !erased.any event.isOf
    watched := fun thread event =>
      s.watched thread event && !erased.any fun session => event = .ClientBuffer session
    armed := fun thread event =>
      s.armed thread event && !erased.any fun session => event = .ClientBuffer session }

/-- The messages of `addClient`. Where the descriptor is in the map, the map keeps the session
that it has. -/
def pushes (msg : Message) (made : Bool) (m : ClientManager) : List (ThreadName × EPollEvent) :=
  match msg.type, msg.fileDescriptor with
  | .AddClient, some fileDescriptor =>
      if made then
        [(.Server, .ProtocolClient ((m.clientsMap fileDescriptor).getD m.created)),
          (.Receiver, .ClientBuffer m.created), (.Sender, .ClientBuffer m.created)]
      else []
  | _, _ => []

/-- The sessions whose queues a call may push to. A `ClientBuffer` knows its own session only,
a session finds all in the database, which holds queues of live sessions. -/
def Posts : Place → Nat → Prop
  | .call (.ProtocolClient _) _, _ | .addClient _ _, _ => True
  | .call (.ClientBuffer session) _, other => other = session
  | _, _ => False

inductive Event where
  /-- `readMessage` pops a message, or finds none. -/
  | readMessage (thread : ThreadName)
  | addEPollEvent (thread : ThreadName)
  | epollWait (thread : ThreadName) (events : List EPollEvent)
  /-- `readEPoll` calls `recv()` or `send()`. -/
  | dispatch (thread : ThreadName)
  /-- An event that is neither `EPOLLIN` nor `EPOLLOUT`. -/
  | skip (thread : ThreadName)
  | readEPollEnds (thread : ThreadName)
  | returns (thread : ThreadName)
  /-- A message goes into the queue of a session. -/
  | post (thread : ThreadName) (session : Nat)
  | closeConnection (session address : Nat) (written : Bool)
  /-- `ClientManager::recv` pops a message. -/
  | pop (thread : ThreadName)
  | switch (thread : ThreadName) (made : Bool)
  /-- `addClient` pushes its next message. -/
  | push (thread : ThreadName)
  /-- The byte of that message is not written. -/
  | pushFails (thread : ThreadName)
  | accept (thread : ThreadName) (fileDescriptor : Int)
  /-- `setNonBlock` fails. -/
  | refuse (thread : ThreadName)
  | setNonBlock (thread : ThreadName)
  | announce (thread : ThreadName) (written : Bool)
  /-- A connection comes to the Acceptor's socket. -/
  | connect
  /-- A client's socket becomes readable or writable. -/
  | ready (thread : ThreadName) (session : Nat)
  /-- `main` reads the command `close`. -/
  | close (fileDescriptor : Int) (address : Nat) (written : Bool)
  | openOther (fileDescriptor : Int)
  | closeOther (fileDescriptor : Int)
  | main (step : MainStep)
  deriving DecidableEq, Repr

def maxSizeEvents : Nat := 1024

inductive Step (s : Threads) : Event → Threads → Prop
  | popAddEPollEvent {thread : ThreadName} {event : EPollEvent}
      {queue : BlockingQueue ThreadMessage} (reading : s.place thread = .readMessage)
      (popped : BlockingQueue.popFor (s.queues thread) = .ok (some (.AddEPollEvent event)) queue) :
      Step s (.readMessage thread) ((s.setQueue thread queue).goTo thread (.addEPollEvent event))
  | popClose {thread : ThreadName} {queue : BlockingQueue ThreadMessage}
      (reading : s.place thread = .readMessage)
      (popped : BlockingQueue.popFor (s.queues thread) = .ok (some .Close) queue) :
      Step s (.readMessage thread)
        { (s.setQueue thread queue).goTo thread .readEPoll with
          exit := Function.update s.exit thread true }
  | popNothing {thread : ThreadName} {queue : BlockingQueue ThreadMessage}
      (reading : s.place thread = .readMessage)
      (empty : BlockingQueue.popFor (s.queues thread) = .ok none queue) :
      Step s (.readMessage thread) (s.goTo thread .readEPoll)
  | addEPollEvent {thread : ThreadName} {event : EPollEvent}
      (adding : s.place thread = .addEPollEvent event) :
      Step s (.addEPollEvent thread)
        { s.goTo thread .readMessage with
          watched := fun other handler =>
            s.watched other handler || (other = thread && handler = event) }
  | epollWait {thread : ThreadName} {events : List EPollEvent}
      (waiting : s.place thread = .readEPoll) (distinct : events.Nodup)
      (few : events.length ≤ maxSizeEvents)
      (ready : ∀ event ∈ events, s.watched thread event = true ∧ s.armed thread event = true) :
      Step s (.epollWait thread events)
        { s.goTo thread (.dispatch events) with
          armed := fun other event =>
            s.armed other event && !(other = thread && decide (event ∈ events)) }
  | dispatch {thread : ThreadName} {event : EPollEvent} {events : List EPollEvent}
      (next : s.place thread = .dispatch (event :: events)) :
      Step s (.dispatch thread) (s.goTo thread (.call event events))
  | skip {thread : ThreadName} {event : EPollEvent} {events : List EPollEvent}
      (next : s.place thread = .dispatch (event :: events)) :
      Step s (.skip thread) (s.goTo thread (.dispatch events))
  | readEPollEnds {thread : ThreadName} (done : s.place thread = .dispatch []) :
      Step s (.readEPollEnds thread)
        (s.goTo thread (if s.exit thread then .ended else .readMessage))
  | returns {thread : ThreadName} {event : EPollEvent} {events : List EPollEvent}
      (calling : s.place thread = .call event events) (other : event ≠ .ClientManager) :
      Step s (.returns thread) (s.goTo thread (.dispatch events))
  | post {thread : ThreadName} {session : Nat} (posts : Posts (s.place thread) session)
      (alive : s.live (.ProtocolClient session) = true) :
      Step s (.post thread session) (s.arm .Server (.ProtocolClient session))
  | closeConnection {thread : ThreadName} {session address : Nat} {written : Bool}
      {events : List EPollEvent} {m : ClientManager}
      (calling : s.place thread = .call (.ProtocolClient session) events)
      (managed : ClientManager.Step s.manager (.closeConnection session address written) m) :
      Step s (.closeConnection session address written) { s.ring written with manager := m }
  | pop {thread : ThreadName} {events : List EPollEvent} {m : ClientManager}
      (calling : s.place thread = .call .ClientManager events)
      (managed : ClientManager.Step s.manager .pop m) :
      Step s (.pop thread)
        ({ s with manager := m }.goTo thread
          (if m.msg.isSome then .switch events else .dispatch events))
  | switch {thread : ThreadName} {events : List EPollEvent} {msg : Message} {made : Bool}
      {m : ClientManager} (switching : s.place thread = .switch events)
      (held : s.manager.msg = some msg)
      (managed : ClientManager.Step s.manager (.serve made) m) :
      Step s (.switch thread made)
        ({ s.renew (created msg made s.manager) (erased msg s.manager) with manager := m }.goTo
          thread (.addClient (pushes msg made s.manager) events))
  | push {thread target : ThreadName} {event : EPollEvent}
      {others : List (ThreadName × EPollEvent)} {events : List EPollEvent}
      {queue : BlockingQueue ThreadMessage}
      (pushing : s.place thread = .addClient ((target, event) :: others) events)
      (room : (s.queues target).HasRoom)
      (written : BlockingQueue.push true (.AddEPollEvent event) (s.queues target) =
        .ok () queue) :
      Step s (.push thread)
        ((s.setQueue target queue).goTo thread (.addClient others events))
  /-- The exception ends `addClient`. -/
  | pushFails {thread target : ThreadName} {event : EPollEvent} {fault : Fault}
      {others : List (ThreadName × EPollEvent)} {events : List EPollEvent}
      {queue : BlockingQueue ThreadMessage}
      (pushing : s.place thread = .addClient ((target, event) :: others) events)
      (room : (s.queues target).HasRoom)
      (failed : BlockingQueue.push false (.AddEPollEvent event) (s.queues target) =
        .error fault queue) :
      Step s (.pushFails thread) ((s.setQueue target queue).goTo thread (.dispatch events))
  | switched {thread : ThreadName} {events : List EPollEvent}
      (done : s.place thread = .addClient [] events) :
      Step s (.returns thread) (s.goTo thread (.dispatch events))
  | accept {thread : ThreadName} {events : List EPollEvent} {fileDescriptor : Int}
      {m : ClientManager} (calling : s.place thread = .call .Acceptor events)
      (managed : ClientManager.Step s.manager (.accept fileDescriptor) m) :
      Step s (.accept thread fileDescriptor)
        ({ s with manager := m }.goTo thread (.setNonBlock events))
  | refuse {thread : ThreadName} {events : List EPollEvent} {m : ClientManager}
      (accepted : s.place thread = .setNonBlock events)
      (managed : ClientManager.Step s.manager .refuse m) :
      Step s (.refuse thread) ({ s with manager := m }.goTo thread (.dispatch events))
  | setNonBlock {thread : ThreadName} {events : List EPollEvent}
      (accepted : s.place thread = .setNonBlock events) :
      Step s (.setNonBlock thread) (s.goTo thread (.announce events))
  | announce {thread : ThreadName} {written : Bool} {events : List EPollEvent}
      {m : ClientManager} (announcing : s.place thread = .announce events)
      (managed : ClientManager.Step s.manager (.announce written) m) :
      Step s (.announce thread written)
        ({ s.ring written with manager := m }.goTo thread (.dispatch events))
  | connect : Step s .connect (s.arm .Receiver .Acceptor)
  | ready {thread : ThreadName} {session : Nat} (socket : thread ≠ .Server)
      (alive : s.live (.ClientBuffer session) = true) :
      Step s (.ready thread session) (s.arm thread (.ClientBuffer session))
  | close {rest : List MainStep} {fileDescriptor : Int} {address : Nat} {written : Bool}
      (console : s.main = .commands :: rest)
      (fresh : ∀ node ∈ s.manager.blockingQueue.priority, node.1 ≠ address) :
      Step s (.close fileDescriptor address written)
        { s.ring written with
          manager := { s.manager with
            blockingQueue := finalState (BlockingQueue.priorityPush written address
              { type := .EraseClient, fileDescriptor := some fileDescriptor }
              s.manager.blockingQueue) } }
  | openOther {fileDescriptor : Int} {m : ClientManager}
      (managed : ClientManager.Step s.manager (.openOther fileDescriptor) m) :
      Step s (.openOther fileDescriptor) { s with manager := m }
  | closeOther {fileDescriptor : Int} {m : ClientManager}
      (managed : ClientManager.Step s.manager (.closeOther fileDescriptor) m) :
      Step s (.closeOther fileDescriptor) { s with manager := m }
  | mainPush {target : ThreadName} {message : ThreadMessage} {rest : List MainStep}
      {queue : BlockingQueue ThreadMessage} (next : s.main = .push target message :: rest)
      (room : (s.queues target).HasRoom)
      (written : BlockingQueue.push true message (s.queues target) = .ok () queue) :
      Step s (.main (.push target message)) { s.setQueue target queue with main := rest }
  | mainCommands {rest : List MainStep} (next : s.main = .commands :: rest) :
      Step s (.main .commands) { s with main := rest }
  | mainJoin {thread : ThreadName} {rest : List MainStep} (next : s.main = .join thread :: rest)
      (ended : s.place thread = .ended) :
      Step s (.main (.join thread)) { s with main := rest }

end Threads

end Locus
