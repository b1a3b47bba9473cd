import Locus.ClientData
import Locus.KeyMap

set_option autoImplicit false

namespace Locus

/-- The address of a session's message queue. -/
abbrev QueueRef := Nat

structure ClientDataManager where
  nextId : Int16 := 1
  clientsId : KeyMap Bytes Int16 := KeyMap.empty
  clientsName : KeyMap Bytes Int16 := KeyMap.empty
  clientsData : KeyMap Int16 ClientData := KeyMap.empty
  clientsQueue : KeyMap Int16 QueueRef := KeyMap.empty

/-- The shared manager, and the queues that were pushed an `Update` message, oldest first. -/
structure Database where
  manager : ClientDataManager := {}
  posted : List QueueRef := []
  /-- The post of a call, counted from zero, whose byte the pipe does not take. -/
  refusal : Option Nat := none

abbrev ManagerM := EStateM Fault Database

namespace ClientDataManager

def edit (change : ClientDataManager → ClientDataManager) : ManagerM Unit :=
  modify fun database => { database with manager := change database.manager }

/-- `clientsData.find(id)->second`. The methods report a missing id by building
a `runtime_error` that they do not throw, so the end iterator is dereferenced. -/
def client (id : Int16) : ManagerM ClientData := do
  match (← get).manager.clientsData id with
  | none => throw .undefinedBehaviour
  | some data => pure data

/-- A write through the iterator that `clientsData.find(id)` returned. -/
def editClient (id : Int16) (change : ClientData → ClientData) : ManagerM Unit := do
  let _ ← client id
  edit fun m => { m with clientsData := m.clientsData.modify id change }

/-- What `pushByteToPipe` throws at a pipe that takes no byte. -/
def pipeRefuses : Fault := .exception "Resource temporarily unavailable"

/-- `priorityPush(Message::Update)` puts the message into the queue before it writes its byte. -/
def postUpdate (made : Nat) (queue : QueueRef) : ManagerM Unit := do
  modify fun database => { database with posted := database.posted ++ [queue] }
  if (← get).refusal = some made then throw pipeRefuses

/-- Every listed client that has a queue is posted an `Update`, after `made` posts of the call. -/
def postUpdates (made : Nat) : List Int16 → ManagerM Unit
  | [] => pure ()
  | id :: ids => do
      match (← get).manager.clientsQueue id with
      | none => postUpdates made ids
      | some queue =>
          postUpdate made queue
          postUpdates (made + 1) ids

def addClient (publicKey : Bytes) : ManagerM Int16 := do
  let id := (← get).manager.nextId
  edit fun m => { m with
    clientsId := m.clientsId.insert publicKey id
    clientsData := m.clientsData.insert id { publicKey } }
  edit fun m => { m with nextId := id + 1 }
  return id

def registerClient (publicKey : Bytes) (blockingQueue : QueueRef) : ManagerM Int16 := do
  let id ← match (← get).manager.clientsId publicKey with
    | some id => pure id
    | none => addClient publicKey
  edit fun m => { m with clientsQueue := m.clientsQueue.insert id blockingQueue }
  return id

def unregister (id : Int16) : ManagerM Unit :=
  edit fun m => { m with clientsQueue := m.clientsQueue.erase id }

def addFollower (myId followerId : Int16) : ManagerM Unit := do
  editClient myId (·.addFollower followerId)
  editClient followerId (·.startFollowing myId)
  postUpdates 0 [followerId]

def removeFollower (myId followerId : Int16) : ManagerM Unit := do
  editClient myId (·.removeFollower followerId)
  editClient followerId (·.stopFollowing myId)

def stopFollowing (myId followingId : Int16) : ManagerM Unit := do
  editClient myId (·.stopFollowing followingId)
  editClient followingId (·.removeFollower myId)

def notifyFollowers (id : Int16) : ManagerM Unit := do
  let data ← client id
  postUpdates 0 data.followers

def addPosition (myId : Int16) (latitude longitude : FloatBits) (time : Int) :
    ManagerM Unit := do
  editClient myId (·.addPosition latitude longitude time)
  notifyFollowers myId

/-- The inner loop of `getNewPositions`. Its iterator starts at the last position
and is not moved, so one position fills every free place of the list. -/
def pickPositions (watcher : Watcher) (position : Position) (first : Bool) :
    (room : Nat) → Int → List (Int16 × Position) → List (Int16 × Position) × Int
  | 0, newTime, newPositions => (newPositions, newTime)
  | room + 1, newTime, newPositions =>
      if position.time > watcher.time then
        let newPositions := newPositions ++ [(watcher.id, position)]
        let newTime := max newTime position.time
        if first then (newPositions, newTime)
        else pickPositions watcher position first room newTime newPositions
      else (newPositions, newTime)

def maxPositionsPerFollowingId : Nat := 3

/-- One turn of the outer loop of `getNewPositions`. -/
def watchPositions (followed : ClientData) (watcher : Watcher) :
    Watcher × List (Int16 × Position) :=
  match followed.positions.getLast? with
  | none => (watcher, [])
  | some position =>
      if followed.name = [] then (watcher, [])
      else
        let (newPositions, newTime) := pickPositions watcher position
          (followed.positions.length = 1) maxPositionsPerFollowingId 0 []
        ({ watcher with time := max watcher.time newTime }, newPositions)

/-- One turn of the loop of `getNewNames`. -/
def watchName (followed : ClientData) (watcher : Watcher) : Watcher × List (Int16 × Bytes) :=
  if followed.name ≠ [] ∧ followed.name ≠ watcher.name then
    ({ watcher with name := followed.name }, [(watcher.id, followed.name)])
  else (watcher, [])

/-- Both queries walk `following`, look the followed client up with
`clientsData.at` and may move the watcher. A failed look-up ends the walk; the
watchers before it stay moved. -/
def visitFollowing {β : Type} (watch : ClientData → Watcher → Watcher × List β)
    (clientsData : KeyMap Int16 ClientData) :
    List Watcher → List Watcher × Except Fault (List β)
  | [] => ([], .ok [])
  | watcher :: rest =>
      match clientsData watcher.id with
      | none => (watcher :: rest, .error (.exception "unordered_map::at"))
      | some followed =>
          let (moved, found) := watch followed watcher
          let (others, result) := visitFollowing watch clientsData rest
          (moved :: others, result.map (found ++ ·))

def queryFollowing {β : Type} (watch : ClientData → Watcher → Watcher × List β)
    (id : Int16) : ManagerM (List β) := do
  let data ← client id
  let (following, result) := visitFollowing watch (← get).manager.clientsData data.following
  editClient id (·.setFollowing following)
  Program.ofExcept result

def getNewPositions (id : Int16) : ManagerM (List (Int16 × Position)) :=
  queryFollowing watchPositions id

def getNameId (name : Bytes) : ManagerM Int16 := do
  return ((← get).manager.clientsName name).getD 0

def setName (myId : Int16) (name : Bytes) : ManagerM Bool := do
  match (← get).manager.clientsName name with
  | none =>
      let data ← client myId
      edit fun m => { m with clientsName :=
        if data.name = [] then m.clientsName else m.clientsName.erase data.name }
      edit fun m => { m with clientsName := m.clientsName.insert name myId }
      editClient myId (·.setName name)
      notifyFollowers myId
      return true
  | some _ =>
      let data ← client myId
      return data.name = name

def getNewNames (id : Int16) : ManagerM (List (Int16 × Bytes)) :=
  queryFollowing watchName id

/-- One public call of the manager. -/
inductive Op where
  | registerClient (publicKey : Bytes) (blockingQueue : QueueRef)
  | unregister (id : Int16)
  | addFollower (myId followerId : Int16)
  | removeFollower (myId followerId : Int16)
  | stopFollowing (myId followingId : Int16)
  | addPosition (myId : Int16) (latitude longitude : FloatBits) (time : Int)
  | getNewPositions (id : Int16)
  | getNameId (name : Bytes)
  | setName (myId : Int16) (name : Bytes)
  | getNewNames (id : Int16)
  deriving DecidableEq, Repr

/-- What a call hands back to its caller. -/
inductive Reply where
  | none
  | id (id : Int16)
  | accepted (accepted : Bool)
  | positions (positions : List (Int16 × Position))
  | names (names : List (Int16 × Bytes))
  deriving DecidableEq, Repr

namespace Reply

def toId : Reply → Int16
  | .id value => value
  | _ => 0

def isAccepted : Reply → Bool
  | .accepted answer => answer
  | _ => false

def toPositions : Reply → List (Int16 × Position)
  | .positions found => found
  | _ => []

def toNames : Reply → List (Int16 × Bytes)
  | .names found => found
  | _ => []

end Reply

def run : Op → ManagerM Reply
  | .registerClient publicKey blockingQueue => do
      return .id (← registerClient publicKey blockingQueue)
  | .unregister id => do unregister id; return .none
  | .addFollower myId followerId => do addFollower myId followerId; return .none
  | .removeFollower myId followerId => do removeFollower myId followerId; return .none
  | .stopFollowing myId followingId => do stopFollowing myId followingId; return .none
  | .addPosition myId latitude longitude time => do
      addPosition myId latitude longitude time
      return .none
  | .getNewPositions id => do return .positions (← getNewPositions id)
  | .getNameId name => do return .id (← getNameId name)
  | .setName myId name => do return .accepted (← setName myId name)
  | .getNewNames id => do return .names (← getNewNames id)

/-- A call that returns. A call that does not is undefined behaviour or an exception. -/
def Step (before : Database) (call : Op × Reply) (after : Database) : Prop :=
  run call.1 before = .ok call.2 after

end ClientDataManager

end Locus
