import Locus.ClientBuffer
import Locus.ClientDataManager
import Locus.CryptoModule
import Locus.Packet

set_option autoImplicit false

/- client/ProtocolClient, with what it uses of client/Client, client/EncryptClient
and client/SimpleClient. A session leaves a log of what it does. -/
namespace Locus

/-- `ProtocolClient::Stage`. -/
inductive Stage where
  | SetPublicKey
  | SetSymmetricKey
  | TestKey
  | StableCommunication
  | Exit
  deriving DecidableEq, Repr

structure ProtocolClient (Key : Type) where
  cryptoModule : CryptoModule Key
  blockingQueue : QueueRef
  stage : Stage := .SetPublicKey
  /-- The queue, front first. -/
  remainingPackets : List Packet := []
  id : Int16 := 0

/-- One thing a session did. -/
inductive Act where
  /-- `SimpleClient::recvData` returned these bytes. -/
  | read (bytes : Bytes)
  | received (type : PacketType) (payload : Bytes)
  /-- `setOuterRSAKey` took this key. -/
  | accepted (key : Bytes)
  /-- `SimpleClient::sendData` was given this frame. -/
  | sent (type : PacketType) (algorithm : Algorithm) (payload frame : Bytes)
  | stage (stage : Stage)
  /-- A call of the shared manager, and its reply if it returned. -/
  | called (op : ClientDataManager.Op) (reply : Option ClientDataManager.Reply)
  /-- `closeConnection` posted `EraseClient`. -/
  | closed
  deriving DecidableEq, Repr

/-- What the world around a session holds while it serves one message. -/
structure Turn where
  message : MessageType
  /-- What `bufferIn` holds at each read. It is empty at the reads that follow. -/
  inbound : List Bytes := []
  /-- The manager and the queues as the other sessions left them. -/
  database : Database := {}
  /-- `std::time(nullptr)`. -/
  now : Int := 0
  /-- The bytes of the uninitialised `time_t` in `myLocation`. -/
  stale : Bytes := []
  /-- The bytes of the object that holds a string. -/
  stringObject : Bytes → Bytes := fun name => name

/-- A session while it serves a message. -/
structure Session (Key : Type) where
  client : ProtocolClient Key
  inbound : List Bytes := []
  database : Database := {}
  acts : List Act := []

abbrev SessionM (Key : Type) := EStateM Fault (Session Key)

variable {Key : Type}

namespace ProtocolClient

def act (entry : Act) : SessionM Key Unit :=
  modify fun s => { s with acts := s.acts ++ [entry] }

def edit (change : ProtocolClient Key → ProtocolClient Key) : SessionM Key Unit :=
  modify fun s => { s with client := change s.client }

def setStage (stage : Stage) : SessionM Key Unit := do
  edit fun client => { client with stage }
  act (.stage stage)

def crypto {α : Type} (call : CryptoM Key α) : SessionM Key α :=
  Program.zoom (·.client.cryptoModule)
    (fun cryptoModule s => { s with client := { s.client with cryptoModule } }) call

/-- A call of `Database::getInstance().getClientDataManager()`. -/
def manager (op : ClientDataManager.Op) : SessionM Key ClientDataManager.Reply := fun s =>
  match ClientDataManager.run op s.database with
  | .ok reply database =>
      .ok reply { s with database, acts := s.acts ++ [.called op (some reply)] }
  | .error fault database =>
      .error fault { s with database, acts := s.acts ++ [.called op none] }

def closeConnection : SessionM Key Unit := act .closed

/-- `SimpleClient::recvData`. -/
def takeFrame : SessionM Key Bytes := do
  let s ← get
  let bytes := s.inbound.headD []
  set { s with inbound := s.inbound.tail, acts := s.acts ++ [Act.read bytes] }
  return bytes

/-- `EncryptClient::recvData`. -/
def recvData (lib : CryptoLibrary Key) : SessionM Key Bytes := do
  let bytes ← takeFrame
  crypto (CryptoModule.decrypt lib bytes)

def recvPacket (lib : CryptoLibrary Key) : SessionM Key Packet := do
  let bytes ← recvData lib
  let packet ← Program.ofExcept (Packet.ofBytes bytes)
  act (.received packet.type packet.buffer.bytes)
  return packet

def sendPacket (lib : CryptoLibrary Key) (packet : Packet) : SessionM Key Unit := do
  let (bytes, _) ← Program.ofExcept packet.addTypeToBuffer.buffer.popAll
  let frame ← crypto (CryptoModule.encrypt lib bytes)
  let algorithm := (← get).client.cryptoModule.algorithm
  act (.sent packet.type algorithm packet.buffer.bytes frame)

def sendRemainingData (lib : CryptoLibrary Key) : SessionM Key Unit := do
  match (← get).client.remainingPackets with
  | [] => pure ()
  | packet :: _ =>
      sendPacket lib packet
      edit fun client => { client with remainingPackets := client.remainingPackets.tail }

def setPublicKey (lib : CryptoLibrary Key) : SessionM Key Unit :=
  catching (do
    crypto (CryptoModule.use .ServerRSA)
    let packet ← recvPacket lib
    if packet.type = .PUBLIC_KEY then
      let (key, _) ← Program.ofExcept packet.buffer.popAll
      crypto (CryptoModule.setOuterRSAKey lib key)
      act (.accepted key)
      crypto (CryptoModule.use .OuterRSA)
      let symmetricKey ← crypto CryptoModule.getSymmetricKey
      sendPacket lib (Packet.push { type := .SYMMETRIC_KEY } symmetricKey)
      setStage .SetSymmetricKey
    else closeConnection)
  closeConnection

def setSymmetricKey (lib : CryptoLibrary Key) : SessionM Key Unit :=
  catching (do
    crypto (CryptoModule.use .ServerRSA)
    let packet ← recvPacket lib
    if packet.type = .SYMMETRIC_KEY then
      let symmetricKey ← crypto CryptoModule.getSymmetricKey
      let (returned, _) ← Program.ofExcept packet.buffer.popAll
      if symmetricKey ≠ returned then closeConnection
      else
        crypto (CryptoModule.use .AES)
        sendPacket lib (Packet.push { type := .TEST_KEY } symmetricKey)
        setStage .TestKey
    else closeConnection)
  closeConnection

def selfRegister (lib : CryptoLibrary Key) : SessionM Key Unit := do
  let publicKey ← crypto (CryptoModule.getOuterRSAKey lib)
  let reply ← manager (.registerClient publicKey (← get).client.blockingQueue)
  edit fun client => { client with id := reply.toId }

/-- The payload of a `TEST_KEY` packet is not looked at. -/
def testKey (lib : CryptoLibrary Key) : SessionM Key Unit :=
  catching (do
    crypto (CryptoModule.use .AES)
    let packet ← recvPacket lib
    if packet.type = .TEST_KEY then
      sendPacket lib { type := .OPEN_PROT }
      setStage .StableCommunication
      selfRegister lib
    else closeConnection)
  closeConnection

def setName (lib : CryptoLibrary Key) (packet : Packet) : SessionM Key Unit := do
  let (name, _) ← Program.ofExcept packet.buffer.popAll
  let res ← manager (.setName (← get).client.id name)
  if res.isAccepted then sendPacket lib { type := .ACK_OK }
  else sendPacket lib { type := .ACK_ERR }

/-- `addFollower`, `removeFollower` and `removeFollowed` differ in the call they make
for the id that the name in the packet belongs to. -/
def callNamed (call : Int16 → Int16 → ClientDataManager.Op) (packet : Packet) :
    SessionM Key Unit := do
  let (name, _) ← Program.ofExcept packet.buffer.popAll
  let followerId := (← manager (.getNameId name)).toId
  if followerId > 0 then
    let _ ← manager (call (← get).client.id followerId)
    pure ()
  else pure ()

def addFollower : Packet → SessionM Key Unit := callNamed .addFollower

def removeFollower : Packet → SessionM Key Unit := callNamed .removeFollower

def removeFollowed : Packet → SessionM Key Unit := callNamed .stopFollowing

/-- The bits of a `float`, read from its bytes. -/
def toFloat (bytes : Bytes) : FloatBits := UInt32.ofNat (LittleEndian.decode bytes)

/-- A `time_t`, read from its bytes. -/
def toTime (bytes : Bytes) : Int := (BitVec.ofNat 64 (LittleEndian.decode bytes)).toInt

/-- Four of the eight bytes of `deltaTime` are read; the others are what was there. -/
def myLocation (turn : Turn) (packet : Packet) : SessionM Key Unit := do
  if packet.buffer.size ≠ 16 then closeConnection
  else
    let (latitude, buffer) ← Program.ofExcept (packet.buffer.popN 4)
    let (longitude, buffer) ← Program.ofExcept (buffer.popN 4)
    let (deltaTime, _) ← Program.ofExcept (buffer.popN 4)
    let time := turn.now - toTime (fromBytes deltaTime turn.stale)
    let _ ← manager (.addPosition (← get).client.id (toFloat latitude) (toFloat longitude) time)
    pure ()

def stableCommunication (lib : CryptoLibrary Key) (turn : Turn) : SessionM Key Unit :=
  catching (do
    let packet ← recvPacket lib
    match packet.type with
    | .CLOSE => closeConnection
    | .SET_NAME => setName lib packet
    | .ADD_FOLLOWER => addFollower packet
    | .REMOVE_FOLLOWER => removeFollower packet
    | .REMOVE_FOLLOWED => removeFollowed packet
    | .MY_LOCATION => myLocation turn packet
    | _ => pure ())
  closeConnection

/-- The case of `TestKey` has no `break` and runs on into the next one. -/
def receiveData (lib : CryptoLibrary Key) (turn : Turn) : SessionM Key Unit := do
  match (← get).client.stage with
  | .SetPublicKey => setPublicKey lib
  | .SetSymmetricKey => setSymmetricKey lib
  | .TestKey =>
      testKey lib
      stableCommunication lib turn
  | .StableCommunication => stableCommunication lib turn
  | .Exit => pure ()

/-- The packet that tells a follower the name of a client. -/
def followedPacket (turn : Turn) (news : Int16 × Bytes) : Packet :=
  (Packet.push { type := .NEW_FOLLOWED } (toBytes 2 news.1.toUInt16.toNat)).push
    (turn.stringObject news.2)

/-- The packet that tells a follower the position of a client. -/
def locationPacket (news : Int16 × Position) : Packet :=
  (((Packet.push { type := .LOCATION } (toBytes 2 news.1.toUInt16.toNat)).push
    (toBytes 4 news.2.latitude.toNat)).push
    (toBytes 4 news.2.longitude.toNat)).push
    (toBytes 8 (BitVec.ofInt 64 news.2.time).toNat)

def queuePackets (packets : List Packet) : SessionM Key Unit :=
  edit fun client => { client with remainingPackets := client.remainingPackets ++ packets }

def update (lib : CryptoLibrary Key) (turn : Turn) : SessionM Key Unit := do
  if (← get).client.stage = .StableCommunication then
    let names ← manager (.getNewNames (← get).client.id)
    queuePackets (names.toNames.map (followedPacket turn))
    let positions ← manager (.getNewPositions (← get).client.id)
    queuePackets (positions.toPositions.map locationPacket)
  sendRemainingData lib

/-- `recv()`, with the message it popped. -/
def recv (lib : CryptoLibrary Key) (turn : Turn) : SessionM Key Unit :=
  match turn.message with
  | .Close => closeConnection
  | .PacketSend => sendRemainingData lib
  | .PacketReceive => receiveData lib turn
  | .Update => update lib turn
  | _ => pure ()

/-- The destructor, which `EraseClient` runs. -/
def destroy : SessionM Key Unit := do
  let id := (← get).client.id
  if id > 0 then
    let _ ← manager (.unregister id)
    pure ()
  else pure ()

/-- A session is served until it is erased, or until undefined behaviour or an
endless loop takes its thread away. -/
inductive Status where
  | alive
  | erased
  | halted
  deriving DecidableEq, Repr

/-- A session between messages, with all it has done. -/
structure Life (Key : Type) where
  client : ProtocolClient Key
  acts : List Act
  status : Status := .alive

/-- `EPollManager::readEPoll` catches the exceptions that `recv()` lets through. -/
def Life.ofResult (result : EStateM.Result Fault (Session Key) Unit) (ended : Status) :
    Life Key :=
  match result with
  | .ok _ after => { client := after.client, acts := after.acts, status := ended }
  | .error (.exception _) after => { client := after.client, acts := after.acts, status := ended }
  | .error _ after => { client := after.client, acts := after.acts, status := .halted }

def serve (lib : CryptoLibrary Key) (turn : Turn) (life : Life Key) : Life Key :=
  .ofResult (recv lib turn
    { client := life.client
      inbound := turn.inbound
      database := turn.database
      acts := life.acts }) .alive

def erase (database : Database) (life : Life Key) : Life Key :=
  .ofResult (destroy { client := life.client, database, acts := life.acts }) .erased

/-- The constructor, over a module whose server keys have been loaded. -/
def create (lib : CryptoLibrary Key) (rsaServerCrypto : RSASimpleCrypto Key) (blank : Key)
    (aesKey : Bytes) (blockingQueue : QueueRef) : Life Key :=
  .ofResult (sendPacket lib { type := .OPEN_ENCR }
    { client := {
        cryptoModule := {
          rsaServerCrypto
          rsaSimpleCrypto := { publicKey := blank, encryptor := blank }
          aesKey }
        blockingQueue } }) .alive

/-- A message served, or the `EraseClient` of the session. -/
inductive Event where
  | serve (turn : Turn)
  | erase (database : Database)

def Event.apply (lib : CryptoLibrary Key) : Event → Life Key → Life Key
  | .serve turn => ProtocolClient.serve lib turn
  | .erase database => ProtocolClient.erase database

def Step (lib : CryptoLibrary Key) (before : Life Key) (event : Event) (after : Life Key) : Prop :=
  before.status = .alive ∧ after = event.apply lib before

end ProtocolClient

end Locus
