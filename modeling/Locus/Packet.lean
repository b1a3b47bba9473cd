import Locus.Buffer

set_option autoImplicit false

/- packet/PacketType and packet/Packet. -/
namespace Locus

/-- `PacketType::header`. -/
inductive PacketType where
  | OPEN
  | CLOSE
  | ACK_OK
  | ACK_ERR
  | ALIVE
  | OPEN_ENCR
  | PUBLIC_KEY
  | SYMMETRIC_KEY
  | TEST_KEY
  | OPEN_PROT
  | SET_NAME
  | ADD_FOLLOWER
  | NEW_FOLLOWED
  | REMOVE_FOLLOWER
  | REMOVE_FOLLOWED
  | MY_LOCATION
  | LOCATION
  | UNDEFINED
  deriving DecidableEq, Repr

namespace PacketType

def toUInt8 : PacketType → UInt8
  | OPEN => 0
  | CLOSE => 1
  | ACK_OK => 2
  | ACK_ERR => 3
  | ALIVE => 4
  | OPEN_ENCR => 8
  | PUBLIC_KEY => 9
  | SYMMETRIC_KEY => 10
  | TEST_KEY => 11
  | OPEN_PROT => 16
  | SET_NAME => 17
  | ADD_FOLLOWER => 18
  | NEW_FOLLOWED => 19
  | REMOVE_FOLLOWER => 20
  | REMOVE_FOLLOWED => 21
  | MY_LOCATION => 22
  | LOCATION => 23
  | UNDEFINED => 100

/-- The types of `packetTypeMap`; `UNDEFINED` is not one of them. -/
def packetTypeMap : List PacketType :=
  [OPEN, CLOSE, ACK_OK, ACK_ERR, ALIVE, OPEN_ENCR, PUBLIC_KEY, SYMMETRIC_KEY, TEST_KEY,
    OPEN_PROT, SET_NAME, ADD_FOLLOWER, NEW_FOLLOWED, REMOVE_FOLLOWER, REMOVE_FOLLOWED,
    MY_LOCATION, LOCATION]

def toPacketType (header : UInt8) : PacketType :=
  (packetTypeMap.find? (·.toUInt8 = header)).getD .UNDEFINED

/-- A type that is sent is read back as itself. -/
theorem toPacketType_toUInt8 (type : PacketType) : toPacketType type.toUInt8 = type := by
  cases type <;> decide

end PacketType

structure Packet where
  type : PacketType := .UNDEFINED
  buffer : Buffer := .blank

namespace Packet

/-- The packet with more bytes at the end of its buffer. -/
def push (packet : Packet) (bytes : Bytes) : Packet :=
  { packet with buffer := packet.buffer.pushBack bytes }

@[simp] theorem type_push (packet : Packet) (bytes : Bytes) :
    (packet.push bytes).type = packet.type := rfl

@[simp] theorem bytes_push (packet : Packet) (bytes : Bytes) :
    (packet.push bytes).buffer.bytes = packet.buffer.bytes ++ bytes :=
  Buffer.bytes_pushBack bytes packet.buffer

def addTypeToBuffer (packet : Packet) : Packet :=
  { packet with buffer := packet.buffer.pushFront (toBytes 1 packet.type.toUInt8.toNat) }

/-- Take the type off the front of the buffer. -/
def parse (packet : Packet) : Except Fault Packet :=
  match packet.buffer.popN 1 with
  | .error fault => .error fault
  | .ok (headerBuffer, buffer) =>
      .ok { type := .toPacketType (headerBuffer.headD 0), buffer }

/-- The packet that `recvPacket` makes of the bytes it got. -/
def ofBytes (bytes : Bytes) : Except Fault Packet := (Packet.push {} bytes).parse

theorem ofBytes_nil :
    ofBytes [] =
      .error (.exception "The BlockingBuffer has too small number of bytes") := rfl

/-- The first byte is the type and the others are the payload. -/
theorem ofBytes_cons (header : UInt8) (payload : Bytes) :
    ∃ packet, ofBytes (header :: payload) = .ok packet ∧
      packet.type = .toPacketType header ∧ packet.buffer.bytes = payload := by
  have held : (Packet.push {} (header :: payload)).buffer.bytes = header :: payload := by
    simp only [push, Buffer.bytes_pushBack]
    rfl
  have inside : 1 ≤ (Packet.push {} (header :: payload)).buffer.bytes.length := by
    rw [held, List.length_cons]
    omega
  obtain ⟨buffer, popped, rest, _⟩ := Buffer.popN_spec inside
  rw [held] at popped rest
  exact ⟨{ type := .toPacketType header, buffer }, by rw [ofBytes, parse, popped]; rfl, rfl, rest⟩

/-- A packet made of bytes is made of all of them. -/
theorem ofBytes_ok {bytes : Bytes} {packet : Packet} (success : ofBytes bytes = .ok packet) :
    ∃ header, bytes = header :: packet.buffer.bytes ∧ packet.type = .toPacketType header := by
  cases bytes with
  | nil => cases success
  | cons header payload =>
      obtain ⟨found, parsed, type_eq, bytes_eq⟩ := ofBytes_cons header payload
      rw [success] at parsed
      cases parsed
      exact ⟨header, by rw [bytes_eq], type_eq⟩

/-- What `sendPacket` hands to `sendData`: the type and the payload. -/
theorem popAll_addTypeToBuffer (packet : Packet) :
    ∃ after, packet.addTypeToBuffer.buffer.popAll =
      .ok (packet.type.toUInt8 :: packet.buffer.bytes, after) := by
  obtain ⟨after, popped, _⟩ := packet.addTypeToBuffer.buffer.popAll_spec
  refine ⟨after, popped.trans ?_⟩
  simp [addTypeToBuffer, toBytes, LittleEndian.encode]

end Packet

end Locus
