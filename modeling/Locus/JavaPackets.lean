import Locus.CipherModule
import Locus.ClientData

set_option autoImplicit false

/- The client's Converter, and its packets with all their arguments. -/
namespace Locus.Java

theorem ok_bind {α β : Type} (value : α) (next : α → Except Exception β) :
    (Except.ok value >>= next) = next value := rfl

/-- What an argument of a packet refers to. A `Float` is its bits. -/
inductive Object where
  | null
  | short (value : Int16)
  | float (value : FloatBits)
  | long (value : Int64)
  | string (value : String)
  | bytes (value : Bytes)
  deriving DecidableEq

/-- A packet with the arguments that `Packet` leaves out. -/
structure FullPacket where
  type : PacketType
  arg1 : Object := .null
  arg2 : Object := .null
  arg3 : Object := .null
  arg4 : Object := .null
  deriving DecidableEq

namespace Object

def toShort : Object → Except Exception Int16
  | .short value => .ok value
  | _ => .error .runtime

def toLong : Object → Except Exception Int64
  | .long value => .ok value
  | _ => .error .runtime

def toString : Object → Except Exception String
  | .string value => .ok value
  | _ => .error .runtime

def toByteArray : Object → Except Exception Bytes
  | .bytes value => .ok value
  | _ => .error .runtime

end Object

/-- `n` divided by `2 ^ bits`, to the nearest number, a half to the even one. -/
def roundShift (n bits : Nat) : Nat :=
  let quotient := n / 2 ^ bits
  let twice := 2 * (n % 2 ^ bits)
  if twice < 2 ^ bits then quotient
  else if 2 ^ bits < twice then quotient + 1
  else quotient + quotient % 2

/-- The conversion of a `long` to a `float`. A mantissa that rounds up to the next power of
two carries into the exponent. -/
def longToFloat (value : Int64) : FloatBits :=
  let magnitude := value.toInt.natAbs
  let sign := if value.toInt < 0 then 2 ^ 31 else 0
  if magnitude = 0 then 0
  else
    let exponent := magnitude.log2
    let mantissa :=
      if exponent ≤ 23 then magnitude * 2 ^ (23 - exponent)
      else roundShift magnitude (exponent - 23)
    UInt32.ofNat (sign + (exponent + 127) * 2 ^ 23 + (mantissa - 2 ^ 23))

/-- One, the least number that does not fit a mantissa and the next, and the largest. -/
example : [1, 16777217, 16777219, Int64.maxValue, -3].map longToFloat =
    [0x3f800000, 0x4b800000, 0x4b800002, 0x5f000000, 0xc0400000] := by decide

namespace Converter

def floatToByte (f : FloatBits) : Bytes := LittleEndian.encode 4 f.toNat

def shortToByte (s : Int16) : Bytes := LittleEndian.encode 2 s.toUInt16.toNat

def longToByte (l : Int64) : Bytes := LittleEndian.encode 8 l.toUInt64.toNat

def stringToByte (string : String) : Bytes := string.toUTF8.data.toList

/-- A `ByteBuffer` gives its first bytes. -/
def getBytes (width : Nat) (bytes : Bytes) : Except Exception Nat :=
  if width ≤ bytes.length then .ok (LittleEndian.decode (bytes.take width))
  else .error .runtime

def byteToFloat (b : Bytes) : Except Exception FloatBits :=
  (getBytes 4 b).map UInt32.ofNat

def byteToShort (bytes : Bytes) : Except Exception Int16 :=
  (getBytes 2 bytes).map fun bits => (UInt16.ofNat bits).toInt16

def byteToLong (longBytes : Bytes) : Except Exception Int64 :=
  (getBytes 8 longBytes).map fun bits => (UInt64.ofNat bits).toInt64

/-- `malformed` is what a string is made of from bytes that are no UTF-8. -/
def byteToString (malformed : Bytes → String) (bytes : Bytes) : String :=
  (String.fromUTF8? ⟨bytes.toArray⟩).getD (malformed bytes)

end Converter

/-- `String.length()`, in units of UTF-16. -/
def stringLength (string : String) : Nat :=
  (string.toList.map fun c => if c.val < 0x10000 then 1 else 2).sum

/-- A new array of some bytes of another. -/
def copyRange (source : Bytes) (start length : Nat) : Except Exception Bytes :=
  if start + length ≤ source.length then .ok ((source.drop start).take length)
  else .error .runtime

namespace FullPacket

/-- An array of `length` bytes, with the type and then each field at its offset. -/
def fields (type : PacketType) (length : Nat) (parts : List (Nat × Bytes)) :
    Except Exception Bytes :=
  parts.foldlM (fun bytes part => arraycopy part.2 bytes part.1)
    (type.toUInt8 :: List.replicate (length - 1) 0)

def bufferEncryptedPacket (packet : FullPacket) : Except Exception Bytes := do
  let string ← packet.arg1.toByteArray
  fields packet.type (1 + string.length) [(1, string)]

def bufferLocation (packet : FullPacket) : Except Exception Bytes := do
  let shor := Converter.shortToByte (← packet.arg1.toShort)
  let lat := Converter.floatToByte (longToFloat (← packet.arg2.toLong))
  let lon := Converter.floatToByte (longToFloat (← packet.arg3.toLong))
  let t := Converter.longToByte (← packet.arg4.toLong)
  fields packet.type 27 [(1, shor), (3, lat), (11, lon), (19, t)]

def bufferMyLocation (packet : FullPacket) : Except Exception Bytes := do
  let lat := Converter.floatToByte (longToFloat (← packet.arg1.toLong))
  let lon := Converter.floatToByte (longToFloat (← packet.arg2.toLong))
  let dt := Converter.longToByte (← packet.arg3.toLong)
  fields packet.type 25 [(1, lat), (9, lon), (17, dt)]

def bufferNewFollowed (packet : FullPacket) : Except Exception Bytes := do
  let name ← packet.arg2.toString
  let shor := Converter.shortToByte (← packet.arg1.toShort)
  fields packet.type (1 + 2 + stringLength name) [(1, shor), (3, Converter.stringToByte name)]

def bufferSizeName (packet : FullPacket) : Except Exception Bytes := do
  let name ← packet.arg1.toString
  fields packet.type (1 + stringLength name) [(1, Converter.stringToByte name)]

/-- A type that the switch does not name gives a null buffer, whose length is asked for. -/
def getBuffer (packet : FullPacket) : Except Exception Bytes :=
  match packet.type with
  | .ALIVE | .CLOSE | .OPEN | .ACK_ERR | .ACK_OK | .OPEN_ENCR | .OPEN_PROT =>
      .ok [packet.type.toUInt8]
  | .PUBLIC_KEY | .SYMMETRIC_KEY | .TEST_KEY => packet.bufferEncryptedPacket
  | .SET_NAME | .ADD_FOLLOWER | .REMOVE_FOLLOWER | .REMOVE_FOLLOWED => packet.bufferSizeName
  | .NEW_FOLLOWED => packet.bufferNewFollowed
  | .MY_LOCATION => packet.bufferMyLocation
  | .LOCATION => packet.bufferLocation
  | .UNDEFINED => .error .runtime

end FullPacket

/-- The packet that `EncryptedMessenger` and then `ProtocolMessenger` make of a buffer. -/
def ProtocolMessenger.receiveFull (malformed : Bytes → String) (buffer : Bytes) (size : Nat) :
    Except Exception (Option FullPacket) :=
  match PacketType.toPacketType (buffer.headD 0) with
  | .OPEN_ENCR => .ok (some { type := .OPEN_ENCR })
  | .PUBLIC_KEY => .ok none
  | .SYMMETRIC_KEY =>
      if size < 1 then .error .runtime
      else do
        return some { type := .SYMMETRIC_KEY, arg1 := .bytes (← copyRange buffer 1 (size - 1)) }
  | .TEST_KEY =>
      if size < 1 then .error .runtime
      else do return some { type := .TEST_KEY, arg1 := .bytes (← copyRange buffer 1 (size - 1)) }
  | .OPEN_PROT => .ok (some { type := .OPEN_PROT })
  | .SET_NAME =>
      if size < 1 then .error .runtime
      else do
        let name ← copyRange buffer 1 (size - 1)
        return some { type := .OPEN_PROT, arg1 := .string (Converter.byteToString malformed name) }
  | .NEW_FOLLOWED => do
      let sId ← Converter.byteToShort (← copyRange buffer 1 2)
      if size < 3 then throw .runtime
      else
        let name1 ← copyRange buffer 3 (size - 3)
        return some {
          type := .NEW_FOLLOWED
          arg1 := .short sId
          arg2 := .string (Converter.byteToString malformed name1) }
  | .REMOVE_FOLLOWED =>
      -- the array is two bytes longer than what is copied into it
      if size < 3 then .error .runtime
      else do
        let name2 ← copyRange buffer 1 (size - 3)
        return some {
          type := .REMOVE_FOLLOWED
          arg1 := .string (Converter.byteToString malformed (name2 ++ [0, 0])) }
  | .ADD_FOLLOWER | .REMOVE_FOLLOWER | .MY_LOCATION => .ok none
  | .LOCATION => do
      let sId1 ← Converter.byteToShort (← copyRange buffer 1 2)
      let latitude ← Converter.byteToFloat (← copyRange buffer 3 8)
      let longitude ← Converter.byteToFloat (← copyRange buffer 11 8)
      let time ← Converter.byteToLong (← copyRange buffer 19 8)
      return some {
        type := .LOCATION
        arg1 := .short sId1
        arg2 := .float latitude
        arg3 := .float longitude
        arg4 := .long time }
  | .ACK_ERR => .ok (some { type := .ACK_ERR })
  | .ACK_OK => .ok (some { type := .ACK_OK })
  | .CLOSE => .ok (some { type := .CLOSE })
  | .ALIVE => .ok (some { type := .ALIVE })
  | .OPEN => .error .checked
  | .UNDEFINED => .error .runtime

/-- The array that a frame was received in, with what it held behind the frame. -/
def received (buffer : Bytes) : Bytes :=
  buffer ++ List.replicate (capacity - buffer.length) 0

/-- What `receive` makes of a frame that has come in, once the encryption is on. -/
def LayerManager.receiveFull (java : Library) (malformed : Bytes → String)
    (module : CipherModule) (frame : Bytes) : Except Exception (Option FullPacket) :=
  match EncryptedMessenger.receive java module frame with
  | .ok (buffer, size) => ProtocolMessenger.receiveFull malformed (received buffer) size
  | .error exception => .error exception

namespace Converter

theorem getBytes_encode (width number : Nat) (later : Bytes) (fits : number < 256 ^ width) :
    getBytes width (LittleEndian.encode width number ++ later) = .ok number := by
  have long_enough : width ≤ (LittleEndian.encode width number ++ later).length := by
    rw [List.length_append, LittleEndian.length_encode]
    omega
  have front : (LittleEndian.encode width number ++ later).take width =
      LittleEndian.encode width number := by
    rw [List.take_append_of_le_length (LittleEndian.length_encode width number).ge]
    exact List.take_of_length_le (LittleEndian.length_encode width number).le
  rw [getBytes, if_pos long_enough, front, LittleEndian.decode_encode width number fits]

theorem byteToShort_shortToByte (s : Int16) : byteToShort (shortToByte s) = .ok s := by
  have read := getBytes_encode 2 s.toUInt16.toNat [] s.toUInt16.toNat_lt
  rw [List.append_nil] at read
  rw [byteToShort, shortToByte, read]
  simp [Except.map]

theorem byteToString_stringToByte (malformed : Bytes → String) (string : String) :
    byteToString malformed (stringToByte string) = string := by
  have whole : (⟨(stringToByte string).toArray⟩ : ByteArray) = string.toUTF8 := by
    rw [stringToByte]
  have valid : (string.toUTF8).IsValidUTF8 := string.isValidUTF8
  rw [byteToString, whole, String.fromUTF8?, dif_pos valid, Option.getD_some]
  rfl

end Converter

theorem copyRange_field (front field behind : Bytes) :
    copyRange (front ++ field ++ behind) front.length field.length = .ok field := by
  have inside : front.length + field.length ≤ (front ++ field ++ behind).length := by
    rw [List.length_append, List.length_append]
    omega
  rw [copyRange, if_pos inside, List.append_assoc, List.drop_left, List.take_left]

theorem copyRange_ok {source : Bytes} {start length : Nat}
    (inside : start + length ≤ source.length) :
    copyRange source start length = .ok ((source.drop start).take length) := if_pos inside

section Receiving

variable {malformed : Bytes → String} {buffer : Bytes} {size : Nat}

/-- The kind of an outcome, and the type of the packet if it is one. -/
def kind {α : Type} (type : α → PacketType) (outcome : Except Exception (Option α)) :
    Except Exception (Option PacketType) :=
  outcome.map (Option.map type)

/-- The packet that `receive` makes of what came in has the type of this one. -/
theorem kind_receiveFull (inside : size ≤ buffer.length) (fits : buffer.length ≤ capacity) :
    kind FullPacket.type (ProtocolMessenger.receiveFull malformed (received buffer) size) =
      kind Packet.type (ProtocolMessenger.receive buffer size) := by
  have whole : (received buffer).length = 1024 := by
    rw [received, List.length_append, List.length_replicate]
    unfold capacity at *
    omega
  have first : (received buffer).headD 0 = buffer.headD 0 := by
    cases buffer with
    | nil => rfl
    | cons byte bytes => rfl
  have small : size ≤ 1024 := by
    unfold capacity at fits
    omega
  rw [ProtocolMessenger.receiveFull, ProtocolMessenger.receive, first]
  have inner : ∀ start length, start + length ≤ 1024 →
      copyRange (received buffer) start length =
        .ok (((received buffer).drop start).take length) := by
    intro start length reach
    exact copyRange_ok (by omega)
  have width : ∀ start length, start + length ≤ 1024 →
      (((received buffer).drop start).take length).length = length := by
    intro start length reach
    rw [List.length_take, List.length_drop]
    omega
  cases PacketType.toPacketType (buffer.headD 0) with
  | SYMMETRIC_KEY | TEST_KEY | SET_NAME =>
      by_cases short : size < 1
      · simp only [argument, if_pos short]
        rfl
      · simp only [argument, if_neg short]
        rw [inner 1 (size - 1) (by omega)]
        rfl
  | REMOVE_FOLLOWED =>
      by_cases short : size < 3
      · simp only [argument, if_pos short]
        rfl
      · simp only [argument, if_neg short]
        rw [inner 1 (size - 3) (by omega)]
        rfl
  | NEW_FOLLOWED =>
      have id_wide : 2 ≤ (((received buffer).drop 1).take 2).length := by
        rw [width 1 2 (by omega)]
      simp only [argument, inner 1 2 (by omega), ok_bind, Converter.byteToShort,
        Converter.getBytes, if_pos id_wide, Except.map]
      by_cases short : size < 3
      · simp only [if_pos short]
        rfl
      · simp only [if_neg short]
        rw [inner 3 (size - 3) (by omega)]
        rfl
  | LOCATION =>
      have id_wide : 2 ≤ (((received buffer).drop 1).take 2).length := by
        rw [width 1 2 (by omega)]
      have lat_wide : 4 ≤ (((received buffer).drop 3).take 8).length := by
        rw [width 3 8 (by omega)]
        omega
      have lon_wide : 4 ≤ (((received buffer).drop 11).take 8).length := by
        rw [width 11 8 (by omega)]
        omega
      have time_wide : 8 ≤ (((received buffer).drop 19).take 8).length := by
        rw [width 19 8 (by omega)]
      simp only [inner 1 2 (by omega), inner 3 8 (by omega), inner 11 8 (by omega),
        inner 19 8 (by omega), ok_bind, Converter.byteToShort, Converter.byteToFloat,
        Converter.byteToLong, Converter.getBytes, if_pos id_wide, if_pos lat_wide,
        if_pos lon_wide, if_pos time_wide, Except.map]
      rfl
  | _ => rfl

/-- The text is no longer than the buffer that it is copied into. -/
theorem EncryptedMessenger.receive_bounds {java : Library} {module : CipherModule}
    {frame : Bytes} (fits : frame.length ≤ capacity)
    (returned : EncryptedMessenger.receive java module frame = .ok (buffer, size)) :
    size ≤ buffer.length ∧ buffer.length ≤ capacity := by
  unfold EncryptedMessenger.receive at returned
  split at returned
  · split at returned
    · cases returned
      rw [List.length_append, List.length_drop]
      omega
    · cases returned
  · cases returned
    rw [List.length_replicate]
    omega
  · cases returned

/-- The packets with all their arguments are those that the client's states depend on. -/
theorem LayerManager.kind_receiveFull {java : Library} {module : CipherModule} {frame : Bytes}
    (fits : frame.length ≤ capacity) :
    kind FullPacket.type (LayerManager.receiveFull java malformed module frame) =
      kind Packet.type (LayerManager.receive java true module frame) := by
  rw [LayerManager.receiveFull, LayerManager.receive, if_pos rfl]
  cases got : EncryptedMessenger.receive java module frame with
  | error exception => rfl
  | ok pair =>
      obtain ⟨inside, within⟩ := EncryptedMessenger.receive_bounds fits got
      exact Java.kind_receiveFull inside within

end Receiving

end Locus.Java
