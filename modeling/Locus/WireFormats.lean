import Locus.JavaPackets
import Locus.ProtocolClientStable
import Locus.SessionsQueues

set_option autoImplicit false

/- The packets that the server and the client exchange, as one writes and the other reads
them. -/
namespace Locus

open Java ProtocolClient

/-- The bytes that `sendPacket` encrypts. -/
def Packet.text (packet : Packet) : Bytes := packet.type.toUInt8 :: packet.buffer.bytes

namespace Java

section Location

/-- The number that some bytes of an array are. -/
def field (array : Bytes) (start width : Nat) : Nat :=
  LittleEndian.decode ((array.drop start).take width)

theorem field_append (front rest : Bytes) (width : Nat) :
    field (front ++ rest) front.length width = LittleEndian.decode (rest.take width) := by
  rw [field, List.drop_left]

/-- A field that starts where a number is encoded has its low end. -/
theorem field_encode (front behind : Bytes) {width wide : Nat} (number : Nat)
    (inside : width ≤ wide) :
    field (front ++ (toBytes wide number ++ behind)) front.length width =
      number % 256 ^ width := by
  rw [field_append, List.take_append_of_le_length (by simp [toBytes, inside]), toBytes,
    LittleEndian.take_encode number inside, LittleEndian.decode_encode_mod]

theorem byteToShort_field {array : Bytes} {start : Nat} (inside : start + 2 ≤ array.length) :
    Converter.byteToShort ((array.drop start).take 2) =
      .ok (UInt16.ofNat (field array start 2)).toInt16 := by
  have width : 2 ≤ ((array.drop start).take 2).length := by
    rw [List.length_take, List.length_drop]
    omega
  rw [Converter.byteToShort, Converter.getBytes, if_pos width, List.take_take, Nat.min_self]
  rfl

/-- Of eight bytes the first four are read. -/
theorem byteToFloat_field {array : Bytes} {start : Nat} (inside : start + 8 ≤ array.length) :
    Converter.byteToFloat ((array.drop start).take 8) =
      .ok (UInt32.ofNat (field array start 4)) := by
  have width : 4 ≤ ((array.drop start).take 8).length := by
    rw [List.length_take, List.length_drop]
    omega
  rw [Converter.byteToFloat, Converter.getBytes, if_pos width, List.take_take]
  rfl

theorem byteToLong_field {array : Bytes} {start : Nat} (inside : start + 8 ≤ array.length) :
    Converter.byteToLong ((array.drop start).take 8) =
      .ok (UInt64.ofNat (field array start 8)).toInt64 := by
  have width : 8 ≤ ((array.drop start).take 8).length := by
    rw [List.length_take, List.length_drop]
    omega
  rw [Converter.byteToLong, Converter.getBytes, if_pos width, List.take_take, Nat.min_self]
  rfl

variable {malformed : Bytes → String} {array : Bytes}

/-- Where the client looks for the fields of a `LOCATION`. -/
theorem receiveFull_location (size : Nat)
    (first : PacketType.toPacketType (array.headD 0) = .LOCATION) (whole : 27 ≤ array.length) :
    ProtocolMessenger.receiveFull malformed array size = .ok (some {
      type := .LOCATION
      arg1 := .short (UInt16.ofNat (field array 1 2)).toInt16
      arg2 := .float (UInt32.ofNat (field array 3 4))
      arg3 := .float (UInt32.ofNat (field array 11 4))
      arg4 := .long (UInt64.ofNat (field array 19 8)).toInt64 }) := by
  rw [ProtocolMessenger.receiveFull, first]
  simp only [@copyRange_ok array 1 2 (by omega), @copyRange_ok array 3 8 (by omega),
    @copyRange_ok array 11 8 (by omega), @copyRange_ok array 19 8 (by omega), ok_bind,
    @byteToShort_field array 1 (by omega), @byteToFloat_field array 3 (by omega),
    @byteToFloat_field array 11 (by omega), @byteToLong_field array 19 (by omega)]
  rfl

/-- What `sendPacket` encrypts of the `LOCATION` that `update` makes. -/
def locationText (id : Int16) (latitude longitude : FloatBits) (time : Int64) : Bytes :=
  (locationPacket (id, { latitude, longitude, time := time.toInt })).text

theorem locationText_eq (id : Int16) (latitude longitude : FloatBits) (time : Int64) :
    locationText id latitude longitude time =
      PacketType.LOCATION.toUInt8 :: (toBytes 2 id.toUInt16.toNat ++ toBytes 4 latitude.toNat ++
        toBytes 4 longitude.toNat ++ toBytes 8 time.toUInt64.toNat) := by
  have bits : (BitVec.ofInt 64 time.toInt).toNat = time.toUInt64.toNat := by
    rw [Int64.toInt, BitVec.ofInt_toInt]
    rfl
  rw [locationText, Packet.text, locationPacket]
  simp only [Packet.bytes_push, Packet.type_push, bits]
  rfl

theorem length_locationText (id : Int16) (latitude longitude : FloatBits) (time : Int64) :
    (locationText id latitude longitude time).length = 19 := by
  rw [locationText_eq]
  simp [toBytes]

/-- The packet comes in with the values that it was made of. -/
def LocationAgrees (malformed : Bytes → String) (id : Int16) (latitude longitude : FloatBits)
    (time : Int64) (behind : Bytes) : Prop :=
  ProtocolMessenger.receiveFull malformed (locationText id latitude longitude time ++ behind)
    (locationText id latitude longitude time).length = .ok (some {
      type := .LOCATION
      arg1 := .short id
      arg2 := .float latitude
      arg3 := .float longitude
      arg4 := .long time })

/-- The longitude is in the time, and the time in what the array held behind the packet. -/
def Coincides (longitude : FloatBits) (time : Int64) (behind : Bytes) : Prop :=
  longitude.toNat = time.toUInt64.toNat % 2 ^ 32 ∧
    LittleEndian.decode (behind.take 8) = time.toUInt64.toNat

/-- The fields of an array that starts with a `LOCATION`. -/
theorem fields_locationText (id : Int16) (latitude longitude : FloatBits) (time : Int64)
    (behind : Bytes) :
    field (locationText id latitude longitude time ++ behind) 1 2 = id.toUInt16.toNat ∧
      field (locationText id latitude longitude time ++ behind) 3 4 = latitude.toNat ∧
      field (locationText id latitude longitude time ++ behind) 11 4 =
        time.toUInt64.toNat % 2 ^ 32 ∧
      field (locationText id latitude longitude time ++ behind) 19 8 =
        LittleEndian.decode (behind.take 8) := by
  have id_fits : id.toUInt16.toNat % 256 ^ 2 = id.toUInt16.toNat :=
    Nat.mod_eq_of_lt id.toUInt16.toNat_lt
  have lat_fits : latitude.toNat % 256 ^ 4 = latitude.toNat := Nat.mod_eq_of_lt latitude.toNat_lt
  have text := locationText_eq id latitude longitude time
  generalize idBytes : toBytes 2 id.toUInt16.toNat = ids at text
  generalize latBytes : toBytes 4 latitude.toNat = lats at text
  generalize lonBytes : toBytes 4 longitude.toNat = lons at text
  generalize timeBytes : toBytes 8 time.toUInt64.toNat = times at text
  have id_width : ids.length = 2 := by rw [← idBytes, toBytes, LittleEndian.length_encode]
  have lat_width : lats.length = 4 := by rw [← latBytes, toBytes, LittleEndian.length_encode]
  have lon_width : lons.length = 4 := by rw [← lonBytes, toBytes, LittleEndian.length_encode]
  have time_width : times.length = 8 := by rw [← timeBytes, toBytes, LittleEndian.length_encode]
  refine ⟨?_, ?_, ?_, ?_⟩
  · have found := @field_encode [PacketType.LOCATION.toUInt8] (lats ++ lons ++ times ++ behind)
      2 2 id.toUInt16.toNat (Nat.le_refl 2)
    rw [idBytes, id_fits] at found
    rw [text]
    simpa using found
  · have found := @field_encode (PacketType.LOCATION.toUInt8 :: ids) (lons ++ times ++ behind)
      4 4 latitude.toNat (Nat.le_refl 4)
    rw [latBytes, lat_fits, List.length_cons, id_width] at found
    rw [text]
    simpa using found
  · have found := @field_encode (PacketType.LOCATION.toUInt8 :: (ids ++ lats ++ lons)) behind
      4 8 time.toUInt64.toNat (by decide)
    rw [timeBytes, List.length_cons, List.length_append, List.length_append, id_width, lat_width,
      lon_width] at found
    rw [text]
    simpa using found
  · have found := field_append (PacketType.LOCATION.toUInt8 :: (ids ++ lats ++ lons ++ times))
      behind 8
    rw [List.length_cons, List.length_append, List.length_append, List.length_append, id_width,
      lat_width, lon_width, time_width] at found
    rw [text]
    exact found

theorem location_agrees_iff (malformed : Bytes → String) (id : Int16)
    (latitude longitude : FloatBits) (time : Int64) (behind : Bytes)
    (whole : (locationText id latitude longitude time ++ behind).length = capacity) :
    LocationAgrees malformed id latitude longitude time behind ↔
      Coincides longitude time behind := by
  obtain ⟨id_eq, lat_eq, lon_eq, time_eq⟩ :=
    fields_locationText id latitude longitude time behind
  have first : PacketType.toPacketType
      ((locationText id latitude longitude time ++ behind).headD 0) = .LOCATION := by
    rw [locationText_eq]
    exact PacketType.toPacketType_toUInt8 .LOCATION
  rw [LocationAgrees, receiveFull_location _ first (by rw [whole]; decide), id_eq, lat_eq,
    lon_eq, time_eq]
  have short : (UInt16.ofNat id.toUInt16.toNat).toInt16 = id := by simp
  have lat : UInt32.ofNat latitude.toNat = latitude := by simp
  rw [short, lat]
  constructor
  · intro same
    simp only [Except.ok.injEq, Option.some.injEq, FullPacket.mk.injEq, Object.float.injEq,
      Object.long.injEq] at same
    obtain ⟨-, -, -, lon_same, time_same⟩ := same
    have eight : LittleEndian.decode (behind.take 8) < 2 ^ 64 := by
      have bound := LittleEndian.decode_lt (behind.take 8)
      have narrow : 256 ^ (behind.take 8).length ≤ 256 ^ 8 :=
        Nat.pow_le_pow_right (by decide) (List.length_take_le 8 behind)
      omega
    constructor
    · rw [← lon_same, UInt32.toNat_ofNat', Nat.mod_mod]
    · rw [← time_same, UInt64.toUInt64_toInt64, UInt64.toNat_ofNat', Nat.mod_eq_of_lt eight]
  · rintro ⟨lon_same, time_same⟩
    rw [← lon_same, time_same]
    simp

/-- On the meridian at the epoch, in an array that held nothing. -/
theorem location_agrees_iff_epoch :
    LocationAgrees (fun _ => "") 1 0x41200000 0 0 (List.replicate 1005 0) := by
  refine (location_agrees_iff (fun _ => "") 1 0x41200000 0 0 (List.replicate 1005 0) ?_).mpr ?_
  · rw [List.length_append, length_locationText, List.length_replicate, capacity]
  · exact ⟨by decide, by decide⟩

/-- A place east of the meridian, long after the epoch. -/
theorem location_disagrees :
    ¬ ∀ (id : Int16) (latitude longitude : FloatBits) (time : Int64) (behind : Bytes),
      (locationText id latitude longitude time ++ behind).length = capacity →
        LocationAgrees (fun _ => "") id latitude longitude time behind := by
  intro agrees
  have whole : (locationText 1 0x41200000 0x41a00000 1577836800 ++
      List.replicate 1005 0).length = capacity := by
    rw [List.length_append, length_locationText, List.length_replicate, capacity]
  have same := agrees 1 0x41200000 0x41a00000 1577836800 (List.replicate 1005 0) whole
  revert same
  rw [LocationAgrees, receiveFull_location _ (by decide) (by rw [whole]; decide)]
  decide

end Location

section NewFollowed

/-- Where a `std::string` has its characters, and the bytes of the object that are not
determined by its value. -/
structure Placement where
  address : Nat
  capacity : Nat := 15
  unused : Bytes := []

/-- The object of a `std::string`: a pointer, the length, and then up to fifteen characters or
the capacity. -/
def Placement.object (place : Placement) (name : Bytes) : Bytes :=
  let inner := if name.length ≤ 15 then name ++ [0] else toBytes 8 place.capacity
  toBytes 8 place.address ++ toBytes 8 name.length ++
    (inner ++ place.unused ++ List.replicate 16 0).take 16

/-- The payload of the `NEW_FOLLOWED` that `update` makes of a name in this place. -/
def followedPayload (place : Placement) (id : Int16) (name : Bytes) : Bytes :=
  (followedPacket { message := .Update, stringObject := place.object } (id, name)).buffer.bytes

theorem followedPayload_eq (place : Placement) (id : Int16) (name : Bytes) :
    followedPayload place id name = toBytes 2 id.toUInt16.toNat ++ place.object name := by
  rw [followedPayload, followedPacket, Packet.bytes_push, Packet.bytes_push]
  rfl

/-- The payload is the id and the name, and the client finds both in it. -/
structure Follows (malformed : Bytes → String) (place : Placement) (id : Int16)
    (name : Bytes) : Prop where
  payload : followedPayload place id name = toBytes 2 id.toUInt16.toNat ++ name
  recovered : ∀ text, Converter.stringToByte text = name →
    let sent := PacketType.NEW_FOLLOWED.toUInt8 :: followedPayload place id name
    ProtocolMessenger.receiveFull malformed (received sent) sent.length = .ok (some {
      type := .NEW_FOLLOWED
      arg1 := .short id
      arg2 := .string text })

theorem length_object (place : Placement) (name : Bytes) : (place.object name).length = 32 := by
  rw [Placement.object, List.length_append, List.length_append, List.length_take,
    List.length_append, List.length_replicate]
  simp only [toBytes, LittleEndian.length_encode]
  omega

/-- A string object starts with the address of its characters. -/
theorem take_object (place : Placement) (name : Bytes) :
    (place.object name).take 8 = toBytes 8 place.address := by
  rw [Placement.object, List.append_assoc]
  exact List.take_left' (LittleEndian.length_encode 8 place.address)

/-- The payload holds the name only if that is the object that holds it. -/
theorem Follows.coincidence {malformed : Bytes → String} {place : Placement} {id : Int16}
    {name : Bytes} (follows : Follows malformed place id name) :
    name.length = 32 ∧ name.take 8 = toBytes 8 place.address := by
  have same : place.object name = name := by
    have whole := follows.payload
    rw [followedPayload_eq] at whole
    exact List.append_cancel_left whole
  have wide := length_object place name
  have front := take_object place name
  rw [same] at wide front
  exact ⟨wide, front⟩

/-- No name is sent: of two places only one can be the name's first bytes. -/
theorem follows_never (malformed : Bytes → String) (id : Int16) (name : Bytes) :
    ¬ ∀ place, Follows malformed place id name := by
  intro follows
  have here := (follows { address := 0x10 }).coincidence.2
  have there := (follows { address := 0x20 }).coincidence.2
  rw [here] at there
  revert there
  decide

/-- The name `AB`, in an object on a stack. -/
theorem follows_nowhere :
    ¬ ∀ (id : Int16) (name : Bytes) (place : Placement), Follows (fun _ => "") place id name := by
  intro follows
  have wide := (follows 1 [65, 66] { address := 0x7ffd5a3c1b50 }).coincidence.1
  revert wide
  decide

/-- The client takes an id and a name out of the packet that should have been sent. -/
theorem receiveFull_newFollowed (malformed : Bytes → String) (id : Int16) (name : String)
    (behind : Bytes) :
    ProtocolMessenger.receiveFull malformed
      (PacketType.NEW_FOLLOWED.toUInt8 :: (toBytes 2 id.toUInt16.toNat ++
        Converter.stringToByte name) ++ behind)
      (3 + (Converter.stringToByte name).length) = .ok (some {
        type := .NEW_FOLLOWED
        arg1 := .short id
        arg2 := .string name }) := by
  have id_width : (toBytes 2 id.toUInt16.toNat).length = 2 := LittleEndian.length_encode 2 _
  have ids := copyRange_field [PacketType.NEW_FOLLOWED.toUInt8] (toBytes 2 id.toUInt16.toNat)
    (Converter.stringToByte name ++ behind)
  have names := copyRange_field (PacketType.NEW_FOLLOWED.toUInt8 :: toBytes 2 id.toUInt16.toNat)
    (Converter.stringToByte name) behind
  generalize array_eq : PacketType.NEW_FOLLOWED.toUInt8 :: (toBytes 2 id.toUInt16.toNat ++
    Converter.stringToByte name) ++ behind = array
  have as_ids : [PacketType.NEW_FOLLOWED.toUInt8] ++ toBytes 2 id.toUInt16.toNat ++
      (Converter.stringToByte name ++ behind) = array := by
    rw [← array_eq]
    simp
  have as_names : PacketType.NEW_FOLLOWED.toUInt8 :: toBytes 2 id.toUInt16.toNat ++
      Converter.stringToByte name ++ behind = array := by
    rw [← array_eq]
    simp
  have first : PacketType.toPacketType (array.headD 0) = .NEW_FOLLOWED := by
    rw [← array_eq]
    exact PacketType.toPacketType_toUInt8 .NEW_FOLLOWED
  rw [as_ids, List.length_singleton, id_width] at ids
  rw [as_names, List.length_cons, id_width] at names
  have wide : ¬ 3 + (Converter.stringToByte name).length < 3 := by omega
  have short : Converter.byteToShort (toBytes 2 id.toUInt16.toNat) = .ok id :=
    Converter.byteToShort_shortToByte id
  rw [ProtocolMessenger.receiveFull, first]
  simp only [ids, ok_bind, short, if_neg wide, Nat.add_sub_cancel_left, names,
    Converter.byteToString_stringToByte]
  rfl

end NewFollowed

section MyLocation

/-- The bytes of a `MY_LOCATION`. A float leaves half of its eight bytes as they were. -/
def myLocationText (lat lon dt : Int64) : Bytes :=
  PacketType.MY_LOCATION.toUInt8 ::
    (Converter.floatToByte (longToFloat lat) ++ List.replicate 4 0 ++
      (Converter.floatToByte (longToFloat lon) ++ List.replicate 4 0) ++ Converter.longToByte dt)

theorem bufferMyLocation_long (lat lon dt : Int64) (arg4 : Object) :
    FullPacket.bufferMyLocation
      { type := .MY_LOCATION, arg1 := .long lat, arg2 := .long lon, arg3 := .long dt, arg4 } =
      .ok (myLocationText lat lon dt) := rfl

/-- A `MY_LOCATION` that can be encoded has three `Long`s. -/
theorem getBuffer_myLocation {packet : FullPacket} {bytes : Bytes}
    (type : packet.type = .MY_LOCATION) (built : packet.getBuffer = .ok bytes) :
    ∃ lat lon dt, packet.arg1 = .long lat ∧ packet.arg2 = .long lon ∧ packet.arg3 = .long dt ∧
      bytes = myLocationText lat lon dt := by
  obtain ⟨kind, arg1, arg2, arg3, arg4⟩ := packet
  cases type
  change FullPacket.bufferMyLocation _ = _ at built
  cases arg1 with
  | long lat =>
      cases arg2 with
      | long lon =>
          cases arg3 with
          | long dt =>
              rw [bufferMyLocation_long] at built
              exact ⟨lat, lon, dt, rfl, rfl, rfl, (Except.ok.inj built).symm⟩
          | null | short | float | string | bytes => cases built
      | null | short | float | string | bytes => cases built
  | null | short | float | string | bytes => cases built

theorem length_tail_myLocationText (lat lon dt : Int64) :
    (myLocationText lat lon dt).tail.length = 24 := by
  simp [myLocationText, Converter.floatToByte, Converter.longToByte]

end MyLocation

end Java

section Reporting

variable {Key : Type} {lib : CryptoLibrary Key}

variable {turn : Turn} {life : Life Key} {frame : Bytes} {later : List Bytes}
  {m : CryptoModule Key}

/-- A `MY_LOCATION` of the wrong size closes the connection. -/
theorem serve_myLocation {payload : Bytes} (stage : life.client.stage = .StableCommunication)
    (message : turn.message = .PacketReceive) (inbound : turn.inbound = frame :: later)
    (plain : CryptoModule.decrypt lib frame life.client.cryptoModule =
      .ok (PacketType.MY_LOCATION.toUInt8 :: payload) m)
    (size : payload.length ≠ 16) :
    (serve lib turn life).acts =
      life.acts ++ [.read frame, .received .MY_LOCATION payload, .closed] := by
  obtain ⟨packet, parsed, type, bytes⟩ := Packet.ofBytes_cons PacketType.MY_LOCATION.toUInt8 payload
  rw [PacketType.toPacketType_toUInt8] at type
  have wrong : packet.buffer.size ≠ 16 := by
    rw [Buffer.size_eq, bytes]
    exact size
  rw [serve, recv, message]
  simp only [receiveData, Program.bind_run, Program.get_run, stage, stableCommunication,
    catching]
  rw [recvPacket_of_decrypt (by rw [inbound]; rfl) plain parsed]
  simp only [type, myLocation, if_pos wrong, closeConnection_run, settle, Life.ofResult, inbound]
  simp [logged, taken, withModule, bytes]

/-- The session reports the position of the packet, at the time that it names, and stays. -/
def Reports (packet : FullPacket) (now : Int) (before after : Life Key) : Prop :=
  ∃ lat lon dt log reply, packet.arg1 = .long lat ∧ packet.arg2 = .long lon ∧
    packet.arg3 = .long dt ∧ after.acts = before.acts ++ log ∧
    .called (.addPosition before.client.id (longToFloat lat) (longToFloat lon) (now - dt.toInt))
      reply ∈ log ∧
    .closed ∉ log

/-- Whatever position the client sends, the server does not take it and closes. -/
theorem my_location_never {packet : FullPacket} {bytes : Bytes}
    (type : packet.type = .MY_LOCATION) (built : packet.getBuffer = .ok bytes)
    (stage : life.client.stage = .StableCommunication)
    (message : turn.message = .PacketReceive) (inbound : turn.inbound = frame :: later)
    (plain : CryptoModule.decrypt lib frame life.client.cryptoModule = .ok bytes m) :
    ¬ Reports packet turn.now life (serve lib turn life) := by
  obtain ⟨lat, lon, dt, -, -, -, rfl⟩ := getBuffer_myLocation type built
  have size : (myLocationText lat lon dt).tail.length ≠ 16 := by
    rw [length_tail_myLocationText]
    decide
  have acts := serve_myLocation stage message inbound plain size
  rintro ⟨_, _, _, log, _, -, -, -, whole, -, stays⟩
  rw [acts] at whole
  have log_eq := List.append_cancel_left whole
  rw [← log_eq] at stays
  exact stays (by simp)

/-- A position of five seconds ago. -/
def northEast : FullPacket :=
  { type := .MY_LOCATION, arg1 := .long 52, arg2 := .long 21, arg3 := .long 5 }

/-- A registered session with that packet in its buffer. -/
def approached : Life Bytes := { client := Server.arrived [5] 0 1, acts := [] }

def approaching : Turn :=
  { message := .PacketReceive, now := 1600000000, inbound := [[7] ++ myLocationText 52 21 5] }

theorem my_location_never_northEast :
    ¬ Reports northEast 1600000000 approached (serve Server.keyring approaching approached) :=
  my_location_never rfl rfl rfl rfl rfl rfl

theorem northEast_lost :
    ¬ ∀ (packet : FullPacket) (bytes : Bytes), packet.type = .MY_LOCATION →
      packet.getBuffer = .ok bytes →
        Reports packet 1600000000 approached (serve Server.keyring
          { approaching with inbound := [[7] ++ bytes] } approached) := by
  intro reports
  obtain ⟨_, _, _, log, _, -, -, -, whole, -, stays⟩ :=
    reports northEast (myLocationText 52 21 5) rfl rfl
  have size : (myLocationText 52 21 5).tail.length ≠ 16 := by
    rw [length_tail_myLocationText]
    decide
  rw [serve_myLocation rfl rfl rfl rfl size] at whole
  rw [← List.append_cancel_left whole] at stays
  exact stays (by simp)

end Reporting

end Locus
