import Locus.ClientDataManagerNews
import Locus.ProtocolClientStep

set_option autoImplicit false

/- What myLocation stores of the sixteen bytes of a MY_LOCATION. -/
namespace Locus.ProtocolClient

open Program ClientDataManager

variable {Key : Type}

/-- The position that the session's client is at after a `MY_LOCATION`. -/
def stored (turn : Turn) (packet : Packet) (s : Session Key) : Option Position :=
  (finalState (myLocation turn packet s)).database.manager.lastPosition s.client.id

/-- The position that the bytes of a payload say. -/
def reported (now : Int) (payload : Bytes) : Position where
  latitude := toFloat (payload.take 4)
  longitude := toFloat ((payload.drop 4).take 4)
  time := now - toTime (payload.drop 8)

/-- All of the payload is decoded, whatever the memory of `deltaTime` held. -/
def DecodesAll (turn : Turn) (packet : Packet) (s : Session Key) : Prop :=
  ∀ stale : Bytes, stale.length = 8 →
    stored { turn with stale } packet s = some (reported turn.now packet.buffer.bytes)

/-- What is stored depends on the payload and the clock only. -/
def ClockOnly (turn : Turn) (packet : Packet) (s : Session Key) : Prop :=
  ∀ one other : Bytes, one.length = 8 → other.length = 8 →
    stored { turn with stale := one } packet s = stored { turn with stale := other } packet s

section Stored

variable {turn : Turn} {packet : Packet} {s : Session Key}

/-- The position that the first twelve bytes of a payload and the old bytes say. -/
def mixed (turn : Turn) (payload : Bytes) : Position :=
  { reported turn.now payload with
    time := turn.now - toTime ((payload.drop 8).take 4 ++ turn.stale.drop 4) }

/-- The call that stores it. -/
def located (turn : Turn) (id : Int16) (payload : Bytes) : ClientDataManager.Op :=
  .addPosition id (mixed turn payload).latitude (mixed turn payload).longitude
    (mixed turn payload).time

/-- With sixteen bytes the three pops return, and the manager is asked. -/
theorem myLocation_run (sixteen : packet.buffer.bytes.length = 16) :
    myLocation turn packet s = (do
      let _ ← manager (located turn s.client.id packet.buffer.bytes)
      pure ()) s := by
  have whole : ¬ packet.buffer.size ≠ 16 := by
    rw [Buffer.size_eq, sixteen]
    exact not_not_intro rfl
  obtain ⟨first, popped, rest, -⟩ :=
    Buffer.popN_spec (show 4 ≤ packet.buffer.bytes.length by omega)
  have second_inside : 4 ≤ first.bytes.length := by
    rw [rest, List.length_drop]
    omega
  obtain ⟨second, popped', rest', -⟩ := Buffer.popN_spec second_inside
  have third_inside : 4 ≤ second.bytes.length := by
    rw [rest', rest, List.length_drop, List.length_drop]
    omega
  obtain ⟨third, popped'', -⟩ := Buffer.popN_spec third_inside
  have four : ((packet.buffer.bytes.drop 8).take 4).length = 4 := by
    rw [List.length_take, List.length_drop, sixteen]
    rfl
  rw [rest', rest, List.drop_drop] at popped''
  rw [rest] at popped'
  simp only [myLocation, if_neg whole, popped, popped', popped'', bind_run, ofExcept_ok_run,
    get_run, fromBytes, four, located, mixed, reported]

/-- What the manager is left as, also where it throws. -/
theorem myLocation_database (sixteen : packet.buffer.bytes.length = 16) :
    (finalState (myLocation turn packet s)).database =
      finalState (ClientDataManager.run (located turn s.client.id packet.buffer.bytes)
        s.database) := by
  rw [myLocation_run sixteen, bind_run, manager]
  cases ClientDataManager.run (located turn s.client.id packet.buffer.bytes) s.database with
  | ok reply database => rfl
  | error fault database => rfl

theorem silent_database {call : ManagerM Unit} {database : Database} :
    finalState ((do call; return Reply.none : ManagerM Reply) database) =
      finalState (call database) := by
  rw [bind_run]
  cases call database with
  | ok value after => rfl
  | error fault after => rfl

/-- Twelve bytes are decoded, and the time takes its upper half from what was there. -/
theorem stored_eq (sixteen : packet.buffer.bytes.length = 16)
    (registered : (s.database.manager.clientsData s.client.id).isSome) :
    stored turn packet s = some (mixed turn packet.buffer.bytes) := by
  obtain ⟨data, present⟩ := Option.isSome_iff_exists.mp registered
  have kept : (finalState (myLocation turn packet s)).database.manager = _ :=
    (congrArg Database.manager ((myLocation_database sixteen).trans silent_database)).trans
      (addPosition_manager _ _ _ present)
  rw [stored, kept, lastPosition, KeyMap.view_modify_self _ _ _ present, ClientData.addPosition,
    List.getLast?_concat]

/-- Without a record there is no position. -/
theorem stored_of_unregistered (sixteen : packet.buffer.bytes.length = 16)
    (absent : s.database.manager.clientsData s.client.id = none) :
    stored turn packet s = none := by
  have failed : ClientDataManager.run (located turn s.client.id packet.buffer.bytes) s.database =
      .error .undefinedBehaviour s.database := by
    simp only [located, ClientDataManager.run, ClientDataManager.addPosition, editClient,
      ClientDataManager.client, bind_run, get_run, absent, throw_run]
  rw [stored, myLocation_run sixteen, bind_run, manager_error failed]
  exact KeyMap.view_of_none _ _ absent

/-- Two times of the same low half are the same only if they have the same high half. -/
theorem toTime_append_inj {low one other : Bytes} (low_wide : low.length = 4)
    (one_wide : one.length = 4) (other_wide : other.length = 4)
    (same : toTime (low ++ one) = toTime (low ++ other)) : one = other := by
  have fits (high : Bytes) (wide : high.length = 4) :
      LittleEndian.decode (low ++ high) < 2 ^ 64 := by
    have small := LittleEndian.decode_lt (low ++ high)
    rw [List.length_append, low_wide, wide] at small
    exact small
  have numbers := congrArg BitVec.toNat (BitVec.eq_of_toInt_eq same)
  rw [BitVec.toNat_ofNat, BitVec.toNat_ofNat, Nat.mod_eq_of_lt (fits one one_wide),
    Nat.mod_eq_of_lt (fits other other_wide)] at numbers
  have wide : (low ++ one).length = (low ++ other).length := by
    rw [List.length_append, List.length_append, one_wide, other_wide]
  exact List.append_cancel_left (LittleEndian.decode_inj wide numbers)

/-- A run stores the position of the payload exactly when the old bytes of `deltaTime`
were already the ones that it does not read. -/
theorem stored_eq_reported_iff (sixteen : packet.buffer.bytes.length = 16)
    (registered : (s.database.manager.clientsData s.client.id).isSome)
    (wide : turn.stale.length = 8) :
    stored turn packet s = some (reported turn.now packet.buffer.bytes) ↔
      turn.stale.drop 4 = packet.buffer.bytes.drop 12 := by
  have split : packet.buffer.bytes.drop 8 =
      (packet.buffer.bytes.drop 8).take 4 ++ packet.buffer.bytes.drop 12 := by
    have cut := (List.take_append_drop 4 (packet.buffer.bytes.drop 8)).symm
    rwa [List.drop_drop] at cut
  rw [stored_eq sixteen registered, Option.some.injEq]
  constructor
  · intro same
    have times : turn.now - toTime ((packet.buffer.bytes.drop 8).take 4 ++ turn.stale.drop 4) =
        turn.now - toTime (packet.buffer.bytes.drop 8) := congrArg Position.time same
    have whole := congrArg toTime split
    apply @toTime_append_inj ((packet.buffer.bytes.drop 8).take 4)
    · rw [List.length_take, List.length_drop, sixteen]
      rfl
    · rw [List.length_drop, wide]
    · rw [List.length_drop, sixteen]
    · omega
  · intro same
    rw [mixed, reported, same, ← split]

end Stored

/-- No location is decoded to its end, and the one that is stored depends on the old bytes
wherever there is a record to store it in. -/
theorem location_half_decoded (turn : Turn) (packet : Packet) (s : Session Key)
    (sixteen : packet.buffer.bytes.length = 16) :
    ¬ DecodesAll turn packet s ∧
      (ClockOnly turn packet s ↔ s.database.manager.clientsData s.client.id = none) := by
  -- the unread bytes of `deltaTime` have more than one value, and one payload has only one
  have apart : (List.replicate 8 0 : Bytes).drop 4 ≠ (List.replicate 8 255 : Bytes).drop 4 := by
    decide
  cases present : s.database.manager.clientsData s.client.id with
  | none =>
      constructor
      · intro decodes
        have stays := decodes (List.replicate 8 0) rfl
        rw [stored_of_unregistered sixteen present] at stays
        cases stays
      · apply iff_of_true
        · intro one other _ _
          rw [stored_of_unregistered sixteen present, stored_of_unregistered sixteen present]
        · rfl
  | some data =>
      have registered : (s.database.manager.clientsData s.client.id).isSome := by
        rw [present, Option.isSome_some]
      constructor
      · intro decodes
        have low := (stored_eq_reported_iff sixteen registered rfl).mp
          (decodes (List.replicate 8 0) rfl)
        have high := (stored_eq_reported_iff sixteen registered rfl).mp
          (decodes (List.replicate 8 255) rfl)
        exact apart (low.trans high.symm)
      · apply iff_of_false
        · intro same
          -- a run whose old bytes are those of the payload stores the payload
          have lucky : (packet.buffer.bytes.drop 8).length = 8 := by
            rw [List.length_drop, sixteen]
          have whole (stale : Bytes) (wide : stale.length = 8) :
              stale.drop 4 = packet.buffer.bytes.drop 12 := by
            apply (@stored_eq_reported_iff _ { turn with stale } _ _ sixteen registered wide).mp
            rw [same stale (packet.buffer.bytes.drop 8) wide lucky]
            apply (stored_eq_reported_iff sixteen registered lucky).mpr
            rw [List.drop_drop]
          exact apart ((whole _ rfl).trans (whole _ rfl).symm)
        · intro absent
          cases absent

/-- A client that is registered under 1. -/
def settled : Session Unit where
  client :=
    { cryptoModule :=
        { rsaServerCrypto := { publicKey := (), encryptor := () }
          rsaSimpleCrypto := { publicKey := (), encryptor := () }
          aesKey := [] }
      blockingQueue := 0
      stage := .StableCommunication
      id := 1 }
  database := { manager := { clientsData := KeyMap.insert .empty 1 {} } }

/-- The packet of a client that is at the origin now. -/
def origin : Packet := Packet.push { type := .MY_LOCATION } (List.replicate 16 0)

theorem location_half_decoded_origin :
    ¬ DecodesAll { message := .PacketReceive } origin settled ∧
      (ClockOnly { message := .PacketReceive } origin settled ↔
        settled.database.manager.clientsData settled.client.id = none) :=
  location_half_decoded { message := .PacketReceive } origin settled (by decide)

/-- Old bytes of ones put the client 2 ^ 32 seconds ahead of the time it says. -/
theorem origin_ahead :
    ¬ DecodesAll { message := .PacketReceive } origin settled ∧
      ¬ ClockOnly { message := .PacketReceive } origin settled := by
  constructor
  · intro decodes
    have same := decodes (List.replicate 8 255) rfl
    revert same
    decide
  · intro clock
    have same := clock (List.replicate 8 255) (List.replicate 8 0) rfl rfl
    revert same
    decide

end Locus.ProtocolClient
