import Locus.WireFormats

set_option autoImplicit false

/- Names in packets: the array that the client copies a name into, and the entry of
clientsName that the server asks for. -/
namespace Locus

open Java ProtocolClient Program

/-- The packets that hold a name and nothing else. -/
def PacketType.isNamed : PacketType → Bool
  | .SET_NAME | .ADD_FOLLOWER | .REMOVE_FOLLOWER | .REMOVE_FOLLOWED => true
  | _ => false

/-- Every character of a string is one of ASCII. -/
def Ascii (name : String) : Prop := ∀ c ∈ name.toList, c.toNat < 128

/-- The entry of `clientsName` that a call asks for. -/
def entry : Act → Option Bytes
  | .called (.setName _ name) _ => some name
  | .called (.getNameId name) _ => some name
  | _ => none

def entries (acts : List Act) : List Bytes := acts.filterMap entry

/-- The packet is the type and the name, and the session that it comes to takes the name
out of it and asks for its entry. -/
structure Named {Key : Type} (lib : CryptoLibrary Key) (packet : FullPacket) (name : String) :
    Prop where
  built : packet.getBuffer = .ok (packet.type.toUInt8 :: Converter.stringToByte name)
  popped : ∀ bytes, packet.getBuffer = .ok bytes →
    ∃ received after, Packet.ofBytes bytes = .ok received ∧ received.type = packet.type ∧
      received.buffer.popAll = .ok (Converter.stringToByte name, after)
  addressed : ∀ bytes, packet.getBuffer = .ok bytes →
    ∀ (turn : Turn) (life : Life Key) (frame : Bytes) (later : List Bytes) (m : CryptoModule Key),
      life.client.stage = .StableCommunication → turn.message = .PacketReceive →
      turn.inbound = frame :: later →
      CryptoModule.decrypt lib frame life.client.cryptoModule = .ok bytes m →
        entries (serve lib turn life).acts =
          entries life.acts ++ [Converter.stringToByte name]

namespace Java

/-- The bytes of a string are those of its characters. -/
theorem stringToByte_eq (name : String) :
    Converter.stringToByte name = name.toList.flatMap String.utf8EncodeChar := by
  rw [Converter.stringToByte, String.toUTF8_eq_toByteArray, ← String.utf8Encode_toList,
    List.utf8Encode, List.toList_data_toByteArray]

/-- A character takes as many bytes as units, or more if it is not in ASCII. -/
theorem units_cases (c : Char) :
    (c.toNat < 128 ∧ (if c.val < 0x10000 then 1 else 2) = c.utf8Size) ∨
      (¬ c.toNat < 128 ∧ (if c.val < 0x10000 then 1 else 2) < c.utf8Size) := by
  rw [Char.utf8Size]
  simp only [Char.toNat, UInt32.lt_iff_toNat_lt, UInt32.le_iff_toNat_le]
  split <;> split <;> simp_all <;> grind

/-- A string has as many units as bytes if all are in ASCII, and fewer if it is not. -/
theorem stringLength_cases (name : String) :
    (Ascii name ∧ stringLength name = (Converter.stringToByte name).length) ∨
      (¬ Ascii name ∧ stringLength name < (Converter.stringToByte name).length) := by
  rw [stringToByte_eq, stringLength, Ascii]
  induction name.toList with
  | nil => exact .inl ⟨fun c member => (List.not_mem_nil member).elim, rfl⟩
  | cons c rest ih =>
      simp only [List.map_cons, List.sum_cons, List.flatMap_cons, List.length_append,
        String.length_utf8EncodeChar, List.forall_mem_cons]
      rcases units_cases c with ⟨low, same⟩ | ⟨high, fewer⟩
      · rcases ih with ⟨ascii, whole⟩ | ⟨other, short⟩
        · exact .inl ⟨⟨low, ascii⟩, by omega⟩
        · exact .inr ⟨fun both => other both.2, by omega⟩
      · apply Or.inr
        refine ⟨fun both => high both.1, ?_⟩
        rcases ih with ⟨_, whole⟩ | ⟨_, short⟩ <;> omega

/-- A name with other characters does not fit the array. -/
theorem bufferSizeName_of_string {packet : FullPacket} {name : String}
    (arg : packet.arg1 = .string name) :
    packet.bufferSizeName =
      if (Converter.stringToByte name).length ≤ stringLength name then
        .ok (packet.type.toUInt8 :: Converter.stringToByte name ++
          List.replicate (stringLength name - (Converter.stringToByte name).length) 0)
      else .error .runtime := by
  have array : (packet.type.toUInt8 :: List.replicate (1 + stringLength name - 1) 0).length =
      1 + stringLength name := by
    rw [List.length_cons, List.length_replicate]
    omega
  rw [FullPacket.bufferSizeName, arg, Object.toString, ok_bind, FullPacket.fields]
  simp only [List.foldlM_cons, List.foldlM_nil, arraycopy, array]
  by_cases fits : (Converter.stringToByte name).length ≤ stringLength name
  · rw [if_pos fits, if_pos (by omega)]
    simp only [ok_bind, pure, Except.pure, Nat.add_sub_cancel, List.take_succ_cons,
      List.take_zero, Nat.add_comm 1, List.drop_succ_cons, List.drop_replicate,
      List.cons_append, List.nil_append]
  · rw [if_neg fits, if_neg (by omega)]
    rfl

theorem getBuffer_named {packet : FullPacket} (named : packet.type.isNamed = true) :
    packet.getBuffer = packet.bufferSizeName := by
  rw [FullPacket.getBuffer]
  cases type : packet.type <;> rw [type] at named <;> first | rfl | cases named

/-- The client encodes the names in ASCII and no others. -/
theorem getBuffer_name_iff {packet : FullPacket} {name : String}
    (named : packet.type.isNamed = true) (arg : packet.arg1 = .string name) :
    packet.getBuffer = .ok (packet.type.toUInt8 :: Converter.stringToByte name) ↔ Ascii name := by
  rw [getBuffer_named named, bufferSizeName_of_string arg]
  rcases stringLength_cases name with ⟨ascii, same⟩ | ⟨other, short⟩
  · rw [if_pos same.ge, same, Nat.sub_self, List.replicate_zero, List.append_nil]
    exact iff_of_true rfl ascii
  · rw [if_neg (by omega)]
    exact iff_of_false (fun impossible => nomatch impossible) other

end Java

namespace ProtocolClient

variable {Key : Type} {lib : CryptoLibrary Key} {s : Session Key}

/-- Nothing is asked of the names between two states. -/
def Unasked (before after : Session Key) : Prop := entries after.acts = entries before.acts

theorem Unasked.refl (s : Session Key) : Unasked s s := rfl

theorem Unasked.trans {first second third : Session Key} (left : Unasked first second)
    (right : Unasked second third) : Unasked first third := Eq.trans right left

theorem entries_logged (s : Session Key) (logs : List Act) :
    entries (logged s logs).acts = entries s.acts ++ entries logs := List.filterMap_append

theorem unasked_logged {act : Act} (silent : entry act = none) : Unasked s (logged s [act]) := by
  have none_asked : entries [act] = [] := by
    rw [entries, List.filterMap_cons, silent, List.filterMap_nil]
  rw [Unasked, entries_logged, none_asked, List.append_nil]

theorem closeConnection_unasked : Keeps Unasked (closeConnection : SessionM Key Unit) := by
  intro s
  exact unasked_logged rfl

theorem sendPacket_unasked (lib : CryptoLibrary Key) (packet : Packet) :
    Keeps Unasked (sendPacket lib packet) := by
  intro s
  obtain ⟨m, _, ⟨fault, failed⟩ | ⟨frame, _, sent⟩⟩ := sendPacket_spec lib packet s
  · rw [KeepsAt, failed]
    exact .refl s
  · rw [KeepsAt, sent]
    exact @unasked_logged _ (withModule s m) _ rfl

/-- A call of the manager asks for its entry, whether it returns or not. -/
theorem manager_acts (op : ClientDataManager.Op) (s : Session Key) :
    ∃ reply, (finalState (manager op s)).acts = s.acts ++ [.called op reply] := by
  cases ran : ClientDataManager.run op s.database with
  | ok reply database => exact ⟨some reply, by rw [manager_ok ran]; rfl⟩
  | error fault database => exact ⟨none, by rw [manager_error ran]; rfl⟩

theorem manager_unasked {op : ClientDataManager.Op}
    (silent : ∀ reply, entry (.called op reply) = none) :
    Keeps Unasked (manager op : SessionM Key ClientDataManager.Reply) := by
  intro s
  obtain ⟨reply, acts⟩ := manager_acts op s
  rw [KeepsAt, Unasked, acts, entries, List.filterMap_append, List.filterMap_cons, silent,
    List.filterMap_nil, List.append_nil]
  rfl

/-- A call that asks for one entry asks for that one only, whatever follows. -/
theorem asked_bind {op : ClientDataManager.Op} {name : Bytes}
    (asks : ∀ reply, entry (.called op reply) = some name)
    {rest : ClientDataManager.Reply → SessionM Key Unit}
    (silent : ∀ reply, Keeps Unasked (rest reply)) (s : Session Key) :
    entries (finalState ((manager op >>= rest) s)).acts = entries s.acts ++ [name] := by
  obtain ⟨reply, acts⟩ := manager_acts op s
  have own : entries (finalState (manager op s)).acts = entries s.acts ++ [name] := by
    rw [acts, entries, List.filterMap_append, List.filterMap_cons, asks, List.filterMap_nil]
    rfl
  rw [bind_run]
  cases ran : manager op s with
  | ok value middle =>
      rw [ran] at own
      exact Eq.trans (silent value middle) own
  | error fault middle =>
      rw [ran] at own
      exact own

theorem setName_asks {packet : Packet} {name : Bytes} {after : Buffer}
    (popped : packet.buffer.popAll = .ok (name, after)) (s : Session Key) :
    entries (finalState (setName lib packet s)).acts = entries s.acts ++ [name] := by
  simp only [setName, popped, bind_of_ok (ofExcept_ok_run _ s), bind_of_ok (get_run s)]
  apply asked_bind
  · exact fun _ => rfl
  · intro reply
    split
    · exact sendPacket_unasked lib _
    · exact sendPacket_unasked lib _

theorem callNamed_asks {call : Int16 → Int16 → ClientDataManager.Op} {packet : Packet}
    {name : Bytes} {after : Buffer}
    (silent : ∀ id other reply, entry (.called (call id other) reply) = none)
    (popped : packet.buffer.popAll = .ok (name, after)) (s : Session Key) :
    entries (finalState (callNamed call packet s)).acts = entries s.acts ++ [name] := by
  simp only [callNamed, popped, bind_of_ok (ofExcept_ok_run _ s)]
  apply asked_bind
  · exact fun _ => rfl
  · intro reply
    split
    · exact .bind .trans (.get .refl) fun _ =>
        .bind .trans (manager_unasked (silent _ _)) fun _ => .pure .refl _
    · exact .pure .refl _

/-- The end of a session asks for nothing. -/
theorem entries_catching (body : SessionM Key Unit) (s : Session Key) :
    entries (finalState (catching body closeConnection s)).acts =
      entries (finalState (body s)).acts := by
  rw [catching]
  cases body s with
  | ok value after => rfl
  | error fault after =>
      cases fault with
      | exception what => exact closeConnection_unasked after
      | undefinedBehaviour | nonTermination => rfl

/-- A turn with a name in its packet asks for the entry of that name, and for no other. -/
theorem serve_asks {turn : Turn} {life : Life Key} {frame : Bytes} {later : List Bytes}
    {m : CryptoModule Key} {type : PacketType} {name : Bytes} (named : type.isNamed = true)
    (stage : life.client.stage = .StableCommunication)
    (message : turn.message = .PacketReceive) (inbound : turn.inbound = frame :: later)
    (plain : CryptoModule.decrypt lib frame life.client.cryptoModule =
      .ok (type.toUInt8 :: name) m) :
    entries (serve lib turn life).acts = entries life.acts ++ [name] := by
  obtain ⟨packet, parsed, type_eq, bytes⟩ := Packet.ofBytes_cons type.toUInt8 name
  rw [PacketType.toPacketType_toUInt8] at type_eq
  obtain ⟨rest, popped, -⟩ := packet.buffer.popAll_spec
  rw [bytes] at popped
  have received : recvPacket lib (life.session turn) = .ok packet
      (logged (withModule (taken (life.session turn)) m)
        [.received packet.type packet.buffer.bytes]) :=
    recvPacket_of_decrypt (by rw [Life.session, inbound]; rfl) plain parsed
  generalize taken_eq : logged (withModule (taken (life.session turn)) m)
    [.received packet.type packet.buffer.bytes] = s at received
  have silent : entries s.acts = entries life.acts := by
    rw [← taken_eq]
    simp [entries, logged, withModule, taken, Life.session, entry]
  have staged : (life.session turn).client.stage = .StableCommunication := stage
  rw [serve, (ofResult_final _ _).2]
  change entries (finalState (recv lib turn (life.session turn))).acts = _
  simp only [recv, message, receiveData, bind_of_ok (get_run _), staged, stableCommunication,
    entries_catching, bind_of_ok received, type_eq, ← silent]
  cases type with
  | SET_NAME => exact setName_asks popped s
  | ADD_FOLLOWER | REMOVE_FOLLOWER | REMOVE_FOLLOWED =>
      exact callNamed_asks (fun _ _ _ => rfl) popped s
  | _ => cases named

end ProtocolClient

section Named

variable {Key : Type}

/-- The names that arrive, and that all clients mean alike, are those in ASCII. -/
theorem named_iff (lib : CryptoLibrary Key) {packet : FullPacket} {name : String}
    (named : packet.type.isNamed = true) (arg : packet.arg1 = .string name) :
    Named lib packet name ↔ Ascii name := by
  constructor
  · intro carried
    exact (getBuffer_name_iff named arg).mp carried.built
  · intro ascii
    have built := (getBuffer_name_iff named arg).mpr ascii
    constructor
    · exact built
    · intro bytes same
      cases built.symm.trans same
      obtain ⟨received, parsed, type, payload⟩ :=
        Packet.ofBytes_cons packet.type.toUInt8 (Converter.stringToByte name)
      rw [PacketType.toPacketType_toUInt8] at type
      obtain ⟨after, popped, -⟩ := received.buffer.popAll_spec
      rw [payload] at popped
      exact ⟨received, after, parsed, type, popped⟩
    · intro bytes same turn life frame later m stage message inbound plain
      cases built.symm.trans same
      exact serve_asks named stage message inbound plain

/-- A name of three letters. -/
theorem named_iff_ala :
    Named Server.keyring { type := .SET_NAME, arg1 := .string "Ala" } "Ala" := by
  apply (named_iff Server.keyring rfl rfl).mpr
  rw [Ascii, show "Ala".toList = ['A', 'l', 'a'] from rfl]
  intro c member
  simp only [List.mem_cons, List.not_mem_nil, or_false] at member
  rcases member with rfl | rfl | rfl <;> decide

/-- The letter `é` is one unit and two bytes. -/
theorem accent_not_named :
    ¬ ∀ name, Named Server.keyring { type := .SET_NAME, arg1 := .string name } name := by
  intro named
  have ascii := (getBuffer_name_iff rfl rfl).mp (named "é").built
  rw [Ascii, show "é".toList = ['é'] from rfl] at ascii
  exact absurd (ascii 'é' (List.mem_singleton.mpr rfl)) (by decide)

end Named

end Locus
