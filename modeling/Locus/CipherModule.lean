import Locus.CryptoModule
import Locus.Packet

set_option autoImplicit false

/- The client's CipherModule, its packets, and the messengers behind its LayerManager. -/
namespace Locus

/-- The algorithm and the key that a frame was encrypted with. -/
inductive Seal (Key : Type) where
  | plain
  | serverPublic
  /-- The public key that the server was given. -/
  | outer (key : Key)
  | session (key : Bytes)
  deriving DecidableEq, Repr

/-- The algorithm and the key that a frame is decrypted with. -/
inductive Opening where
  | plain
  | serverPrivate
  | clientPrivate
  | session (key : Bytes)
  deriving DecidableEq, Repr

/-- The pairs of ciphers that undo each other, for a client with this public key. -/
inductive Counterpart {Key : Type} (clientKey : Key) : Seal Key → Opening → Prop
  | plain : Counterpart clientKey .plain .plain
  | server : Counterpart clientKey .serverPublic .serverPrivate
  | client : Counterpart clientKey (.outer clientKey) .clientPrivate
  | session {key : Bytes} (width : key.length = 16) :
      Counterpart clientKey (.session key) (.session key)

namespace Java

/-- `badPadding` stands for `BadPaddingException` and `IllegalBlockSizeException`, `checked`
for the others that a method has to declare. -/
inductive Exception where
  | badPadding
  | checked
  | runtime
  deriving DecidableEq, Repr

/-- What the client uses of its library and of its key files. A cipher that fails returns
nothing, and one that draws random numbers takes the number of the draw. -/
structure Library where
  publicKey : Bytes
  encryptServerPublic : Nat → Bytes → Option Bytes
  decryptClientPrivate : Bytes → Option Bytes
  encryptSession : Bytes → Bytes → Option Bytes
  decryptSession : Bytes → Bytes → Option Bytes

/-- A packet, with those of its arguments that `getBuffer` reads, as bytes. -/
structure Packet where
  type : PacketType
  arg : Bytes := []
  deriving DecidableEq, Repr

/-- A string is copied into an array of as many bytes as it has characters, so a name with
a byte outside ASCII does not fit. -/
def bufferName (type : PacketType) (arg name : Bytes) : Except Exception Bytes :=
  if name.all (· < 128) then .ok (type.toUInt8 :: arg) else .error .runtime

/-- Nothing sets the arguments of a `MY_LOCATION`, and those of a `LOCATION` cannot be cast. -/
def Packet.getBuffer (packet : Packet) : Except Exception Bytes :=
  match packet.type with
  | .ALIVE | .CLOSE | .OPEN | .ACK_ERR | .ACK_OK | .OPEN_ENCR | .OPEN_PROT =>
      .ok [packet.type.toUInt8]
  | .PUBLIC_KEY | .SYMMETRIC_KEY | .TEST_KEY => .ok (packet.type.toUInt8 :: packet.arg)
  | .SET_NAME | .ADD_FOLLOWER | .REMOVE_FOLLOWER | .REMOVE_FOLLOWED =>
      bufferName packet.type packet.arg packet.arg
  | .NEW_FOLLOWED => bufferName packet.type packet.arg (packet.arg.drop 2)
  | .MY_LOCATION | .LOCATION | .UNDEFINED => .error .runtime

/-- `CipherModule.State`. -/
inductive CipherModule.State where
  | SERVER_PUBLIC
  | CLIENT_PRIVATE_SERVER_PUBLIC
  | SESSION
  deriving DecidableEq, Repr

/-- The static fields of `CipherModule`. A cipher object is the key it was initialized with. -/
structure CipherModule where
  clientCiphers : Bool := false
  serverCiphers : Bool := false
  sessionKey : Option Bytes := none
  sessionCiphers : Option Bytes := none
  state : Option CipherModule.State := none
  deriving DecidableEq, Repr

namespace CipherModule

/-- The cipher object that `encrypt` takes. -/
def encryptor (Key : Type) (module : CipherModule) : Option (Seal Key) :=
  match module.state with
  | some .SERVER_PUBLIC | some .CLIENT_PRIVATE_SERVER_PUBLIC =>
      if module.serverCiphers then some .serverPublic else none
  | some .SESSION => module.sessionCiphers.map .session
  | none => none

/-- The cipher object that `decrypt` takes. -/
def decryptor (module : CipherModule) : Option Opening :=
  match module.state with
  | some .CLIENT_PRIVATE_SERVER_PUBLIC =>
      if module.clientCiphers then some .clientPrivate else none
  | some .SESSION => module.sessionCiphers.map .session
  | some .SERVER_PUBLIC | none => none

def doFinal (outcome : Option Bytes) : Except Exception Bytes :=
  match outcome with
  | some bytes => .ok bytes
  | none => .error .badPadding

theorem doFinal_ok {outcome : Option Bytes} {bytes : Bytes}
    (returned : doFinal outcome = .ok bytes) : outcome = some bytes := by
  cases outcome with
  | none => cases returned
  | some found =>
      cases returned
      rfl

def encrypt (java : Library) (module : CipherModule) (draw : Nat) (buffer : Bytes) :
    Except Exception Bytes :=
  match module.encryptor Unit with
  | some .serverPublic => doFinal (java.encryptServerPublic draw buffer)
  | some (.session key) => doFinal (java.encryptSession key buffer)
  | _ => .error .runtime

def decrypt (java : Library) (module : CipherModule) (buffer : Bytes) : Except Exception Bytes :=
  match module.decryptor with
  | some .clientPrivate => doFinal (java.decryptClientPrivate buffer)
  | some (.session key) => doFinal (java.decryptSession key buffer)
  | _ => .error .runtime

end CipherModule

/-- `System.arraycopy` of a whole array. -/
def arraycopy (source target : Bytes) (offset : Nat) : Except Exception Bytes :=
  if offset + source.length ≤ target.length then
    .ok (target.take offset ++ source ++ target.drop (offset + source.length))
  else .error .runtime

/-- The arrays that frames are built and received in. -/
def capacity : Nat := 1024

/-- The frame that `SimpleMessenger.send` writes. -/
def SimpleMessenger.send (buffer : Bytes) (n : Nat) : Except Exception Bytes :=
  if n ≤ buffer.length then .ok (buffer.take n) else .error .runtime

def SimpleMessenger.receive (frame : Bytes) : Except Exception (Option Packet) :=
  match PacketType.toPacketType (frame.headD 0) with
  | .OPEN => .ok (some { type := .OPEN })
  | .CLOSE => .ok (some { type := .CLOSE })
  | .ACK_ERR => .ok (some { type := .ACK_ERR })
  | .ACK_OK => .ok (some { type := .ACK_OK })
  | .ALIVE => .ok (some { type := .ALIVE })
  | .OPEN_ENCR => .ok (some { type := .OPEN_ENCR })
  | .UNDEFINED => .error .runtime
  | _ => .ok none

namespace EncryptedMessenger

/-- The loop of `send`. What was encrypted before a cipher fails is sent. -/
def sendBlocks (java : Library) (module : CipherModule) (draw : Nat) :
    (turns counter : Nat) → (buffer message : Bytes) → Except Exception Bytes
  | _, counter, [], message => SimpleMessenger.send message (counter * 128)
  | 0, counter, _ :: _, message => SimpleMessenger.send message (counter * 128)
  | turns + 1, counter, byte :: bytes, message =>
      match module.encrypt java (draw + counter) ((byte :: bytes).take 53) with
      | .ok temp =>
          match arraycopy temp message (counter * 128) with
          | .ok message =>
              sendBlocks java module draw turns (counter + 1) ((byte :: bytes).drop 53) message
          | .error exception => .error exception
      | .error .badPadding => SimpleMessenger.send message (counter * 128)
      | .error exception => .error exception

def send (java : Library) (module : CipherModule) (draw : Nat) (buffer : Bytes) :
    Except Exception Bytes :=
  if module.state ≠ some .SESSION then
    sendBlocks java module draw buffer.length 0 buffer (List.replicate capacity 0)
  else
    match module.encrypt java draw buffer with
    | .ok temp =>
        match arraycopy temp (List.replicate capacity 0) 0 with
        | .ok message => SimpleMessenger.send message temp.length
        | .error exception => .error exception
    | .error .badPadding => SimpleMessenger.send (List.replicate capacity 0) 0
    | .error exception => .error exception

/-- What the array holds, and how much of it counts. The text is copied over the frame. -/
def receive (java : Library) (module : CipherModule) (frame : Bytes) :
    Except Exception (Bytes × Nat) :=
  match module.decrypt java frame with
  | .ok temp =>
      if temp.length ≤ capacity then .ok (temp ++ frame.drop temp.length, temp.length)
      else .error .runtime
  | .error .badPadding => .ok (List.replicate frame.length 0, frame.length)
  | .error exception => .error exception

end EncryptedMessenger

/-- An array for what follows the first bytes of a buffer, whose length must not be negative. -/
def argument (type : PacketType) (least size : Nat) (arg : Bytes) :
    Except Exception (Option Packet) :=
  if size < least then .error .runtime else .ok (some { type, arg })

/-- The packet that `EncryptedMessenger` and then `ProtocolMessenger` make of a buffer. A
`SET_NAME` becomes an `OPEN_PROT`. -/
def ProtocolMessenger.receive (buffer : Bytes) (size : Nat) : Except Exception (Option Packet) :=
  match PacketType.toPacketType (buffer.headD 0) with
  | .OPEN_ENCR => .ok (some { type := .OPEN_ENCR })
  | .PUBLIC_KEY => .ok none
  | .SYMMETRIC_KEY => argument .SYMMETRIC_KEY 1 size ((buffer.take size).drop 1)
  | .TEST_KEY => argument .TEST_KEY 1 size ((buffer.take size).drop 1)
  | .OPEN_PROT => .ok (some { type := .OPEN_PROT })
  | .SET_NAME => argument .OPEN_PROT 1 size []
  | .NEW_FOLLOWED => argument .NEW_FOLLOWED 3 size ((buffer.take size).drop 1)
  | .REMOVE_FOLLOWED =>
      argument .REMOVE_FOLLOWED 3 size ((buffer.drop 1).take (size - 3) ++ [0, 0])
  | .ADD_FOLLOWER | .REMOVE_FOLLOWER | .MY_LOCATION => .ok none
  | .LOCATION => .ok (some { type := .LOCATION })
  | .ACK_ERR => .ok (some { type := .ACK_ERR })
  | .ACK_OK => .ok (some { type := .ACK_OK })
  | .CLOSE => .ok (some { type := .CLOSE })
  | .ALIVE => .ok (some { type := .ALIVE })
  | .OPEN => .error .checked
  | .UNDEFINED => .error .runtime

namespace LayerManager

def send (java : Library) (isEncryptionOn : Bool) (module : CipherModule) (draw : Nat)
    (packet : Packet) : Except Exception Bytes :=
  match packet.getBuffer with
  | .ok buffer =>
      if isEncryptionOn then EncryptedMessenger.send java module draw buffer
      else SimpleMessenger.send buffer buffer.length
  | .error exception => .error exception

/-- What `receive` makes of a frame that has come in. -/
def receive (java : Library) (isEncryptionOn : Bool) (module : CipherModule) (frame : Bytes) :
    Except Exception (Option Packet) :=
  if isEncryptionOn then
    match EncryptedMessenger.receive java module frame with
    | .ok (buffer, size) => ProtocolMessenger.receive buffer size
    | .error exception => .error exception
  else SimpleMessenger.receive frame

/-- The cipher that `send` applies to a packet. -/
def sealing (Key : Type) (isEncryptionOn : Bool) (module : CipherModule) : Option (Seal Key) :=
  if isEncryptionOn then module.encryptor Key else some .plain

/-- The cipher that `receive` applies to a frame. -/
def opening (isEncryptionOn : Bool) (module : CipherModule) : Option Opening :=
  if isEncryptionOn then module.decryptor else some .plain

end LayerManager

/-- A frame made of blocks of up to 53 bytes under the server's public key. -/
inductive Enciphered (java : Library) : (text frame : Bytes) → Prop
  | nil : Enciphered java [] []
  | block {text cipher frame : Bytes} (draw : Nat) (filled : text ≠ [])
      (encrypted : java.encryptServerPublic draw (text.take 53) = some cipher)
      (others : Enciphered java (text.drop 53) frame) : Enciphered java text (cipher ++ frame)

/-- The ciphers under the server's public key fill the places that `send` has for them. -/
def Library.Fills (java : Library) : Prop :=
  ∀ draw block, block.length ≤ 53 →
    ∃ cipher, java.encryptServerPublic draw block = some cipher ∧ cipher.length = 128

theorem arraycopy_ok {source target copied : Bytes} {offset : Nat}
    (returned : arraycopy source target offset = .ok copied) :
    offset + source.length ≤ target.length ∧
      copied = target.take offset ++ source ++ target.drop (offset + source.length) := by
  unfold arraycopy at returned
  split at returned
  · rename_i inside
    exact ⟨inside, (Except.ok.inj returned).symm⟩
  · cases returned

theorem SimpleMessenger.send_ok {buffer frame : Bytes} {n : Nat}
    (returned : SimpleMessenger.send buffer n = .ok frame) : frame = buffer.take n := by
  unfold SimpleMessenger.send at returned
  split at returned
  · exact (Except.ok.inj returned).symm
  · cases returned

namespace EncryptedMessenger

variable {java : Library} {module : CipherModule}

/-- The array holds the ciphers of the blocks so far, and the loop adds those of the rest. -/
theorem sendBlocks_enciphered (fills : java.Fills)
    (server : module.encryptor Unit = some .serverPublic) (draw turns : Nat) :
    ∀ counter buffer message frame, buffer.length ≤ turns →
      sendBlocks java module draw turns counter buffer message = .ok frame →
      ∃ rest, Enciphered java buffer rest ∧ frame = message.take (counter * 128) ++ rest := by
  induction turns with
  | zero =>
      intro counter buffer message frame short returned
      have empty : buffer = [] := List.eq_nil_of_length_eq_zero (by omega)
      subst empty
      exact ⟨[], .nil, by rw [List.append_nil]; exact SimpleMessenger.send_ok returned⟩
  | succ turns ih =>
      intro counter buffer message frame short returned
      cases buffer with
      | nil => exact ⟨[], .nil, by rw [List.append_nil]; exact SimpleMessenger.send_ok returned⟩
      | cons byte bytes =>
          have within : ((byte :: bytes).take 53).length ≤ 53 := List.length_take_le 53 _
          obtain ⟨cipher, encrypted, width⟩ := fills (draw + counter) _ within
          have sealed : module.encrypt java (draw + counter) ((byte :: bytes).take 53) =
              .ok cipher := by
            simp only [CipherModule.encrypt, server, encrypted, CipherModule.doFinal]
          simp only [sendBlocks, sealed] at returned
          cases placed : arraycopy cipher message (counter * 128) with
          | error exception =>
              rw [placed] at returned
              cases returned
          | ok message' =>
              rw [placed] at returned
              obtain ⟨inside, rfl⟩ := arraycopy_ok placed
              have left : ((byte :: bytes).drop 53).length ≤ turns := by
                rw [List.length_drop]
                rw [List.length_cons] at short ⊢
                omega
              obtain ⟨rest, others, whole⟩ := ih _ _ _ _ left returned
              refine ⟨cipher ++ rest, .block _ (by simp) encrypted others, ?_⟩
              rw [whole, ← List.append_assoc]
              congr 1
              have reach : (message.take (counter * 128) ++ cipher).length =
                  (counter + 1) * 128 := by
                rw [List.length_append, List.length_take, width]
                omega
              rw [← reach, List.take_left]

end EncryptedMessenger

section Packets

variable {java : Library} {module : CipherModule} {frame : Bytes}

/-- The answer to `OPEN_ENCR` is enciphered block by block. -/
theorem send_enciphered (fills : java.Fills)
    (server : module.encryptor Unit = some .serverPublic) {draw : Nat} {packet : Packet}
    {buffer : Bytes} (built : packet.getBuffer = .ok buffer)
    (returned : LayerManager.send java true module draw packet = .ok frame) :
    Enciphered java buffer frame := by
  have unset : module.state ≠ some .SESSION := by
    intro session
    rw [CipherModule.encryptor, session] at server
    cases keys : module.sessionCiphers <;> rw [keys] at server <;> cases server
  simp only [LayerManager.send, built, EncryptedMessenger.send, unset, ne_eq, not_false_eq_true,
    ↓reduceIte] at returned
  obtain ⟨rest, enciphered, whole⟩ := EncryptedMessenger.sendBlocks_enciphered fills server draw
    buffer.length 0 buffer _ frame (Nat.le_refl _) returned
  rw [Nat.zero_mul, List.take_zero, List.nil_append] at whole
  rw [whole]
  exact enciphered

/-- A packet that starts no change of cipher, if there is one. -/
def Benign (packet : Option Packet) : Prop :=
  ∀ found, packet = some found → found.type ≠ .OPEN_ENCR ∧ found.type ≠ .SYMMETRIC_KEY

/-- What comes in is found in the text of the frame, or in nothing. -/
theorem receive_text {packet : Option Packet}
    (returned : LayerManager.receive java true module frame = .ok packet) :
    ∃ temp, module.decrypt java frame = .ok temp ∧
      ProtocolMessenger.receive (temp ++ frame.drop temp.length) temp.length = .ok packet := by
  simp only [LayerManager.receive, EncryptedMessenger.receive, ↓reduceIte] at returned
  cases plain : module.decrypt java frame with
  | ok temp =>
      rw [plain] at returned
      by_cases inside : temp.length ≤ capacity
      · simp only [if_pos inside] at returned
        exact ⟨temp, rfl, returned⟩
      · simp only [if_neg inside] at returned
        cases returned
  | error exception =>
      rw [plain] at returned
      cases exception with
      | badPadding =>
          -- an array of zeros starts with the type of `OPEN`, which no messenger takes
          cases frame <;> cases returned
      | checked | runtime => cases returned

theorem receive_symmetricKey (key later : Bytes) :
    ProtocolMessenger.receive ((PacketType.SYMMETRIC_KEY.toUInt8 :: key) ++ later)
      (PacketType.SYMMETRIC_KEY.toUInt8 :: key).length =
      .ok (some { type := .SYMMETRIC_KEY, arg := key }) := by
  have cut : ((PacketType.SYMMETRIC_KEY.toUInt8 :: key) ++ later).take
      (PacketType.SYMMETRIC_KEY.toUInt8 :: key).length =
      PacketType.SYMMETRIC_KEY.toUInt8 :: key := List.take_left
  have wide : ¬ (PacketType.SYMMETRIC_KEY.toUInt8 :: key).length < 1 := by
    rw [List.length_cons]
    omega
  rw [ProtocolMessenger.receive, cut, List.cons_append, List.headD_cons,
    PacketType.toPacketType_toUInt8]
  simp only [argument, if_neg wide, List.drop_one, List.tail_cons]

theorem argument_type {type : PacketType} {least size : Nat} {arg : Bytes}
    {packet : Option Packet} (returned : argument type least size arg = .ok packet) :
    ∀ found, packet = some found → found.type = type := by
  unfold argument at returned
  split at returned
  · cases returned
  · cases returned
    intro found same
    cases same
    rfl

theorem receive_benign {type : PacketType} {payload later : Bytes} {size : Nat}
    {packet : Option Packet}
    (kinds : type ≠ .OPEN_ENCR ∧ type ≠ .SYMMETRIC_KEY)
    (returned : ProtocolMessenger.receive ((type.toUInt8 :: payload) ++ later) size =
      .ok packet) : Benign packet := by
  rw [ProtocolMessenger.receive, List.cons_append, List.headD_cons,
    PacketType.toPacketType_toUInt8] at returned
  intro found same
  cases type with
  | OPEN_ENCR => exact absurd rfl kinds.1
  | SYMMETRIC_KEY => exact absurd rfl kinds.2
  | TEST_KEY | SET_NAME | NEW_FOLLOWED | REMOVE_FOLLOWED =>
      rw [argument_type returned found same]
      exact ⟨by decide, by decide⟩
  | OPEN | UNDEFINED => cases returned
  | PUBLIC_KEY | ADD_FOLLOWER | REMOVE_FOLLOWER | MY_LOCATION =>
      cases returned
      cases same
  | OPEN_PROT | LOCATION | ACK_ERR | ACK_OK | CLOSE | ALIVE =>
      cases returned
      cases same
      exact ⟨by decide, by decide⟩

end Packets

end Java

end Locus
