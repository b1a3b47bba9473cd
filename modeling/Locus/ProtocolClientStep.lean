import Locus.ClientDataManagerStep
import Locus.ProtocolClient

set_option autoImplicit false

/- What each handler of a session does: the acts it logs and what it leaves in the
session. Every law about sessions is derived from this list. -/
namespace Locus.ProtocolClient

open Program

variable {Key : Type}

/-- The session after a call of its cipher module. -/
def withModule (s : Session Key) (cryptoModule : CryptoModule Key) : Session Key :=
  { s with client := { s.client with cryptoModule } }

/-- The session after more acts. -/
def logged (s : Session Key) (entries : List Act) : Session Key :=
  { s with acts := s.acts ++ entries }

/-- The session after the read of a frame. -/
def taken (s : Session Key) : Session Key :=
  { s with inbound := s.inbound.tail, acts := s.acts ++ [.read (s.inbound.headD [])] }

theorem act_run (entry : Act) (s : Session Key) : act entry s = .ok () (logged s [entry]) := rfl

theorem closeConnection_run (s : Session Key) :
    closeConnection s = .ok () (logged s [.closed]) := rfl

theorem edit_run (change : ProtocolClient Key → ProtocolClient Key) (s : Session Key) :
    edit change s = .ok () { s with client := change s.client } := rfl

theorem setStage_run (stage : Stage) (s : Session Key) :
    setStage stage s =
      .ok () (logged { s with client := { s.client with stage } } [.stage stage]) := rfl

/-- The session after a change of the algorithm. -/
def switched (s : Session Key) (algo : Algorithm) : Session Key :=
  withModule s { s.client.cryptoModule with algorithm := algo }

theorem use_run (algo : Algorithm) (s : Session Key) :
    crypto (CryptoModule.use algo) s = .ok () (switched s algo) := rfl

theorem getSymmetricKey_run (s : Session Key) :
    crypto CryptoModule.getSymmetricKey s = .ok s.client.cryptoModule.aesKey s := rfl

theorem takeFrame_run (s : Session Key) :
    takeFrame s = .ok (s.inbound.headD []) (taken s) := rfl

@[simp] theorem logged_logged (s : Session Key) (first second : List Act) :
    logged (logged s first) second = logged s (first ++ second) := by
  simp only [logged, List.append_assoc]

@[simp] theorem logged_withModule (s : Session Key) (m : CryptoModule Key) (entries : List Act) :
    logged (withModule s m) entries = withModule (logged s entries) m := rfl

@[simp] theorem withModule_withModule (s : Session Key) (m m' : CryptoModule Key) :
    withModule (withModule s m) m' = withModule s m' := rfl

@[simp] theorem switched_withModule (s : Session Key) (m : CryptoModule Key) (algo : Algorithm) :
    switched (withModule s m) algo = withModule s { m with algorithm := algo } := rfl

@[simp] theorem withModule_module (s : Session Key) (m : CryptoModule Key) :
    (withModule s m).client.cryptoModule = m := rfl

/-- What a call of the cipher module keeps, seen from the session. -/
theorem crypto_spec {α : Type} {call : CryptoM Key α}
    {relation : CryptoModule Key → CryptoModule Key → Prop} (keeps : Keeps relation call)
    (s : Session Key) :
    ∃ m, relation s.client.cryptoModule m ∧
      ((∃ value, call s.client.cryptoModule = .ok value m ∧
        crypto call s = .ok value (withModule s m)) ∨
      ∃ fault, crypto call s = .error fault (withModule s m)) := by
  cases ran : call s.client.cryptoModule with
  | ok value m => exact ⟨m, keeps.of_ok ran, .inl ⟨value, rfl, zoom_ok ran⟩⟩
  | error fault m => exact ⟨m, keeps.of_error ran, .inr ⟨fault, zoom_error ran⟩⟩

/-- `recvPacket` takes one frame, and returns the packet in it or fails. -/
theorem recvPacket_spec (lib : CryptoLibrary Key) (s : Session Key) :
    ∃ m, CryptoModule.Drawn s.client.cryptoModule m ∧
      ((∃ fault, recvPacket lib s = .error fault (withModule (taken s) m)) ∨
      ∃ packet, recvPacket lib s = .ok packet
          (logged (withModule (taken s) m) [.received packet.type packet.buffer.bytes]) ∧
        ∃ bytes, CryptoModule.decrypt lib (s.inbound.headD []) s.client.cryptoModule =
            .ok bytes m ∧ Packet.ofBytes bytes = .ok packet) := by
  obtain ⟨m, drawn, ⟨bytes, ran, decrypted⟩ | ⟨fault, failed⟩⟩ :=
    crypto_spec (CryptoModule.decrypt_drawn lib (s.inbound.headD [])) (taken s)
  · refine ⟨m, drawn, ?_⟩
    cases parsed : Packet.ofBytes bytes with
    | error fault =>
        refine .inl ⟨fault, ?_⟩
        simp only [recvPacket, recvData, bind_run, takeFrame_run, decrypted, parsed,
          ofExcept_error_run]
    | ok packet =>
        refine .inr ⟨packet, ?_, bytes, ran, parsed⟩
        simp only [recvPacket, recvData, bind_run, takeFrame_run, decrypted, parsed,
          ofExcept_ok_run, act_run, pure_run]
  · refine ⟨m, drawn, .inl ⟨fault, ?_⟩⟩
    simp only [recvPacket, recvData, bind_run, takeFrame_run, failed]

/-- The next frame holds a packet under the cipher in use. -/
theorem recvPacket_of_decrypt {lib : CryptoLibrary Key} {s : Session Key} {frame text : Bytes}
    {packet : Packet} {m : CryptoModule Key} (inbound : s.inbound.headD [] = frame)
    (decrypted : CryptoModule.decrypt lib frame s.client.cryptoModule = .ok text m)
    (parsed : Packet.ofBytes text = .ok packet) :
    recvPacket lib s = .ok packet
      (logged (withModule (taken s) m) [.received packet.type packet.buffer.bytes]) := by
  have opened : crypto (CryptoModule.decrypt lib (s.inbound.headD [])) (taken s) =
      .ok text (withModule (taken s) m) := zoom_ok (by rw [inbound]; exact decrypted)
  simp only [recvPacket, recvData, bind_run, takeFrame_run, opened, parsed, ofExcept_ok_run,
    act_run, pure_run]

/-- The packet in a frame, under the symmetric key. -/
def aesPacket (lib : CryptoLibrary Key) (aesKey frame : Bytes) : Except Fault Packet :=
  match thrown (lib.aesDecrypt aesKey frame) with
  | .error fault => .error fault
  | .ok bytes => Packet.ofBytes bytes

/-- A frame that cannot be read is reported by an exception. -/
theorem aesPacket_error {lib : CryptoLibrary Key} {aesKey frame : Bytes} {fault : Fault}
    (failed : aesPacket lib aesKey frame = .error fault) : ∃ what, fault = .exception what := by
  unfold aesPacket at failed
  cases plain : lib.aesDecrypt aesKey frame with
  | error what =>
      rw [plain] at failed
      cases failed
      exact ⟨what, rfl⟩
  | ok bytes =>
      rw [plain] at failed
      cases bytes with
      | nil =>
          cases failed
          exact ⟨_, rfl⟩
      | cons header payload =>
          obtain ⟨packet, parsed, _⟩ := Packet.ofBytes_cons header payload
          exact absurd (parsed.symm.trans failed) (by simp)

theorem recvPacket_aes {lib : CryptoLibrary Key} {s : Session Key}
    (aes : s.client.cryptoModule.algorithm = .AES) :
    recvPacket lib s =
      match aesPacket lib s.client.cryptoModule.aesKey (s.inbound.headD []) with
      | .error fault => .error fault (taken s)
      | .ok packet => .ok packet
          (logged (taken s) [.received packet.type packet.buffer.bytes]) := by
  have decrypted := CryptoModule.decrypt_aes lib (s.inbound.headD []) aes
  simp only [recvPacket, recvData, bind_run, takeFrame_run, aesPacket]
  cases plain : thrown (lib.aesDecrypt s.client.cryptoModule.aesKey (s.inbound.headD [])) with
  | error fault =>
      rw [plain, ofExcept_error_run] at decrypted
      have failed : crypto (CryptoModule.decrypt lib (s.inbound.headD [])) (taken s) =
          .error fault (taken s) := zoom_error decrypted
      simp only [failed]
  | ok bytes =>
      rw [plain, ofExcept_ok_run] at decrypted
      have opened : crypto (CryptoModule.decrypt lib (s.inbound.headD [])) (taken s) =
          .ok bytes (taken s) := zoom_ok decrypted
      simp only [opened]
      cases parsed : Packet.ofBytes bytes with
      | error fault => simp only [ofExcept_error_run]
      | ok packet => simp only [ofExcept_ok_run, act_run, pure_run]

theorem recvPacket_aes_error {lib : CryptoLibrary Key} {s : Session Key} {fault : Fault}
    (aes : s.client.cryptoModule.algorithm = .AES)
    (failed : aesPacket lib s.client.cryptoModule.aesKey (s.inbound.headD []) = .error fault) :
    recvPacket lib s = .error fault (taken s) := by
  rw [recvPacket_aes aes, failed]

theorem recvPacket_aes_ok {lib : CryptoLibrary Key} {s : Session Key} {packet : Packet}
    (aes : s.client.cryptoModule.algorithm = .AES)
    (found : aesPacket lib s.client.cryptoModule.aesKey (s.inbound.headD []) = .ok packet) :
    recvPacket lib s =
      .ok packet (logged (taken s) [.received packet.type packet.buffer.bytes]) := by
  rw [recvPacket_aes aes, found]

/-- `sendPacket` sends one packet under the current algorithm, or fails. -/
theorem sendPacket_spec (lib : CryptoLibrary Key) (packet : Packet) (s : Session Key) :
    ∃ m, CryptoModule.Drawn s.client.cryptoModule m ∧
      ((∃ fault, sendPacket lib packet s = .error fault (withModule s m)) ∨
      ∃ frame, CryptoModule.encrypt lib (packet.type.toUInt8 :: packet.buffer.bytes)
          s.client.cryptoModule = .ok frame m ∧
        sendPacket lib packet s = .ok () (logged (withModule s m)
          [.sent packet.type s.client.cryptoModule.algorithm packet.buffer.bytes frame])) := by
  obtain ⟨rest, popped⟩ := packet.popAll_addTypeToBuffer
  obtain ⟨m, drawn, ⟨frame, ran, encrypted⟩ | ⟨fault, failed⟩⟩ :=
    crypto_spec (CryptoModule.encrypt_drawn lib (packet.type.toUInt8 :: packet.buffer.bytes)) s
  · refine ⟨m, drawn, .inr ⟨frame, ran, ?_⟩⟩
    simp only [sendPacket, bind_run, popped, ofExcept_ok_run, encrypted, get_run, act_run,
      ← drawn.kept.algorithm]
    rfl
  · refine ⟨m, drawn, .inl ⟨fault, ?_⟩⟩
    simp only [sendPacket, bind_run, popped, ofExcept_ok_run, failed]

theorem sendPacket_aes_error {lib : CryptoLibrary Key} {packet : Packet} {s : Session Key}
    {what : String} (aes : s.client.cryptoModule.algorithm = .AES)
    (failed : lib.aesEncrypt s.client.cryptoModule.aesKey
      (packet.type.toUInt8 :: packet.buffer.bytes) = .error what) :
    sendPacket lib packet s = .error (.exception what) s := by
  obtain ⟨rest, popped⟩ := packet.popAll_addTypeToBuffer
  have ran := CryptoModule.encrypt_aes lib (packet.type.toUInt8 :: packet.buffer.bytes) aes
  rw [failed, thrown, ofExcept_error_run] at ran
  have stopped : crypto (CryptoModule.encrypt lib
      (packet.type.toUInt8 :: packet.buffer.bytes)) s = .error (.exception what) s := zoom_error ran
  simp only [sendPacket, bind_run, popped, ofExcept_ok_run, stopped]

theorem sendPacket_aes_ok {lib : CryptoLibrary Key} {packet : Packet} {s : Session Key}
    {frame : Bytes} (aes : s.client.cryptoModule.algorithm = .AES)
    (encrypted : lib.aesEncrypt s.client.cryptoModule.aesKey
      (packet.type.toUInt8 :: packet.buffer.bytes) = .ok frame) :
    sendPacket lib packet s =
      .ok () (logged s [.sent packet.type .AES packet.buffer.bytes frame]) := by
  obtain ⟨rest, popped⟩ := packet.popAll_addTypeToBuffer
  have ran := CryptoModule.encrypt_aes lib (packet.type.toUInt8 :: packet.buffer.bytes) aes
  rw [encrypted, thrown, ofExcept_ok_run] at ran
  have sealed : crypto (CryptoModule.encrypt lib
      (packet.type.toUInt8 :: packet.buffer.bytes)) s = .ok frame s := zoom_ok ran
  simp only [sendPacket, bind_run, popped, ofExcept_ok_run, sealed, get_run, act_run, aes]

/-- Acts that only take something in. -/
def isInput : Act → Bool
  | .read _ | .received _ _ | .accepted _ => true
  | _ => false

/-- What a session keeps when a handler of the handshake does not get through. -/
structure Same (before after : ProtocolClient Key) : Prop where
  stage : after.stage = before.stage
  id : after.id = before.id
  remainingPackets : after.remainingPackets = before.remainingPackets
  aesKey : after.cryptoModule.aesKey = before.cryptoModule.aesKey
  initialized : before.cryptoModule.rsaSimpleCrypto.publicKeyInitialized = true →
    after.cryptoModule.rsaSimpleCrypto.publicKeyInitialized = true

theorem Same.refl (client : ProtocolClient Key) : Same client client :=
  ⟨rfl, rfl, rfl, rfl, fun ready => ready⟩

theorem Same.trans {first second third : ProtocolClient Key} (left : Same first second)
    (right : Same second third) : Same first third :=
  ⟨right.stage.trans left.stage, right.id.trans left.id,
    right.remainingPackets.trans left.remainingPackets, right.aesKey.trans left.aesKey,
    right.initialized ∘ left.initialized⟩

theorem Same.of_kept {s : Session Key} {m : CryptoModule Key}
    (kept : CryptoModule.Kept s.client.cryptoModule m) : Same s.client (withModule s m).client :=
  ⟨rfl, rfl, rfl, kept.aesKey, kept.initialized⟩

/-- A handler that only took something in, after one read, and may have closed the
connection. -/
inductive Listened (before after : Session Key) : Prop
  | mk (log closing : List Act) (inputs : ∀ entry ∈ log, isInput entry)
      (ending : closing = [] ∨ closing = [.closed])
      (acts : after.acts = before.acts ++ (log ++ closing))
      (same : Same before.client after.client)
      (reads : ∀ bytes, .read bytes ∈ log ↔ bytes = before.inbound.headD [])

/-- `recvPacket` right after a change of the algorithm. -/
theorem recvPacket_switched (lib : CryptoLibrary Key) (algo : Algorithm) (s : Session Key) :
    ∃ m, CryptoModule.Drawn { s.client.cryptoModule with algorithm := algo } m ∧
      ((∃ fault, recvPacket lib (switched s algo) = .error fault (withModule (taken s) m)) ∨
      ∃ packet, recvPacket lib (switched s algo) = .ok packet
          (logged (withModule (taken s) m) [.received packet.type packet.buffer.bytes]) ∧
        ∃ bytes, CryptoModule.decrypt lib (s.inbound.headD [])
            { s.client.cryptoModule with algorithm := algo } = .ok bytes m ∧
          Packet.ofBytes bytes = .ok packet) :=
  recvPacket_spec lib (switched s algo)

theorem Same.of_drawn {s : Session Key} {algo : Algorithm} {m : CryptoModule Key}
    (drawn : CryptoModule.Drawn { s.client.cryptoModule with algorithm := algo } m) :
    Same s.client (withModule s m).client :=
  ⟨rfl, rfl, rfl, drawn.kept.aesKey, drawn.kept.initialized⟩

section Listened

variable {s middle : Session Key}

theorem listened_of_error (log : List Act) (fault : Fault)
    (acts : middle.acts = s.acts ++ log) (inputs : ∀ entry ∈ log, isInput entry)
    (reads : ∀ bytes, .read bytes ∈ log ↔ bytes = s.inbound.headD [])
    (same : Same s.client middle.client) :
    Listened s (finalState (settle closeConnection (.error fault middle))) := by
  cases fault with
  | exception what =>
      refine ⟨log, [.closed], inputs, .inr rfl, ?_, same, reads⟩
      simp only [settle, closeConnection_run, finalState, logged, acts, List.append_assoc]
  | undefinedBehaviour | nonTermination =>
      exact ⟨log, [], inputs, .inl rfl, by rw [List.append_nil]; exact acts, same, reads⟩

theorem listened_of_closed (log : List Act)
    (acts : middle.acts = s.acts ++ log) (inputs : ∀ entry ∈ log, isInput entry)
    (reads : ∀ bytes, .read bytes ∈ log ↔ bytes = s.inbound.headD [])
    (same : Same s.client middle.client) :
    Listened s (finalState (settle closeConnection (.ok () (logged middle [.closed])))) := by
  refine ⟨log, [.closed], inputs, .inr rfl, ?_, same, reads⟩
  simp only [settle, finalState, logged, acts, List.append_assoc]

end Listened

/-- A handler of the handshake that got through: it logged `log` and came to `stage`
with an accepted key. -/
structure Passed (before after : Session Key) (log : List Act) (stage : Stage) : Prop where
  acts : after.acts = before.acts ++ log
  stage : after.client.stage = stage
  id : after.client.id = before.client.id
  remainingPackets : after.client.remainingPackets = before.client.remainingPackets
  aesKey : after.client.cryptoModule.aesKey = before.client.cryptoModule.aesKey
  initialized : after.client.cryptoModule.rsaSimpleCrypto.publicKeyInitialized = true

/-- The key that `setPublicKey` took, and the frame that it answered with. -/
structure Keyed (lib : CryptoLibrary Key) (before after : Session Key) (key frame : Bytes) :
    Prop where
  heard : ∃ header module, CryptoModule.decrypt lib (before.inbound.headD [])
    { before.client.cryptoModule with algorithm := .ServerRSA } = .ok (header :: key) module
  loaded : lib.load key before.client.cryptoModule.rsaSimpleCrypto.publicKey =
    (.ok (), after.client.cryptoModule.rsaSimpleCrypto.encryptor)
  width : after.client.cryptoModule.rsaSimpleCrypto.maxPlainTextLength =
    lib.fixedMaxPlaintextLength after.client.cryptoModule.rsaSimpleCrypto.encryptor
  answered : ∃ first last, CryptoModule.encryptRSA lib after.client.cryptoModule.rsaSimpleCrypto
    (PacketType.SYMMETRIC_KEY.toUInt8 :: before.client.cryptoModule.aesKey) first =
      .ok frame last

theorem setPublicKey_outcome (lib : CryptoLibrary Key) (s : Session Key) :
    Listened s (finalState (setPublicKey lib s)) ∨
    ∃ key frame,
      Passed s (finalState (setPublicKey lib s))
        [.read (s.inbound.headD []), .received .PUBLIC_KEY key, .accepted key,
          .sent .SYMMETRIC_KEY .OuterRSA s.client.cryptoModule.aesKey frame,
          .stage .SetSymmetricKey] .SetSymmetricKey ∧
      Keyed lib s (finalState (setPublicKey lib s)) key frame := by
  unfold setPublicKey catching
  obtain ⟨m, drawn, ⟨fault, failed⟩ | ⟨packet, heard, bytes, decrypted, parsed⟩⟩ :=
    recvPacket_switched lib .ServerRSA s
  · simp only [bind_run, use_run, failed]
    exact .inl (listened_of_error [.read (s.inbound.headD [])] fault rfl (by simp [isInput])
      (by simp) (.of_drawn drawn))
  have same : Same s.client (withModule s m).client := .of_drawn drawn
  simp only [bind_run, use_run, heard, logged_withModule]
  by_cases expected : packet.type = .PUBLIC_KEY
  · obtain ⟨rest, popped, _⟩ := packet.buffer.popAll_spec
    simp only [if_pos expected, bind_run, popped, ofExcept_ok_run]
    obtain ⟨m', kept, ⟨_, took, accepted⟩ | ⟨fault, failed⟩⟩ :=
      crypto_spec (CryptoModule.setOuterRSAKey_keeps lib packet.buffer.bytes)
        (withModule (logged (taken s) [.received packet.type packet.buffer.bytes]) m)
    · simp only [accepted, act_run, use_run, getSymmetricKey_run, withModule_withModule,
        logged_withModule, switched_withModule, logged_logged, withModule_module]
      have same' := same.trans (.of_kept kept)
      have key_eq : m'.aesKey = s.client.cryptoModule.aesKey := same'.aesKey
      obtain ⟨m'', drawn', ⟨fault, failed⟩ | ⟨frame, sealed, sent⟩⟩ := sendPacket_spec lib
        (Packet.push { type := .SYMMETRIC_KEY } m'.aesKey)
        (withModule (logged (taken s) ([.received packet.type packet.buffer.bytes] ++
          [.accepted packet.buffer.bytes])) { m' with algorithm := .OuterRSA })
      · simp only [failed]
        refine .inl (listened_of_error [.read (s.inbound.headD []),
          .received packet.type packet.buffer.bytes, .accepted packet.buffer.bytes] fault ?_
          (by simp [isInput]) (by simp)
          (same'.trans ⟨rfl, rfl, rfl, drawn'.kept.aesKey, drawn'.kept.initialized⟩))
        simp [logged, withModule, taken]
      · simp only [sent, setStage_run]
        refine .inr ⟨packet.buffer.bytes, frame, ⟨?_, rfl, rfl, rfl, ?_, ?_⟩, ?_⟩
        · simp [settle, finalState, logged, withModule, taken, key_eq, expected]
        · exact drawn'.kept.aesKey.trans same'.aesKey
        · have ready : m'.rsaSimpleCrypto.publicKeyInitialized = true :=
            CryptoModule.setOuterRSAKey_initialized took
          exact drawn'.kept.initialized ready
        · obtain ⟨header, text, _⟩ := Packet.ofBytes_ok parsed
          obtain ⟨publicKey, draws, loaded, whole⟩ := CryptoModule.setOuterRSAKey_returned took
          obtain ⟨number, rfl⟩ := drawn
          obtain ⟨number', rfl⟩ := drawn'
          dsimp only [withModule_module] at whole
          subst whole
          rw [Packet.type_push, Packet.bytes_push] at sealed
          exact ⟨⟨header, _, text ▸ decrypted⟩, loaded, rfl, _, _, sealed⟩
    · simp only [failed]
      refine .inl (listened_of_error
        [.read (s.inbound.headD []), .received packet.type packet.buffer.bytes] fault ?_
        (by simp [isInput]) (by simp) (same.trans (.of_kept kept)))
      simp [logged, withModule, taken]
  · rw [if_neg expected, closeConnection_run]
    refine .inl (listened_of_closed
      [.read (s.inbound.headD []), .received packet.type packet.buffer.bytes] ?_
      (by simp [isInput]) (by simp) same)
    simp [logged, withModule, taken]

theorem setSymmetricKey_outcome (lib : CryptoLibrary Key) (s : Session Key)
    (ready : s.client.cryptoModule.rsaSimpleCrypto.publicKeyInitialized = true) :
    Listened s (finalState (setSymmetricKey lib s)) ∨
    s.inbound.headD [] ≠ [] ∧ ∃ frame,
      Passed s (finalState (setSymmetricKey lib s))
        [.read (s.inbound.headD []), .received .SYMMETRIC_KEY s.client.cryptoModule.aesKey,
          .sent .TEST_KEY .AES s.client.cryptoModule.aesKey frame, .stage .TestKey] .TestKey := by
  unfold setSymmetricKey catching
  obtain ⟨m, drawn, ⟨fault, failed⟩ | ⟨packet, heard, bytes, decrypted, parsed⟩⟩ :=
    recvPacket_switched lib .ServerRSA s
  · simp only [bind_run, use_run, failed]
    exact .inl (listened_of_error [.read (s.inbound.headD [])] fault rfl (by simp [isInput])
      (by simp) (.of_drawn drawn))
  have same : Same s.client (withModule s m).client := .of_drawn drawn
  have found : s.inbound.headD [] ≠ [] := by
    intro absent
    rw [absent] at decrypted
    rw [CryptoModule.decrypt_server_nil rfl decrypted] at parsed
    cases parsed
  simp only [bind_run, use_run, heard, logged_withModule]
  have acts_eq : (withModule (logged (taken s)
      [.received packet.type packet.buffer.bytes]) m).acts = s.acts ++
        [.read (s.inbound.headD []), .received packet.type packet.buffer.bytes] := by
    simp [logged, withModule, taken]
  by_cases expected : packet.type = .SYMMETRIC_KEY
  · obtain ⟨rest, popped, _⟩ := packet.buffer.popAll_spec
    simp only [if_pos expected, bind_run, getSymmetricKey_run, popped, ofExcept_ok_run,
      withModule_module]
    by_cases returned : m.aesKey = packet.buffer.bytes
    · rw [if_neg (not_not_intro returned)]
      simp only [bind_run, use_run, switched_withModule]
      obtain ⟨m', drawn', ⟨fault, failed⟩ | ⟨frame, _, sent⟩⟩ := sendPacket_spec lib
        (Packet.push { type := .TEST_KEY } m.aesKey)
        (withModule (logged (taken s) [.received packet.type packet.buffer.bytes])
          { m with algorithm := .AES })
      · simp only [failed]
        exact .inl (listened_of_error
          [.read (s.inbound.headD []), .received packet.type packet.buffer.bytes] fault acts_eq
          (by simp [isInput]) (by simp)
          (same.trans ⟨rfl, rfl, rfl, drawn'.kept.aesKey, drawn'.kept.initialized⟩))
      · simp only [sent, setStage_run]
        have key_eq : m.aesKey = s.client.cryptoModule.aesKey := same.aesKey
        have payload : packet.buffer.bytes = s.client.cryptoModule.aesKey :=
          returned.symm.trans key_eq
        refine .inr ⟨found, frame, ?_, rfl, rfl, rfl, ?_, ?_⟩
        · simp [settle, finalState, logged, withModule, taken, key_eq, expected, payload]
        · exact drawn'.kept.aesKey.trans same.aesKey
        · exact drawn'.kept.initialized (same.initialized ready)
    · rw [if_pos returned, closeConnection_run]
      exact .inl (listened_of_closed
        [.read (s.inbound.headD []), .received packet.type packet.buffer.bytes] acts_eq
        (by simp [isInput]) (by simp) same)
  · rw [if_neg expected, closeConnection_run]
    exact .inl (listened_of_closed
      [.read (s.inbound.headD []), .received packet.type packet.buffer.bytes] acts_eq
      (by simp [isInput]) (by simp) same)

/-- Registration always returns an id. -/
theorem registerClient_returns (publicKey : Bytes) (queue : QueueRef) (database : Database) :
    ∃ id after, ClientDataManager.run (.registerClient publicKey queue) database =
      .ok (.id id) after := by
  cases known : database.manager.clientsId publicKey with
  | some id =>
      exact ⟨id, _, ClientDataManager.step_iff_effect.mpr (.registerKnown known)⟩
  | none => exact ⟨_, _, ClientDataManager.step_iff_effect.mpr (.registerFresh known)⟩

theorem manager_ok {s : Session Key} {op : ClientDataManager.Op}
    {reply : ClientDataManager.Reply} {database : Database}
    (returned : ClientDataManager.run op s.database = .ok reply database) :
    manager op s = .ok reply (logged { s with database } [.called op (some reply)]) := by
  simp only [manager, returned, logged]

theorem manager_error {s : Session Key} {op : ClientDataManager.Op} {fault : Fault}
    {database : Database}
    (failed : ClientDataManager.run op s.database = .error fault database) :
    manager op s = .error fault (logged { s with database } [.called op none]) := by
  simp only [manager, failed, logged]

theorem selfRegister_spec (lib : CryptoLibrary Key) (s : Session Key)
    (ready : s.client.cryptoModule.rsaSimpleCrypto.publicKeyInitialized = true) :
    ∃ publicKey queue number database, selfRegister lib s = .ok ()
      (logged { s with database, client := { s.client with id := number } }
        [.called (.registerClient publicKey queue) (some (.id number))]) := by
  have key : crypto (CryptoModule.getOuterRSAKey lib) s =
      .ok (lib.save s.client.cryptoModule.rsaSimpleCrypto.publicKey) s :=
    zoom_ok (CryptoModule.getOuterRSAKey_initialized ready)
  obtain ⟨number, database, registered⟩ := registerClient_returns
    (lib.save s.client.cryptoModule.rsaSimpleCrypto.publicKey) s.client.blockingQueue s.database
  refine ⟨lib.save s.client.cryptoModule.rsaSimpleCrypto.publicKey, s.client.blockingQueue,
    number, database, ?_⟩
  simp only [selfRegister, bind_run, key, get_run, manager_ok registered, edit_run]
  rfl

/-- The first packet passes as the echo of the test key, and the answer can be sent. -/
def Tests (lib : CryptoLibrary Key) (aesKey frame : Bytes) (payload : Bytes) : Prop :=
  (∃ packet, aesPacket lib aesKey frame = .ok packet ∧ packet.type = .TEST_KEY ∧
    packet.buffer.bytes = payload) ∧
  ∃ answer, lib.aesEncrypt aesKey [PacketType.OPEN_PROT.toUInt8] = .ok answer

/-- `testKey` always comes back: it takes one frame, and it either refuses the frame
and stays in its stage, or registers the client. -/
theorem testKey_outcome (lib : CryptoLibrary Key) (s : Session Key)
    (ready : s.client.cryptoModule.rsaSimpleCrypto.publicKeyInitialized = true) :
    ∃ after, testKey lib s = .ok () after ∧ after.inbound = s.inbound.tail ∧
      after.client.cryptoModule.algorithm = .AES ∧
      ((∃ log, (∀ entry ∈ log, isInput entry) ∧ after.acts = s.acts ++ (log ++ [.closed]) ∧
        Same s.client after.client ∧
        (∀ payload, ¬ Tests lib s.client.cryptoModule.aesKey (s.inbound.headD []) payload) ∧
        ∀ bytes, .read bytes ∈ log ↔ bytes = s.inbound.headD []) ∨
      ∃ payload frame publicKey queue,
        Tests lib s.client.cryptoModule.aesKey (s.inbound.headD []) payload ∧
        Passed { s with client := { s.client with id := after.client.id } } after
          [.read (s.inbound.headD []), .received .TEST_KEY payload,
            .sent .OPEN_PROT .AES [] frame, .stage .StableCommunication,
            .called (.registerClient publicKey queue) (some (.id after.client.id))]
          .StableCommunication) := by
  have same : Same s.client (switched s .AES).client :=
    ⟨rfl, rfl, rfl, rfl, fun initialized => initialized⟩
  unfold testKey catching
  simp only [bind_run, use_run]
  cases first : aesPacket lib s.client.cryptoModule.aesKey (s.inbound.headD []) with
  | error fault =>
      obtain ⟨what, rfl⟩ := aesPacket_error first
      have failed : recvPacket lib (switched s .AES) =
          .error (.exception what) (taken (switched s .AES)) := recvPacket_aes_error rfl first
      simp only [failed, settle, closeConnection_run]
      refine ⟨_, rfl, rfl, rfl,
        .inl ⟨[.read (s.inbound.headD [])], by simp [isInput], ?_, same, ?_, by simp⟩⟩
      · simp [logged, taken, switched, withModule]
      · rintro payload ⟨⟨packet, parsed, _⟩, _⟩
        rw [first] at parsed
        cases parsed
  | ok packet =>
      have heard : recvPacket lib (switched s .AES) = .ok packet (logged (taken (switched s .AES))
          [.received packet.type packet.buffer.bytes]) := recvPacket_aes_ok rfl first
      simp only [heard]
      by_cases expected : packet.type = .TEST_KEY
      · simp only [if_pos expected, bind_run]
        cases answer : lib.aesEncrypt s.client.cryptoModule.aesKey
            [PacketType.OPEN_PROT.toUInt8] with
        | error what =>
            have failed : sendPacket lib { type := .OPEN_PROT }
                (logged (taken (switched s .AES)) [.received packet.type packet.buffer.bytes]) =
                .error (.exception what) (logged (taken (switched s .AES))
                  [.received packet.type packet.buffer.bytes]) :=
              sendPacket_aes_error rfl answer
            simp only [failed, settle, closeConnection_run]
            refine ⟨_, rfl, rfl, rfl, .inl ⟨[.read (s.inbound.headD []),
              .received packet.type packet.buffer.bytes], by simp [isInput], ?_, same, ?_,
              by simp⟩⟩
            · simp [logged, taken, switched, withModule]
            · rintro payload ⟨_, frame, encrypted⟩
              rw [answer] at encrypted
              cases encrypted
        | ok frame =>
            obtain ⟨answered, answered_eq⟩ : ∃ answered, answered =
                logged (logged (taken (switched s .AES))
                  [.received packet.type packet.buffer.bytes])
                  [.sent .OPEN_PROT .AES [] frame] := ⟨_, rfl⟩
            have sends : sendPacket lib { type := .OPEN_PROT }
                (logged (taken (switched s .AES)) [.received packet.type packet.buffer.bytes]) =
                .ok () answered := answered_eq ▸ sendPacket_aes_ok rfl answer
            have key_kept : answered.client.cryptoModule.rsaSimpleCrypto.publicKeyInitialized =
                true := by
              rw [answered_eq]
              exact ready
            obtain ⟨publicKey, queue, number, database, registered⟩ := selfRegister_spec lib
              (logged { answered with
                client := { answered.client with stage := .StableCommunication } }
                [.stage .StableCommunication]) key_kept
            simp only [sends, setStage_run, registered, settle]
            subst answered_eq
            refine ⟨_, rfl, rfl, rfl, .inr ⟨packet.buffer.bytes, frame, publicKey, queue,
              ⟨⟨packet, first, expected, rfl⟩, frame, answer⟩, ?_, rfl, rfl, rfl, rfl, ready⟩⟩
            simp [logged, taken, switched, withModule, expected]
      · simp only [if_neg expected, settle, closeConnection_run]
        refine ⟨_, rfl, rfl, rfl, .inl ⟨[.read (s.inbound.headD []),
          .received packet.type packet.buffer.bytes], by simp [isInput], ?_, same, ?_, by simp⟩⟩
        · simp [logged, taken, switched, withModule]
        · rintro payload ⟨⟨other, parsed, same_type, _⟩, _⟩
          rw [first] at parsed
          cases parsed
          exact expected same_type

end Locus.ProtocolClient
