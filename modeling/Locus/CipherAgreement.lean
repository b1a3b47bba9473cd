import Locus.Dialogue
import Locus.JavaClientPhases

set_option autoImplicit false

/- In whatever order the session and the threads of the client take their steps, each frame
is decrypted with the counterpart of the cipher that it was encrypted with. -/
namespace Locus.Dialogue

open Program Transition Java

variable {Key : Type}

/-- The keys of the two sides belong together, and their libraries undo each other. -/
structure Matched (lib : CryptoLibrary Key) (java : Library) (clientKey : Key)
    (rsaServerCrypto : RSASimpleCrypto Key) (aesKey : Bytes) : Prop where
  loads : ∀ key publicKey, lib.load java.publicKey key = (.ok (), publicKey) →
    publicKey = clientKey
  fills : java.Fills
  undoesServer : ∀ draw block cipher, java.encryptServerPublic draw block = some cipher →
    ∀ number text, lib.rsaDecrypt number cipher = .ok text → text = block
  undoesClient : ∀ number text cipher, lib.rsaEncrypt number clientKey text = .ok cipher →
    ∀ plain, java.decryptClientPrivate cipher = some plain → plain = text
  undoesSession : ∀ text cipher, lib.aesEncrypt aesKey text = .ok cipher →
    ∀ plain, java.decryptSession aesKey cipher = some plain → plain = text
  width : aesKey.length = 16
  clientWidth : 17 ≤ lib.fixedMaxPlaintextLength clientKey
  serverWidth : rsaServerCrypto.fixedCipherTextLength = 128
  loaded : rsaServerCrypto.privateKeyInitialized = true

/-- A frame was decrypted with the counterpart of the cipher that it was encrypted with. -/
def Agrees (clientKey : Key) (entry : Opened Key) : Prop :=
  ∃ opening, entry.opening = some opening ∧ Counterpart clientKey entry.sealing opening

/-- The server's frame with a number. -/
def Down (lib : CryptoLibrary Key) (clientKey : Key) (aesKey : Bytes) :
    Nat → Seal Key × Bytes → Prop
  | 0, frame => frame = (.plain, [PacketType.OPEN_ENCR.toUInt8])
  | 1, frame => frame.1 = .outer clientKey ∧ ∃ number,
      lib.rsaEncrypt number clientKey (PacketType.SYMMETRIC_KEY.toUInt8 :: aesKey) = .ok frame.2
  | _, frame => frame.1 = .session aesKey ∧ ProtocolClient.Later lib aesKey frame.2

/-- The client's frame with a number. -/
structure Up (java : Library) (aesKey : Bytes) (number : Nat) (frame : Seal Key × Bytes) :
    Prop where
  early : number < 2 → frame.1 = .serverPublic
  late : 2 ≤ number → frame.1 = .session aesKey
  first : number = 0 →
    Enciphered java (PacketType.PUBLIC_KEY.toUInt8 :: java.publicKey) frame.2

/-- The session's stage, against the frames that it has taken and sent. -/
structure Serving (rsaServerCrypto : RSASimpleCrypto Key) (aesKey : Bytes)
    (dialogue : Dialogue Key) : Prop where
  sound : dialogue.server.client.Sound
  stays : dialogue.server.client.stage ≠ .Exit
  rsaServerCrypto : dialogue.server.client.cryptoModule.rsaServerCrypto = rsaServerCrypto
  aesKey : dialogue.server.client.cryptoModule.aesKey = aesKey
  taken : ProtocolClient.epoch dialogue.server.client.stage ≤ dialogue.handled
  handled : dialogue.handled ≤ dialogue.up.length
  early : ProtocolClient.epoch dialogue.server.client.stage < 2 →
    dialogue.down.length = ProtocolClient.epoch dialogue.server.client.stage + 1
  late : ProtocolClient.epoch dialogue.server.client.stage = 2 → 3 ≤ dialogue.down.length

/-- What holds of a dialogue at any time. -/
structure Agreeing (lib : CryptoLibrary Key) (java : Library) (clientKey : Key)
    (rsaServerCrypto : RSASimpleCrypto Key) (aesKey : Bytes) (dialogue : Dialogue Key) :
    Prop where
  serving : dialogue.Serving rsaServerCrypto aesKey
  phase : dialogue.client.Phase java.publicKey aesKey dialogue.fetched dialogue.up.length
  fetched : dialogue.fetched ≤ dialogue.down.length
  down : ∀ number frame, dialogue.down[number]? = some frame →
    Down lib clientKey aesKey number frame
  up : ∀ number frame, dialogue.up[number]? = some frame → Up java aesKey number frame
  arrived : ∀ isEncryptionOn bytes, dialogue.client.reader = .arrived isEncryptionOn bytes →
    0 < dialogue.fetched ∧
      ∃ sealing, dialogue.down[dialogue.fetched - 1]? = some (sealing, bytes)
  opened : ∀ entry ∈ dialogue.opened, Agrees clientKey entry

section Server

variable {lib : CryptoLibrary Key} {java : Library} {clientKey : Key}
  {rsaServerCrypto : RSASimpleCrypto Key} {aesKey : Bytes}

/-- The server finds the text in a frame under its public key, if it finds anything. -/
theorem decryptRSA_enciphered (matched : Matched lib java clientKey rsaServerCrypto aesKey)
    {text frame : Bytes} (enciphered : Enciphered java text frame) (turns : Nat) :
    ∀ plain before after,
      CryptoModule.blocks (CryptoModule.decryptBlock lib rsaServerCrypto) 128 turns frame before =
        .ok plain after → plain = text := by
  induction enciphered generalizing turns with
  | nil =>
      intro plain before after returned
      cases turns <;> cases returned <;> rfl
  | @block text cipher frame draw filled encrypted others ih =>
      intro plain before after returned
      obtain ⟨_, same, width⟩ := matched.fills draw (text.take 53) (List.length_take_le 53 _)
      rw [encrypted] at same
      cases same
      cases cipher with
      | nil => cases width
      | cons byte bytes =>
          cases turns with
          | zero => cases returned
          | succ turns =>
              rw [List.cons_append, CryptoModule.blocks, ← List.cons_append, ← width,
                List.take_left, List.drop_left, width] at returned
              simp only [bind_ok_iff, pure_run] at returned
              obtain ⟨block, middle, converted, rest, last, later, done⟩ := returned
              obtain ⟨number, decrypted⟩ := CryptoModule.decryptBlock_ok converted
              cases done
              rw [matched.undoesServer _ _ _ encrypted _ _ decrypted, ih _ _ _ _ later,
                List.take_append_drop]

/-- A key that the server accepts in its first stage, from a frame of the client, is the
client's own. -/
theorem keyed_first (matched : Matched lib java clientKey rsaServerCrypto aesKey)
    {before after : Session Key} {key frame : Bytes}
    (keyed : ProtocolClient.Keyed lib before after key frame)
    (server : before.client.cryptoModule.rsaServerCrypto = rsaServerCrypto)
    (enciphered : Enciphered java (PacketType.PUBLIC_KEY.toUInt8 :: java.publicKey)
      (before.inbound.headD [])) (session : before.client.cryptoModule.aesKey = aesKey) :
    after.client.cryptoModule.rsaSimpleCrypto.encryptor = clientKey ∧ ∃ number,
      lib.rsaEncrypt number clientKey (PacketType.SYMMETRIC_KEY.toUInt8 :: aesKey) = .ok frame := by
  obtain ⟨header, module, heard⟩ := keyed.heard
  simp only [CryptoModule.decrypt, bind_run, get_run, server, CryptoModule.decryptRSA,
    matched.serverWidth] at heard
  have text := decryptRSA_enciphered matched enciphered _ _ _ _ heard
  obtain ⟨_, rfl⟩ := List.cons.inj text
  have own := matched.loads _ _ keyed.loaded
  obtain ⟨first, last, answered⟩ := keyed.answered
  rw [session] at answered
  have fits : (PacketType.SYMMETRIC_KEY.toUInt8 :: aesKey).length ≤
      after.client.cryptoModule.rsaSimpleCrypto.maxPlainTextLength := by
    rw [keyed.width, own, List.length_cons, matched.width]
    exact matched.clientWidth
  obtain ⟨number, encrypted⟩ := CryptoModule.encryptRSA_single (by simp) fits answered
  rw [own] at encrypted
  exact ⟨own, number, encrypted⟩

end Server

section Client

variable {lib : CryptoLibrary Key} {java : Library} {clientKey : Key}
  {rsaServerCrypto : RSASimpleCrypto Key} {aesKey : Bytes} {dialogue : Dialogue Key}

/-- A step of the client for which it takes and sends no frame. -/
theorem Agreeing.client {client : Client}
    (agreeing : dialogue.Agreeing lib java clientKey rsaServerCrypto aesKey)
    (phase : client.Phase java.publicKey aesKey dialogue.fetched dialogue.up.length)
    (come : dialogue.client.HasCome client) :
    ({ dialogue with client } : Dialogue Key).Agreeing lib java clientKey rsaServerCrypto
      aesKey := by
  obtain ⟨serving, _, fetched, down, up, arrived, opened⟩ := agreeing
  obtain ⟨sound, stays, server, session, taken, handled, early, late⟩ := serving
  refine ⟨⟨sound, stays, server, session, taken, handled, early, late⟩, phase, fetched, down, up,
    ?_, opened⟩
  intro isEncryptionOn bytes came
  exact arrived isEncryptionOn bytes (come isEncryptionOn bytes came)

/-- The server has sent no frame that it was not asked for. -/
theorem Serving.answered (serving : dialogue.Serving rsaServerCrypto aesKey)
    (next : dialogue.fetched < dialogue.down.length) (early : dialogue.fetched ≤ 2) :
    dialogue.fetched ≤ dialogue.up.length := by
  have taken := serving.taken
  have handled := serving.handled
  by_cases changing : ProtocolClient.epoch dialogue.server.client.stage < 2
  · have sent := serving.early changing
    omega
  · omega

theorem Agreeing.fetch {frame : Seal Key × Bytes} {client : Client}
    (agreeing : dialogue.Agreeing lib java clientKey rsaServerCrypto aesKey)
    (next : dialogue.down[dialogue.fetched]? = some frame)
    (ran : dialogue.client.fetch frame.2 = some client) :
    ({ dialogue with client, fetched := dialogue.fetched + 1 } : Dialogue Key).Agreeing lib java
      clientKey rsaServerCrypto aesKey := by
  have room : dialogue.fetched < dialogue.down.length := (List.getElem?_eq_some_iff.mp next).1
  have phase := Client.fetch_phase agreeing.phase (agreeing.serving.answered room) ran
  obtain ⟨serving, _, fetched, down, up, arrived, opened⟩ := agreeing
  obtain ⟨sound, stays, server, session, taken, handled, early, late⟩ := serving
  refine ⟨⟨sound, stays, server, session, taken, handled, early, late⟩, phase, room, down, up,
    ?_, opened⟩
  intro isEncryptionOn bytes came
  refine ⟨Nat.succ_pos _, frame.1, ?_⟩
  dsimp only
  rw [Nat.add_sub_cancel, next]
  cases reader : dialogue.client.reader with
  | reading choice =>
      simp only [Client.fetch, reader] at ran
      split at ran
      · cases ran
      · split at ran
        · cases ran
          cases came
          rfl
        · cases ran
          cases came
  | _ => simp [Client.fetch, reader] at ran

/-- What a client finds in a frame that it has taken, and the cipher that it finds it with. -/
theorem Agreeing.hears (matched : Matched lib java clientKey rsaServerCrypto aesKey)
    (agreeing : dialogue.Agreeing lib java clientKey rsaServerCrypto aesKey)
    {isEncryptionOn : Bool} {bytes : Bytes} {sealing : Seal Key}
    (reader : dialogue.client.reader = .arrived isEncryptionOn bytes)
    (frame : dialogue.down[dialogue.fetched - 1]? = some (sealing, bytes)) :
    Agrees clientKey { sealing, opening := dialogue.client.opening } ∧
      ∀ packet, LayerManager.receive java isEncryptionOn dialogue.client.cipherModule bytes =
          .ok packet →
        (dialogue.fetched ≤ 2 →
          packet = some (Account.expected aesKey (dialogue.fetched - 1))) ∧
        (3 ≤ dialogue.fetched → Benign packet) := by
  obtain ⟨changes, place, rfl, module⟩ := agreeing.phase.opening reader
  have made := agreeing.down _ _ frame
  simp only [Client.opening, reader, module]
  obtain rfl | rfl | rfl : changes = 0 ∨ changes = 1 ∨ changes = 2 := by omega
  · have number : dialogue.fetched = 1 := by omega
    rw [number] at made ⊢
    obtain ⟨rfl, rfl⟩ := Prod.mk.inj (show (sealing, bytes) = _ from made)
    refine ⟨⟨.plain, rfl, .plain⟩, ?_⟩
    intro packet returned
    cases returned
    exact ⟨fun _ => rfl, fun late => absurd late (by decide)⟩
  · have number : dialogue.fetched = 2 := by omega
    rw [number] at made ⊢
    obtain ⟨rfl, draw, encrypted⟩ := made
    refine ⟨⟨.clientPrivate, rfl, .client⟩, ?_⟩
    intro packet returned
    obtain ⟨temp, decrypted, found⟩ := receive_text returned
    have plain : java.decryptClientPrivate bytes = some temp := CipherModule.doFinal_ok decrypted
    rw [matched.undoesClient _ _ _ encrypted _ plain, receive_symmetricKey] at found
    cases found
    exact ⟨fun _ => rfl, fun late => absurd late (by decide)⟩
  · obtain ⟨later, number⟩ : ∃ later, dialogue.fetched - 1 = later + 2 :=
      ⟨dialogue.fetched - 3, by omega⟩
    rw [number] at made
    obtain ⟨rfl, type, payload, encrypted, kinds⟩ := made
    refine ⟨⟨.session aesKey, rfl, .session matched.width⟩, ?_⟩
    intro packet returned
    refine ⟨fun early => absurd early (by omega), fun _ => ?_⟩
    obtain ⟨temp, decrypted, found⟩ := receive_text returned
    have plain : java.decryptSession aesKey bytes = some temp := CipherModule.doFinal_ok decrypted
    rw [matched.undoesSession _ _ encrypted _ plain] at found
    exact receive_benign kinds found

theorem Agreeing.decipher (matched : Matched lib java clientKey rsaServerCrypto aesKey)
    (agreeing : dialogue.Agreeing lib java clientKey rsaServerCrypto aesKey)
    {frame : Seal Key × Bytes} {client : Client}
    (last : dialogue.down[dialogue.fetched - 1]? = some frame)
    (ran : dialogue.client.decipher java = some client) :
    ({ dialogue with
        client
        opened := dialogue.opened ++
          [{ sealing := frame.1, opening := dialogue.client.opening }] } :
      Dialogue Key).Agreeing lib java clientKey rsaServerCrypto aesKey := by
  cases reader : dialogue.client.reader with
  | arrived isEncryptionOn bytes =>
      obtain ⟨_, sealing, placed⟩ := agreeing.arrived _ _ reader
      rw [placed] at last
      cases last
      obtain ⟨agrees, heard⟩ := agreeing.hears matched reader placed
      have phase := Client.decipher_phase agreeing.phase (by
        intro choice found packet came returned
        cases reader.symm.trans came
        exact heard packet returned) ran
      obtain ⟨serving, _, fetched, down, up, arrived, opened⟩ := agreeing
      obtain ⟨sound, stays, server, session, taken, handled, early, late⟩ := serving
      refine ⟨⟨sound, stays, server, session, taken, handled, early, late⟩, phase, fetched, down,
        up, ?_, ?_⟩
      · intro choice found came
        simp only [Client.decipher, reader] at ran
        split at ran
        · cases ran
          cases came
        · cases ran
          cases came
      · intro entry member
        rcases List.mem_append.mp member with earlier | now
        · exact opened entry earlier
        · rw [List.mem_singleton.mp now]
          exact agrees
  | _ => simp [Client.decipher, reader] at ran

theorem Agreeing.send (matched : Matched lib java clientKey rsaServerCrypto aesKey)
    (agreeing : dialogue.Agreeing lib java clientKey rsaServerCrypto aesKey) {draw : Nat}
    {bytes : Bytes} {sealing : Seal Key} (ran : dialogue.client.sent java draw = .ok bytes)
    (cipher : dialogue.client.sealing Key = some sealing) :
    ({ dialogue with
        client := dialogue.client.written
        up := dialogue.up ++ [(sealing, bytes)] } :
      Dialogue Key).Agreeing lib java clientKey rsaServerCrypto aesKey := by
  cases writer : dialogue.client.writer with
  | holding packet =>
      have phase := Client.written_phase agreeing.phase writer
      obtain ⟨on, settings⟩ := agreeing.phase.sealing writer
      simp only [Client.sent, writer, on] at ran
      simp only [Client.sealing, LayerManager.sealing, on, if_true] at cipher
      obtain ⟨serving, _, fetched, down, up, arrived, opened⟩ := agreeing
      obtain ⟨sound, stays, server, session, taken, handled, early, late⟩ := serving
      have longer : (dialogue.up ++ [(sealing, bytes)]).length = dialogue.up.length + 1 := by simp
      have room : dialogue.handled ≤ (dialogue.up ++ [(sealing, bytes)]).length := by
        rw [longer]
        omega
      refine ⟨⟨sound, stays, server, session, taken, room, early, late⟩, longer ▸ phase, fetched,
        down, ?_, arrived, opened⟩
      intro number frame placed
      by_cases last : number < dialogue.up.length
      · dsimp only at placed
        rw [List.getElem?_append_left last] at placed
        exact up number frame placed
      · have inside := (List.getElem?_eq_some_iff.mp placed).1
        rw [longer] at inside
        obtain rfl : number = dialogue.up.length := by omega
        dsimp only at placed
        rw [List.getElem?_concat_length] at placed
        cases placed
        rcases settings with ⟨few, server', first⟩ | ⟨many, module⟩
        · rw [server' Key] at cipher
          cases cipher
          refine ⟨fun _ => rfl, fun late => by omega, ?_⟩
          intro none_sent
          rw [first none_sent] at ran
          exact send_enciphered matched.fills (server' Unit) rfl ran
        · rw [module] at cipher
          cases cipher
          exact ⟨fun early => by omega, fun _ => rfl, fun none_sent => by omega⟩
  | _ => simp [Client.sent, writer] at ran

end Client

section Server

variable {lib : CryptoLibrary Key} {java : Library} {clientKey : Key}
  {rsaServerCrypto : RSASimpleCrypto Key} {aesKey : Bytes} {dialogue : Dialogue Key}

/-- A client has sent no more frames than it was asked for, while the server waits for one
that makes it change its ciphers. -/
theorem Agreeing.few (agreeing : dialogue.Agreeing lib java clientKey rsaServerCrypto aesKey)
    (early : ProtocolClient.epoch dialogue.server.client.stage < 2) :
    dialogue.up.length ≤ ProtocolClient.epoch dialogue.server.client.stage + 1 := by
  have sent := agreeing.serving.early early
  have fetched := agreeing.fetched
  have bound := agreeing.phase.sent_le (by omega)
  omega

/-- The cipher under which the session reads is the counterpart of what arrives. -/
theorem Agreeing.reads (matched : Matched lib java clientKey rsaServerCrypto aesKey)
    (agreeing : dialogue.Agreeing lib java clientKey rsaServerCrypto aesKey) {number : Nat}
    {frame : Seal Key × Bytes} (next : dialogue.handled ≤ number)
    (placed : dialogue.up[number]? = some frame) :
    Agrees clientKey { sealing := frame.1, opening := dialogue.server.client.opening } := by
  have inside := (List.getElem?_eq_some_iff.mp placed).1
  have made := agreeing.up _ _ placed
  have taken := agreeing.serving.taken
  have few := agreeing.few
  unfold ProtocolClient.opening ProtocolClient.reads
  have late : 2 ≤ number → Agrees clientKey
      { sealing := frame.1
        opening := dialogue.server.client.cryptoModule.opening .AES } := by
    intro late
    rw [made.late late, CryptoModule.opening, agreeing.serving.aesKey]
    exact ⟨_, rfl, .session matched.width⟩
  have early : number < 2 → Agrees clientKey
      { sealing := frame.1
        opening := dialogue.server.client.cryptoModule.opening .ServerRSA } := by
    intro early
    rw [made.early early, CryptoModule.opening, agreeing.serving.rsaServerCrypto,
      if_pos matched.loaded]
    exact ⟨_, rfl, .server⟩
  cases stage : dialogue.server.client.stage with
  | SetPublicKey | SetSymmetricKey =>
      rw [stage] at few
      have bound : dialogue.up.length ≤ 2 := Nat.le_trans (few (by decide)) (by decide)
      exact early (by omega)
  | TestKey =>
      rw [stage] at taken
      exact late (Nat.le_trans taken next)
  | StableCommunication =>
      rw [stage] at taken
      dsimp only
      rw [agreeing.serving.sound.aes stage]
      exact late (Nat.le_trans taken next)
  | Exit => exact absurd stage agreeing.serving.stays

theorem mem_inbound {arrived : Nat} {frame : Seal Key × Bytes}
    (member : frame ∈ dialogue.inbound arrived) :
    ∃ number, dialogue.handled ≤ number ∧ dialogue.up[number]? = some frame := by
  obtain ⟨place, found⟩ := List.mem_iff_getElem?.mp (List.mem_of_mem_take member)
  rw [List.getElem?_drop] at found
  exact ⟨_, Nat.le_add_right _ _, found⟩

theorem length_inbound (dialogue : Dialogue Key) (arrived : Nat) :
    (dialogue.inbound arrived).length ≤ dialogue.up.length - dialogue.handled := by
  rw [inbound, List.length_take, List.length_drop]
  omega

/-- The frame that a session finds first is the next one of the client. -/
theorem first_inbound {arrived : Nat}
    (found : ((dialogue.inbound arrived).map (·.2)).headD [] ≠ []) :
    0 < (dialogue.inbound arrived).length ∧ ∃ frame, dialogue.up[dialogue.handled]? = some frame ∧
      ((dialogue.inbound arrived).map (·.2)).headD [] = frame.2 := by
  cases frames : dialogue.inbound arrived with
  | nil =>
      rw [frames] at found
      exact absurd rfl found
  | cons frame others =>
      refine ⟨by simp, frame, ?_, rfl⟩
      have first : (dialogue.inbound arrived)[0]? = some frame := by rw [frames]; rfl
      rw [inbound, List.getElem?_take] at first
      split at first
      · rwa [List.getElem?_drop] at first
      · cases first

/-- What a session reads is decrypted with the counterpart of what it was encrypted with. -/
theorem Agreeing.opened_advance (matched : Matched lib java clientKey rsaServerCrypto aesKey)
    (agreeing : dialogue.Agreeing lib java clientKey rsaServerCrypto aesKey) (arrived : Nat)
    (server : ProtocolClient.Life Key) :
    ∀ entry ∈ (dialogue.advance server (dialogue.inbound arrived)).opened,
      Agrees clientKey entry := by
  intro entry member
  rcases List.mem_append.mp member with earlier | now
  · exact agreeing.opened entry earlier
  · obtain ⟨frame, taken, rfl⟩ := List.mem_map.mp now
    obtain ⟨number, next, placed⟩ := mem_inbound (List.mem_of_mem_take taken)
    exact agreeing.reads matched next placed

theorem down_late {number : Nat} {frame : Seal Key × Bytes} (late : 2 ≤ number)
    (made : ∃ bytes, frame = (.session aesKey, bytes) ∧ ProtocolClient.Later lib aesKey bytes) :
    Down lib clientKey aesKey number frame := by
  obtain ⟨more, rfl⟩ : ∃ more, number = more + 2 := ⟨number - 2, by omega⟩
  obtain ⟨bytes, rfl, later⟩ := made
  exact ⟨rfl, later⟩

/-- The session sends more frames. -/
theorem Agreeing.sends (agreeing : dialogue.Agreeing lib java clientKey rsaServerCrypto aesKey)
    {server : ProtocolClient.Life Key} {more : List (Seal Key × Bytes)} {handled : Nat}
    {opened : List (Opened Key)}
    (serving : ({ dialogue with server, down := dialogue.down ++ more, handled, opened } :
      Dialogue Key).Serving rsaServerCrypto aesKey)
    (fresh : ∀ number frame, more[number]? = some frame →
      Down lib clientKey aesKey (dialogue.down.length + number) frame)
    (agrees : ∀ entry ∈ opened, Agrees clientKey entry) :
    ({ dialogue with server, down := dialogue.down ++ more, handled, opened } :
      Dialogue Key).Agreeing lib java clientKey rsaServerCrypto aesKey := by
  refine ⟨serving, agreeing.phase, ?_, ?_, agreeing.up, ?_, agrees⟩
  · have fetched := agreeing.fetched
    dsimp only
    rw [List.length_append]
    omega
  · intro number frame placed
    dsimp only at placed
    by_cases earlier : number < dialogue.down.length
    · rw [List.getElem?_append_left earlier] at placed
      exact agreeing.down number frame placed
    · rw [List.getElem?_append_right (by omega)] at placed
      have made := fresh _ frame placed
      rwa [Nat.add_sub_cancel' (by omega)] at made
  · intro isEncryptionOn bytes came
    obtain ⟨some_taken, sealing, placed⟩ := agreeing.arrived isEncryptionOn bytes came
    refine ⟨some_taken, sealing, ?_⟩
    dsimp only
    rw [List.getElem?_append_left (List.getElem?_eq_some_iff.mp placed).1]
    exact placed

/-- The session moves to a stage that goes with the frames it has taken and sent. -/
theorem Serving.moves (serving : dialogue.Serving rsaServerCrypto aesKey)
    {server : ProtocolClient.Life Key} {client : ProtocolClient Key}
    {more : List (Seal Key × Bytes)} {handled : Nat} {opened : List (Opened Key)}
    (now : server.client = client) (sound : server.client.Sound)
    (fixed : dialogue.server.client.cryptoModule.Fixed client.cryptoModule)
    (within : handled ≤ dialogue.up.length) (stays : client.stage ≠ .Exit)
    (taken : ProtocolClient.epoch client.stage ≤ handled)
    (early : ProtocolClient.epoch client.stage < 2 →
      dialogue.down.length + more.length = ProtocolClient.epoch client.stage + 1)
    (late : ProtocolClient.epoch client.stage = 2 → 3 ≤ dialogue.down.length + more.length) :
    ({ dialogue with server, down := dialogue.down ++ more, handled, opened } :
      Dialogue Key).Serving rsaServerCrypto aesKey := by
  refine ⟨sound, ?_, ?_, ?_, ?_, within, ?_, ?_⟩ <;> dsimp only <;> rw [now]
  · exact stays
  · exact fixed.rsaServerCrypto.trans serving.rsaServerCrypto
  · exact fixed.aesKey.trans serving.aesKey
  · exact taken
  · rwa [List.length_append]
  · rwa [List.length_append]

/-- The first frame that a session answers is the client's own key. -/
theorem Agreeing.takesKey (matched : Matched lib java clientKey rsaServerCrypto aesKey)
    (agreeing : dialogue.Agreeing lib java clientKey rsaServerCrypto aesKey)
    {before after : Session Key} {key frame : Bytes} {arrived : Nat}
    (start : before.client = dialogue.server.client)
    (found : before.inbound = (dialogue.inbound arrived).map (·.2))
    (stage : dialogue.server.client.stage = .SetPublicKey)
    (keyed : ProtocolClient.Keyed lib before after key frame) :
    0 < (dialogue.inbound arrived).length ∧ dialogue.down.length = 1 ∧
      after.client.cryptoModule.rsaSimpleCrypto.encryptor = clientKey ∧ ∃ number,
        lib.rsaEncrypt number clientKey (PacketType.SYMMETRIC_KEY.toUInt8 :: aesKey) =
          .ok frame := by
  obtain ⟨header, module, heard⟩ := keyed.heard
  have filled : before.inbound.headD [] ≠ [] := by
    intro absent
    rw [absent] at heard
    cases CryptoModule.decrypt_server_nil rfl heard
  rw [found] at filled
  obtain ⟨some_arrived, first, placed, head⟩ := first_inbound filled
  have few := agreeing.few
  have early := agreeing.serving.early
  rw [stage] at few early
  have bound : dialogue.up.length ≤ 1 := few (by decide)
  have level : dialogue.down.length = 1 := early (by decide)
  have inside := (List.getElem?_eq_some_iff.mp placed).1
  have none_taken : dialogue.handled = 0 := by omega
  rw [none_taken] at placed
  refine ⟨some_arrived, level, keyed_first matched keyed ?_ ?_ ?_⟩
  · rw [start]
    exact agreeing.serving.rsaServerCrypto
  · rw [found, head]
    exact (agreeing.up _ _ placed).first rfl
  · rw [start]
    exact agreeing.serving.aesKey

/-- What the session sends comes next on the way down. -/
theorem Agreeing.sent_down (matched : Matched lib java clientKey rsaServerCrypto aesKey)
    (agreeing : dialogue.Agreeing lib java clientKey rsaServerCrypto aesKey)
    {before after : Session Key} {news : List Act} {arrived : Nat}
    (start : before.client = dialogue.server.client)
    (found : before.inbound = (dialogue.inbound arrived).map (·.2))
    (hands : ProtocolClient.Hands lib before after news) {number : Nat} {frame : Seal Key × Bytes}
    (placed : (news.filterMap (Act.sealed after.client.cryptoModule))[number]? = some frame) :
    Down lib clientKey aesKey (dialogue.down.length + number) frame := by
  have early := agreeing.serving.early
  have session := agreeing.serving.aesKey
  cases hands with
  | silent stage frames =>
      rw [frames] at placed
      cases placed
  | takesKey key answer stage next frames reads keyed =>
      rw [start] at stage
      obtain ⟨_, level, own, draw, encrypted⟩ :=
        agreeing.takesKey matched start found stage keyed
      rw [frames, own] at placed
      obtain rfl : number = 0 := by
        have single := (List.getElem?_eq_some_iff.mp placed).1
        simpa using single
      cases placed
      rw [level]
      exact ⟨rfl, draw, encrypted⟩
  | takesEcho answer stage next frames reads filled later =>
      rw [start] at stage frames later
      rw [session] at frames later
      rw [stage] at early
      have level : dialogue.down.length = 2 := early (by decide)
      rw [frames] at placed
      have member := List.mem_of_getElem? placed
      exact down_late (by omega) ⟨answer, List.mem_singleton.mp member, later⟩
  | settled through next frames =>
      rw [start] at through frames
      rw [session] at frames
      have level := agreeing.serving.late through
      exact down_late (by omega) (frames _ (List.mem_of_getElem? placed))

/-- The stage that the session comes to goes with the frames it has taken and sent. -/
theorem Agreeing.stands (matched : Matched lib java clientKey rsaServerCrypto aesKey)
    (agreeing : dialogue.Agreeing lib java clientKey rsaServerCrypto aesKey)
    {before after : Session Key} {news : List Act} {arrived : Nat}
    (start : before.client = dialogue.server.client)
    (found : before.inbound = (dialogue.inbound arrived).map (·.2))
    (hands : ProtocolClient.Hands lib before after news) :
    after.client.stage ≠ .Exit ∧
      ProtocolClient.epoch after.client.stage ≤
        dialogue.handled + min (news.countP Act.isRead) (dialogue.inbound arrived).length ∧
      (ProtocolClient.epoch after.client.stage < 2 → dialogue.down.length +
        (news.filterMap (Act.sealed after.client.cryptoModule)).length =
          ProtocolClient.epoch after.client.stage + 1) ∧
      (ProtocolClient.epoch after.client.stage = 2 → 3 ≤ dialogue.down.length +
        (news.filterMap (Act.sealed after.client.cryptoModule)).length) := by
  obtain ⟨_, stays, _, _, taken, _, early, late⟩ := agreeing.serving
  cases hands with
  | silent stage frames =>
      rw [start] at stage
      rw [stage, frames]
      exact ⟨stays, Nat.le_trans taken (Nat.le_add_right _ _), early, late⟩
  | takesKey key answer stage next frames reads keyed =>
      rw [start] at stage
      obtain ⟨some_arrived, level, _⟩ := agreeing.takesKey matched start found stage keyed
      rw [next, frames, level]
      refine ⟨by decide, ?_, fun _ => rfl, fun late => absurd late (by decide)⟩
      change 1 ≤ _
      omega
  | takesEcho answer stage next frames reads filled later =>
      rw [found] at filled
      obtain ⟨some_arrived, _⟩ := first_inbound filled
      rw [start] at stage
      rw [stage] at taken early
      have some_taken : 1 ≤ dialogue.handled := taken
      have level : dialogue.down.length = 2 := early (by decide)
      rw [next, frames, level]
      refine ⟨by decide, ?_, fun early => absurd early (by decide), fun _ => Nat.le_refl 3⟩
      change 2 ≤ _
      omega
  | settled through next frames =>
      rw [start] at through next
      rw [through] at taken
      have level := late through
      have kept : after.client.stage ≠ .Exit ∧ ProtocolClient.epoch after.client.stage = 2 := by
        rcases next with same | stable
        · rw [same]
          exact ⟨stays, through⟩
        · rw [stable]
          exact ⟨by decide, rfl⟩
      rw [kept.2]
      exact ⟨kept.1, by omega, by omega, fun _ => by omega⟩

/-- The session moves on. -/
theorem Agreeing.advance (matched : Matched lib java clientKey rsaServerCrypto aesKey)
    (agreeing : dialogue.Agreeing lib java clientKey rsaServerCrypto aesKey)
    {before after : Session Key} {server : ProtocolClient.Life Key} {news : List Act}
    {arrived : Nat} (start : before.client = dialogue.server.client)
    (found : before.inbound = (dialogue.inbound arrived).map (·.2))
    (client : server.client = after.client)
    (acts : server.acts = dialogue.server.acts ++ news) (sound : server.client.Sound)
    (fixed : before.client.cryptoModule.Fixed after.client.cryptoModule)
    (hands : ProtocolClient.Hands lib before after news) :
    (dialogue.advance server (dialogue.inbound arrived)).Agreeing lib java clientKey
      rsaServerCrypto aesKey := by
  have agrees := agreeing.opened_advance matched arrived server
  have fresh : server.acts.drop dialogue.server.acts.length = news := by
    rw [acts, List.drop_left]
  have room := length_inbound dialogue arrived
  have handled := agreeing.serving.handled
  have within : dialogue.handled +
      min (news.countP Act.isRead) (dialogue.inbound arrived).length ≤ dialogue.up.length := by
    omega
  obtain ⟨stays, taken, early, late⟩ := agreeing.stands matched start found hands
  rw [start] at fixed
  dsimp only [Dialogue.advance] at agrees ⊢
  rw [fresh] at agrees ⊢
  rw [client]
  refine agreeing.sends ?_ ?_ agrees
  · exact agreeing.serving.moves client sound fixed within stays taken early late
  · intro number frame placed
    exact agreeing.sent_down matched start found hands placed

end Server

section Runs

variable {lib : CryptoLibrary Key} {java : Library} {clientKey : Key}
  {rsaServerCrypto : RSASimpleCrypto Key} {aesKey : Bytes} {dialogue after : Dialogue Key}

/-- The session serves a message. -/
theorem Agreeing.serve (matched : Matched lib java clientKey rsaServerCrypto aesKey)
    (agreeing : dialogue.Agreeing lib java clientKey rsaServerCrypto aesKey) (turn : Turn)
    (arrived : Nat) :
    (dialogue.advance ((dialogue.delivered turn arrived).apply lib dialogue.server)
      (dialogue.inbound arrived)).Agreeing lib java clientKey rsaServerCrypto aesKey := by
  let turn' : Turn := { turn with inbound := (dialogue.inbound arrived).map (·.2) }
  let before : Session Key := dialogue.server.session turn'
  have start : before.client = dialogue.server.client := rfl
  have found : before.inbound = (dialogue.inbound arrived).map (·.2) := rfl
  have sound : ProtocolClient.Sound before.client := agreeing.serving.sound
  obtain ⟨client, acts⟩ :=
    ProtocolClient.ofResult_final (ProtocolClient.recv lib turn' before) .alive
  obtain ⟨news, entries, hands⟩ :=
    @ProtocolClient.recv_hands _ lib before turn' sound
  have seals : ProtocolClient.Seals lib before
      (finalState (ProtocolClient.recv lib turn' before)) :=
    ProtocolClient.recv_seals turn' before
  have stays := (ProtocolClient.recv_outcome lib turn' sound).sound sound
  rw [← client] at stays
  exact agreeing.advance matched start found client (acts.trans entries) stays seals.fixed hands

/-- The session is erased. -/
theorem Agreeing.erase (matched : Matched lib java clientKey rsaServerCrypto aesKey)
    (agreeing : dialogue.Agreeing lib java clientKey rsaServerCrypto aesKey)
    (database : Database) (alive : dialogue.server.status = .alive) :
    (dialogue.advance ((ProtocolClient.Event.erase database).apply lib dialogue.server)
      []).Agreeing lib java clientKey rsaServerCrypto aesKey := by
  let before : Session Key := { client := dialogue.server.client, database }
  have start : before.client = dialogue.server.client := rfl
  have found : before.inbound = (dialogue.inbound 0).map (·.2) := rfl
  have step : ProtocolClient.Step lib dialogue.server (.erase database)
      ((ProtocolClient.Event.erase database).apply lib dialogue.server) := ⟨alive, rfl⟩
  obtain ⟨client, ending⟩ := ProtocolClient.step_erase step
  obtain ⟨news, acts, frames⟩ : ∃ news,
      ((ProtocolClient.Event.erase database).apply lib dialogue.server).acts =
        dialogue.server.acts ++ news ∧
      news.filterMap (Act.sealed before.client.cryptoModule) = [] := by
    rcases ending with ⟨_, same⟩ | ⟨_, reply, unregistered⟩
    · exact ⟨[], by rw [same, List.append_nil], rfl⟩
    · exact ⟨_, unregistered, rfl⟩
  have sound := agreeing.serving.sound
  rw [← client] at sound
  have silent : ProtocolClient.Hands lib before before news := .silent rfl frames
  exact agreeing.advance matched start found client acts sound (.refl _) silent

/-- Every step of either side keeps the dialogue agreeing. -/
theorem Agreeing.step (matched : Matched lib java clientKey rsaServerCrypto aesKey)
    (agreeing : dialogue.Agreeing lib java clientKey rsaServerCrypto aesKey) {event : Event}
    (step : Step lib java dialogue event after) :
    after.Agreeing lib java clientKey rsaServerCrypto aesKey := by
  unfold Step at step
  cases event with
  | main =>
      obtain ⟨client, ran, rfl⟩ := Option.map_eq_some_iff.mp step
      exact agreeing.client (Client.main_phase agreeing.phase ran) (Client.main_come ran)
  | mainThrows =>
      obtain ⟨client, ran, rfl⟩ := Option.map_eq_some_iff.mp step
      exact agreeing.client (Client.mainThrows_phase agreeing.phase ran)
        (Client.mainThrows_come ran)
  | mainInterrupted =>
      obtain ⟨client, ran, rfl⟩ := Option.map_eq_some_iff.mp step
      exact agreeing.client (Client.mainInterrupted_phase agreeing.phase ran)
        (Client.mainInterrupted_come ran)
  | read =>
      obtain ⟨client, ran, rfl⟩ := Option.map_eq_some_iff.mp step
      exact agreeing.client (Client.read_phase agreeing.phase ran) (Client.read_come ran)
  | readerFails =>
      obtain ⟨client, ran, rfl⟩ := Option.map_eq_some_iff.mp step
      exact agreeing.client (Client.readerFails_phase agreeing.phase ran)
        (Client.readerFails_come ran)
  | take =>
      obtain ⟨client, ran, rfl⟩ := Option.map_eq_some_iff.mp step
      exact agreeing.client (Client.take_phase agreeing.phase ran) (Client.take_come ran)
  | writerFails caught =>
      obtain ⟨client, ran, rfl⟩ := Option.map_eq_some_iff.mp step
      exact agreeing.client (Client.writerFails_phase agreeing.phase ran)
        (Client.writerFails_come ran)
  | fetch =>
      obtain ⟨frame, next, rest⟩ := Option.bind_eq_some_iff.mp step
      obtain ⟨client, ran, rfl⟩ := Option.map_eq_some_iff.mp rest
      exact agreeing.fetch next ran
  | decipher =>
      obtain ⟨frame, last, rest⟩ := Option.bind_eq_some_iff.mp step
      obtain ⟨client, ran, rfl⟩ := Option.map_eq_some_iff.mp rest
      exact agreeing.decipher matched last ran
  | send draw =>
      simp only [Dialogue.step] at step
      split at step
      · rename_i ran cipher
        cases step
        exact agreeing.send matched ran cipher
      · cases step
  | serve turn arrived =>
      simp only [Dialogue.step, Option.ite_none_right_eq_some, Option.some.injEq] at step
      obtain ⟨_, rfl⟩ := step
      exact agreeing.serve matched turn arrived
  | erase database =>
      simp only [Dialogue.step, Option.ite_none_right_eq_some, Option.some.injEq] at step
      obtain ⟨alive, rfl⟩ := step
      exact agreeing.erase matched database alive

/-- The client has connected, and waits for the frame that greets it. -/
theorem agreeing_start (rsaServerCrypto : RSASimpleCrypto Key) (blank : Key) (aesKey : Bytes)
    (blockingQueue : QueueRef) :
    (start (ProtocolClient.create lib rsaServerCrypto blank aesKey blockingQueue)).Agreeing lib
      java clientKey rsaServerCrypto aesKey := by
  have sound := ProtocolClient.create_sound lib rsaServerCrypto blank aesKey blockingQueue
  rw [ProtocolClient.create_eq] at sound ⊢
  refine ⟨⟨sound, ?_, rfl, rfl, Nat.le_refl 0, Nat.le_refl 0, fun _ => rfl, ?_⟩, ?_,
    Nat.zero_le _, ?_, ?_, ?_, ?_⟩
  · intro exits
    cases exits
  · intro late
    cases late
  · refine .resting 0 (by decide) rfl ⟨rfl, rfl, Nat.le_refl 0, Nat.zero_le 1, fun _ => rfl, ?_, ?_⟩
      ⟨?_, ?_⟩ rfl trivial ?_
    · intro _ owes
      exact absurd owes (Nat.lt_irrefl 0)
    · intro _ packet member
      cases member
    · intro statement member
      cases member
    · exact fun _ => .inl rfl
    · intro isEncryptionOn reading
      cases reading
  · intro number frame placed
    cases number with
    | zero =>
        cases placed
        rfl
    | succ number => cases placed
  · intro number frame placed
    cases placed
  · intro isEncryptionOn bytes came
    cases came
  · intro entry member
    cases member

/-- Each frame that either side sets out to decrypt is decrypted with the counterpart of the
cipher that it was encrypted with. The session's own calls of `use` set the cipher that its reads
are counted under. -/
theorem cipher_agreement (matched : Matched lib java clientKey rsaServerCrypto aesKey)
    {blank : Key} {blockingQueue : QueueRef} {events : List Event}
    (run : Run (Step lib java)
      (start (ProtocolClient.create lib rsaServerCrypto blank aesKey blockingQueue)) events after) :
    (∀ entry ∈ after.opened, Agrees clientKey entry) ∧
      ∀ turn, ProtocolClient.ReadsAsStaged lib turn (after.server.session turn) := by
  have agreeing : after.Agreeing lib java clientKey rsaServerCrypto aesKey := by
    refine run.invariant (fun dialogue => dialogue.Agreeing lib java clientKey rsaServerCrypto
      aesKey) (agreeing_start rsaServerCrypto blank aesKey blockingQueue) ?_
    intro before event after held step
    exact held.step matched step
  refine ⟨agreeing.opened, fun turn => ?_⟩
  have sound : ProtocolClient.Sound (after.server.session turn).client := agreeing.serving.sound
  exact ProtocolClient.receiveData_reads lib turn sound agreeing.serving.stays

end Runs

section Handshake

def clientKey : Bytes := List.replicate 60 5

def sessionKey : Bytes := List.replicate 16 7

/-- A key is written in front of a text that it encrypts, and the length of a block in front of
the block. -/
def labelling : CryptoLibrary Bytes where
  load := fun bytes _ => (.ok (), bytes)
  validate := fun _ _ => true
  save := fun key => key
  fixedMaxPlaintextLength := fun _ => 53
  rsaEncrypt := fun _ key text => .ok (key ++ text)
  rsaDecrypt := fun _ cipher => .ok ((cipher.drop 1).take (cipher.headD 0).toNat)
  aesEncrypt := fun key text => .ok (key ++ text)
  aesDecrypt := fun key cipher =>
    if key.isPrefixOf cipher then .ok (cipher.drop key.length) else .error "invalid padding"
  patience := 1

def labels : Library where
  publicKey := clientKey
  encryptServerPublic := fun _ block =>
    if block.length ≤ 53 then
      some ((UInt8.ofNat block.length :: block) ++ List.replicate (127 - block.length) 0)
    else none
  decryptClientPrivate := fun cipher =>
    if clientKey.isPrefixOf cipher then some (cipher.drop 60) else none
  encryptSession := fun key text => some (key ++ text)
  decryptSession := fun key cipher =>
    if key.isPrefixOf cipher then some (cipher.drop key.length) else none

def serverKeys : RSASimpleCrypto Bytes where
  publicKey := []
  encryptor := []
  maxPlainTextLength := 117
  fixedCipherTextLength := 128
  publicKeyInitialized := true
  privateKeyInitialized := true

theorem labelling_matched : Matched labelling labels clientKey serverKeys sessionKey where
  loads := by
    intro key publicKey loaded
    exact (Prod.mk.inj loaded).2.symm
  fills := by
    intro draw block short
    refine ⟨_, if_pos short, ?_⟩
    simp only [List.length_append, List.length_cons, List.length_replicate]
    omega
  undoesServer := by
    intro draw block cipher encrypted number text decrypted
    simp only [labels, Option.ite_none_right_eq_some, Option.some.injEq] at encrypted
    obtain ⟨short, rfl⟩ := encrypted
    cases decrypted
    have count : (UInt8.ofNat block.length).toNat = block.length :=
      UInt8.toNat_ofNat_of_lt' (by change block.length < 256; omega)
    simp only [List.cons_append, List.drop_one, List.tail_cons, List.headD_cons, count]
    exact List.take_left
  undoesClient := by
    intro number text cipher encrypted plain decrypted
    cases encrypted
    simp only [labels, Option.ite_none_right_eq_some, Option.some.injEq] at decrypted
    rw [← decrypted.2]
    change (clientKey ++ text).drop clientKey.length = text
    exact List.drop_left
  undoesSession := by
    intro text cipher encrypted plain decrypted
    cases encrypted
    simp only [labels, Option.ite_none_right_eq_some, Option.some.injEq] at decrypted
    rw [← decrypted.2]
    exact List.drop_left
  width := rfl
  clientWidth := by decide
  serverWidth := rfl
  loaded := rfl

/-- A frame of the server comes in, and the client's main thread takes its packet. -/
def hearing : List Event := [.read, .read, .read, .fetch, .decipher, .read, .main, .read]

/-- A frame of the client comes in. -/
def serving : Event := .serve { message := .PacketReceive } 1

def handshake : List Event :=
  hearing ++ List.replicate 6 .main ++ [.take, .send 0, .main, .main, serving, .main, .main] ++
  hearing ++ List.replicate 3 .main ++
    [.take, .send 0, .main, .main, .main, serving, .main, .main] ++
  hearing ++ [.main, .take, .send 0, serving, .main, .main] ++ hearing ++ [.main, .main]

theorem cipher_agreement_handshake : ∃ after,
    Run (Step labelling labels)
      (start (ProtocolClient.create labelling serverKeys [] sessionKey 0)) handshake after ∧
    after.opened.length = 7 ∧ (∀ entry ∈ after.opened, Agrees clientKey entry) ∧
      ∀ turn, ProtocolClient.ReadsAsStaged labelling turn (after.server.session turn) := by
  have plays : ((play labelling labels
      (start (ProtocolClient.create labelling serverKeys [] sessionKey 0)) handshake).map
        (·.opened.length)) = some 7 := by
    decide +kernel
  obtain ⟨after, played, many⟩ := Option.map_eq_some_iff.mp plays
  have run := run_of_play played
  exact ⟨after, run, many, cipher_agreement labelling_matched run⟩

end Handshake

end Locus.Dialogue
