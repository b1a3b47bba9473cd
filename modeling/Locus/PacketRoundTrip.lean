import Locus.BufferDeque
import Locus.CryptoModuleLoop
import Locus.ProtocolClientStep

set_option autoImplicit false

/- client/Client and client/EncryptClient: a packet sent by one and received by its peer, with the
int counters of the buffer and of the block loops. -/
namespace Locus

open Program

variable {Key : Type}

namespace CryptoModule

/-- The object whose block loops `encrypt` and `decrypt` run. -/
def rsaObject (module : CryptoModule Key) : Option (RSASimpleCrypto Key) :=
  match module.algorithm with
  | .ServerRSA => some module.rsaServerCrypto
  | .OuterRSA => some module.rsaSimpleCrypto
  | .None | .AES => none

/-- A block that `rsa` encrypts is one that `other` decrypts, whatever either draws. The library
counts the bits and bytes of a number, and so both lengths, in an `unsigned int`. -/
structure BlockInverse (lib peerLib : CryptoLibrary Key) (rsa other : RSASimpleCrypto Key) :
    Prop where
  publicKey : rsa.publicKeyInitialized = true
  privateKey : other.privateKeyInitialized = true
  someText : 1 ≤ rsa.maxPlainTextLength
  someCipher : 1 ≤ other.fixedCipherTextLength
  narrowText : rsa.maxPlainTextLength < 2 ^ 32
  narrowCipher : other.fixedCipherTextLength < 2 ^ 32
  inverse : ∀ number text, text.length ≤ rsa.maxPlainTextLength →
    ∃ cipher, lib.rsaEncrypt number rsa.encryptor text = .ok cipher ∧
      cipher.length = other.fixedCipherTextLength ∧
      ∀ draw, peerLib.rsaDecrypt draw cipher = .ok text

/-- A cipher text of whole blocks, each of them the cipher of the next piece of the text. -/
inductive InBlocks (peerLib : CryptoLibrary Key) (length width : Nat) :
    (text cipher : Bytes) → Prop
  | nil : InBlocks peerLib length width [] []
  | block {text piece rest : Bytes} (filled : text ≠ []) (wide : piece.length = width)
      (decrypts : ∀ draw, peerLib.rsaDecrypt draw piece = .ok (text.take length))
      (others : InBlocks peerLib length width (text.drop length) rest) :
      InBlocks peerLib length width text (piece ++ rest)

section Blocks

variable {lib peerLib : CryptoLibrary Key} {rsa other : RSASimpleCrypto Key}

/-- A turn of the loop that converts its block goes on behind it. -/
theorem blocks_step {convert : Bytes → CryptoM Key Bytes} {length turns : Nat} {bytes : Bytes}
    {before middle after : CryptoModule Key} {newBytes others : Bytes} (filled : bytes ≠ [])
    (converted : convert (bytes.take length) before = .ok newBytes middle)
    (rest : blocks convert length turns (bytes.drop length) middle = .ok others after) :
    blocks convert length (turns + 1) bytes before = .ok (newBytes ++ others) after := by
  cases bytes with
  | nil => exact absurd rfl filled
  | cons byte bytes => simp only [blocks, bind_run, converted, rest, pure_run]

/-- More turns make no difference to a loop that comes to its end. -/
theorem blocks_more {convert : Bytes → CryptoM Key Bytes} {length turns more : Nat}
    (enough : turns ≤ more) {bytes converted : Bytes} {before after : CryptoModule Key}
    (returned : blocks convert length turns bytes before = .ok converted after) :
    blocks convert length more bytes before = .ok converted after := by
  induction turns generalizing more bytes converted before after with
  | zero =>
      cases bytes with
      | nil =>
          rw [blocks_nil] at returned ⊢
          exact returned
      | cons byte bytes => cases returned
  | succ turns ih =>
      obtain ⟨more, rfl⟩ : ∃ others, more = others + 1 := ⟨more - 1, by omega⟩
      cases bytes with
      | nil => exact returned
      | cons byte bytes =>
          simp only [blocks, bind_ok_iff] at returned ⊢
          obtain ⟨newBytes, middle, first, others, last, rest, done⟩ := returned
          have fewer := Nat.le_of_succ_le_succ enough
          exact ⟨newBytes, middle, first, others, last, ih fewer rest, done⟩

theorem encryptBlock_run {text cipher : Bytes} {module : CryptoModule Key}
    (initialized : rsa.publicKeyInitialized = true) (short : text.length ≤ rsa.maxPlainTextLength)
    (encrypted : lib.rsaEncrypt module.draws rsa.encryptor text = .ok cipher) :
    encryptBlock lib rsa text module = .ok cipher { module with draws := module.draws + 1 } := by
  have fits : ¬ text.length > rsa.maxPlainTextLength := by omega
  simp only [encryptBlock, initialized, Bool.true_eq_false, if_false, if_neg fits, bind_run,
    draw_run, encrypted, thrown, ofExcept_ok_run]

theorem decryptBlock_run {text cipher : Bytes} {module : CryptoModule Key}
    (initialized : other.privateKeyInitialized = true)
    (wide : cipher.length = other.fixedCipherTextLength)
    (decrypted : peerLib.rsaDecrypt module.draws cipher = .ok text) :
    decryptBlock peerLib other cipher module =
      .ok text { module with draws := module.draws + 1 } := by
  simp only [decryptBlock, initialized, Bool.true_eq_false, if_false, wide, ne_eq,
    not_true_eq_false, bind_run, draw_run, decrypted, thrown, ofExcept_ok_run]

/-- The loop of `encryptRSA` comes to the end of every text. -/
theorem encrypt_inBlocks (inverse : BlockInverse lib peerLib rsa other) (turns : Nat) :
    ∀ text (module : CryptoModule Key), text.length ≤ turns →
      ∃ cipher after,
        blocks (encryptBlock lib rsa) rsa.maxPlainTextLength turns text module =
          .ok cipher after ∧
        InBlocks peerLib rsa.maxPlainTextLength other.fixedCipherTextLength text cipher := by
  induction turns with
  | zero =>
      intro text module short
      have empty : text = [] := List.eq_nil_of_length_eq_zero (by omega)
      subst empty
      exact ⟨[], module, blocks_nil _ _ _ _, .nil⟩
  | succ turns ih =>
      intro text module short
      by_cases filled : text = []
      · subst filled
        exact ⟨[], module, blocks_nil _ _ _ _, .nil⟩
      · have some_text := inverse.someText
        have within : (text.take rsa.maxPlainTextLength).length ≤ rsa.maxPlainTextLength :=
          List.length_take_le _ _
        obtain ⟨piece, encrypted, wide, decrypts⟩ := inverse.inverse module.draws _ within
        have fewer : (text.drop rsa.maxPlainTextLength).length ≤ turns := by
          have positive := List.length_pos_iff.mpr filled
          rw [List.length_drop]
          omega
        obtain ⟨rest, after, looped, others⟩ :=
          ih (text.drop rsa.maxPlainTextLength) { module with draws := module.draws + 1 } fewer
        have converted := encryptBlock_run inverse.publicKey within encrypted
        exact ⟨piece ++ rest, after, blocks_step filled converted looped,
          .block filled wide decrypts others⟩

/-- The loop of `decryptRSA` gets the text back. Its slices are the blocks. -/
theorem decrypt_inBlocks {length width : Nat} {text cipher : Bytes}
    (initialized : other.privateKeyInitialized = true)
    (width_eq : width = other.fixedCipherTextLength) (positive : 1 ≤ width)
    (inBlocks : InBlocks peerLib length width text cipher) :
    ∀ turns (module : CryptoModule Key), cipher.length ≤ turns →
      ∃ after, blocks (decryptBlock peerLib other) width turns cipher module =
        .ok text after := by
  induction inBlocks with
  | nil => exact fun turns module _ => ⟨module, blocks_nil _ _ _ _⟩
  | @block text piece rest _ wide decrypts _ ih =>
      intro turns module short
      rw [List.length_append] at short
      cases turns with
      | zero => exact absurd short (by omega)
      | succ turns =>
          have filled : piece ++ rest ≠ [] := by
            intro empty
            have none_left := congrArg List.length empty
            rw [List.length_append, List.length_nil] at none_left
            omega
          have front : (piece ++ rest).take width = piece := List.take_left' wide
          have behind : (piece ++ rest).drop width = rest := List.drop_left' wide
          have converted := decryptBlock_run initialized (wide.trans width_eq)
            (decrypts module.draws)
          obtain ⟨after, looped⟩ := ih turns { module with draws := module.draws + 1 } (by omega)
          refine ⟨after, ?_⟩
          have whole : blocks (decryptBlock peerLib other) width (turns + 1) (piece ++ rest)
              module = .ok (text.take length ++ text.drop length) after :=
            blocks_step filled (by rw [front]; exact converted) (by rw [behind]; exact looped)
          rw [whole, List.take_append_drop]

/-- So many blocks of the cipher are the cipher of so many pieces of the text. -/
theorem InBlocks.take {length width : Nat} {text cipher : Bytes} (positive : 1 ≤ length)
    (inBlocks : InBlocks peerLib length width text cipher) :
    ∀ count, InBlocks peerLib length width (text.take (count * length))
      (cipher.take (count * width)) := by
  induction inBlocks with
  | nil =>
      intro count
      rw [List.take_nil, List.take_nil]
      exact .nil
  | @block text piece rest filled wide decrypts _ ih =>
      intro count
      cases count with
      | zero =>
          rw [Nat.zero_mul, Nat.zero_mul, List.take_zero, List.take_zero]
          exact .nil
      | succ count =>
          have first : (text.take (count * length + length)).take length = text.take length := by
            rw [List.take_take, Nat.min_eq_left (by omega)]
          have behind : (text.take (count * length + length)).drop length =
              (text.drop length).take (count * length) := by
            rw [List.drop_take, Nat.add_sub_cancel_right]
          have cipher_eq : (piece ++ rest).take (count * width + width) =
              piece ++ rest.take (count * width) := by
            rw [List.take_append, wide, Nat.add_sub_cancel_right,
              List.take_of_length_le (by omega)]
          rw [Nat.succ_mul, Nat.succ_mul, cipher_eq]
          refine .block ?_ wide ?_ ?_
          · rw [ne_eq, List.take_eq_nil_iff]
            simp only [filled, or_false]
            omega
          · rw [first]
            exact decrypts
          · rw [behind]
            exact ih count

/-- What the loop of `encryptRSA` returns is in blocks. -/
theorem inBlocks_of_encrypted (inverse : BlockInverse lib peerLib rsa other) {turns : Nat}
    {text cipher : Bytes} {module after : CryptoModule Key}
    (encrypted : blocks (encryptBlock lib rsa) rsa.maxPlainTextLength turns text module =
      .ok cipher after) :
    InBlocks peerLib rsa.maxPlainTextLength other.fixedCipherTextLength text cipher := by
  obtain ⟨found, last, looped, inBlocks⟩ :=
    encrypt_inBlocks inverse (turns + text.length) text module (by omega)
  rw [blocks_more (by omega) encrypted] at looped
  cases looped
  exact inBlocks

theorem decrypted_of_inBlocks {length : Nat} {text cipher decrypted : Bytes} {turns : Nat}
    {module after : CryptoModule Key} (initialized : other.privateKeyInitialized = true)
    (positive : 1 ≤ other.fixedCipherTextLength)
    (inBlocks : InBlocks peerLib length other.fixedCipherTextLength text cipher)
    (returned : blocks (decryptBlock peerLib other) other.fixedCipherTextLength turns cipher
      module = .ok decrypted after) : decrypted = text := by
  obtain ⟨last, looped⟩ := decrypt_inBlocks initialized rfl positive inBlocks
    (turns + cipher.length) module (by omega)
  rw [blocks_more (by omega) returned] at looped
  cases looped
  rfl

/-- The bytes of a text that are in blocks which both counters come to. -/
def common (rsa other : RSASimpleCrypto Key) : Nat :=
  min (blockLimit other.fixedCipherTextLength) (blockLimit rsa.maxPlainTextLength) *
    rsa.maxPlainTextLength

/-- Under RSA those bytes are all that the peer gets. -/
theorem rsa_passed (inverse : BlockInverse lib peerLib rsa other) {turns recvTurns : Nat}
    {text cipher decrypted : Bytes} {module after peer peerAfter : CryptoModule Key}
    (sent : encryptLoop lib rsa text turns 0 [] module = .ok cipher after)
    (received : decryptLoop peerLib other cipher recvTurns 0 [] peer =
      .ok decrypted peerAfter) : decrypted = text.take (common rsa other) := by
  rw [encryptLoop, countedBlocks_eq inverse.someText inverse.narrowText] at sent
  rw [decryptLoop, countedBlocks_eq inverse.someCipher inverse.narrowCipher] at received
  have kept := (inBlocks_of_encrypted inverse sent).take inverse.someText
    (blockLimit other.fixedCipherTextLength)
  rw [decrypted_of_inBlocks inverse.privateKey inverse.someCipher kept received, reach,
    List.take_take, common, Nat.mul_min_mul_right]

/-- Both loops come to their end. -/
theorem rsa_passes (inverse : BlockInverse lib peerLib rsa other) (text : Bytes)
    (module peer : CryptoModule Key) :
    ∃ turns recvTurns cipher after decrypted peerAfter,
      encryptLoop lib rsa text turns 0 [] module = .ok cipher after ∧
      decryptLoop peerLib other cipher recvTurns 0 [] peer = .ok decrypted peerAfter := by
  obtain ⟨cipher, after, sent, inBlocks⟩ := encrypt_inBlocks inverse text.length
    (text.take (reach rsa.maxPlainTextLength)) module (List.length_take_le' _ _)
  obtain ⟨peerAfter, received⟩ := decrypt_inBlocks inverse.privateKey rfl inverse.someCipher
    (inBlocks.take inverse.someText (blockLimit other.fixedCipherTextLength)) cipher.length peer
    (List.length_take_le' _ _)
  rw [← countedBlocks_eq inverse.someText inverse.narrowText] at sent
  rw [← reach, ← countedBlocks_eq inverse.someCipher inverse.narrowCipher] at received
  exact ⟨text.length, cipher.length, cipher, after, _, peerAfter, sent, received⟩

end Blocks

/-- Two modules of which the second decrypts what the first encrypts. -/
inductive Counterparts (lib peerLib : CryptoLibrary Key) (module peer : CryptoModule Key) : Prop
  | none (own : module.algorithm = .None) (others : peer.algorithm = .None)
  | rsa {rsa other : RSASimpleCrypto Key} (own : module.rsaObject = some rsa)
      (others : peer.rsaObject = some other) (inverse : BlockInverse lib peerLib rsa other)
  | aes (own : module.algorithm = .AES) (others : peer.algorithm = .AES)
      (inverse : ∀ text, ∃ cipher, lib.aesEncrypt module.aesKey text = .ok cipher ∧
        peerLib.aesDecrypt peer.aesKey cipher = .ok text)

/-- Under RSA a text of this size is in blocks that both counters come to. -/
def InReach (module peer : CryptoModule Key) (size : Nat) : Prop :=
  match module.rsaObject, peer.rsaObject with
  | some rsa, some other => size ≤ common rsa other
  | _, _ => True

section Counterparts

variable {lib peerLib : CryptoLibrary Key} {module peer : CryptoModule Key}

theorem countedEncrypt_rsa {rsa : RSASimpleCrypto Key} (own : module.rsaObject = some rsa)
    (turns : Nat) (text : Bytes) :
    countedEncrypt lib turns text module = encryptLoop lib rsa text turns 0 [] module := by
  unfold rsaObject at own
  split at own
  · rename_i algorithm
    cases own
    simp only [countedEncrypt, bind_run, get_run, algorithm]
  · rename_i algorithm
    cases own
    simp only [countedEncrypt, bind_run, get_run, algorithm]
  · cases own
  · cases own

theorem countedDecrypt_rsa {rsa : RSASimpleCrypto Key} (own : module.rsaObject = some rsa)
    (turns : Nat) (cipher : Bytes) :
    countedDecrypt lib turns cipher module = decryptLoop lib rsa cipher turns 0 [] module := by
  unfold rsaObject at own
  split at own
  · rename_i algorithm
    cases own
    simp only [countedDecrypt, bind_run, get_run, algorithm]
  · rename_i algorithm
    cases own
    simp only [countedDecrypt, bind_run, get_run, algorithm]
  · cases own
  · cases own

theorem passes (counterparts : Counterparts lib peerLib module peer) (text : Bytes) :
    ∃ turns recvTurns cipher after decrypted peerAfter,
      countedEncrypt lib turns text module = .ok cipher after ∧
      countedDecrypt peerLib recvTurns cipher peer = .ok decrypted peerAfter := by
  cases counterparts with
  | none own others =>
      refine ⟨0, 0, text, module, text, peer, ?_, ?_⟩
      · simp only [countedEncrypt, bind_run, get_run, own, pure_run]
      · simp only [countedDecrypt, bind_run, get_run, others, pure_run]
  | rsa own others inverse =>
      obtain ⟨turns, recvTurns, cipher, after, decrypted, peerAfter, sent, received⟩ :=
        rsa_passes inverse text module peer
      rw [← countedEncrypt_rsa own] at sent
      rw [← countedDecrypt_rsa others] at received
      exact ⟨turns, recvTurns, cipher, after, decrypted, peerAfter, sent, received⟩
  | aes own others inverse =>
      obtain ⟨cipher, encrypted, decrypted⟩ := inverse text
      refine ⟨0, 0, cipher, module, text, peer, ?_, ?_⟩
      · simp only [countedEncrypt, bind_run, get_run, own, encrypted, thrown, ofExcept_ok_run]
      · simp only [countedDecrypt, bind_run, get_run, others, decrypted, thrown, ofExcept_ok_run]

/-- The peer gets the front of the text, and all of it exactly within reach. -/
theorem passed (counterparts : Counterparts lib peerLib module peer) {turns recvTurns : Nat}
    {text cipher decrypted : Bytes} {after peerAfter : CryptoModule Key}
    (sent : countedEncrypt lib turns text module = .ok cipher after)
    (received : countedDecrypt peerLib recvTurns cipher peer = .ok decrypted peerAfter) :
    decrypted <+: text ∧ (text.length ≤ decrypted.length ↔ InReach module peer text.length) := by
  cases counterparts with
  | none own others =>
      simp only [countedEncrypt, bind_run, get_run, own, pure_run] at sent
      simp only [countedDecrypt, bind_run, get_run, others, pure_run] at received
      cases sent
      cases received
      refine ⟨List.prefix_rfl, iff_of_true (Nat.le_refl _) ?_⟩
      simp only [InReach, rsaObject, own]
  | rsa own others inverse =>
      rw [countedEncrypt_rsa own] at sent
      rw [countedDecrypt_rsa others] at received
      rw [rsa_passed inverse sent received]
      refine ⟨List.take_prefix _ _, ?_⟩
      simp only [InReach, own, others, List.length_take]
      omega
  | aes own others inverse =>
      obtain ⟨expected, encrypted, inverted⟩ := inverse text
      simp only [countedEncrypt, bind_run, get_run, own, encrypted, thrown, ofExcept_ok_run]
        at sent
      cases sent
      simp only [countedDecrypt, bind_run, get_run, others, inverted, thrown, ofExcept_ok_run]
        at received
      cases received
      refine ⟨List.prefix_rfl, iff_of_true (Nat.le_refl _) ?_⟩
      simp only [InReach, rsaObject, own]

end Counterparts

end CryptoModule

/-- `parse()`, with the counters of `pop(1)`. -/
def Packet.countedParse (packet : Packet) : Except Fault Packet :=
  match Buffer.countedPopN 1 packet.buffer with
  | .error fault _ => .error fault
  | .ok headerBuffer buffer => .ok { type := .toPacketType (headerBuffer.headD 0), buffer }

/-- One byte is always counted. -/
theorem Packet.countedParse_eq (packet : Packet) : packet.countedParse = packet.parse := by
  rw [countedParse, parse, Buffer.countedPopN_eq fun _ => Buffer.countable_of_few (by decide) _]
  cases packet.buffer.popN 1 <;> rfl

theorem Packet.countedParse_push (text : Bytes) :
    (Packet.push {} text).countedParse = Packet.ofBytes text := countedParse_eq _

/-- The packet of the caller of `sendPacket`, the copy made of it, and the cipher. -/
structure Sending (Key : Type) where
  packet : Packet
  newPacket : Packet := {}
  cryptoModule : CryptoModule Key

namespace EncryptClient

/-- `Client::sendPacket` over `EncryptClient::sendData`: what goes to `SimpleClient::sendData`. The
block loop under it is watched for some turns. -/
def sendPacket (lib : CryptoLibrary Key) (turns : Nat) : EStateM Fault (Sending Key) Bytes := do
  modify fun s => { s with newPacket := s.packet }
  modify fun s => { s with newPacket := s.newPacket.addTypeToBuffer }
  let bytes ← zoom (·.newPacket.buffer)
    (fun buffer s => { s with newPacket := { s.newPacket with buffer } }) Buffer.countedPopAll
  zoom (·.cryptoModule) (fun cryptoModule s => { s with cryptoModule })
    (CryptoModule.countedEncrypt lib turns bytes)

/-- `Client::recvPacket` over `EncryptClient::recvData`, of what `SimpleClient::recvData` gives. -/
def recvPacket (lib : CryptoLibrary Key) (turns : Nat) (bytes : Bytes) : CryptoM Key Packet := do
  let text ← CryptoModule.countedDecrypt lib turns bytes
  Program.ofExcept (Packet.push {} text).countedParse

end EncryptClient

/-- A packet whose payload is pushed into its buffer piece by piece. -/
def Packet.ofChunks (type : PacketType) (chunks : List Bytes) : Packet :=
  chunks.foldl Packet.push { type }

theorem Packet.push_chunks (chunks : List Bytes) (packet : Packet) :
    (chunks.foldl Packet.push packet).type = packet.type ∧
      (chunks.foldl Packet.push packet).buffer.buffer = packet.buffer.buffer ++ chunks := by
  induction chunks generalizing packet with
  | nil => exact ⟨rfl, by simp⟩
  | cons chunk chunks ih =>
      obtain ⟨type, held⟩ := ih (packet.push chunk)
      refine ⟨type, ?_⟩
      rw [List.foldl_cons, held, push, Buffer.pushBack, List.append_assoc]
      rfl

@[simp] theorem Packet.type_ofChunks (type : PacketType) (chunks : List Bytes) :
    (ofChunks type chunks).type = type := (push_chunks chunks { type }).1

@[simp] theorem Packet.buffer_ofChunks (type : PacketType) (chunks : List Bytes) :
    (ofChunks type chunks).buffer.buffer = chunks := (push_chunks chunks { type }).2

@[simp] theorem Packet.bytes_ofChunks (type : PacketType) (chunks : List Bytes) :
    (ofChunks type chunks).buffer.bytes = chunks.flatten := by
  rw [Buffer.bytes, buffer_ofChunks]

/-- A packet built of these pieces comes out at the peer, and the sender keeps its own. -/
def RoundTrip (lib peerLib : CryptoLibrary Key) (module peer : CryptoModule Key)
    (type : PacketType) (chunks : List Bytes) : Prop :=
  ∃ turns recvTurns frame after received peerAfter,
    EncryptClient.sendPacket lib turns
      { packet := .ofChunks type chunks, cryptoModule := module } = .ok frame after ∧
    after.packet = .ofChunks type chunks ∧
    EncryptClient.recvPacket peerLib recvTurns frame peer = .ok received peerAfter ∧
    received.type = type ∧ received.buffer.bytes = chunks.flatten

section RoundTrip

variable {lib peerLib : CryptoLibrary Key} {module peer : CryptoModule Key}

/-- The copy can be emptied if each vector of the packet can be counted. -/
theorem countable_addTypeToBuffer (packet : Packet) :
    Buffer.Countable packet.addTypeToBuffer.buffer.size packet.addTypeToBuffer.buffer.buffer ↔
      ∀ chunk ∈ packet.buffer.buffer, chunk.length ≤ Buffer.intMax := by
  have total := Buffer.countable_total packet.addTypeToBuffer.buffer.buffer
  rw [Buffer.size_eq, Buffer.bytes, total, Packet.addTypeToBuffer, Buffer.pushFront,
    List.forall_mem_cons]
  exact and_iff_right (by simp [toBytes, Buffer.intMax])

/-- What is encrypted of a packet is its type and its payload. -/
theorem sendPacket_eq {packet : Packet} (turns : Nat)
    (short : ∀ chunk ∈ packet.buffer.buffer, chunk.length ≤ Buffer.intMax) :
    ∃ newPacket, EncryptClient.sendPacket lib turns { packet, cryptoModule := module } =
      match CryptoModule.countedEncrypt lib turns (packet.type.toUInt8 :: packet.buffer.bytes)
        module with
      | .ok frame after => .ok frame { packet, newPacket, cryptoModule := after }
      | .error fault after => .error fault { packet, newPacket, cryptoModule := after } := by
  obtain ⟨buffer, popped, -⟩ :=
    Buffer.countedPopAll_returns ((countable_addTypeToBuffer packet).mpr short)
  have text : packet.addTypeToBuffer.buffer.bytes =
      packet.type.toUInt8 :: packet.buffer.bytes := by
    simp [Packet.addTypeToBuffer, toBytes, LittleEndian.encode]
  rw [text] at popped
  refine ⟨{ packet.addTypeToBuffer with buffer }, ?_⟩
  simp only [EncryptClient.sendPacket, bind_run, modify_run, zoom, popped]
  cases CryptoModule.countedEncrypt lib turns (packet.type.toUInt8 :: packet.buffer.bytes)
    module <;> rfl

/-- A vector that is too long is undefined behaviour before anything is encrypted. -/
theorem sendPacket_overflow {packet : Packet} (turns : Nat)
    (long : ¬ ∀ chunk ∈ packet.buffer.buffer, chunk.length ≤ Buffer.intMax) :
    ∃ after, EncryptClient.sendPacket lib turns { packet, cryptoModule := module } =
      .error .undefinedBehaviour after := by
  have popped := Buffer.countedPopN_overflow (Nat.le_refl _)
    (mt (countable_addTypeToBuffer packet).mp long)
  simp only [EncryptClient.sendPacket, bind_run, modify_run, zoom, Buffer.countedPopAll, popped]
  exact ⟨_, rfl⟩

/-- A packet is received exactly if there is one in the text of the frame. -/
theorem recvPacket_ok_iff {frame : Bytes} {turns : Nat} {packet : Packet}
    {after : CryptoModule Key} :
    EncryptClient.recvPacket peerLib turns frame peer = .ok packet after ↔
      ∃ text, CryptoModule.countedDecrypt peerLib turns frame peer = .ok text after ∧
        Packet.ofBytes text = .ok packet := by
  simp only [EncryptClient.recvPacket, bind_ok_iff, Packet.countedParse_push, ofExcept_ok_iff]
  constructor
  · rintro ⟨text, middle, decrypted, parsed, rfl⟩
    exact ⟨text, decrypted, parsed⟩
  · rintro ⟨text, decrypted, parsed⟩
    exact ⟨text, after, decrypted, parsed, rfl⟩

/-- Under every pair of algorithms that undo each other, exactly the packets of which each vector
and, in blocks, the whole text can be counted arrive as they are. -/
theorem round_trip_iff (counterparts : CryptoModule.Counterparts lib peerLib module peer)
    (type : PacketType) (chunks : List Bytes) :
    RoundTrip lib peerLib module peer type chunks ↔
      (∀ chunk ∈ chunks, chunk.length ≤ Buffer.intMax) ∧
        CryptoModule.InReach module peer (1 + chunks.flatten.length) := by
  have text_length : (type.toUInt8 :: chunks.flatten).length = 1 + chunks.flatten.length := by
    rw [List.length_cons, Nat.add_comm]
  constructor
  · rintro ⟨turns, recvTurns, frame, after, received, peerAfter, sent, -, opened, -, payload⟩
    by_cases short : ∀ chunk ∈ chunks, chunk.length ≤ Buffer.intMax
    · obtain ⟨newPacket, run_eq⟩ := @sendPacket_eq _ lib module (.ofChunks type chunks) turns
        (by rwa [Packet.buffer_ofChunks])
      rw [sent, Packet.type_ofChunks, Packet.bytes_ofChunks] at run_eq
      cases encrypted : CryptoModule.countedEncrypt lib turns (type.toUInt8 :: chunks.flatten)
          module with
      | error fault middle =>
          rw [encrypted] at run_eq
          cases run_eq
      | ok cipher middle =>
          rw [encrypted] at run_eq
          cases run_eq
          obtain ⟨text, decrypted, parsed⟩ := recvPacket_ok_iff.mp opened
          obtain ⟨header, text_eq, -⟩ := Packet.ofBytes_ok parsed
          have whole := (CryptoModule.passed counterparts encrypted decrypted).2
          rw [← text_length]
          refine ⟨short, whole.mp ?_⟩
          rw [text_eq, payload, List.length_cons, List.length_cons]
    · obtain ⟨failed, overflow⟩ := @sendPacket_overflow _ lib module (.ofChunks type chunks) turns
        (by rwa [Packet.buffer_ofChunks])
      rw [overflow] at sent
      cases sent
  · rintro ⟨short, inReach⟩
    obtain ⟨turns, recvTurns, cipher, after, decrypted, peerAfter, encrypted, undone⟩ :=
      CryptoModule.passes counterparts (type.toUInt8 :: chunks.flatten)
    obtain ⟨front, whole⟩ := CryptoModule.passed counterparts encrypted undone
    rw [text_length] at whole
    have same := front.eq_of_length_le (by rw [text_length]; exact whole.mpr inReach)
    subst same
    obtain ⟨newPacket, run_eq⟩ := @sendPacket_eq _ lib module (.ofChunks type chunks) turns
      (by rwa [Packet.buffer_ofChunks])
    rw [Packet.type_ofChunks, Packet.bytes_ofChunks, encrypted] at run_eq
    obtain ⟨received, parsed, read, payload⟩ := Packet.ofBytes_cons type.toUInt8 chunks.flatten
    rw [PacketType.toPacketType_toUInt8] at read
    exact ⟨turns, recvTurns, cipher, _, received, peerAfter, run_eq, rfl,
      recvPacket_ok_iff.mpr ⟨_, undone, parsed⟩, read, payload⟩

/-- Blocks of up to two bytes, padded with the number of the draw to four. -/
def padding : CryptoLibrary Unit where
  load := fun _ _ => (.ok (), ())
  validate := fun _ _ => true
  save := fun _ => []
  fixedMaxPlaintextLength := fun _ => 2
  rsaEncrypt := fun number _ text =>
    .ok (UInt8.ofNat text.length :: text ++ List.replicate (3 - text.length) (UInt8.ofNat number))
  rsaDecrypt := fun _ cipher => .ok (cipher.tail.take (cipher.headD 0).toNat)
  aesEncrypt := fun key text => .ok (key ++ text)
  aesDecrypt := fun key cipher => .ok (cipher.drop key.length)
  patience := 0

def paddingKeys : RSASimpleCrypto Unit :=
  { publicKey := ()
    encryptor := ()
    maxPlainTextLength := 2
    fixedCipherTextLength := 4
    publicKeyInitialized := true
    privateKeyInitialized := true }

theorem padding_inverse :
    CryptoModule.BlockInverse padding padding paddingKeys paddingKeys where
  publicKey := rfl
  privateKey := rfl
  someText := by decide
  someCipher := by decide
  narrowText := by decide
  narrowCipher := by decide
  inverse := by
    intro number text short
    match text, short with
    | [], _ => exact ⟨_, rfl, rfl, fun _ => rfl⟩
    | [first], _ => exact ⟨_, rfl, rfl, fun _ => rfl⟩
    | [first, second], _ => exact ⟨_, rfl, rfl, fun _ => rfl⟩

def paddingModule : CryptoModule Unit :=
  { rsaServerCrypto := paddingKeys
    rsaSimpleCrypto := { publicKey := (), encryptor := () }
    aesKey := [7]
    algorithm := .ServerRSA }

/-- A type and five bytes in blocks of two, one piece of them empty. -/
theorem round_trip_iff_padding :
    RoundTrip padding padding paddingModule paddingModule .SET_NAME [[1, 2], [], [3, 4, 5]] :=
  (round_trip_iff (.rsa rfl rfl padding_inverse) .SET_NAME [[1, 2], [], [3, 4, 5]]).mpr
    ⟨by decide, by change 6 ≤ CryptoModule.common paddingKeys paddingKeys; decide⟩

/-- A payload in one vector of 2 GiB is lost before it is sent, whatever is in it. -/
theorem vector_not_roundTrip {vector : Bytes} (wide : vector.length = 2 ^ 31) (type : PacketType) :
    ¬ RoundTrip lib peerLib module peer type [vector] := by
  rintro ⟨turns, recvTurns, frame, after, received, peerAfter, sent, -⟩
  obtain ⟨failed, overflow⟩ := @sendPacket_overflow _ lib module (.ofChunks type [vector]) turns
    (by
      rw [Packet.buffer_ofChunks, List.forall_mem_singleton, wide]
      decide)
  rw [overflow] at sent
  cases sent

theorem round_trip_lost :
    ¬ RoundTrip padding padding { paddingModule with algorithm := .None }
      { paddingModule with algorithm := .None } .SET_NAME [List.replicate (2 ^ 31) 0] :=
  vector_not_roundTrip List.length_replicate .SET_NAME

end RoundTrip

namespace ProtocolClient

variable {lib : CryptoLibrary Key} {s : Session Key} {packet : Packet}

/-- A session sends the frame that its `EncryptClient` makes of a packet of less than 2 GiB. -/
theorem sendPacket_eq_client (narrow : s.client.cryptoModule.Narrow)
    (small : packet.buffer.bytes.length < Buffer.intMax) :
    sendPacket lib packet s =
      match EncryptClient.sendPacket lib (packet.buffer.bytes.length + 1 + lib.patience)
        { packet, cryptoModule := s.client.cryptoModule } with
      | .ok frame after => .ok () (logged (withModule s after.cryptoModule)
          [.sent packet.type after.cryptoModule.algorithm packet.buffer.bytes frame])
      | .error fault after => .error fault (withModule s after.cryptoModule) := by
  obtain ⟨newPacket, run_eq⟩ := @sendPacket_eq _ lib s.client.cryptoModule packet
    (packet.buffer.bytes.length + 1 + lib.patience) fun chunk held => by
      have within : chunk.length ≤ packet.buffer.bytes.length :=
        (List.sublist_flatten_of_mem held).length_le
      omega
  obtain ⟨buffer, popped⟩ := packet.popAll_addTypeToBuffer
  have counted := @CryptoModule.encrypt_eq_counted _ lib
    (packet.type.toUInt8 :: packet.buffer.bytes) _ narrow (by
      rw [List.length_cons]
      unfold Buffer.intMax at small
      omega)
  rw [List.length_cons] at counted
  rw [run_eq, ← counted]
  simp only [sendPacket, bind_run, popped, ofExcept_ok_run]
  cases ran : CryptoModule.encrypt lib (packet.type.toUInt8 :: packet.buffer.bytes)
      s.client.cryptoModule with
  | error fault m => simp only [crypto, zoom, ran, withModule]
  | ok frame m => simp only [crypto, zoom, ran, get_run, act_run, withModule]

/-- A session receives the packet that its `EncryptClient` finds in a frame of less than 2 GiB. -/
theorem recvPacket_eq_client (narrow : s.client.cryptoModule.Narrow)
    (small : (s.inbound.headD []).length < 2 ^ 31) :
    recvPacket lib s =
      match EncryptClient.recvPacket lib ((s.inbound.headD []).length + lib.patience)
        (s.inbound.headD []) s.client.cryptoModule with
      | .ok packet m => .ok packet
          (logged (withModule (taken s) m) [.received packet.type packet.buffer.bytes])
      | .error fault m => .error fault (withModule (taken s) m) := by
  have counted := @CryptoModule.decrypt_eq_counted _ lib _ _ narrow small
  simp only [EncryptClient.recvPacket, bind_run, ← counted, Packet.countedParse_push,
    recvPacket, recvData, takeFrame_run]
  cases ran : CryptoModule.decrypt lib (s.inbound.headD []) s.client.cryptoModule with
  | error fault m =>
      have failed : crypto (CryptoModule.decrypt lib (s.inbound.headD [])) (taken s) =
          .error fault (withModule (taken s) m) := zoom_error ran
      rw [failed]
  | ok text m =>
      have opened : crypto (CryptoModule.decrypt lib (s.inbound.headD [])) (taken s) =
          .ok text (withModule (taken s) m) := zoom_ok ran
      rw [opened]
      dsimp only
      cases Packet.ofBytes text with
      | error fault => rfl
      | ok packet => rfl

end ProtocolClient

end Locus
