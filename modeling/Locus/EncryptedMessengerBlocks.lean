import Locus.CipherModule
import Locus.PacketRoundTrip

set_option autoImplicit false

/- What EncryptedMessenger sends in an RSA state: its blocks of 53 bytes at steps of 128,
and the loop of decryptRSA over them. -/
namespace Locus

open Program

variable {Key : Type}

/-- The two sides share a key of 128 bytes, and the server's half of it undoes the client's. -/
structure Shared (java : Java.Library) (lib : CryptoLibrary Key) (rsa : RSASimpleCrypto Key) :
    Prop where
  privateKey : rsa.privateKeyInitialized = true
  cipherLength : rsa.fixedCipherTextLength = 128
  inverse : ∀ draw block, block.length ≤ 117 →
    ∃ cipher, java.encryptServerPublic draw block = some cipher ∧ cipher.length = 128 ∧
      ∀ number, lib.rsaDecrypt number cipher = .ok block

/-- The server gets a text back from what was sent of it. -/
def Understands (lib : CryptoLibrary Key) (rsa : RSASimpleCrypto Key) (text frame : Bytes) : Prop :=
  ∀ server : CryptoModule Key,
    ∃ after, CryptoModule.decryptRSA lib rsa frame server = .ok text after

section Shared

variable {java : Java.Library} {lib : CryptoLibrary Key} {rsa : RSASimpleCrypto Key}

theorem Shared.fills (shared : Shared java lib rsa) : java.Fills := by
  intro draw block short
  obtain ⟨cipher, encrypted, wide, -⟩ := shared.inverse draw block (by omega)
  exact ⟨cipher, encrypted, wide⟩

/-- The client's blocks are the ones that the server cuts out. -/
theorem Shared.inBlocks (shared : Shared java lib rsa) {text frame : Bytes}
    (enciphered : Java.Enciphered java text frame) :
    CryptoModule.InBlocks lib 53 128 text frame := by
  induction enciphered with
  | nil => exact .nil
  | @block text cipher rest draw filled encrypted _ ih =>
      have within : (text.take 53).length ≤ 53 := List.length_take_le _ _
      obtain ⟨found, encrypted', wide, decrypts⟩ :=
        shared.inverse draw (text.take 53) (by omega)
      have same : found = cipher := Option.some.inj (encrypted'.symm.trans encrypted)
      subst same
      exact .block filled wide decrypts ih

theorem Shared.understands (shared : Shared java lib rsa) {text frame : Bytes}
    (enciphered : Java.Enciphered java text frame) : Understands lib rsa text frame := by
  intro server
  have undone := CryptoModule.decrypt_inBlocks shared.privateKey shared.cipherLength.symm
    (by decide) (shared.inBlocks enciphered) (frame.length + lib.patience) server (by omega)
  rw [CryptoModule.decryptRSA, shared.cipherLength]
  exact undone

namespace Java.EncryptedMessenger

variable {module : CipherModule}

/-- As long as there are places for the blocks that are left, the loop comes to its end. -/
theorem sendBlocks_returns (fills : java.Fills)
    (server : module.encryptor Unit = some .serverPublic) (draw turns : Nat) :
    ∀ counter buffer (message : Bytes), buffer.length ≤ turns →
      (counter + (buffer.length + 52) / 53) * 128 ≤ message.length →
      ∃ frame, sendBlocks java module draw turns counter buffer message = .ok frame := by
  induction turns with
  | zero =>
      intro counter buffer message short fits
      have empty : buffer = [] := List.eq_nil_of_length_eq_zero (by omega)
      subst empty
      have inside : counter * 128 ≤ message.length := fits
      exact ⟨_, by rw [sendBlocks, SimpleMessenger.send, if_pos inside]⟩
  | succ turns ih =>
      intro counter buffer message short fits
      cases buffer with
      | nil =>
          have inside : counter * 128 ≤ message.length := fits
          exact ⟨_, by rw [sendBlocks, SimpleMessenger.send, if_pos inside]⟩
      | cons byte bytes =>
          have within : ((byte :: bytes).take 53).length ≤ 53 := List.length_take_le 53 _
          obtain ⟨cipher, encrypted, wide⟩ := fills (draw + counter) _ within
          have sealed : module.encrypt java (draw + counter) ((byte :: bytes).take 53) =
              .ok cipher := by
            simp only [CipherModule.encrypt, server, encrypted, CipherModule.doFinal]
          have left : ((byte :: bytes).drop 53).length = bytes.length + 1 - 53 := by
            rw [List.length_drop, List.length_cons]
          rw [List.length_cons] at short fits
          -- this block takes one of the places, the rest takes the others
          have inside : counter * 128 + cipher.length ≤ message.length := by omega
          have copied : arraycopy cipher message (counter * 128) =
              .ok (message.take (counter * 128) ++ cipher ++
                message.drop (counter * 128 + cipher.length)) := if_pos inside
          simp only [sendBlocks, sealed, copied]
          apply ih
          · omega
          · rw [left, List.length_append, List.length_append, List.length_take, List.length_drop]
            omega

/-- In an RSA state the server understands whatever is passed on, and all that fits the eight
places of the message is. -/
theorem send_understood (shared : Shared java lib rsa)
    (state : module.state = some .SERVER_PUBLIC ∨
      module.state = some .CLIENT_PRIVATE_SERVER_PUBLIC) (draw : Nat) (buffer : Bytes) :
    (∀ frame, send java module draw buffer = .ok frame → Understands lib rsa buffer frame) ∧
      (module.serverCiphers = true → buffer.length ≤ 8 * 53 →
        ∃ frame, send java module draw buffer = .ok frame) := by
  have looped : send java module draw buffer =
      sendBlocks java module draw buffer.length 0 buffer (List.replicate capacity 0) := by
    rcases state with first | second
    · rw [send, first, if_pos (by decide)]
    · rw [send, second, if_pos (by decide)]
  have encryptor : module.encryptor Unit =
      if module.serverCiphers then some .serverPublic else none := by
    rcases state with first | second
    · rw [CipherModule.encryptor, first]
    · rw [CipherModule.encryptor, second]
  rw [looped]
  cases ciphers : module.serverCiphers with
  | true =>
      have server : module.encryptor Unit = some .serverPublic := by
        rw [encryptor, ciphers, if_pos rfl]
      constructor
      · intro frame returned
        obtain ⟨rest, enciphered, whole⟩ := sendBlocks_enciphered shared.fills server draw
          buffer.length 0 buffer _ frame (Nat.le_refl _) returned
        rw [Nat.zero_mul, List.take_zero, List.nil_append] at whole
        rw [whole]
        exact shared.understands enciphered
      · intro _ fits
        apply sendBlocks_returns shared.fills server draw _ 0 buffer _ (Nat.le_refl _)
        rw [List.length_replicate, capacity]
        omega
  | false =>
      constructor
      · intro frame returned
        cases buffer with
        | nil =>
            rw [List.length_nil, sendBlocks, Nat.zero_mul] at returned
            rw [SimpleMessenger.send_ok returned, List.take_zero]
            exact shared.understands .nil
        | cons byte bytes =>
            -- without its cipher object the first turn ends in an exception
            have unset : module.encryptor Unit = none := by
              rw [encryptor, ciphers, if_neg Bool.false_ne_true]
            simp only [List.length_cons, sendBlocks, CipherModule.encrypt, unset] at returned
            cases returned
      · intro impossible
        cases impossible

end Java.EncryptedMessenger

end Shared

/-- A client that pads its blocks to 128 bytes, behind their length. -/
def paddingClient : Java.Library where
  publicKey := []
  encryptServerPublic := fun draw text =>
    some (UInt8.ofNat text.length :: text ++ List.replicate (127 - text.length) (UInt8.ofNat draw))
  decryptClientPrivate := fun _ => none
  encryptSession := fun _ _ => none
  decryptSession := fun _ _ => none

theorem padding_shared : Shared paddingClient padding
    { paddingKeys with fixedCipherTextLength := 128 } where
  privateKey := rfl
  cipherLength := rfl
  inverse := by
    intro draw block short
    refine ⟨_, rfl, ?_, fun number => ?_⟩
    · rw [List.length_append, List.length_cons, List.length_replicate]
      omega
    · have size : (UInt8.ofNat block.length).toNat = block.length := by
        rw [UInt8.toNat_ofNat']
        omega
      simp only [padding, List.cons_append, List.tail_cons, List.headD_cons, size, List.take_left]

/-- Sixty bytes make two blocks. -/
theorem send_understood_padding :
    ∃ frame, Java.EncryptedMessenger.send paddingClient
        { serverCiphers := true, state := some .SERVER_PUBLIC } 0 (List.replicate 60 1) =
          .ok frame ∧
      Understands padding { paddingKeys with fixedCipherTextLength := 128 }
        (List.replicate 60 1) frame := by
  have both := Java.EncryptedMessenger.send_understood padding_shared
    (show ({ serverCiphers := true, state := some .SERVER_PUBLIC } : Java.CipherModule).state =
      some .SERVER_PUBLIC ∨ _ from .inl rfl) 0 (List.replicate 60 1)
  obtain ⟨frame, returned⟩ := both.2 rfl (by decide)
  exact ⟨frame, returned, both.1 frame returned⟩

end Locus
