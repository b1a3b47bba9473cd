import Locus.Fault

set_option autoImplicit false

/- crypto/Crypto and crypto/CryptoModule over the cryptographic library. -/
namespace Locus

/-- What the server uses of the library. A function that draws random numbers takes
the number of the draw; a failure carries the text of its exception. -/
structure CryptoPrimitives (Key : Type) where
  /-- `Load` into a key object, which a failure may leave half changed. -/
  load : Bytes → Key → Except String Unit × Key
  validate : Nat → Key → Bool
  save : Key → Bytes
  fixedMaxPlaintextLength : Key → Nat
  rsaEncrypt : Nat → Key → Bytes → Except String Bytes
  /-- Decryption with the server's private key, the only one that is ever set. -/
  rsaDecrypt : Nat → Bytes → Except String Bytes
  aesEncrypt : Bytes → Bytes → Except String Bytes
  aesDecrypt : Bytes → Bytes → Except String Bytes

/-- The library, and how many turns the block loops of the server are watched over it: a loop that
does not advance and goes on for so long counts as endless. -/
structure CryptoLibrary (Key : Type) extends CryptoPrimitives Key where
  patience : Nat

structure RSASimpleCrypto (Key : Type) where
  publicKey : Key
  /-- The key of `encryptor_`, which `initCryptors` copies. -/
  encryptor : Key
  maxPlainTextLength : Nat := 0
  fixedCipherTextLength : Nat := 0
  publicKeyInitialized : Bool := false
  privateKeyInitialized : Bool := false

/-- `CryptoModule::Algorithm`. -/
inductive Algorithm where
  | None
  | ServerRSA
  | OuterRSA
  | AES
  deriving DecidableEq, Repr

structure CryptoModule (Key : Type) where
  rsaServerCrypto : RSASimpleCrypto Key
  rsaSimpleCrypto : RSASimpleCrypto Key
  aesKey : Bytes
  outerRSAKey : Bool := false
  algorithm : Algorithm := .None
  /-- How many random draws have been made. -/
  draws : Nat := 0

abbrev CryptoM (Key : Type) := EStateM Fault (CryptoModule Key)

variable {Key : Type}

/-- The outcome of a library call. -/
def thrown {α : Type} : Except String α → Except Fault α
  | .ok value => .ok value
  | .error what => .error (.exception what)

namespace CryptoModule

def draw : CryptoM Key Nat := do
  let module ← get
  set { module with draws := module.draws + 1 }
  return module.draws

def encryptBlock (lib : CryptoLibrary Key) (rsa : RSASimpleCrypto Key) (text : Bytes) :
    CryptoM Key Bytes := do
  if rsa.publicKeyInitialized = false then
    throw (.exception "Encryption key is not initialized for RSASimpleCrypto object.")
  else if text.length > rsa.maxPlainTextLength then
    throw (.exception ("Given plain text to encrypt with RSA exceeds max length, which is: " ++
      toString rsa.maxPlainTextLength))
  else
    let number ← draw
    Program.ofExcept (thrown (lib.rsaEncrypt number rsa.encryptor text))

def decryptBlock (lib : CryptoLibrary Key) (rsa : RSASimpleCrypto Key) (cipher : Bytes) :
    CryptoM Key Bytes := do
  if rsa.privateKeyInitialized = false then
    throw (.exception "Decryption key is not initialized for RSASimpleCrypto object.")
  else if cipher.length ≠ rsa.fixedCipherTextLength then
    throw (.exception
      ("Given cipher text to decrypt with RSA doesn't max the required length, which is: " ++
        toString rsa.fixedCipherTextLength))
  else
    let number ← draw
    Program.ofExcept (thrown (lib.rsaDecrypt number cipher))

/-- The loop of `encryptRSA` and `decryptRSA`: one block after the other, `length` bytes
further each time. -/
def blocks (convert : Bytes → CryptoM Key Bytes) (length : Nat) :
    (turns : Nat) → Bytes → CryptoM Key Bytes
  | _, [] => pure []
  | 0, _ :: _ => throw .nonTermination
  | turns + 1, byte :: bytes => do
      let newBytes ← convert ((byte :: bytes).take length)
      let others ← blocks convert length turns ((byte :: bytes).drop length)
      return newBytes ++ others

theorem blocks_nil (convert : Bytes → CryptoM Key Bytes) (length turns : Nat)
    (module : CryptoModule Key) : blocks convert length turns [] module = .ok [] module := by
  cases turns <;> rfl

def encryptRSA (lib : CryptoLibrary Key) (rsa : RSASimpleCrypto Key) (text : Bytes) :
    CryptoM Key Bytes :=
  blocks (encryptBlock lib rsa) rsa.maxPlainTextLength (text.length + lib.patience) text

def decryptRSA (lib : CryptoLibrary Key) (rsa : RSASimpleCrypto Key) (cipher : Bytes) :
    CryptoM Key Bytes :=
  blocks (decryptBlock lib rsa) rsa.fixedCipherTextLength (cipher.length + lib.patience) cipher

def use (algo : Algorithm) : CryptoM Key Unit :=
  modify fun module => { module with algorithm := algo }

def encrypt (lib : CryptoLibrary Key) (text : Bytes) : CryptoM Key Bytes := do
  let module ← get
  match module.algorithm with
  | .None => return text
  | .ServerRSA => encryptRSA lib module.rsaServerCrypto text
  | .OuterRSA => encryptRSA lib module.rsaSimpleCrypto text
  | .AES => Program.ofExcept (thrown (lib.aesEncrypt module.aesKey text))

def decrypt (lib : CryptoLibrary Key) (cipher : Bytes) : CryptoM Key Bytes := do
  let module ← get
  match module.algorithm with
  | .None => return cipher
  | .ServerRSA => decryptRSA lib module.rsaServerCrypto cipher
  | .OuterRSA => decryptRSA lib module.rsaSimpleCrypto cipher
  | .AES => Program.ofExcept (thrown (lib.aesDecrypt module.aesKey cipher))

def editOuter (edit : RSASimpleCrypto Key → RSASimpleCrypto Key) : CryptoM Key Unit :=
  modify fun module => { module with rsaSimpleCrypto := edit module.rsaSimpleCrypto }

/-- `RSASimpleCrypto::initCryptors`, for an object without a private key. -/
def initCryptors (lib : CryptoLibrary Key) (rsa : RSASimpleCrypto Key) : RSASimpleCrypto Key :=
  { rsa with
    encryptor := rsa.publicKey
    maxPlainTextLength := lib.fixedMaxPlaintextLength rsa.publicKey }

/-- `setEncryptionKey` of the outer RSA object. -/
def setEncryptionKey (lib : CryptoLibrary Key) (encryptKey : Bytes) : CryptoM Key Unit := do
  let (loaded, publicKey) := lib.load encryptKey (← get).rsaSimpleCrypto.publicKey
  editOuter fun rsa => { rsa with publicKey }
  Program.ofExcept (thrown loaded)
  let number ← draw
  if lib.validate number publicKey = false then
    throw (.exception "RSA public key validation failed")
  else editOuter fun rsa => initCryptors lib { rsa with publicKeyInitialized := true }

def setOuterRSAKey (lib : CryptoLibrary Key) (key : Bytes) : CryptoM Key Unit := do
  setEncryptionKey lib key
  modify fun module => { module with outerRSAKey := true }

def getOuterRSAKey (lib : CryptoLibrary Key) : CryptoM Key Bytes := do
  let rsa := (← get).rsaSimpleCrypto
  if rsa.publicKeyInitialized = false then
    throw (.exception "Encryption key is not initialized for RSASimpleCrypto object.")
  else return lib.save rsa.publicKey

def getSymmetricKey : CryptoM Key Bytes := do
  return (← get).aesKey

/-- What no call but `use` changes. An accepted key stays accepted. -/
structure Kept (before after : CryptoModule Key) : Prop where
  algorithm : after.algorithm = before.algorithm
  aesKey : after.aesKey = before.aesKey
  initialized : before.rsaSimpleCrypto.publicKeyInitialized = true →
    after.rsaSimpleCrypto.publicKeyInitialized = true

theorem Kept.refl (module : CryptoModule Key) : Kept module module := ⟨rfl, rfl, id⟩

theorem Kept.trans {first second third : CryptoModule Key} (left : Kept first second)
    (right : Kept second third) : Kept first third :=
  ⟨right.algorithm.trans left.algorithm, right.aesKey.trans left.aesKey,
    right.initialized ∘ left.initialized⟩

open Program

/-- All that changes is the number of draws. -/
def Drawn (before after : CryptoModule Key) : Prop := ∃ draws, after = { before with draws }

theorem Drawn.refl (module : CryptoModule Key) : Drawn module module := ⟨module.draws, rfl⟩

theorem Drawn.trans {first second third : CryptoModule Key} (left : Drawn first second)
    (right : Drawn second third) : Drawn first third := by
  obtain ⟨_, rfl⟩ := left
  obtain ⟨draws, rfl⟩ := right
  exact ⟨draws, rfl⟩

theorem Drawn.kept {before after : CryptoModule Key} (drawn : Drawn before after) :
    Kept before after := by
  obtain ⟨_, rfl⟩ := drawn
  exact ⟨rfl, rfl, id⟩

theorem draw_run (module : CryptoModule Key) :
    draw module = .ok module.draws { module with draws := module.draws + 1 } := rfl

theorem draw_drawn : Keeps Drawn (draw : CryptoM Key Nat) := by
  intro module
  exact ⟨module.draws + 1, rfl⟩

theorem encryptBlock_drawn (lib : CryptoLibrary Key) (rsa : RSASimpleCrypto Key) (text : Bytes) :
    Keeps Drawn (encryptBlock lib rsa text) := by
  unfold encryptBlock
  split
  · exact .throw .refl _
  · split
    · exact .throw .refl _
    · exact .bind .trans draw_drawn fun _ => .ofExcept .refl _

theorem decryptBlock_drawn (lib : CryptoLibrary Key) (rsa : RSASimpleCrypto Key)
    (cipher : Bytes) : Keeps Drawn (decryptBlock lib rsa cipher) := by
  unfold decryptBlock
  split
  · exact .throw .refl _
  · split
    · exact .throw .refl _
    · exact .bind .trans draw_drawn fun _ => .ofExcept .refl _

theorem blocks_drawn {convert : Bytes → CryptoM Key Bytes} {length : Nat}
    (keeps : ∀ block, Keeps Drawn (convert block)) (turns : Nat) :
    ∀ bytes, Keeps Drawn (blocks convert length turns bytes) := by
  induction turns with
  | zero =>
      intro bytes
      cases bytes with
      | nil => exact .pure .refl []
      | cons byte bytes => exact .throw .refl _
  | succ turns ih =>
      intro bytes
      cases bytes with
      | nil => exact .pure .refl []
      | cons byte bytes =>
          exact .bind .trans (keeps _) fun _ => .bind .trans (ih _) fun _ => .pure .refl _

theorem encrypt_drawn (lib : CryptoLibrary Key) (text : Bytes) :
    Keeps Drawn (encrypt lib text) := by
  refine .bind .trans (.get .refl) fun module => ?_
  split
  · exact .pure .refl _
  · exact blocks_drawn (encryptBlock_drawn lib _) _ text
  · exact blocks_drawn (encryptBlock_drawn lib _) _ text
  · exact .ofExcept .refl _

theorem decrypt_drawn (lib : CryptoLibrary Key) (cipher : Bytes) :
    Keeps Drawn (decrypt lib cipher) := by
  refine .bind .trans (.get .refl) fun module => ?_
  split
  · exact .pure .refl _
  · exact blocks_drawn (decryptBlock_drawn lib _) _ cipher
  · exact blocks_drawn (decryptBlock_drawn lib _) _ cipher
  · exact .ofExcept .refl _

theorem draw_keeps : Keeps Kept (draw : CryptoM Key Nat) :=
  draw_drawn.mono fun _ _ drawn => drawn.kept

theorem encrypt_keeps (lib : CryptoLibrary Key) (text : Bytes) : Keeps Kept (encrypt lib text) :=
  (encrypt_drawn lib text).mono fun _ _ drawn => drawn.kept

theorem decrypt_keeps (lib : CryptoLibrary Key) (cipher : Bytes) :
    Keeps Kept (decrypt lib cipher) :=
  (decrypt_drawn lib cipher).mono fun _ _ drawn => drawn.kept

theorem setEncryptionKey_keeps (lib : CryptoLibrary Key) (key : Bytes) :
    Keeps Kept (setEncryptionKey lib key) := by
  refine .bind .trans (.get .refl) fun module => ?_
  refine .bind .trans (.modify fun _ => ⟨rfl, rfl, id⟩) fun _ => ?_
  refine .bind .trans (.ofExcept .refl _) fun _ => ?_
  refine .bind .trans draw_keeps fun number => ?_
  split
  · exact .throw .refl _
  · exact .modify fun _ => ⟨rfl, rfl, fun _ => rfl⟩

theorem setOuterRSAKey_keeps (lib : CryptoLibrary Key) (key : Bytes) :
    Keeps Kept (setOuterRSAKey lib key) :=
  .bind .trans (setEncryptionKey_keeps lib key) fun _ => .modify fun _ => ⟨rfl, rfl, id⟩

/-- What `setOuterRSAKey` does with a key that it takes. -/
theorem setOuterRSAKey_returned {lib : CryptoLibrary Key} {key : Bytes}
    {before after : CryptoModule Key}
    (returned : setOuterRSAKey lib key before = .ok () after) :
    ∃ publicKey draws, lib.load key before.rsaSimpleCrypto.publicKey = (.ok (), publicKey) ∧
      after = { before with
        rsaSimpleCrypto := initCryptors lib
          { before.rsaSimpleCrypto with publicKey, publicKeyInitialized := true }
        outerRSAKey := true
        draws } := by
  simp only [setOuterRSAKey, bind_ok_iff] at returned
  obtain ⟨_, middle, accepted, done⟩ := returned
  cases done
  rcases found : lib.load key before.rsaSimpleCrypto.publicKey with ⟨outcome, publicKey⟩
  simp only [setEncryptionKey, bind_run, get_run, found] at accepted
  cases outcome with
  | error what => cases accepted
  | ok value =>
      simp only [editOuter, modify_run, thrown, ofExcept_ok_run, draw_run] at accepted
      split at accepted
      · cases accepted
      · cases accepted
        exact ⟨publicKey, _, rfl, rfl⟩

/-- Once a key has been accepted there is a key to read back. -/
theorem setOuterRSAKey_initialized {lib : CryptoLibrary Key} {key : Bytes}
    {before after : CryptoModule Key}
    (returned : setOuterRSAKey lib key before = .ok () after) :
    after.rsaSimpleCrypto.publicKeyInitialized = true := by
  obtain ⟨_, _, _, rfl⟩ := setOuterRSAKey_returned returned
  rfl

theorem getOuterRSAKey_initialized {lib : CryptoLibrary Key} {module : CryptoModule Key}
    (initialized : module.rsaSimpleCrypto.publicKeyInitialized = true) :
    getOuterRSAKey lib module = .ok (lib.save module.rsaSimpleCrypto.publicKey) module := by
  simp only [getOuterRSAKey, bind_run, get_run, initialized, Bool.true_eq_false, ↓reduceIte,
    pure_run]

/-- A text that fits into one block is converted by one call. -/
theorem blocks_single {convert : Bytes → CryptoM Key Bytes} {length turns : Nat} {bytes : Bytes}
    {before after : CryptoModule Key} {result : Bytes} (filled : bytes ≠ [])
    (fits : bytes.length ≤ length)
    (returned : blocks convert length turns bytes before = .ok result after) :
    convert bytes before = .ok result after := by
  cases bytes with
  | nil => exact absurd rfl filled
  | cons byte bytes =>
      cases turns with
      | zero => cases returned
      | succ turns =>
          rw [blocks, List.take_of_length_le fits, List.drop_eq_nil_of_le fits] at returned
          simp only [bind_ok_iff, pure_run] at returned
          obtain ⟨newBytes, middle, converted, others, _, rest, done⟩ := returned
          cases turns <;> cases rest <;> cases done <;> simpa using converted

theorem thrown_ok_iff {α : Type} {outcome : Except String α} {value : α} :
    thrown outcome = .ok value ↔ outcome = .ok value := by
  cases outcome with
  | error what => simp [thrown]
  | ok stored => simp [thrown]

theorem encryptBlock_ok {lib : CryptoLibrary Key} {rsa : RSASimpleCrypto Key} {text cipher : Bytes}
    {before after : CryptoModule Key}
    (returned : encryptBlock lib rsa text before = .ok cipher after) :
    ∃ number, lib.rsaEncrypt number rsa.encryptor text = .ok cipher := by
  unfold encryptBlock at returned
  split at returned
  · cases returned
  · split at returned
    · cases returned
    · rw [bind_run, draw_run, ofExcept_ok_iff, thrown_ok_iff] at returned
      exact ⟨_, returned.1⟩

theorem decryptBlock_ok {lib : CryptoLibrary Key} {rsa : RSASimpleCrypto Key} {cipher text : Bytes}
    {before after : CryptoModule Key}
    (returned : decryptBlock lib rsa cipher before = .ok text after) :
    ∃ number, lib.rsaDecrypt number cipher = .ok text := by
  unfold decryptBlock at returned
  split at returned
  · cases returned
  · split at returned
    · cases returned
    · rw [bind_run, draw_run, ofExcept_ok_iff, thrown_ok_iff] at returned
      exact ⟨_, returned.1⟩

/-- A text that fits into one block is encrypted by one call. -/
theorem encryptRSA_single {lib : CryptoLibrary Key} {rsa : RSASimpleCrypto Key}
    {text cipher : Bytes} {before after : CryptoModule Key} (filled : text ≠ [])
    (fits : text.length ≤ rsa.maxPlainTextLength)
    (returned : encryptRSA lib rsa text before = .ok cipher after) :
    ∃ number, lib.rsaEncrypt number rsa.encryptor text = .ok cipher :=
  encryptBlock_ok (blocks_single filled fits returned)

/-- Nothing is found in a frame that is not there. -/
theorem decrypt_server_nil {lib : CryptoLibrary Key} {text : Bytes}
    {before after : CryptoModule Key} (server : before.algorithm = .ServerRSA)
    (returned : decrypt lib [] before = .ok text after) : text = [] := by
  simp only [decrypt, bind_run, get_run, server, decryptRSA] at returned
  cases turns : ([] : Bytes).length + lib.patience <;> rw [turns] at returned <;>
    cases returned <;> rfl

theorem encrypt_aes (lib : CryptoLibrary Key) {module : CryptoModule Key} (text : Bytes)
    (aes : module.algorithm = .AES) :
    encrypt lib text module = ofExcept (thrown (lib.aesEncrypt module.aesKey text)) module := by
  simp only [encrypt, bind_run, get_run, aes]

theorem decrypt_aes (lib : CryptoLibrary Key) {module : CryptoModule Key} (cipher : Bytes)
    (aes : module.algorithm = .AES) :
    decrypt lib cipher module = ofExcept (thrown (lib.aesDecrypt module.aesKey cipher)) module := by
  simp only [decrypt, bind_run, get_run, aes]

end CryptoModule

end Locus
