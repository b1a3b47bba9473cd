import Mathlib.Algebra.Order.Ring.Nat
import Locus.CryptoModule

set_option autoImplicit false

/- The loops of encryptRSA and decryptRSA with their int counters, and when the first one ends. -/
namespace Locus.CryptoModule

open Program

variable {Key : Type}

/-- `i += length` for an `int` and a `size_t`. The sum comes back to the 32 bits of the `int`. -/
def advance (i : Int) (length : Nat) : Int := (i + length).bmod (2 ^ 32)

/-- The loop of `encryptRSA` and `decryptRSA`, watched for some turns. A negative counter is a
large `size_t`. -/
def countedBlocks (convert : Bytes → CryptoM Key Bytes) (length : Nat) (bytes : Bytes) :
    (turns : Nat) → (i : Int) → (converted : Bytes) → CryptoM Key Bytes
  | turns, i, converted =>
      if i < 0 ∨ bytes.length ≤ i then pure converted
      else match turns with
        | 0 => throw .nonTermination
        | turns + 1 => do
            let newBytes ← convert ((bytes.drop i.toNat).take length)
            countedBlocks convert length bytes turns (advance i length) (converted ++ newBytes)

def encryptLoop (lib : CryptoLibrary Key) (rsa : RSASimpleCrypto Key) (text : Bytes) :
    (turns : Nat) → (i : Int) → (encryptBytes : Bytes) → CryptoM Key Bytes :=
  countedBlocks (encryptBlock lib rsa) rsa.maxPlainTextLength text

def decryptLoop (lib : CryptoLibrary Key) (rsa : RSASimpleCrypto Key) (cipher : Bytes) :
    (turns : Nat) → (i : Int) → (decryptBytes : Bytes) → CryptoM Key Bytes :=
  countedBlocks (decryptBlock lib rsa) rsa.fixedCipherTextLength cipher

/-- How many blocks of a width start at an `int`. -/
def blockLimit (width : Nat) : Nat := (2 ^ 31 + width - 1) / width

/-- The counter goes over so many bytes before it overflows. -/
def reach (width : Nat) : Nat := blockLimit width * width

/-- The call returns, or it throws. -/
def Ends {α : Type} (result : EStateM.Result Fault (CryptoModule Key) α) : Prop :=
  match result with
  | .ok _ _ | .error (.exception _) _ => True
  | .error .undefinedBehaviour _ | .error .nonTermination _ => False

/-- `encryptRSA` comes to its end after some number of blocks. -/
def Terminates (lib : CryptoLibrary Key) (rsa : RSASimpleCrypto Key) (text : Bytes)
    (module : CryptoModule Key) : Prop :=
  ∃ turns, Ends (encryptLoop lib rsa text turns 0 [] module)

/-- The library refuses to encrypt a block at some draw from now on. -/
def Refuses (lib : CryptoLibrary Key) (key : Key) (block : Bytes) (draws : Nat) : Prop :=
  ∃ turn what, lib.rsaEncrypt (draws + turn) key block = .error what

/-- A short step goes forward, or past the largest `int` to a negative one. -/
theorem advance_short {i : Int} {length : Nat} (low : 0 ≤ i) (high : i < 2 ^ 31)
    (moves : 0 < length % 2 ^ 32) (short : length % 2 ^ 32 < 2 ^ 31) :
    advance i length < 0 ∨ i < advance i length ∧ advance i length < 2 ^ 31 := by
  rw [advance, Int.bmod]
  split <;> omega

/-- A long step from the start goes past it at once. -/
theorem advance_long {length : Nat} (long : 2 ^ 31 ≤ length % 2 ^ 32) : advance 0 length < 0 := by
  rw [advance, Int.bmod]
  split <;> omega

theorem advance_still {length : Nat} (still : length % 2 ^ 32 = 0) : advance 0 length = 0 := by
  rw [advance, Int.bmod]
  split <;> omega

/-- A counter that stays inside steps as the unbounded one. -/
theorem advance_of_small {i length : Nat} (small : i + length < 2 ^ 31) :
    advance i length = (i + length : Nat) := by
  rw [advance, Int.bmod]
  split <;> omega

/-- A counter that does not is negative after the step. -/
theorem advance_of_large {i length : Nat} (large : 2 ^ 31 ≤ i + length)
    (inside : i + length < 2 ^ 32) : advance i length < 0 := by
  rw [advance, Int.bmod]
  split <;> omega

/-- The first multiple of the width that is no `int`. -/
theorem reach_bounds {width : Nat} (positive : 1 ≤ width) :
    2 ^ 31 ≤ reach width ∧ reach width < 2 ^ 31 + width := by
  have divided := Nat.div_add_mod (2 ^ 31 + width - 1) width
  have less := Nat.mod_lt (2 ^ 31 + width - 1) positive
  rw [Nat.mul_comm] at divided
  rw [reach, blockLimit]
  omega

/-- A multiple of the width below that one is an `int`, and so are all before it. -/
theorem lt_reach_iff {width k : Nat} (positive : 1 ≤ width) :
    k * width < 2 ^ 31 ↔ k < blockLimit width := by
  obtain ⟨low, high⟩ := reach_bounds positive
  rw [reach] at low high
  constructor
  · intro small
    exact Nat.lt_of_mul_lt_mul_right (Nat.lt_of_lt_of_le small low)
  · intro below
    have next : (k + 1) * width ≤ blockLimit width * width := Nat.mul_le_mul_right width below
    rw [Nat.add_mul] at next
    omega

section Loop

variable {lib : CryptoLibrary Key} {rsa : RSASimpleCrypto Key} {text : Bytes}

theorem inside_of_filled (filled : text ≠ []) : ¬ ((0 : Int) < 0 ∨ (text.length : Int) ≤ 0) := by
  have positive := List.length_pos_iff.mpr filled
  omega

theorem countedBlocks_out {convert : Bytes → CryptoM Key Bytes} {width : Nat} {bytes : Bytes}
    {i : Int} (turns : Nat) (converted : Bytes) (module : CryptoModule Key)
    (out : i < 0 ∨ bytes.length ≤ i) :
    countedBlocks convert width bytes turns i converted module = .ok converted module := by
  unfold countedBlocks
  rw [if_pos out]
  rfl

theorem encryptLoop_out {i : Int} (turns : Nat) (encryptBytes : Bytes)
    (module : CryptoModule Key) (out : i < 0 ∨ text.length ≤ i) :
    encryptLoop lib rsa text turns i encryptBytes module = .ok encryptBytes module :=
  countedBlocks_out turns encryptBytes module out

theorem encryptLoop_zero {i : Int} (encryptBytes : Bytes) (module : CryptoModule Key)
    (inside : ¬ (i < 0 ∨ text.length ≤ i)) :
    encryptLoop lib rsa text 0 i encryptBytes module = .error .nonTermination module := by
  unfold encryptLoop countedBlocks
  rw [if_neg inside]
  rfl

/-- A turn encrypts the block at the counter with the next draw. -/
theorem encryptLoop_turn {i : Int} (initialized : rsa.publicKeyInitialized = true) (turns : Nat)
    (encryptBytes : Bytes) (module : CryptoModule Key)
    (inside : ¬ (i < 0 ∨ text.length ≤ i)) :
    encryptLoop lib rsa text (turns + 1) i encryptBytes module =
      match lib.rsaEncrypt module.draws rsa.encryptor
          ((text.drop i.toNat).take rsa.maxPlainTextLength) with
      | .ok newBytes =>
          encryptLoop lib rsa text turns (advance i rsa.maxPlainTextLength)
            (encryptBytes ++ newBytes) { module with draws := module.draws + 1 }
      | .error what => .error (.exception what) { module with draws := module.draws + 1 } := by
  have short : ¬ ((text.drop i.toNat).take rsa.maxPlainTextLength).length >
      rsa.maxPlainTextLength := by
    have bound := List.length_take_le rsa.maxPlainTextLength (text.drop i.toNat)
    omega
  rw [encryptLoop, countedBlocks, if_neg inside]
  simp only [bind_run, encryptBlock, initialized, Bool.true_eq_false, if_false, if_neg short,
    draw_run]
  cases lib.rsaEncrypt module.draws rsa.encryptor
      ((text.drop i.toNat).take rsa.maxPlainTextLength) with
  | ok newBytes => rfl
  | error what => rfl

/-- A counter that moves comes to its end, over the text or over the largest `int`. -/
theorem ends_of_moving (initialized : rsa.publicKeyInitialized = true)
    (moves : 0 < rsa.maxPlainTextLength % 2 ^ 32)
    (short : rsa.maxPlainTextLength % 2 ^ 32 < 2 ^ 31) (turns : Nat) :
    ∀ (i : Int) (encryptBytes : Bytes) (module : CryptoModule Key), 0 ≤ i → i < 2 ^ 31 →
      2 ^ 31 ≤ i + turns → Ends (encryptLoop lib rsa text turns i encryptBytes module) := by
  induction turns with
  | zero =>
      intro i encryptBytes module low high last
      omega
  | succ turns ih =>
      intro i encryptBytes module low high last
      by_cases out : i < 0 ∨ text.length ≤ i
      · rw [encryptLoop_out _ _ _ out]
        trivial
      · rw [encryptLoop_turn initialized _ _ _ out]
        cases lib.rsaEncrypt module.draws rsa.encryptor
            ((text.drop i.toNat).take rsa.maxPlainTextLength) with
        | error what => trivial
        | ok newBytes =>
            rcases advance_short low high moves short with below | ⟨more, less⟩
            · change Ends (encryptLoop lib rsa text turns _ _ _)
              rw [encryptLoop_out _ _ _ (.inl below)]
              trivial
            · apply ih
              · omega
              · exact less
              · omega

/-- A counter that stands still ends only with a block that is refused. -/
theorem ends_iff_of_still (initialized : rsa.publicKeyInitialized = true) (filled : text ≠ [])
    (still : rsa.maxPlainTextLength % 2 ^ 32 = 0) (turns : Nat) :
    ∀ (encryptBytes : Bytes) (module : CryptoModule Key),
      Ends (encryptLoop lib rsa text turns 0 encryptBytes module) ↔
        ∃ turn < turns, ∃ what, lib.rsaEncrypt (module.draws + turn) rsa.encryptor
          (text.take rsa.maxPlainTextLength) = .error what := by
  have inside := inside_of_filled filled
  have stays := advance_still still
  induction turns with
  | zero =>
      intro encryptBytes module
      rw [encryptLoop_zero _ _ inside]
      exact iff_of_false id fun ⟨_, impossible, _⟩ => absurd impossible (Nat.not_lt_zero _)
  | succ turns ih =>
      intro encryptBytes module
      rw [encryptLoop_turn initialized _ _ _ inside, stays]
      change Ends (match lib.rsaEncrypt module.draws rsa.encryptor
        (text.take rsa.maxPlainTextLength) with | .ok newBytes => _ | .error what => _) ↔ _
      cases first : lib.rsaEncrypt module.draws rsa.encryptor
          (text.take rsa.maxPlainTextLength) with
      | error what => exact iff_of_true trivial ⟨0, Nat.succ_pos _, what, first⟩
      | ok newBytes =>
          change Ends (encryptLoop lib rsa text turns 0 _ _) ↔ _
          rw [ih]
          constructor
          · rintro ⟨turn, inTime, what, refused⟩
            refine ⟨turn + 1, by omega, what, ?_⟩
            rw [← refused, Nat.add_comm turn, ← Nat.add_assoc]
          · rintro ⟨turn, inTime, what, refused⟩
            cases turn with
            | zero =>
                rw [Nat.add_zero, first] at refused
                cases refused
            | succ turn =>
                refine ⟨turn, by omega, what, ?_⟩
                rw [← refused, Nat.add_comm turn, ← Nat.add_assoc]

/-- The loop ends unless its counter stands still over blocks that are never refused. -/
theorem terminates_of_initialized (initialized : rsa.publicKeyInitialized = true)
    (module : CryptoModule Key) :
    Terminates lib rsa text module ↔
      text = [] ∨ rsa.maxPlainTextLength % 2 ^ 32 ≠ 0 ∨
        Refuses lib rsa.encryptor (text.take rsa.maxPlainTextLength) module.draws := by
  by_cases filled : text = []
  · refine iff_of_true ⟨0, ?_⟩ (.inl filled)
    rw [encryptLoop_out _ _ _ (.inr (by rw [filled]; exact Int.le_refl 0))]
    trivial
  · rw [or_iff_right filled]
    by_cases still : rsa.maxPlainTextLength % 2 ^ 32 = 0
    · rw [or_iff_right (not_not_intro still)]
      simp only [Terminates, ends_iff_of_still initialized filled still, Refuses]
      constructor
      · rintro ⟨turns, turn, -, refused⟩
        exact ⟨turn, refused⟩
      · rintro ⟨turn, refused⟩
        exact ⟨turn + 1, turn, Nat.lt_succ_self turn, refused⟩
    · refine iff_of_true ?_ (.inl still)
      by_cases short : rsa.maxPlainTextLength % 2 ^ 32 < 2 ^ 31
      · exact ⟨2 ^ 31, ends_of_moving initialized (by omega) short _ 0 [] module (by omega)
          (by omega) (by omega)⟩
      · refine ⟨1, ?_⟩
        rw [encryptLoop_turn initialized _ _ _ (inside_of_filled filled)]
        cases lib.rsaEncrypt module.draws rsa.encryptor
            ((text.drop (0 : Int).toNat).take rsa.maxPlainTextLength) with
        | error what => trivial
        | ok newBytes =>
            change Ends (encryptLoop lib rsa text 0 _ _ _)
            rw [encryptLoop_out _ _ _ (.inl (advance_long (by omega)))]
            trivial

section Reach

variable {width k : Nat}

/-- The counter after a block that starts at an `int`. -/
theorem advance_block (positive : 1 ≤ width) (narrow : width < 2 ^ 32)
    (below : k < blockLimit width) :
    (k + 1 < blockLimit width → advance (k * width : Nat) width = ((k + 1) * width : Nat)) ∧
    (¬ k + 1 < blockLimit width →
      advance (k * width : Nat) width < 0 ∧ (k + 1) * width = reach width) := by
  have small := (lt_reach_iff positive).mpr below
  constructor
  · intro inside
    have onward := (lt_reach_iff positive).mpr inside
    rw [Nat.add_mul, Nat.one_mul] at onward
    rw [advance_of_small onward, Nat.add_mul, Nat.one_mul]
  · intro last
    have large := mt (lt_reach_iff positive).mp last
    rw [Nat.add_mul, Nat.one_mul] at large
    constructor
    · apply advance_of_large
      · omega
      · cases k with
        | zero => omega
        | succ k =>
            have one_width := Nat.le_mul_of_pos_left width (show 0 < k + 1 by omega)
            omega
    · rw [reach, show blockLimit width = k + 1 by omega]

/-- Blocks that start at an `int` lie below what the counter reaches. -/
theorem block_below (below : k < blockLimit width) : k * width + width ≤ reach width := by
  have next : (k + 1) * width ≤ blockLimit width * width := Nat.mul_le_mul_right width below
  rwa [Nat.add_mul, Nat.one_mul] at next

theorem take_block (bytes : Bytes) (below : k < blockLimit width) :
    ((bytes.take (reach width)).drop (k * width)).take width =
      (bytes.drop (k * width)).take width := by
  have room := block_below below
  rw [List.drop_take, List.take_take]
  congr 1
  omega

/-- The loop with its counter is the loop without one over the bytes that the counter reaches. -/
theorem countedBlocks_eq_blocks {convert : Bytes → CryptoM Key Bytes} (positive : 1 ≤ width)
    (narrow : width < 2 ^ 32) (bytes : Bytes) (turns : Nat) :
    ∀ (k : Nat) (converted : Bytes) (module : CryptoModule Key), k < blockLimit width →
      countedBlocks convert width bytes turns (k * width : Nat) converted module =
        (do
          let others ← blocks convert width turns ((bytes.take (reach width)).drop (k * width))
          return converted ++ others) module := by
  -- a counter behind the last byte
  have ended : ∀ (turns k : Nat) (converted : Bytes) (module : CryptoModule Key),
      bytes.length ≤ k * width →
      countedBlocks convert width bytes turns (k * width : Nat) converted module =
        (do
          let others ← blocks convert width turns ((bytes.take (reach width)).drop (k * width))
          return converted ++ others) module := by
    intro turns k converted module out
    have nothing : (bytes.take (reach width)).drop (k * width) = [] := by
      rw [List.drop_eq_nil_iff, List.length_take]
      omega
    rw [countedBlocks_out _ _ _ (.inr (by exact_mod_cast out)), nothing]
    simp only [bind_run, blocks_nil, pure_run, List.append_nil]
  have filled : ∀ k, k < blockLimit width → ¬ bytes.length ≤ k * width →
      (bytes.take (reach width)).drop (k * width) ≠ [] := by
    intro k below inside nothing
    have room := block_below below
    rw [List.drop_eq_nil_iff, List.length_take] at nothing
    omega
  induction turns with
  | zero =>
      intro k converted module below
      by_cases out : bytes.length ≤ k * width
      · exact ended 0 k converted module out
      · unfold countedBlocks
        rw [if_neg (by omega)]
        cases rest : (bytes.take (reach width)).drop (k * width) with
        | nil => exact absurd rest (filled k below out)
        | cons byte others => rfl
  | succ turns ih =>
      intro k converted module below
      by_cases out : bytes.length ≤ k * width
      · exact ended (turns + 1) k converted module out
      · have block := take_block bytes below
        have behind : ((bytes.take (reach width)).drop (k * width)).drop width =
            (bytes.take (reach width)).drop ((k + 1) * width) := by
          rw [List.drop_drop, Nat.add_mul, Nat.one_mul]
        unfold countedBlocks
        rw [if_neg (by omega)]
        cases rest : (bytes.take (reach width)).drop (k * width) with
        | nil => exact absurd rest (filled k below out)
        | cons byte others =>
            rw [rest] at block behind
            simp only [bind_run, blocks, block, behind, Int.toNat_natCast]
            cases convert ((bytes.drop (k * width)).take width) module with
            | error fault state => rfl
            | ok newBytes state =>
                dsimp only
                obtain ⟨onward, at_last⟩ := advance_block positive narrow below
                by_cases last : k + 1 < blockLimit width
                · rw [onward last, ih (k + 1) _ _ last]
                  simp only [bind_run]
                  cases blocks convert width turns
                      ((bytes.take (reach width)).drop ((k + 1) * width)) state with
                  | error fault state => rfl
                  | ok others state => simp only [pure_run, List.append_assoc]
                · obtain ⟨negative, end_reached⟩ := at_last last
                  have past : (bytes.take (reach width)).drop ((k + 1) * width) = [] := by
                    rw [List.drop_eq_nil_iff, List.length_take, end_reached]
                    omega
                  rw [countedBlocks_out _ _ _ (.inl negative), past, blocks_nil]
                  simp only [pure_run, List.append_nil]

end Reach

theorem countedBlocks_eq {convert : Bytes → CryptoM Key Bytes} {width : Nat}
    (positive : 1 ≤ width) (narrow : width < 2 ^ 32) (bytes : Bytes) (turns : Nat)
    (module : CryptoModule Key) :
    countedBlocks convert width bytes turns 0 [] module =
      blocks convert width turns (bytes.take (reach width)) module := by
  have some_block : 0 < blockLimit width := by
    rw [← lt_reach_iff positive, Nat.zero_mul]
    omega
  have looped := @countedBlocks_eq_blocks _ _ convert positive narrow bytes turns 0 [] module
    some_block
  rw [Nat.zero_mul, List.drop_zero] at looped
  rw [show (0 : Int) = (0 : Nat) from rfl, looped, bind_run]
  cases blocks convert width turns (bytes.take (reach width)) module with
  | ok others state => rfl
  | error fault state => rfl

/-- A counter that stands still cuts off nothing time and again, as a loop without one does. -/
theorem countedBlocks_still {convert : Bytes → CryptoM Key Bytes} (bytes : Bytes) (turns : Nat) :
    ∀ (converted : Bytes) (module : CryptoModule Key),
      countedBlocks convert 0 bytes turns 0 converted module =
        (do
          let others ← blocks convert 0 turns bytes
          return converted ++ others) module := by
  cases bytes with
  | nil =>
      intro converted module
      rw [countedBlocks_out _ _ _ (.inr (by simp))]
      simp only [bind_run, blocks_nil, pure_run, List.append_nil]
  | cons byte bytes =>
      have inside := inside_of_filled (List.cons_ne_nil byte bytes)
      induction turns with
      | zero =>
          intro converted module
          unfold countedBlocks
          rw [if_neg inside]
          rfl
      | succ turns ih =>
          intro converted module
          unfold countedBlocks
          rw [if_neg inside]
          simp only [bind_run, blocks, List.take_zero, List.drop_zero,
            show advance 0 0 = 0 from rfl]
          cases convert [] module with
          | error fault state => rfl
          | ok newBytes state =>
              dsimp only
              rw [ih]
              simp only [bind_run]
              cases blocks convert 0 turns (byte :: bytes) state with
              | error fault state => rfl
              | ok others state => simp only [pure_run, List.append_assoc]

/-- Over less than 2 GiB the counter makes no difference. -/
theorem countedBlocks_of_small {convert : Bytes → CryptoM Key Bytes} {width : Nat} {bytes : Bytes}
    (narrow : width < 2 ^ 32) (small : bytes.length < 2 ^ 31) (turns : Nat)
    (module : CryptoModule Key) :
    countedBlocks convert width bytes turns 0 [] module =
      blocks convert width turns bytes module := by
  rcases Nat.eq_zero_or_pos width with still | positive
  · subst still
    rw [countedBlocks_still, bind_run]
    cases blocks convert 0 turns bytes module with
    | ok others state => rfl
    | error fault state => rfl
  · have within := (reach_bounds positive).1
    rw [countedBlocks_eq positive narrow, List.take_of_length_le (by omega)]

/-- `encrypt`, whose loop counts and is watched for some turns. -/
def countedEncrypt (lib : CryptoLibrary Key) (turns : Nat) (text : Bytes) :
    CryptoM Key Bytes := do
  let module ← get
  match module.algorithm with
  | .None => return text
  | .ServerRSA => encryptLoop lib module.rsaServerCrypto text turns 0 []
  | .OuterRSA => encryptLoop lib module.rsaSimpleCrypto text turns 0 []
  | .AES => Program.ofExcept (thrown (lib.aesEncrypt module.aesKey text))

def countedDecrypt (lib : CryptoLibrary Key) (turns : Nat) (cipher : Bytes) :
    CryptoM Key Bytes := do
  let module ← get
  match module.algorithm with
  | .None => return cipher
  | .ServerRSA => decryptLoop lib module.rsaServerCrypto cipher turns 0 []
  | .OuterRSA => decryptLoop lib module.rsaSimpleCrypto cipher turns 0 []
  | .AES => Program.ofExcept (thrown (lib.aesDecrypt module.aesKey cipher))

/-- Both RSA objects have lengths that the library can report, in an `unsigned int`. -/
structure Narrow (module : CryptoModule Key) : Prop where
  serverText : module.rsaServerCrypto.maxPlainTextLength < 2 ^ 32
  serverCipher : module.rsaServerCrypto.fixedCipherTextLength < 2 ^ 32
  simpleText : module.rsaSimpleCrypto.maxPlainTextLength < 2 ^ 32
  simpleCipher : module.rsaSimpleCrypto.fixedCipherTextLength < 2 ^ 32

/-- `encrypt` of less than 2 GiB is the one with the counter. -/
theorem encrypt_eq_counted {module : CryptoModule Key} (narrow : module.Narrow)
    (small : text.length < 2 ^ 31) :
    encrypt lib text module = countedEncrypt lib (text.length + lib.patience) text module := by
  simp only [encrypt, countedEncrypt, bind_run, get_run]
  cases module.algorithm with
  | None => rfl
  | ServerRSA => exact (countedBlocks_of_small narrow.serverText small _ module).symm
  | OuterRSA => exact (countedBlocks_of_small narrow.simpleText small _ module).symm
  | AES => rfl

theorem decrypt_eq_counted {cipher : Bytes} {module : CryptoModule Key} (narrow : module.Narrow)
    (small : cipher.length < 2 ^ 31) :
    decrypt lib cipher module =
      countedDecrypt lib (cipher.length + lib.patience) cipher module := by
  simp only [decrypt, countedDecrypt, bind_run, get_run]
  cases module.algorithm with
  | None => rfl
  | ServerRSA => exact (countedBlocks_of_small narrow.serverCipher small _ module).symm
  | OuterRSA => exact (countedBlocks_of_small narrow.simpleCipher small _ module).symm
  | AES => rfl

end Loop

/-- Under a key that was accepted `encryptRSA` terminates exactly if there is nothing to encrypt,
or the counter moves, or the library refuses the first block at some draw. -/
theorem terminates_iff {lib : CryptoLibrary Key} {key : Bytes} {before accepted : CryptoModule Key}
    (returned : setOuterRSAKey lib key before = .ok () accepted) (text : Bytes)
    (module : CryptoModule Key) :
    Terminates lib accepted.rsaSimpleCrypto text module ↔
      text = [] ∨ accepted.rsaSimpleCrypto.maxPlainTextLength % 2 ^ 32 ≠ 0 ∨
        Refuses lib accepted.rsaSimpleCrypto.encryptor
          (text.take accepted.rsaSimpleCrypto.maxPlainTextLength) module.draws :=
  terminates_of_initialized (setOuterRSAKey_initialized returned) module

/-- A library that accepts keys too short for any text, and encrypts an empty block under them. -/
def lenient : CryptoLibrary Bytes where
  load := fun bytes _ => (.ok (), bytes)
  validate := fun _ _ => true
  save := fun key => key
  fixedMaxPlaintextLength := fun key => key.length - 11
  rsaEncrypt := fun _ key block =>
    .ok (List.replicate (key.length - block.length) 0 ++ block)
  rsaDecrypt := fun _ cipher => .ok cipher
  aesEncrypt := fun _ text => .ok text
  aesDecrypt := fun _ cipher => .ok cipher
  patience := 0

/-- A server before it is given a key. -/
def keyless : CryptoModule Bytes :=
  { rsaServerCrypto := { publicKey := [], encryptor := [] }
    rsaSimpleCrypto := { publicKey := [], encryptor := [] }
    aesKey := List.replicate 16 0 }

/-- The server with a key of 16 bytes, which leaves five for the text. -/
def keyed : CryptoModule Bytes :=
  finalState (setOuterRSAKey lenient (List.replicate 16 1) keyless)

theorem terminates_iff_keyed :
    Terminates lenient keyed.rsaSimpleCrypto [1, 2, 3, 4, 5, 6, 7] keyed :=
  (@terminates_iff _ lenient (List.replicate 16 1) keyless keyed rfl [1, 2, 3, 4, 5, 6, 7]
    keyed).mpr (.inr (.inl (by decide)))

/-- A key of eleven bytes leaves nothing for the text. -/
theorem endless : ¬ ∀ (key text : Bytes) (accepted module : CryptoModule Bytes),
    setOuterRSAKey lenient key keyless = .ok () accepted →
      Terminates lenient accepted.rsaSimpleCrypto text module := by
  intro terminates
  have ends := terminates (List.replicate 11 1) [1]
    (finalState (setOuterRSAKey lenient (List.replicate 11 1) keyless)) keyless rfl
  rw [terminates_of_initialized rfl] at ends
  rcases ends with filled | moves | ⟨turn, what, refused⟩
  · cases filled
  · exact moves rfl
  · cases refused

end Locus.CryptoModule
