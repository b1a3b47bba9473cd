import Locus.CipherModule
import Locus.ProtocolClientRun

set_option autoImplicit false

/- The frames that a session hands out, each with the cipher it was made with, and the
ciphers that a session reads under. -/
namespace Locus

open Program Transition

variable {Key : Type}

namespace CryptoModule

/-- What `encrypt` applies under an algorithm. -/
def sealing (module : CryptoModule Key) : Algorithm → Seal Key
  | .None => .plain
  | .ServerRSA => .serverPublic
  | .OuterRSA => .outer module.rsaSimpleCrypto.encryptor
  | .AES => .session module.aesKey

/-- What `decrypt` applies under an algorithm. There is no private key for `OuterRSA`. -/
def opening (module : CryptoModule Key) : Algorithm → Option Opening
  | .None => some .plain
  | .ServerRSA =>
      if module.rsaServerCrypto.privateKeyInitialized then some .serverPrivate else none
  | .OuterRSA => none
  | .AES => some (.session module.aesKey)

/-- The keys that the server brings along. -/
structure Fixed (before after : CryptoModule Key) : Prop where
  rsaServerCrypto : after.rsaServerCrypto = before.rsaServerCrypto
  aesKey : after.aesKey = before.aesKey

theorem Fixed.refl (module : CryptoModule Key) : Fixed module module := ⟨rfl, rfl⟩

theorem Fixed.trans {first second third : CryptoModule Key} (left : Fixed first second)
    (right : Fixed second third) : Fixed first third :=
  ⟨right.rsaServerCrypto.trans left.rsaServerCrypto, right.aesKey.trans left.aesKey⟩

theorem Drawn.fixed {before after : CryptoModule Key} (drawn : Drawn before after) :
    Fixed before after := by
  obtain ⟨_, rfl⟩ := drawn
  exact ⟨rfl, rfl⟩

theorem setOuterRSAKey_fixed (lib : CryptoLibrary Key) (key : Bytes) :
    Keeps Fixed (setOuterRSAKey lib key) := by
  have drawn : Keeps Fixed (draw : CryptoM Key Nat) :=
    draw_drawn.mono fun _ _ drawn => drawn.fixed
  refine .bind .trans ?_ fun _ => .modify fun _ => ⟨rfl, rfl⟩
  refine .bind .trans (.get .refl) fun module => ?_
  refine .bind .trans (.modify fun _ => ⟨rfl, rfl⟩) fun _ => ?_
  refine .bind .trans (.ofExcept .refl _) fun _ => ?_
  refine .bind .trans drawn fun number => ?_
  split
  · exact .throw .refl _
  · exact .modify fun _ => ⟨rfl, rfl⟩

end CryptoModule

/-- The frame that an act handed out, and the cipher it was made with. -/
def Act.sealed (module : CryptoModule Key) : Act → Option (Seal Key × Bytes)
  | .sent _ algorithm _ frame => some (module.sealing algorithm, frame)
  | _ => none

def Act.isRead : Act → Bool
  | .read _ => true
  | _ => false

namespace ProtocolClient

/-- The algorithm that `receiveData` reads under: the one that the handler of the stage
sets, or the one that is set. -/
def reads (client : ProtocolClient Key) : Algorithm :=
  match client.stage with
  | .SetPublicKey | .SetSymmetricKey => .ServerRSA
  | .TestKey => .AES
  | .StableCommunication | .Exit => client.cryptoModule.algorithm

def opening (client : ProtocolClient Key) : Option Opening :=
  client.cryptoModule.opening client.reads

/-- A handler whose `try` block sets an algorithm and then reads a packet. -/
def ReadsUnder (lib : CryptoLibrary Key) (algorithm : Algorithm) (s : Session Key)
    (handler : SessionM Key Unit) : Prop :=
  ∃ rest, handler s =
    settle closeConnection ((recvPacket lib >>= rest) (switched s algorithm))

theorem setPublicKey_reads (lib : CryptoLibrary Key) (s : Session Key) :
    ReadsUnder lib .ServerRSA s (setPublicKey lib) := ⟨_, rfl⟩

theorem setSymmetricKey_reads (lib : CryptoLibrary Key) (s : Session Key) :
    ReadsUnder lib .ServerRSA s (setSymmetricKey lib) := ⟨_, rfl⟩

theorem testKey_reads (lib : CryptoLibrary Key) (s : Session Key) :
    ReadsUnder lib .AES s (testKey lib) := ⟨_, rfl⟩

theorem stableCommunication_reads (lib : CryptoLibrary Key) (turn : Turn) (s : Session Key) :
    ReadsUnder lib s.client.cryptoModule.algorithm s (stableCommunication lib turn) := ⟨_, rfl⟩

/-- Each read of `receiveData` is made under the algorithm of the stage. In `TestKey` the
second one is made under the same. -/
def ReadsAsStaged (lib : CryptoLibrary Key) (turn : Turn) (s : Session Key) : Prop :=
  ∃ handler, ReadsUnder lib s.client.reads s handler ∧
    (receiveData lib turn s = handler s ∨
    receiveData lib turn s = (handler >>= fun _ => stableCommunication lib turn) s ∧
      ∀ middle, handler s = .ok () middle →
        ReadsUnder lib s.client.reads middle (stableCommunication lib turn))

theorem receiveData_reads (lib : CryptoLibrary Key) (turn : Turn) {s : Session Key}
    (sound : Sound s.client) (stays : s.client.stage ≠ .Exit) : ReadsAsStaged lib turn s := by
  cases stage : s.client.stage with
  | SetPublicKey =>
      refine ⟨setPublicKey lib, ?_, .inl ?_⟩
      · rw [reads, stage]
        exact setPublicKey_reads lib s
      · simp only [receiveData, bind_run, get_run, stage]
  | SetSymmetricKey =>
      refine ⟨setSymmetricKey lib, ?_, .inl ?_⟩
      · rw [reads, stage]
        exact setSymmetricKey_reads lib s
      · simp only [receiveData, bind_run, get_run, stage]
  | TestKey =>
      refine ⟨testKey lib, ?_, .inr ⟨?_, ?_⟩⟩
      · rw [reads, stage]
        exact testKey_reads lib s
      · simp only [receiveData, bind_run, get_run, stage]
      · intro middle ran
        obtain ⟨after, returned, _, aes, _⟩ :=
          testKey_outcome lib s (sound.initialized (by rw [stage]; decide))
        rw [returned] at ran
        cases ran
        rw [reads, stage]
        exact aes ▸ stableCommunication_reads lib turn middle
  | StableCommunication =>
      refine ⟨stableCommunication lib turn, ?_, .inl ?_⟩
      · rw [reads, stage]
        exact stableCommunication_reads lib turn s
      · simp only [receiveData, bind_run, get_run, stage]
  | Exit => exact absurd stage stays

/-- The session keeps the server's keys, and what it sends under AES is encrypted with its
symmetric key. -/
structure Seals (lib : CryptoLibrary Key) (before after : Session Key) : Prop where
  fixed : before.client.cryptoModule.Fixed after.client.cryptoModule
  sealed : ∃ log, after.acts = before.acts ++ log ∧
    ∀ type payload frame, .sent type .AES payload frame ∈ log →
      lib.aesEncrypt before.client.cryptoModule.aesKey (type.toUInt8 :: payload) = .ok frame

section Seals

variable {lib : CryptoLibrary Key}

theorem Seals.refl (s : Session Key) : Seals lib s s :=
  ⟨.refl _, [], by simp, by simp⟩

theorem Seals.trans {first second third : Session Key} (left : Seals lib first second)
    (right : Seals lib second third) : Seals lib first third := by
  obtain ⟨log, acts, sealed⟩ := left.sealed
  obtain ⟨log', acts', sealed'⟩ := right.sealed
  refine ⟨left.fixed.trans right.fixed, log ++ log', ?_, ?_⟩
  · rw [acts', acts, List.append_assoc]
  · intro type payload frame member
    rcases List.mem_append.mp member with here | there
    · exact sealed type payload frame here
    · rw [← left.fixed.aesKey]
      exact sealed' type payload frame there

/-- A step that sends nothing. -/
theorem seals_logged {before after : Session Key} (log : List Act)
    (acts : after.acts = before.acts ++ log) (fixed : before.client.cryptoModule.Fixed
      after.client.cryptoModule)
    (unsent : ∀ type algorithm payload frame, .sent type algorithm payload frame ∉ log) :
    Seals lib before after := by
  refine ⟨fixed, log, acts, ?_⟩
  intro type payload frame member
  exact absurd member (unsent type .AES payload frame)

theorem act_seals {entry : Act}
    (unsent : ∀ type algorithm payload frame, .sent type algorithm payload frame ≠ entry) :
    Keeps (Seals lib) (act entry : SessionM Key Unit) := by
  intro s
  refine seals_logged [entry] rfl (.refl _) ?_
  intro type algorithm payload frame member
  exact unsent type algorithm payload frame (List.mem_singleton.mp member)

theorem edit_seals {change : ProtocolClient Key → ProtocolClient Key}
    (kept : ∀ client, (change client).cryptoModule = client.cryptoModule) :
    Keeps (Seals lib) (edit change) := by
  intro s
  refine seals_logged [] (by simp [edit_run, finalState]) ?_ (by simp)
  rw [edit_run, finalState]
  dsimp only
  rw [kept]
  exact .refl _

theorem crypto_seals {α : Type} {call : CryptoM Key α} (keeps : Keeps CryptoModule.Fixed call) :
    Keeps (Seals lib) (crypto call) := by
  intro s
  obtain ⟨m, fixed, ⟨value, _, ran⟩ | ⟨fault, ran⟩⟩ := crypto_spec keeps s
  · rw [KeepsAt, ran]
    exact seals_logged [] (by simp [finalState, withModule]) fixed (by simp)
  · rw [KeepsAt, ran]
    exact seals_logged [] (by simp [finalState, withModule]) fixed (by simp)

theorem use_seals (algo : Algorithm) :
    Keeps (Seals lib) (crypto (CryptoModule.use algo) : SessionM Key Unit) :=
  crypto_seals (.modify fun _ => ⟨rfl, rfl⟩)

theorem manager_seals (op : ClientDataManager.Op) :
    Keeps (Seals lib) (manager op : SessionM Key ClientDataManager.Reply) := by
  intro s
  unfold KeepsAt
  cases ran : ClientDataManager.run op s.database with
  | ok reply database =>
      rw [manager_ok ran]
      exact seals_logged [.called op (some reply)] rfl (.refl _) (by simp)
  | error fault database =>
      rw [manager_error ran]
      exact seals_logged [.called op none] rfl (.refl _) (by simp)

theorem recvPacket_seals : Keeps (Seals lib) (recvPacket lib) := by
  have takes : Keeps (Seals lib) (takeFrame : SessionM Key Bytes) := by
    intro s
    exact seals_logged [.read (s.inbound.headD [])] rfl (.refl _) (by simp)
  refine .bind .trans (.bind .trans takes fun bytes => crypto_seals
    ((CryptoModule.decrypt_drawn lib bytes).mono fun _ _ drawn => drawn.fixed)) fun bytes => ?_
  exact .bind .trans (.ofExcept .refl _) fun packet =>
    .bind .trans (act_seals (by simp)) fun _ => .pure .refl _

theorem sendPacket_seals (packet : Packet) : Keeps (Seals lib) (sendPacket lib packet) := by
  intro s
  obtain ⟨m, drawn, ⟨fault, failed⟩ | ⟨frame, encrypted, sent⟩⟩ := sendPacket_spec lib packet s
  · rw [KeepsAt, failed]
    exact seals_logged [] (by simp [finalState, withModule]) drawn.fixed (by simp)
  · rw [KeepsAt, sent]
    refine ⟨drawn.fixed, _, rfl, ?_⟩
    intro type payload sealed member
    obtain ⟨rfl, aes, rfl, rfl⟩ := Act.sent.inj (List.mem_singleton.mp member)
    rw [CryptoModule.encrypt_aes lib _ aes.symm, ofExcept_ok_iff] at encrypted
    cases outcome : lib.aesEncrypt s.client.cryptoModule.aesKey
        (packet.type.toUInt8 :: packet.buffer.bytes) with
    | error what =>
        rw [outcome] at encrypted
        cases encrypted.1
    | ok bytes =>
        rw [outcome] at encrypted
        cases encrypted.1
        rfl

theorem closeConnection_seals : Keeps (Seals lib) (closeConnection : SessionM Key Unit) :=
  act_seals (by simp)

theorem setStage_seals (stage : Stage) : Keeps (Seals lib) (setStage stage : SessionM Key Unit) :=
  .bind .trans (edit_seals fun _ => rfl) fun _ => act_seals (by simp)

theorem setPublicKey_seals : Keeps (Seals lib) (setPublicKey lib) := by
  refine catching_keeps .trans ?_ closeConnection_seals
  refine .bind .trans (use_seals _) fun _ => .bind .trans recvPacket_seals fun packet => ?_
  split
  · refine .bind .trans (.ofExcept .refl _) fun popped => ?_
    refine .bind .trans (crypto_seals (CryptoModule.setOuterRSAKey_fixed lib _)) fun _ => ?_
    refine .bind .trans (act_seals (by simp)) fun _ => .bind .trans (use_seals _) fun _ => ?_
    refine .bind .trans (crypto_seals (.bind .trans (.get .refl) fun _ => .pure .refl _))
      fun key => ?_
    exact .bind .trans (sendPacket_seals _) fun _ => setStage_seals _
  · exact closeConnection_seals

theorem setSymmetricKey_seals : Keeps (Seals lib) (setSymmetricKey lib) := by
  refine catching_keeps .trans ?_ closeConnection_seals
  refine .bind .trans (use_seals _) fun _ => .bind .trans recvPacket_seals fun packet => ?_
  split
  · refine .bind .trans (crypto_seals (.bind .trans (.get .refl) fun _ => .pure .refl _))
      fun key => .bind .trans (.ofExcept .refl _) fun ⟨returned, _⟩ => ?_
    dsimp only
    split
    · exact closeConnection_seals
    · exact .bind .trans (use_seals _) fun _ =>
        .bind .trans (sendPacket_seals _) fun _ => setStage_seals _
  · exact closeConnection_seals

theorem selfRegister_seals : Keeps (Seals lib) (selfRegister lib) := by
  refine .bind .trans (crypto_seals (.bind .trans (.get .refl) fun module => ?_)) fun key => ?_
  · dsimp only
    split
    · exact .throw .refl _
    · exact .pure .refl _
  · exact .bind .trans (.get .refl) fun s => .bind .trans (manager_seals _) fun reply =>
      edit_seals fun _ => rfl

theorem testKey_seals : Keeps (Seals lib) (testKey lib) := by
  refine catching_keeps .trans ?_ closeConnection_seals
  refine .bind .trans (use_seals _) fun _ => .bind .trans recvPacket_seals fun packet => ?_
  split
  · exact .bind .trans (sendPacket_seals _) fun _ =>
      .bind .trans (setStage_seals _) fun _ => selfRegister_seals
  · exact closeConnection_seals

theorem setName_seals (packet : Packet) : Keeps (Seals lib) (setName lib packet) := by
  refine .bind .trans (.ofExcept .refl _) fun popped => .bind .trans (.get .refl) fun s =>
    .bind .trans (manager_seals _) fun res => ?_
  split
  · exact sendPacket_seals _
  · exact sendPacket_seals _

theorem callNamed_seals (call : Int16 → Int16 → ClientDataManager.Op) (packet : Packet) :
    Keeps (Seals lib) (callNamed call packet : SessionM Key Unit) := by
  refine .bind .trans (.ofExcept .refl _) fun popped =>
    .bind .trans (manager_seals _) fun reply => ?_
  dsimp only
  split
  · exact .bind .trans (.get .refl) fun s => .bind .trans (manager_seals _) fun _ => .pure .refl _
  · exact .pure .refl _

theorem myLocation_seals (turn : Turn) (packet : Packet) :
    Keeps (Seals lib) (myLocation turn packet : SessionM Key Unit) := by
  unfold myLocation
  split
  · exact closeConnection_seals
  · refine .bind .trans (.ofExcept .refl _) fun _ => .bind .trans (.ofExcept .refl _) fun _ =>
      .bind .trans (.ofExcept .refl _) fun _ => .bind .trans (.get .refl) fun s => ?_
    exact .bind .trans (manager_seals _) fun _ => .pure .refl _

theorem stableCommunication_seals (turn : Turn) :
    Keeps (Seals lib) (stableCommunication lib turn) := by
  refine catching_keeps .trans ?_ closeConnection_seals
  refine .bind .trans recvPacket_seals fun packet => ?_
  split
  · exact closeConnection_seals
  · exact setName_seals packet
  · exact callNamed_seals _ packet
  · exact callNamed_seals _ packet
  · exact callNamed_seals _ packet
  · exact myLocation_seals turn packet
  · exact .pure .refl _

theorem receiveData_seals (turn : Turn) : Keeps (Seals lib) (receiveData lib turn) := by
  refine .bind .trans (.get .refl) fun s => ?_
  split
  · exact setPublicKey_seals
  · exact setSymmetricKey_seals
  · exact .bind .trans testKey_seals fun _ => stableCommunication_seals turn
  · exact stableCommunication_seals turn
  · exact .pure .refl _

theorem sendRemainingData_seals : Keeps (Seals lib) (sendRemainingData lib) := by
  refine .bind .trans (.get .refl) fun s => ?_
  split
  · exact .pure .refl _
  · exact .bind .trans (sendPacket_seals _) fun _ => edit_seals fun _ => rfl

theorem update_seals (turn : Turn) : Keeps (Seals lib) (update lib turn) := by
  refine .bind .trans (.get .refl) fun s => ?_
  split
  · refine .bind .trans (.get .refl) fun s => .bind .trans (manager_seals _) fun names =>
      .bind .trans (edit_seals fun _ => rfl) fun _ => .bind .trans (.get .refl) fun s =>
      .bind .trans (manager_seals _) fun positions => ?_
    exact .bind .trans (edit_seals fun _ => rfl) fun _ => sendRemainingData_seals
  · exact sendRemainingData_seals

/-- What every message keeps. -/
theorem recv_seals (turn : Turn) : Keeps (Seals lib) (recv lib turn) := by
  unfold recv
  split
  · exact closeConnection_seals
  · exact sendRemainingData_seals
  · exact receiveData_seals turn
  · exact update_seals turn
  · exact .pure .refl _

end Seals

/-- How many of the two changes of cipher a session has made. -/
def epoch : Stage → Nat
  | .SetPublicKey => 0
  | .SetSymmetricKey => 1
  | .TestKey | .StableCommunication | .Exit => 2

/-- A frame under the symmetric key that starts no change of cipher. -/
def Later (lib : CryptoLibrary Key) (aesKey frame : Bytes) : Prop :=
  ∃ (type : PacketType) (payload : Bytes),
    lib.aesEncrypt aesKey (type.toUInt8 :: payload) = .ok frame ∧
    type ≠ .OPEN_ENCR ∧ type ≠ .SYMMETRIC_KEY

/-- The frames that a session hands out while it serves a message. -/
inductive Hands (lib : CryptoLibrary Key) (before after : Session Key) (news : List Act) : Prop
  | silent (stage : after.client.stage = before.client.stage)
      (frames : news.filterMap (Act.sealed after.client.cryptoModule) = [])
  | takesKey (key frame : Bytes) (stage : before.client.stage = .SetPublicKey)
      (next : after.client.stage = .SetSymmetricKey)
      (frames : news.filterMap (Act.sealed after.client.cryptoModule) =
        [(.outer after.client.cryptoModule.rsaSimpleCrypto.encryptor, frame)])
      (reads : 0 < news.countP Act.isRead) (keyed : Keyed lib before after key frame)
  | takesEcho (frame : Bytes) (stage : before.client.stage = .SetSymmetricKey)
      (next : after.client.stage = .TestKey)
      (frames : news.filterMap (Act.sealed after.client.cryptoModule) =
        [(.session before.client.cryptoModule.aesKey, frame)])
      (reads : 0 < news.countP Act.isRead) (found : before.inbound.headD [] ≠ [])
      (later : Later lib before.client.cryptoModule.aesKey frame)
  | settled (early : epoch before.client.stage = 2)
      (next : after.client.stage = before.client.stage ∨
        after.client.stage = .StableCommunication)
      (frames : ∀ entry ∈ news.filterMap (Act.sealed after.client.cryptoModule), ∃ frame,
        entry = (.session before.client.cryptoModule.aesKey, frame) ∧
          Later lib before.client.cryptoModule.aesKey frame)

section Hands

variable {lib : CryptoLibrary Key} {before after : Session Key} {news : List Act}

theorem Hands.of_same (acts : after.acts = before.acts) (client : after.client = before.client) :
    ∃ news, after.acts = before.acts ++ news ∧ Hands lib before after news :=
  ⟨[], by rw [acts, List.append_nil], .silent (congrArg _ client) rfl⟩

/-- A session that sends under AES alone, and nothing that starts a change of cipher. -/
theorem Hands.of_settled (seals : Seals lib before after) (acts : after.acts = before.acts ++ news)
    (early : epoch before.client.stage = 2)
    (next : after.client.stage = before.client.stage ∨
      after.client.stage = .StableCommunication)
    (sends : ∀ type algorithm payload frame, .sent type algorithm payload frame ∈ news →
      algorithm = .AES ∧ type ≠ .OPEN_ENCR ∧ type ≠ .SYMMETRIC_KEY) :
    Hands lib before after news := by
  obtain ⟨log, same, sealed⟩ := seals.sealed
  have whole : log = news := List.append_cancel_left (same.symm.trans acts)
  subst whole
  refine .settled early next ?_
  intro entry member
  obtain ⟨entry', inside, made⟩ := List.mem_filterMap.mp member
  cases entry' with
  | sent type algorithm payload frame =>
      obtain ⟨rfl, kinds⟩ := sends _ _ _ _ inside
      cases made
      refine ⟨frame, ?_, type, payload, sealed _ _ _ inside, kinds⟩
      rw [CryptoModule.sealing, seals.fixed.aesKey]
  | _ => cases made

theorem Ordinary.sends {id : Int16} {type : PacketType} {algorithm : Algorithm}
    {payload frame : Bytes} (ordinary : Ordinary id (.sent type algorithm payload frame)) :
    algorithm = .AES ∧ type ≠ .OPEN_ENCR ∧ type ≠ .SYMMETRIC_KEY := by
  cases ordinary with
  | input input => cases input
  | send plain =>
      refine ⟨rfl, ?_, ?_⟩ <;> rintro rfl <;> cases plain

theorem filterMap_inputs (module : CryptoModule Key) {log closing : List Act}
    (inputs : ∀ entry ∈ log, isInput entry) (ending : closing = [] ∨ closing = [.closed]) :
    (log ++ closing).filterMap (Act.sealed module) = [] := by
  apply List.filterMap_eq_nil_iff.mpr
  intro entry member
  rcases List.mem_append.mp member with here | there
  · have input := inputs entry here
    cases entry with
    | sent type algorithm payload frame => cases input
    | _ => rfl
  · rcases ending with rfl | rfl
    · cases there
    · rw [List.mem_singleton.mp there]
      rfl

theorem Communicated.hands (communicated : Communicated lib before after) :
    ∃ news, after.acts = before.acts ++ news ∧
      ∀ type algorithm payload frame, .sent type algorithm payload frame ∈ news →
        algorithm = .AES ∧ type ≠ .OPEN_ENCR ∧ type ≠ .SYMMETRIC_KEY := by
  obtain ⟨log, closing, acts, ordinary, ending, _⟩ := communicated.acts
  refine ⟨_, acts, ?_⟩
  intro type algorithm payload frame member
  rw [List.cons_append, List.mem_cons, List.mem_append] at member
  rcases member with read | here | there
  · cases read
  · exact (ordinary _ here).sends
  · rcases ending with rfl | rfl <;> simp at there

/-- What a message makes a session hand out. -/
theorem recv_hands (turn : Turn) (sound : Sound before.client) :
    ∃ news, (finalState (recv lib turn before)).acts = before.acts ++ news ∧
      Hands lib before (finalState (recv lib turn before)) news := by
  have seals : Seals lib before (finalState (recv lib turn before)) := recv_seals turn before
  have outcome := recv_outcome lib turn sound
  cases outcome with
  | idle acts client => exact Hands.of_same acts client
  | closes acts client =>
      exact ⟨[.closed], acts, .silent (congrArg _ client) rfl⟩
  | listens receives stage listened =>
      obtain ⟨log, closing, inputs, ending, acts, same⟩ := listened
      exact ⟨_, acts, .silent same.stage (filterMap_inputs _ inputs ending)⟩
  | takesPublicKey bytes key frame receives stage passed =>
      have ran : recv lib turn before = setPublicKey lib before := by
        simp only [recv, receives, receiveData, bind_run, get_run, stage]
      rw [ran] at passed ⊢
      rcases setPublicKey_outcome lib before with listened | ⟨key, frame, passed, keyed⟩
      · obtain ⟨_, _, _, _, _, same⟩ := listened
        cases (stage.symm.trans same.stage.symm).trans passed.stage
      · exact ⟨_, passed.acts, .takesKey key frame stage passed.stage rfl (by simp [Act.isRead])
          keyed⟩
  | takesSymmetricKey bytes frame receives stage passed =>
      have ready := sound.initialized (by rw [stage]; decide)
      have ran : recv lib turn before = setSymmetricKey lib before := by
        simp only [recv, receives, receiveData, bind_run, get_run, stage]
      rw [ran] at passed seals ⊢
      rcases setSymmetricKey_outcome lib before ready with listened | ⟨found, frame, passed⟩
      · obtain ⟨_, _, _, _, _, same⟩ := listened
        cases (stage.symm.trans same.stage.symm).trans passed.stage
      · obtain ⟨log, acts, sealed⟩ := seals.sealed
        have whole := List.append_cancel_left (acts.symm.trans passed.acts)
        have made := sealed .TEST_KEY before.client.cryptoModule.aesKey frame
          (by rw [whole]; simp)
        refine ⟨_, passed.acts, .takesEcho frame stage passed.stage ?_ (by simp [Act.isRead]) found
          ⟨.TEST_KEY, _, made, by decide, by decide⟩⟩
        rw [← passed.aesKey]
        rfl
  | refuses log middle receives stage inputs acts same next refused communicated =>
      obtain ⟨news, acts', sends⟩ := communicated.hands
      rw [acts, List.append_assoc] at acts'
      refine ⟨_, acts', .of_settled seals acts' (by rw [stage]; rfl)
        (.inl (communicated.steady.stage.trans same.stage)) ?_⟩
      intro type algorithm payload frame member
      rcases List.mem_append.mp member with here | there
      · rcases List.mem_append.mp here with input | closing
        · cases inputs _ input
        · simp at closing
      · exact sends _ _ _ _ there
  | registers payload frame publicKey queue middle receives stage tests passed communicated =>
      obtain ⟨news, acts', sends⟩ := communicated.hands
      rw [passed.acts, List.append_assoc] at acts'
      refine ⟨_, acts', .of_settled seals acts' (by rw [stage]; rfl)
        (.inr (communicated.steady.stage.trans passed.stage)) ?_⟩
      intro type algorithm payload frame member
      rcases List.mem_append.mp member with here | there
      · simp at here
        obtain ⟨rfl, rfl, _⟩ := here
        exact ⟨rfl, by decide, by decide⟩
      · exact sends _ _ _ _ there
  | communicates receives stage communicated =>
      obtain ⟨news, acts, sends⟩ := communicated.hands
      exact ⟨_, acts, .of_settled seals acts (by rw [stage]; rfl)
        (.inl communicated.steady.stage) sends⟩
  | forwards log stage message ordinary acts steady settled =>
      refine ⟨log, acts, .of_settled seals acts (by rw [stage]; rfl) (.inl steady.stage) ?_⟩
      intro type algorithm payload frame member
      exact (ordinary _ member).sends

end Hands

end ProtocolClient

end Locus
