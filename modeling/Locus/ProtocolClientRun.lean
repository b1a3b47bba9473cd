import Locus.ProtocolClientStable
import Locus.Transition

set_option autoImplicit false

/- What one step of a session can do. The laws about whole runs are case
analyses of this list. -/
namespace Locus.ProtocolClient

open Program Transition

variable {Key : Type}

/-- What holds of a session between messages. -/
structure Sound (client : ProtocolClient Key) : Prop where
  aes : client.stage = .StableCommunication → client.cryptoModule.algorithm = .AES
  initialized : client.stage ≠ .SetPublicKey →
    client.cryptoModule.rsaSimpleCrypto.publicKeyInitialized = true
  queued : client.stage ≠ .StableCommunication → client.remainingPackets = []
  plain : ∀ packet ∈ client.remainingPackets, isPlain packet.type

theorem Sound.settled {client : ProtocolClient Key} (sound : Sound client)
    (aes : client.cryptoModule.algorithm = .AES) : Settled client :=
  ⟨aes, sound.queued, sound.plain⟩

/-- The message finds nothing to do. -/
def Still (lib : CryptoLibrary Key) (client : ProtocolClient Key) :
    MessageType → Prop
  | .PacketReceive => client.stage = .Exit
  | .PacketSend => ¬ Sendable lib client
  | .Update => client.stage ≠ .StableCommunication
  | .Close => False
  | _ => True

/-- Everything a message can make a session do. -/
inductive Outcome (lib : CryptoLibrary Key) (turn : Turn) (before after : Session Key) : Prop
  | idle (acts : after.acts = before.acts) (client : after.client = before.client)
      (still : Still lib before.client turn.message)
  | closes (acts : after.acts = before.acts ++ [.closed]) (client : after.client = before.client)
      (message : turn.message = .Close)
  | listens (receives : turn.message = .PacketReceive)
      (stage : before.client.stage = .SetPublicKey ∨ before.client.stage = .SetSymmetricKey)
      (listened : Listened before after)
  | takesPublicKey (bytes key frame : Bytes) (receives : turn.message = .PacketReceive)
      (stage : before.client.stage = .SetPublicKey)
      (passed : Passed before after
        [.read bytes, .received .PUBLIC_KEY key, .accepted key,
          .sent .SYMMETRIC_KEY .OuterRSA before.client.cryptoModule.aesKey frame,
          .stage .SetSymmetricKey] .SetSymmetricKey)
      (head : bytes = before.inbound.headD []) (found : bytes ≠ [])
  | takesSymmetricKey (bytes frame : Bytes) (receives : turn.message = .PacketReceive)
      (stage : before.client.stage = .SetSymmetricKey)
      (passed : Passed before after
        [.read bytes, .received .SYMMETRIC_KEY before.client.cryptoModule.aesKey,
          .sent .TEST_KEY .AES before.client.cryptoModule.aesKey frame, .stage .TestKey] .TestKey)
      (head : bytes = before.inbound.headD []) (found : bytes ≠ [])
  | refuses (log : List Act) (middle : Session Key) (receives : turn.message = .PacketReceive)
      (stage : before.client.stage = .TestKey)
      (inputs : ∀ entry ∈ log, isInput entry)
      (acts : middle.acts = before.acts ++ (log ++ [.closed]))
      (same : Same before.client middle.client) (next : middle.inbound = before.inbound.tail)
      (refused : ∀ payload,
        ¬ Tests lib before.client.cryptoModule.aesKey (before.inbound.headD []) payload)
      (communicated : Communicated lib middle after)
      (reads : ∀ bytes, .read bytes ∈ log ↔ bytes = before.inbound.headD [])
  | registers (payload frame publicKey : Bytes) (queue : QueueRef) (middle : Session Key)
      (receives : turn.message = .PacketReceive) (stage : before.client.stage = .TestKey)
      (tests : Tests lib before.client.cryptoModule.aesKey (before.inbound.headD []) payload)
      (passed : Passed { before with client := { before.client with id := middle.client.id } }
        middle
        [.read (before.inbound.headD []), .received .TEST_KEY payload,
          .sent .OPEN_PROT .AES [] frame, .stage .StableCommunication,
          .called (.registerClient publicKey queue) (some (.id middle.client.id))]
        .StableCommunication)
      (communicated : Communicated lib middle after)
  | communicates (receives : turn.message = .PacketReceive)
      (stage : before.client.stage = .StableCommunication)
      (communicated : Communicated lib before after)
  | forwards (log : List Act) (stage : before.client.stage = .StableCommunication)
      (message : turn.message = .Update ∨
        turn.message = .PacketSend ∧ Sendable lib before.client)
      (ordinary : ∀ entry ∈ log, Ordinary before.client.id entry)
      (acts : after.acts = before.acts ++ log) (steady : Steady before.client after.client)
      (settled : Settled after.client) (active : ∃ entry ∈ log, ¬ isInput entry)

theorem receiveData_outcome (lib : CryptoLibrary Key) (turn : Turn) {s : Session Key}
    (sound : Sound s.client) (receives : turn.message = .PacketReceive) :
    Outcome lib turn s (finalState (receiveData lib turn s)) := by
  simp only [receiveData, bind_run, get_run]
  cases stage : s.client.stage with
  | SetPublicKey =>
      simp only
      rcases setPublicKey_outcome lib s with listened | ⟨key, frame, passed, keyed⟩
      · exact .listens receives (.inl stage) listened
      · refine .takesPublicKey _ key frame receives stage passed rfl ?_
        intro absent
        obtain ⟨header, module, decrypted⟩ := keyed.heard
        rw [absent] at decrypted
        cases CryptoModule.decrypt_server_nil rfl decrypted
  | SetSymmetricKey =>
      have ready := sound.initialized (by rw [stage]; decide)
      simp only
      rcases setSymmetricKey_outcome lib s ready with listened | ⟨found, frame, passed⟩
      · exact .listens receives (.inr stage) listened
      · exact .takesSymmetricKey _ frame receives stage passed rfl found
  | TestKey =>
      have ready := sound.initialized (by rw [stage]; decide)
      have empty := sound.queued (by rw [stage]; decide)
      obtain ⟨middle, ran, next, aes, refused | registered⟩ := testKey_outcome lib s ready
      · obtain ⟨log, inputs, acts, same, refused, reads⟩ := refused
        have settled : Settled middle.client := by
          refine ⟨aes, fun _ => same.remainingPackets.trans empty, ?_⟩
          simp [same.remainingPackets, empty]
        simp only [bind_run, ran]
        exact .refuses log middle receives stage inputs acts same next refused
          (stableCommunication_communicated lib turn settled) reads
      · obtain ⟨payload, frame, publicKey, queue, tests, passed⟩ := registered
        have remaining : middle.client.remainingPackets = [] :=
          passed.remainingPackets.trans empty
        have settled : Settled middle.client := by
          refine ⟨aes, fun _ => remaining, ?_⟩
          simp [remaining]
        simp only [bind_run, ran]
        exact .registers payload frame publicKey queue middle receives stage tests passed
          (stableCommunication_communicated lib turn settled)
  | StableCommunication =>
      simp only
      exact .communicates receives stage
        (stableCommunication_communicated lib turn (sound.settled (sound.aes stage)))
  | Exit =>
      refine .idle rfl rfl ?_
      rw [receives]
      exact stage

theorem recv_outcome (lib : CryptoLibrary Key) (turn : Turn) {s : Session Key}
    (sound : Sound s.client) : Outcome lib turn s (finalState (recv lib turn s)) := by
  unfold recv
  cases message : turn.message with
  | Close => exact .closes rfl rfl message
  | PacketReceive => exact receiveData_outcome lib turn sound message
  | PacketSend =>
      simp only
      by_cases stable : s.client.stage = .StableCommunication
      · have settled := sound.settled (sound.aes stable)
        by_cases sendable : Sendable lib s.client
        · obtain ⟨log, ordinary, acts, steady, settled'⟩ :=
            sendRemainingData_converses lib s settled
          refine .forwards log stable (.inr ⟨message, sendable⟩) ordinary acts steady settled' ?_
          obtain ⟨packet, rest, frame, _, sent⟩ := sendRemainingData_sends lib settled sendable
          rw [sent] at acts
          rw [← List.append_cancel_left acts]
          exact ⟨_, List.mem_singleton_self _, by simp [isInput]⟩
        · rw [sendRemainingData_unsendable lib settled sendable]
          refine .idle rfl rfl ?_
          rw [message]
          exact sendable
      · have empty := sound.queued stable
        rw [sendRemainingData_empty lib empty]
        refine .idle rfl rfl ?_
        rw [message]
        rintro ⟨packet, rest, frame, queue, _⟩
        cases empty.symm.trans queue
  | Update =>
      simp only
      by_cases stable : s.client.stage = .StableCommunication
      · obtain ⟨reply, log, ordinary, acts, steady, settled⟩ :=
          update_forwards lib turn stable (sound.settled (sound.aes stable))
        have call : Ordinary s.client.id (.called (.getNewNames s.client.id) reply) :=
          .call ⟨by simp [callerOf], by simp⟩
        exact .forwards _ stable (.inl message) (List.forall_mem_cons.mpr ⟨call, ordinary⟩) acts
          steady settled ⟨_, List.mem_cons_self, by simp [isInput]⟩
      · rw [update_elsewhere lib turn stable (sound.queued stable)]
        refine .idle rfl rfl ?_
        rw [message]
        exact stable
  | _ =>
      refine .idle rfl rfl ?_
      rw [message]
      trivial

theorem Sound.of_steady {before after : ProtocolClient Key} (sound : Sound before)
    (steady : Steady before after) (settled : Settled after) : Sound after := by
  refine ⟨fun _ => settled.aes, ?_, settled.queued, settled.plain⟩
  intro later
  exact steady.initialized (sound.initialized (steady.stage ▸ later))

theorem Sound.of_same {before after : ProtocolClient Key} (sound : Sound before)
    (elsewhere : before.stage ≠ .StableCommunication) (same : Same before after) :
    Sound after := by
  have empty := same.remainingPackets.trans (sound.queued elsewhere)
  refine ⟨?_, ?_, fun _ => empty, ?_⟩
  · intro stable
    exact absurd (same.stage.symm.trans stable) elsewhere
  · intro later
    exact same.initialized (sound.initialized (same.stage ▸ later))
  · simp [empty]

theorem Sound.of_passed {before after : Session Key} {log : List Act} {stage : Stage}
    (passed : Passed before after log stage) (elsewhere : stage ≠ .StableCommunication)
    (empty : before.client.remainingPackets = []) : Sound after.client := by
  have none_left := passed.remainingPackets.trans empty
  refine ⟨?_, fun _ => passed.initialized, fun _ => none_left, ?_⟩
  · intro stable
    exact absurd (passed.stage.symm.trans stable) elsewhere
  · simp [none_left]

theorem Outcome.sound {lib : CryptoLibrary Key} {turn : Turn} {before after : Session Key}
    (outcome : Outcome lib turn before after) (sound : Sound before.client) :
    Sound after.client := by
  cases outcome with
  | idle acts client | closes acts client => exact client ▸ sound
  | listens receives stage listened =>
      obtain ⟨_, _, _, _, _, same, _⟩ := listened
      refine sound.of_same ?_ same
      rcases stage with stage | stage <;> rw [stage] <;> decide
  | takesPublicKey bytes key frame receives stage passed =>
      exact .of_passed passed (by decide) (sound.queued (by rw [stage]; decide))
  | takesSymmetricKey bytes frame receives stage passed =>
      exact .of_passed passed (by decide) (sound.queued (by rw [stage]; decide))
  | refuses log middle receives stage inputs acts same next refused communicated =>
      have kept := sound.of_same (by rw [stage]; decide) same
      exact kept.of_steady communicated.steady communicated.settled
  | registers payload frame publicKey queue middle receives stage tests passed communicated =>
      refine ⟨fun _ => communicated.settled.aes, ?_, communicated.settled.queued,
        communicated.settled.plain⟩
      intro _
      exact communicated.steady.initialized passed.initialized
  | communicates receives stage communicated =>
      exact sound.of_steady communicated.steady communicated.settled
  | forwards log stage message ordinary acts steady settled =>
      exact sound.of_steady steady settled

/-- The session that serves a message. -/
def Life.session (life : Life Key) (turn : Turn) : Session Key :=
  { client := life.client
    inbound := turn.inbound
    database := turn.database
    acts := life.acts }

theorem ofResult_final (result : EStateM.Result Fault (Session Key) Unit) (ended : Status) :
    (Life.ofResult result ended).client = (finalState result).client ∧
      (Life.ofResult result ended).acts = (finalState result).acts := by
  cases result with
  | ok value after => exact ⟨rfl, rfl⟩
  | error fault after => cases fault <;> exact ⟨rfl, rfl⟩

theorem step_serve {lib : CryptoLibrary Key} {before after : Life Key} {turn : Turn}
    (sound : Sound before.client) (step : Step lib before (.serve turn) after) :
    ∃ final, Outcome lib turn (before.session turn) final ∧
      after.client = final.client ∧ after.acts = final.acts := by
  obtain ⟨_, rfl⟩ := step
  obtain ⟨client, acts⟩ := ofResult_final (recv lib turn (before.session turn)) .alive
  exact ⟨_, recv_outcome lib turn sound, client, acts⟩

theorem step_erase {lib : CryptoLibrary Key} {before after : Life Key} {database : Database}
    (step : Step lib before (.erase database) after) :
    after.client = before.client ∧
      (¬ before.client.id > 0 ∧ after.acts = before.acts ∨
      before.client.id > 0 ∧ ∃ reply,
        after.acts = before.acts ++ [.called (.unregister before.client.id) reply]) := by
  obtain ⟨_, rfl⟩ := step
  obtain ⟨client, acts⟩ := ofResult_final
    (destroy { client := before.client, database, acts := before.acts }) .erased
  unfold Event.apply erase
  rw [client, acts]
  by_cases registered : before.client.id > 0
  · simp only [destroy, bind_run, get_run, if_pos registered]
    cases ran : ClientDataManager.run (.unregister before.client.id) database with
    | ok reply left =>
        rw [manager_ok ran]
        exact ⟨rfl, .inr ⟨registered, some reply, rfl⟩⟩
    | error fault left =>
        rw [manager_error ran]
        exact ⟨rfl, .inr ⟨registered, none, rfl⟩⟩
  · simp only [destroy, bind_run, get_run, if_neg registered]
    exact ⟨rfl, .inl ⟨registered, rfl⟩⟩

/-- The rule for a law of the client and its log: one case for a message, one for
the call of the destructor. -/
theorem step_holds {lib : CryptoLibrary Key} {before after : Life Key} {event : Event}
    (holds : ProtocolClient Key → List Act → Prop) (sound : Sound before.client)
    (held : holds before.client before.acts)
    (serve : ∀ turn final, event = .serve turn → Outcome lib turn (before.session turn) final →
      holds final.client final.acts)
    (erase : ∀ database reply, event = .erase database → before.client.id > 0 →
      holds before.client (before.acts ++ [.called (.unregister before.client.id) reply]))
    (step : Step lib before event after) :
    Sound after.client ∧ holds after.client after.acts := by
  cases event with
  | serve turn =>
      obtain ⟨final, outcome, client, acts⟩ := step_serve sound step
      rw [client, acts]
      exact ⟨outcome.sound sound, serve turn final rfl outcome⟩
  | erase database =>
      obtain ⟨client, ⟨_, acts⟩ | ⟨registered, reply, acts⟩⟩ := step_erase step
      · rw [client, acts]
        exact ⟨sound, held⟩
      · rw [client, acts]
        exact ⟨sound, erase database reply rfl registered⟩

/-- Every run starts from a session that has sent one packet and holds no key of its peer. -/
theorem create_eq (lib : CryptoLibrary Key) (rsaServerCrypto : RSASimpleCrypto Key) (blank : Key)
    (aesKey : Bytes) (blockingQueue : QueueRef) :
    create lib rsaServerCrypto blank aesKey blockingQueue =
      { client := {
          cryptoModule := {
            rsaServerCrypto
            rsaSimpleCrypto := { publicKey := blank, encryptor := blank }
            aesKey }
          blockingQueue }
        acts := [.sent .OPEN_ENCR .None [] [PacketType.OPEN_ENCR.toUInt8]]
        status := .alive } := rfl

theorem create_sound (lib : CryptoLibrary Key) (rsaServerCrypto : RSASimpleCrypto Key)
    (blank : Key) (aesKey : Bytes) (blockingQueue : QueueRef) :
    Sound (create lib rsaServerCrypto blank aesKey blockingQueue).client := by
  rw [create_eq]
  exact ⟨by simp, by simp, fun _ => rfl, by simp⟩

/-- The session after some events. -/
def play (lib : CryptoLibrary Key) (life : Life Key) (events : List Event) : Life Key :=
  events.foldl (fun life event => event.apply lib life) life

/-- The session is served, and meets a condition, when each of the events comes. -/
def Meets (lib : CryptoLibrary Key) (ok : Life Key → Event → Prop) : Life Key → List Event → Prop
  | _, [] => True
  | life, event :: events =>
      (life.status = .alive ∧ ok life event) ∧ Meets lib ok (event.apply lib life) events

theorem run_of_meets {lib : CryptoLibrary Key} {ok : Life Key → Event → Prop} {life : Life Key}
    {events : List Event} (meets : Meets lib ok life events) :
    Run (Guarded ok (Step lib)) life events (play lib life events) := by
  induction events generalizing life with
  | nil => exact .nil
  | cons event events ih =>
      obtain ⟨⟨alive, holds⟩, rest⟩ := meets
      exact .cons ⟨holds, alive, rfl⟩ (ih rest)

theorem always_of_meets {lib : CryptoLibrary Key} {ok : Life Key → Event → Prop}
    {life : Life Key} {events : List Event} (meets : Meets lib ok life events) :
    Always (Step lib) life (fun before event _ => ok before event) events := by
  refine always_of_guarded ?_ (run_of_meets meets)
  intro before event first second step again
  exact step.2.trans again.2.symm

/-- The session is served when each of the events comes. -/
def lives (lib : CryptoLibrary Key) : Life Key → List Event → Bool
  | _, [] => true
  | life, event :: events => life.status = .alive && lives lib (event.apply lib life) events

theorem meets_of_lives {lib : CryptoLibrary Key} {life : Life Key} {events : List Event}
    (alive : lives lib life events) : Meets lib (fun _ _ => True) life events := by
  induction events generalizing life with
  | nil => trivial
  | cons event events ih =>
      rw [lives, Bool.and_eq_true, decide_eq_true_iff] at alive
      exact ⟨⟨alive.1, trivial⟩, ih alive.2⟩

theorem run_of_lives {lib : CryptoLibrary Key} {life : Life Key} {events : List Event}
    (alive : lives lib life events) : Run (Step lib) life events (play lib life events) :=
  (run_of_meets (meets_of_lives alive)).of_guarded

/-- A library that hides nothing: RSA works byte by byte, and AES puts the key in front. -/
def transparent : CryptoLibrary Unit where
  load := fun bytes key => if bytes = [] then (.error "BER decode error", key) else (.ok (), key)
  validate := fun _ _ => true
  save := fun _ => [5]
  fixedMaxPlaintextLength := fun _ => 1
  rsaEncrypt := fun _ _ text => .ok text
  rsaDecrypt := fun _ cipher => .ok cipher
  aesEncrypt := fun key text => .ok (key ++ text)
  aesDecrypt := fun key cipher =>
    if key.isPrefixOf cipher then .ok (cipher.drop key.length) else .error "invalid padding"
  patience := 1

/-- A new session of a server that uses this library. -/
def newcomer : Life Unit :=
  create transparent
    { publicKey := ()
      encryptor := ()
      maxPlainTextLength := 1
      fixedCipherTextLength := 1
      publicKeyInitialized := true
      privateKeyInitialized := true } () [7] 0

def receive (inbound : List Bytes) : Event := .serve { message := .PacketReceive, inbound }

/-- A handshake whose last frame is followed at once by a `SET_NAME`. -/
def greeting : List Event :=
  [receive [[9, 5]], receive [[10, 7]], receive [[7, 11, 7], [7, 17, 65]]]

/-- A peer that is refused, and whose next frame has already arrived. -/
def intruding : List Event :=
  [receive [[9, 5]], receive [[10, 7]], receive [[7, 4], [7, 18, 65]]]

theorem greeting_run :
    Run (Step transparent) newcomer greeting (play transparent newcomer greeting) :=
  run_of_lives (by decide +kernel)

end Locus.ProtocolClient
