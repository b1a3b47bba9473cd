import Locus.ProtocolClientRun

set_option autoImplicit false

/- The handshake of a peer that obeys it. The case of `TestKey` in `receiveData` has
no `break`, so the call that takes the last frame reads once more. -/
namespace Locus.ProtocolClient

open Program Transition

variable {Key : Type} {lib : CryptoLibrary Key}

/-- A session finds a packet in a frame that it decrypts under an algorithm, and has
its cipher module in some state then. -/
def Carries (lib : CryptoLibrary Key) (life : Life Key) (algorithm : Algorithm) (frame : Bytes)
    (type : PacketType) (payload : Bytes) (module : CryptoModule Key) : Prop :=
  ∃ bytes packet,
    CryptoModule.decrypt lib frame { life.client.cryptoModule with algorithm } =
      .ok bytes module ∧
    Packet.ofBytes bytes = .ok packet ∧ packet.type = type ∧ packet.buffer.bytes = payload

/-- The sessions of a peer that obeys the handshake, with the number of its frames that
have been handled. Other messages may be served while it waits, and it may send on once
its last frame has been answered. -/
inductive Obeys (lib : CryptoLibrary Key) (start : Life Key) : List Event → Nat → Life Key → Prop
  | start : Obeys lib start [] 0 start
  | wait {events : List Event} {handled : Nat} {before after : Life Key} {turn : Turn}
      (earlier : Obeys lib start events handled before)
      (message : turn.message ≠ .PacketReceive ∧ turn.message ≠ .Close)
      (step : Step lib before (.serve turn) after) :
      Obeys lib start (events ++ [.serve turn]) handled after
  | publicKey {events : List Event} {before after : Life Key} {turn : Turn} {frame key : Bytes}
      {heard accepting : CryptoModule Key} (earlier : Obeys lib start events 0 before)
      (message : turn.message = .PacketReceive) (inbound : turn.inbound = [frame])
      (carries : Carries lib before .ServerRSA frame .PUBLIC_KEY key heard)
      (accepts : CryptoModule.setOuterRSAKey lib key heard = .ok () accepting)
      (step : Step lib before (.serve turn) after) :
      Obeys lib start (events ++ [.serve turn]) 1 after
  | symmetricKey {events : List Event} {before after : Life Key} {turn : Turn} {frame : Bytes}
      {heard : CryptoModule Key} (earlier : Obeys lib start events 1 before)
      (message : turn.message = .PacketReceive) (inbound : turn.inbound = [frame])
      (carries : Carries lib before .ServerRSA frame .SYMMETRIC_KEY
        before.client.cryptoModule.aesKey heard)
      (step : Step lib before (.serve turn) after) :
      Obeys lib start (events ++ [.serve turn]) 2 after
  | testKey {events : List Event} {before after : Life Key} {turn : Turn} {frame : Bytes}
      {later : List Bytes} {heard : CryptoModule Key} (earlier : Obeys lib start events 2 before)
      (message : turn.message = .PacketReceive) (inbound : turn.inbound = frame :: later)
      (carries : Carries lib before .AES frame .TEST_KEY
        before.client.cryptoModule.aesKey heard)
      (step : Step lib before (.serve turn) after) :
      Obeys lib start (events ++ [.serve turn]) 3 after

/-- A read that found a frame. -/
def isFrame : Act → Bool
  | .read bytes => bytes ≠ []
  | _ => false

def framesRead (acts : List Act) : Nat := (acts.filter isFrame).length

/-- A call of `receiveData` consumes one frame. -/
def OneFrame (before : Life Key) (event : Event) (after : Life Key) : Prop :=
  ∀ turn, event = .serve turn → turn.message = .PacketReceive →
    framesRead after.acts = framesRead before.acts + 1

def sentType : Act → Option PacketType
  | .sent type _ _ _ => some type
  | _ => none

/-- What an obeyed handshake is meant to come to. -/
structure Completed (lib : CryptoLibrary Key) (start : Life Key) (events : List Event)
    (life : Life Key) : Prop where
  consumed : Always (Step lib) start OneFrame events
  replies : life.acts.filterMap sentType = [.OPEN_ENCR, .SYMMETRIC_KEY, .TEST_KEY, .OPEN_PROT]
  registered : ∃ publicKey queue,
    .called (.registerClient publicKey queue) (some (.id life.client.id)) ∈ life.acts
  stage : life.client.stage = .StableCommunication
  kept_open : .closed ∉ life.acts

theorem Obeys.run {start life : Life Key} {events : List Event} {handled : Nat}
    (obeys : Obeys lib start events handled life) : Run (Step lib) start events life := by
  induction obeys with
  | start => exact .nil
  | wait earlier message step ih => exact .snoc ih step
  | publicKey earlier message inbound carries accepts step ih => exact .snoc ih step
  | symmetricKey earlier message inbound carries step ih => exact .snoc ih step
  | testKey earlier message inbound carries step ih => exact .snoc ih step

/-- How many frames a session must take to come to a stage. -/
def rank : Stage → Nat
  | .SetPublicKey => 0
  | .SetSymmetricKey => 1
  | .TestKey => 2
  | .StableCommunication => 3
  | .Exit => 4

theorem framesRead_append (acts log : List Act) :
    framesRead (acts ++ log) = framesRead acts + framesRead log := by
  rw [framesRead, List.filter_append, List.length_append, framesRead, framesRead]

theorem framesRead_read {bytes : Bytes} (found : bytes ≠ []) (log : List Act) :
    framesRead (.read bytes :: log) = framesRead log + 1 := by
  have counted : isFrame (.read bytes) = true := decide_eq_true found
  rw [framesRead, List.filter_cons_of_pos counted, List.length_cons, framesRead]

/-- A log only grows. -/
theorem Outcome.grows {turn : Turn} {before after : Session Key}
    (outcome : Outcome lib turn before after) : ∃ log, after.acts = before.acts ++ log := by
  cases outcome with
  | idle acts client => exact ⟨[], by rw [acts, List.append_nil]⟩
  | closes acts client => exact ⟨_, acts⟩
  | listens receives stage listened =>
      obtain ⟨log, closing, _, _, acts, _, _⟩ := listened
      exact ⟨_, acts⟩
  | takesPublicKey bytes key frame receives stage passed => exact ⟨_, passed.acts⟩
  | takesSymmetricKey bytes frame receives stage passed => exact ⟨_, passed.acts⟩
  | refuses log middle receives stage inputs acts same next refused communicated =>
      obtain ⟨_, _, acts', _⟩ := communicated.acts
      rw [acts', acts, List.append_assoc]
      exact ⟨_, rfl⟩
  | registers payload frame publicKey queue middle receives stage tests passed communicated =>
      obtain ⟨_, _, acts', _⟩ := communicated.acts
      rw [acts', passed.acts, List.append_assoc]
      exact ⟨_, rfl⟩
  | communicates receives stage communicated =>
      obtain ⟨_, _, acts, _⟩ := communicated.acts
      exact ⟨_, acts⟩
  | forwards log stage message ordinary acts steady settled => exact ⟨log, acts⟩

/-- A message takes a session at most one stage further, and only with a frame. -/
theorem Outcome.rank_le {turn : Turn} {before after : Session Key}
    (outcome : Outcome lib turn before after) :
    rank after.client.stage ≤ rank before.client.stage + 1 ∧
      (turn.message ≠ .PacketReceive → after.client.stage = before.client.stage) := by
  cases outcome with
  | idle acts client | closes acts client => exact ⟨by rw [client]; omega, fun _ => by rw [client]⟩
  | listens receives stage listened =>
      obtain ⟨_, _, _, _, _, same, _⟩ := listened
      exact ⟨by rw [same.stage]; omega, fun _ => same.stage⟩
  | takesPublicKey bytes key frame receives stage passed =>
      exact ⟨by rw [passed.stage, stage]; decide, fun other => absurd receives other⟩
  | takesSymmetricKey bytes frame receives stage passed =>
      exact ⟨by rw [passed.stage, stage]; decide, fun other => absurd receives other⟩
  | refuses log middle receives stage inputs acts same next refused communicated =>
      have stage_eq := communicated.steady.stage.trans same.stage
      exact ⟨by rw [stage_eq]; omega, fun _ => stage_eq⟩
  | registers payload frame publicKey queue middle receives stage tests passed communicated =>
      have stage_eq := communicated.steady.stage.trans passed.stage
      exact ⟨by rw [stage_eq, stage]; decide, fun other => absurd receives other⟩
  | communicates receives stage communicated =>
      have stage_eq := communicated.steady.stage
      exact ⟨by rw [stage_eq]; omega, fun _ => stage_eq⟩
  | forwards log stage message ordinary acts steady settled =>
      exact ⟨by rw [steady.stage]; omega, fun _ => steady.stage⟩

theorem aesPacket_empty {aesKey : Bytes}
    (empty : ∀ key plain, lib.aesDecrypt key [] = .ok plain → plain = []) :
    ∃ fault, aesPacket lib aesKey [] = .error fault := by
  unfold aesPacket
  cases plain : lib.aesDecrypt aesKey [] with
  | error what => exact ⟨_, rfl⟩
  | ok bytes =>
      rw [empty aesKey bytes plain]
      exact ⟨_, Packet.ofBytes_nil⟩

/-- The call that registers a client takes the frame of the handshake, and then it takes
another one or closes the connection. -/
theorem Outcome.reads_on {life : Life Key} {turn : Turn} {final : Session Key}
    (outcome : Outcome lib turn (life.session turn) final)
    (empty : ∀ key plain, lib.aesDecrypt key [] = .ok plain → plain = [])
    (early : rank life.client.stage ≤ 2) (stable : final.client.stage = .StableCommunication)
    (one : framesRead final.acts = framesRead life.acts + 1) : .closed ∈ final.acts := by
  have moved : final.client.stage ≠ life.client.stage := by
    intro same
    rw [← same, stable] at early
    exact absurd early (by decide)
  cases outcome with
  | idle acts client | closes acts client =>
      exact absurd (congrArg ProtocolClient.stage client) moved
  | listens receives stage listened =>
      obtain ⟨_, _, _, _, _, same, _⟩ := listened
      exact absurd same.stage moved
  | takesPublicKey bytes key frame receives stage passed =>
      cases passed.stage.symm.trans stable
  | takesSymmetricKey bytes frame receives stage passed =>
      cases passed.stage.symm.trans stable
  | refuses log middle receives stage inputs acts same next refused communicated =>
      exact absurd (communicated.steady.stage.trans same.stage) moved
  | registers payload frame publicKey queue middle receives stage tests passed communicated =>
      have key_eq : middle.client.cryptoModule.aesKey = life.client.cryptoModule.aesKey :=
        passed.aesKey
      obtain ⟨fault, unreadable⟩ : ∃ fault,
          aesPacket lib life.client.cryptoModule.aesKey [] = .error fault := aesPacket_empty empty
      have first : (life.session turn).inbound.headD [] ≠ [] := by
        intro absent
        obtain ⟨⟨packet, found, _⟩, _⟩ := tests
        rw [absent] at found
        cases unreadable.symm.trans found
      by_cases second : middle.inbound.headD [] = []
      · rw [communicated.unreadable fault (by rw [second, key_eq, unreadable])]
        simp
      · obtain ⟨log, closing, acts, _⟩ := communicated.acts
        have first_counts : framesRead middle.acts ≥ framesRead life.acts + 1 := by
          rw [passed.acts, framesRead_append, framesRead_read first]
          exact Nat.add_le_add_left (Nat.le_add_left 1 _) _
        have second_counts : framesRead final.acts ≥ framesRead middle.acts + 1 := by
          rw [acts, framesRead_append, List.cons_append, framesRead_read second]
          omega
        omega
  | communicates receives stage communicated =>
      exact absurd communicated.steady.stage moved
  | forwards log stage message ordinary acts steady settled => exact absurd steady.stage moved

/-- Where a peer that obeys can have come to: it is not in stable communication, or its
connection is closed, or some call took more than its frame. -/
structure Stalled (lib : CryptoLibrary Key) (start : Life Key) (events : List Event)
    (handled : Nat) (life : Life Key) : Prop where
  sound : Sound life.client
  reached : rank life.client.stage ≤ handled
  stalled : life.client.stage = .StableCommunication → .closed ∉ life.acts →
    ¬ Always (Step lib) start OneFrame events

section Stalled

variable {start before after : Life Key} {events : List Event} {turn : Turn} {handled : Nat}

theorem Stalled.wait (stalled : Stalled lib start events handled before)
    (message : turn.message ≠ .PacketReceive) (step : Step lib before (.serve turn) after) :
    Stalled lib start (events ++ [.serve turn]) handled after := by
  obtain ⟨final, outcome, client, acts⟩ := step_serve stalled.sound step
  have stage_eq : final.client.stage = before.client.stage := outcome.rank_le.2 message
  obtain ⟨log, grown⟩ := outcome.grows
  refine ⟨client ▸ outcome.sound stalled.sound, ?_, ?_⟩
  · rw [client, stage_eq]
    exact stalled.reached
  · intro stable is_open always
    rw [client, stage_eq] at stable
    rw [acts, grown] at is_open
    have was_open : .closed ∉ before.acts := fun closed =>
      is_open (List.mem_append_left _ closed)
    exact stalled.stalled stable was_open (always_snoc.mp always).1

/-- The first two frames cannot bring a session to stable communication. -/
theorem Stalled.advance (stalled : Stalled lib start events handled before)
    (early : handled < 2) (step : Step lib before (.serve turn) after) :
    Stalled lib start (events ++ [.serve turn]) (handled + 1) after := by
  obtain ⟨final, outcome, client, acts⟩ := step_serve stalled.sound step
  have further : rank after.client.stage ≤ handled + 1 := by
    have next : rank final.client.stage ≤ rank before.client.stage + 1 := outcome.rank_le.1
    have reached := stalled.reached
    rw [client]
    omega
  refine ⟨client ▸ outcome.sound stalled.sound, further, ?_⟩
  intro stable
  rw [stable, rank] at further
  omega

theorem Stalled.last (empty : ∀ key plain, lib.aesDecrypt key [] = .ok plain → plain = [])
    (stalled : Stalled lib start events 2 before) (run : Run (Step lib) start events before)
    (receives : turn.message = .PacketReceive) (step : Step lib before (.serve turn) after) :
    Stalled lib start (events ++ [.serve turn]) 3 after := by
  obtain ⟨final, outcome, client, acts⟩ := step_serve stalled.sound step
  refine ⟨client ▸ outcome.sound stalled.sound, ?_, ?_⟩
  · have next : rank final.client.stage ≤ rank before.client.stage + 1 := outcome.rank_le.1
    have reached := stalled.reached
    rw [client]
    omega
  · intro stable is_open always
    have one := (always_snoc.mp always).2 before after run step turn rfl receives
    rw [client] at stable
    rw [acts] at one is_open
    exact is_open (outcome.reads_on empty stalled.reached stable one)

/-- Every session of a peer that obeys is stalled, from a session that is new. -/
theorem Obeys.stalled (empty : ∀ key plain, lib.aesDecrypt key [] = .ok plain → plain = [])
    (sound : Sound start.client) (fresh : start.client.stage = .SetPublicKey)
    (obeys : Obeys lib start events handled after) : Stalled lib start events handled after := by
  induction obeys with
  | start =>
      refine ⟨sound, by rw [fresh]; decide, ?_⟩
      intro stable
      rw [fresh] at stable
      cases stable
  | wait earlier message step ih => exact ih.wait message.1 step
  | publicKey earlier message inbound carries accepts step ih =>
      exact ih.advance (by omega) step
  | symmetricKey earlier message inbound carries step ih => exact ih.advance (by omega) step
  | testKey earlier message inbound carries step ih =>
      exact ih.last empty earlier.run message step

end Stalled

/-- No handshake comes to what it is meant to come to, however well the peer obeys. -/
theorem handshake_never_completes {rsaServerCrypto : RSASimpleCrypto Key} {blank : Key}
    {aesKey : Bytes} {blockingQueue : QueueRef} {events : List Event} {life : Life Key}
    (empty : ∀ key plain, lib.aesDecrypt key [] = .ok plain → plain = [])
    (obeys : Obeys lib (create lib rsaServerCrypto blank aesKey blockingQueue) events 3 life) :
    ¬ Completed lib (create lib rsaServerCrypto blank aesKey blockingQueue) events life := by
  intro completed
  have stalled := obeys.stalled empty (create_sound ..) rfl
  exact stalled.stalled completed.stage completed.kept_open completed.consumed

theorem transparent_empty (key plain : Bytes)
    (decrypted : transparent.aesDecrypt key [] = .ok plain) : plain = [] := by
  simp only [transparent, List.drop_nil] at decrypted
  split at decrypted
  · cases decrypted
    rfl
  · cases decrypted

theorem blocks_transparent {rsa : RSASimpleCrypto Unit}
    (loaded : rsa.privateKeyInitialized = true) (bytewise : rsa.fixedCipherTextLength = 1)
    (turns : Nat) :
    ∀ (bytes : Bytes) (module : CryptoModule Unit), bytes.length ≤ turns →
      ∃ after, CryptoModule.blocks (CryptoModule.decryptBlock transparent rsa) 1 turns bytes
        module = .ok bytes after := by
  induction turns with
  | zero =>
      intro bytes module short
      rw [List.length_eq_zero_iff.mp (Nat.le_zero.mp short)]
      exact ⟨module, rfl⟩
  | succ turns ih =>
      intro bytes module short
      cases bytes with
      | nil => exact ⟨module, rfl⟩
      | cons byte rest =>
          obtain ⟨after, others⟩ := ih rest { module with draws := module.draws + 1 }
            (Nat.le_of_succ_le_succ short)
          have block : CryptoModule.decryptBlock transparent rsa [byte] module =
              .ok [byte] { module with draws := module.draws + 1 } := by
            simp only [CryptoModule.decryptBlock, loaded, bytewise]
            rfl
          refine ⟨after, ?_⟩
          simp only [CryptoModule.blocks, List.take_succ_cons, List.take_zero, bind_run, block,
            List.drop_succ_cons, List.drop_zero, others, pure_run, List.singleton_append]

/-- A live session of this library, with the server key and the symmetric key of a newcomer. -/
def Readable (life : Life Unit) : Prop :=
  life.status = .alive ∧
    life.client.cryptoModule.rsaServerCrypto.privateKeyInitialized = true ∧
    life.client.cryptoModule.rsaServerCrypto.fixedCipherTextLength = 1 ∧
    life.client.cryptoModule.aesKey = [7]

instance (life : Life Unit) : Decidable (Readable life) :=
  inferInstanceAs (Decidable (_ ∧ _ ∧ _ ∧ _))

theorem Readable.carries_server {life : Life Unit} (readable : Readable life)
    (type : PacketType) (payload : Bytes) : ∃ heard,
      Carries transparent life .ServerRSA (type.toUInt8 :: payload) type payload heard := by
  obtain ⟨_, loaded, bytewise, _⟩ := readable
  obtain ⟨after, decrypted⟩ := blocks_transparent loaded bytewise
    ((type.toUInt8 :: payload).length + transparent.patience) (type.toUInt8 :: payload)
    { life.client.cryptoModule with algorithm := .ServerRSA } (Nat.le_add_right _ _)
  obtain ⟨packet, parsed, type_eq, payload_eq⟩ := Packet.ofBytes_cons type.toUInt8 payload
  refine ⟨after, type.toUInt8 :: payload, packet, ?_, parsed, ?_, payload_eq⟩
  · simp only [CryptoModule.decrypt, bind_run, get_run, CryptoModule.decryptRSA, bytewise]
    exact decrypted
  · rw [type_eq, PacketType.toPacketType_toUInt8]

theorem Readable.carries_symmetric {life : Life Unit} (readable : Readable life)
    (type : PacketType) (payload : Bytes) : ∃ heard,
      Carries transparent life .AES (7 :: type.toUInt8 :: payload) type payload heard := by
  obtain ⟨_, _, _, key⟩ := readable
  obtain ⟨packet, parsed, type_eq, payload_eq⟩ := Packet.ofBytes_cons type.toUInt8 payload
  refine ⟨{ life.client.cryptoModule with algorithm := .AES }, type.toUInt8 :: payload, packet,
    ?_, parsed, ?_, payload_eq⟩
  · rw [CryptoModule.decrypt_aes transparent _ rfl]
    simp only [key]
    rfl
  · rw [type_eq, PacketType.toPacketType_toUInt8]

/-- A peer that obeys and waits for the answers. -/
def obedient : List Event := [receive [[9, 5]], receive [[10, 7]], receive [[7, 11, 7]]]

/-- The peer that obeys is registered, and its connection is closed by the same call. -/
theorem obedient_obeys : ∃ life, Obeys transparent newcomer obedient 3 life ∧
    life.client.stage = .StableCommunication ∧ .closed ∈ life.acts := by
  obtain ⟨keyed, keyed_eq⟩ : ∃ keyed, keyed = (receive [[9, 5]]).apply transparent newcomer :=
    ⟨_, rfl⟩
  obtain ⟨tested, tested_eq⟩ : ∃ tested, tested = (receive [[10, 7]]).apply transparent keyed :=
    ⟨_, rfl⟩
  obtain ⟨life, life_eq⟩ : ∃ life, life = (receive [[7, 11, 7]]).apply transparent tested :=
    ⟨_, rfl⟩
  have fresh : Readable newcomer := by decide +kernel
  have keyed_readable : Readable keyed := by
    rw [keyed_eq]
    decide +kernel
  have tested_readable : Readable tested := by
    rw [tested_eq, keyed_eq]
    decide +kernel
  obtain ⟨heard, carries⟩ := fresh.carries_server .PUBLIC_KEY [5]
  obtain ⟨accepting, accepts⟩ : ∃ accepting,
      CryptoModule.setOuterRSAKey transparent [5] heard = .ok () accepting := ⟨_, rfl⟩
  obtain ⟨heard', carries'⟩ := keyed_readable.carries_server .SYMMETRIC_KEY [7]
  obtain ⟨heard'', carries''⟩ := tested_readable.carries_symmetric .TEST_KEY [7]
  have first : Obeys transparent newcomer ([] ++ [receive [[9, 5]]]) 1 keyed :=
    .publicKey .start rfl rfl carries accepts ⟨fresh.1, keyed_eq⟩
  have answered : Carries transparent keyed .ServerRSA [10, 7] .SYMMETRIC_KEY
      keyed.client.cryptoModule.aesKey heard' := by
    rw [keyed_readable.2.2.2]
    exact carries'
  have second : Obeys transparent newcomer ([] ++ [receive [[9, 5]]] ++ [receive [[10, 7]]]) 2
      tested :=
    .symmetricKey first rfl rfl answered ⟨keyed_readable.1, tested_eq⟩
  have echoed : Carries transparent tested .AES [7, 11, 7] .TEST_KEY
      tested.client.cryptoModule.aesKey heard'' := by
    rw [tested_readable.2.2.2]
    exact carries''
  have third : Obeys transparent newcomer
      ([] ++ [receive [[9, 5]]] ++ [receive [[10, 7]]] ++ [receive [[7, 11, 7]]]) 3 life :=
    .testKey second rfl rfl echoed ⟨tested_readable.1, life_eq⟩
  refine ⟨life, third, ?_⟩
  rw [life_eq, tested_eq, keyed_eq]
  decide +kernel

theorem handshake_never_completes_obedient : ∃ life, Obeys transparent newcomer obedient 3 life ∧
    ¬ Completed transparent newcomer obedient life := by
  obtain ⟨life, obeys, _⟩ := obedient_obeys
  exact ⟨life, obeys, handshake_never_completes transparent_empty obeys⟩

theorem obedient_is_closed : ∃ life, Obeys transparent newcomer obedient 3 life ∧
    .closed ∈ life.acts ∧ ¬ Completed transparent newcomer obedient life := by
  obtain ⟨life, obeys, _, closed⟩ := obedient_obeys
  exact ⟨life, obeys, closed, fun completed => completed.kept_open closed⟩

end Locus.ProtocolClient
