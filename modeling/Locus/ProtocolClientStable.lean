import Locus.ProtocolClientStep

set_option autoImplicit false

/- What a session does once it uses AES: the packets it takes in stable
communication, and the news it sends on. -/
namespace Locus.ProtocolClient

open Program

variable {Key : Type}

/-- The id that a call passes for the session that makes it. -/
def callerOf : ClientDataManager.Op → Option Int16
  | .registerClient _ _ | .getNameId _ => none
  | .unregister id | .getNewPositions id | .getNewNames id => some id
  | .addFollower myId _ | .removeFollower myId _ | .stopFollowing myId _ => some myId
  | .addPosition myId _ _ _ | .setName myId _ => some myId

/-- A call that registers nobody and speaks for nobody but `id`. -/
structure SpeaksFor (id : Int16) (op : ClientDataManager.Op) : Prop where
  own : ∀ other, callerOf op = some other → other = id
  registered : ∀ publicKey queue, op ≠ .registerClient publicKey queue

/-- The types that a session sends after the handshake. -/
def isPlain : PacketType → Bool
  | .ACK_OK | .ACK_ERR | .NEW_FOLLOWED | .LOCATION => true
  | _ => false

/-- What a session does after the handshake: it takes packets in, calls the manager
for its own id, and sends answers and news. -/
inductive Ordinary (id : Int16) : Act → Prop
  | input {entry : Act} (input : isInput entry) : Ordinary id entry
  | send {type : PacketType} {payload frame : Bytes} (plain : isPlain type) :
      Ordinary id (.sent type .AES payload frame)
  | call {op : ClientDataManager.Op} {reply : Option ClientDataManager.Reply}
      (speaks : SpeaksFor id op) : Ordinary id (.called op reply)

/-- What a session brings along into stable communication and keeps there. -/
structure Settled (client : ProtocolClient Key) : Prop where
  aes : client.cryptoModule.algorithm = .AES
  queued : client.stage ≠ .StableCommunication → client.remainingPackets = []
  plain : ∀ packet ∈ client.remainingPackets, isPlain packet.type

/-- What no act after the handshake changes. -/
structure Steady (before after : ProtocolClient Key) : Prop where
  stage : after.stage = before.stage
  id : after.id = before.id
  aesKey : after.cryptoModule.aesKey = before.cryptoModule.aesKey
  initialized : before.cryptoModule.rsaSimpleCrypto.publicKeyInitialized = true →
    after.cryptoModule.rsaSimpleCrypto.publicKeyInitialized = true

theorem Steady.refl (client : ProtocolClient Key) : Steady client client :=
  ⟨rfl, rfl, rfl, fun ready => ready⟩

theorem Steady.trans {first second third : ProtocolClient Key} (left : Steady first second)
    (right : Steady second third) : Steady first third :=
  ⟨right.stage.trans left.stage, right.id.trans left.id, right.aesKey.trans left.aesKey,
    right.initialized ∘ left.initialized⟩

/-- Between two states of a settled session there are only ordinary acts. -/
def Converses (before after : Session Key) : Prop :=
  Settled before.client →
    ∃ log, (∀ entry ∈ log, Ordinary before.client.id entry) ∧
      after.acts = before.acts ++ log ∧ Steady before.client after.client ∧
      Settled after.client

theorem Converses.refl (s : Session Key) : Converses s s := by
  intro settled
  exact ⟨[], by simp, by simp, .refl _, settled⟩

theorem Converses.trans {first second third : Session Key} (left : Converses first second)
    (right : Converses second third) : Converses first third := by
  intro settled
  obtain ⟨log, ordinary, acts, steady, settled'⟩ := left settled
  obtain ⟨log', ordinary', acts', steady', settled''⟩ := right settled'
  refine ⟨log ++ log', ?_, ?_, steady.trans steady', settled''⟩
  · intro entry member
    rcases List.mem_append.mp member with here | there
    · exact ordinary entry here
    · have later := ordinary' entry there
      rw [steady.id] at later
      exact later
  · rw [acts', acts, List.append_assoc]

/-- A session that logs one ordinary act. -/
theorem converses_logged {s after : Session Key} {entry : Act}
    (ordinary : Ordinary s.client.id entry) (acts : after.acts = s.acts ++ [entry])
    (steady : Steady s.client after.client)
    (settled : Settled s.client → Settled after.client) : Converses s after := by
  intro now
  refine ⟨[entry], ?_, acts, steady, settled now⟩
  intro other member
  rw [List.mem_singleton.mp member]
  exact ordinary

theorem Settled.of_kept {s : Session Key} {m : CryptoModule Key} (settled : Settled s.client)
    (kept : CryptoModule.Kept s.client.cryptoModule m) : Settled (withModule s m).client :=
  ⟨kept.algorithm.trans settled.aes, settled.queued, settled.plain⟩

theorem Steady.of_kept {s : Session Key} {m : CryptoModule Key}
    (kept : CryptoModule.Kept s.client.cryptoModule m) : Steady s.client (withModule s m).client :=
  ⟨rfl, rfl, kept.aesKey, kept.initialized⟩

theorem manager_converses {s : Session Key} {op : ClientDataManager.Op}
    (speaks : SpeaksFor s.client.id op) : KeepsAt Converses s (manager op) := by
  unfold KeepsAt
  cases ran : ClientDataManager.run op s.database with
  | ok reply database =>
      rw [manager_ok ran]
      exact converses_logged (.call speaks) rfl (.refl _) fun settled => settled
  | error fault database =>
      rw [manager_error ran]
      exact converses_logged (.call speaks) rfl (.refl _) fun settled => settled

theorem sendPacket_converses (lib : CryptoLibrary Key) {packet : Packet}
    (plain : isPlain packet.type) : Keeps Converses (sendPacket lib packet) := by
  intro s settled
  obtain ⟨m, drawn, ⟨fault, failed⟩ | ⟨frame, _, sent⟩⟩ := sendPacket_spec lib packet s
  · have kept := drawn.kept
    rw [failed]
    exact ⟨[], by simp, by simp [finalState, withModule], .of_kept kept, settled.of_kept kept⟩
  · have kept := drawn.kept
    rw [sent, settled.aes]
    exact converses_logged (.send plain) rfl (.of_kept kept)
      (fun settled => settled.of_kept kept) settled

theorem setName_converses (lib : CryptoLibrary Key) (packet : Packet) :
    Keeps Converses (setName lib packet) := by
  refine .bind .trans (.ofExcept .refl _) fun popped => ?_
  refine .get_bind fun s => ?_
  refine .bind .trans (manager_converses ⟨by simp [callerOf], by simp⟩) fun res => ?_
  split
  · exact sendPacket_converses lib rfl
  · exact sendPacket_converses lib rfl

theorem callNamed_converses {call : Int16 → Int16 → ClientDataManager.Op}
    (speaks : ∀ id other, SpeaksFor id (call id other)) (packet : Packet) :
    Keeps Converses (callNamed call packet : SessionM Key Unit) := by
  refine .bind .trans (.ofExcept .refl _) fun popped => ?_
  refine .bind .trans ?_ fun reply => ?_
  · intro s
    exact manager_converses ⟨by simp [callerOf], by simp⟩
  · by_cases known : reply.toId > 0
    · simp only [if_pos known]
      refine .get_bind fun s => ?_
      exact .bind .trans (manager_converses (speaks _ _)) fun _ => .pure .refl _
    · simp only [if_neg known]
      exact .pure .refl _

theorem myLocation_converses (turn : Turn) {packet : Packet} (whole : packet.buffer.size = 16) :
    Keeps Converses (myLocation turn packet : SessionM Key Unit) := by
  unfold myLocation
  rw [if_neg (not_not_intro whole)]
  refine .bind .trans (.ofExcept .refl _) fun _ => ?_
  refine .bind .trans (.ofExcept .refl _) fun _ => ?_
  refine .bind .trans (.ofExcept .refl _) fun _ => ?_
  refine .get_bind fun s => ?_
  exact .bind .trans (manager_converses ⟨by simp [callerOf], by simp⟩) fun _ => .pure .refl _

/-- The packets for which `stableCommunication` calls the manager. -/
def CallsManager (packet : Packet) : Prop :=
  packet.type = .SET_NAME ∨ packet.type = .ADD_FOLLOWER ∨ packet.type = .REMOVE_FOLLOWER ∨
    packet.type = .REMOVE_FOLLOWED ∨ packet.type = .MY_LOCATION ∧ packet.buffer.size = 16

/-- A turn of stable communication: one frame read, ordinary acts, and then perhaps
the end of the connection. The manager is called only for a packet that asks for it,
and a frame without a packet ends the connection. -/
structure Communicated (lib : CryptoLibrary Key) (before after : Session Key) : Prop where
  intro ::
  acts : ∃ log closing, after.acts = before.acts ++
      (.read (before.inbound.headD []) :: log ++ closing) ∧
    (∀ entry ∈ log, Ordinary before.client.id entry) ∧ (closing = [] ∨ closing = [.closed]) ∧
    ∀ op reply, .called op reply ∈ log →
      ∃ packet, aesPacket lib before.client.cryptoModule.aesKey (before.inbound.headD []) =
        .ok packet ∧ CallsManager packet
  unreadable : ∀ fault,
    aesPacket lib before.client.cryptoModule.aesKey (before.inbound.headD []) = .error fault →
    after.acts = before.acts ++ [.read (before.inbound.headD []), .closed]
  steady : Steady before.client after.client
  settled : Settled after.client

theorem communicated_of_converses {lib : CryptoLibrary Key} {s : Session Key} {packet : Packet}
    {result : EStateM.Result Fault (Session Key) Unit} (settled : Settled s.client)
    (found : aesPacket lib s.client.cryptoModule.aesKey (s.inbound.headD []) = .ok packet)
    (calls : CallsManager packet)
    (converses : Converses
      (logged (taken s) [.received packet.type packet.buffer.bytes]) (finalState result)) :
    Communicated lib s (finalState (settle closeConnection result)) := by
  obtain ⟨log, ordinary, acts, steady, settled'⟩ := converses settled
  have whole : ∀ closing, (finalState result).acts ++ closing = s.acts ++
      (.read (s.inbound.headD []) ::
        (.received packet.type packet.buffer.bytes :: log) ++ closing) := by
    intro closing
    rw [acts]
    simp [logged, taken]
  have inputs : ∀ entry ∈ (.received packet.type packet.buffer.bytes :: log : List Act),
      Ordinary s.client.id entry := by
    intro entry member
    rcases List.mem_cons.mp member with rfl | later
    · exact .input rfl
    · exact ordinary entry later
  have asked : ∀ op reply,
      .called op reply ∈ (.received packet.type packet.buffer.bytes :: log : List Act) →
      ∃ packet, aesPacket lib s.client.cryptoModule.aesKey (s.inbound.headD []) = .ok packet ∧
        CallsManager packet := fun _ _ _ => ⟨packet, found, calls⟩
  have readable : ∀ fault,
      aesPacket lib s.client.cryptoModule.aesKey (s.inbound.headD []) = .error fault →
      (finalState (settle closeConnection result)).acts =
        s.acts ++ [.read (s.inbound.headD []), .closed] := by
    intro fault failed
    rw [found] at failed
    cases failed
  have plain := whole []
  rw [List.append_nil] at plain
  cases result with
  | ok value after =>
      exact ⟨⟨_, [], plain, inputs, .inl rfl, asked⟩, readable, steady, settled'⟩
  | error fault after =>
      cases fault with
      | exception what =>
          exact ⟨⟨_, [.closed], whole _, inputs, .inr rfl, asked⟩, readable, steady, settled'⟩
      | undefinedBehaviour | nonTermination =>
          exact ⟨⟨_, [], plain, inputs, .inl rfl, asked⟩, readable, steady, settled'⟩

/-- A frame that asks the manager for nothing. -/
theorem communicated_of_silent {lib : CryptoLibrary Key} {s after : Session Key}
    (settled : Settled s.client) (entries closing : List Act)
    (inputs : ∀ entry ∈ entries, isInput entry)
    (ending : closing = [] ∨ closing = [.closed])
    (acts : after.acts = s.acts ++ (.read (s.inbound.headD []) :: entries ++ closing))
    (unreadable : ∀ fault,
      aesPacket lib s.client.cryptoModule.aesKey (s.inbound.headD []) = .error fault →
      after.acts = s.acts ++ [.read (s.inbound.headD []), .closed])
    (client : after.client = s.client) : Communicated lib s after := by
  refine ⟨⟨entries, closing, acts, ?_, ending, ?_⟩, unreadable, ?_, ?_⟩
  · intro entry member
    exact .input (inputs entry member)
  · intro op reply member
    have impossible := inputs _ member
    cases impossible
  · rw [client]
    exact .refl _
  · rw [client]
    exact settled

theorem stableCommunication_communicated (lib : CryptoLibrary Key) (turn : Turn)
    {s : Session Key} (settled : Settled s.client) :
    Communicated lib s (finalState (stableCommunication lib turn s)) := by
  unfold stableCommunication catching
  simp only [bind_run]
  cases found : aesPacket lib s.client.cryptoModule.aesKey (s.inbound.headD []) with
  | error fault =>
      obtain ⟨what, rfl⟩ := aesPacket_error found
      rw [recvPacket_aes_error settled.aes found]
      exact communicated_of_silent settled [] [.closed] (by simp) (.inr rfl)
        (by simp [settle, closeConnection_run, finalState, logged, taken])
        (by simp [settle, closeConnection_run, finalState, logged, taken]) rfl
  | ok packet =>
      rw [recvPacket_aes_ok settled.aes found]
      generalize heard_eq : logged (taken s) [.received packet.type packet.buffer.bytes] = heard
      have silent : ∀ closing, closing = [] ∨ closing = [.closed] →
          Communicated lib s (logged heard closing) := by
        intro closing ending
        rw [← heard_eq]
        refine communicated_of_silent settled [.received packet.type packet.buffer.bytes] closing
          (by simp [isInput]) ending (by simp [logged, taken]) ?_ rfl
        intro fault failed
        rw [found] at failed
        cases failed
      have ignored := silent [] (.inl rfl)
      rw [logged, List.append_nil] at ignored
      have asked : ∀ {handler : SessionM Key Unit}, CallsManager packet →
          Keeps Converses handler →
          Communicated lib s (finalState (settle closeConnection (handler heard))) := by
        intro handler asks keeps
        rw [← heard_eq]
        exact communicated_of_converses settled found asks (keeps _)
      cases kind : packet.type with
      | CLOSE =>
          simp only [kind]
          exact silent [.closed] (.inr rfl)
      | SET_NAME =>
          simp only [kind]
          exact asked (.inl kind) (setName_converses lib packet)
      | ADD_FOLLOWER =>
          simp only [kind]
          exact asked (.inr (.inl kind))
            (callNamed_converses (fun _ _ => ⟨by simp [callerOf], by simp⟩) packet)
      | REMOVE_FOLLOWER =>
          simp only [kind]
          exact asked (.inr (.inr (.inl kind)))
            (callNamed_converses (fun _ _ => ⟨by simp [callerOf], by simp⟩) packet)
      | REMOVE_FOLLOWED =>
          simp only [kind]
          exact asked (.inr (.inr (.inr (.inl kind))))
            (callNamed_converses (fun _ _ => ⟨by simp [callerOf], by simp⟩) packet)
      | MY_LOCATION =>
          simp only [kind]
          by_cases whole : packet.buffer.size = 16
          · exact asked (.inr (.inr (.inr (.inr ⟨kind, whole⟩)))) (myLocation_converses turn whole)
          · rw [myLocation, if_pos whole]
            exact silent [.closed] (.inr rfl)
      | OPEN | ACK_OK | ACK_ERR | ALIVE | OPEN_ENCR | PUBLIC_KEY | SYMMETRIC_KEY | TEST_KEY
      | OPEN_PROT | NEW_FOLLOWED | LOCATION | UNDEFINED =>
          simp only [kind]
          exact ignored

/-- The first queued packet can be encrypted. -/
def Sendable (lib : CryptoLibrary Key) (client : ProtocolClient Key) : Prop :=
  ∃ packet rest frame, client.remainingPackets = packet :: rest ∧
    lib.aesEncrypt client.cryptoModule.aesKey (packet.type.toUInt8 :: packet.buffer.bytes) =
      .ok frame

theorem sendRemainingData_empty (lib : CryptoLibrary Key) {s : Session Key}
    (empty : s.client.remainingPackets = []) : sendRemainingData lib s = .ok () s := by
  simp only [sendRemainingData, bind_run, get_run, empty, pure_run]

/-- A packet that cannot be encrypted stays in the queue. -/
theorem sendRemainingData_unsendable (lib : CryptoLibrary Key) {s : Session Key}
    (settled : Settled s.client) (stuck : ¬ Sendable lib s.client) :
    finalState (sendRemainingData lib s) = s := by
  cases queue : s.client.remainingPackets with
  | nil => rw [sendRemainingData_empty lib queue, finalState]
  | cons packet rest =>
      cases sealed : lib.aesEncrypt s.client.cryptoModule.aesKey
          (packet.type.toUInt8 :: packet.buffer.bytes) with
      | ok frame => exact absurd ⟨packet, rest, frame, queue, sealed⟩ stuck
      | error what =>
          simp only [sendRemainingData, bind_run, get_run, queue,
            sendPacket_aes_error settled.aes sealed, finalState]

theorem sendRemainingData_sends (lib : CryptoLibrary Key) {s : Session Key}
    (settled : Settled s.client) (sendable : Sendable lib s.client) :
    ∃ packet rest frame, s.client.remainingPackets = packet :: rest ∧
      sendRemainingData lib s =
        .ok () (logged { s with client := { s.client with remainingPackets := rest } }
          [.sent packet.type .AES packet.buffer.bytes frame]) := by
  obtain ⟨packet, rest, frame, queue, sealed⟩ := sendable
  refine ⟨packet, rest, frame, queue, ?_⟩
  simp only [sendRemainingData, bind_run, get_run, queue,
    sendPacket_aes_ok settled.aes sealed, edit_run]
  simp only [logged, queue, List.tail_cons]

theorem sendRemainingData_converses (lib : CryptoLibrary Key) :
    Keeps Converses (sendRemainingData lib) := by
  refine .get_bind fun s => ?_
  cases queue : s.client.remainingPackets with
  | nil => exact Converses.refl s
  | cons packet rest =>
      intro settled
      have plain := settled.plain packet (by simp [queue])
      refine KeepsAt.bind .trans (sendPacket_converses lib plain s) (fun _ => ?_) settled
      intro sent settled'
      refine ⟨[], by simp, (List.append_nil _).symm, ⟨rfl, rfl, rfl, fun ready => ready⟩,
        settled'.aes, ?_, ?_⟩
      · intro elsewhere
        have empty := settled'.queued elsewhere
        exact congrArg List.tail empty
      · intro other member
        exact settled'.plain other (List.mem_of_mem_tail member)

/-- The acts of a session that is in stable communication. -/
def Forwards (before after : Session Key) : Prop :=
  before.client.stage = .StableCommunication → Converses before after

theorem Forwards.refl (s : Session Key) : Forwards s s := fun _ => .refl s

theorem Forwards.trans {first second third : Session Key} (left : Forwards first second)
    (right : Forwards second third) : Forwards first third := by
  intro stable settled
  obtain ⟨_, _, _, steady, _⟩ := left stable settled
  exact (left stable).trans (right (steady.stage.trans stable)) settled

theorem queuePackets_forwards {α : Type} {pack : α → Packet}
    (plain : ∀ news, isPlain (pack news).type) (news : List α) :
    Keeps Forwards (queuePackets (news.map pack) : SessionM Key Unit) := by
  intro s stable settled
  refine ⟨[], by simp, (List.append_nil _).symm, ⟨rfl, rfl, rfl, fun ready => ready⟩,
    settled.aes, ?_, ?_⟩
  · intro elsewhere
    exact absurd stable elsewhere
  · intro packet member
    rcases List.mem_append.mp member with queued | fresh
    · exact settled.plain packet queued
    · obtain ⟨entry, _, rfl⟩ := List.mem_map.mp fresh
      exact plain entry

theorem manager_forwards {s : Session Key} {op : ClientDataManager.Op}
    (speaks : SpeaksFor s.client.id op) : KeepsAt Forwards s (manager op) :=
  fun _ => manager_converses speaks

/-- The rest of an update, once the new names are here. -/
theorem told_forwards (lib : CryptoLibrary Key) (turn : Turn) (names : ClientDataManager.Reply) :
    Keeps Forwards (do
      queuePackets (names.toNames.map (followedPacket turn))
      let positions ← manager (.getNewPositions (← get).client.id)
      queuePackets (positions.toPositions.map locationPacket)
      sendRemainingData lib) := by
  refine .bind .trans (queuePackets_forwards (fun _ => rfl) _) fun _ => ?_
  refine .get_bind fun s => ?_
  refine .bind .trans (manager_forwards ⟨by simp [callerOf], by simp⟩) fun reply => ?_
  refine .bind .trans (queuePackets_forwards (fun _ => rfl) _) fun _ => ?_
  intro s _
  exact sendRemainingData_converses lib s

/-- An update of stable communication calls the manager first. -/
theorem update_forwards (lib : CryptoLibrary Key) (turn : Turn) {s : Session Key}
    (stable : s.client.stage = .StableCommunication) (settled : Settled s.client) :
    ∃ reply log, (∀ entry ∈ log, Ordinary s.client.id entry) ∧
      (finalState (update lib turn s)).acts =
        s.acts ++ (.called (.getNewNames s.client.id) reply :: log) ∧
      Steady s.client (finalState (update lib turn s)).client ∧
      Settled (finalState (update lib turn s)).client := by
  simp only [update, bind_run, get_run, if_pos stable]
  cases ran : ClientDataManager.run (.getNewNames s.client.id) s.database with
  | ok names database =>
      rw [manager_ok ran]
      obtain ⟨log, ordinary, acts, steady, settled'⟩ := told_forwards lib turn names
        (logged { s with database } [.called (.getNewNames s.client.id) (some names)])
        stable settled
      refine ⟨some names, log, ordinary, ?_, steady, settled'⟩
      exact acts.trans (List.append_assoc s.acts [_] log)
  | error fault database =>
      rw [manager_error ran]
      exact ⟨none, [], by simp, rfl, .refl _, settled⟩

/-- Outside stable communication there is nothing to send on. -/
theorem update_elsewhere (lib : CryptoLibrary Key) (turn : Turn) {s : Session Key}
    (elsewhere : s.client.stage ≠ .StableCommunication)
    (empty : s.client.remainingPackets = []) : update lib turn s = .ok () s := by
  simp only [update, bind_run, get_run, if_neg elsewhere, sendRemainingData_empty lib empty]

end Locus.ProtocolClient
