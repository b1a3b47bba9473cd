import Locus.ProtocolClientCalls
import Locus.ServiceHandlers
import Locus.ServiceSessions

set_option autoImplicit false

/- Who may call the manager for a client: a session whose peer has sent back the symmetric key that
was encrypted for it with the public key of that client. -/
namespace Locus

open Program Transition

namespace ProtocolClient

open ClientDataManager (Op Reply)
open scoped List

variable {Key : Type} {lib : CryptoLibrary Key}

/-- The key of the peer, and the address of the session, are what they were. -/
structure Holds (before after : Session Key) : Prop where
  outer : after.client.cryptoModule.rsaSimpleCrypto = before.client.cryptoModule.rsaSimpleCrypto
  blockingQueue : after.client.blockingQueue = before.client.blockingQueue

section Holds

theorem Holds.refl (s : Session Key) : Holds s s := ⟨rfl, rfl⟩

theorem Holds.trans {first second third : Session Key} (left : Holds first second)
    (right : Holds second third) : Holds first third :=
  ⟨right.outer.trans left.outer, right.blockingQueue.trans left.blockingQueue⟩

theorem act_holds (entry : Act) : Keeps Holds (act entry : SessionM Key Unit) := by
  intro s
  exact ⟨rfl, rfl⟩

theorem crypto_holds {α : Type} {call : CryptoM Key α} (drawn : Keeps CryptoModule.Drawn call) :
    Keeps Holds (crypto call) := by
  intro s
  obtain ⟨m, ⟨_, rfl⟩, ⟨value, _, ran⟩ | ⟨fault, ran⟩⟩ := crypto_spec drawn s
  · rw [KeepsAt, ran]
    exact ⟨rfl, rfl⟩
  · rw [KeepsAt, ran]
    exact ⟨rfl, rfl⟩

theorem use_holds (algo : Algorithm) :
    Keeps Holds (crypto (CryptoModule.use algo) : SessionM Key Unit) := by
  intro s
  exact ⟨rfl, rfl⟩

theorem getSymmetricKey_holds :
    Keeps Holds (crypto CryptoModule.getSymmetricKey : SessionM Key Bytes) := by
  intro s
  exact .refl s

theorem setStage_holds (stage : Stage) : Keeps Holds (setStage stage : SessionM Key Unit) := by
  intro s
  exact ⟨rfl, rfl⟩

theorem manager_holds (op : Op) : Keeps Holds (manager op : SessionM Key Reply) := by
  intro s
  unfold KeepsAt manager
  cases ClientDataManager.run op s.database <;> exact ⟨rfl, rfl⟩

theorem recvPacket_holds (lib : CryptoLibrary Key) : Keeps Holds (recvPacket lib) := by
  have takes : Keeps Holds (takeFrame : SessionM Key Bytes) := by
    intro s
    exact ⟨rfl, rfl⟩
  refine .bind .trans (.bind .trans takes fun bytes =>
    crypto_holds (CryptoModule.decrypt_drawn lib bytes)) fun bytes => ?_
  exact .bind .trans (.ofExcept .refl _) fun packet =>
    .bind .trans (act_holds _) fun _ => .pure .refl _

theorem sendPacket_holds (lib : CryptoLibrary Key) (packet : Packet) :
    Keeps Holds (sendPacket lib packet) := by
  refine .bind .trans (.ofExcept .refl _) fun popped => ?_
  refine .bind .trans (crypto_holds (CryptoModule.encrypt_drawn lib _)) fun frame => ?_
  exact .bind .trans (.get .refl) fun s => act_holds _

theorem setSymmetricKey_holds (lib : CryptoLibrary Key) : Keeps Holds (setSymmetricKey lib) := by
  refine catching_keeps .trans (.bind .trans (use_holds _) fun _ => ?_) (act_holds _)
  refine .bind .trans (recvPacket_holds lib) fun packet => ?_
  split
  · refine .bind .trans getSymmetricKey_holds fun symmetricKey => ?_
    refine .bind .trans (.ofExcept .refl _) fun returned => ?_
    dsimp only
    split
    · exact act_holds _
    · refine .bind .trans (use_holds _) fun _ => ?_
      exact .bind .trans (sendPacket_holds lib _) fun _ => setStage_holds _
  · exact act_holds _

theorem selfRegister_holds (lib : CryptoLibrary Key) : Keeps Holds (selfRegister lib) := by
  have reads : Keeps Holds (crypto (CryptoModule.getOuterRSAKey lib) : SessionM Key Bytes) := by
    refine crypto_holds (.bind .trans (.get .refl) fun module => ?_)
    dsimp only
    split
    · exact .throw .refl _
    · exact .pure .refl _
  refine .bind .trans reads fun publicKey => .bind .trans (.get .refl) fun s => ?_
  refine .bind .trans (manager_holds _) fun reply => ?_
  intro s
  exact ⟨rfl, rfl⟩

theorem testKey_holds (lib : CryptoLibrary Key) : Keeps Holds (testKey lib) := by
  refine catching_keeps .trans (.bind .trans (use_holds _) fun _ => ?_) (act_holds _)
  refine .bind .trans (recvPacket_holds lib) fun packet => ?_
  split
  · refine .bind .trans (sendPacket_holds lib _) fun _ => ?_
    exact .bind .trans (setStage_holds _) fun _ => selfRegister_holds lib
  · exact act_holds _

theorem callNamed_holds (call : Int16 → Int16 → Op) (packet : Packet) :
    Keeps Holds (callNamed call packet : SessionM Key Unit) :=
  Service.callNamed_keeps .refl .trans manager_holds call packet

theorem setName_holds (lib : CryptoLibrary Key) (packet : Packet) :
    Keeps Holds (setName lib packet) := by
  refine .bind .trans (.ofExcept .refl _) fun popped => .bind .trans (.get .refl) fun s => ?_
  refine .bind .trans (manager_holds _) fun res => ?_
  split <;> exact sendPacket_holds lib _

theorem myLocation_holds (turn : Turn) (packet : Packet) :
    Keeps Holds (myLocation turn packet : SessionM Key Unit) :=
  Service.myLocation_keeps .refl .trans manager_holds (act_holds _) turn packet

theorem stableCommunication_holds (lib : CryptoLibrary Key) (turn : Turn) :
    Keeps Holds (stableCommunication lib turn) := by
  refine catching_keeps .trans (.bind .trans (recvPacket_holds lib) fun packet => ?_) (act_holds _)
  cases packet.type with
  | CLOSE => exact act_holds _
  | SET_NAME => exact setName_holds lib packet
  | ADD_FOLLOWER | REMOVE_FOLLOWER | REMOVE_FOLLOWED => exact callNamed_holds _ packet
  | MY_LOCATION => exact myLocation_holds turn packet
  | _ => exact .pure .refl _

theorem sendRemainingData_holds (lib : CryptoLibrary Key) :
    Keeps Holds (sendRemainingData lib) := by
  refine .bind .trans (.get .refl) fun s => ?_
  cases s.client.remainingPackets with
  | nil => exact .pure .refl _
  | cons packet rest =>
      refine .bind .trans (sendPacket_holds lib packet) fun _ => ?_
      intro s
      exact ⟨rfl, rfl⟩

theorem update_holds (lib : CryptoLibrary Key) (turn : Turn) : Keeps Holds (update lib turn) := by
  have queues (packets : List Packet) : Keeps Holds (queuePackets packets : SessionM Key Unit) := by
    intro s
    exact ⟨rfl, rfl⟩
  refine .bind .trans (.get .refl) fun s => ?_
  split
  · refine .bind .trans (.get .refl) fun _ => .bind .trans (manager_holds _) fun names => ?_
    refine .bind .trans (queues _) fun _ => .bind .trans (.get .refl) fun _ => ?_
    refine .bind .trans (manager_holds _) fun positions => .bind .trans (queues _) fun _ => ?_
    exact sendRemainingData_holds lib
  · exact sendRemainingData_holds lib

/-- A message changes the key of the peer only while the session waits for one. -/
theorem recv_holds (lib : CryptoLibrary Key) (turn : Turn) {s : Session Key}
    (other : turn.message = .PacketReceive → s.client.stage ≠ .SetPublicKey) :
    Holds s (finalState (recv lib turn s)) := by
  unfold recv
  cases message : turn.message with
  | Close => exact act_holds _ s
  | PacketSend => exact sendRemainingData_holds lib s
  | Update => exact update_holds lib turn s
  | PacketReceive =>
      simp only [receiveData, bind_run, get_run]
      cases stage : s.client.stage with
      | SetPublicKey => exact absurd stage (other message)
      | SetSymmetricKey => exact setSymmetricKey_holds lib s
      | TestKey =>
          exact (Keeps.bind .trans (testKey_holds lib) fun _ =>
            stableCommunication_holds lib turn) s
      | StableCommunication => exact stableCommunication_holds lib turn s
      | Exit => exact .refl s
  | _ => exact .refl s

end Holds

/-- The symmetric key in a packet, encrypted with a public key. -/
def Enciphered (lib : CryptoLibrary Key) (publicKey : Key) (aesKey frame : Bytes) : Prop :=
  ∃ rsa first last, rsa.encryptor = publicKey ∧
    CryptoModule.encryptRSA lib rsa (PacketType.SYMMETRIC_KEY.toUInt8 :: aesKey) first =
      .ok frame last

/-- The session has taken a public key and has sent the symmetric key, encrypted with it. -/
def Challenged (lib : CryptoLibrary Key) (aesKey : Bytes) (publicKey : Key) (acts : List Act) :
    Prop :=
  ∃ key earlier frame, lib.load key earlier = (.ok (), publicKey) ∧
    Enciphered lib publicKey aesKey frame ∧
    [.accepted key, .sent .SYMMETRIC_KEY .OuterRSA aesKey frame] <+ acts

/-- And the peer has sent the symmetric key back. -/
def Answered (lib : CryptoLibrary Key) (aesKey : Bytes) (publicKey : Key) (acts : List Act) :
    Prop :=
  ∃ key earlier frame, lib.load key earlier = (.ok (), publicKey) ∧
    Enciphered lib publicKey aesKey frame ∧
    [.accepted key, .sent .SYMMETRIC_KEY .OuterRSA aesKey frame,
      .received .SYMMETRIC_KEY aesKey] <+ acts

/-- The session was given the id for this public key. -/
def Enrolled (lib : CryptoLibrary Key) (publicKey : Key) (id : Int16) (acts : List Act) : Prop :=
  ∃ queue, .called (.registerClient (lib.save publicKey) queue) (some (.id id)) ∈ acts

/-- A call is made for nobody, or for the client whose key the peer has answered for. -/
def Warranted (lib : CryptoLibrary Key) (aesKey : Bytes) (earlier : List Act) : Act → Prop
  | .called (.registerClient key _) _ =>
      ∃ publicKey, key = lib.save publicKey ∧ Answered lib aesKey publicKey earlier
  | .called op _ => ∀ id, callerOf op = some id → id ≠ 0 →
      ∃ publicKey, Answered lib aesKey publicKey earlier ∧ Enrolled lib publicKey id earlier
  | _ => True

/-- What a session has shown for its id. -/
structure Vouched (lib : CryptoLibrary Key) (aesKey : Bytes) (client : ProtocolClient Key)
    (acts : List Act) : Prop where
  key : client.cryptoModule.aesKey = aesKey
  each : Each (Warranted lib aesKey) acts
  challenged : client.stage = .SetSymmetricKey →
    Challenged lib aesKey client.cryptoModule.rsaSimpleCrypto.publicKey acts
  answered : client.stage = .TestKey ∨ client.stage = .StableCommunication →
    Answered lib aesKey client.cryptoModule.rsaSimpleCrypto.publicKey acts
  stranger : client.stage ≠ .StableCommunication → client.id = 0
  enrolled : client.stage = .StableCommunication →
    Enrolled lib client.cryptoModule.rsaSimpleCrypto.publicKey client.id acts

section Vouched

variable {aesKey : Bytes} {publicKey : Key} {id : Int16} {acts : List Act}

theorem Challenged.append (challenged : Challenged lib aesKey publicKey acts) (log : List Act) :
    Challenged lib aesKey publicKey (acts ++ log) := by
  obtain ⟨key, earlier, frame, loaded, sealed, inside⟩ := challenged
  exact ⟨key, earlier, frame, loaded, sealed, inside.trans (List.sublist_append_left acts log)⟩

theorem Answered.append (answered : Answered lib aesKey publicKey acts) (log : List Act) :
    Answered lib aesKey publicKey (acts ++ log) := by
  obtain ⟨key, earlier, frame, loaded, sealed, inside⟩ := answered
  exact ⟨key, earlier, frame, loaded, sealed, inside.trans (List.sublist_append_left acts log)⟩

theorem Enrolled.append (enrolled : Enrolled lib publicKey id acts) (log : List Act) :
    Enrolled lib publicKey id (acts ++ log) := by
  obtain ⟨queue, member⟩ := enrolled
  exact ⟨queue, List.mem_append_left _ member⟩

theorem Challenged.answer (challenged : Challenged lib aesKey publicKey acts) {log : List Act}
    (returned : .received .SYMMETRIC_KEY aesKey ∈ log) :
    Answered lib aesKey publicKey (acts ++ log) := by
  obtain ⟨key, earlier, frame, loaded, sealed, inside⟩ := challenged
  exact ⟨key, earlier, frame, loaded, sealed,
    inside.append (List.singleton_sublist.mpr returned)⟩

/-- The usual acts of a session that stays what it is. -/
theorem Vouched.extend {client next : ProtocolClient Key} {log : List Act}
    (vouched : Vouched lib aesKey client acts) (usual : ∀ entry ∈ log, Usual client.id entry)
    (stage : next.stage = client.stage) (sameId : next.id = client.id)
    (key : next.cryptoModule.aesKey = client.cryptoModule.aesKey)
    (outer : client.stage ≠ .SetPublicKey →
      next.cryptoModule.rsaSimpleCrypto = client.cryptoModule.rsaSimpleCrypto) :
    Vouched lib aesKey next (acts ++ log) := by
  have elsewhere {other : Stage} (reached : client.stage = other) (later : other ≠ .SetPublicKey) :
      next.cryptoModule.rsaSimpleCrypto = client.cryptoModule.rsaSimpleCrypto :=
    outer (by rw [reached]; exact later)
  refine ⟨key.trans vouched.key, each_append.mpr ⟨vouched.each, .of_forall ?_⟩, ?_, ?_, ?_, ?_⟩
  · intro earlier _ entry member
    rcases usual entry member with ordinary | rfl
    · cases ordinary with
      | input input =>
          cases entry with
          | called op reply => cases input
          | _ => trivial
      | send plain => trivial
      | @call op reply speaks =>
          have warranted : ∀ id, callerOf op = some id → id ≠ 0 → ∃ publicKey,
              Answered lib aesKey publicKey (acts ++ earlier) ∧
                Enrolled lib publicKey id (acts ++ earlier) := by
            intro id caller numbered
            rw [speaks.own id caller] at numbered ⊢
            have stable : client.stage = .StableCommunication := by
              by_contra unregistered
              exact numbered (vouched.stranger unregistered)
            exact ⟨_, (vouched.answered (.inr stable)).append earlier,
              (vouched.enrolled stable).append earlier⟩
          cases op with
          | registerClient publicKey queue => exact absurd rfl (speaks.registered publicKey queue)
          | _ => exact warranted
    · trivial
  · intro reached
    rw [stage] at reached
    rw [elsewhere reached (by decide)]
    exact (vouched.challenged reached).append log
  · intro reached
    rw [stage] at reached
    have same : next.cryptoModule.rsaSimpleCrypto = client.cryptoModule.rsaSimpleCrypto := by
      rcases reached with tested | stable
      · exact elsewhere tested (by decide)
      · exact elsewhere stable (by decide)
    rw [same]
    exact (vouched.answered reached).append log
  · rw [stage, sameId]
    exact vouched.stranger
  · intro reached
    rw [stage] at reached
    rw [sameId, elsewhere reached (by decide)]
    exact (vouched.enrolled reached).append log

theorem Vouched.listen {client next : ProtocolClient Key} {log closing : List Act}
    (vouched : Vouched lib aesKey client acts) (inputs : ∀ entry ∈ log, isInput entry)
    (ending : closing = [] ∨ closing = [.closed]) (same : Same client next)
    (outer : client.stage ≠ .SetPublicKey →
      next.cryptoModule.rsaSimpleCrypto = client.cryptoModule.rsaSimpleCrypto) :
    Vouched lib aesKey next (acts ++ (log ++ closing)) := by
  refine vouched.extend ?_ same.stage same.id same.aesKey outer
  intro entry member
  rcases List.mem_append.mp member with front | last
  · exact .inl (.input (inputs entry front))
  · exact usual_of_closing ending entry last

theorem Vouched.communicate {before after : Session Key}
    (vouched : Vouched lib aesKey before.client before.acts)
    (communicated : Communicated lib before after) (holds : Holds before after) :
    Vouched lib aesKey after.client after.acts := by
  obtain ⟨log, closing, acts, ordinary, ending, _⟩ := communicated.acts
  have steady := communicated.steady
  rw [acts]
  refine vouched.extend ?_ steady.stage steady.id steady.aesKey fun _ => holds.outer
  intro entry member
  rcases List.mem_append.mp member with front | last
  · rcases List.mem_cons.mp front with rfl | inside
    · exact .inl (.input rfl)
    · exact .inl (ordinary entry inside)
  · exact usual_of_closing ending entry last

/-- The key that a session takes is the one that it encrypts with. -/
theorem setPublicKey_matched (lib : CryptoLibrary Key) (s : Session Key)
    (moved : (finalState (setPublicKey lib s)).client.stage ≠ s.client.stage) :
    (finalState (setPublicKey lib s)).client.cryptoModule.rsaSimpleCrypto.publicKey =
      (finalState (setPublicKey lib s)).client.cryptoModule.rsaSimpleCrypto.encryptor := by
  revert moved
  unfold setPublicKey catching
  have unmoved {after : Session Key} {fault : Fault} (same : after.client.stage = s.client.stage) :
      ¬ (finalState (settle closeConnection (.error fault after))).client.stage ≠
        s.client.stage := by
    cases fault <;> exact not_not_intro same
  obtain ⟨m, _, ⟨fault, failed⟩ | ⟨packet, heard, _⟩⟩ := recvPacket_switched lib .ServerRSA s
  · simp only [bind_run, use_run, failed]
    exact fun moved => absurd moved (unmoved rfl)
  simp only [bind_run, use_run, heard, logged_withModule]
  by_cases expected : packet.type = .PUBLIC_KEY
  · obtain ⟨rest, popped, _⟩ := packet.buffer.popAll_spec
    simp only [if_pos expected, bind_run, popped, ofExcept_ok_run]
    obtain ⟨m', kept, ⟨_, took, accepted⟩ | ⟨fault, failed⟩⟩ :=
      crypto_spec (CryptoModule.setOuterRSAKey_keeps lib packet.buffer.bytes)
        (withModule (logged (taken s) [.received packet.type packet.buffer.bytes]) m)
    · simp only [accepted, act_run, use_run, getSymmetricKey_run, withModule_withModule,
        logged_withModule, switched_withModule, logged_logged, withModule_module]
      obtain ⟨m'', ⟨_, rfl⟩, ⟨fault, failed⟩ | ⟨frame, _, sent⟩⟩ := sendPacket_spec lib
        (Packet.push { type := .SYMMETRIC_KEY } m'.aesKey)
        (withModule (logged (taken s) ([.received packet.type packet.buffer.bytes] ++
          [.accepted packet.buffer.bytes])) { m' with algorithm := .OuterRSA })
      · simp only [failed]
        exact fun moved => absurd moved (unmoved rfl)
      · simp only [sent, setStage_run]
        intro _
        obtain ⟨publicKey, draws, _, whole⟩ := CryptoModule.setOuterRSAKey_returned took
        subst whole
        rfl
    · simp only [failed]
      exact fun moved => absurd moved (unmoved rfl)
  · rw [if_neg expected, closeConnection_run]
    exact fun moved => absurd rfl moved

/-- `testKey` registers the session under the key that it has taken. -/
theorem testKey_enrols (lib : CryptoLibrary Key) {s : Session Key} (keyed : Service.HasKey s.client)
    (stage : s.client.stage = .TestKey) :
    ∃ middle, testKey lib s = .ok () middle ∧ middle.client.cryptoModule.algorithm = .AES ∧
      ((∃ log, (∀ entry ∈ log, isInput entry) ∧ middle.acts = s.acts ++ (log ++ [.closed]) ∧
        Same s.client middle.client) ∨
      ∃ payload frame queue, Passed { s with client := { s.client with id := middle.client.id } }
        middle [.read (s.inbound.headD []), .received .TEST_KEY payload,
          .sent .OPEN_PROT .AES [] frame, .stage .StableCommunication,
          .called (.registerClient (Service.keyOf lib s.client) queue)
            (some (.id middle.client.id))] .StableCommunication) := by
  obtain ⟨middle, ran, _, aes, outcome⟩ := testKey_outcome lib s keyed
  refine ⟨middle, ran, aes, ?_⟩
  rcases outcome with ⟨log, inputs, acts, same, _⟩ | ⟨payload, frame, key, queue, _, passed⟩
  · exact .inl ⟨log, inputs, acts, same⟩
  · have handles := Service.testKey_handled lib s keyed (by rw [ran]; trivial)
    rw [ran] at handles
    rcases handles with ⟨_, handled⟩ | ⟨_, last, handled, keyed', opened⟩
    · exact absurd (handled.stage.symm.trans passed.stage) (by rw [stage]; decide)
    · obtain ⟨number, database, _, opens⟩ := @Service.openSession_returns _ lib last keyed'
      have ended : EStateM.Result.ok () (Service.registered lib last number database) =
          (EStateM.Result.ok () middle : EStateM.Result Fault (Session Key) Unit) :=
        opens.symm.trans opened
      have final : middle = Service.registered lib last number database := by
        injection ended with _ same
        exact same.symm
      have kept : Holds s (finalState (testKey lib s)) := testKey_holds lib s
      rw [ran, final] at kept
      have same : Service.keyOf lib last.client = Service.keyOf lib s.client := by
        rw [Service.keyOf, Service.keyOf, ← kept.outer]
        rfl
      have called := congrArg List.getLast? passed.acts
      rw [final, Service.registered] at called
      simp only [logged, List.getLast?_append, List.getLast?_cons_cons,
        List.getLast?_singleton, Option.some_or, Option.some.injEq, Act.called.injEq,
        ClientDataManager.Op.registerClient.injEq] at called
      have named : key = Service.keyOf lib s.client := called.1.1.symm.trans same
      exact .inr ⟨payload, frame, queue, named ▸ passed⟩

/-- The acts of a handler of the handshake that got through without a call. -/
theorem Vouched.pass {before after : Session Key} {log : List Act} {stage : Stage}
    (vouched : Vouched lib aesKey before.client before.acts)
    (passed : Passed before after log stage)
    (elsewhere : before.client.stage ≠ .StableCommunication)
    (still : stage ≠ .StableCommunication)
    (silent : ∀ entry ∈ log, ∀ op reply, entry ≠ .called op reply)
    (challenged : stage = .SetSymmetricKey → Challenged lib aesKey
      after.client.cryptoModule.rsaSimpleCrypto.publicKey (before.acts ++ log))
    (answered : stage = .TestKey → Answered lib aesKey
      after.client.cryptoModule.rsaSimpleCrypto.publicKey (before.acts ++ log)) :
    Vouched lib aesKey after.client after.acts := by
  have stranger := vouched.stranger elsewhere
  rw [passed.acts]
  refine ⟨passed.aesKey.trans vouched.key, each_append.mpr ⟨vouched.each, .of_forall ?_⟩, ?_, ?_,
    ?_, ?_⟩
  · intro earlier _ entry member
    cases entry with
    | called op reply => exact absurd rfl (silent _ member op reply)
    | _ => trivial
  · intro reached
    exact challenged (passed.stage.symm.trans reached)
  · rintro (tested | stable)
    · exact answered (passed.stage.symm.trans tested)
    · exact absurd (passed.stage.symm.trans stable) still
  · exact fun _ => passed.id.trans stranger
  · exact fun stable => absurd (passed.stage.symm.trans stable) still

theorem Vouched.takesPublicKey {s : Session Key} (vouched : Vouched lib aesKey s.client s.acts)
    (stage : s.client.stage = .SetPublicKey) :
    Vouched lib aesKey (finalState (setPublicKey lib s)).client
      (finalState (setPublicKey lib s)).acts := by
  rcases setPublicKey_outcome lib s with ⟨log, closing, inputs, ending, acts, same⟩ |
    ⟨key, frame, passed, keyed⟩
  · rw [acts]
    exact vouched.listen inputs ending same fun elsewhere => absurd stage elsewhere
  · have matched := setPublicKey_matched lib s (by rw [passed.stage, stage]; decide)
    have sealed : s.client.cryptoModule.aesKey = aesKey := vouched.key
    obtain ⟨first, last, encrypted⟩ := keyed.answered
    rw [sealed] at passed encrypted
    apply vouched.pass passed (by rw [stage]; decide) (by decide) (by simp) ?_ (by simp)
    intro _
    rw [matched]
    refine ⟨key, _, frame, keyed.loaded, ⟨_, first, last, rfl, encrypted⟩, ?_⟩
    exact List.sublist_append_of_sublist_right (by simp)

/-- The registration of a peer that has answered. -/
theorem Vouched.enrol {s middle : Session Key} {payload frame : Bytes} {queue : QueueRef}
    (vouched : Vouched lib aesKey s.client s.acts) (stage : s.client.stage = .TestKey)
    (passed : Passed { s with client := { s.client with id := middle.client.id } } middle
      [.read (s.inbound.headD []), .received .TEST_KEY payload, .sent .OPEN_PROT .AES [] frame,
        .stage .StableCommunication, .called (.registerClient (Service.keyOf lib s.client) queue)
          (some (.id middle.client.id))] .StableCommunication)
    (holds : Holds s middle) : Vouched lib aesKey middle.client middle.acts := by
  have answered := vouched.answered (.inl stage)
  rw [passed.acts]
  refine ⟨passed.aesKey.trans vouched.key, each_append.mpr ⟨vouched.each, ?_⟩, ?_, ?_, ?_, ?_⟩
  · simp only [each_cons, each_nil, Warranted, true_and, and_true]
    exact ⟨_, rfl, answered.append _⟩
  · intro elsewhere
    exact absurd (passed.stage.symm.trans elsewhere) (by decide)
  · intro _
    rw [holds.outer]
    exact answered.append _
  · exact fun elsewhere => absurd passed.stage elsewhere
  · intro _
    rw [holds.outer]
    exact ⟨queue, by simp [Service.keyOf]⟩

theorem vouched_recv {s : Session Key} {turn : Turn} (sound : Sound s.client)
    (vouched : Vouched lib aesKey s.client s.acts) :
    Vouched lib aesKey (finalState (recv lib turn s)).client
      (finalState (recv lib turn s)).acts := by
  by_cases waits : turn.message = .PacketReceive ∧ s.client.stage = .SetPublicKey
  · simp only [recv, waits.1, receiveData, bind_run, get_run, waits.2]
    exact vouched.takesPublicKey waits.2
  have holds := recv_holds lib turn fun message stage => waits ⟨message, stage⟩
  by_cases tests : turn.message = .PacketReceive ∧ s.client.stage = .TestKey
  · have keyed : Service.HasKey s.client := sound.initialized (by rw [tests.2]; decide)
    have empty := sound.queued (by rw [tests.2]; decide)
    have kept : Holds s (finalState (testKey lib s)) := testKey_holds lib s
    obtain ⟨middle, ran, aes, outcome⟩ := testKey_enrols lib keyed tests.2
    have later : Holds middle (finalState (stableCommunication lib turn middle)) :=
      stableCommunication_holds lib turn middle
    rw [ran] at kept
    simp only [recv, tests.1, receiveData, bind_run, get_run, tests.2, ran]
    rcases outcome with ⟨log, inputs, acts, same⟩ | ⟨payload, frame, queue, passed⟩
    · have settled : Settled middle.client := by
        refine ⟨aes, fun _ => same.remainingPackets.trans empty, ?_⟩
        simp [same.remainingPackets, empty]
      have refused : Vouched lib aesKey middle.client middle.acts := by
        rw [acts]
        exact vouched.listen inputs (.inr rfl) same fun _ => kept.outer
      exact refused.communicate (stableCommunication_communicated lib turn settled) later
    · have remaining : middle.client.remainingPackets = [] := passed.remainingPackets.trans empty
      have settled : Settled middle.client := by
        refine ⟨aes, fun _ => remaining, ?_⟩
        simp [remaining]
      exact (vouched.enrol tests.2 passed kept).communicate
        (stableCommunication_communicated lib turn settled) later
  cases recv_outcome lib turn sound with
  | idle acts client =>
      rw [acts, client]
      exact vouched
  | closes acts client =>
      rw [acts, client]
      have ended : Vouched lib aesKey s.client (s.acts ++ ([] ++ [.closed])) :=
        vouched.listen (by simp) (.inr rfl) (.refl _) fun _ => rfl
      exact ended
  | listens receives stage listened =>
      obtain ⟨log, closing, inputs, ending, acts, same⟩ := listened
      rw [acts]
      exact vouched.listen inputs ending same fun _ => holds.outer
  | takesPublicKey bytes key frame receives stage passed => exact absurd ⟨receives, stage⟩ waits
  | takesSymmetricKey bytes frame receives stage passed =>
      have sealed : s.client.cryptoModule.aesKey = aesKey := vouched.key
      rw [sealed] at passed
      apply vouched.pass passed (by rw [stage]; decide) (by decide) (by simp) (by simp)
      intro _
      rw [holds.outer]
      exact (vouched.challenged stage).answer (by simp)
  | refuses log middle receives stage => exact absurd ⟨receives, stage⟩ tests
  | registers payload frame publicKey queue middle receives stage =>
      exact absurd ⟨receives, stage⟩ tests
  | communicates receives stage communicated => exact vouched.communicate communicated holds
  | forwards log stage message ordinary acts steady settled =>
      rw [acts]
      refine vouched.extend ?_ steady.stage steady.id steady.aesKey fun _ => holds.outer
      intro entry member
      exact .inl (ordinary entry member)

theorem vouched_step {before after : Life Key} {event : Event} (sound : Sound before.client)
    (vouched : Vouched lib aesKey before.client before.acts) (step : Step lib before event after) :
    Sound after.client ∧ Vouched lib aesKey after.client after.acts := by
  cases event with
  | serve turn =>
      have sound' : Sound (before.session turn).client := sound
      have vouched' : Vouched lib aesKey (before.session turn).client (before.session turn).acts :=
        vouched
      obtain ⟨_, rfl⟩ := step
      obtain ⟨client, acts⟩ := ofResult_final (recv lib turn (before.session turn)) .alive
      have later := @vouched_recv _ lib aesKey (before.session turn) turn sound' vouched'
      rw [← client, ← acts] at later
      have kept : Sound _ := (recv_outcome lib turn sound').sound sound'
      rw [← client] at kept
      exact ⟨kept, later⟩
  | erase database =>
      obtain ⟨client, ⟨_, acts⟩ | ⟨_, reply, acts⟩⟩ := step_erase step
      · rw [client, acts]
        exact ⟨sound, vouched⟩
      · rw [client, acts]
        refine ⟨sound, vouched.extend ?_ rfl rfl rfl fun _ => rfl⟩
        intro entry member
        rw [List.mem_singleton.mp member]
        exact .inl (.call ⟨by simp [callerOf], by simp⟩)

/-- A session vouches for itself from its first message to its last. -/
theorem vouched_run {rsaServerCrypto : RSASimpleCrypto Key} {blank : Key} {queue : QueueRef}
    {events : List Event} {life : Life Key}
    (run : Run (Step lib) (create lib rsaServerCrypto blank aesKey queue) events life) :
    Vouched lib aesKey life.client life.acts := by
  have holds : Sound life.client ∧ Vouched lib aesKey life.client life.acts := by
    refine run.invariant (fun life => Sound life.client ∧
      Vouched lib aesKey life.client life.acts) ⟨create_sound lib _ _ _ _, ?_⟩ ?_
    · rw [create_eq]
      refine ⟨rfl, ?_, by simp, by simp, fun _ => rfl, by simp⟩
      simp [each_cons, Warranted]
    · exact fun before event after held step => vouched_step held.1 held.2 step
  exact holds.2

end Vouched

end ProtocolClient

namespace ClientDataManager

/-- An id that was given to a key stays the id of the key. -/
theorem Reaches.listed_of_registered {calls : List (Op × Reply)} {m : ClientDataManager}
    (reaches : Reaches calls m) {key : Bytes} {queue : QueueRef} {id : Int16}
    (registered : (.registerClient key queue, .id id) ∈ calls) : m.clientsId key = some id := by
  obtain ⟨database, run, rfl⟩ := reaches
  revert registered
  refine run.history_invariant (fun calls database => (.registerClient key queue, .id id) ∈ calls →
    database.manager.clientsId key = some id) (by simp) ?_
  rintro calls before ⟨op, reply⟩ after _ held last member
  have effect := step_iff_effect.mp last
  rcases List.mem_append.mp member with early | late
  · have listed := held early
    rcases register_step effect with ⟨_, ids, _⟩ | ⟨fresh, own, _, absent, _, ids, _⟩
    · rw [ids]
      exact listed
    · rw [ids]
      exact KeyMap.insert_of_some _ _ listed
  · cases List.mem_singleton.mp late
    exact Server.listed_registered effect

end ClientDataManager

namespace Service

open ProtocolClient
open ClientDataManager (Op Reply)

variable {Key : Type} {lib : CryptoLibrary Key}

theorem mem_of_actsOf {history : List Event} {queue : QueueRef} {entry : Act}
    (member : entry ∈ actsOf history queue) : ∃ event ∈ history, entry ∈ event.acts := by
  induction history using List.reverseRecOn with
  | nil => cases member
  | append_singleton history event ih =>
      rw [actsOf_snoc] at member
      have earlier (inside : entry ∈ actsOf history queue) :
          ∃ event' ∈ history ++ [event], entry ∈ event'.acts := by
        obtain ⟨event', there, did⟩ := ih inside
        exact ⟨event', List.mem_append_left _ there, did⟩
      cases event with
      | accept other | erase other log =>
          rw [record] at member
          split at member
          · cases member
          · exact earlier member
      | serve other number turn log =>
          rw [record] at member
          split at member
          · rcases List.mem_append.mp member with inside | last
            · exact earlier inside
            · exact ⟨.serve other number turn log, by simp, last⟩
          · exact earlier member

/-- The session that an event is about. -/
def Event.queue : Event → QueueRef
  | .accept queue | .serve queue _ _ _ | .erase queue _ => queue

/-- A call in a handler or in the destructor is warranted by what its session did before. -/
theorem warranted_call {past : List Event} {event : Event} {server : Server Key}
    {earlier rest : List Act} {op : Op} {reply : Option Reply}
    (run : Run (Step lib) {} (past ++ [event]) server)
    (made : event.acts = earlier ++ .called op reply :: rest) :
    ∃ rsaServerCrypto blank aesKey answer,
      Warranted lib aesKey ((create lib rsaServerCrypto blank aesKey event.queue).acts ++
        (actsOf past event.queue ++ earlier)) (.called op answer) := by
  have whole := run
  obtain ⟨before, started, last⟩ := Run.snoc_iff.mp run
  cases last with
  | accept unused =>
      have empty := congrArg List.length made
      simp [Event.acts] at empty
  | @serve queue client turn result alive posted ran goesOn =>
      obtain ⟨rsaServerCrypto, blank, aesKey, lived, life, _⟩ :=
        lived_run whole (KeyMap.modify_of_some _ alive)
      refine ⟨rsaServerCrypto, blank, aesKey, reply, (vouched_run life).each _ _ rest ?_⟩
      have log : (finalState result).acts = earlier ++ .called op reply :: rest := made
      rw [actsOf_snoc, record, if_pos rfl, log]
      simp [Event.queue]
  | @erase queue client final alive ran =>
      obtain ⟨rsaServerCrypto, blank, aesKey, lived, life, _⟩ := lived_run started alive
      have log : final.acts = earlier ++ .called op reply :: rest := made
      obtain ⟨rsaServerCrypto, blank, aesKey, lived, life, _⟩ := lived_run started alive
      generalize sofar : (create lib rsaServerCrypto blank aesKey queue).acts ++
        actsOf past queue = acts at life
      have step : ProtocolClient.Step lib { client, acts } (.erase before.database)
          ((ProtocolClient.Event.erase before.database).apply lib { client, acts }) := ⟨rfl, rfl⟩
      have each := (vouched_run (life.snoc step)).each
      rcases destroy_returned ran with ⟨numbered, _, single⟩ | ⟨_, rfl⟩
      · obtain ⟨rfl, same⟩ : earlier = [] ∧ op = .unregister client.id := by
          rw [log] at single
          cases earlier with
          | nil =>
              cases single
              exact ⟨rfl, rfl⟩
          | cons first earlier =>
              have short := congrArg List.length single
              simp [Server.enter] at short
        rcases step_erase step with ⟨_, ⟨stranger, _⟩ | ⟨_, answer, ended⟩⟩
        · exact absurd numbered stranger
        · rw [ended] at each
          refine ⟨rsaServerCrypto, blank, aesKey, answer, ?_⟩
          rw [Event.queue, List.append_nil, sofar, same]
          exact each acts _ [] rfl
      · have empty := congrArg List.length log
        simp [Server.enter] at empty

/-- Whatever a session does for a client, its peer has sent back the symmetric key that the session
had encrypted with a public key, and the id of this key is the client's. -/
theorem calls_answered {past later : List Event} {event : Event} {server : Server Key}
    {earlier rest : List Act} {op : Op} {reply : Option Reply} {id : Int16}
    (run : Run (Step lib) {} (past ++ event :: later) server)
    (made : event.acts = earlier ++ .called op reply :: rest) (caller : callerOf op = some id)
    (numbered : id ≠ 0) :
    ∃ aesKey publicKey, Answered lib aesKey publicKey (actsOf past event.queue ++ earlier) ∧
      server.database.manager.clientsId (lib.save publicKey) = some id := by
  have split : past ++ event :: later = (past ++ [event]) ++ later := by simp
  obtain ⟨events, mirrored, same, _⟩ := (mirrored_sound run).1
  have reaches : ClientDataManager.Reaches _ server.database.manager :=
    (Server.consistent_run mirrored).reached
  rw [split] at run
  obtain ⟨middle, started, _⟩ := Run.append_iff.mp run
  obtain ⟨rsaServerCrypto, blank, aesKey, answer, warranted⟩ := warranted_call started made
  have asks : ∃ publicKey, Answered lib aesKey publicKey
        ((create lib rsaServerCrypto blank aesKey event.queue).acts ++
          (actsOf past event.queue ++ earlier)) ∧
      Enrolled lib publicKey id
        ((create lib rsaServerCrypto blank aesKey event.queue).acts ++
          (actsOf past event.queue ++ earlier)) := by
    cases op with
    | registerClient key queue => cases caller
    | _ => exact warranted id caller numbered
  obtain ⟨publicKey, ⟨key, before, frame, loaded, sealed, inside⟩, address, member⟩ := asks
  rw [create_eq] at inside member
  refine ⟨aesKey, publicKey, ⟨key, before, frame, loaded, sealed, ?_⟩, ?_⟩
  · cases inside with
    | cons _ inside => exact inside
  · obtain ⟨enroller, there, did⟩ : ∃ other ∈ past ++ [event],
        .called (.registerClient (lib.save publicKey) address) (some (.id id)) ∈ other.acts := by
      rcases List.mem_append.mp member with first | inside
      · cases List.mem_singleton.mp first
      · rcases List.mem_append.mp inside with old | new
        · obtain ⟨other, there, did⟩ := mem_of_actsOf old
          exact ⟨other, List.mem_append_left _ there, did⟩
        · exact ⟨event, by simp, by rw [made]; exact List.mem_append_left _ new⟩
    apply reaches.listed_of_registered
    rw [same, split]
    exact List.mem_flatMap.mpr ⟨enroller, List.mem_append_left _ there,
      List.mem_filterMap.mpr ⟨_, did, rfl⟩⟩

/-- The session at an address gets the name `A`. -/
def names : Event → Bool
  | .serve _ _ _ acts => .called (.setName 1 [65]) (some (.accepted true)) ∈ acts
  | _ => false

theorem calls_answered_itinerary : ∃ (server : Server Unit) (past later : List Event)
    (queue : QueueRef) (number : Int16) (turn : Turn) (acts earlier : List Act),
    Run (Step transparent) {} (past ++ .serve queue number turn acts :: later) server ∧
      ∃ aesKey publicKey, Answered transparent aesKey publicKey (actsOf past queue ++ earlier) ∧
        server.database.manager.clientsId (transparent.save publicKey) = some 1 := by
  have replays : (replay transparent itinerary hosted).map (fun result => result.1.any names) =
      some true := by decide +kernel
  obtain ⟨⟨history, server⟩, replayed, named⟩ := Option.map_eq_some_iff.mp replays
  obtain ⟨event, member, gets⟩ := List.any_eq_true.mp named
  obtain ⟨past, later, split⟩ := List.append_of_mem member
  have run : Run (Step transparent) {} (.accept 0 :: history) server :=
    .cons (.accept rfl) (replay_run replayed)
  cases event with
  | accept queue | erase queue acts => cases gets
  | serve queue number turn acts =>
      obtain ⟨earlier, rest, made⟩ := List.append_of_mem (of_decide_eq_true gets)
      have run : Run (Step transparent) {} ((.accept 0 :: past) ++
          .serve queue number turn acts :: later) server := by
        rw [List.cons_append, ← split]
        exact run
      exact ⟨server, _, later, queue, number, turn, acts, earlier, run,
        @calls_answered _ _ _ _ (.serve queue number turn acts) _ _ _ _ _ _ run made rfl
          (by decide)⟩

end Service

end Locus
