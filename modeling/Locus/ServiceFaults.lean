import Locus.ClientDataManagerMissing
import Locus.ServiceRefinement

set_option autoImplicit false

/- The message that ends the service: the only one that a session can receive in a reachable server
and then use an iterator that points nowhere. -/
namespace Locus

open Program Transition

theorem catching_avoids {σ : Type} {body handler : EStateM Fault σ Unit} {failure : Fault}
    (avoids : Avoids failure body) (handles : Avoids failure handler) :
    Avoids failure (catching body handler) := by
  intro state after failed
  rw [catching] at failed
  cases ran : body state with
  | ok value middle =>
      rw [ran] at failed
      cases failed
  | error fault middle =>
      rw [ran] at failed
      cases fault with
      | exception what => exact handles middle after failed
      | undefinedBehaviour | nonTermination =>
          cases failed
          exact avoids state after ran

theorem thrown_avoids {α : Type} (outcome : Except String α) :
    thrown outcome ≠ .error .undefinedBehaviour := by
  cases outcome <;> simp [thrown]

namespace CryptoModule

variable {Key : Type}

theorem draw_avoids : Avoids .undefinedBehaviour (draw : CryptoM Key Nat) := by
  intro state after failed
  cases failed

theorem encryptBlock_avoids (lib : CryptoLibrary Key) (rsa : RSASimpleCrypto Key) (text : Bytes) :
    Avoids .undefinedBehaviour (encryptBlock lib rsa text) := by
  unfold encryptBlock
  split
  · exact .throw (by simp)
  · split
    · exact .throw (by simp)
    · exact .bind draw_avoids fun _ => .ofExcept (thrown_avoids _)

theorem decryptBlock_avoids (lib : CryptoLibrary Key) (rsa : RSASimpleCrypto Key)
    (cipher : Bytes) : Avoids .undefinedBehaviour (decryptBlock lib rsa cipher) := by
  unfold decryptBlock
  split
  · exact .throw (by simp)
  · split
    · exact .throw (by simp)
    · exact .bind draw_avoids fun _ => .ofExcept (thrown_avoids _)

theorem blocks_avoids {convert : Bytes → CryptoM Key Bytes} {length : Nat}
    (avoids : ∀ block, Avoids .undefinedBehaviour (convert block)) (turns : Nat) :
    ∀ bytes, Avoids .undefinedBehaviour (blocks convert length turns bytes) := by
  induction turns with
  | zero =>
      intro bytes
      cases bytes with
      | nil => exact .pure []
      | cons byte bytes => exact .throw (by simp)
  | succ turns ih =>
      intro bytes
      cases bytes with
      | nil => exact .pure []
      | cons byte bytes =>
          exact .bind (avoids _) fun _ => .bind (ih _) fun _ => .pure _

theorem encrypt_avoids (lib : CryptoLibrary Key) (text : Bytes) :
    Avoids .undefinedBehaviour (encrypt lib text) := by
  refine .bind .get fun module => ?_
  split
  · exact .pure _
  · exact blocks_avoids (encryptBlock_avoids lib _) _ text
  · exact blocks_avoids (encryptBlock_avoids lib _) _ text
  · exact .ofExcept (thrown_avoids _)

theorem decrypt_avoids (lib : CryptoLibrary Key) (cipher : Bytes) :
    Avoids .undefinedBehaviour (decrypt lib cipher) := by
  refine .bind .get fun module => ?_
  split
  · exact .pure _
  · exact blocks_avoids (decryptBlock_avoids lib _) _ cipher
  · exact blocks_avoids (decryptBlock_avoids lib _) _ cipher
  · exact .ofExcept (thrown_avoids _)

theorem setOuterRSAKey_avoids (lib : CryptoLibrary Key) (key : Bytes) :
    Avoids .undefinedBehaviour (setOuterRSAKey lib key) := by
  refine .bind ?_ fun _ => .modify _
  refine .bind .get fun module => ?_
  refine .bind (.modify _) fun _ => .bind (.ofExcept (thrown_avoids _)) fun _ => ?_
  refine .bind draw_avoids fun number => ?_
  split
  · exact .throw (by simp)
  · exact .modify _

end CryptoModule

namespace ProtocolClient

variable {Key : Type} {lib : CryptoLibrary Key}

theorem ofBytes_avoids (bytes : Bytes) : Packet.ofBytes bytes ≠ .error .undefinedBehaviour := by
  cases bytes with
  | nil => simp [Packet.ofBytes_nil]
  | cons header payload =>
      obtain ⟨packet, parsed, _⟩ := Packet.ofBytes_cons header payload
      rw [parsed]
      simp

theorem popAll_avoids (buffer : Buffer) : buffer.popAll ≠ .error .undefinedBehaviour := by
  obtain ⟨after, popped, _⟩ := buffer.popAll_spec
  rw [popped]
  simp

theorem takeFrame_avoids : Avoids .undefinedBehaviour (takeFrame : SessionM Key Bytes) := by
  intro s after failed
  cases failed

theorem recvPacket_avoids (lib : CryptoLibrary Key) :
    Avoids .undefinedBehaviour (recvPacket lib) := by
  refine .bind (.bind takeFrame_avoids fun bytes => .zoom (CryptoModule.decrypt_avoids lib bytes))
    fun bytes => ?_
  exact .bind (.ofExcept (ofBytes_avoids bytes)) fun packet =>
    .bind (.modify _) fun _ => .pure packet

theorem sendPacket_avoids (lib : CryptoLibrary Key) (packet : Packet) :
    Avoids .undefinedBehaviour (sendPacket lib packet) := by
  refine .bind (.ofExcept (popAll_avoids _)) fun popped => ?_
  refine .bind (.zoom (CryptoModule.encrypt_avoids lib _)) fun frame => ?_
  exact .bind .get fun s => .modify _

theorem setStage_avoids (stage : Stage) :
    Avoids .undefinedBehaviour (setStage stage : SessionM Key Unit) :=
  .bind (.modify _) fun _ => .modify _

theorem setPublicKey_avoids (lib : CryptoLibrary Key) :
    Avoids .undefinedBehaviour (setPublicKey lib) := by
  refine catching_avoids (.bind (.zoom (.modify _)) fun _ => ?_) (.modify _)
  refine .bind (recvPacket_avoids lib) fun packet => ?_
  split
  · refine .bind (.ofExcept (popAll_avoids _)) fun popped => ?_
    refine .bind (.zoom (CryptoModule.setOuterRSAKey_avoids lib _)) fun _ => ?_
    refine .bind (.modify _) fun _ => .bind (.zoom (.modify _)) fun _ => ?_
    refine .bind (.zoom (.bind .get fun module => .pure _)) fun symmetricKey => ?_
    exact .bind (sendPacket_avoids lib _) fun _ => setStage_avoids _
  · exact .modify _

theorem setSymmetricKey_avoids (lib : CryptoLibrary Key) :
    Avoids .undefinedBehaviour (setSymmetricKey lib) := by
  refine catching_avoids (.bind (.zoom (.modify _)) fun _ => ?_) (.modify _)
  refine .bind (recvPacket_avoids lib) fun packet => ?_
  split
  · refine .bind (.zoom (.bind .get fun module => .pure _)) fun symmetricKey => ?_
    refine .bind (.ofExcept (popAll_avoids _)) fun returned => ?_
    dsimp only
    split
    · exact .modify _
    · refine .bind (.zoom (.modify _)) fun _ => ?_
      exact .bind (sendPacket_avoids lib _) fun _ => setStage_avoids _
  · exact .modify _

theorem sendRemainingData_avoids (lib : CryptoLibrary Key) :
    Avoids .undefinedBehaviour (sendRemainingData lib) := by
  refine .bind .get fun s => ?_
  cases s.client.remainingPackets with
  | nil => exact .pure ()
  | cons packet rest => exact .bind (sendPacket_avoids lib packet) fun _ => .modify _

end ProtocolClient

namespace ClientDataManager

variable {calls : List (Op × Reply)} {m : ClientDataManager}

/-- Who has a name has a record. -/
theorem Reaches.named_known (reaches : Reaches calls m) {name : Bytes} {id : Int16}
    (named : m.clientsName name = some id) : (m.clientsData id).isSome := by
  obtain ⟨database, run, rfl⟩ := reaches
  revert name id
  refine run.invariant (fun database => ∀ {name id}, database.manager.clientsName name = some id →
    (database.manager.clientsData id).isSome) (by simp) ?_
  intro before call after held last name id named
  have effect := step_iff_effect.mp last
  rcases names_step effect with ⟨index, _⟩ | ⟨myId, new, _, _, free, here, index, _⟩
  · rw [index] at named
    exact known_step effect id (held named)
  · rw [index] at named
    rcases KeyMap.insert_eq_some (released_free free) named with ⟨_, rfl⟩ | ⟨_, old⟩
    · exact known_step effect id here
    · split at old
      · exact known_step effect id (held old)
      · exact known_step effect id (held (KeyMap.erase_eq_some old).2)

end ClientDataManager

namespace Service

open ProtocolClient
open ClientDataManager (Op Reply Reaches)

variable {Key : Type} {lib : CryptoLibrary Key}

/-- The call ends with undefined behaviour. -/
def Undefined {α : Type} (call : SessionM Key α) (s : Session Key) : Prop :=
  ∃ after, call s = .error .undefinedBehaviour after

/-- A packet for which the session's own record is looked up. -/
def NeedsRecord (m : ClientDataManager) (packet : Packet) : Prop :=
  packet.type = .SET_NAME ∨ packet.type = .MY_LOCATION ∧ packet.buffer.size = 16 ∨
    (namedCall packet.type).isSome ∧ 0 < m.nameId packet.buffer.bytes

section Undefined

variable {calls : List (Op × Reply)} {s : Session Key} {turn : Turn} {packet : Packet}

theorem not_undefined {α : Type} {call : SessionM Key α}
    (avoids : Avoids .undefinedBehaviour call) : ¬ Undefined call s :=
  fun ⟨after, failed⟩ => avoids s after failed

theorem undefined_bind_iff {α β : Type} {first : SessionM Key α} {next : α → SessionM Key β}
    (avoids : ∀ value, Avoids .undefinedBehaviour (next value)) :
    Undefined (first >>= next) s ↔ Undefined first s := by
  simp only [Undefined, bind_run]
  cases ran : first s with
  | ok value middle =>
      simp only [reduceCtorEq, exists_false, iff_false, not_exists]
      exact avoids value middle
  | error fault middle => simp

theorem undefined_manager_iff {op : Op} (reaches : Reaches calls s.database.manager)
    (calm : s.database.refusal = none) :
    Undefined (manager op) s ↔ ¬ ClientDataManager.Registered s.database.manager op := by
  constructor
  · rintro ⟨after, failed⟩ registered
    obtain ⟨reply, database, effect⟩ := reaches.returns registered calm
    rw [manager_effect effect] at failed
    cases failed
  · intro missing
    obtain ⟨after, failed⟩ := ClientDataManager.dereferences_of_missing missing
    exact ⟨_, manager_error failed⟩

theorem setName_undefined_iff (reaches : Reaches calls s.database.manager)
    (calm : s.database.refusal = none) :
    Undefined (setName lib packet) s ↔ s.database.manager.clientsData s.client.id = none := by
  obtain ⟨rest, popped, -⟩ := packet.buffer.popAll_spec
  have asked : setName lib packet s = (manager (.setName s.client.id packet.buffer.bytes) >>=
      fun res => if res.isAccepted then sendPacket lib { type := .ACK_OK }
        else sendPacket lib { type := .ACK_ERR }) s := by
    simp only [setName, popped, bind_of_ok (ofExcept_ok_run _ s), bind_of_ok (get_run s)]
  have answers (res : Reply) : Avoids .undefinedBehaviour (if res.isAccepted then
      sendPacket lib { type := .ACK_OK } else sendPacket lib { type := .ACK_ERR }) := by
    split <;> exact sendPacket_avoids lib _
  rw [Undefined, asked]
  exact (undefined_bind_iff answers).trans ((undefined_manager_iff reaches calm).trans
    (by rw [ClientDataManager.Registered, Option.not_isSome_iff_eq_none]))

theorem myLocation_undefined_iff (reaches : Reaches calls s.database.manager)
    (calm : s.database.refusal = none) (sixteen : packet.buffer.size = 16) :
    Undefined (myLocation turn packet) s ↔
      s.database.manager.clientsData s.client.id = none := by
  rw [Undefined, myLocation_run (by rw [← Buffer.size_eq, sixteen])]
  exact (undefined_bind_iff fun _ => .pure ()).trans ((undefined_manager_iff reaches calm).trans
    (by rw [located, ClientDataManager.Registered, Option.not_isSome_iff_eq_none]))

/-- Whoever has the name has a record, so that only the session's own can be missing. -/
theorem callNamed_undefined_iff {call : Int16 → Int16 → Op}
    (needs : ∀ m id other, ClientDataManager.Registered m (call id other) ↔
      (m.clientsData id).isSome ∧ (m.clientsData other).isSome)
    (reaches : Reaches calls s.database.manager) (calm : s.database.refusal = none) :
    Undefined (callNamed call packet) s ↔
      s.database.manager.clientsData s.client.id = none ∧
        0 < s.database.manager.nameId packet.buffer.bytes := by
  obtain ⟨rest, popped, -⟩ := packet.buffer.popAll_spec
  generalize found_eq : s.database.manager.nameId packet.buffer.bytes = found
  have looked : manager (.getNameId packet.buffer.bytes) s = .ok (.id found)
      (logged s [.called (.getNameId packet.buffer.bytes) (some (.id found))]) := by
    rw [← found_eq]
    exact manager_effect .getNameId
  by_cases positive : found > 0
  · have known : (s.database.manager.clientsData found).isSome := by
      apply reaches.named_known
      cases named : s.database.manager.clientsName packet.buffer.bytes with
      | none =>
          rw [ClientDataManager.nameId, named] at found_eq
          rw [← found_eq] at positive
          exact absurd positive (by decide)
      | some other =>
          rw [ClientDataManager.nameId, named] at found_eq
          exact congrArg some found_eq
    have asked : callNamed call packet s = (manager (call s.client.id found) >>= fun _ => pure ())
        (logged s [.called (.getNameId packet.buffer.bytes) (some (.id found))]) := by
      have above : (Reply.id found).toId > 0 := positive
      simp only [callNamed, popped, bind_of_ok (ofExcept_ok_run _ s), bind_of_ok looked,
        if_pos above, bind_of_ok (get_run _)]
      rfl
    have later : Reaches calls (logged s
        [.called (.getNameId packet.buffer.bytes) (some (.id found))]).database.manager := reaches
    rw [Undefined, asked]
    refine (undefined_bind_iff fun _ => .pure ()).trans
      ((undefined_manager_iff later calm).trans ?_)
    rw [needs]
    simp only [logged, known, and_true, positive, Option.not_isSome_iff_eq_none]
  · have asked : callNamed call packet s = .ok ()
        (logged s [.called (.getNameId packet.buffer.bytes) (some (.id found))]) := by
      have below : ¬ (Reply.id found).toId > 0 := positive
      simp only [callNamed, popped, bind_of_ok (ofExcept_ok_run _ s), bind_of_ok looked,
        if_neg below, pure_run]
    rw [Undefined, asked]
    constructor
    · rintro ⟨after, impossible⟩
      cases impossible
    · exact fun both => absurd both.2 positive

/-- A packet makes a session look for a record that it does not have. -/
theorem dispatch_undefined_iff (reaches : Reaches calls s.database.manager)
    (calm : s.database.refusal = none) :
    Undefined (dispatch lib turn packet) s ↔
      s.database.manager.clientsData s.client.id = none ∧
        NeedsRecord s.database.manager packet := by
  have harmless {call : SessionM Key Unit} (avoids : Avoids .undefinedBehaviour call)
      (needless : ¬ NeedsRecord s.database.manager packet) : Undefined call s ↔
      s.database.manager.clientsData s.client.id = none ∧
        NeedsRecord s.database.manager packet :=
    iff_of_false (not_undefined avoids) fun both => needless both.2
  have linked {call : Int16 → Int16 → Op} (kind : namedCall packet.type = some call)
      (needs : ∀ m id other, ClientDataManager.Registered m (call id other) ↔
        (m.clientsData id).isSome ∧ (m.clientsData other).isSome)
      (alone : ¬ packet.type = .SET_NAME ∧ ¬ packet.type = .MY_LOCATION) :
      Undefined (callNamed call packet) s ↔
      s.database.manager.clientsData s.client.id = none ∧
        NeedsRecord s.database.manager packet := by
    rw [callNamed_undefined_iff needs reaches calm]
    simp only [NeedsRecord, kind, Option.isSome_some, true_and, alone.1, alone.2, false_and,
      false_or]
  unfold dispatch
  cases kind : packet.type with
  | SET_NAME =>
      simp only [NeedsRecord, kind, true_or, and_true]
      exact setName_undefined_iff reaches calm
  | ADD_FOLLOWER => exact linked (by rw [kind]; rfl) (fun _ _ _ => .rfl) (by rw [kind]; decide)
  | REMOVE_FOLLOWER => exact linked (by rw [kind]; rfl) (fun _ _ _ => .rfl) (by rw [kind]; decide)
  | REMOVE_FOLLOWED => exact linked (by rw [kind]; rfl) (fun _ _ _ => .rfl) (by rw [kind]; decide)
  | MY_LOCATION =>
      by_cases sixteen : packet.buffer.size = 16
      · simp only [NeedsRecord, kind, sixteen, and_self, true_or, or_true, and_true]
        exact myLocation_undefined_iff reaches calm sixteen
      · rw [myLocation, if_pos sixteen]
        exact harmless (.modify _) (by simp [NeedsRecord, kind, sixteen, namedCall])
  | CLOSE => exact harmless (.modify _) (by simp [NeedsRecord, kind, namedCall])
  | _ => exact harmless (.pure ()) (by simp [NeedsRecord, kind, namedCall])

theorem undefined_catching_iff {body : SessionM Key Unit} :
    Undefined (catching body closeConnection) s ↔ Undefined body s := by
  simp only [Undefined, catching]
  cases body s with
  | ok value after => exact .rfl
  | error fault after =>
      cases fault with
      | exception what =>
          constructor <;>
          · rintro ⟨_, impossible⟩
            cases impossible
      | undefinedBehaviour | nonTermination => exact .rfl

theorem stableCommunication_undefined_iff (aes : s.client.cryptoModule.algorithm = .AES)
    (reaches : Reaches calls s.database.manager) (calm : s.database.refusal = none) :
    Undefined (stableCommunication lib turn) s ↔ s.database.manager.clientsData s.client.id = none ∧
      ∃ packet, aesPacket lib s.client.cryptoModule.aesKey (s.inbound.headD []) = .ok packet ∧
        NeedsRecord s.database.manager packet := by
  rw [stableCommunication_eq, undefined_catching_iff, Undefined, bind_run, recvPacket_aes aes]
  cases found : aesPacket lib s.client.cryptoModule.aesKey (s.inbound.headD []) with
  | error fault =>
      obtain ⟨what, rfl⟩ := aesPacket_error found
      simp
  | ok packet =>
      have later : Reaches calls (logged (taken s)
          [.received packet.type packet.buffer.bytes]).database.manager := reaches
      refine (dispatch_undefined_iff later calm).trans ?_
      simp only [Except.ok.injEq, exists_eq_left']
      rfl

/-- What `testKey` leaves to `stableCommunication`: a session without an id, or one with a
record. -/
theorem testKey_leaves (lib : CryptoLibrary Key) (keyed : HasKey s.client)
    (stage : s.client.stage = .TestKey) (reaches : Reaches calls s.database.manager)
    (calm : s.database.refusal = none) :
    ∃ after, testKey lib s = .ok () after ∧ after.inbound = s.inbound.tail ∧
      after.client.cryptoModule.algorithm = .AES ∧
      ((after.database = s.database ∧ after.client.id = s.client.id ∧
        after.client.cryptoModule.aesKey = s.client.cryptoModule.aesKey ∧
        ∀ payload, ¬ Tests lib s.client.cryptoModule.aesKey (s.inbound.headD []) payload) ∨
      (∃ payload, Tests lib s.client.cryptoModule.aesKey (s.inbound.headD []) payload) ∧
        (∃ later, Reaches later after.database.manager) ∧ after.database.refusal = none ∧
        (after.database.manager.clientsData after.client.id).isSome) := by
  obtain ⟨after, ran, inbound, aes, outcome⟩ := testKey_outcome lib s keyed
  have handles := testKey_handled lib s keyed (by rw [ran]; trivial)
  rw [ran] at handles
  refine ⟨after, ran, inbound, aes, ?_⟩
  rcases outcome with ⟨_, _, _, same, refused, _⟩ | ⟨payload, _, _, _, tests, passed⟩
  · rcases handles with ⟨_, handled⟩ | ⟨_, middle, _, keyed', opened⟩
    · have unmoved : s.database = after.database := Run.nil_iff.mp handled.run
      exact .inl ⟨unmoved.symm, same.id, same.aesKey, refused⟩
    · obtain ⟨number, database, _, opens⟩ := @openSession_returns _ lib middle keyed'
      have ended := opens.symm.trans opened
      cases ended
      exact absurd (same.stage.trans stage) (by simp)
  · rcases handles with ⟨_, handled⟩ | ⟨_, middle, handled, keyed', opened⟩
    · exact absurd (handled.stage.symm.trans passed.stage) (by rw [stage]; decide)
    · obtain ⟨number, database, enrolled, opens⟩ := @openSession_returns _ lib middle keyed'
      have ended := opens.symm.trans opened
      cases ended
      have unmoved : s.database = middle.database := Run.nil_iff.mp handled.run
      have reaches' : Reaches calls middle.database.manager := unmoved ▸ reaches
      have effect := ClientDataManager.step_iff_effect.mp enrolled
      have reaches'' := reaches'.snoc effect
      have still := (ClientDataManager.refusal_step effect).trans (unmoved ▸ calm)
      exact .inr ⟨⟨payload, tests⟩, ⟨_, reaches''⟩, still,
        reaches''.listed_known (Server.listed_registered effect)⟩

/-- A session that is refused goes on to serve its next frame, without a record of its own. -/
theorem receiveData_undefined_iff (sound : Sound s.client)
    (reaches : Reaches calls s.database.manager) (calm : s.database.refusal = none)
    (listed : s.client.Registered →
      (s.database.manager.clientsData s.client.id).isSome) :
    Undefined (receiveData lib turn) s ↔ s.client.stage = .TestKey ∧
      (∀ payload, ¬ Tests lib s.client.cryptoModule.aesKey (s.inbound.headD []) payload) ∧
      s.database.manager.clientsData s.client.id = none ∧
      ∃ packet, aesPacket lib s.client.cryptoModule.aesKey (s.inbound.tail.headD []) =
        .ok packet ∧ NeedsRecord s.database.manager packet := by
  rw [Undefined, receiveData, bind_of_ok (get_run s)]
  cases stage : s.client.stage with
  | SetPublicKey => exact iff_of_false (not_undefined (setPublicKey_avoids lib)) (by simp)
  | SetSymmetricKey => exact iff_of_false (not_undefined (setSymmetricKey_avoids lib)) (by simp)
  | TestKey =>
      have keyed : HasKey s.client := sound.initialized (by rw [stage]; decide)
      obtain ⟨after, ran, inbound, aes, ⟨database, id, key, refused⟩ |
        ⟨⟨payload, tests⟩, ⟨later, reaches'⟩, still, present⟩⟩ :=
        testKey_leaves lib keyed stage reaches calm
      · have reaches' : Reaches calls after.database.manager := database ▸ reaches
        simp only [bind_of_ok ran]
        have still : after.database.refusal = none := database ▸ calm
        refine (stableCommunication_undefined_iff aes reaches' still).trans ?_
        rw [database, id, key, inbound]
        exact ⟨fun both => ⟨trivial, refused, both⟩, fun all => all.2.2⟩
      · simp only [bind_of_ok ran]
        refine (stableCommunication_undefined_iff aes reaches' still).trans (iff_of_false ?_ ?_)
        · exact fun both => by simp [both.1] at present
        · exact fun all => all.2.1 payload tests
  | StableCommunication =>
      refine (stableCommunication_undefined_iff (sound.aes stage) reaches calm).trans
        (iff_of_false ?_ (by simp))
      exact fun both => absurd (listed stage) (by simp [both.1])
  | Exit =>
      refine iff_of_false ?_ (by simp)
      rintro ⟨after, impossible⟩
      cases impossible

end Undefined

section Runs

variable {history : List Event} {server : Server Key} {queue : QueueRef}
  {client : ProtocolClient Key} {turn : Turn}

theorem update_defined {past : List Server.Event} (consistent : Server.Consistent past server)
    (alive : server.sessions queue = some client) (message : turn.message = .Update) :
    ¬ Undefined (update lib turn) (attend server queue client turn) := by
  generalize attended : attend server queue client turn = s
  have same : s.client = client := by
    rw [← attended]
    rfl
  have shared : s.database = { server.database with
      posted := server.database.posted.erase queue } := by
    rw [← attended, attend, pops, if_pos message]
    rfl
  rw [Undefined, update_run]
  refine fun failed => ?_
  have asks := (undefined_bind_iff fun _ => sendRemainingData_avoids lib).mp failed
  obtain ⟨after, failed⟩ := asks
  by_cases registered : s.client.Registered
  · obtain ⟨names, positions, middle, database, named, placed⟩ :=
      Server.queries_return consistent alive (same ▸ registered)
        (server.database.posted.erase queue)
    rw [← shared, ← same] at named
    rw [← same] at placed
    rw [queueNews_run turn registered named placed] at failed
    cases failed
  · have elsewhere : ¬ s.client.stage = .StableCommunication := registered
    rw [queueNews, bind_of_ok (get_run s), if_neg elsewhere] at failed
    cases failed

/-- In a server that has served any messages at all, a message is the end if and only if it makes
a session that never registered look for its record. -/
theorem crashes_iff (run : Run (Step lib) {} history server)
    (alive : server.sessions queue = some client) :
    Undefined (recv lib turn) (attend server queue client turn) ↔
      turn.message = .PacketReceive ∧ client.stage = .TestKey ∧
      (∀ payload, ¬ Tests lib client.cryptoModule.aesKey (turn.inbound.headD []) payload) ∧
      server.database.manager.clientsData 0 = none ∧
      ∃ packet, aesPacket lib client.cryptoModule.aesKey (turn.inbound.tail.headD []) =
        .ok packet ∧ NeedsRecord server.database.manager packet := by
  obtain ⟨⟨events, mirrored, _⟩, sound⟩ := mirrored_sound run
  have consistent := Server.consistent_run mirrored
  unfold recv
  cases message : turn.message with
  | PacketReceive =>
      have shared : (attend server queue client turn).database = server.database :=
        attend_database (by rw [message]; decide)
      have reaches : Reaches (Server.callsOf events)
          (attend server queue client turn).database.manager := shared ▸ consistent.reached
      have listed : client.Registered →
          ((attend server queue client turn).database.manager.clientsData client.id).isSome := by
        intro registered
        obtain ⟨key, listed⟩ := consistent.listed queue client alive registered
        rw [shared]
        exact consistent.reached.listed_known listed
      have calm := shared.symm ▸ consistent.calm
      refine (receiveData_undefined_iff (sound queue client alive) reaches calm listed).trans ?_
      rw [shared]
      have number (tested : client.stage = .TestKey) : client.id = 0 :=
        (consistent.fresh queue client alive (by rw [Registered, tested]; decide)).1
      constructor
      · rintro ⟨tested, refused, absent, packet, found, needs⟩
        exact ⟨rfl, tested, refused, number tested ▸ absent, packet, found, needs⟩
      · rintro ⟨_, tested, refused, absent, packet, found, needs⟩
        exact ⟨tested, refused, (number tested).symm ▸ absent, packet, found, needs⟩
  | Update => exact iff_of_false (update_defined consistent alive message) (by simp)
  | PacketSend => exact iff_of_false (not_undefined (sendRemainingData_avoids lib)) (by simp)
  | Close => exact iff_of_false (not_undefined (.modify _)) (by simp)
  | _ => exact iff_of_false (not_undefined (.pure ())) (by simp)

/-- Two steps of the handshake, after which the client goes on without the test key. -/
def handshake : List (QueueRef × Turn) := [reads [[9, 5]] 0, reads [[10, 7]] 0]

theorem crashes_iff_untested : ∃ history server client,
    Run (Step transparent) {} history server ∧ server.sessions 0 = some client ∧
      Undefined (recv transparent (reads [[7, 4], [7, 17, 65]] 0).2)
        (attend server 0 client (reads [[7, 4], [7, 17, 65]] 0).2) := by
  have replays : (replay transparent handshake hosted).bind (fun result =>
      (result.2.sessions 0).map fun client => (client.stage,
        client.cryptoModule.aesKey, (result.2.database.manager.clientsData 0).isSome)) =
      some (.TestKey, [7], false) := by decide +kernel
  obtain ⟨⟨history, server⟩, replayed, found⟩ := Option.bind_eq_some_iff.mp replays
  obtain ⟨client, alive, holds⟩ := Option.map_eq_some_iff.mp found
  simp only [Prod.mk.injEq] at holds
  obtain ⟨tested, key, absent⟩ := holds
  have run : Run (Step transparent) {} (.accept 0 :: history) server :=
    .cons (.accept rfl) (replay_run replayed)
  refine ⟨_, server, client, run, alive, (crashes_iff run alive).mpr
    ⟨rfl, tested, ?_, Option.not_isSome_iff_eq_none.mp (by simp [absent]), ?_⟩⟩
  · rintro payload ⟨⟨packet, read, type, _⟩, _⟩
    have read : aesPacket transparent [7] [7, 4] = .ok packet := key ▸ read
    have alive : Packet.ofBytes [4] = .ok packet := read
    obtain ⟨other, parsed, kind, _⟩ := Packet.ofBytes_cons 4 []
    rw [parsed] at alive
    cases alive
    cases type.symm.trans kind
  · obtain ⟨packet, parsed, kind, _⟩ := Packet.ofBytes_cons 17 [65]
    have found : aesPacket transparent [7] [7, 17, 65] = .ok packet := parsed
    exact ⟨packet, key.symm ▸ found, .inl kind⟩

end Runs

end Service

end Locus
