import Locus.SessionsStep

set_option autoImplicit false

/- What a session does with a `PacketReceive` message, seen from the server: a run of the
events that a server is made of. -/
namespace Locus

open Program Transition

namespace Server

open ProtocolClient

variable {Key : Type}

/-- Faults after which `readEPoll` does not go on. -/
def Fatal (fault : Fault) : Prop := ∀ what, fault ≠ .exception what

theorem leave_leave (server : Server Key) (queue : QueueRef) (before after : Session Key) :
    (server.leave queue before).leave queue after = server.leave queue after := by
  simp only [leave, KeyMap.modify_modify]

/-- A handler that changes nothing but the cipher module and what was read and logged. -/
structure Quiet (before after : Session Key) : Prop where
  database : after.database = before.database
  blockingQueue : after.client.blockingQueue = before.client.blockingQueue
  id : after.client.id = before.client.id
  stage : after.client.stage = before.client.stage
  packets : after.client.remainingPackets = before.client.remainingPackets
  initialized : before.client.cryptoModule.rsaSimpleCrypto.publicKeyInitialized = true →
    after.client.cryptoModule.rsaSimpleCrypto.publicKeyInitialized = true

theorem Quiet.refl (s : Session Key) : Quiet s s :=
  ⟨rfl, rfl, rfl, rfl, rfl, fun ready => ready⟩

theorem Quiet.trans {first second third : Session Key} (left : Quiet first second)
    (right : Quiet second third) : Quiet first third :=
  ⟨right.database.trans left.database, right.blockingQueue.trans left.blockingQueue,
    right.id.trans left.id, right.stage.trans left.stage, right.packets.trans left.packets,
    right.initialized ∘ left.initialized⟩

theorem act_quiet (entry : Act) : Keeps Quiet (act entry : SessionM Key Unit) := by
  intro s
  exact ⟨rfl, rfl, rfl, rfl, rfl, fun ready => ready⟩

theorem crypto_quiet {α : Type} {call : CryptoM Key α} (keeps : Keeps CryptoModule.Kept call) :
    Keeps Quiet (crypto call) := by
  intro s
  obtain ⟨m, kept, ⟨value, _, ran⟩ | ⟨fault, ran⟩⟩ := crypto_spec keeps s
  · rw [KeepsAt, ran]
    exact ⟨rfl, rfl, rfl, rfl, rfl, kept.initialized⟩
  · rw [KeepsAt, ran]
    exact ⟨rfl, rfl, rfl, rfl, rfl, kept.initialized⟩

theorem use_quiet (algo : Algorithm) :
    Keeps Quiet (crypto (CryptoModule.use algo) : SessionM Key Unit) := by
  intro s
  exact ⟨rfl, rfl, rfl, rfl, rfl, fun ready => ready⟩

theorem getSymmetricKey_quiet :
    Keeps Quiet (crypto CryptoModule.getSymmetricKey : SessionM Key Bytes) := by
  intro s
  exact Quiet.refl s

theorem recvPacket_quiet (lib : CryptoLibrary Key) : Keeps Quiet (recvPacket lib) := by
  have takes : Keeps Quiet (takeFrame : SessionM Key Bytes) := by
    intro s
    exact ⟨rfl, rfl, rfl, rfl, rfl, fun ready => ready⟩
  refine .bind .trans (.bind .trans takes fun bytes =>
    crypto_quiet (CryptoModule.decrypt_keeps lib bytes)) fun bytes => ?_
  exact .bind .trans (.ofExcept .refl _) fun packet =>
    .bind .trans (act_quiet _) fun _ => .pure .refl _

theorem sendPacket_quiet (lib : CryptoLibrary Key) (packet : Packet) :
    Keeps Quiet (sendPacket lib packet) := by
  refine .bind .trans (.ofExcept .refl _) fun popped => ?_
  refine .bind .trans (crypto_quiet (CryptoModule.encrypt_keeps lib _)) fun frame => ?_
  exact .bind .trans (.get .refl) fun s => act_quiet _

theorem closeConnection_quiet : Keeps Quiet (closeConnection : SessionM Key Unit) :=
  act_quiet .closed

section Served

variable (lib : CryptoLibrary Key) (server : Server Key) (queue : QueueRef)

/-- From one state of a session to another there is a run of the server's events, and
the session has queued no packets and sent none of those in its queue. -/
structure Served (before after : Session Key) : Prop where
  run : ∃ events, Run (Step lib) (server.leave queue before) events (server.leave queue after)
  packets : after.client.remainingPackets = before.client.remainingPackets

/-- A handler that returns or throws an exception leads to a state that it serves. -/
def Serves {α : Type} (call : SessionM Key α) : Prop :=
  ∀ s, LeadsAt Fatal (Served lib server queue) s call

variable {lib server queue}

theorem Served.trans {first second third : Session Key}
    (left : Served lib server queue first second)
    (right : Served lib server queue second third) : Served lib server queue first third := by
  obtain ⟨events, run⟩ := left.run
  obtain ⟨later, rest⟩ := right.run
  exact ⟨⟨events ++ later, Run.append_iff.mpr ⟨_, run, rest⟩⟩, right.packets.trans left.packets⟩

theorem leave_alive (alive : (server.sessions queue).isSome) (s : Session Key) :
    (server.leave queue s).sessions queue = some s.client := by
  obtain ⟨client, there⟩ := Option.isSome_iff_exists.mp alive
  exact KeyMap.modify_of_some _ there

/-- A change of the session alone. -/
theorem served_of_advance (alive : (server.sessions queue).isSome) {before after : Session Key}
    (database : after.database = before.database)
    (sameQueue : after.client.blockingQueue = before.client.blockingQueue)
    (sameId : after.client.id = before.client.id)
    (packets : after.client.remainingPackets = before.client.remainingPackets)
    (registered : after.client.Registered ↔ before.client.Registered) :
    Served lib server queue before after := by
  have step : Step lib (server.leave queue before) (.advance queue) _ :=
    .advance (leave_alive alive before) sameQueue sameId packets registered
  have same : ({ server.leave queue before with
      sessions := (server.leave queue before).sessions.modify queue fun _ => after.client } :
      Server Key) = server.leave queue after := by
    simp only [leave, database, KeyMap.modify_modify]
  rw [same] at step
  exact ⟨⟨_, .cons step .nil⟩, packets⟩

theorem Quiet.served {before after : Session Key} (quiet : Quiet before after)
    (alive : (server.sessions queue).isSome) : Served lib server queue before after :=
  served_of_advance alive quiet.database quiet.blockingQueue quiet.id quiet.packets
    (by simp only [Registered, quiet.stage])

theorem serves_of_quiet {α : Type} {call : SessionM Key α} (quiet : Keeps Quiet call)
    (alive : (server.sessions queue).isSome) : Serves lib server queue call := by
  intro s
  exact KeepsAt.leadsAt ((quiet s).served alive)

theorem Serves.bind {α β : Type} {first : SessionM Key α} {next : α → SessionM Key β}
    (serves : Serves lib server queue first)
    (rest : ∀ value, Serves lib server queue (next value)) :
    Serves lib server queue (first >>= next) := by
  intro s
  exact .bind .trans (serves s) fun value middle _ => rest value middle

/-- `closeConnection` after an exception. -/
theorem catching_served {body : SessionM Key Unit} {s : Session Key}
    (alive : (server.sessions queue).isSome)
    (here : LeadsAt Fatal (Served lib server queue) s body) :
    LeadsAt Fatal (Served lib server queue) s (catching body closeConnection) := by
  unfold LeadsAt catching
  cases ran : body s with
  | ok value after =>
      have led := here.1 value after ran
      constructor
      · intro result final returned
        cases returned
        exact led
      · intro fault final impossible
        cases impossible
  | error fault after =>
      cases fault with
      | exception what =>
          have led := here.2 _ after ran (fun fatal => fatal what rfl)
          have closed : Served lib server queue after _ :=
            (closeConnection_quiet after).served alive
          constructor
          · intro result final returned
            cases returned
            exact led.trans closed
          · intro fault final impossible
            cases impossible
      | undefinedBehaviour | nonTermination =>
          constructor
          · intro result final impossible
            cases impossible
          · intro fault final failed mild
            cases failed
            exact absurd (fun what same => by cases same) mild

/-- A call of the manager is an event of its own. -/
theorem manager_serves {op : ClientDataManager.Op}
    (direct : ClientDataManager.isDirect op) : Serves lib server queue (manager op) := by
  intro s
  have shared : isEnrolment op = false := by
    cases op with
    | registerClient | unregister => cases direct
    | _ => rfl
  cases ran : ClientDataManager.run op s.database with
  | ok reply database =>
      have returned := manager_ok (s := s) ran
      refine ⟨?_, ?_⟩
      · intro value after returns
        rw [returned] at returns
        cases returns
        have step : Step lib (server.leave queue s) (.call op reply) _ := .call shared ran
        exact ⟨⟨_, .cons step .nil⟩, rfl⟩
      · intro fault after impossible
        rw [returned] at impossible
        cases impossible
  | error fault database =>
      have failed := manager_error (s := s) ran
      refine ⟨?_, ?_⟩
      · intro value after impossible
        rw [failed] at impossible
        cases impossible
      · intro other after fails mild
        rw [failed] at fails
        cases fails
        rcases ClientDataManager.run_error direct ran with rfl | ⟨rfl, whole, refused⟩
        · exact absurd (fun what same => by cases same) mild
        · obtain ⟨made, _, _, posted⟩ := refused.made
          have step := @Step.callThrows _ lib (server.leave queue s) op s.database.refusal made
            database direct ran posted
          have same : ({ database with refusal := s.database.refusal } : Database) = database := by
            rw [← refused.refusal]
          change Step lib _ _ { server.leave queue s with
            database := { database with refusal := s.database.refusal } } at step
          rw [same] at step
          exact ⟨⟨_, .cons step .nil⟩, rfl⟩

end Served

section Handlers

variable {lib : CryptoLibrary Key} {server : Server Key} {queue : QueueRef}

theorem callNamed_serves {call : Int16 → Int16 → ClientDataManager.Op}
    (alive : (server.sessions queue).isSome)
    (direct : ∀ id other, ClientDataManager.isDirect (call id other)) (packet : Packet) :
    Serves lib server queue (callNamed call packet) := by
  refine .bind (serves_of_quiet (.ofExcept .refl _) alive) fun popped => ?_
  refine .bind (manager_serves rfl) fun reply => ?_
  by_cases known : reply.toId > 0
  · simp only [if_pos known]
    refine .bind (serves_of_quiet (.get .refl) alive) fun s => ?_
    exact .bind (manager_serves (direct _ _)) fun _ =>
      serves_of_quiet (.pure .refl _) alive
  · simp only [if_neg known]
    exact serves_of_quiet (.pure .refl _) alive

theorem setName_serves (alive : (server.sessions queue).isSome) (packet : Packet) :
    Serves lib server queue (setName lib packet) := by
  refine .bind (serves_of_quiet (.ofExcept .refl _) alive) fun popped => ?_
  refine .bind (serves_of_quiet (.get .refl) alive) fun s => ?_
  refine .bind (manager_serves rfl) fun res => ?_
  split
  · exact serves_of_quiet (sendPacket_quiet lib _) alive
  · exact serves_of_quiet (sendPacket_quiet lib _) alive

theorem myLocation_serves (alive : (server.sessions queue).isSome) (turn : Turn)
    (packet : Packet) : Serves lib server queue (myLocation turn packet) := by
  unfold myLocation
  split
  · exact serves_of_quiet closeConnection_quiet alive
  · refine .bind (serves_of_quiet (.ofExcept .refl _) alive) fun _ => ?_
    refine .bind (serves_of_quiet (.ofExcept .refl _) alive) fun _ => ?_
    refine .bind (serves_of_quiet (.ofExcept .refl _) alive) fun _ => ?_
    refine .bind (serves_of_quiet (.get .refl) alive) fun s => ?_
    exact .bind (manager_serves rfl) fun _ => serves_of_quiet (.pure .refl _) alive

theorem stableCommunication_serves (alive : (server.sessions queue).isSome) (turn : Turn) :
    Serves lib server queue (stableCommunication lib turn) := by
  intro s
  refine catching_served alive (LeadsAt.bind .trans
    (serves_of_quiet (recvPacket_quiet lib) alive s) fun packet middle _ => ?_)
  cases packet.type with
  | CLOSE => exact serves_of_quiet closeConnection_quiet alive middle
  | SET_NAME => exact setName_serves alive packet middle
  | ADD_FOLLOWER => exact callNamed_serves alive (fun _ _ => rfl) packet middle
  | REMOVE_FOLLOWER => exact callNamed_serves alive (fun _ _ => rfl) packet middle
  | REMOVE_FOLLOWED => exact callNamed_serves alive (fun _ _ => rfl) packet middle
  | MY_LOCATION => exact myLocation_serves alive turn packet middle
  | _ => exact serves_of_quiet (.pure .refl _) alive middle

/-- A stage of the handshake that follows another one. -/
theorem setStage_served (alive : (server.sessions queue).isSome) {stage : Stage}
    {s : Session Key} (later : stage ≠ .StableCommunication)
    (earlier : s.client.stage ≠ .StableCommunication) :
    LeadsAt Fatal (Served lib server queue) s (setStage stage) := by
  refine KeepsAt.leadsAt (served_of_advance alive rfl rfl rfl rfl ?_)
  exact ⟨fun registered => absurd registered later, fun registered => absurd registered earlier⟩

/-- What follows a part that changes little. -/
theorem quiet_then {α β : Type} {first : SessionM Key α} {next : α → SessionM Key β}
    {s current : Session Key} (alive : (server.sessions queue).isSome) (far : Quiet s current)
    (quiet : Keeps Quiet first)
    (rest : ∀ value middle, Quiet s middle →
      LeadsAt Fatal (Served lib server queue) middle (next value)) :
    LeadsAt Fatal (Served lib server queue) current (first >>= next) := by
  refine .bind .trans (serves_of_quiet quiet alive current) fun value middle returned => ?_
  exact rest value middle (far.trans (quiet.of_ok returned))

theorem setPublicKey_served (alive : (server.sessions queue).isSome) {s : Session Key}
    (stage : s.client.stage = .SetPublicKey) :
    LeadsAt Fatal (Served lib server queue) s (setPublicKey lib) := by
  apply catching_served alive
  refine quiet_then alive (.refl s) (use_quiet _) fun _ s₁ far => ?_
  refine quiet_then alive far (recvPacket_quiet lib) fun packet s₂ far => ?_
  split
  · refine quiet_then alive far (.ofExcept .refl _) fun popped s₃ far => ?_
    refine quiet_then alive far (crypto_quiet (CryptoModule.setOuterRSAKey_keeps lib _))
      fun _ s₄ far => ?_
    refine quiet_then alive far (act_quiet _) fun _ s₅ far => ?_
    refine quiet_then alive far (use_quiet _) fun _ s₆ far => ?_
    refine quiet_then alive far getSymmetricKey_quiet
      fun symmetricKey s₇ far => ?_
    refine quiet_then alive far (sendPacket_quiet lib _) fun _ s₈ far => ?_
    apply setStage_served alive (by decide)
    rw [far.stage, stage]
    decide
  · exact serves_of_quiet closeConnection_quiet alive s₂

theorem setSymmetricKey_served (alive : (server.sessions queue).isSome) {s : Session Key}
    (stage : s.client.stage = .SetSymmetricKey) :
    LeadsAt Fatal (Served lib server queue) s (setSymmetricKey lib) := by
  apply catching_served alive
  refine quiet_then alive (.refl s) (use_quiet _) fun _ s₁ far => ?_
  refine quiet_then alive far (recvPacket_quiet lib) fun packet s₂ far => ?_
  split
  · refine quiet_then alive far getSymmetricKey_quiet
      fun symmetricKey s₃ far => ?_
    refine quiet_then alive far (.ofExcept .refl _) fun (returned, _) s₄ far => ?_
    dsimp only
    split
    · exact serves_of_quiet closeConnection_quiet alive s₄
    · refine quiet_then alive far (use_quiet _) fun _ s₅ far => ?_
      refine quiet_then alive far (sendPacket_quiet lib _) fun _ s₆ far => ?_
      refine setStage_served alive (by decide) ?_
      rw [far.stage, stage]
      decide
  · exact serves_of_quiet closeConnection_quiet alive s₂

/-- A session that has taken a key registers. -/
theorem openSession_run {s : Session Key} {number : Int16} {database : Database}
    (ready : s.client.cryptoModule.rsaSimpleCrypto.publicKeyInitialized = true)
    (registered : ClientDataManager.run (.registerClient
      (lib.save s.client.cryptoModule.rsaSimpleCrypto.publicKey) s.client.blockingQueue)
      s.database = .ok (.id number) database) :
    ∃ log, openSession lib s = .ok () (logged { s with
      database, client := { s.client with stage := .StableCommunication, id := number } } log) := by
  obtain ⟨staged, staged_eq⟩ : ∃ staged, staged = logged
    { s with client := { s.client with stage := .StableCommunication } }
    [.stage .StableCommunication] := ⟨_, rfl⟩
  have key : crypto (CryptoModule.getOuterRSAKey lib) staged =
      .ok (lib.save s.client.cryptoModule.rsaSimpleCrypto.publicKey) staged := by
    rw [staged_eq]
    exact zoom_ok (CryptoModule.getOuterRSAKey_initialized ready)
  have called : manager (.registerClient
      (lib.save s.client.cryptoModule.rsaSimpleCrypto.publicKey) staged.client.blockingQueue)
      staged = .ok (.id number) (logged { staged with database } [.called (.registerClient
        (lib.save s.client.cryptoModule.rsaSimpleCrypto.publicKey) staged.client.blockingQueue)
        (some (.id number))]) := by
    rw [staged_eq]
    exact manager_ok registered
  refine ⟨[.stage .StableCommunication, .called (.registerClient
    (lib.save s.client.cryptoModule.rsaSimpleCrypto.publicKey) s.client.blockingQueue)
    (some (.id number))], ?_⟩
  simp only [openSession, bind_run, setStage_run, selfRegister, ← staged_eq, key, get_run,
    called, edit_run]
  rw [staged_eq]
  simp [logged, ClientDataManager.Reply.toId]

/-- The registration is an event of its own, whatever the session has read and logged. -/
theorem openSession_served (alive : (server.sessions queue).isSome) {s : Session Key}
    (tested : s.client.stage = .TestKey)
    (ready : s.client.cryptoModule.rsaSimpleCrypto.publicKeyInitialized = true) :
    LeadsAt Fatal (Served lib server queue) s (openSession lib) := by
  obtain ⟨number, database, registered⟩ := registerClient_returns
    (lib.save s.client.cryptoModule.rsaSimpleCrypto.publicKey) s.client.blockingQueue s.database
  obtain ⟨log, ran⟩ := openSession_run ready registered
  obtain ⟨entered, ran_entered⟩ := openSession_run
    (s := (server.leave queue s).enter s.client) ready registered
  have step : Step lib (server.leave queue s) (.selfRegister queue _) _ :=
    .selfRegister (leave_alive alive s) tested ran_entered
  rw [leave_leave] at step
  constructor
  · intro value after returned
    rw [ran] at returned
    cases returned
    exact ⟨⟨_, .cons step .nil⟩, rfl⟩
  · intro fault after impossible
    rw [ran] at impossible
    cases impossible

theorem testKey_served (alive : (server.sessions queue).isSome) {s : Session Key}
    (tested : s.client.stage = .TestKey)
    (ready : s.client.cryptoModule.rsaSimpleCrypto.publicKeyInitialized = true) :
    LeadsAt Fatal (Served lib server queue) s (testKey lib) := by
  apply catching_served alive
  refine quiet_then alive (.refl s) (use_quiet _) fun _ s₁ far => ?_
  refine quiet_then alive far (recvPacket_quiet lib) fun packet s₂ far => ?_
  split
  · refine quiet_then alive far (sendPacket_quiet lib _) fun _ s₃ far => ?_
    exact openSession_served alive (far.stage.trans tested) (far.initialized ready)
  · exact serves_of_quiet closeConnection_quiet alive s₂

/-- What a `PacketReceive` message makes a session do is a run of the server's events. -/
theorem receiveData_served (alive : (server.sessions queue).isSome) (turn : Turn)
    {s : Session Key} (sound : Sound s.client) :
    LeadsAt Fatal (Served lib server queue) s (receiveData lib turn) := by
  apply LeadsAt.get_bind
  cases stage : s.client.stage with
  | SetPublicKey => exact setPublicKey_served alive stage
  | SetSymmetricKey => exact setSymmetricKey_served alive stage
  | TestKey =>
      have ready := sound.initialized (by rw [stage]; decide)
      refine .bind .trans (testKey_served alive stage ready) fun _ middle _ => ?_
      exact stableCommunication_serves alive turn middle
  | StableCommunication => exact stableCommunication_serves alive turn s
  | Exit => exact serves_of_quiet (.pure .refl _) alive s

/-- The server stays consistent through a run from a consistent one. -/
theorem Consistent.after_run {past events : List Event} {after : Server Key}
    (consistent : Consistent past server) (run : Run (Step lib) server events after) :
    Consistent (past ++ events) after := by
  induction run with
  | nil =>
      rw [List.append_nil]
      exact consistent
  | snoc earlier last ih =>
      rw [← List.append_assoc]
      exact consistent_step ih (effect_of_step ih last)

/-- A session that is entered and left at once. -/
theorem leave_entered {client : ProtocolClient Key} (alive : server.sessions queue = some client)
    {s : Session Key} (inside : s.client = client) (database : s.database = server.database) :
    server.leave queue s = server := by
  rw [leave, inside, database, KeyMap.modify_same alive]

/-- A handler of a `PacketReceive` message leaves a consistent server and a sound session, and
the packets in the queue of the session. -/
theorem receiveData_leaves {past : List Event} (consistent : Consistent past server)
    {client : ProtocolClient Key} (alive : server.sessions queue = some client)
    (sound : Sound client) {turn : Turn} (message : turn.message = .PacketReceive)
    {s : Session Key} (inside : s.client = client) (database : s.database = server.database)
    (goesOn : GoesOn (receiveData lib turn s)) :
    (∃ later, Consistent later (server.leave queue (finalState (receiveData lib turn s)))) ∧
      Sound (finalState (receiveData lib turn s)).client ∧
      (finalState (receiveData lib turn s)).client.remainingPackets =
        client.remainingPackets := by
  rw [← inside] at sound
  have present : (server.sessions queue).isSome := by rw [alive]; rfl
  have led : LeadsAt Fatal (Served lib server queue) s (receiveData lib turn) :=
    receiveData_served present turn sound
  have served : Served lib server queue s (finalState (receiveData lib turn s)) := by
    cases ran : receiveData lib turn s with
    | ok value after => exact led.1 value after ran
    | error fault after =>
        cases fault with
        | exception what => exact led.2 _ after ran (fun fatal => fatal what rfl)
        | undefinedBehaviour | nonTermination =>
            rw [ran] at goesOn
            exact absurd goesOn id
  obtain ⟨events, run⟩ := served.run
  rw [leave_entered alive inside database] at run
  refine ⟨⟨_, consistent.after_run run⟩, ?_, served.packets.trans (by rw [inside])⟩
  exact (receiveData_outcome lib turn sound message).sound sound

end Handlers

end Server

end Locus
