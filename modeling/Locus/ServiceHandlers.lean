import Locus.Service

set_option autoImplicit false

/- What each handler of a session does when it comes back: the calls it makes are those of the
packet that it received, and the manager is as they leave it. -/
namespace Locus.Service

open Program Transition ProtocolClient
open ClientDataManager (Op Reply)

variable {Key : Type}

/-- A handler that leaves the id, the stage and the queued packets, and that does to the manager
what the calls in its log do. -/
structure Handled (before after : Session Key) (log : List Act) (calls : List (Op × Reply)) :
    Prop where
  acts : after.acts = before.acts ++ log
  made : log.filterMap Act.call = calls
  run : Run ClientDataManager.Step before.database calls after.database
  blockingQueue : after.client.blockingQueue = before.client.blockingQueue
  id : after.client.id = before.client.id
  stage : after.client.stage = before.client.stage
  packets : after.client.remainingPackets = before.client.remainingPackets

section Handlers

variable {lib : CryptoLibrary Key} {turn : Turn} {packet : Packet} {s after : Session Key}

theorem Handled.refl (s : Session Key) : Handled s s [] [] :=
  ⟨(List.append_nil _).symm, rfl, .nil, rfl, rfl, rfl, rfl⟩

theorem Handled.trans {first second third : Session Key} {log more : List Act}
    {calls rest : List (Op × Reply)} (left : Handled first second log calls)
    (right : Handled second third more rest) :
    Handled first third (log ++ more) (calls ++ rest) := by
  constructor
  · rw [right.acts, left.acts, List.append_assoc]
  · rw [List.filterMap_append, left.made, right.made]
  · exact Run.append_iff.mpr ⟨_, left.run, right.run⟩
  · exact right.blockingQueue.trans left.blockingQueue
  · exact right.id.trans left.id
  · exact right.stage.trans left.stage
  · exact right.packets.trans left.packets

theorem handled_logged {entry : Act} (silent : Act.call entry = none) (s : Session Key)
    (m : CryptoModule Key) : Handled s (logged (withModule s m) [entry]) [entry] [] := by
  refine ⟨rfl, ?_, .nil, rfl, rfl, rfl, rfl⟩
  rw [List.filterMap_cons, silent, List.filterMap_nil]

/-- An answer calls nobody, whether it is sent or not. -/
theorem sendPacket_handled (lib : CryptoLibrary Key) (packet : Packet) (s : Session Key) :
    ∃ log, Handled s (finalState (sendPacket lib packet s)) log [] := by
  obtain ⟨m, _, ⟨fault, failed⟩ | ⟨frame, _, sent⟩⟩ := sendPacket_spec lib packet s
  · rw [failed]
    exact ⟨[], (List.append_nil _).symm, rfl, .nil, rfl, rfl, rfl, rfl⟩
  · rw [sent]
    exact ⟨_, handled_logged rfl s m⟩

theorem manager_handled {op : Op} {reply : Reply} {database : Database}
    (ran : ClientDataManager.run op s.database = .ok reply database) :
    Handled s (logged { s with database } [.called op (some reply)])
      [.called op (some reply)] [(op, reply)] :=
  ⟨rfl, rfl, .cons ran .nil, rfl, rfl, rfl, rfl⟩

/-- A direct call of the manager that returns, or that is the end. -/
theorem manager_goesOn (op : Op) (direct : ClientDataManager.isDirect op) {s : Session Key}
    (calm : s.database.refusal = none) :
    (∃ reply database, ClientDataManager.run op s.database = .ok reply database ∧
      manager op s = .ok reply (logged { s with database } [.called op (some reply)])) ∨
    ∃ after, manager op s = .error .undefinedBehaviour after := by
  cases ran : ClientDataManager.run op s.database with
  | ok reply database => exact .inl ⟨reply, database, rfl, manager_ok ran⟩
  | error fault database =>
      have undefined := ClientDataManager.run_error_calm direct calm ran
      rw [undefined] at ran
      exact .inr ⟨_, manager_error ran⟩

theorem setName_handled (goesOn : Server.GoesOn (setName lib packet s))
    (calm : s.database.refusal = none) :
    ∃ log calls, Handled s (finalState (setName lib packet s)) log calls ∧
      Asks turn s.client.id .SET_NAME packet.buffer.bytes calls := by
  obtain ⟨rest, popped, -⟩ := packet.buffer.popAll_spec
  revert goesOn
  simp only [setName, popped, bind_of_ok (ofExcept_ok_run _ s), bind_of_ok (get_run s)]
  rcases manager_goesOn (.setName s.client.id packet.buffer.bytes) rfl calm with
    ⟨reply, database, ran, returned⟩ | ⟨after, failed⟩
  · intro _
    rw [bind_of_ok returned]
    split
    · obtain ⟨log, sends⟩ := sendPacket_handled lib { type := .ACK_OK } _
      exact ⟨_, _, (manager_handled ran).trans sends, .name⟩
    · obtain ⟨log, sends⟩ := sendPacket_handled lib { type := .ACK_ERR } _
      exact ⟨_, _, (manager_handled ran).trans sends, .name⟩
  · intro goesOn
    rw [bind_run, failed] at goesOn
    exact absurd goesOn id

/-- The name is looked up, and then the call is made for the client that has it. -/
theorem callNamed_handled {type : PacketType} {call : Int16 → Int16 → Op}
    (kind : namedCall type = some call)
    (direct : ∀ id other, ClientDataManager.isDirect (call id other))
    (goesOn : Server.GoesOn (callNamed call packet s)) (calm : s.database.refusal = none) :
    ∃ log calls, Handled s (finalState (callNamed call packet s)) log calls ∧
      Asks turn s.client.id type packet.buffer.bytes calls := by
  obtain ⟨rest, popped, -⟩ := packet.buffer.popAll_spec
  revert goesOn
  simp only [callNamed, popped, bind_of_ok (ofExcept_ok_run _ s)]
  rcases manager_goesOn (.getNameId packet.buffer.bytes) rfl calm with
    ⟨reply, database, ran, returned⟩ | ⟨after, failed⟩
  · have looked := manager_handled ran
    cases ClientDataManager.step_iff_effect.mp ran
    rw [bind_of_ok returned]
    split
    · rename_i known
      rw [bind_of_ok (get_run _)]
      rcases @manager_goesOn _ _ (direct _ _) (logged { s with database := s.database }
          [.called (.getNameId packet.buffer.bytes) _]) calm with
        ⟨answer, next, called, ended⟩ | ⟨after, failed⟩
      · intro _
        rw [bind_of_ok ended, pure_run]
        exact ⟨_, _, looked.trans (manager_handled called), .known kind⟩
      · intro goesOn
        rw [bind_run, failed] at goesOn
        exact absurd goesOn id
    · intro _
      exact ⟨_, _, looked, .unknown kind⟩
  · intro goesOn
    rw [bind_run, failed] at goesOn
    exact absurd goesOn id

theorem myLocation_handled (goesOn : Server.GoesOn (myLocation turn packet s))
    (calm : s.database.refusal = none) :
    ∃ log calls, Handled s (finalState (myLocation turn packet s)) log calls ∧
      Asks turn s.client.id .MY_LOCATION packet.buffer.bytes calls := by
  by_cases whole : packet.buffer.size = 16
  · have sixteen : packet.buffer.bytes.length = 16 := by rw [← Buffer.size_eq, whole]
    revert goesOn
    rw [myLocation_run sixteen]
    rcases manager_goesOn (located turn s.client.id packet.buffer.bytes) rfl calm with
      ⟨reply, database, ran, returned⟩ | ⟨after, failed⟩
    · intro _
      rw [bind_of_ok returned, pure_run]
      exact ⟨_, _, manager_handled ran, .place sixteen⟩
    · intro goesOn
      rw [bind_run, failed] at goesOn
      exact absurd goesOn id
  · rw [myLocation, if_pos whole]
    exact ⟨_, _, handled_logged rfl s s.client.cryptoModule, .nothing⟩

/-- A `try` block that goes on has a body that does. -/
theorem settle_handled {result : EStateM.Result Fault (Session Key) Unit}
    (goesOn : Server.GoesOn (settle closeConnection result)) :
    Server.GoesOn result ∧
      ∃ log, Handled (finalState result) (finalState (settle closeConnection result)) log [] := by
  cases result with
  | ok value after => exact ⟨trivial, [], .refl after⟩
  | error fault after =>
      cases fault with
      | exception what =>
          exact ⟨trivial, _, handled_logged rfl after after.client.cryptoModule⟩
      | undefinedBehaviour | nonTermination => exact absurd goesOn id

theorem taken_handled (s : Session Key) (m : CryptoModule Key) :
    Handled s (withModule (taken s) m) [.read (s.inbound.headD [])] [] :=
  ⟨rfl, rfl, .nil, rfl, rfl, rfl, rfl⟩

/-- What `stableCommunication` does with a packet. -/
def dispatch (lib : CryptoLibrary Key) (turn : Turn) (packet : Packet) : SessionM Key Unit :=
  match packet.type with
  | .CLOSE => closeConnection
  | .SET_NAME => setName lib packet
  | .ADD_FOLLOWER => addFollower packet
  | .REMOVE_FOLLOWER => removeFollower packet
  | .REMOVE_FOLLOWED => removeFollowed packet
  | .MY_LOCATION => myLocation turn packet
  | _ => pure ()

theorem stableCommunication_eq (lib : CryptoLibrary Key) (turn : Turn) :
    stableCommunication lib turn = catching (recvPacket lib >>= dispatch lib turn)
      closeConnection := rfl

theorem dispatch_handled (goesOn : Server.GoesOn (dispatch lib turn packet s))
    (calm : s.database.refusal = none) :
    ∃ log calls, Handled s (finalState (dispatch lib turn packet s)) log calls ∧
      Asks turn s.client.id packet.type packet.buffer.bytes calls := by
  revert goesOn
  unfold dispatch
  cases packet.type with
  | CLOSE => exact fun _ => ⟨_, _, handled_logged rfl s s.client.cryptoModule, .nothing⟩
  | SET_NAME => exact fun goesOn => setName_handled goesOn calm
  | ADD_FOLLOWER => exact fun goesOn => callNamed_handled rfl (fun _ _ => rfl) goesOn calm
  | REMOVE_FOLLOWER => exact fun goesOn => callNamed_handled rfl (fun _ _ => rfl) goesOn calm
  | REMOVE_FOLLOWED => exact fun goesOn => callNamed_handled rfl (fun _ _ => rfl) goesOn calm
  | MY_LOCATION => exact fun goesOn => myLocation_handled goesOn calm
  | _ => exact fun _ => ⟨_, _, .refl s, .nothing⟩

theorem stableCommunication_handled (goesOn : Server.GoesOn (stableCommunication lib turn s))
    (calm : s.database.refusal = none) :
    ∃ log calls, Handled s (finalState (stableCommunication lib turn s)) log calls ∧
      Prompted turn s.client.id log calls := by
  rw [stableCommunication_eq, catching] at goesOn ⊢
  obtain ⟨goesOn, closing, closes⟩ := settle_handled goesOn
  revert goesOn closes
  rw [bind_run]
  obtain ⟨m, _, ⟨fault, failed⟩ | ⟨packet, heard, _⟩⟩ := recvPacket_spec lib s
  · rw [failed]
    intro _ closes
    exact ⟨_, _, (taken_handled s m).trans closes, .inl rfl⟩
  · rw [heard]
    intro goesOn closes
    obtain ⟨log, calls, handled, asks⟩ := dispatch_handled goesOn calm
    have reads : Handled s (logged (withModule (taken s) m)
        [.received packet.type packet.buffer.bytes]) _ [] :=
      (taken_handled s m).trans (handled_logged rfl _ m)
    refine ⟨_, _, (reads.trans handled).trans closes, .inr ⟨packet.type, packet.buffer.bytes,
      by simp, ?_⟩⟩
    rw [List.append_nil]
    exact asks

/-- `setOuterRSAKey` has taken a key. -/
def HasKey (client : ProtocolClient Key) : Prop :=
  client.cryptoModule.rsaSimpleCrypto.publicKeyInitialized = true

/-- The key that the session is known by. -/
def keyOf (lib : CryptoLibrary Key) (client : ProtocolClient Key) : Bytes :=
  lib.save client.cryptoModule.rsaSimpleCrypto.publicKey

/-- The session after its registration. -/
def registered (lib : CryptoLibrary Key) (s : Session Key) (number : Int16)
    (database : Database) : Session Key :=
  logged { s with
      database
      client := { s.client with stage := .StableCommunication, id := number } }
    [.stage .StableCommunication,
      .called (.registerClient (keyOf lib s.client) s.client.blockingQueue) (some (.id number))]

theorem openSession_registered {number : Int16} {database : Database} (keyed : HasKey s.client)
    (ran : ClientDataManager.run (.registerClient (keyOf lib s.client) s.client.blockingQueue)
      s.database = .ok (.id number) database) :
    openSession lib s = .ok () (registered lib s number database) := by
  generalize staged_eq : logged
    { s with client := { s.client with stage := .StableCommunication } }
    [.stage .StableCommunication] = staged
  have key : crypto (CryptoModule.getOuterRSAKey lib) staged = .ok (keyOf lib s.client) staged := by
    rw [← staged_eq]
    exact zoom_ok (CryptoModule.getOuterRSAKey_initialized keyed)
  have called : manager (.registerClient (keyOf lib s.client) staged.client.blockingQueue)
      staged = .ok (.id number) (logged { staged with database } [.called
        (.registerClient (keyOf lib s.client) staged.client.blockingQueue)
        (some (.id number))]) := by
    rw [← staged_eq]
    exact manager_ok ran
  simp only [openSession, bind_run, setStage_run, selfRegister, staged_eq, key, get_run, called,
    edit_run]
  rw [← staged_eq]
  simp [registered, logged, Reply.toId]

theorem openSession_returns (keyed : HasKey s.client) : ∃ number database,
    ClientDataManager.run (.registerClient (keyOf lib s.client) s.client.blockingQueue)
      s.database = .ok (.id number) database ∧
    openSession lib s = .ok () (registered lib s number database) := by
  obtain ⟨number, database, ran⟩ :=
    registerClient_returns (keyOf lib s.client) s.client.blockingQueue s.database
  exact ⟨number, database, ran, openSession_registered keyed ran⟩

/-- The answer to the echo of the test key, and the registration. -/
theorem acceptKey_handled (keyed : HasKey s.client) :
    (∃ fault after, (sendPacket lib { type := .OPEN_PROT } >>= fun _ => openSession lib) s =
      .error fault after ∧ Handled s after [] []) ∨
    ∃ log middle after, (sendPacket lib { type := .OPEN_PROT } >>= fun _ => openSession lib) s =
      .ok () after ∧ Handled s middle log [] ∧ HasKey middle.client ∧
      openSession lib middle = .ok () after := by
  rw [bind_run]
  obtain ⟨m, drawn, ⟨fault, failed⟩ | ⟨frame, _, sent⟩⟩ :=
    sendPacket_spec lib { type := .OPEN_PROT } s
  · rw [failed]
    exact .inl ⟨fault, _, rfl, (List.append_nil _).symm, rfl, .nil, rfl, rfl, rfl, rfl⟩
  · rw [sent]
    have later : HasKey (withModule s m).client := drawn.kept.initialized keyed
    obtain ⟨number, database, _, opened⟩ := @openSession_returns _ lib (logged (withModule s m)
      [.sent .OPEN_PROT s.client.cryptoModule.algorithm [] frame]) later
    exact .inr ⟨_, _, _, opened, handled_logged rfl s m, later, opened⟩

/-- The first packet is the echo of the test key, and the session registers, or it is not. -/
theorem testKey_handled (lib : CryptoLibrary Key) (s : Session Key) (keyed : HasKey s.client)
    (goesOn : Server.GoesOn (testKey lib s)) :
    (∃ log, Handled s (finalState (testKey lib s)) log []) ∨
    ∃ log middle, Handled s middle log [] ∧ HasKey middle.client ∧
      openSession lib middle = .ok () (finalState (testKey lib s)) := by
  have switches : Handled s (switched s .AES) [] [] :=
    ⟨(List.append_nil _).symm, rfl, .nil, rfl, rfl, rfl, rfl⟩
  rw [testKey, catching] at goesOn ⊢
  obtain ⟨goesOn, closing, closes⟩ := settle_handled goesOn
  revert goesOn closes
  rw [bind_of_ok (use_run .AES s), bind_run]
  obtain ⟨m, drawn, ⟨fault, failed⟩ | ⟨packet, heard, _⟩⟩ := recvPacket_spec lib (switched s .AES)
  · rw [failed]
    intro _ closes
    exact .inl ⟨_, (switches.trans (taken_handled _ m)).trans closes⟩
  · rw [heard]
    have reads : Handled s (logged (withModule (taken (switched s .AES)) m)
        [.received packet.type packet.buffer.bytes]) _ [] :=
      (switches.trans (taken_handled _ m)).trans (handled_logged rfl _ m)
    have later : HasKey (withModule (taken (switched s .AES)) m).client :=
      drawn.kept.initialized keyed
    dsimp only
    split
    · rcases @acceptKey_handled _ lib (logged (withModule (taken (switched s .AES)) m)
          [.received packet.type packet.buffer.bytes]) later with
        ⟨fault, after, failed, answers⟩ | ⟨log, middle, after, returned, answers, still, opened⟩
      · intro _ closes
        rw [openSession] at failed
        rw [failed] at closes ⊢
        exact .inl ⟨_, (reads.trans answers).trans closes⟩
      · intro _ _
        rw [openSession] at returned
        rw [returned]
        exact .inr ⟨_, middle, reads.trans answers, still, opened⟩
    · intro _ closes
      exact .inl ⟨_, (reads.trans (handled_logged rfl _ m)).trans closes⟩

section Relations

variable {relation : Session Key → Session Key → Prop}

/-- What each call of the manager keeps, a call by name keeps. -/
theorem callNamed_keeps (refl : ∀ s, relation s s)
    (trans : ∀ {first second third}, relation first second → relation second third →
      relation first third)
    (managed : ∀ op, Keeps relation (manager op : SessionM Key Reply))
    (call : Int16 → Int16 → Op) (packet : Packet) :
    Keeps relation (callNamed call packet : SessionM Key Unit) := by
  refine .bind trans (.ofExcept refl _) fun popped => ?_
  refine .bind trans (managed _) fun found => ?_
  dsimp only
  split
  · refine .bind trans (.get refl) fun s => ?_
    exact .bind trans (managed _) fun _ => .pure refl _
  · exact .pure refl _

/-- What each call of the manager keeps, and the end of the session, `myLocation` keeps. -/
theorem myLocation_keeps (refl : ∀ s, relation s s)
    (trans : ∀ {first second third}, relation first second → relation second third →
      relation first third)
    (managed : ∀ op, Keeps relation (manager op : SessionM Key Reply))
    (closes : Keeps relation (closeConnection : SessionM Key Unit)) (turn : Turn)
    (packet : Packet) : Keeps relation (myLocation turn packet : SessionM Key Unit) := by
  unfold myLocation
  split
  · exact closes
  · refine .bind trans (.ofExcept refl _) fun latitude => ?_
    refine .bind trans (.ofExcept refl _) fun longitude => ?_
    refine .bind trans (.ofExcept refl _) fun deltaTime => ?_
    refine .bind trans (.get refl) fun s => ?_
    exact .bind trans (managed _) fun _ => .pure refl _

end Relations

/-- What the two first stages leave alone. -/
def Aside (before after : Session Key) : Prop :=
  after.database = before.database ∧ after.client.blockingQueue = before.client.blockingQueue

theorem Aside.refl (s : Session Key) : Aside s s := ⟨rfl, rfl⟩

theorem Aside.trans {first second third : Session Key} (left : Aside first second)
    (right : Aside second third) : Aside first third :=
  ⟨right.1.trans left.1, right.2.trans left.2⟩

theorem aside_of_quiet {α : Type} {call : SessionM Key α} (quiet : Keeps Server.Quiet call) :
    Keeps Aside call := quiet.mono fun _ _ kept => ⟨kept.database, kept.blockingQueue⟩

theorem setStage_aside (stage : Stage) : Keeps Aside (setStage stage : SessionM Key Unit) := by
  intro s
  exact ⟨rfl, rfl⟩

theorem setPublicKey_aside (lib : CryptoLibrary Key) : Keeps Aside (setPublicKey lib) := by
  have closes : Keeps Aside (closeConnection : SessionM Key Unit) :=
    aside_of_quiet Server.closeConnection_quiet
  refine catching_keeps .trans ?_ closes
  refine .bind .trans (aside_of_quiet (Server.use_quiet _)) fun _ => ?_
  refine .bind .trans (aside_of_quiet (Server.recvPacket_quiet lib)) fun packet => ?_
  split
  · refine .bind .trans (.ofExcept .refl _) fun popped => ?_
    refine .bind .trans (aside_of_quiet (Server.crypto_quiet
      (CryptoModule.setOuterRSAKey_keeps lib _))) fun _ => ?_
    refine .bind .trans (aside_of_quiet (Server.act_quiet _)) fun _ => ?_
    refine .bind .trans (aside_of_quiet (Server.use_quiet _)) fun _ => ?_
    refine .bind .trans (aside_of_quiet Server.getSymmetricKey_quiet) fun symmetricKey => ?_
    exact .bind .trans (aside_of_quiet (Server.sendPacket_quiet lib _)) fun _ =>
      setStage_aside _
  · exact closes

theorem setSymmetricKey_aside (lib : CryptoLibrary Key) : Keeps Aside (setSymmetricKey lib) := by
  have closes : Keeps Aside (closeConnection : SessionM Key Unit) :=
    aside_of_quiet Server.closeConnection_quiet
  refine catching_keeps .trans ?_ closes
  refine .bind .trans (aside_of_quiet (Server.use_quiet _)) fun _ => ?_
  refine .bind .trans (aside_of_quiet (Server.recvPacket_quiet lib)) fun packet => ?_
  split
  · refine .bind .trans (aside_of_quiet Server.getSymmetricKey_quiet) fun symmetricKey => ?_
    refine .bind .trans (.ofExcept .refl _) fun returned => ?_
    dsimp only
    split
    · exact closes
    · refine .bind .trans (aside_of_quiet (Server.use_quiet _)) fun _ => ?_
      exact .bind .trans (aside_of_quiet (Server.sendPacket_quiet lib _)) fun _ =>
        setStage_aside _
  · exact closes

end Handlers

end Locus.Service
