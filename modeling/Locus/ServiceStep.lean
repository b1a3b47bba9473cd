import Locus.ServiceCommutes
import Locus.ServiceHandlers

set_option autoImplicit false

/- What the service of one message does to the manager, to the queues and to the session. The laws
about whole runs of the service are derived from this list. -/
namespace Locus.Service

open Program Transition ProtocolClient
open ClientDataManager (Op Reply)

variable {Key : Type}

/-- What a call by name leaves alone of a session. -/
structure Kept (before after : ProtocolClient Key) : Prop where
  blockingQueue : after.blockingQueue = before.blockingQueue
  id : after.id = before.id
  packets : after.remainingPackets = before.remainingPackets
  registered : after.Registered ↔ before.Registered

theorem Handled.kept {before after : Session Key} {log : List Act} {calls : List (Op × Reply)}
    (handled : Handled before after log calls) : Kept before.client after.client :=
  ⟨handled.blockingQueue, handled.id, handled.packets, by rw [Registered, handled.stage]; rfl⟩

/-- The result of each event on a server whose sessions are sound. -/
inductive Effect (lib : CryptoLibrary Key) (server : Server Key) : Event → Server Key → Prop
  | accept {queue : QueueRef} {after : Server Key}
      (step : Server.Step lib server (.create queue) after) :
      Effect lib server (.accept queue) after
  | listens {queue : QueueRef} {client after : ProtocolClient Key} {turn : Turn}
      {acts : List Act} {database : Database} (alive : server.sessions queue = some client)
      (message : turn.message ≠ .Update ∧ turn.message ≠ .PacketSend)
      (kept : Kept client after)
      (ran : Run ClientDataManager.Step server.database (acts.filterMap Act.call) database)
      (prompted : Prompted turn client.id acts (acts.filterMap Act.call)) :
      Effect lib server (.serve queue client.id turn acts)
        { database, sessions := server.sessions.modify queue fun _ => after }
  | joins {queue : QueueRef} {client before after : ProtocolClient Key} {turn : Turn}
      {number : Int16} {acts : List Act} {calls : List (Op × Reply)} {middle database : Database}
      (alive : server.sessions queue = some client) (receives : turn.message = .PacketReceive)
      (tested : before.stage = .TestKey) (shown : Kept client before) (keyed : HasKey before)
      (ran : ClientDataManager.run (.registerClient (keyOf lib before) queue) server.database =
        .ok (.id number) middle)
      (rest : Run ClientDataManager.Step middle calls database)
      (kept : Kept { before with stage := .StableCommunication, id := number } after)
      (made : acts.filterMap Act.call =
        (.registerClient (keyOf lib before) queue, .id number) :: calls)
      (prompted : Prompted turn number acts calls) :
      Effect lib server (.serve queue number turn acts)
        { database, sessions := server.sessions.modify queue fun _ => after }
  | tells {queue : QueueRef} {client : ProtocolClient Key} {turn : Turn}
      {packets : List Packet} {acts : List Act} {after : Server Key}
      (message : turn.message = .Update) (alive : server.sessions queue = some client)
      (step : Server.Step lib server (.update queue client.id turn packets acts) after) :
      Effect lib server (.serve queue client.id turn acts) after
  | forwards {queue : QueueRef} {client : ProtocolClient Key} {turn : Turn}
      {acts : List Act} {after : Server Key} (message : turn.message = .PacketSend)
      (alive : server.sessions queue = some client)
      (step : Server.Step lib server (.sendRemainingData queue client.id acts) after) :
      Effect lib server (.serve queue client.id turn acts) after
  | erase {queue : QueueRef} {acts : List Act} {after : Server Key}
      (step : Server.Step lib server (.destroy queue acts) after) :
      Effect lib server (.erase queue acts) after

section Effects

variable {lib : CryptoLibrary Key} {server : Server Key} {queue : QueueRef}
  {client : ProtocolClient Key} {turn : Turn}

/-- A session that is attended to in vain. -/
theorem effect_of_handled {result : Session Key} {log : List Act} {calls : List (Op × Reply)}
    (alive : server.sessions queue = some client)
    (message : turn.message ≠ .Update ∧ turn.message ≠ .PacketSend)
    (handled : Handled (attend server queue client turn) result log calls)
    (prompted : Prompted turn client.id log calls) :
    Effect lib server (.serve queue result.client.id turn result.acts)
      (server.leave queue result) := by
  have shared : (attend server queue client turn).database = server.database := by
    rw [attend, pops, if_neg message.1]
    rfl
  have made := handled.made
  have acts : result.acts = log := handled.acts
  have ran := handled.run
  rw [shared, ← made, ← acts] at ran
  rw [← made, ← acts] at prompted
  have same : result.client.id = client.id := handled.id
  rw [same]
  exact .listens alive message handled.kept ran prompted

theorem attend_database (message : turn.message ≠ .Update) :
    (attend server queue client turn).database = server.database := by
  rw [attend, pops, if_neg message]
  rfl

/-- A session that calls nobody. -/
theorem effect_of_aside {result : Session Key} (alive : server.sessions queue = some client)
    (message : turn.message ≠ .Update ∧ turn.message ≠ .PacketSend)
    (aside : Aside (attend server queue client turn) result)
    (silent : result.acts.filterMap Act.call = []) (sameId : result.client.id = client.id)
    (packets : result.client.remainingPackets = client.remainingPackets)
    (registered : result.client.Registered ↔ client.Registered) :
    Effect lib server (.serve queue result.client.id turn result.acts)
      (server.leave queue result) := by
  have ran : Run ClientDataManager.Step server.database (result.acts.filterMap Act.call)
      result.database := by
    rw [silent, aside.1, attend_database message.1]
    exact .nil
  rw [sameId]
  exact .listens alive message ⟨aside.2, sameId, packets, registered⟩ ran (.inl silent)

theorem calls_of_inputs {log closing : List Act} (inputs : ∀ entry ∈ log, isInput entry)
    (ending : closing = [] ∨ closing = [.closed]) :
    (log ++ closing).filterMap Act.call = [] := by
  apply List.filterMap_eq_nil_iff.mpr
  intro entry member
  rcases List.mem_append.mp member with early | late
  · have input := inputs entry early
    cases entry <;> first | rfl | cases input
  · rcases ending with rfl | rfl
    · cases late
    · rw [List.mem_singleton.mp late]
      rfl

theorem effect_of_listened {result : Session Key} (alive : server.sessions queue = some client)
    (message : turn.message ≠ .Update ∧ turn.message ≠ .PacketSend)
    (aside : Aside (attend server queue client turn) result)
    (listened : Listened (attend server queue client turn) result) :
    Effect lib server (.serve queue result.client.id turn result.acts)
      (server.leave queue result) := by
  obtain ⟨log, closing, inputs, ending, acts, same⟩ := listened
  refine effect_of_aside alive message aside ?_ same.id same.remainingPackets ?_
  · have all : result.acts = log ++ closing := acts
    rw [all]
    exact calls_of_inputs inputs ending
  · rw [Registered, same.stage]
    rfl

/-- A stage of the handshake is passed that is not the last one. -/
theorem effect_of_passed {result : Session Key} {log : List Act} {stage : Stage}
    (alive : server.sessions queue = some client)
    (message : turn.message ≠ .Update ∧ turn.message ≠ .PacketSend)
    (aside : Aside (attend server queue client turn) result)
    (passed : Passed (attend server queue client turn) result log stage)
    (silent : log.filterMap Act.call = []) (early : stage ≠ .StableCommunication)
    (unregistered : ¬ client.Registered) :
    Effect lib server (.serve queue result.client.id turn result.acts)
      (server.leave queue result) := by
  refine effect_of_aside alive message aside ?_ passed.id passed.remainingPackets ?_
  · rw [passed.acts]
    exact silent
  · refine iff_of_false ?_ unregistered
    rw [Registered, passed.stage]
    exact early

theorem Prompted.mono {id : Int16} {acts more : List Act} {calls : List (Op × Reply)}
    (prompted : Prompted turn id acts calls) (inside : acts ⊆ more) :
    Prompted turn id more calls := by
  rcases prompted with nothing | ⟨type, payload, received, asks⟩
  · exact .inl nothing
  · exact .inr ⟨type, payload, inside received, asks⟩

/-- The second frame of a message that finds the session in `TestKey`. -/
theorem effect_of_tested {middle : Session Key} {log : List Act}
    (alive : server.sessions queue = some client)
    (message : turn.message ≠ .Update ∧ turn.message ≠ .PacketSend)
    (refused : Handled (attend server queue client turn) middle log [])
    (calm : server.database.refusal = none)
    (goesOn : Server.GoesOn (stableCommunication lib turn middle)) :
    Effect lib server
      (.serve queue (finalState (stableCommunication lib turn middle)).client.id turn
        (finalState (stableCommunication lib turn middle)).acts)
      (server.leave queue (finalState (stableCommunication lib turn middle))) := by
  have shared : middle.database = server.database :=
    (Run.nil_iff.mp refused.run).symm.trans (attend_database message.1)
  obtain ⟨more, calls, handled, prompted⟩ :=
    stableCommunication_handled goesOn (shared.symm ▸ calm)
  have same : middle.client.id = client.id := refused.id
  rw [same] at prompted
  exact effect_of_handled alive message (refused.trans handled)
    (prompted.mono (List.subset_append_right log more))

theorem effect_of_opened {middle opened : Session Key} {log : List Act}
    (alive : server.sessions queue = some client) (receives : turn.message = .PacketReceive)
    (address : client.blockingQueue = queue) (tested : client.stage = .TestKey)
    (shown : Handled (attend server queue client turn) middle log []) (keyed : HasKey middle.client)
    (ran : openSession lib middle = .ok () opened) (calm : server.database.refusal = none)
    (goesOn : Server.GoesOn (stableCommunication lib turn opened)) :
    Effect lib server
      (.serve queue (finalState (stableCommunication lib turn opened)).client.id turn
        (finalState (stableCommunication lib turn opened)).acts)
      (server.leave queue (finalState (stableCommunication lib turn opened))) := by
  have same : middle.database = server.database :=
    (Run.nil_iff.mp shown.run).symm.trans (attend_database (by rw [receives]; decide))
  have bound : middle.client.blockingQueue = queue := shown.blockingQueue.trans address
  obtain ⟨number, database, called, returned⟩ := @openSession_returns _ lib middle keyed
  rw [returned] at ran
  cases ran
  rw [same, bound] at called
  have still := (ClientDataManager.refusal_step (ClientDataManager.step_iff_effect.mp called)).trans
    calm
  obtain ⟨more, calls, handled, prompted⟩ := stableCommunication_handled goesOn still
  generalize finalState (stableCommunication lib turn _) = after at handled ⊢
  have number_eq : after.client.id = number := handled.id
  have acts : after.acts = log ++ [.stage .StableCommunication,
      .called (.registerClient (keyOf lib middle.client) queue) (some (.id number))] ++ more := by
    rw [handled.acts, registered, logged, shown.acts, bound]
    rfl
  rw [number_eq]
  refine .joins alive receives (shown.stage.trans tested) shown.kept keyed called handled.run
    handled.kept ?_ ?_
  · rw [acts, List.filterMap_append, List.filterMap_append, shown.made, handled.made]
    rfl
  · rw [acts]
    exact prompted.mono (List.subset_append_right _ more)

theorem receiveData_effect (alive : server.sessions queue = some client)
    (receives : turn.message = .PacketReceive) (address : client.blockingQueue = queue)
    (sound : Sound client) (calm : server.database.refusal = none)
    (goesOn : Server.GoesOn (receiveData lib turn (attend server queue client turn))) :
    Effect lib server
      (.serve queue (finalState (receiveData lib turn
        (attend server queue client turn))).client.id turn
        (finalState (receiveData lib turn (attend server queue client turn))).acts)
      (server.leave queue
        (finalState (receiveData lib turn (attend server queue client turn)))) := by
  have message : turn.message ≠ .Update ∧ turn.message ≠ .PacketSend := by
    rw [receives]
    decide
  have inside : (attend server queue client turn).client = client := rfl
  revert goesOn
  rw [receiveData, bind_of_ok (get_run _), inside]
  cases stage : client.stage with
  | SetPublicKey =>
      intro _
      have aside := setPublicKey_aside lib (attend server queue client turn)
      rcases setPublicKey_outcome lib (attend server queue client turn) with
        listened | ⟨key, frame, passed, _⟩
      · exact effect_of_listened alive message aside listened
      · refine effect_of_passed alive message aside passed rfl (by decide) ?_
        rw [Registered, stage]
        decide
  | SetSymmetricKey =>
      intro _
      have aside := setSymmetricKey_aside lib (attend server queue client turn)
      have ready := sound.initialized (by rw [stage]; decide)
      rcases setSymmetricKey_outcome lib (attend server queue client turn) ready with
        listened | ⟨_, frame, passed⟩
      · exact effect_of_listened alive message aside listened
      · refine effect_of_passed alive message aside passed rfl (by decide) ?_
        rw [Registered, stage]
        decide
  | TestKey =>
      have ready := sound.initialized (by rw [stage]; decide)
      obtain ⟨middle, returned, -⟩ :=
        testKey_outcome lib (attend server queue client turn) ready
      have handled := testKey_handled lib (attend server queue client turn) ready
        (by rw [returned]; trivial)
      dsimp only
      rw [bind_of_ok returned]
      rw [returned, finalState] at handled
      intro goesOn
      rcases handled with ⟨log, refused⟩ | ⟨log, before, shown, keyed, opened⟩
      · exact effect_of_tested alive message refused calm goesOn
      · exact effect_of_opened alive receives address stage shown keyed opened calm goesOn
  | StableCommunication =>
      intro goesOn
      have attended := @attend_database _ server queue client turn message.1
      obtain ⟨log, calls, handled, prompted⟩ :=
        stableCommunication_handled goesOn (attended.symm ▸ calm)
      exact effect_of_handled alive message handled prompted
  | Exit =>
      intro _
      exact effect_of_handled alive message (.refl _) (.inl rfl)

theorem attend_other (message : turn.message ≠ .Update) : attend server queue client turn =
    shifted [] (fun _ => turn.inbound) (server.enter client) := by
  rw [attend, pops, if_neg message]
  rfl

theorem attend_update (message : turn.message = .Update) : attend server queue client turn =
    shifted [] (fun _ => turn.inbound) ((server.popUpdate queue).enter client) := by
  rw [attend, pops, if_pos message]
  rfl

/-- `update()` queues packets for the client that it keeps. -/
theorem update_queues (lib : CryptoLibrary Key) (turn : Turn) {past : List Server.Event}
    (consistent : Server.Consistent past server)
    (alive : server.sessions queue = some client) :
    (∃ packets, (finalState (queueNews turn
      ((server.popUpdate queue).enter client))).client.remainingPackets =
        client.remainingPackets ++ packets) ∧
    (finalState (update lib turn ((server.popUpdate queue).enter client))).client.id =
      client.id := by
  generalize entered : (server.popUpdate queue).enter client = s
  have inside : s.client = client := by rw [← entered]; rfl
  rw [update_run]
  by_cases registered : client.Registered
  · obtain ⟨names, positions, middle, database, named, placed⟩ :=
      Server.queries_return consistent alive registered (server.database.posted.erase queue)
    have news := queueNews_run turn (s := s) (inside ▸ registered)
      (by rw [← entered]; exact named) (by rw [inside]; exact placed)
    rw [bind_of_ok news, news]
    obtain ⟨handed, forwarded⟩ := sendRemainingData_forwarded lib (extended
      (extended s (.getNewNames s.client.id) (.names names) middle
        (names.map (followedPacket turn)))
      (.getNewPositions s.client.id) (.positions positions) database
      (positions.map locationPacket))
    refine ⟨⟨names.map (followedPacket turn) ++ positions.map locationPacket, ?_⟩, ?_⟩
    · simp only [finalState, extended, inside, List.append_assoc]
    · rw [forwarded.id, ← inside]
      rfl
  · have news := queueNews_unregistered turn (s := s) (inside ▸ registered)
    have nothing := (consistent.fresh queue client alive registered).2
    have sent := sendRemainingData_empty lib (s := s) (by rw [inside]; exact nothing)
    rw [bind_of_ok news, news, sent]
    exact ⟨⟨[], by rw [finalState, inside, List.append_nil]⟩, by rw [finalState, inside]⟩

theorem effect_of_step {past : List Server.Event} {event : Event} {after : Server Key}
    (consistent : Server.Consistent past server)
    (sound : ∀ queue client, server.sessions queue = some client → Sound client)
    (step : Step lib server event after) : Effect lib server event after := by
  cases step with
  | accept unused => exact .accept (.create unused)
  | @serve queue client turn result alive posted ran goesOn =>
      subst ran
      revert goesOn
      cases message : turn.message with
      | PacketReceive =>
          simp only [recv, message]
          exact receiveData_effect alive message (consistent.address queue client alive)
            (sound queue client alive) consistent.calm
      | PacketSend =>
          simp only [recv, message]
          rw [attend_other (by rw [message]; decide), sendRemainingData_commutes lib]
          intro goesOn
          have step : Server.Step lib server _ _ :=
            .sendRemainingData alive rfl (goesOn_onState.mp goesOn)
          obtain ⟨handed, forwarded⟩ := sendRemainingData_forwarded lib (server.enter client)
          rw [finalState_onState]
          simp only [shifted, List.nil_append]
          rw [forwarded.id]
          exact .forwards message alive step
      | Update =>
          simp only [recv, message]
          rw [attend_update message, update_commutes lib turn]
          intro goesOn
          obtain ⟨⟨packets, queued⟩, sameId⟩ := update_queues lib turn consistent alive
          have step : Server.Step lib server _ _ :=
            .update alive (posted message) rfl (goesOn_onState.mp goesOn) queued
          rw [finalState_onState]
          simp only [shifted, List.nil_append]
          rw [sameId]
          exact .tells message alive step
      | Close =>
          simp only [recv, message]
          intro _
          exact effect_of_handled alive (by rw [message]; decide)
            (handled_logged rfl _ client.cryptoModule) (.inl rfl)
      | _ =>
          simp only [recv, message]
          intro _
          exact effect_of_handled alive (by rw [message]; decide) (.refl _) (.inl rfl)
  | erase alive ran => exact .erase (.destroy alive ran)

end Effects

end Locus.Service
