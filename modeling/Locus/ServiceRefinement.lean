import Locus.ServiceStep
import Locus.SessionsConvergence

set_option autoImplicit false

/- Whole handlers refine the events of the server: every run of the service is a run of those
events, with the same calls of the manager and the same packets sent. -/
namespace Locus.Service

open Program Transition ProtocolClient
open ClientDataManager (Op Reply)

variable {Key : Type}

/-- The calls of a handler as events of the server. -/
def asEvents (calls : List (Op × Reply)) : List Server.Event :=
  calls.map fun (op, reply) => .call op reply

/-- The events do what one event of the service does. -/
structure Unfolds (lib : CryptoLibrary Key) (server : Server Key) (event : Event)
    (events : List Server.Event) (after : Server Key) : Prop where
  run : Run (Server.Step lib) server events after
  calls : Server.callsOf events = event.calls
  handed : ∀ id, Server.handedTo events id = event.forwarded id

section Unfold

variable {lib : CryptoLibrary Key} {server after : Server Key} {queue : QueueRef}
  {client next : ProtocolClient Key} {turn : Turn} {acts : List Act}
  {calls : List (Op × Reply)} {database : Database}

theorem callsOf_asEvents (calls : List (Op × Reply)) :
    Server.callsOf (asEvents calls) = calls := by
  induction calls with
  | nil => rfl
  | cons call rest ih => exact congrArg (call :: ·) ih

theorem handedTo_asEvents (calls : List (Op × Reply)) (id : Int16) :
    Server.handedTo (asEvents calls) id = [] := by
  induction calls with
  | nil => rfl
  | cons call rest ih => exact ih

theorem callsOf_append (events later : List Server.Event) :
    Server.callsOf (events ++ later) = Server.callsOf events ++ Server.callsOf later :=
  List.flatMap_append

theorem handedTo_append (events later : List Server.Event) (id : Int16) :
    Server.handedTo (events ++ later) id =
      Server.handedTo events id ++ Server.handedTo later id := List.flatMap_append

/-- The calls that a packet asks for enrol nobody. -/
theorem Prompted.shared {id : Int16} (prompted : Prompted turn id acts calls) :
    ∀ call ∈ calls, Server.isEnrolment call.1 = false := by
  rcases prompted with rfl | ⟨type, payload, _, asks⟩
  · simp
  · cases asks with
    | nothing => simp
    | name | unknown | place => simp [Server.isEnrolment, located]
    | @known _ call _ _ _ kind =>
        cases type <;> cases kind <;> simp [Server.isEnrolment]

theorem asEvents_run {middle : Database}
    (shared : ∀ call ∈ calls, Server.isEnrolment call.1 = false)
    (ran : Run ClientDataManager.Step middle calls database) :
    Run (Server.Step lib) { server with database := middle } (asEvents calls)
      { server with database } := by
  induction ran with
  | nil => exact .nil
  | @snoc earlier before call after run last ih =>
      have first := ih fun other member => shared other (List.mem_append_left _ member)
      have own := shared call (by simp)
      rw [asEvents, List.map_append]
      exact first.snoc (.call own last)

/-- A session goes on with what calls it has made. -/
theorem run_of_kept (lib : CryptoLibrary Key) (server : Server Key) {client : ProtocolClient Key}
    (alive : server.sessions queue = some client) (kept : Kept client next)
    (shared : ∀ call ∈ calls, Server.isEnrolment call.1 = false)
    (ran : Run ClientDataManager.Step server.database calls database) :
    Run (Server.Step lib) server (asEvents calls ++ [.advance queue])
      { database, sessions := server.sessions.modify queue fun _ => next } := by
  have first : Run (Server.Step lib) server (asEvents calls) { server with database } :=
    asEvents_run shared ran
  exact first.snoc (.advance alive kept.blockingQueue kept.id kept.packets kept.registered)

/-- A session registers under its key. -/
theorem selfRegister_step (server : Server Key) {number : Int16}
    (alive : server.sessions queue = some client) (tested : client.stage = .TestKey)
    (keyed : HasKey client) (address : client.blockingQueue = queue)
    (ran : ClientDataManager.run (.registerClient (keyOf lib client) queue) server.database =
      .ok (.id number) database) :
    ∃ acts, acts.filterMap Act.call = [(.registerClient (keyOf lib client) queue, .id number)] ∧
      Server.Step lib server (.selfRegister queue acts)
        { database, sessions := server.sessions.modify queue fun _ =>
          { client with stage := .StableCommunication, id := number } } := by
  rw [← address] at ran
  have opened : openSession lib (server.enter client) =
      .ok () (registered lib (server.enter client) number database) :=
    openSession_registered keyed ran
  refine ⟨_, ?_, .selfRegister alive tested opened⟩
  rw [← address]
  rfl

theorem unfolds_of_listens (alive : server.sessions queue = some client)
    (message : turn.message ≠ .Update ∧ turn.message ≠ .PacketSend) (kept : Kept client next)
    (ran : Run ClientDataManager.Step server.database (acts.filterMap Act.call) database)
    (prompted : Prompted turn client.id acts (acts.filterMap Act.call)) :
    ∃ events, Unfolds lib server (.serve queue client.id turn acts) events
      { database, sessions := server.sessions.modify queue fun _ => next } := by
  refine ⟨_, run_of_kept lib server alive kept prompted.shared ran, ?_, fun id => ?_⟩
  · rw [callsOf_append, callsOf_asEvents]
    exact List.append_nil _
  · rw [handedTo_append, handedTo_asEvents, Event.forwarded, if_neg (by simp [message])]
    rfl

theorem unfolds_of_joins {before : ProtocolClient Key} {number : Int16} {middle : Database}
    (alive : server.sessions queue = some client) (address : client.blockingQueue = queue)
    (receives : turn.message = .PacketReceive) (tested : before.stage = .TestKey)
    (shown : Kept client before) (keyed : HasKey before)
    (ran : ClientDataManager.run (.registerClient (keyOf lib before) queue) server.database =
      .ok (.id number) middle)
    (rest : Run ClientDataManager.Step middle calls database)
    (kept : Kept { before with stage := .StableCommunication, id := number } next)
    (made : acts.filterMap Act.call =
      (.registerClient (keyOf lib before) queue, .id number) :: calls)
    (prompted : Prompted turn number acts calls) :
    ∃ events, Unfolds lib server (.serve queue number turn acts) events
      { database, sessions := server.sessions.modify queue fun _ => next } := by
  have shows : Server.Step lib server (.advance queue) { server with
      sessions := server.sessions.modify queue fun _ => before } :=
    .advance alive shown.blockingQueue shown.id shown.packets shown.registered
  obtain ⟨log, called, registers⟩ := selfRegister_step
    { server with sessions := server.sessions.modify queue fun _ => before }
    (KeyMap.modify_of_some _ alive) tested keyed (shown.blockingQueue.trans address) ran
  have there : (server.sessions.modify queue fun _ =>
      { before with stage := .StableCommunication, id := number }) queue =
      some { before with stage := .StableCommunication, id := number } :=
    KeyMap.modify_of_some _ alive
  have talks := run_of_kept lib
    { database := middle
      sessions := server.sessions.modify queue fun _ =>
        { before with stage := .StableCommunication, id := number } }
    there kept prompted.shared rest
  dsimp only at registers talks
  rw [KeyMap.modify_modify] at registers talks
  refine ⟨_, .cons shows (.cons registers talks), ?_, fun id => ?_⟩
  · have tail : Server.callsOf (asEvents calls ++ [.advance queue]) = calls := by
      rw [callsOf_append, callsOf_asEvents]
      exact List.append_nil _
    have head : Server.callsOf [.advance queue, .selfRegister queue log] =
        [(.registerClient (keyOf lib before) queue, .id number)] := by
      rw [← called]
      exact List.append_nil _
    rw [Event.calls, Event.acts, made]
    calc
      _ = Server.callsOf [.advance queue, .selfRegister queue log] ++
          Server.callsOf (asEvents calls ++ [.advance queue]) := callsOf_append _ _
      _ = _ := by
        rw [head, tail]
        rfl
  · have tail : Server.handedTo (asEvents calls ++ [.advance queue]) id = [] := by
      rw [handedTo_append, handedTo_asEvents]
      rfl
    rw [Event.forwarded, if_neg (by simp [receives]), ← tail]
    rfl

/-- One event of the service is a run of the server's events. -/
theorem unfolds_of_effect {past : List Server.Event} {event : Event}
    (consistent : Server.Consistent past server) (effect : Effect lib server event after) :
    ∃ events, Unfolds lib server event events after := by
  cases effect with
  | accept step => exact ⟨_, .cons step .nil, rfl, fun _ => rfl⟩
  | listens alive message kept ran prompted =>
      exact unfolds_of_listens alive message kept ran prompted
  | joins alive receives tested shown keyed ran rest kept made prompted =>
      exact unfolds_of_joins alive (consistent.address _ _ alive) receives tested shown keyed ran
        rest kept made prompted
  | tells message alive step =>
      refine ⟨_, .cons step .nil, List.append_nil _, fun id => ?_⟩
      rw [Event.forwarded]
      simp only [message, true_or, and_true]
      exact List.append_nil _
  | forwards message alive step =>
      refine ⟨_, .cons step .nil, List.append_nil _, fun id => ?_⟩
      rw [Event.forwarded]
      simp only [message, or_true, and_true]
      exact List.append_nil _
  | erase step => exact ⟨_, .cons step .nil, List.append_nil _, fun _ => rfl⟩

end Unfold

/-- All sessions are sound between two events. -/
def AllSound (server : Server Key) : Prop :=
  ∀ queue client, server.sessions queue = some client → Sound client

theorem allSound_step {lib : CryptoLibrary Key} {server after : Server Key} {event : Event}
    (sound : AllSound server) (step : Step lib server event after) : AllSound after := by
  cases step with
  | @accept queue rsaServerCrypto blank aesKey unused =>
      intro other client there
      rcases KeyMap.insert_eq_some unused there with ⟨_, rfl⟩ | ⟨_, earlier⟩
      · exact create_sound lib rsaServerCrypto blank aesKey queue
      · exact sound other client earlier
  | @serve queue client turn result alive posted ran goesOn =>
      intro other next there
      rcases KeyMap.modify_eq_some there with ⟨_, rfl⟩ | ⟨_, earlier⟩
      · subst ran
        have before : Sound (attend server queue client turn).client := sound queue client alive
        exact (recv_outcome lib turn before).sound before
      · exact sound other next earlier
  | erase alive ran =>
      intro other client there
      exact sound other client (KeyMap.erase_eq_some there).2

section Runs

variable {lib : CryptoLibrary Key} {history : List Event} {server : Server Key}

theorem callsOf_snoc (history : List Event) (event : Event) :
    callsOf (history ++ [event]) = callsOf history ++ event.calls := by
  simp only [callsOf, List.flatMap_append, List.flatMap_singleton]

theorem forwardedTo_snoc (history : List Event) (event : Event) (id : Int16) :
    forwardedTo (history ++ [event]) id = forwardedTo history id ++ event.forwarded id := by
  simp only [forwardedTo, List.flatMap_append, List.flatMap_singleton]

/-- A run of the server's events with the same calls and the same packets. -/
def Mirrored (lib : CryptoLibrary Key) (history : List Event) (server : Server Key) : Prop :=
  ∃ events, Run (Server.Step lib) {} events server ∧ Server.callsOf events = callsOf history ∧
    ∀ id, Server.handedTo events id = forwardedTo history id

theorem mirrored_step {event : Event} {after : Server Key}
    (mirrored : Mirrored lib history server) (effect : Effect lib server event after) :
    Mirrored lib (history ++ [event]) after := by
  obtain ⟨events, run, calls, handed⟩ := mirrored
  obtain ⟨later, unfolds⟩ := unfolds_of_effect (Server.consistent_run run) effect
  refine ⟨events ++ later, Run.append_iff.mpr ⟨_, run, unfolds.run⟩, ?_, fun id => ?_⟩
  · rw [callsOf_append, callsOf_snoc, calls, unfolds.calls]
  · rw [handedTo_append, forwardedTo_snoc, handed, unfolds.handed]

theorem mirrored_sound (run : Run (Step lib) {} history server) :
    Mirrored lib history server ∧ AllSound server := by
  apply run.history_invariant (fun history server => Mirrored lib history server ∧ AllSound server)
  · exact ⟨⟨[], .nil, rfl, fun _ => rfl⟩, by simp [AllSound]⟩
  · rintro history before event after _ ⟨mirrored, sound⟩ step
    obtain ⟨events, earlier, _⟩ := mirrored
    have effect := effect_of_step (Server.consistent_run earlier) sound step
    exact ⟨mirrored_step ⟨events, earlier, ‹_›⟩ effect, allSound_step sound step⟩

/-- Whatever the sessions receive, in whatever order they are served, the server goes through a run
of its events, with the same calls of the manager and the same packets for each client. -/
theorem service_refines (run : Run (Step lib) {} history server) :
    ∃ events, Run (Server.Step lib) {} events server ∧
      Server.callsOf events = callsOf history ∧
      ∀ id, Server.handedTo events id = forwardedTo history id :=
  (mirrored_sound run).1

end Runs

/-- A message for the session at the first queue. -/
def reads (frames : List Bytes) (now : Int) : QueueRef × Turn :=
  (0, { message := .PacketReceive, inbound := frames, now })

/-- A client signs in with a name, follows itself, says where it is and is told so. -/
def itinerary : List (QueueRef × Turn) :=
  [reads [[9, 5]] 0, reads [[10, 7]] 0, reads [[7, 11, 7], [7, 17, 65]] 0, reads [[7, 18, 65]] 0,
    reads [7 :: 22 :: List.replicate 16 0] 9, (0, { message := .Update }),
    (0, { message := .PacketSend })]

/-- The server after the connection was accepted. -/
def hosted : Server Unit := { sessions := KeyMap.empty.insert 0 newcomer.client }

/-- The two packets that the client is sent from its queue. -/
def told : List (PacketType × Bytes) :=
  [(.NEW_FOLLOWED, [1, 0, 65]),
    (.LOCATION, [1, 0] ++ List.replicate 8 0 ++ 9 :: List.replicate 7 0)]

theorem itinerary_run : ∃ history server, Run (Step transparent) {} history server ∧
    forwardedTo history 1 = told := by
  have replays : (replay transparent itinerary hosted).map (fun result =>
      forwardedTo result.1 1) = some told := by decide +kernel
  obtain ⟨⟨history, server⟩, replayed, sent⟩ := Option.map_eq_some_iff.mp replays
  exact ⟨.accept 0 :: history, server, .cons (.accept rfl) (replay_run replayed), sent⟩

theorem service_refines_itinerary : ∃ server events,
    Run (Server.Step transparent) {} events server ∧
    Server.handedTo events 1 = told := by
  obtain ⟨history, server, run, sent⟩ := itinerary_run
  obtain ⟨events, mirrored, _, handed⟩ := service_refines run
  exact ⟨server, events, mirrored, (handed 1).trans sent⟩

end Locus.Service
