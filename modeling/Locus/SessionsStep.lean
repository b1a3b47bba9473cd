import Locus.ProtocolClientRun
import Locus.Sessions

set_option autoImplicit false

/- What each event does to the manager, to the queues and to the session it is about.
The laws about sessions are derived from this list. -/
namespace Locus

open Transition Program

namespace ClientDataManager

/-- A call that posts nothing does the same whatever has been posted. -/
theorem repost_quiet {before after : Database} {op : Op} {reply : Reply}
    (same : after.posted = before.posted)
    (free : ∀ posted, Effect { before with posted, refusal := none } op reply
      { after with posted, refusal := none }) :
    ∃ added, after.posted = before.posted ++ added ∧
      ∀ posted, Effect { before with posted, refusal := none } op reply
        { after with posted := posted ++ added, refusal := none } := by
  refine ⟨[], by rw [same, List.append_nil], fun posted => ?_⟩
  rw [List.append_nil]
  exact free posted

/-- What a call does does not depend on the posts of earlier calls, nor on a post that it does
not come to. -/
theorem effect_repost {before after : Database} {op : Op} {reply : Reply}
    (effect : Effect before op reply after) :
    ∃ added, after.posted = before.posted ++ added ∧
      ∀ posted, Effect { before with posted, refusal := none } op reply
        { after with posted := posted ++ added, refusal := none } := by
  cases effect with
  | addFollower hereData thereData =>
      exact ⟨_, rfl, fun _ => .addFollower hereData thereData (takes_of_calm rfl _)⟩
  | addPosition hereData =>
      exact ⟨_, rfl, fun _ => .addPosition hereData (takes_of_calm rfl _)⟩
  | setNameFree free hereData =>
      exact ⟨_, rfl, fun _ => .setNameFree free hereData (takes_of_calm rfl _)⟩
  | registerKnown known => exact repost_quiet rfl fun _ => .registerKnown known
  | registerFresh fresh => exact repost_quiet rfl fun _ => .registerFresh fresh
  | unregister => exact repost_quiet rfl fun _ => .unregister
  | removeFollower hereData thereData =>
      exact repost_quiet rfl fun _ => .removeFollower hereData thereData
  | stopFollowing hereData thereData =>
      exact repost_quiet rfl fun _ => .stopFollowing hereData thereData
  | getNewPositions hereData visited =>
      exact repost_quiet rfl fun _ => .getNewPositions hereData visited
  | getNameId => exact repost_quiet rfl fun _ => .getNameId
  | setNameTaken taken hereData => exact repost_quiet rfl fun _ => .setNameTaken taken hereData
  | getNewNames hereData visited =>
      exact repost_quiet rfl fun _ => .getNewNames hereData visited

/-- The calls lead from the empty manager to `m`, whatever was posted. -/
def Reaches (calls : List (Op × Reply)) (m : ClientDataManager) : Prop :=
  ∃ database, Run Step {} calls database ∧ database.manager = m

theorem Reaches.snoc {calls : List (Op × Reply)} {before after : Database} {op : Op}
    {reply : Reply} (reaches : Reaches calls before.manager)
    (effect : Effect before op reply after) :
    Reaches (calls ++ [(op, reply)]) after.manager := by
  obtain ⟨database, run, same⟩ := reaches
  obtain ⟨added, _, repost⟩ := effect_repost effect
  have last := repost database.posted
  rw [← same, ← refusal_run run] at last
  exact ⟨_, .snoc run (step_iff_effect.mpr last), rfl⟩

/-- A call with registered ids returns, whatever has been posted. -/
theorem Reaches.returns {calls : List (Op × Reply)} {database : Database} {op : Op}
    (reaches : Reaches calls database.manager) (registered : Registered database.manager op)
    (calm : database.refusal = none) :
    ∃ reply after, Effect database op reply after := by
  obtain ⟨reached, run, same⟩ := reaches
  rw [← same] at registered
  obtain ⟨reply, after, stepped⟩ := registered_returns run registered
  obtain ⟨added, _, repost⟩ := effect_repost (step_iff_effect.mp stepped)
  have effect := repost database.posted
  rw [same, ← calm] at effect
  exact ⟨reply, _, effect⟩

/-- An id that was given to a key has a record. -/
theorem listed_known_run {calls : List (Op × Reply)} {database : Database}
    (run : Run Step {} calls database) :
    ∀ key id, database.manager.clientsId key = some id →
      (database.manager.clientsData id).isSome := by
  refine run.invariant (fun database => ∀ key id, database.manager.clientsId key = some id →
    (database.manager.clientsData id).isSome) (by simp) ?_
  intro before call after held last key id stored
  have effect := step_iff_effect.mp last
  rcases register_step effect with ⟨_, ids, _⟩ | ⟨fresh, own, _, absent, _, ids, kept⟩
  · rw [ids] at stored
    exact known_step effect id (held key id stored)
  · rw [ids] at stored
    rcases KeyMap.insert_eq_some absent stored with ⟨_, rfl⟩ | ⟨_, earlier⟩
    · have present := kept before.manager.nextId
      rw [if_pos rfl] at present
      obtain ⟨data, found, _⟩ := keyAt_eq_some_iff.mp present
      simp only [found, Option.isSome_some]
    · exact known_step effect id (held key id earlier)

theorem Reaches.listed_known {calls : List (Op × Reply)} {m : ClientDataManager} {key : Bytes}
    {id : Int16} (reaches : Reaches calls m) (listed : m.clientsId key = some id) :
    (m.clientsData id).isSome := by
  obtain ⟨database, run, rfl⟩ := reaches
  exact listed_known_run run key id listed

end ClientDataManager

namespace ProtocolClient

variable {Key : Type}

/-- A handler that hands the first packets of the queue over and calls nobody. -/
structure Forwarded (handed : List Packet) (before after : Session Key) : Prop where
  queue : before.client.remainingPackets = handed ++ after.client.remainingPackets
  acts : ∃ log, after.acts = before.acts ++ log ∧
    log.filterMap Act.packet = handed.map Packet.content ∧ log.filterMap Act.call = []
  database : after.database = before.database
  blockingQueue : after.client.blockingQueue = before.client.blockingQueue
  id : after.client.id = before.client.id
  stage : after.client.stage = before.client.stage

theorem sendRemainingData_forwarded (lib : CryptoLibrary Key) (s : Session Key) :
    ∃ handed, Forwarded handed s (finalState (sendRemainingData lib s)) := by
  cases queue : s.client.remainingPackets with
  | nil =>
      rw [sendRemainingData_empty lib queue]
      exact ⟨[], rfl, ⟨[], (List.append_nil _).symm, rfl, rfl⟩, rfl, rfl, rfl, rfl⟩
  | cons packet rest =>
      obtain ⟨m, _, ⟨fault, failed⟩ | ⟨frame, _, sent⟩⟩ := sendPacket_spec lib packet s
      · -- a packet that was not sent stays at the front
        refine ⟨[], ?_⟩
        simp only [sendRemainingData, bind_run, get_run, queue, failed, finalState]
        exact ⟨rfl, ⟨[], (List.append_nil _).symm, rfl, rfl⟩, rfl, rfl, rfl, rfl⟩
      · refine ⟨[packet], ?_⟩
        simp only [sendRemainingData, bind_run, get_run, queue, sent, edit_run, finalState]
        refine ⟨?_, ⟨_, rfl, rfl, rfl⟩, rfl, rfl, rfl, rfl⟩
        simp only [queue, logged, withModule, List.tail_cons, List.singleton_append]

/-- The session after the first packet of its queue was sent. -/
def forwarded (s : Session Key) (packet : Packet) (rest : List Packet) (frame : Bytes) :
    Session Key :=
  { s with
    client := { s.client with remainingPackets := rest }
    acts := s.acts ++ [.sent packet.type .AES packet.buffer.bytes frame] }

theorem sendRemainingData_aes_ok {lib : CryptoLibrary Key} {s : Session Key} {packet : Packet}
    {rest : List Packet} {frame : Bytes} (aes : s.client.cryptoModule.algorithm = .AES)
    (queue : s.client.remainingPackets = packet :: rest)
    (encrypted : lib.aesEncrypt s.client.cryptoModule.aesKey
      (packet.type.toUInt8 :: packet.buffer.bytes) = .ok frame) :
    sendRemainingData lib s = .ok () (forwarded s packet rest frame) := by
  simp only [sendRemainingData, bind_run, get_run, queue, sendPacket_aes_ok aes encrypted,
    edit_run, logged, List.tail_cons]
  rfl

theorem manager_effect {s : Session Key} {op : ClientDataManager.Op}
    {reply : ClientDataManager.Reply} {database : Database}
    (effect : ClientDataManager.Effect s.database op reply database) :
    manager op s = .ok reply (logged { s with database } [.called op (some reply)]) :=
  manager_ok (ClientDataManager.step_iff_effect.mpr effect)

theorem destroy_run {s : Session Key} (positive : s.client.id > 0) :
    destroy s = .ok () (logged
      { s with database := { s.database with manager := { s.database.manager with
          clientsQueue := s.database.manager.clientsQueue.erase s.client.id } } }
      [.called (.unregister s.client.id) (some .none)]) := by
  simp only [destroy, bind_run, get_run, if_pos positive,
    manager_effect ClientDataManager.Effect.unregister, pure_run]

theorem destroy_returned {s after : Session Key} (ran : destroy s = .ok () after) :
    (s.client.id > 0 ∧
      ClientDataManager.Effect s.database (.unregister s.client.id) .none after.database ∧
      after.acts = s.acts ++ [.called (.unregister s.client.id) (some .none)]) ∨
    (¬ s.client.id > 0 ∧ after = s) := by
  by_cases positive : s.client.id > 0
  · rw [destroy_run positive] at ran
    cases ran
    exact .inl ⟨positive, .unregister, rfl⟩
  · simp only [destroy, bind_run, get_run, if_neg positive, pure_run] at ran
    cases ran
    exact .inr ⟨positive, rfl⟩

/-- What `openSession` leaves behind when it returns. -/
structure Opened (key : Bytes) (before after : Session Key) : Prop where
  effect : ClientDataManager.Effect before.database
    (.registerClient key before.client.blockingQueue) (.id after.client.id) after.database
  acts : after.acts = before.acts ++ [.stage .StableCommunication,
    .called (.registerClient key before.client.blockingQueue) (some (.id after.client.id))]
  stage : after.client.stage = .StableCommunication
  blockingQueue : after.client.blockingQueue = before.client.blockingQueue
  packets : after.client.remainingPackets = before.client.remainingPackets

theorem openSession_returned {lib : CryptoLibrary Key} {s after : Session Key}
    (ran : openSession lib s = .ok () after) : ∃ key, Opened key s after := by
  simp only [openSession, bind_run, setStage_run, selfRegister] at ran
  generalize staged : logged { s with client :=
    { s.client with stage := .StableCommunication } } [.stage .StableCommunication] = middle at ran
  cases ready : middle.client.cryptoModule.rsaSimpleCrypto.publicKeyInitialized with
  | false =>
      have failed : crypto (CryptoModule.getOuterRSAKey lib) middle =
          .error (.exception
            "Encryption key is not initialized for RSASimpleCrypto object.") middle := by
        apply zoom_error
        simp only [CryptoModule.getOuterRSAKey, bind_run, get_run, ready, ↓reduceIte, throw_run]
      rw [failed] at ran
      cases ran
  | true =>
      have key : crypto (CryptoModule.getOuterRSAKey lib) middle =
          .ok (lib.save middle.client.cryptoModule.rsaSimpleCrypto.publicKey) middle :=
        zoom_ok (CryptoModule.getOuterRSAKey_initialized ready)
      rw [key] at ran
      obtain ⟨number, database, registered⟩ := registerClient_returns
        (lib.save middle.client.cryptoModule.rsaSimpleCrypto.publicKey)
        middle.client.blockingQueue middle.database
      simp only [get_run, manager_ok registered, edit_run] at ran
      cases ran
      subst staged
      refine ⟨_, ClientDataManager.step_iff_effect.mp registered, ?_, rfl, rfl, rfl⟩
      simp [logged, ClientDataManager.Reply.toId]

/-- The session after one query and the packets made of its reply. -/
def extended (s : Session Key) (op : ClientDataManager.Op) (reply : ClientDataManager.Reply)
    (database : Database) (packets : List Packet) : Session Key :=
  { s with
    client := { s.client with remainingPackets := s.client.remainingPackets ++ packets }
    database
    acts := s.acts ++ [.called op (some reply)] }

theorem query_run {s : Session Key} {op : ClientDataManager.Op}
    {reply : ClientDataManager.Reply} {database : Database}
    (pack : ClientDataManager.Reply → List Packet)
    (effect : ClientDataManager.Effect s.database op reply database) :
    (do let found ← manager op; queuePackets (pack found)) s =
      .ok () (extended s op reply database (pack reply)) := by
  simp only [bind_run, manager_effect effect, queuePackets, edit_run]
  rfl

/-- `queueNews` of a registered session whose queries return. -/
theorem queueNews_run (turn : Turn) {s : Session Key} {names : List (Int16 × Bytes)}
    {positions : List (Int16 × Position)} {middle database : Database}
    (registered : s.client.Registered)
    (named : ClientDataManager.Effect s.database (.getNewNames s.client.id) (.names names) middle)
    (placed : ClientDataManager.Effect middle (.getNewPositions s.client.id)
      (.positions positions) database) :
    queueNews turn s = .ok () (extended
      (extended s (.getNewNames s.client.id) (.names names) middle
        (names.map (followedPacket turn)))
      (.getNewPositions s.client.id) (.positions positions) database
      (positions.map locationPacket)) := by
  have stable : s.client.stage = .StableCommunication := registered
  have first := query_run (fun reply => reply.toNames.map (followedPacket turn)) named
  have second := query_run (fun reply => reply.toPositions.map locationPacket) (s := extended s
    (.getNewNames s.client.id) (.names names) middle (names.map (followedPacket turn))) placed
  have unfolded : queueNews turn s = ((do
      let found ← manager (.getNewNames s.client.id)
      queuePackets (found.toNames.map (followedPacket turn))) >>= fun _ => do
        let client := (← get).client
        let found ← manager (.getNewPositions client.id)
        queuePackets (found.toPositions.map locationPacket)) s := by
    simp only [queueNews, bind_run, get_run, if_pos stable]
    cases manager (.getNewNames s.client.id) s with
    | error fault after => rfl
    | ok reply after => rfl
  rw [unfolded, bind_of_ok first]
  exact second

/-- `queueNews` of an unregistered session does nothing. -/
theorem queueNews_unregistered (turn : Turn) {s : Session Key}
    (unregistered : ¬ s.client.Registered) : queueNews turn s = .ok () s := by
  have elsewhere : ¬ s.client.stage = .StableCommunication := unregistered
  simp only [queueNews, bind_run, get_run, if_neg elsewhere, pure_run]

theorem update_run (lib : CryptoLibrary Key) (turn : Turn) (s : Session Key) :
    update lib turn s = (queueNews turn >>= fun _ => sendRemainingData lib) s := by
  by_cases stable : s.client.stage = .StableCommunication
  · simp only [update, queueNews, bind_run, get_run, if_pos stable]
    cases manager (.getNewNames s.client.id) s with
    | error fault after => rfl
    | ok reply after =>
        simp only [queuePackets, edit_run]
        cases manager _ _ with
        | error fault after => rfl
        | ok reply after => rfl
  · simp only [update, queueNews, bind_run, get_run, if_neg stable, pure_run]

end ProtocolClient

namespace Server

open ClientDataManager (Op Reply)

variable {Key : Type}

/-- What holds of the sessions between two events, whatever was registered. -/
structure Consistent (events : List Event) (server : Server Key) : Prop where
  reached : ClientDataManager.Reaches (callsOf events) server.database.manager
  address : ∀ queue client, server.sessions queue = some client → client.blockingQueue = queue
  fresh : ∀ queue client, server.sessions queue = some client → ¬ client.Registered →
    client.id = 0 ∧ client.remainingPackets = []
  listed : ∀ queue client, server.sessions queue = some client → client.Registered →
    ∃ key, server.database.manager.clientsId key = some client.id
  calm : server.database.refusal = none

/-- What two `update` queries and the packet that is then handed over do to a session. -/
structure Updated (turn : Turn) (names : List (Int16 × Bytes))
    (positions : List (Int16 × Position)) (handed : List Packet) (acts : List Act)
    (client after : ProtocolClient Key) : Prop where
  queue : client.remainingPackets ++
    (names.map (ProtocolClient.followedPacket turn) ++
      positions.map ProtocolClient.locationPacket) = handed ++ after.remainingPackets
  sent : acts.filterMap Act.packet = handed.map Packet.content
  calls : acts.filterMap Act.call = [(.getNewNames client.id, .names names),
    (.getNewPositions client.id, .positions positions)]
  id : after.id = client.id
  stage : after.stage = client.stage
  blockingQueue : after.blockingQueue = client.blockingQueue

/-- The names of an update are those that the first query returned. -/
theorem Updated.told {turn : Turn} {names : List (Int16 × Bytes)}
    {positions : List (Int16 × Position)} {handed : List Packet} {acts : List Act}
    {client after : ProtocolClient Key}
    (updated : Updated turn names positions handed acts client after) (queue : QueueRef)
    (id : Int16) (packets : List Packet) :
    (Event.update queue id turn packets acts).told id =
      names.map fun news => (news, ProtocolClient.followedPacket turn news) := by
  rw [Event.told, if_pos rfl, updated.calls]
  simp [Reply.toNames]

/-- The result of each event on a consistent server. -/
inductive Effect (server : Server Key) : Event → Server Key → Prop
  | create {queue : QueueRef} {client : ProtocolClient Key}
      (unused : server.sessions queue = none) (address : client.blockingQueue = queue)
      (stage : client.stage = .SetPublicKey) (id : client.id = 0)
      (packets : client.remainingPackets = []) :
      Effect server (.create queue)
        { server with sessions := server.sessions.insert queue client }
  | advance {queue : QueueRef} {client after : ProtocolClient Key}
      (alive : server.sessions queue = some client)
      (sameQueue : after.blockingQueue = client.blockingQueue) (sameId : after.id = client.id)
      (samePackets : after.remainingPackets = client.remainingPackets)
      (registered : after.Registered ↔ client.Registered) :
      Effect server (.advance queue)
        { server with sessions := server.sessions.modify queue fun _ => after }
  | selfRegister {queue : QueueRef} {client after : ProtocolClient Key} {key : Bytes}
      {database : Database} {acts : List Act} (alive : server.sessions queue = some client)
      (unregistered : ¬ client.Registered) (registered : after.Registered)
      (called : ClientDataManager.Effect server.database (.registerClient key queue)
        (.id after.id) database)
      (calls : acts.filterMap Act.call = [(.registerClient key queue, .id after.id)])
      (address : after.blockingQueue = queue) (packets : after.remainingPackets = []) :
      Effect server (.selfRegister queue acts)
        { database, sessions := server.sessions.modify queue fun _ => after }
  | update {queue : QueueRef} {client after : ProtocolClient Key} {turn : Turn}
      {names : List (Int16 × Bytes)} {positions : List (Int16 × Position)}
      {handed : List Packet} {middle database : Database} {acts : List Act}
      (alive : server.sessions queue = some client) (registered : client.Registered)
      (posted : queue ∈ server.database.posted)
      (named : ClientDataManager.Effect (server.popUpdate queue).database
        (.getNewNames client.id) (.names names) middle)
      (placed : ClientDataManager.Effect middle (.getNewPositions client.id)
        (.positions positions) database)
      (updated : Updated turn names positions handed acts client after) :
      Effect server (.update queue client.id turn
          (names.map (ProtocolClient.followedPacket turn) ++
            positions.map ProtocolClient.locationPacket) acts)
        { database, sessions := server.sessions.modify queue fun _ => after }
  | ignore {queue : QueueRef} {client : ProtocolClient Key} {turn : Turn}
      (alive : server.sessions queue = some client) (unregistered : ¬ client.Registered)
      (posted : queue ∈ server.database.posted) :
      Effect server (.update queue client.id turn [] [])
        { database := (server.popUpdate queue).database
          sessions := server.sessions.modify queue fun _ => client }
  | sendRemainingData {queue : QueueRef} {client after : ProtocolClient Key}
      {handed : List Packet} {acts : List Act} (alive : server.sessions queue = some client)
      (packets : client.remainingPackets = handed ++ after.remainingPackets)
      (sent : acts.filterMap Act.packet = handed.map Packet.content)
      (calls : acts.filterMap Act.call = [])
      (sameQueue : after.blockingQueue = client.blockingQueue) (sameId : after.id = client.id)
      (sameStage : after.stage = client.stage) :
      Effect server (.sendRemainingData queue client.id acts)
        { server with sessions := server.sessions.modify queue fun _ => after }
  | unregister {queue : QueueRef} {client : ProtocolClient Key} {database : Database}
      {acts : List Act} (alive : server.sessions queue = some client) (positive : 0 < client.id)
      (called : ClientDataManager.Effect server.database (.unregister client.id) .none database)
      (calls : acts.filterMap Act.call = [(.unregister client.id, .none)]) :
      Effect server (.destroy queue acts)
        { database := { database with posted := database.posted.filter (· ≠ queue) }
          sessions := server.sessions.erase queue }
  | vanish {queue : QueueRef} {client : ProtocolClient Key}
      (alive : server.sessions queue = some client) (unnumbered : ¬ 0 < client.id) :
      Effect server (.destroy queue [])
        { database := { server.database with
            posted := server.database.posted.filter (· ≠ queue) }
          sessions := server.sessions.erase queue }
  | call {op : Op} {reply : Reply} {database : Database} (shared : isEnrolment op = false)
      (called : ClientDataManager.Effect server.database op reply database) :
      Effect server (.call op reply) { server with database }
  | callThrows {op : Op} {made : List QueueRef} {database whole : Database}
      (posting : ClientDataManager.isPosting op)
      (called : ClientDataManager.Effect server.database op (ClientDataManager.answerOf op) whole)
      (manager : database.manager = whole.manager)
      (refusal : database.refusal = server.database.refusal)
      (posts : whole.posted = server.database.posted ++
        ClientDataManager.postsOf server.database.manager op)
      (some_of : made <+: ClientDataManager.postsOf server.database.manager op)
      (posted : database.posted = server.database.posted ++ made) :
      Effect server (.callThrows op made) { server with database }

/-- The queries of a registered session return. -/
theorem queries_return {events : List Event} {server : Server Key} {queue : QueueRef}
    {client : ProtocolClient Key} (consistent : Consistent events server)
    (alive : server.sessions queue = some client) (registered : client.Registered)
    (posted : List QueueRef) :
    ∃ names positions middle database,
      ClientDataManager.Effect { server.database with posted } (.getNewNames client.id)
        (.names names) middle ∧
      ClientDataManager.Effect middle (.getNewPositions client.id) (.positions positions)
        database := by
  obtain ⟨key, listed⟩ := consistent.listed queue client alive registered
  have known := consistent.reached.listed_known listed
  have reaches : ClientDataManager.Reaches (callsOf events)
    ({ server.database with posted } : Database).manager := consistent.reached
  have asked : ClientDataManager.Registered
    ({ server.database with posted } : Database).manager (.getNewNames client.id) := known
  obtain ⟨reply, middle, named⟩ := reaches.returns asked consistent.calm
  have later : (middle.manager.clientsData client.id).isSome :=
    ClientDataManager.known_step named client.id known
  have reaches' := reaches.snoc named
  have asked' : ClientDataManager.Registered middle.manager (.getNewPositions client.id) := later
  obtain ⟨reply', database, placed⟩ := reaches'.returns asked'
    ((ClientDataManager.refusal_step named).trans consistent.calm)
  cases named with
  | getNewNames hereData visited =>
      cases placed with
      | getNewPositions hereData' visited' =>
          exact ⟨_, _, _, _, .getNewNames hereData visited, .getNewPositions hereData' visited'⟩

theorem calls_snoc (events : List Event) (event : Event) :
    callsOf (events ++ [event]) = callsOf events ++ event.calls := by
  simp only [callsOf, List.flatMap_append, List.flatMap_singleton]

section Updates

open ProtocolClient

variable {events : List Event} {server : Server Key} {queue : QueueRef}
  {client : ProtocolClient Key}

theorem update_effect (lib : CryptoLibrary Key) {turn : Turn} {packets : List Packet}
    (consistent : Consistent events server) (alive : server.sessions queue = some client)
    (posted : queue ∈ server.database.posted)
    (queued : (finalState (queueNews turn
      ((server.popUpdate queue).enter client))).client.remainingPackets =
        client.remainingPackets ++ packets) :
    Effect server (.update queue client.id turn packets
        (finalState (update lib turn ((server.popUpdate queue).enter client))).acts)
      (server.leave queue
        (finalState (update lib turn ((server.popUpdate queue).enter client)))) := by
  obtain ⟨s, opened⟩ : ∃ s, s = (server.popUpdate queue).enter client := ⟨_, rfl⟩
  rw [← opened] at queued ⊢
  have inside : s.client = client := by rw [opened]; rfl
  by_cases registered : client.Registered
  · obtain ⟨names, positions, middle, database, named, placed⟩ :=
      queries_return consistent alive registered (server.database.posted.erase queue)
    have begun : s.database = { server.database with
        posted := server.database.posted.erase queue } := by rw [opened]; rfl
    have news := queueNews_run turn (s := s) (inside ▸ registered)
      (by rw [begun, inside]; exact named) (by rw [inside]; exact placed)
    obtain ⟨handed, forwarded⟩ := sendRemainingData_forwarded lib (extended
      (extended s (.getNewNames s.client.id) (.names names) middle
        (names.map (followedPacket turn)))
      (.getNewPositions s.client.id) (.positions positions) database
      (positions.map locationPacket))
    rw [news, finalState] at queued
    rw [update_run, bind_of_ok news]
    generalize finalState (sendRemainingData lib _) = after at forwarded ⊢
    have whole : packets = names.map (followedPacket turn) ++ positions.map locationPacket := by
      simpa only [extended, inside, List.append_assoc, List.append_cancel_left_eq]
        using queued.symm
    obtain ⟨log, acts, sent, silent⟩ := forwarded.acts
    have acts_eq : after.acts = .called (.getNewNames client.id) (some (.names names)) ::
        .called (.getNewPositions client.id) (some (.positions positions)) :: log := by
      rw [acts, ← inside, opened]
      rfl
    have left : server.leave queue after =
        { database
          sessions := server.sessions.modify queue fun _ => after.client } := by
      rw [leave, forwarded.database]
      rfl
    rw [whole, left]
    suffices updated : Updated turn names positions handed after.acts client after.client from
      .update alive registered posted named placed updated
    refine ⟨?_, ?_, ?_, ?_, ?_, ?_⟩
    · rw [← forwarded.queue, ← inside, ← List.append_assoc]
      rfl
    · rw [acts_eq, ← sent]
      rfl
    · rw [acts_eq]
      simp only [List.filterMap_cons, Act.call, silent]
    · rw [forwarded.id, ← inside]
      rfl
    · rw [forwarded.stage, ← inside]
      rfl
    · rw [forwarded.blockingQueue, ← inside]
      rfl
  · have nothing := (consistent.fresh queue client alive registered).2
    have news := queueNews_unregistered turn (s := s) (inside ▸ registered)
    have sent := sendRemainingData_empty lib (s := s) (by rw [inside]; exact nothing)
    rw [news, finalState, inside, nothing] at queued
    rw [update_run, bind_of_ok news, sent, finalState, opened]
    have empty : packets = [] := by simpa using queued.symm
    rw [empty]
    exact .ignore alive registered posted

end Updates

theorem effect_of_step {lib : CryptoLibrary Key} {events : List Event}
    {server after : Server Key} {event : Event} (consistent : Consistent events server)
    (step : Step lib server event after) : Effect server event after := by
  cases step with
  | create unused =>
      rw [ProtocolClient.create_eq]
      exact .create unused rfl rfl rfl rfl
  | advance alive sameQueue sameId samePackets registered =>
      exact .advance alive sameQueue sameId samePackets registered
  | @selfRegister queue client after alive tested ran =>
      obtain ⟨key, opened⟩ := ProtocolClient.openSession_returned ran
      have unregistered : ¬ client.Registered := by
        intro registered
        rw [ProtocolClient.Registered, tested] at registered
        cases registered
      have address := consistent.address queue client alive
      have effect := opened.effect
      have acts := opened.acts
      simp only [enter, address] at effect acts
      refine .selfRegister alive unregistered opened.stage effect ?_ ?_ ?_
      · rw [acts]
        rfl
      · rw [opened.blockingQueue]
        exact address
      · rw [opened.packets]
        exact (consistent.fresh queue client alive unregistered).2
  | update alive posted ran goesOn queued =>
      subst ran
      exact update_effect lib consistent alive posted queued
  | @sendRemainingData queue client result alive ran goesOn =>
      subst ran
      obtain ⟨handed, forwarded⟩ :=
        ProtocolClient.sendRemainingData_forwarded lib (server.enter client)
      obtain ⟨log, acts, sent, silent⟩ := forwarded.acts
      generalize finalState (ProtocolClient.sendRemainingData lib _) = after at *
      have logged : after.acts = log := acts
      have left : server.leave queue after =
          { server with sessions := server.sessions.modify queue fun _ => after.client } := by
        rw [leave, forwarded.database]
        rfl
      rw [left, logged]
      exact .sendRemainingData alive forwarded.queue sent silent forwarded.blockingQueue
        forwarded.id forwarded.stage
  | @destroy queue client after alive ran =>
      rcases ProtocolClient.destroy_returned ran with ⟨positive, effect, acts⟩ | ⟨zero, rfl⟩
      · refine .unregister alive positive effect ?_
        rw [acts]
        rfl
      · exact .vanish alive zero
  | call shared ran => exact .call shared (ClientDataManager.step_iff_effect.mp ran)
  | @callThrows op refusal made database direct ran posted =>
      rcases ClientDataManager.run_error direct ran with impossible | ⟨_, whole, refused⟩
      · cases impossible
      · have called := refused.effect
        rw [← consistent.calm] at called
        obtain ⟨front, left, split, grown⟩ := refused.made
        have same : front = made := List.append_cancel_left (grown.symm.trans posted)
        exact .callThrows refused.posting called refused.manager rfl refused.posts
          ⟨left, by rw [split, same]⟩ posted

/-- A key that has an id keeps it. -/
theorem listed_step {before after : Database} {op : Op} {reply : Reply} {key : Bytes}
    {id : Int16} (effect : ClientDataManager.Effect before op reply after)
    (listed : before.manager.clientsId key = some id) :
    after.manager.clientsId key = some id := by
  rcases ClientDataManager.register_step effect with ⟨_, ids, _⟩ | ⟨_, _, _, _, _, ids, _⟩
  · rw [ids]
    exact listed
  · rw [ids]
    exact KeyMap.insert_of_some _ _ listed

theorem listed_registered {before after : Database} {key : Bytes} {queue : QueueRef} {id : Int16}
    (effect : ClientDataManager.Effect before (.registerClient key queue) (.id id) after) :
    after.manager.clientsId key = some id := by
  cases effect with
  | registerKnown known => exact known
  | registerFresh fresh => simp [fresh]

section Keep

variable {events : List Event} {event : Event} {server : Server Key} {database : Database}

/-- An event that changes one session and the manager. -/
theorem Consistent.replace {queue : QueueRef} {after : ProtocolClient Key}
    (consistent : Consistent events server)
    (reached : ClientDataManager.Reaches (callsOf (events ++ [event])) database.manager)
    (kept : ∀ key id, server.database.manager.clientsId key = some id →
      database.manager.clientsId key = some id)
    (address : after.blockingQueue = queue)
    (fresh : ¬ after.Registered → after.id = 0 ∧ after.remainingPackets = [])
    (listed : after.Registered → ∃ key, database.manager.clientsId key = some after.id)
    (calm : database.refusal = server.database.refusal) :
    Consistent (events ++ [event])
      { database, sessions := server.sessions.modify queue fun _ => after } := by
  refine ⟨reached, ?_, ?_, ?_, calm.trans consistent.calm⟩
  · intro other client there
    rcases KeyMap.modify_eq_some there with ⟨rfl, rfl⟩ | ⟨_, there⟩
    · exact address
    · exact consistent.address other client there
  · intro other client there unregistered
    rcases KeyMap.modify_eq_some there with ⟨rfl, rfl⟩ | ⟨_, there⟩
    · exact fresh unregistered
    · exact consistent.fresh other client there unregistered
  · intro other client there registered
    rcases KeyMap.modify_eq_some there with ⟨rfl, rfl⟩ | ⟨_, there⟩
    · exact listed registered
    · obtain ⟨key, stored⟩ := consistent.listed other client there registered
      exact ⟨key, kept key client.id stored⟩

/-- An event after which some of the sessions are left. -/
theorem Consistent.restrict {sessions : KeyMap QueueRef (ProtocolClient Key)}
    (consistent : Consistent events server)
    (reached : ClientDataManager.Reaches (callsOf (events ++ [event])) database.manager)
    (kept : ∀ key id, server.database.manager.clientsId key = some id →
      database.manager.clientsId key = some id)
    (left : ∀ queue client, sessions queue = some client →
      server.sessions queue = some client)
    (calm : database.refusal = server.database.refusal) :
    Consistent (events ++ [event]) { database, sessions } := by
  refine ⟨reached, ?_, ?_, ?_, calm.trans consistent.calm⟩
  · intro queue client there
    exact consistent.address queue client (left queue client there)
  · intro queue client there
    exact consistent.fresh queue client (left queue client there)
  · intro queue client there registered
    obtain ⟨key, stored⟩ := consistent.listed queue client (left queue client there) registered
    exact ⟨key, kept key client.id stored⟩

/-- An event without calls. -/
theorem Consistent.reached_silent (consistent : Consistent events server)
    (silent : event.calls = []) :
    ClientDataManager.Reaches (callsOf (events ++ [event])) server.database.manager := by
  rw [calls_snoc, silent, List.append_nil]
  exact consistent.reached

/-- An event with one call. -/
theorem Consistent.reached_call {op : Op} {reply : Reply} (consistent : Consistent events server)
    (calls : event.calls = [(op, reply)])
    (called : ClientDataManager.Effect server.database op reply database) :
    ClientDataManager.Reaches (callsOf (events ++ [event])) database.manager := by
  rw [calls_snoc, calls]
  exact consistent.reached.snoc called

/-- A session that comes in has not registered. -/
theorem Consistent.enters {queue : QueueRef} {client : ProtocolClient Key}
    (consistent : Consistent events server) (silent : event.calls = [])
    (unused : server.sessions queue = none) (address : client.blockingQueue = queue)
    (stage : client.stage = .SetPublicKey) (id : client.id = 0)
    (packets : client.remainingPackets = []) :
    Consistent (events ++ [event])
      { server with sessions := server.sessions.insert queue client } := by
  refine ⟨consistent.reached_silent silent, ?_, ?_, ?_, consistent.calm⟩
  · intro other found there
    rcases KeyMap.insert_eq_some unused there with ⟨rfl, rfl⟩ | ⟨_, there⟩
    · exact address
    · exact consistent.address other found there
  · intro other found there unregistered
    rcases KeyMap.insert_eq_some unused there with ⟨rfl, rfl⟩ | ⟨_, there⟩
    · exact ⟨id, packets⟩
    · exact consistent.fresh other found there unregistered
  · intro other found there registered
    rcases KeyMap.insert_eq_some unused there with ⟨rfl, rfl⟩ | ⟨_, there⟩
    · rw [ProtocolClient.Registered, stage] at registered
      cases registered
    · exact consistent.listed other found there registered

/-- A session that hands packets over, and makes no call. -/
theorem Consistent.hands {queue : QueueRef} {client after : ProtocolClient Key}
    {handed : List Packet} (consistent : Consistent events server) (silent : event.calls = [])
    (alive : server.sessions queue = some client)
    (packets : client.remainingPackets = handed ++ after.remainingPackets)
    (sameQueue : after.blockingQueue = client.blockingQueue) (sameId : after.id = client.id)
    (sameStage : after.stage = client.stage) :
    Consistent (events ++ [event])
      { server with sessions := server.sessions.modify queue fun _ => after } := by
  have same : after.Registered ↔ client.Registered := by
    simp only [ProtocolClient.Registered, sameStage]
  refine consistent.replace (consistent.reached_silent silent) (fun _ _ stored => stored)
    ?_ ?_ ?_ rfl
  · rw [sameQueue]
    exact consistent.address queue client alive
  · intro unregistered
    obtain ⟨zero, empty⟩ := consistent.fresh queue client alive (same.not.mp unregistered)
    rw [empty] at packets
    exact ⟨sameId.trans zero, (List.append_eq_nil_iff.mp packets.symm).2⟩
  · intro registered
    rw [sameId]
    exact consistent.listed queue client alive (same.mp registered)

/-- A registered session that asks for the news. -/
theorem Consistent.asks {queue : QueueRef} {client after : ProtocolClient Key}
    {names : List (Int16 × Bytes)} {positions : List (Int16 × Position)} {middle : Database}
    (consistent : Consistent events server)
    (calls : event.calls =
      [(.getNewNames client.id, .names names), (.getNewPositions client.id, .positions positions)])
    (alive : server.sessions queue = some client) (registered : client.Registered)
    (named : ClientDataManager.Effect (server.popUpdate queue).database
      (.getNewNames client.id) (.names names) middle)
    (placed : ClientDataManager.Effect middle (.getNewPositions client.id)
      (.positions positions) database)
    (sameQueue : after.blockingQueue = client.blockingQueue) (sameId : after.id = client.id)
    (sameStage : after.stage = client.stage) :
    Consistent (events ++ [event])
      { database, sessions := server.sessions.modify queue fun _ => after } := by
  have reached : ClientDataManager.Reaches (callsOf events)
    (server.popUpdate queue).database.manager := consistent.reached
  have kept : ∀ key id, server.database.manager.clientsId key = some id →
      database.manager.clientsId key = some id := by
    intro key id stored
    exact listed_step placed (listed_step named stored)
  have calm := (ClientDataManager.refusal_step placed).trans
    (ClientDataManager.refusal_step named)
  refine consistent.replace ?_ kept ?_ ?_ ?_ calm
  · rw [calls_snoc, calls]
    have both := (reached.snoc named).snoc placed
    rw [List.append_assoc] at both
    exact both
  · rw [sameQueue]
    exact consistent.address queue client alive
  · intro impossible
    exact absurd (sameStage.trans registered) impossible
  · intro _
    obtain ⟨key, stored⟩ := consistent.listed queue client alive registered
    exact ⟨key, by rw [sameId]; exact kept key client.id stored⟩

end Keep

theorem consistent_step {events : List Event} {server after : Server Key} {event : Event}
    (consistent : Consistent events server) (effect : Effect server event after) :
    Consistent (events ++ [event]) after := by
  cases effect with
  | create unused own stage id packets =>
      exact consistent.enters rfl unused own stage id packets
  | @advance queue client after alive sameQueue sameId samePackets registered =>
      refine consistent.replace (consistent.reached_silent rfl) (fun _ _ stored => stored)
        ?_ ?_ ?_ rfl
      · rw [sameQueue]
        exact consistent.address queue client alive
      · rw [registered, sameId, samePackets]
        exact consistent.fresh queue client alive
      · rw [registered, sameId]
        exact consistent.listed queue client alive
  | @selfRegister queue client after key database acts alive unregistered registered called calls
      address packets =>
      refine consistent.replace (consistent.reached_call calls called)
        (fun _ _ stored => listed_step called stored) address ?_ ?_
        (ClientDataManager.refusal_step called)
      · intro impossible
        exact absurd registered impossible
      · intro _
        exact ⟨key, listed_registered called⟩
  | @update queue client after turn names positions handed middle database acts alive registered
      posted named placed updated =>
      exact consistent.asks updated.calls alive registered named placed updated.blockingQueue
        updated.id updated.stage
  | @ignore queue client turn alive unregistered posted =>
      refine consistent.replace (consistent.reached_silent rfl) (fun _ _ stored => stored)
        (consistent.address queue client alive) (consistent.fresh queue client alive) ?_ rfl
      intro impossible
      exact absurd impossible unregistered
  | @sendRemainingData queue client after handed acts alive packets sent calls sameQueue sameId
      sameStage =>
      exact consistent.hands calls alive packets sameQueue sameId sameStage
  | @unregister queue client database acts alive positive called calls =>
      have reached : ClientDataManager.Reaches (callsOf (events ++ [.destroy queue acts]))
        database.manager := consistent.reached_call calls called
      have kept : ∀ key id, server.database.manager.clientsId key = some id →
        database.manager.clientsId key = some id := fun _ _ stored => listed_step called stored
      have calm := ClientDataManager.refusal_step called
      exact consistent.restrict reached kept (fun _ _ there => (KeyMap.erase_eq_some there).2) calm
  | vanish alive unnumbered =>
      exact consistent.restrict (consistent.reached_silent rfl) (fun _ _ stored => stored)
        (fun _ _ there => (KeyMap.erase_eq_some there).2) rfl
  | call shared called =>
      exact consistent.restrict (consistent.reached_call rfl called)
        (fun _ _ stored => listed_step called stored) (fun _ _ there => there)
        (ClientDataManager.refusal_step called)
  | @callThrows op made database whole posting called manager refusal =>
      refine consistent.restrict ?_ (fun key id stored => ?_) (fun _ _ there => there) refusal
      · rw [manager]
        exact consistent.reached_call rfl called
      · rw [manager]
        exact listed_step called stored

theorem consistent_start : Consistent [] ({} : Server Key) :=
  ⟨⟨{}, .nil, rfl⟩, by simp, by simp, by simp, rfl⟩

section Runs

variable {lib : CryptoLibrary Key} {events : List Event} {server : Server Key}

theorem consistent_run (run : Run (Step lib) {} events server) : Consistent events server := by
  apply run.history_invariant Consistent consistent_start
  intro events before event after _ consistent step
  exact consistent_step consistent (effect_of_step consistent step)

/-- A law of server and history holds after every run if every effect keeps it. -/
theorem holds_of_effects (holds : List Event → Server Key → Prop) (base : holds [] {})
    (keep : ∀ events before event after, Consistent events before → holds events before →
      Effect before event after → holds (events ++ [event]) after)
    (run : Run (Step lib) {} events server) : holds events server := by
  apply run.history_invariant holds base
  intro events before event after earlier held step
  have consistent := consistent_run earlier
  exact keep events before event after consistent held (effect_of_step consistent step)

end Runs

end Server

end Locus
