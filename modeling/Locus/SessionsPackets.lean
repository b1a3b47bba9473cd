import Locus.SessionsNews

set_option autoImplicit false

/- What happens to the packets that `update()` makes of the news. The marks that say
which news are told outlive the queue that holds the packets. -/
namespace Locus.Server

open Transition Program ClientDataManager

variable {Key : Type} {lib : CryptoLibrary Key}

/-- A query for news. -/
def isQuery : Op → Bool
  | .getNewNames _ | .getNewPositions _ => true
  | _ => false

/-- The two queries are called by `update()` only. -/
def QueriesInUpdate (event : Event) : Prop :=
  ∀ op reply, event = .call op reply → isQuery op = false

/-- A session ends with packets in its queue. -/
def DropsPackets (before : Server Key) (event : Event) : Prop :=
  ∃ queue acts client, event = .destroy queue acts ∧ before.sessions queue = some client ∧
    client.remainingPackets ≠ []

/-- In these events a packet was handed to `sendPacket` for a client, or it waits in one of the
client's sessions. -/
def Delivered (events : List Event) (server : Server Key) (id : Int16)
    (content : PacketType × Bytes) : Prop :=
  content ∈ events.flatMap (Event.handed id) ∨
    ∃ queue client, server.sessions queue = some client ∧ client.Registered ∧ client.id = id ∧
      content ∈ client.remainingPackets.map Packet.content

/-- An `update()` for a client made a packet of a name, and has delivered it since. -/
def NameKept (events : List Event) (server : Server Key) (id owner : Int16) (name : Bytes) :
    Prop :=
  ∃ past event recent packet, events = past ++ event :: recent ∧
    ((owner, name), packet) ∈ event.told id ∧
    Delivered (event :: recent) server id packet.content

/-- What the marks of a client say it was told, it was told or will be. -/
structure NewsKept (events : List Event) (server : Server Key) : Prop where
  names : ∀ id, ∀ watcher ∈ server.database.manager.followingOf id, watcher.name ≠ [] →
    NameKept events server id watcher.id watcher.name
  positions : ∀ past event recent id found news, events = past ++ event :: recent →
    (.getNewPositions id, .positions found) ∈ event.calls → news ∈ found →
    Delivered (event :: recent) server id (ProtocolClient.locationPacket news).content

section Delivery

variable {events : List Event} {before after : Server Key} {event : Event} {id : Int16}
  {content : PacketType × Bytes}

/-- A packet in the queue of a session that is not touched stays there. -/
theorem Delivered.of_sessions (delivered : Delivered events before id content)
    (kept : ∀ queue client, before.sessions queue = some client → client.Registered →
      client.id = id → content ∈ client.remainingPackets.map Packet.content →
      content ∈ event.handed id ∨ ∃ queue client, after.sessions queue = some client ∧
        client.Registered ∧ client.id = id ∧
        content ∈ client.remainingPackets.map Packet.content) :
    Delivered (events ++ [event]) after id content := by
  rw [Delivered, List.flatMap_append, List.flatMap_singleton]
  rcases delivered with handed | ⟨queue, client, alive, registered, own, waits⟩
  · exact .inl (List.mem_append_left _ handed)
  · rcases kept queue client alive registered own waits with now | later
    · exact .inl (List.mem_append_right _ now)
    · exact .inr later

/-- A session whose queue loses the packets it hands over, and no others. -/
theorem Delivered.of_forwarded {queue : QueueRef} {client next : ProtocolClient Key}
    {database : Database} (packets handed : List Packet)
    (alive : before.sessions queue = some client)
    (split : client.remainingPackets ++ packets = handed ++ next.remainingPackets)
    (sent : client.Registered → client.id = id →
      handed.map Packet.content = event.handed id) (sameId : next.id = client.id)
    (standing : client.Registered → next.Registered)
    (delivered : Delivered events before id content ∨
      client.Registered ∧ client.id = id ∧ content ∈ packets.map Packet.content) :
    Delivered (events ++ [event])
      { database, sessions := before.sessions.modify queue fun _ => next } id content := by
  have own : client.Registered → client.id = id →
      content ∈ (client.remainingPackets ++ packets).map Packet.content →
      content ∈ event.handed id ∨ ∃ other found,
        before.sessions.modify queue (fun _ => next) other = some found ∧
        found.Registered ∧ found.id = id ∧
        content ∈ found.remainingPackets.map Packet.content := by
    intro registered same member
    rw [split, List.map_append] at member
    rcases List.mem_append.mp member with now | later
    · rw [sent registered same] at now
      exact .inl now
    · exact .inr ⟨queue, next, KeyMap.modify_of_some _ alive, standing registered,
        sameId.trans same, later⟩
  rcases delivered with earlier | ⟨registered, same, fresh⟩
  · refine earlier.of_sessions fun other found there registered same waits => ?_
    by_cases here : other = queue
    · subst here
      rw [alive] at there
      cases there
      apply own registered same
      rw [List.map_append]
      exact List.mem_append_left _ waits
    · exact .inr ⟨other, found, (KeyMap.modify_of_ne _ _ here).trans there, registered, same,
        waits⟩
  · rw [Delivered, List.flatMap_append, List.flatMap_singleton]
    rcases own registered same (by
      rw [List.map_append]
      exact List.mem_append_right _ fresh) with now | later
    · exact .inl (List.mem_append_right _ now)
    · exact .inr later

/-- What was delivered stays delivered, unless a session drops its packets. -/
theorem delivered_step (effect : Effect before event after) (keeps : ¬ DropsPackets before event)
    (delivered : Delivered events before id content) :
    Delivered (events ++ [event]) after id content := by
  cases effect with
  | create unused address stage number packets =>
      refine delivered.of_sessions fun other found there registered same waits => ?_
      exact .inr ⟨other, found, KeyMap.insert_of_some _ _ there, registered, same, waits⟩
  | @advance queue client after alive sameQueue sameId samePackets registered =>
      refine .of_forwarded [] [] alive ?_ (fun _ _ => rfl) sameId
        registered.mpr (.inl delivered)
      rw [samePackets, List.append_nil, List.nil_append]
  | @selfRegister queue client after key database acts alive unregistered registered called =>
      refine delivered.of_sessions fun other found there standing same waits => ?_
      have apart : other ≠ queue := by
        intro here
        rw [here, alive] at there
        cases there
        exact unregistered standing
      exact .inr ⟨other, found, (KeyMap.modify_of_ne _ _ apart).trans there, standing, same, waits⟩
  | @update queue client after turn names positions handed middle database acts alive registered
      posted named placed updated =>
      refine .of_forwarded _ handed alive updated.queue ?_ updated.id
        (fun standing => updated.stage.trans standing) (.inl delivered)
      intro _ same
      rw [Event.handed, if_pos same, updated.sent]
  | @ignore queue client turn alive unregistered posted =>
      refine .of_forwarded [] [] alive ?_ ?_ rfl
        (fun standing => standing) (.inl delivered)
      · rw [List.append_nil, List.nil_append]
      · intro standing
        exact absurd standing unregistered
  | @sendRemainingData queue client after handed acts alive packets sent calls sameQueue sameId
      sameStage =>
      refine .of_forwarded [] handed alive ?_ ?_ sameId
        (fun standing => sameStage.trans standing) (.inl delivered)
      · rw [List.append_nil, packets]
      · intro _ same
        rw [Event.handed, if_pos same, sent]
  | @unregister queue client database acts alive positive called calls =>
      refine delivered.of_sessions fun other found there registered same waits => ?_
      have apart : other ≠ queue := by
        rintro rfl
        refine keeps ⟨other, acts, found, rfl, there, ?_⟩
        intro empty
        rw [empty] at waits
        cases waits
      exact .inr ⟨other, found, (KeyMap.erase_of_ne _ apart).trans there, registered, same, waits⟩
  | @vanish queue client alive unnumbered =>
      refine delivered.of_sessions fun other found there registered same waits => ?_
      have apart : other ≠ queue := by
        rintro rfl
        refine keeps ⟨other, [], found, rfl, there, ?_⟩
        intro empty
        rw [empty] at waits
        cases waits
      exact .inr ⟨other, found, (KeyMap.erase_of_ne _ apart).trans there, registered, same, waits⟩
  | call | callThrows =>
      refine delivered.of_sessions fun other found there registered same waits => ?_
      exact .inr ⟨other, found, there, registered, same, waits⟩

/-- What was kept is kept on. -/
theorem NameKept.later {owner : Int16} {name : Bytes} (kept : NameKept events before id owner name)
    (effect : Effect before event after) (keeps : ¬ DropsPackets before event) :
    NameKept (events ++ [event]) after id owner name := by
  obtain ⟨past, update, recent, packet, rfl, made, delivered⟩ := kept
  exact ⟨past, update, recent ++ [event], packet, by simp, made,
    delivered_step effect keeps delivered⟩

/-- What `update()` queues is delivered. -/
theorem delivered_queued {queue : QueueRef} {client next : ProtocolClient Key} {turn : Turn}
    {names : List (Int16 × Bytes)} {positions : List (Int16 × Position)}
    {handed : List Packet} {acts : List Act} {database : Database} {packets : List Packet}
    (alive : before.sessions queue = some client) (registered : client.Registered)
    (updated : Updated turn names positions handed acts client next)
    (fresh : content ∈ (names.map (ProtocolClient.followedPacket turn) ++
      positions.map ProtocolClient.locationPacket).map Packet.content) :
    Delivered [.update queue client.id turn packets acts]
      { database, sessions := before.sessions.modify queue fun _ => next } client.id content := by
  rw [← List.nil_append [_]]
  refine .of_forwarded _ handed alive updated.queue ?_ updated.id
    (fun standing => updated.stage.trans standing) (.inr ⟨registered, rfl, fresh⟩)
  intro _ same
  rw [Event.handed, if_pos same, updated.sent]

/-- A call that is no query leaves the names that watchers were told. -/
theorem names_of_call {op : Op} {reply : Reply} {database : Database}
    (called : ClientDataManager.Effect before.database op reply database)
    (other : ∀ caller, op ≠ .getNewNames caller)
    (manager : after.database.manager = database.manager) (kept : NewsKept events before)
    (effect : Effect before event after) (keeps : ¬ DropsPackets before event) :
    ∀ id, ∀ watcher ∈ after.database.manager.followingOf id, watcher.name ≠ [] →
      NameKept (events ++ [event]) after id watcher.id watcher.name := by
  intro id watcher member named
  rw [manager] at member
  rcases watcher_named called other member with unnamed | ⟨earlier, there, sameId, sameName⟩
  · exact absurd unnamed named
  · have told := kept.names id earlier there (sameName ▸ named)
    rw [sameId, sameName] at told
    exact told.later effect keeps

end Delivery

theorem newsKept_step {events : List Event} {before after : Server Key} {event : Event}
    (kept : NewsKept events before) (effect : Effect before event after)
    (queries : QueriesInUpdate event) (keeps : ¬ DropsPackets before event) :
    NewsKept (events ++ [event]) after := by
  -- what the event's own query for positions returns, and what earlier ones returned
  have places : (∀ id found news, (.getNewPositions id, .positions found) ∈ event.calls →
        news ∈ found → Delivered [event] after id (ProtocolClient.locationPacket news).content) →
      ∀ past query recent id found news, events ++ [event] = past ++ query :: recent →
        (.getNewPositions id, .positions found) ∈ query.calls → news ∈ found →
        Delivered (query :: recent) after id (ProtocolClient.locationPacket news).content := by
    intro now past query recent id found news split asked member
    rcases split_snoc split with ⟨_, rfl, rfl⟩ | ⟨front, whole, rfl⟩
    · exact now id found news asked member
    · exact delivered_step effect keeps (kept.positions past query front id found news whole asked
        member)
  have plain (none : ∀ id found, (.getNewPositions id, .positions found) ∉ event.calls) :=
    places fun id found _ asked _ => absurd asked (none id found)
  have same : after.database.manager = before.database.manager →
      ∀ id, ∀ watcher ∈ after.database.manager.followingOf id, watcher.name ≠ [] →
      NameKept (events ++ [event]) after id watcher.id watcher.name := by
    intro manager id watcher member named
    rw [manager] at member
    exact (kept.names id watcher member named).later effect keeps
  have whole := effect
  cases effect with
  | create | advance | ignore | vanish => exact ⟨same rfl, plain (by simp [Event.calls])⟩
  | sendRemainingData alive packets sent calls =>
      exact ⟨same rfl, plain (by simp [Event.calls, calls])⟩
  | selfRegister alive unregistered registered called calls =>
      refine ⟨names_of_call called (by simp) rfl kept whole keeps, plain ?_⟩
      simp [Event.calls, calls]
  | unregister alive positive called calls =>
      refine ⟨names_of_call called (by simp) rfl kept whole keeps, plain ?_⟩
      simp [Event.calls, calls]
  | @call op reply database shared called =>
      have quiet := queries op reply rfl
      refine ⟨names_of_call called ?_ rfl kept whole keeps, plain ?_⟩
      · rintro caller rfl
        cases quiet
      · intro id found now
        simp only [Event.calls, List.mem_singleton, Prod.mk.injEq] at now
        rw [← now.1] at quiet
        cases quiet
  | @callThrows op made database full posting called manager =>
      refine ⟨names_of_call called ?_ manager kept whole keeps, plain ?_⟩
      · rintro caller rfl
        cases posting
      · intro id found now
        simp only [Event.calls, List.mem_singleton, Prod.mk.injEq] at now
        rw [← now.1] at posting
        cases posting
  | @update queue client next turn names positions handed middle database acts alive registered
      posted named placed updated =>
      obtain ⟨moved, _⟩ := getNewNames_queried named
      constructor
      · intro id watcher member nonempty
        have back := watcher_named placed (by simp) member
        rcases back with unnamed | ⟨earlier, there, sameId, sameName⟩
        · exact absurd unnamed nonempty
        rw [← sameName] at nonempty
        rw [← sameId, ← sameName]
        rcases moved.told there with ⟨first, before_it, firstId, firstName⟩ | ⟨rfl, fresh⟩
        · have delivery := kept.names id first before_it (firstName ▸ nonempty)
          rw [firstId, firstName] at delivery
          exact delivery.later whole keeps
        · refine ⟨events, _, [], ProtocolClient.followedPacket turn (earlier.id, earlier.name),
            rfl, ?_, delivered_queued alive registered updated ?_⟩
          · rw [updated.told]
            exact List.mem_map_of_mem fresh
          · rw [List.map_append]
            exact List.mem_append_left _ (List.mem_map_of_mem (List.mem_map_of_mem fresh))
      · refine places fun id found news now member => ?_
        simp only [Event.calls, updated.calls, List.mem_cons, Prod.mk.injEq,
          reduceCtorEq, false_and, false_or, List.not_mem_nil, or_false] at now
        obtain ⟨asker, reply⟩ := now
        cases asker
        cases reply
        apply delivered_queued alive registered updated
        rw [List.map_append]
        exact List.mem_append_right _ (List.mem_map_of_mem (List.mem_map_of_mem member))

/-- `update()` queues a packet for each name that it is told, and then the places. -/
def Recorded (event : Event) : Prop :=
  ∀ id, ∃ positions : List (Int16 × Position),
    event.queued id = (event.told id).map Prod.snd ++ positions.map ProtocolClient.locationPacket

theorem Effect.recorded {before after : Server Key} {event : Event}
    (effect : Effect before event after) : Recorded event := by
  intro id
  cases effect with
  | create | advance | selfRegister | sendRemainingData | unregister | vanish | call
  | callThrows => exact ⟨[], rfl⟩
  | ignore => exact ⟨[], by simp [Event.queued, Event.told]⟩
  | @update queue client next turn names positions handed middle database acts alive registered
      posted named placed updated =>
      by_cases own : client.id = id
      · subst own
        refine ⟨positions, ?_⟩
        rw [updated.told, Event.queued, if_pos rfl, List.map_map]
        rfl
      · exact ⟨[], by rw [Event.queued, Event.told, if_neg own, if_neg own]; rfl⟩

theorem recorded_run {events : List Event} {server : Server Key}
    (run : Run (Step lib) {} events server) : ∀ event ∈ events, Recorded event := by
  refine holds_of_effects (fun events _ => ∀ event ∈ events, Recorded event) (by simp) ?_ run
  intro events before event after _ recorded effect other member
  rcases List.mem_append.mp member with earlier | last
  · exact recorded other earlier
  · rw [List.mem_singleton.mp last]
    exact effect.recorded

/-- A packet made of a name is the one that the update makes of it. -/
theorem Event.told_eq {event : Event} {id : Int16} {news : Int16 × Bytes} {packet : Packet}
    (told : (news, packet) ∈ event.told id) : ∃ queue turn packets acts,
      event = .update queue id turn packets acts ∧
        packet = ProtocolClient.followedPacket turn news := by
  cases event with
  | update queue caller turn packets acts =>
      rw [Event.told] at told
      split at told
      · rename_i own
        subst own
        obtain ⟨call, _, there⟩ := List.mem_flatMap.mp told
        obtain ⟨_, _, same⟩ := List.mem_map.mp there
        cases same
        exact ⟨queue, turn, packets, acts, rfl, rfl⟩
      · cases told
  | create | advance | selfRegister | sendRemainingData | destroy | call | callThrows =>
      cases told

/-- In every run in which no session ends with packets in its queue, everything that the
marks say was told has been handed over or waits in a living session. -/
theorem news_kept {events : List Event} {server : Server Key}
    (run : Run (Guarded (fun before event =>
      QueriesInUpdate event ∧ ¬ DropsPackets before event) (Step lib)) {} events server) :
    NewsKept events server := by
  have holds : Consistent events server ∧ NewsKept events server := by
    refine run.history_invariant
      (fun events server => Consistent events server ∧ NewsKept events server) ?_ ?_
    · exact ⟨consistent_start, by simp [followingOf, KeyMap.view], by simp⟩
    · rintro events before event after _ ⟨consistent, kept⟩ ⟨⟨queries, keeps⟩, step⟩
      have effect := effect_of_step consistent step
      exact ⟨consistent_step consistent effect, newsKept_step kept effect queries keeps⟩
  exact holds.2

/-- An update whose first packet can be encrypted. -/
theorem Step.updated {server : Server Key} {queue : QueueRef} {client : ProtocolClient Key}
    (turn : Turn) {names : List (Int16 × Bytes)} {positions : List (Int16 × Position)}
    {packet : Packet} {rest : List Packet} {frame : Bytes} {middle database : Database}
    (alive : server.sessions queue = some client) (posted : queue ∈ server.database.posted)
    (registered : client.Registered)
    (named : ClientDataManager.Step (server.popUpdate queue).database
      (.getNewNames client.id, .names names) middle)
    (placed : ClientDataManager.Step middle
      (.getNewPositions client.id, .positions positions) database)
    (aes : client.cryptoModule.algorithm = .AES)
    (queued : client.remainingPackets ++ names.map (ProtocolClient.followedPacket turn) ++
      positions.map ProtocolClient.locationPacket = packet :: rest)
    (encrypted : lib.aesEncrypt client.cryptoModule.aesKey
      (packet.type.toUInt8 :: packet.buffer.bytes) = .ok frame) :
    Step lib server (.update queue client.id turn
        (names.map (ProtocolClient.followedPacket turn) ++
          positions.map ProtocolClient.locationPacket)
        [.called (.getNewNames client.id) (some (.names names)),
          .called (.getNewPositions client.id) (some (.positions positions)),
          .sent packet.type .AES packet.buffer.bytes frame])
      { database
        sessions := server.sessions.modify queue fun _ =>
          { client with remainingPackets := rest } } := by
  have news : ProtocolClient.queueNews turn ((server.popUpdate queue).enter client) = _ :=
    ProtocolClient.queueNews_run turn registered (step_iff_effect.mp named)
      (step_iff_effect.mp placed)
  have sends := ProtocolClient.sendRemainingData_aes_ok (s := ProtocolClient.extended
    (ProtocolClient.extended ((server.popUpdate queue).enter client)
      (.getNewNames client.id) (.names names) middle
      (names.map (ProtocolClient.followedPacket turn)))
    (.getNewPositions client.id) (.positions positions) database
    (positions.map ProtocolClient.locationPacket)) aes queued encrypted
  have ran : ProtocolClient.update lib turn ((server.popUpdate queue).enter client) = _ :=
    (ProtocolClient.update_run lib turn _).trans ((bind_of_ok news).trans sends)
  refine .update alive posted ran trivial ?_
  rw [news, finalState]
  exact List.append_assoc _ _ _

/-- A client with a follower takes a name and says where it is. -/
def friends (name : Bytes) : List Event :=
  arrival [5] 0 1 ++ (arrival [6] 1 2 ++ [.call (.addFollower 1 2) .none,
    .call (.setName 1 name) (.accepted true), .call (.addPosition 1 0 0 9) .none])

/-- The follower is told the name, and the place waits in the queue of its session. -/
def firstUpdate (turn : Turn) (name : Bytes) : Event :=
  let told := ProtocolClient.followedPacket turn (1, name)
  .update 1 2 turn [told, ProtocolClient.locationPacket (1, ⟨0, 0, 9⟩)]
    [.called (.getNewNames 2) (some (.names [(1, name)])),
      .called (.getNewPositions 2) (some (.positions [(1, ⟨0, 0, 9⟩)])),
      .sent .NEW_FOLLOWED .AES told.buffer.bytes (7 :: 19 :: told.buffer.bytes)]

theorem firstUpdate_run (turn : Turn) (letter : UInt8) (letters : Bytes)
    {ok : Server Bytes → Event → Prop}
    (plain : ∀ server event, (∀ queue acts, event ≠ .destroy queue acts) →
      (∀ queue id other packets acts, event = .update queue id other packets acts →
        other = turn) → QueriesInUpdate event → ok server event) : ∃ before server,
    Run (Guarded ok (Step keyring)) {} (friends (letter :: letters)) before ∧
    Guarded ok (Step keyring) before (firstUpdate turn (letter :: letters)) server ∧
    before.database.manager.nameOf 1 = letter :: letters ∧
    before.database.manager.followingOf 2 = [{ id := 1 }] ∧
    before.sessions 1 = some (arrived [6] 1 2) ∧
    server.sessions = ((KeyMap.empty.insert 0 (arrived [5] 0 1)).insert 1
      (arrived [6] 1 2)).modify 1 fun _ => { arrived [6] 1 2 with
        remainingPackets := [ProtocolClient.locationPacket (1, ⟨0, 0, 9⟩)] } := by
  have arrives : ∀ {server : Server Bytes} {key queue id database},
      server.sessions queue = none → ClientDataManager.Step server.database
        (.registerClient key queue, .id id) database →
      Run (Guarded ok (Step keyring)) server (arrival key queue id)
        { database, sessions := server.sessions.insert queue (arrived key queue id) } := by
    intro server key queue id database unused registered
    refine arrival_guarded unused registered ?_ ?_ ?_ <;>
      exact plain _ _ (by simp) (by simp) (by simp [QueriesInUpdate])
  have calls : ∀ {server : Server Bytes} {op reply database}, isEnrolment op = false →
      isQuery op = false → ClientDataManager.Step server.database (op, reply) database →
      Guarded ok (Step keyring) server (.call op reply) { server with database } :=
    fun shared quiet ran =>
      ⟨plain _ _ (by simp) (by simp) (by simp [QueriesInUpdate, quiet]), .call shared ran⟩
  have tells : ∀ {server : Server Bytes} {middle database},
      server.sessions 1 = some (arrived [6] 1 2) → 1 ∈ server.database.posted →
      ClientDataManager.Step (server.popUpdate 1).database
        (.getNewNames 2, .names [(1, letter :: letters)]) middle →
      ClientDataManager.Step middle (.getNewPositions 2, .positions [(1, ⟨0, 0, 9⟩)]) database →
      Guarded ok (Step keyring) server (firstUpdate turn (letter :: letters))
        { database
          sessions := server.sessions.modify 1 fun _ => { arrived [6] 1 2 with
            remainingPackets := [ProtocolClient.locationPacket (1, ⟨0, 0, 9⟩)] } } := by
    intro server middle database alive posted named placed
    refine ⟨plain _ _ (by simp [firstUpdate]) ?_ (by simp [QueriesInUpdate, firstUpdate]),
      .updated turn alive posted rfl named placed rfl rfl rfl⟩
    rintro _ _ _ _ _ ⟨⟩
    rfl
  refine ⟨_, _, Run.append_iff.mpr ⟨_, arrives rfl rfl, Run.append_iff.mpr ⟨_, arrives rfl rfl,
    .cons (calls rfl rfl rfl) (.cons (calls rfl rfl rfl) (.cons (calls rfl rfl rfl) .nil))⟩⟩,
    tells rfl ?_ rfl rfl, rfl, rfl, rfl, rfl⟩
  exact List.mem_of_elem_eq_true rfl

def firstNews : List Event := friends [65] ++ [firstUpdate { message := .Update } [65]]

theorem news_kept_firstNews : ∃ server,
    Run (Guarded (fun before event => QueriesInUpdate event ∧ ¬ DropsPackets before event)
      (Step keyring)) {} firstNews server ∧ NewsKept firstNews server := by
  have plain : ∀ (server : Server Bytes) event, (∀ queue acts, event ≠ .destroy queue acts) →
      (∀ queue id other packets acts, event = .update queue id other packets acts →
        other = { message := .Update }) →
      QueriesInUpdate event → QueriesInUpdate event ∧ ¬ DropsPackets server event := by
    intro server event lives _ queries
    refine ⟨queries, ?_⟩
    rintro ⟨queue, acts, client, same, _⟩
    exact lives queue acts same
  obtain ⟨before, server, run, last, _⟩ :=
    firstUpdate_run { message := .Update } 65 [] plain
  have whole : Run _ {} firstNews server := .snoc run last
  exact ⟨server, whole, news_kept whole⟩

/-- The place goes away with the session. -/
def lostPlace : List Event := firstNews ++ [.destroy 1 [.called (.unregister 2) (some .none)]]

theorem lostPlace_not_kept : ∃ server,
    Run (Guarded (fun _ event => QueriesInUpdate event) (Step keyring)) {} lostPlace server ∧
    ¬ NewsKept lostPlace server := by
  obtain ⟨before, server, run, last, _, _, _, sessions⟩ := @firstUpdate_run
    { message := .Update } 65 [] (fun _ event => QueriesInUpdate event)
    fun _ _ _ _ queries => queries
  have positive : (arrived [6] 1 2).id > 0 := by decide
  have alive : server.sessions 1 = some { arrived [6] 1 2 with
      remainingPackets := [ProtocolClient.locationPacket (1, ⟨0, 0, 9⟩)] } := by
    rw [sessions]
    rfl
  refine ⟨_, .snoc (.snoc run last) ⟨by simp [QueriesInUpdate], .ended alive positive⟩, ?_⟩
  intro kept
  have told := kept.positions (friends [65]) _ _ 2 [(1, ⟨0, 0, 9⟩)] (1, ⟨0, 0, 9⟩)
    (List.append_assoc _ _ _) (by decide) (by decide)
  rcases told with handed | ⟨queue, client, there, _, own, _⟩
  · revert handed
    decide
  · -- the session that is left belongs to the other client
    obtain ⟨apart, there⟩ := KeyMap.erase_eq_some there
    rw [sessions, KeyMap.modify_of_ne _ _ apart, KeyMap.insert_of_ne _ _ apart] at there
    rcases KeyMap.insert_eq_some rfl there with ⟨_, rfl⟩ | ⟨_, nothing⟩
    · revert own
      decide
    · cases nothing

end Locus.Server
