import Locus.ClientDataManagerWatchers
import Locus.SessionsPackets
import Locus.WireFormats

set_option autoImplicit false

/- The name of a client is told before its places are, but as the object that holds it. -/
namespace Locus.Server

open Transition Program ClientDataManager

variable {Key : Type} {lib : CryptoLibrary Key}

/-- The packet tells the name of a client. -/
def Carries (packet : Packet) (id : Int16) (name : Bytes) : Prop :=
  packet.content = (.NEW_FOLLOWED, toBytes 2 id.toUInt16.toNat ++ name)

/-- For each `LOCATION` that an event queues, the packet that was made of the name of the client
was queued first, after each call that made the follower watch it. -/
def NameMadeFirst (past : List Event) (before : Server Key) (event : Event) : Prop :=
  ∀ follower followed position earlier later,
    event.queued follower = earlier ++ ProtocolClient.locationPacket (followed, position) :: later →
    ∀ old made recent reply, past = old ++ made :: recent →
      (.addFollower followed follower, reply) ∈ made.calls →
      ∃ packet, ((followed, before.database.manager.nameOf followed), packet) ∈
          (recent ++ [event]).flatMap (Event.told follower) ∧
        packet ∈ recent.flatMap (Event.queued follower) ++ earlier

/-- The `update()` of a registered session finds a place to tell. -/
def TellsPlace (before : Server Key) (event : Event) (follower followed : Int16) : Prop :=
  ∃ queue turn packets acts client, event = .update queue follower turn packets acts ∧
    before.sessions queue = some client ∧ client.Registered ∧
    before.database.manager.Awaits follower followed

/-- After each call that made a follower watch a client, an update told the name. -/
def Since (past : List Event) (follower followed : Int16) (name : Bytes) : Prop :=
  ∀ old made recent reply, past = old ++ made :: recent →
    (.addFollower followed follower, reply) ∈ made.calls →
    ∃ packet, ((followed, name), packet) ∈ recent.flatMap (Event.told follower)

/-- What the newest watcher on a client was told, was told since it was made. -/
def Told (past : List Event) (m : ClientDataManager) : Prop :=
  ∀ follower followed watcher, m.newestWatcher follower followed = some watcher →
    (∃ reply, (.addFollower followed follower, reply) ∈ callsOf past) ∧
    (watcher.name ≠ [] → Since past follower followed watcher.name)

section Telling

variable {past : List Event} {follower followed : Int16} {name : Bytes} {event : Event}

/-- What was said stays said, as long as no new watcher is made. -/
theorem Since.later (since : Since past follower followed name)
    (other : ∀ reply, (.addFollower followed follower, reply) ∉ event.calls) :
    Since (past ++ [event]) follower followed name := by
  intro old made recent reply split here
  rcases split_snoc split with ⟨_, same, _⟩ | ⟨front, whole, rfl⟩
  · rw [← same] at here
    exact absurd here (other reply)
  · obtain ⟨packet, member⟩ := since old made front reply whole here
    refine ⟨packet, ?_⟩
    rw [List.flatMap_append]
    exact List.mem_append_left _ member

/-- What is said now is said after every earlier call. -/
theorem Since.now {packet : Packet} (told : ((followed, name), packet) ∈ event.told follower)
    (other : ∀ reply, (.addFollower followed follower, reply) ∉ event.calls) :
    Since (past ++ [event]) follower followed name := by
  intro old made recent reply split here
  rcases split_snoc split with ⟨_, same, _⟩ | ⟨front, _, rfl⟩
  · rw [← same] at here
    exact absurd here (other reply)
  · refine ⟨packet, ?_⟩
    rw [List.flatMap_append, List.flatMap_singleton]
    exact List.mem_append_right _ told

/-- One call keeps the law, be it one that returns or one that throws at a post. -/
theorem told_called {before after : Database} {op : Op} {reply : Reply}
    (told : Told past before.manager) (effect : ClientDataManager.Effect before op reply after)
    (calls : event.calls = [(op, reply)]) (quiet : ∀ caller, op ≠ .getNewNames caller) :
    Told (past ++ [event]) after.manager := by
  intro follower followed watcher last
  rcases newest_called effect quiet last with ⟨rfl, unnamed⟩ | ⟨other, earlier, there, same⟩
  · refine ⟨⟨reply, by simp [calls_snoc, calls]⟩, ?_⟩
    intro named
    exact absurd unnamed named
  · obtain ⟨⟨answer, made⟩, since⟩ := told follower followed earlier there
    refine ⟨⟨answer, ?_⟩, ?_⟩
    · rw [calls_snoc]
      exact List.mem_append_left _ made
    · intro named
      rw [← same] at named ⊢
      apply (since named).later
      intro answer member
      rw [calls, List.mem_singleton] at member
      exact other (congrArg Prod.fst member).symm

theorem told_step {before after : Server Key} (told : Told past before.database.manager)
    (effect : Effect before event after) (queries : QueriesInUpdate event) :
    Told (past ++ [event]) after.database.manager := by
  -- an event that is no call leaves what was said
  have silent : event.calls = [] → after.database.manager = before.database.manager →
      Told (past ++ [event]) after.database.manager := by
    intro nothing manager follower followed watcher last
    rw [manager] at last
    obtain ⟨made, since⟩ := told follower followed watcher last
    rw [calls_snoc, nothing, List.append_nil]
    exact ⟨made, fun named => (since named).later (by simp [nothing])⟩
  cases effect with
  | create | advance | ignore | vanish => exact silent rfl rfl
  | sendRemainingData _ _ _ calls => exact silent calls rfl
  | selfRegister _ _ _ called calls => exact told_called told called calls (by simp)
  | @unregister queue client database acts alive positive called calls =>
      have now : (Event.destroy queue acts).calls = _ := calls
      have later : Told _ database.manager := told_called told called now (by simp)
      exact later
  | @call op reply database shared ran =>
      apply told_called told ran rfl
      rintro caller rfl
      cases queries _ _ rfl
  | @callThrows op made database whole posting called manager =>
      rw [manager]
      apply told_called told called rfl
      rintro caller rfl
      cases posting
  | @update queue client next turn names positions handed middle database acts alive registered
      posted named placed updated =>
      intro follower followed watcher last
      have calls : (Event.update queue client.id turn (names.map
          (ProtocolClient.followedPacket turn) ++ positions.map ProtocolClient.locationPacket)
          acts).calls = _ := updated.calls
      have other : ∀ reply, (Op.addFollower followed follower, reply) ∉ (Event.update queue
          client.id turn (names.map (ProtocolClient.followedPacket turn) ++
            positions.map ProtocolClient.locationPacket) acts).calls := by
        intro reply
        rw [calls]
        simp
      obtain ⟨moved, _⟩ := getNewNames_queried named
      rcases newest_called placed (by simp) last with ⟨impossible, _⟩ | ⟨_, second, there, same⟩
      · cases impossible
      obtain ⟨first, origin, told_now⟩ := newest_named moved there
      obtain ⟨⟨reply, made⟩, since⟩ := told follower followed first origin
      refine ⟨⟨reply, ?_⟩, ?_⟩
      · rw [calls_snoc]
        exact List.mem_append_left _ made
      · intro nonempty
        rcases told_now with old | ⟨rfl, reported⟩
        · rw [← same, ← old] at nonempty ⊢
          exact (since nonempty).later other
        · rw [same] at reported
          apply Since.now _ other
          · exact ProtocolClient.followedPacket turn (followed, watcher.name)
          · rw [updated.told]
            exact List.mem_map_of_mem reported

theorem told_run {events : List Event} {server : Server Key}
    (run : Run (Guarded (fun _ event => QueriesInUpdate event) (Step lib)) {} events server) :
    Consistent events server ∧ Told events server.database.manager := by
  refine run.history_invariant
    (fun events server => Consistent events server ∧ Told events server.database.manager) ?_ ?_
  · refine ⟨consistent_start, ?_⟩
    intro follower followed watcher last
    cases last
  · rintro events before event after _ ⟨consistent, told⟩ ⟨queries, step⟩
    have effect := effect_of_step consistent step
    exact ⟨consistent_step consistent effect, told_step told effect queries⟩

/-- The number of a client is read back from its bytes. -/
theorem toBytes_id_inj {first second : Int16}
    (same : toBytes 2 first.toUInt16.toNat = toBytes 2 second.toUInt16.toNat) :
    first = second := by
  have read : ∀ id : Int16, LittleEndian.decode (toBytes 2 id.toUInt16.toNat) =
      id.toUInt16.toNat := fun id => LittleEndian.decode_encode 2 _ id.toUInt16.toNat_lt
  have numbers := congrArg LittleEndian.decode same
  rw [read, read] at numbers
  have unsigned : first.toUInt16 = second.toUInt16 := UInt16.toNat_inj.mp numbers
  rw [← Int16.toInt16_toUInt16 first, unsigned, Int16.toInt16_toUInt16]

theorem locationPacket_id {first second : Int16 × Position}
    (same : ProtocolClient.locationPacket first = ProtocolClient.locationPacket second) :
    first.1 = second.1 := by
  have bytes := congrArg (fun packet => packet.buffer.bytes) same
  simp only [ProtocolClient.locationPacket, Packet.bytes_push, Buffer.bytes_blank,
    List.nil_append, List.append_assoc] at bytes
  exact toBytes_id_inj (List.append_inj bytes (by simp [toBytes])).1

theorem Recorded.queued {news : Int16 × Bytes} {packet : Packet} (recorded : Recorded event)
    (told : (news, packet) ∈ event.told follower) : packet ∈ event.queued follower := by
  obtain ⟨positions, queued⟩ := recorded follower
  rw [queued]
  exact List.mem_append_left _ (List.mem_map_of_mem told)

/-- A list whose first part holds no such packet is cut in its second part. -/
theorem location_split (recorded : Recorded event) {news : Int16 × Position}
    {earlier later : List Packet}
    (split : event.queued follower = earlier ++ ProtocolClient.locationPacket news :: later) :
    ∀ told ∈ event.told follower, told.2 ∈ earlier := by
  obtain ⟨positions, queued⟩ := recorded follower
  rw [queued] at split
  rcases List.append_eq_append_iff.mp split with ⟨front, rfl, rest⟩ | ⟨back, named, rest⟩
  · exact fun told member => List.mem_append_left _ (List.mem_map_of_mem member)
  · cases back with
    | nil =>
        rw [List.append_nil] at named
        exact fun told member => named ▸ List.mem_map_of_mem member
    | cons packet back =>
        cases rest
        have member : ProtocolClient.locationPacket news ∈
            (event.told follower).map Prod.snd := by
          rw [named]
          simp
        obtain ⟨⟨name, packet⟩, told, same⟩ := List.mem_map.mp member
        obtain ⟨_, _, _, _, _, rfl⟩ := Event.told_eq told
        cases congrArg Packet.type same

/-- An event queues places for those who wait for them. -/
theorem location_iff {before after : Server Key} (effect : Effect before event after) :
    (∃ position, ProtocolClient.locationPacket (followed, position) ∈ event.queued follower) ↔
      TellsPlace before event follower followed := by
  constructor
  · rintro ⟨position, member⟩
    cases effect with
    | create | advance | selfRegister | sendRemainingData | unregister | vanish | call
    | callThrows => cases member
    | ignore => simp [Event.queued] at member
    | @update queue client next turn names positions handed middle database acts alive registered
        posted named placed updated =>
        rw [Event.queued] at member
        split at member
        · rename_i own
          subst own
          refine ⟨queue, turn, _, acts, client, rfl, alive, registered, ?_⟩
          apply (getNewNames_queried named).1.awaits_iff.mp
          apply (getNewPositions_queried placed).1.positioned_iff.mp
          rcases List.mem_append.mp member with name | place
          · obtain ⟨news, _, same⟩ := List.mem_map.mp name
            cases congrArg Packet.type same
          · obtain ⟨news, there, same⟩ := List.mem_map.mp place
            have own : news.1 = followed := locationPacket_id same
            exact ⟨news.2, own ▸ there⟩
        · cases member
  · rintro ⟨queue, turn, packets, acts, client, rfl, alive, registered, awaits⟩
    cases effect with
    | ignore there unregistered =>
        rw [alive] at there
        cases there
        exact absurd registered unregistered
    | @update _ client next turn names positions handed middle database acts there _ posted named
        placed updated =>
        have moved := (getNewNames_queried named).1.awaits_iff.mpr awaits
        obtain ⟨position, told⟩ := (getNewPositions_queried placed).1.positioned_iff.mpr moved
        refine ⟨position, ?_⟩
        rw [Event.queued, if_pos rfl]
        exact List.mem_append_right _ (List.mem_map_of_mem told)

/-- Whoever waits for a place has been made to watch the client. -/
theorem Told.made {m : ClientDataManager} (told : Told past m)
    (awaits : m.Awaits follower followed) :
    ∃ reply, (.addFollower followed follower, reply) ∈ callsOf past := by
  obtain ⟨_, watcher, there, rfl, _⟩ := awaits
  obtain ⟨last, newest⟩ := newest_of_mem there
  exact (told follower watcher.id last newest).1

end Telling

/-- Whatever the bytes of a string are, a packet was made of the name before the place. -/
theorem name_made_first {past : List Event} {before after : Server Key} {event : Event}
    (run : Run (Guarded (fun _ event => QueriesInUpdate event) (Step lib)) {} past before)
    (step : Step lib before event after) : NameMadeFirst past before event := by
  obtain ⟨consistent, told⟩ := told_run run
  have effect := effect_of_step consistent step
  have recorded := recorded_run (run.of_guarded.snoc step)
  intro follower followed position earlier later split old made recent reply parts here
  have tells : TellsPlace before event follower followed :=
    (location_iff effect).mp ⟨position, by rw [split]; simp⟩
  obtain ⟨queue, turn, packets, acts, client, rfl, alive, registered, awaits⟩ := tells
  cases effect with
  | ignore there unregistered =>
      rw [alive] at there
      cases there
      exact absurd registered unregistered
  | @update _ client next turn names positions handed middle database acts there _ posted named
      placed updated =>
      obtain ⟨moved, _⟩ := getNewNames_queried named
      obtain ⟨_, watcher, watching, rfl, _⟩ := moved.awaits_iff.mpr awaits
      obtain ⟨second, newest⟩ := newest_of_mem watching
      have current : second.name = before.database.manager.nameOf watcher.id :=
        moved.current newest awaits.1
      obtain ⟨first, origin, told_now⟩ := newest_named moved newest
      rw [current] at told_now
      rcases told_now with same | ⟨_, reported⟩
      · -- the name was told by an earlier update, after the watcher was made
        obtain ⟨_, since⟩ := told client.id watcher.id first origin
        rw [same] at since
        obtain ⟨packet, member⟩ := since awaits.1 old made recent reply parts here
        refine ⟨packet, ?_, List.mem_append_left _ ?_⟩
        · rw [List.flatMap_append]
          exact List.mem_append_left _ member
        · obtain ⟨other, there, member⟩ := List.mem_flatMap.mp member
          refine List.mem_flatMap.mpr ⟨other, there, (recorded other ?_).queued member⟩
          rw [parts]
          simp [there]
      · -- this update tells it
        have now : ((watcher.id, before.database.manager.nameOf watcher.id),
            ProtocolClient.followedPacket turn
              (watcher.id, before.database.manager.nameOf watcher.id)) ∈ (Event.update queue
              client.id turn (names.map (ProtocolClient.followedPacket turn) ++
                positions.map ProtocolClient.locationPacket) acts).told client.id := by
          rw [updated.told]
          exact List.mem_map_of_mem reported
        refine ⟨_, ?_, List.mem_append_right _ (location_split (recorded _ (by simp)) split _ now)⟩
        rw [List.flatMap_append, List.flatMap_singleton]
        exact List.mem_append_right _ now

end Locus.Server
