import Locus.ClientDataManagerNews
import Locus.SessionsQueues

set_option autoImplicit false

/- Whoever has a queue and news to see has an `Update` message in the queue. -/
namespace Locus.Server

open Transition Program ClientDataManager

variable {Key : Type} {lib : CryptoLibrary Key}

/-- No client with a queue waits for news without an `Update` message in it. -/
def NewsPosted (server : Server Key) : Prop :=
  ∀ id queue, server.database.manager.clientsQueue id = some queue →
    server.database.manager.Outstanding id → queue ∈ server.database.posted

/-- The id that a registration of a key returns. -/
def idOf (m : ClientDataManager) (key : Bytes) : Int16 := (m.clientsId key).getD m.nextId

/-- A registration makes an entry for a client that has news to see. -/
def ReturnsToNews (before : Server Key) (event : Event) : Prop :=
  ∃ queue acts key reply, event = .selfRegister queue acts ∧
    (.registerClient key queue, reply) ∈ event.calls ∧
    before.database.manager.clientsQueue (idOf before.database.manager key) = none ∧
    before.database.manager.Outstanding (idOf before.database.manager key)

/-- A call throws at a post that is not its last one. -/
def SkipsPosts (before : Server Key) (event : Event) : Prop :=
  ∃ op made, event = .callThrows op made ∧ made ≠ postsOf before.database.manager op

/-- A client comes back to no news, a session takes its entry with it, and no post is left out. -/
structure Notified (before : Server Key) (event : Event) : Prop where
  returns : ¬ ReturnsToNews before event
  leaves : ¬ LeavesEntry before event
  posts : ¬ SkipsPosts before event

theorem registered_idOf {before after : Database} {key : Bytes} {queue : QueueRef} {id : Int16}
    (effect : ClientDataManager.Effect before (.registerClient key queue) (.id id) after) :
    idOf before.manager key = id := by
  cases effect with
  | registerKnown known => rw [idOf, known, Option.getD_some]
  | registerFresh fresh => rw [idOf, fresh, Option.getD_none]

theorem Consistent.symmetric {events : List Event} {server : Server Key}
    (consistent : Consistent events server) : FollowSymmetric server.database.manager := by
  obtain ⟨database, run, same⟩ := consistent.reached
  rw [← same]
  exact followSymmetric_run run

/-- An event that calls nobody and takes no message away. -/
theorem NewsPosted.silent {before after : Server Key} (posted : NewsPosted before)
    (manager : after.database.manager = before.database.manager)
    (kept : ∀ id queue, before.database.manager.clientsQueue id = some queue →
      queue ∈ before.database.posted → queue ∈ after.database.posted) : NewsPosted after := by
  intro id queue entry outstanding
  rw [manager] at entry outstanding
  exact kept id queue entry (posted id queue entry outstanding)

/-- A call that leaves the queues where they are posts for the news that it makes. -/
theorem NewsPosted.called {before : Server Key} {op : Op} {reply : Reply} {database : Database}
    (posted : NewsPosted before) (symmetric : FollowSymmetric before.database.manager)
    (called : ClientDataManager.Effect before.database op reply database)
    (queues : database.manager.clientsQueue = before.database.manager.clientsQueue) :
    NewsPosted { before with database } := by
  intro id queue entry outstanding
  change database.manager.clientsQueue id = some queue at entry
  change queue ∈ database.posted
  rw [queues] at entry
  rcases outstanding_step symmetric called outstanding with waiting | posts
  · obtain ⟨added, whole, _⟩ := posted_listed called
    rw [whole]
    exact List.mem_append_left _ (posted id queue entry waiting)
  · exact posts queue entry

/-- A client that registers had its queue before, or has no news. -/
theorem NewsPosted.registers {before : Server Key} {queue : QueueRef} {acts : List Act}
    {key : Bytes} {id : Int16} {database : Database}
    {sessions : KeyMap QueueRef (ProtocolClient Key)} (posted : NewsPosted before)
    (notified : Notified before (.selfRegister queue acts))
    (called : ClientDataManager.Effect before.database (.registerClient key queue) (.id id)
      database)
    (calls : acts.filterMap Act.call = [(.registerClient key queue, .id id)]) :
    NewsPosted { database, sessions } := by
  intro listed other entry outstanding
  obtain ⟨added, whole, _⟩ := posted_listed called
  change other ∈ database.posted
  change database.manager.clientsQueue listed = some other at entry
  rw [queues_register called, KeyMap.insert_apply] at entry
  have waiting := outstanding_register called outstanding
  have earlier : before.database.manager.clientsQueue listed = some other →
      other ∈ database.posted := by
    intro entry
    rw [whole]
    exact List.mem_append_left _ (posted listed other entry waiting)
  split at entry
  · rename_i own
    subst own
    cases present : before.database.manager.clientsQueue listed with
    | some found =>
        rw [present, Option.getD_some] at entry
        exact earlier (present.trans entry)
    | none =>
        have called_eq := registered_idOf called
        refine absurd ⟨queue, acts, key, .id listed, rfl, ?_, ?_, ?_⟩ notified.returns
        · rw [Event.calls, calls]
          exact List.mem_singleton_self _
        · rw [called_eq]
          exact present
        · rw [called_eq]
          exact waiting
  · exact earlier entry

/-- A client whose session has asked for the news has none left, and its message is taken. -/
theorem NewsPosted.asks {before : Server Key} {queue : QueueRef} {client : ProtocolClient Key}
    {names : List (Int16 × Bytes)} {positions : List (Int16 × Position)}
    {middle database : Database} {sessions : KeyMap QueueRef (ProtocolClient Key)}
    (posted : NewsPosted before) (owned : Owned before)
    (alive : before.sessions queue = some client)
    (named : ClientDataManager.Effect (before.popUpdate queue).database
      (.getNewNames client.id) (.names names) middle)
    (placed : ClientDataManager.Effect middle (.getNewPositions client.id)
      (.positions positions) database) :
    NewsPosted { database, sessions } := by
  obtain ⟨names_moved, first⟩ := getNewNames_queried named
  obtain ⟨positions_moved, second⟩ := getNewPositions_queried placed
  intro id other entry outstanding
  change other ∈ database.posted
  change database.manager.clientsQueue id = some other at entry
  rw [queues_shared placed rfl, queues_shared named rfl] at entry
  by_cases own : id = client.id
  · subst own
    exact absurd outstanding (not_outstanding_of_queries names_moved positions_moved)
  · have apart := owned.elsewhere entry alive fun _ => Ne.symm own
    have middle_it := positions_moved.outstanding (positions_less positions_moved) outstanding
    have waiting := names_moved.outstanding (names_less names_moved) middle_it
    rw [second, first]
    exact (List.mem_erase_of_ne apart).mpr (posted id other entry waiting)

theorem newsPosted_step {events : List Event} {before after : Server Key} {event : Event}
    (consistent : Consistent events before) (owned : Owned before) (posted : NewsPosted before)
    (effect : Effect before event after) (notified : Notified before event) :
    NewsPosted after := by
  cases effect with
  | create | advance | sendRemainingData => exact posted.silent rfl fun _ _ _ kept => kept
  | @selfRegister queue client after key database acts alive unregistered registered called calls =>
      exact posted.registers notified called calls
  | @update queue client after turn names positions handed middle database acts alive registered
      inQueue named placed updated =>
      exact posted.asks owned alive named placed
  | @ignore queue client turn alive unregistered inQueue =>
      refine posted.silent rfl fun id other entry kept => ?_
      have apart := owned.elsewhere entry alive fun standing => absurd standing unregistered
      exact (List.mem_erase_of_ne apart).mpr kept
  | @unregister queue client database acts alive positive called calls =>
      intro id other entry outstanding
      change database.manager.clientsQueue id = some other at entry
      change other ∈ database.posted.filter (· ≠ queue)
      rw [queues_unregister called] at entry
      obtain ⟨apart, entry⟩ := KeyMap.erase_eq_some entry
      have elsewhere := owned.elsewhere entry alive fun _ => Ne.symm apart
      cases called with
      | unregister =>
          refine List.mem_filter.mpr ⟨posted id other entry outstanding, ?_⟩
          simpa using elsewhere
  | @vanish queue client alive unnumbered =>
      refine posted.silent rfl fun id other entry kept => ?_
      have elsewhere := owned.elsewhere_vanished entry alive unnumbered notified.leaves
      exact List.mem_filter.mpr ⟨kept, by simpa using elsewhere⟩
  | @call op reply database shared called =>
      exact posted.called consistent.symmetric called (queues_shared called shared)
  | @callThrows op made database whole posting called manager refusal every some_of grown =>
      have all : made = postsOf before.database.manager op := by
        by_contra left_out
        exact notified.posts ⟨op, made, rfl, left_out⟩
      have told : NewsPosted { before with database := whole } :=
        posted.called consistent.symmetric called (queues_posting called posting)
      refine told.silent manager fun id queue entry waits => ?_
      change queue ∈ database.posted
      rw [grown, all, ← every]
      exact waits

/-- Every run in which clients come back to no news, and sessions take their entries with
them, keeps everyone informed. -/
theorem news_posted {events : List Event} {server : Server Key}
    (run : Run (Guarded Notified (Step lib)) {} events server) : NewsPosted server := by
  have holds : Consistent events server ∧ Owned server ∧ NewsPosted server := by
    refine run.history_invariant
      (fun events server => Consistent events server ∧ Owned server ∧ NewsPosted server) ?_ ?_
    · exact ⟨consistent_start, by simp [Owned], by simp [NewsPosted]⟩
    · rintro events before event after _ ⟨consistent, owned, posted⟩ ⟨notified, step⟩
      have effect := effect_of_step consistent step
      exact ⟨consistent_step consistent effect, owned_step owned effect notified.leaves,
        newsPosted_step consistent owned posted effect notified⟩
  exact holds.2.2

theorem notified_of_other {server : Server Key} {event : Event}
    (register : ∀ queue acts, event ≠ .selfRegister queue acts)
    (destroy : ∀ queue acts, event ≠ .destroy queue acts)
    (throws : ∀ op made, event ≠ .callThrows op made) : Notified server event := by
  constructor
  · rintro ⟨queue, acts, _, _, same, _⟩
    exact register queue acts same
  · rintro ⟨queue, acts, _, same, _⟩
    exact destroy queue acts same
  · rintro ⟨op, made, same, _⟩
    exact throws op made same

/-- A client registers, follows itself and takes a name, and another one whose only post is
refused. -/
def selfFollow : List Event :=
  arrival [5] 0 1 ++ [.call (.addFollower 1 1) .none, .call (.setName 1 [65]) (.accepted true),
    .callThrows (.setName 1 [66]) [0]]

theorem news_posted_selfFollow : ∃ server,
    Run (Guarded Notified (Step keyring)) {} selfFollow server ∧ NewsPosted server := by
  have quiet : Notified ({ sessions := KeyMap.empty.insert 0 (tested [5] 0) } : Server Bytes)
      (.selfRegister 0 [.stage .StableCommunication,
        .called (.registerClient [5] 0) (some (.id 1))]) := by
    constructor
    · rintro ⟨_, _, _, _, _, _, _, watcher, member, _⟩
      cases member
    · rintro ⟨_, _, _, same, _⟩
      cases same
    · rintro ⟨_, _, same, _⟩
      cases same
  have last : ∀ {server : Server Bytes},
      postsOf server.database.manager (.setName 1 [66]) = [0] →
      Notified server (.callThrows (.setName 1 [66]) [0]) := by
    intro server all
    refine ⟨?_, ?_, ?_⟩
    · rintro ⟨_, _, _, _, same, _⟩
      cases same
    · rintro ⟨_, _, _, same, _⟩
      cases same
    · rintro ⟨_, _, same, other⟩
      cases same
      exact other all.symm
  have run : Run (Guarded Notified (Step keyring)) {} selfFollow _ :=
    Run.append_iff.mpr ⟨_, arrival_guarded rfl rfl (notified_of_other (by simp) (by simp) (by simp))
      (notified_of_other (by simp) (by simp) (by simp)) quiet,
      .cons ⟨notified_of_other (by simp) (by simp) (by simp), .call rfl rfl⟩
        (.cons ⟨notified_of_other (by simp) (by simp) (by simp), .call rfl rfl⟩
          (.cons ⟨last rfl, @Step.callThrows _ _ _ _ (some 0) _ _ rfl rfl rfl⟩ .nil))⟩
  exact ⟨_, run, news_posted run⟩

/-- A client is renamed while its follower is away, and then the follower comes back. -/
def awayFollower : List Event :=
  arrival [5] 0 1 ++ (arrival [6] 1 2 ++ ([.call (.addFollower 1 2) .none,
    .destroy 1 [.called (.unregister 2) (some .none)],
    .call (.setName 1 [65]) (.accepted true)] ++ arrival [6] 2 2))

/-- Nobody tells the follower about the name that it has missed. -/
theorem awayFollower_not_posted : ∃ server,
    Run (Step keyring) {} awayFollower server ∧ ¬ NewsPosted server := by
  have positive : (arrived [6] 1 2).id > 0 := by decide
  have run : Run (Step keyring) {} awayFollower _ :=
    Run.append_iff.mpr ⟨_, arrival_run rfl rfl, Run.append_iff.mpr ⟨_, arrival_run rfl rfl,
      Run.append_iff.mpr ⟨_, .cons (.call rfl rfl) (.cons (.ended rfl positive)
        (.cons (.call rfl rfl) .nil)), arrival_run rfl rfl⟩⟩⟩
  refine ⟨_, run, ?_⟩
  intro posted
  have waits := posted 2 2 rfl ⟨{ id := 1 }, ?_, ?_⟩
  · revert waits
    decide
  · decide
  · exact ⟨by decide, .inl (by decide)⟩

end Locus.Server
