import Locus.ClientDataManagerNames

set_option autoImplicit false

/- What there is for a follower to see: the marks of its watchers against the names
and the last positions of the clients they watch. -/
namespace Locus.ClientDataManager

/-- The record of a client, an empty one where there is none. -/
def recordOf (m : ClientDataManager) (id : Int16) : ClientData := (m.clientsData id).getD {}

/-- The position that followers are told. -/
def lastPosition (m : ClientDataManager) (id : Int16) : Option Position :=
  m.clientsData.view (fun data => data.positions.getLast?) none id

theorem nameOf_eq (m : ClientDataManager) (id : Int16) : m.nameOf id = (m.recordOf id).name := by
  simp only [nameOf, recordOf, KeyMap.view]
  cases m.clientsData id <;> rfl

theorem lastPosition_eq (m : ClientDataManager) (id : Int16) :
    m.lastPosition id = (m.recordOf id).positions.getLast? := by
  simp only [lastPosition, recordOf, KeyMap.view]
  cases m.clientsData id <;> rfl

/-- A watcher that has not been told the name or the last position. -/
def HasNews (m : ClientDataManager) (watcher : Watcher) : Prop :=
  m.nameOf watcher.id ≠ [] ∧
    (watcher.name ≠ m.nameOf watcher.id ∨
      ∃ position, m.lastPosition watcher.id = some position ∧ position.time > watcher.time)

/-- A client has a watcher with news. -/
def Outstanding (m : ClientDataManager) (id : Int16) : Prop :=
  ∃ watcher ∈ m.followingOf id, m.HasNews watcher

/-- A query that comes to its end has visited every watcher. -/
theorem visitFollowing_all {β : Type} {watch : ClientData → Watcher → Watcher × List β}
    {clientsData : KeyMap Int16 ClientData} (watchers : List Watcher) :
    ∀ following found, visitFollowing watch clientsData watchers = (following, .ok found) →
      following = watchers.map
        (fun watcher => (watch ((clientsData watcher.id).getD {}) watcher).1) ∧
      found = watchers.flatMap
        (fun watcher => (watch ((clientsData watcher.id).getD {}) watcher).2) := by
  induction watchers with
  | nil =>
      intro following found visited
      cases visited
      exact ⟨rfl, rfl⟩
  | cons watcher rest ih =>
      intro following found visited
      simp only [visitFollowing] at visited
      cases present : clientsData watcher.id with
      | none =>
          rw [present] at visited
          cases visited
      | some followed =>
          rw [present] at visited
          cases tail : (visitFollowing watch clientsData rest).2 with
          | error fault =>
              simp only [tail, Except.map] at visited
              cases visited
          | ok others =>
              obtain ⟨moved, reported⟩ := ih _ others (Prod.ext rfl tail)
              simp only [tail, Except.map, Prod.mk.injEq, Except.ok.injEq] at visited
              obtain ⟨rfl, rfl⟩ := visited
              rw [List.map_cons, List.flatMap_cons, ← moved, ← reported, present]
              exact ⟨rfl, rfl⟩

/-- What a query does: it moves the watchers of its caller and nothing else. -/
structure Queried {β : Type} (watch : ClientData → Watcher → Watcher × List β) (id : Int16)
    (before after : ClientDataManager) (found : List β) : Prop where
  moved : after.followingOf id = (before.followingOf id).map
    (fun watcher => (watch (before.recordOf watcher.id) watcher).1)
  others : ∀ other, other ≠ id → after.followingOf other = before.followingOf other
  names : ∀ other, after.nameOf other = before.nameOf other
  positions : ∀ other, after.lastPosition other = before.lastPosition other
  reported : found = (before.followingOf id).flatMap
    (fun watcher => (watch (before.recordOf watcher.id) watcher).2)

theorem queried_of_visited {β : Type} {watch : ClientData → Watcher → Watcher × List β}
    {m : ClientDataManager} {id : Int16} {mine : ClientData} {following : List Watcher}
    {found : List β} (hereData : m.clientsData id = some mine)
    (visited : visitFollowing watch m.clientsData mine.following = (following, .ok found)) :
    Queried watch id m
      { m with clientsData := m.clientsData.modify id (·.setFollowing following) } found := by
  obtain ⟨moved, reported⟩ := visitFollowing_all mine.following following found visited
  have mine_eq : m.followingOf id = mine.following := KeyMap.view_of_some _ _ hereData
  refine ⟨?_, ?_, ?_, ?_, ?_⟩
  · rw [mine_eq]
    exact (KeyMap.view_modify_self _ _ _ hereData).trans moved
  · intro other apart
    exact KeyMap.view_modify_of_ne _ _ _ _ apart
  · intro other
    exact KeyMap.view_modify_kept _ _ _ _ _ _ fun _ _ => rfl
  · intro other
    exact KeyMap.view_modify_kept _ _ _ _ _ _ fun _ _ => rfl
  · rw [mine_eq]
    exact reported

theorem getNewNames_queried {before after : Database} {id : Int16}
    {names : List (Int16 × Bytes)}
    (effect : Effect before (.getNewNames id) (.names names) after) :
    Queried watchName id before.manager after.manager names ∧ after.posted = before.posted := by
  cases effect with
  | getNewNames hereData visited => exact ⟨queried_of_visited hereData visited, rfl⟩

theorem getNewPositions_queried {before after : Database} {id : Int16}
    {positions : List (Int16 × Position)}
    (effect : Effect before (.getNewPositions id) (.positions positions) after) :
    Queried watchPositions id before.manager after.manager positions ∧
      after.posted = before.posted := by
  cases effect with
  | getNewPositions hereData visited => exact ⟨queried_of_visited hereData visited, rfl⟩

/-- The time a watcher is moved to is at least the time of the position it is told. -/
theorem pickPositions_time (watcher : Watcher) (position : Position) (first : Bool) (room : Nat) :
    ∀ (newTime : Int) (picked : List (Int16 × Position)),
    newTime ≤ (pickPositions watcher position first room newTime picked).2 ∧
    (room ≠ 0 → position.time > watcher.time →
      position.time ≤ (pickPositions watcher position first room newTime picked).2) := by
  induction room with
  | zero => exact fun newTime picked => ⟨Int.le_refl _, fun impossible => absurd rfl impossible⟩
  | succ room ih =>
      intro newTime picked
      simp only [pickPositions]
      split
      · split
        · dsimp only
          omega
        · have later := (ih (max newTime position.time) (picked ++ [(watcher.id, position)])).1
          omega
      · rename_i old
        exact ⟨Int.le_refl _, fun _ new => absurd new old⟩

/-- A watcher that has been told the name. -/
theorem watchName_spec (followed : ClientData) (watcher : Watcher) :
    (watchName followed watcher).1.id = watcher.id ∧
    (watchName followed watcher).1.time = watcher.time ∧
    (followed.name ≠ [] → (watchName followed watcher).1.name = followed.name) := by
  refine ⟨watchName_keepsId.moved followed watcher, ?_, ?_⟩
  · unfold watchName
    split <;> rfl
  · intro named
    unfold watchName
    split
    · rfl
    · rename_i told
      by_contra other
      exact told ⟨named, fun same => other same.symm⟩

/-- A watcher that has been told the last position. -/
theorem watchPositions_spec (followed : ClientData) (watcher : Watcher) :
    (watchPositions followed watcher).1.id = watcher.id ∧
    (watchPositions followed watcher).1.name = watcher.name ∧
    watcher.time ≤ (watchPositions followed watcher).1.time ∧
    (followed.name ≠ [] → ∀ position, followed.positions.getLast? = some position →
      position.time ≤ (watchPositions followed watcher).1.time) := by
  refine ⟨watchPositions_keepsId.moved followed watcher, ?_, ?_, ?_⟩
  · unfold watchPositions
    split
    · rfl
    · split <;> rfl
  · unfold watchPositions
    split
    · exact Int.le_refl _
    · split
      · exact Int.le_refl _
      · dsimp only
        omega
  · intro named position last
    simp only [watchPositions, last, if_neg named]
    by_cases new : position.time > watcher.time
    · have reached := (pickPositions_time watcher position (followed.positions.length = 1)
        maxPositionsPerFollowingId 0 []).2 (by decide) new
      omega
    · omega

section Queries

variable {id : Int16} {before after : ClientDataManager}

/-- A query makes no news. -/
theorem Queried.outstanding {β : Type} {watch : ClientData → Watcher → Watcher × List β}
    {found : List β} (queried : Queried watch id before after found)
    (less : ∀ watcher, after.HasNews (watch (before.recordOf watcher.id) watcher).1 →
      before.HasNews watcher) {other : Int16} (outstanding : after.Outstanding other) :
    before.Outstanding other := by
  obtain ⟨watcher, member, news⟩ := outstanding
  by_cases same : other = id
  · subst same
    rw [queried.moved] at member
    obtain ⟨earlier, there, rfl⟩ := List.mem_map.mp member
    exact ⟨earlier, there, less earlier news⟩
  · rw [queried.others other same] at member
    refine ⟨watcher, member, ?_⟩
    simpa only [HasNews, queried.names, queried.positions] using news

theorem names_less {names : List (Int16 × Bytes)}
    (queried : Queried watchName id before after names) (watcher : Watcher)
    (news : after.HasNews (watchName (before.recordOf watcher.id) watcher).1) :
    before.HasNews watcher := by
  obtain ⟨sameId, sameTime, told⟩ := watchName_spec (before.recordOf watcher.id) watcher
  obtain ⟨named, fresh⟩ := news
  rw [queried.names, sameId] at named
  refine ⟨named, ?_⟩
  rcases fresh with other | ⟨position, last, new⟩
  · rw [queried.names, sameId] at other
    exact absurd (told (nameOf_eq before _ ▸ named)) (nameOf_eq before _ ▸ other)
  · rw [queried.positions, sameId] at last
    rw [sameTime] at new
    exact .inr ⟨position, last, new⟩

theorem positions_less {positions : List (Int16 × Position)}
    (queried : Queried watchPositions id before after positions) (watcher : Watcher)
    (news : after.HasNews (watchPositions (before.recordOf watcher.id) watcher).1) :
    before.HasNews watcher := by
  obtain ⟨sameId, sameName, later, _⟩ :=
    watchPositions_spec (before.recordOf watcher.id) watcher
  obtain ⟨named, fresh⟩ := news
  rw [queried.names, sameId] at named
  refine ⟨named, ?_⟩
  rcases fresh with other | ⟨position, last, new⟩
  · rw [queried.names, sameId, sameName] at other
    exact .inl other
  · rw [queried.positions, sameId] at last
    exact .inr ⟨position, last, Int.lt_of_le_of_lt later new⟩

/-- After both queries their caller has seen everything. -/
theorem not_outstanding_of_queries {middle : ClientDataManager} {names : List (Int16 × Bytes)}
    {positions : List (Int16 × Position)} (named : Queried watchName id before middle names)
    (placed : Queried watchPositions id middle after positions) : ¬ after.Outstanding id := by
  rintro ⟨watcher, member, known, fresh⟩
  rw [placed.moved, named.moved] at member
  obtain ⟨told, there, rfl⟩ := List.mem_map.mp member
  obtain ⟨first, _, rfl⟩ := List.mem_map.mp there
  obtain ⟨firstId, _, sameName⟩ := watchName_spec (before.recordOf first.id) first
  generalize (watchName (before.recordOf first.id) first).1 = told at *
  obtain ⟨toldId, keptName, _, sameTime⟩ :=
    watchPositions_spec (middle.recordOf told.id) told
  generalize (watchPositions (middle.recordOf told.id) told).1 = watcher at *
  rw [placed.names, toldId] at known
  rw [placed.names, placed.positions, toldId] at fresh
  rcases fresh with other | ⟨position, last, new⟩
  · rw [named.names, firstId, nameOf_eq] at known other
    exact other (keptName.trans (sameName known))
  · rw [lastPosition_eq] at last
    rw [nameOf_eq] at known
    have seen := sameTime known position last
    omega

end Queries

theorem mem_queuesOf {m : ClientDataManager} {ids : List Int16} {id : Int16} {queue : QueueRef}
    (listed : id ∈ ids) (entry : m.clientsQueue id = some queue) : queue ∈ m.queuesOf ids :=
  List.mem_filterMap.mpr ⟨id, listed, entry⟩

/-- A watcher's owner is among the followers of the client it watches. -/
theorem FollowSymmetric.listed {m : ClientDataManager} (symmetric : FollowSymmetric m)
    {id : Int16} {watcher : Watcher} (member : watcher ∈ m.followingOf id) :
    id ∈ m.followersOf watcher.id := by
  rw [← List.count_pos_iff, symmetric.balanced, List.countP_pos_iff]
  exact ⟨watcher, member, by simp⟩

/-- Fewer watchers over the same names and positions have no more news. -/
theorem outstanding_of_same {before after : ClientDataManager} {id : Int16}
    (following : ∀ watcher ∈ after.followingOf id, watcher ∈ before.followingOf id)
    (names : ∀ other, after.nameOf other = before.nameOf other)
    (positions : ∀ other, after.lastPosition other = before.lastPosition other)
    (outstanding : after.Outstanding id) : before.Outstanding id := by
  obtain ⟨watcher, member, news⟩ := outstanding
  refine ⟨watcher, following watcher member, ?_⟩
  simpa only [HasNews, names, positions] using news

/-- News about one client reach its followers; the others see what they saw. -/
theorem outstanding_of_changed {before after : ClientDataManager} {id owner : Int16}
    (symmetric : FollowSymmetric before)
    (following : after.followingOf id = before.followingOf id)
    (names : ∀ other, other ≠ owner → after.nameOf other = before.nameOf other)
    (positions : ∀ other, other ≠ owner → after.lastPosition other = before.lastPosition other)
    (outstanding : after.Outstanding id) :
    before.Outstanding id ∨ id ∈ before.followersOf owner := by
  obtain ⟨watcher, member, news⟩ := outstanding
  rw [following] at member
  by_cases own : watcher.id = owner
  · rw [← own]
    exact .inr (symmetric.listed member)
  · refine .inl ⟨watcher, member, ?_⟩
    simpa only [HasNews, names _ own, positions _ own] using news

/-- Making a link adds a watcher at the end of one list. -/
theorem following_join {clientsData : KeyMap Int16 ClientData} {follower : Int16}
    {theirs : ClientData} (owner : Int16) (thereData : clientsData follower = some theirs)
    (id : Int16) :
    ((clientsData.modify owner (·.addFollower follower)).modify follower
        (·.startFollowing owner)).view ClientData.following [] id =
      if id = follower then clientsData.view ClientData.following [] id ++ [{ id := owner }]
      else clientsData.view ClientData.following [] id := by
  rw [join_comm, KeyMap.view_modify_kept _ _ _ _ _ _ (by exact fun _ _ => rfl)]
  split
  · rename_i own
    subst own
    rw [KeyMap.view_modify_self _ _ _ thereData, KeyMap.view_of_some _ _ thereData]
    rfl
  · rename_i apart
    exact KeyMap.view_modify_of_ne _ _ _ _ apart

/-- Cutting a link takes the watchers on one client out of one list. -/
theorem following_cut (clientsData : KeyMap Int16 ClientData) (owner follower id : Int16) :
    ((clientsData.modify owner (·.removeFollower follower)).modify follower
        (·.stopFollowing owner)).view ClientData.following [] id =
      if id = follower then (clientsData.view ClientData.following [] id).filter (·.id ≠ owner)
      else clientsData.view ClientData.following [] id := by
  rw [cut_comm, KeyMap.view_modify_kept _ _ _ _ _ _ (by exact fun _ _ => rfl)]
  split
  · rename_i own
    subst own
    cases present : clientsData id with
    | none =>
        rw [KeyMap.view_of_none _ _ present,
          KeyMap.view_of_none _ _ (by rw [KeyMap.modify_self, present]; rfl)]
        rfl
    | some data =>
        rw [KeyMap.view_modify_self _ _ _ present, KeyMap.view_of_some _ _ present]
        rfl
  · rename_i apart
    exact KeyMap.view_modify_of_ne _ _ _ _ apart

/-- Cutting a link only takes watchers away. -/
theorem following_cut_mem {clientsData : KeyMap Int16 ClientData} {owner follower id : Int16}
    {watcher : Watcher}
    (member : watcher ∈ ((clientsData.modify owner (·.removeFollower follower)).modify follower
        (·.stopFollowing owner)).view ClientData.following [] id) :
    watcher ∈ clientsData.view ClientData.following [] id := by
  rw [following_cut] at member
  split at member
  · exact (List.mem_filter.mp member).1
  · exact member

/-- A registration makes no news. -/
theorem outstanding_register {before after : Database} {key : Bytes} {queue : QueueRef}
    {reply : Reply} {id : Int16} (effect : Effect before (.registerClient key queue) reply after)
    (outstanding : after.manager.Outstanding id) : before.manager.Outstanding id := by
  cases effect with
  | registerKnown known => exact outstanding
  | registerFresh fresh =>
      refine outstanding_of_same ?_ ?_ ?_ outstanding
      · intro watcher member
        rwa [followingOf, KeyMap.view_insert _ _ _ _ _ _ rfl] at member
      · exact fun other => KeyMap.view_insert _ _ _ _ _ _ rfl
      · exact fun other => KeyMap.view_insert _ _ _ _ _ _ rfl

/-- A call that makes news for a client with a queue posts an `Update` to it. -/
theorem outstanding_step {before after : Database} {op : Op} {reply : Reply} {id : Int16}
    (symmetric : FollowSymmetric before.manager) (effect : Effect before op reply after)
    (outstanding : after.manager.Outstanding id) :
    before.manager.Outstanding id ∨
      ∀ queue, before.manager.clientsQueue id = some queue → queue ∈ after.posted := by
  cases effect with
  | registerKnown known => exact .inl outstanding
  | unregister => exact .inl outstanding
  | getNameId => exact .inl outstanding
  | setNameTaken taken hereData => exact .inl outstanding
  | registerFresh fresh => exact .inl (outstanding_register (.registerFresh fresh) outstanding)
  | @addFollower myId followerId mine theirs hereData thereData =>
      by_cases own : id = followerId
      · subst own
        refine .inr fun queue entry => List.mem_append_right _ (mem_queuesOf ?_ entry)
        exact List.mem_singleton_self _
      · refine .inl (outstanding_of_same ?_ ?_ ?_ outstanding)
        · intro watcher member
          rwa [followingOf, following_join _ thereData, if_neg own] at member
        · exact KeyMap.view_edits_kept (fun _ => rfl) (fun _ => rfl)
        · exact KeyMap.view_edits_kept (fun _ => rfl) (fun _ => rfl)
  | removeFollower hereData thereData =>
      refine .inl (outstanding_of_same ?_ ?_ ?_ outstanding)
      · exact fun _ member => following_cut_mem member
      · exact KeyMap.view_edits_kept (fun _ => rfl) (fun _ => rfl)
      · exact KeyMap.view_edits_kept (fun _ => rfl) (fun _ => rfl)
  | stopFollowing hereData thereData =>
      rw [← cut_comm] at outstanding
      refine .inl (outstanding_of_same ?_ ?_ ?_ outstanding)
      · exact fun _ member => following_cut_mem member
      · exact KeyMap.view_edits_kept (fun _ => rfl) (fun _ => rfl)
      · exact KeyMap.view_edits_kept (fun _ => rfl) (fun _ => rfl)
  | @addPosition myId latitude longitude time mine hereData =>
      have followers : before.manager.followersOf myId = mine.followers :=
        KeyMap.view_of_some _ _ hereData
      have reached : before.manager.Outstanding id ∨ id ∈ before.manager.followersOf myId := by
        refine outstanding_of_changed symmetric ?_ ?_ ?_ outstanding
        · exact KeyMap.view_modify_kept _ _ _ _ _ _ fun _ _ => rfl
        · exact fun _ _ => KeyMap.view_modify_kept _ _ _ _ _ _ fun _ _ => rfl
        · exact fun _ apart => KeyMap.view_modify_of_ne _ _ _ _ apart
      rw [followers] at reached
      exact reached.imp_right fun listed queue entry =>
        List.mem_append_right _ (mem_queuesOf listed entry)
  | @setNameFree myId name mine free hereData =>
      have followers : before.manager.followersOf myId = mine.followers :=
        KeyMap.view_of_some _ _ hereData
      have reached : before.manager.Outstanding id ∨ id ∈ before.manager.followersOf myId := by
        refine outstanding_of_changed symmetric ?_ ?_ ?_ outstanding
        · exact KeyMap.view_modify_kept _ _ _ _ _ _ fun _ _ => rfl
        · exact fun _ apart => KeyMap.view_modify_of_ne _ _ _ _ apart
        · exact fun _ _ => KeyMap.view_modify_kept _ _ _ _ _ _ fun _ _ => rfl
      rw [followers] at reached
      exact reached.imp_right fun listed queue entry =>
        List.mem_append_right _ (mem_queuesOf listed entry)
  | getNewNames hereData visited =>
      have queried := queried_of_visited hereData visited
      exact .inl (queried.outstanding (names_less queried) outstanding)
  | getNewPositions hereData visited =>
      have queried := queried_of_visited hereData visited
      exact .inl (queried.outstanding (positions_less queried) outstanding)

/-- What a call does to the list of a client. -/
def relist (m : ClientDataManager) (id : Int16) : Op → List Watcher
  | .addFollower owner follower =>
      if id = follower then m.followingOf id ++ [{ id := owner }] else m.followingOf id
  | .removeFollower owner follower | .stopFollowing follower owner =>
      if id = follower then (m.followingOf id).filter (·.id ≠ owner) else m.followingOf id
  | .getNewPositions caller =>
      if id = caller then
        (m.followingOf id).map fun watcher => (watchPositions (m.recordOf watcher.id) watcher).1
      else m.followingOf id
  | .getNewNames caller =>
      if id = caller then
        (m.followingOf id).map fun watcher => (watchName (m.recordOf watcher.id) watcher).1
      else m.followingOf id
  | _ => m.followingOf id

theorem Queried.relisted {β : Type} {watch : ClientData → Watcher → Watcher × List β}
    {caller : Int16} {before after : ClientDataManager} {found : List β}
    (queried : Queried watch caller before after found) (id : Int16) :
    after.followingOf id =
      if id = caller then
        (before.followingOf id).map fun watcher =>
          (watch (before.recordOf watcher.id) watcher).1
      else before.followingOf id := by
  split
  · rename_i own
    rw [own]
    exact queried.moved
  · rename_i apart
    exact queried.others id apart

theorem followingOf_step {before after : Database} {op : Op} {reply : Reply}
    (effect : Effect before op reply after) (id : Int16) :
    after.manager.followingOf id = before.manager.relist id op := by
  cases effect with
  | registerKnown | unregister | getNameId | setNameTaken => rfl
  | registerFresh fresh => exact KeyMap.view_insert _ _ _ _ _ _ rfl
  | addPosition | setNameFree => exact KeyMap.view_modify_kept _ _ _ _ _ _ fun _ _ => rfl
  | addFollower hereData thereData => exact following_join _ thereData id
  | removeFollower hereData thereData => exact following_cut _ _ _ id
  | stopFollowing hereData thereData =>
      rw [followingOf, ← cut_comm]
      exact following_cut _ _ _ id
  | getNewPositions hereData visited => exact (queried_of_visited hereData visited).relisted id
  | getNewNames hereData visited => exact (queried_of_visited hereData visited).relisted id

/-- A watcher gets a name only from a query for names. -/
theorem watcher_named {before after : Database} {op : Op} {reply : Reply} {id : Int16}
    {watcher : Watcher} (effect : Effect before op reply after)
    (other : ∀ caller, op ≠ .getNewNames caller)
    (member : watcher ∈ after.manager.followingOf id) :
    watcher.name = [] ∨ ∃ earlier ∈ before.manager.followingOf id,
      earlier.id = watcher.id ∧ earlier.name = watcher.name := by
  rw [followingOf_step effect] at member
  have kept : watcher ∈ before.manager.followingOf id →
      watcher.name = [] ∨ ∃ earlier ∈ before.manager.followingOf id,
        earlier.id = watcher.id ∧ earlier.name = watcher.name :=
    fun there => .inr ⟨watcher, there, rfl, rfl⟩
  cases op with
  | registerClient | unregister | addPosition | getNameId | setName => exact kept member
  | addFollower owner follower =>
      simp only [relist] at member
      split at member
      · rcases List.mem_append.mp member with old | new
        · exact kept old
        · rw [List.mem_singleton.mp new]
          exact .inl rfl
      · exact kept member
  | removeFollower | stopFollowing =>
      simp only [relist] at member
      split at member
      · exact kept (List.mem_filter.mp member).1
      · exact kept member
  | getNewPositions caller =>
      simp only [relist] at member
      split at member
      · obtain ⟨earlier, there, rfl⟩ := List.mem_map.mp member
        obtain ⟨sameId, sameName, _⟩ :=
          watchPositions_spec (before.manager.recordOf earlier.id) earlier
        exact .inr ⟨earlier, there, sameId.symm, sameName.symm⟩
      · exact kept member
  | getNewNames caller => exact absurd rfl (other caller)

/-- A watcher that a query for names gives a name to is reported by it. -/
theorem watchName_told (followed : ClientData) (watcher : Watcher) :
    (watchName followed watcher).1.name = watcher.name ∨
      (watcher.id, (watchName followed watcher).1.name) ∈ (watchName followed watcher).2 := by
  unfold watchName
  split
  · exact .inr (List.mem_singleton_self _)
  · exact .inl rfl

theorem Queried.told {id other : Int16} {before after : ClientDataManager}
    {names : List (Int16 × Bytes)} {watcher : Watcher}
    (queried : Queried watchName id before after names)
    (member : watcher ∈ after.followingOf other) :
    (∃ earlier ∈ before.followingOf other,
      earlier.id = watcher.id ∧ earlier.name = watcher.name) ∨
    (other = id ∧ (watcher.id, watcher.name) ∈ names) := by
  by_cases own : other = id
  · subst own
    rw [queried.moved] at member
    obtain ⟨earlier, there, rfl⟩ := List.mem_map.mp member
    obtain ⟨sameId, _⟩ := watchName_spec (before.recordOf earlier.id) earlier
    rcases watchName_told (before.recordOf earlier.id) earlier with same | told
    · exact .inl ⟨earlier, there, sameId.symm, same.symm⟩
    · refine .inr ⟨rfl, ?_⟩
      rw [queried.reported, sameId]
      exact List.mem_flatMap.mpr ⟨earlier, there, told⟩
  · rw [queried.others other own] at member
    exact .inl ⟨watcher, member, rfl, rfl⟩

end Locus.ClientDataManager
