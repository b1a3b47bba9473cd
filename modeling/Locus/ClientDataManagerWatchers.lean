import Locus.ClientDataManagerEntries

set_option autoImplicit false

/- The newest of the watchers that a follower has on a client. It was made by the last
`addFollower` for the two. -/
namespace Locus.ClientDataManager

/-- The newest of the watchers on a client; new ones stand at the end. -/
def newest (watched : Int16) (watchers : List Watcher) : Option Watcher :=
  watchers.reverse.find? (·.id = watched)

def newestWatcher (m : ClientDataManager) (follower watched : Int16) : Option Watcher :=
  newest watched (m.followingOf follower)

theorem newest_map {move : Watcher → Watcher} (sameId : ∀ watcher, (move watcher).id = watcher.id)
    (watched : Int16) (watchers : List Watcher) :
    newest watched (watchers.map move) = (newest watched watchers).map move := by
  have same : (fun watcher => decide (watcher.id = watched)) ∘ move =
      fun watcher => decide (watcher.id = watched) := by
    funext watcher
    rw [Function.comp_apply, sameId]
  rw [newest, newest, ← List.map_reverse, List.find?_map, same]

theorem newest_append (watched : Int16) (watchers : List Watcher) (watcher : Watcher) :
    newest watched (watchers ++ [watcher]) =
      if watcher.id = watched then some watcher else newest watched watchers := by
  simp only [newest, List.reverse_append, List.reverse_singleton, List.singleton_append,
    List.find?_cons]
  split <;> simp_all

/-- Cutting the link to one client takes all the watchers on it and no other. -/
theorem newest_filter {watched owner : Int16} {watchers : List Watcher} {watcher : Watcher}
    (last : newest watched (watchers.filter (·.id ≠ owner)) = some watcher) :
    newest watched watchers = some watcher := by
  have other : watched ≠ owner := by
    rintro rfl
    have kept := List.mem_of_find?_eq_some last
    have found := List.find?_some last
    simp_all
  rw [← last, newest, newest, ← List.filter_reverse, List.find?_filter]
  congr 1
  funext candidate
  by_cases same : candidate.id = watched <;> simp [same, other]

theorem newest_id {watched : Int16} {watchers : List Watcher} {watcher : Watcher}
    (last : newest watched watchers = some watcher) : watcher.id = watched := by
  simpa using List.find?_some last

theorem newest_mem {watched : Int16} {watchers : List Watcher} {watcher : Watcher}
    (last : newest watched watchers = some watcher) : watcher ∈ watchers :=
  List.mem_reverse.mp (List.mem_of_find?_eq_some last)

theorem newest_of_mem {watchers : List Watcher} {watcher : Watcher} (member : watcher ∈ watchers) :
    ∃ last, newest watcher.id watchers = some last := by
  rw [← Option.isSome_iff_exists, newest, List.find?_isSome]
  exact ⟨watcher, List.mem_reverse.mpr member, by simp⟩

/-- A query moves the newest watcher like all the others. -/
theorem Queried.newest {β : Type}
    {watch : ClientData → Watcher → Watcher × List (Int16 × β)} {id watched : Int16}
    {before after : ClientDataManager} {found : List (Int16 × β)}
    (queried : Queried watch id before after found) (keepsId : KeepsId watch) :
    after.newestWatcher id watched = (before.newestWatcher id watched).map
      (fun watcher => (watch (before.recordOf watcher.id) watcher).1) := by
  rw [newestWatcher, queried.moved, newest_map fun watcher => keepsId.moved _ watcher]
  rfl

/-- The newest watcher has no name if the call made it; otherwise it has the one it had. -/
theorem newest_called {before after : Database} {op : Op} {reply : Reply}
    {follower watched : Int16} {watcher : Watcher} (effect : Effect before op reply after)
    (quiet : ∀ caller, op ≠ .getNewNames caller)
    (last : after.manager.newestWatcher follower watched = some watcher) :
    (op = .addFollower watched follower ∧ watcher.name = []) ∨
      (op ≠ .addFollower watched follower ∧
        ∃ earlier, before.manager.newestWatcher follower watched = some earlier ∧
          earlier.name = watcher.name) := by
  rw [newestWatcher, followingOf_step effect] at last
  cases op with
  | registerClient | unregister | addPosition | getNameId | setName =>
      exact .inr ⟨by simp, watcher, last, rfl⟩
  | addFollower owner other =>
      simp only [relist] at last
      split at last
      · rename_i own
        rw [newest_append] at last
        split at last
        · rename_i same
          cases last
          subst own same
          exact .inl ⟨rfl, rfl⟩
        · rename_i apart
          refine .inr ⟨?_, watcher, last, rfl⟩
          rintro ⟨⟩
          exact apart rfl
      · rename_i apart
        refine .inr ⟨?_, watcher, last, rfl⟩
        rintro ⟨⟩
        exact apart rfl
  | removeFollower | stopFollowing =>
      refine .inr ⟨by simp, watcher, ?_, rfl⟩
      simp only [relist] at last
      split at last
      · exact newest_filter last
      · exact last
  | getNewPositions caller =>
      simp only [relist] at last
      split at last
      · rw [newest_map fun watcher => watchPositions_keepsId.moved _ watcher] at last
        obtain ⟨earlier, there, rfl⟩ := Option.map_eq_some_iff.mp last
        have sameName := (watchPositions_spec (before.manager.recordOf earlier.id) earlier).2.1
        exact .inr ⟨by simp, earlier, there, sameName.symm⟩
      · exact .inr ⟨by simp, watcher, last, rfl⟩
  | getNewNames caller => exact absurd rfl (quiet caller)

/-- After a query for names the newest watcher has the name it had or one that is reported. -/
theorem newest_named {id follower watched : Int16} {before after : ClientDataManager}
    {names : List (Int16 × Bytes)} {watcher : Watcher}
    (queried : Queried watchName id before after names)
    (last : after.newestWatcher follower watched = some watcher) :
    ∃ earlier, before.newestWatcher follower watched = some earlier ∧
      (earlier.name = watcher.name ∨ follower = id ∧ (watched, watcher.name) ∈ names) := by
  by_cases own : follower = id
  · subst own
    rw [queried.newest watchName_keepsId] at last
    obtain ⟨earlier, there, rfl⟩ := Option.map_eq_some_iff.mp last
    refine ⟨earlier, there, ?_⟩
    rcases watchName_told (before.recordOf earlier.id) earlier with same | told
    · exact .inl same.symm
    · refine .inr ⟨rfl, ?_⟩
      rw [queried.reported, ← newest_id there]
      exact List.mem_flatMap.mpr ⟨earlier, newest_mem there, told⟩
  · rw [newestWatcher, queried.others follower own] at last
    exact ⟨watcher, last, .inl rfl⟩

/-- After a query for names its caller has been told the name that there is. -/
theorem Queried.current {id watched : Int16} {before after : ClientDataManager}
    {names : List (Int16 × Bytes)} {watcher : Watcher}
    (queried : Queried watchName id before after names)
    (last : after.newestWatcher id watched = some watcher)
    (named : before.nameOf watched ≠ []) : watcher.name = before.nameOf watched := by
  rw [queried.newest watchName_keepsId] at last
  obtain ⟨earlier, there, rfl⟩ := Option.map_eq_some_iff.mp last
  rw [← newest_id there, nameOf_eq] at named ⊢
  exact (watchName_spec _ earlier).2.2 named

/-- A query for names reports the names that its caller has not been told. -/
theorem Queried.renamed {id watched : Int16} {before after : ClientDataManager}
    {names : List (Int16 × Bytes)} {name : Bytes}
    (queried : Queried watchName id before after names) (member : (watched, name) ∈ names) :
    ∃ watcher ∈ before.followingOf id, watcher.id = watched ∧
      before.nameOf watched = name ∧ name ≠ [] ∧ name ≠ watcher.name := by
  rw [queried.reported] at member
  obtain ⟨watcher, there, reported⟩ := List.mem_flatMap.mp member
  unfold watchName at reported
  split at reported
  · rename_i fresh
    cases List.mem_singleton.mp reported
    exact ⟨watcher, there, rfl, nameOf_eq _ _, fresh⟩
  · cases reported

/-- A follower has not been told the last place of a client with a name. -/
def Awaits (m : ClientDataManager) (follower watched : Int16) : Prop :=
  m.nameOf watched ≠ [] ∧ ∃ watcher ∈ m.followingOf follower, watcher.id = watched ∧
    ∃ position, m.lastPosition watched = some position ∧ position.time > watcher.time

/-- A watcher reports something if the client has a name and a place later than its mark. -/
theorem watchPositions_finds (followed : ClientData) (watcher : Watcher) :
    (∃ news, news ∈ (watchPositions followed watcher).2) ↔ followed.name ≠ [] ∧
      ∃ position, followed.positions.getLast? = some position ∧
        position.time > watcher.time := by
  by_cases silent : followed.positions = [] ∨ followed.name = []
  · rw [watchPositions_silent silent]
    constructor
    · rintro ⟨news, ⟨⟩⟩
    · rintro ⟨named, position, last, _⟩
      rcases silent with nowhere | unnamed
      · rw [nowhere] at last
        cases last
      · exact absurd unnamed named
  · obtain ⟨somewhere, named⟩ := not_or.mp silent
    have last := List.getLast?_eq_some_getLast somewhere
    rw [watchPositions_eq last named]
    constructor
    · rintro ⟨news, member⟩
      split at member
      · rename_i new
        exact ⟨named, _, last, new⟩
      · cases member
    · rintro ⟨_, position, same, new⟩
      rw [last] at same
      cases same
      rw [if_pos new]
      refine ⟨_, List.mem_replicate.mpr ⟨?_, rfl⟩⟩
      split <;> simp

/-- Places are reported to those who wait for them. -/
theorem Queried.positioned_iff {id watched : Int16} {before after : ClientDataManager}
    {positions : List (Int16 × Position)}
    (queried : Queried watchPositions id before after positions) :
    (∃ position, (watched, position) ∈ positions) ↔ before.Awaits id watched := by
  rw [queried.reported, Awaits, nameOf_eq, lastPosition_eq]
  constructor
  · rintro ⟨position, member⟩
    obtain ⟨watcher, there, reported⟩ := List.mem_flatMap.mp member
    have own : watched = watcher.id := watchPositions_keepsId.found _ watcher _ reported
    subst own
    obtain ⟨named, new⟩ := (watchPositions_finds _ watcher).mp ⟨_, reported⟩
    exact ⟨named, watcher, there, rfl, new⟩
  · rintro ⟨named, watcher, there, rfl, new⟩
    obtain ⟨news, reported⟩ := (watchPositions_finds _ watcher).mpr ⟨named, new⟩
    have own : news.1 = watcher.id := watchPositions_keepsId.found _ watcher _ reported
    exact ⟨news.2, List.mem_flatMap.mpr ⟨watcher, there, own ▸ reported⟩⟩

/-- A query for names leaves the places that are to be told. -/
theorem Queried.awaits_iff {id follower watched : Int16} {before after : ClientDataManager}
    {names : List (Int16 × Bytes)} (queried : Queried watchName id before after names) :
    after.Awaits follower watched ↔ before.Awaits follower watched := by
  rw [Awaits, Awaits, queried.names, queried.positions]
  by_cases own : follower = id
  · subst own
    rw [queried.moved]
    simp only [List.mem_map, exists_exists_and_eq_and]
    have spec := fun watcher => watchName_spec (before.recordOf watcher.id) watcher
    simp only [(spec _).1, (spec _).2.1]
  · rw [queried.others follower own]

end Locus.ClientDataManager
