import Locus.ClientDataManagerStep
import Locus.Transition

set_option autoImplicit false

/- Who follows whom. The relation is stored twice, in the `followers` of the
followed client and in the watchers of the follower. -/
namespace Locus.ClientDataManager

open Transition

def followersOf (m : ClientDataManager) (id : Int16) : List Int16 :=
  m.clientsData.view ClientData.followers [] id

def followingOf (m : ClientDataManager) (id : Int16) : List Watcher :=
  m.clientsData.view ClientData.following [] id

/-- The ids of the clients that a record's watchers name, with repetitions. -/
def watchedIds (data : ClientData) : List Int16 := data.following.map Watcher.id

def watchedBy (m : ClientDataManager) (id : Int16) : List Int16 :=
  m.clientsData.view watchedIds [] id

/-- What a call does to the number of times `follower` follows `owner`. -/
def linkChange (owner follower : Int16) : Op → Option Change
  | .addFollower myId followerId =>
      if myId = owner ∧ followerId = follower then some .raise else none
  | .removeFollower myId followerId =>
      if myId = owner ∧ followerId = follower then some .clear else none
  | .stopFollowing myId followingId =>
      if myId = follower ∧ followingId = owner then some .clear else none
  | _ => none

/-- A watching query only moves the marks of watchers. -/
structure KeepsId {β : Type} (watch : ClientData → Watcher → Watcher × List (Int16 × β)) :
    Prop where
  moved : ∀ followed watcher, (watch followed watcher).1.id = watcher.id
  found : ∀ followed watcher news, news ∈ (watch followed watcher).2 → news.1 = watcher.id

theorem pickPositions_ids (watcher : Watcher) (position : Position) (first : Bool) (room : Nat) :
    ∀ (newTime : Int) (picked : List (Int16 × Position)),
    (∀ news ∈ picked, news.1 = watcher.id) →
    ∀ news ∈ (pickPositions watcher position first room newTime picked).1,
      news.1 = watcher.id := by
  induction room with
  | zero => exact fun _ _ own => own
  | succ room ih =>
      intro newTime picked own
      have grown : ∀ news ∈ picked ++ [(watcher.id, position)], news.1 = watcher.id := by
        intro news member
        rcases List.mem_append.mp member with old | new
        · exact own news old
        · rw [List.mem_singleton.mp new]
      simp only [pickPositions]
      split
      · split
        · exact grown
        · exact ih _ _ grown
      · exact own

theorem watchPositions_keepsId : KeepsId watchPositions := by
  constructor
  · intro followed watcher
    simp only [watchPositions]
    split
    · rfl
    · split <;> rfl
  · intro followed watcher news member
    simp only [watchPositions] at member
    split at member
    · cases member
    · split at member
      · cases member
      · exact pickPositions_ids watcher _ _ _ 0 [] (by simp) news member

theorem watchName_keepsId : KeepsId watchName := by
  constructor
  · intro followed watcher
    simp only [watchName]
    split <;> rfl
  · intro followed watcher news member
    simp only [watchName] at member
    split at member
    · rw [List.mem_singleton.mp member]
    · cases member

section Visit

variable {β : Type} {watch : ClientData → Watcher → Watcher × List (Int16 × β)}
  {clientsData : KeyMap Int16 ClientData}

theorem visitFollowing_ids (keeps : KeepsId watch) (watchers : List Watcher) :
    (visitFollowing watch clientsData watchers).1.map Watcher.id = watchers.map Watcher.id := by
  induction watchers with
  | nil => rfl
  | cons watcher rest ih =>
      simp only [visitFollowing]
      cases clientsData watcher.id with
      | none => rfl
      | some followed => simp only [List.map_cons, ih, keeps.moved]

/-- Everything a query reports is about a client that some watcher names. -/
theorem visitFollowing_found (keeps : KeepsId watch) (watchers : List Watcher) :
    ∀ found, (visitFollowing watch clientsData watchers).2 = .ok found →
      ∀ news ∈ found, news.1 ∈ watchers.map Watcher.id := by
  induction watchers with
  | nil =>
      intro found success news member
      cases success
      cases member
  | cons watcher rest ih =>
      intro found success news member
      simp only [visitFollowing] at success
      cases present : clientsData watcher.id with
      | none =>
          rw [present] at success
          cases success
      | some followed =>
          rw [present] at success
          cases tail : (visitFollowing watch clientsData rest).2 with
          | error fault =>
              simp only [tail] at success
              cases success
          | ok others =>
              simp only [tail, Except.map, Except.ok.injEq] at success
              subst success
              rcases List.mem_append.mp member with here | later
              · simp [keeps.found followed watcher news here]
              · exact List.mem_cons_of_mem _ (ih others tail news later)

/-- Look-ups of known clients do not throw. -/
theorem visitFollowing_returns (watchers : List Watcher)
    (known : ∀ watcher ∈ watchers, (clientsData watcher.id).isSome) :
    ∃ found, (visitFollowing watch clientsData watchers).2 = .ok found := by
  induction watchers with
  | nil => exact ⟨[], rfl⟩
  | cons watcher rest ih =>
      obtain ⟨followed, present⟩ := Option.isSome_iff_exists.mp (known watcher (by simp))
      obtain ⟨others, tail⟩ := ih fun other member => known other (List.mem_cons_of_mem _ member)
      refine ⟨(watch followed watcher).2 ++ others, ?_⟩
      simp only [visitFollowing, present, tail, Except.map]

end Visit

section Counts

variable (data : ClientData) (id other : Int16)

theorem count_addFollower : (data.addFollower id).followers.count other =
    Change.apply (if id = other then some .raise else none) (data.followers.count other) := by
  by_cases same : id = other <;> simp [ClientData.addFollower, same, Change.apply]

theorem count_startFollowing : (watchedIds (data.startFollowing id)).count other =
    Change.apply (if id = other then some .raise else none)
      ((watchedIds data).count other) := by
  by_cases same : id = other <;> simp [ClientData.startFollowing, watchedIds, same, Change.apply]

/-- Dropping every occurrence of a value clears its count and no other. -/
theorem count_filter_ne (ids : List Int16) : (ids.filter (· ≠ id)).count other =
    Change.apply (if id = other then some .clear else none) (ids.count other) := by
  by_cases same : id = other
  · have gone : other ∉ ids.filter (· ≠ id) := by simp [same]
    rw [List.count_eq_zero_of_not_mem gone, if_pos same]
    rfl
  · rw [List.count_filter (by simp [Ne.symm same]), if_neg same]
    rfl

theorem count_removeFollower : (data.removeFollower id).followers.count other =
    Change.apply (if id = other then some .clear else none) (data.followers.count other) :=
  count_filter_ne id other data.followers

theorem count_stopFollowing : (watchedIds (data.stopFollowing id)).count other =
    Change.apply (if id = other then some .clear else none)
      ((watchedIds data).count other) := by
  rw [watchedIds, ClientData.stopFollowing, ← count_filter_ne, watchedIds, List.filter_map]
  rfl

/-- An edit of one record changes the counts of that record only. -/
theorem count_modify {clientsData : KeyMap Int16 ClientData} {key : Int16} {mine : ClientData}
    (column : ClientData → List Int16) (edit : ClientData → ClientData)
    (change : Option Change) (present : clientsData key = some mine)
    (counted : ∀ data, (column (edit data)).count other =
      Change.apply change ((column data).count other)) :
    ((clientsData.modify key edit).view column [] id).count other =
      Change.apply (if id = key then change else none)
        ((clientsData.view column [] id).count other) := by
  by_cases here : id = key
  · subst here
    rw [KeyMap.view_modify_self _ _ _ present, KeyMap.view_of_some _ _ present, counted,
      if_pos rfl]
  · rw [KeyMap.view_modify_of_ne _ _ _ _ here, if_neg here]
    rfl

end Counts

/-- Both methods that cut a link make the same two edits, in opposite orders. -/
theorem cut_comm (clientsData : KeyMap Int16 ClientData) (owner follower : Int16) :
    (clientsData.modify owner (·.removeFollower follower)).modify follower
        (·.stopFollowing owner) =
      (clientsData.modify follower (·.stopFollowing owner)).modify owner
        (·.removeFollower follower) :=
  KeyMap.modify_comm _ _ _ _ _ fun _ => rfl

theorem join_comm (clientsData : KeyMap Int16 ClientData) (owner follower : Int16) :
    (clientsData.modify owner (·.addFollower follower)).modify follower
        (·.startFollowing owner) =
      (clientsData.modify follower (·.startFollowing owner)).modify owner
        (·.addFollower follower) :=
  KeyMap.modify_comm _ _ _ _ _ fun _ => rfl

/-- `followers` counts the links of each owner. -/
theorem followers_step {before after : Database} {op : Op} {reply : Reply}
    (effect : Effect before op reply after) (owner follower : Int16) :
    (after.manager.followersOf owner).count follower =
      Change.apply (linkChange owner follower op)
        ((before.manager.followersOf owner).count follower) := by
  simp only [followersOf]
  cases effect with
  | registerKnown known => rfl
  | registerFresh fresh =>
      rw [KeyMap.view_insert]
      · rfl
      · rfl
  | unregister => rfl
  | @addFollower myId followerId mine theirs hereData thereData =>
      rw [KeyMap.view_modify_kept _ _ _ followerId _ _ (by exact fun _ _ => rfl),
        count_modify owner follower _ _ _ hereData fun _ => count_addFollower _ _ _]
      simp only [linkChange, ite_and, eq_comm]
  | @removeFollower myId followerId mine theirs hereData thereData =>
      rw [KeyMap.view_modify_kept _ _ _ followerId _ _ (by exact fun _ _ => rfl),
        count_modify owner follower _ _ _ hereData fun _ => count_removeFollower _ _ _]
      simp only [linkChange, ite_and, eq_comm]
  | @stopFollowing myId followingId mine theirs hereData thereData =>
      rw [← cut_comm, KeyMap.view_modify_kept _ _ _ myId _ _ (by exact fun _ _ => rfl),
        count_modify owner follower _ _ _ thereData fun _ => count_removeFollower _ _ _]
      simp only [linkChange, ite_and, eq_comm, and_comm]
  | addPosition hereData =>
      rw [KeyMap.view_modify_kept _ _ _ _ _ _ (by exact fun _ _ => rfl)]
      rfl
  | getNewPositions hereData visited =>
      rw [KeyMap.view_modify_kept _ _ _ _ _ _ (by exact fun _ _ => rfl)]
      rfl
  | getNameId => rfl
  | setNameFree free hereData =>
      rw [KeyMap.view_modify_kept _ _ _ _ _ _ (by exact fun _ _ => rfl)]
      rfl
  | setNameTaken taken hereData => rfl
  | getNewNames hereData visited =>
      rw [KeyMap.view_modify_kept _ _ _ _ _ _ (by exact fun _ _ => rfl)]
      rfl

/-- A query moves marks inside watchers and keeps whom they watch. -/
theorem watchedIds_query {β : Type} {watch : ClientData → Watcher → Watcher × List (Int16 × β)}
    {clientsData : KeyMap Int16 ClientData} {id follower : Int16} {mine : ClientData}
    {following : List Watcher} {result : Except Fault (List (Int16 × β))}
    (keeps : KeepsId watch) (hereData : clientsData id = some mine)
    (visited : visitFollowing watch clientsData mine.following = (following, result)) :
    (clientsData.modify id (·.setFollowing following)).view watchedIds [] follower =
      clientsData.view watchedIds [] follower := by
  apply KeyMap.view_modify_kept
  intro stored present
  rw [hereData] at present
  cases present
  have ids : (visitFollowing watch clientsData mine.following).1.map Watcher.id =
      mine.following.map Watcher.id := visitFollowing_ids keeps mine.following
  rw [visited] at ids
  exact ids

/-- The watchers count the same links from the follower's side. -/
theorem watchers_step {before after : Database} {op : Op} {reply : Reply}
    (effect : Effect before op reply after) (owner follower : Int16) :
    (after.manager.watchedBy follower).count owner =
      Change.apply (linkChange owner follower op)
        ((before.manager.watchedBy follower).count owner) := by
  simp only [watchedBy]
  cases effect with
  | registerKnown known => rfl
  | registerFresh fresh =>
      rw [KeyMap.view_insert]
      · rfl
      · rfl
  | unregister => rfl
  | @addFollower myId followerId mine theirs hereData thereData =>
      rw [join_comm, KeyMap.view_modify_kept _ _ _ myId _ _ (by exact fun _ _ => rfl),
        count_modify follower owner _ _ _ thereData fun _ => count_startFollowing _ _ _]
      simp only [linkChange, ← ite_and, eq_comm, and_comm]
  | @removeFollower myId followerId mine theirs hereData thereData =>
      rw [cut_comm, KeyMap.view_modify_kept _ _ _ myId _ _ (by exact fun _ _ => rfl),
        count_modify follower owner _ _ _ thereData fun _ => count_stopFollowing _ _ _]
      simp only [linkChange, ← ite_and, eq_comm, and_comm]
  | @stopFollowing myId followingId mine theirs hereData thereData =>
      rw [KeyMap.view_modify_kept _ _ _ followingId _ _ (by exact fun _ _ => rfl),
        count_modify follower owner _ _ _ hereData fun _ => count_stopFollowing _ _ _]
      simp only [linkChange, ite_and, eq_comm]
  | addPosition hereData =>
      rw [KeyMap.view_modify_kept _ _ _ _ _ _ (by exact fun _ _ => rfl)]
      rfl
  | getNewPositions hereData visited =>
      rw [watchedIds_query watchPositions_keepsId hereData visited]
      rfl
  | getNameId => rfl
  | setNameFree free hereData =>
      rw [KeyMap.view_modify_kept _ _ _ _ _ _ (by exact fun _ _ => rfl)]
      rfl
  | setNameTaken taken hereData => rfl
  | getNewNames hereData visited =>
      rw [watchedIds_query watchName_keepsId hereData visited]
      rfl

/-- Records are never removed. -/
theorem known_step {before after : Database} {op : Op} {reply : Reply}
    (effect : Effect before op reply after) (id : Int16)
    (known : (before.manager.clientsData id).isSome) :
    (after.manager.clientsData id).isSome := by
  cases effect with
  | registerFresh fresh =>
      obtain ⟨stored, present⟩ := Option.isSome_iff_exists.mp known
      simp only [KeyMap.insert_of_some _ _ present, Option.isSome_some]
  | _ => first | exact known | simpa only [KeyMap.modify_isSome] using known

/-- The only call that raises a link names two records that exist. -/
theorem linkChange_raise {before after : Database} {op : Op} {reply : Reply}
    (effect : Effect before op reply after) {owner follower : Int16}
    (raised : linkChange owner follower op = some .raise) :
    (before.manager.clientsData owner).isSome ∧ (before.manager.clientsData follower).isSome := by
  cases effect with
  | @addFollower myId followerId mine theirs hereData thereData =>
      by_cases same : myId = owner ∧ followerId = follower
      · rw [← same.1, ← same.2, hereData, thereData]
        exact ⟨rfl, rfl⟩
      · simp [linkChange, same] at raised
  | _ =>
      simp only [linkChange] at raised
      first
        | cases raised
        | split at raised <;> cases raised

/-- How many times `follower` follows `owner` after a history of calls. -/
def linkCount (owner follower : Int16) (calls : List (Op × Reply)) : Nat :=
  tally (fun call => linkChange owner follower call.1) calls

section Runs

variable {calls : List (Op × Reply)} {database : Database}

theorem followers_run (run : Run Step {} calls database) (owner follower : Int16) :
    (database.manager.followersOf owner).count follower = linkCount owner follower calls := by
  refine run.history_invariant (fun calls (database : Database) =>
    (database.manager.followersOf owner).count follower = linkCount owner follower calls) rfl ?_
  intro calls before call after _ counted last
  rw [linkCount, tally_snoc, followers_step (step_iff_effect.mp last), counted, linkCount]

theorem watchers_run (run : Run Step {} calls database) (owner follower : Int16) :
    (database.manager.watchedBy follower).count owner = linkCount owner follower calls := by
  refine run.history_invariant (fun calls (database : Database) =>
    (database.manager.watchedBy follower).count owner = linkCount owner follower calls) rfl ?_
  intro calls before call after _ counted last
  rw [linkCount, tally_snoc, watchers_step (step_iff_effect.mp last), counted, linkCount]

/-- Both ends of a link have a record. -/
theorem link_known (run : Run Step {} calls database) {owner follower : Int16} :
    0 < linkCount owner follower calls →
      (database.manager.clientsData owner).isSome ∧
      (database.manager.clientsData follower).isSome := by
  refine run.history_invariant (fun calls (database : Database) =>
    0 < linkCount owner follower calls →
      (database.manager.clientsData owner).isSome ∧
      (database.manager.clientsData follower).isSome) ?_ ?_
  · exact fun positive => absurd positive (Nat.lt_irrefl 0)
  · intro calls before call after _ known last positive
    have effect := step_iff_effect.mp last
    rw [linkCount, tally_snoc] at positive
    have earlier : (before.manager.clientsData owner).isSome ∧
        (before.manager.clientsData follower).isSome := by
      cases change : linkChange owner follower call.1 with
      | none =>
          rw [change] at positive
          exact known positive
      | some kind =>
          cases kind with
          | raise => exact linkChange_raise effect change
          | clear =>
              rw [change] at positive
              exact absurd positive (Nat.lt_irrefl 0)
    exact ⟨known_step effect owner earlier.1, known_step effect follower earlier.2⟩

theorem mem_followersOf_iff (run : Run Step {} calls database) {owner follower : Int16} :
    follower ∈ database.manager.followersOf owner ↔ 0 < linkCount owner follower calls := by
  rw [← followers_run run, List.count_pos_iff]

theorem mem_watchedBy_iff (run : Run Step {} calls database) {owner follower : Int16} :
    owner ∈ database.manager.watchedBy follower ↔ 0 < linkCount owner follower calls := by
  rw [← watchers_run run, List.count_pos_iff]

end Runs

theorem watchedBy_eq (m : ClientDataManager) (id : Int16) :
    m.watchedBy id = (m.followingOf id).map Watcher.id := by
  cases present : m.clientsData id with
  | none => simp only [watchedBy, followingOf, KeyMap.view_of_none _ _ present, List.map_nil]
  | some data =>
      simp only [watchedBy, followingOf, KeyMap.view_of_some _ _ present, watchedIds]

/-- The ids a caller passes are keys of `clientsData`. -/
def Registered (m : ClientDataManager) : Op → Prop
  | .registerClient _ _ | .unregister _ | .getNameId _ => True
  | .addFollower myId otherId | .removeFollower myId otherId | .stopFollowing myId otherId =>
      (m.clientsData myId).isSome ∧ (m.clientsData otherId).isSome
  | .addPosition id _ _ _ | .getNewPositions id | .setName id _ | .getNewNames id =>
      (m.clientsData id).isSome

/-- In a run from the start every pipe takes what is posted. -/
theorem refusal_run {calls : List (Op × Reply)} {database : Database}
    (run : Run Step {} calls database) : database.refusal = none := by
  refine run.invariant (fun database => database.refusal = none) rfl ?_
  intro before call after calm last
  exact (refusal_step (step_iff_effect.mp last)).trans calm

/-- In a reachable state every call with registered ids returns: the look-ups of
the two queries find a record for every watcher. -/
theorem registered_returns {calls : List (Op × Reply)} {database : Database}
    (run : Run Step {} calls database) {op : Op} (registered : Registered database.manager op) :
    ∃ reply after, Step database (op, reply) after := by
  have watched {id : Int16} {mine : ClientData}
      (hereData : database.manager.clientsData id = some mine) :
      ∀ watcher ∈ mine.following, (database.manager.clientsData watcher.id).isSome := by
    intro watcher member
    have listed : watcher.id ∈ database.manager.watchedBy id := by
      rw [watchedBy, KeyMap.view_of_some _ _ hereData]
      exact List.mem_map_of_mem member
    exact (link_known run ((mem_watchedBy_iff run).mp listed)).1
  have takes := takes_of_calm (refusal_run run)
  simp only [step_iff_effect]
  cases op with
  | registerClient key queue =>
      cases known : database.manager.clientsId key with
      | none => exact ⟨_, _, .registerFresh known⟩
      | some id => exact ⟨_, _, .registerKnown known⟩
  | unregister id => exact ⟨_, _, .unregister⟩
  | addFollower myId followerId =>
      obtain ⟨mine, here⟩ := Option.isSome_iff_exists.mp registered.1
      obtain ⟨theirs, there⟩ := Option.isSome_iff_exists.mp registered.2
      exact ⟨_, _, .addFollower here there (takes _)⟩
  | removeFollower myId followerId =>
      obtain ⟨mine, here⟩ := Option.isSome_iff_exists.mp registered.1
      obtain ⟨theirs, there⟩ := Option.isSome_iff_exists.mp registered.2
      exact ⟨_, _, .removeFollower here there⟩
  | stopFollowing myId followingId =>
      obtain ⟨mine, here⟩ := Option.isSome_iff_exists.mp registered.1
      obtain ⟨theirs, there⟩ := Option.isSome_iff_exists.mp registered.2
      exact ⟨_, _, .stopFollowing here there⟩
  | addPosition myId latitude longitude time =>
      obtain ⟨mine, here⟩ := Option.isSome_iff_exists.mp registered
      exact ⟨_, _, .addPosition here (takes _)⟩
  | getNewPositions id =>
      obtain ⟨mine, here⟩ := Option.isSome_iff_exists.mp registered
      obtain ⟨found, visited⟩ := visitFollowing_returns mine.following (watched here)
      exact ⟨_, _, .getNewPositions here (Prod.ext rfl visited)⟩
  | getNameId name => exact ⟨_, _, .getNameId⟩
  | setName myId name =>
      obtain ⟨mine, here⟩ := Option.isSome_iff_exists.mp registered
      cases taken : database.manager.clientsName name with
      | none => exact ⟨_, _, .setNameFree taken here (takes _)⟩
      | some holder => exact ⟨_, _, .setNameTaken taken here⟩
  | getNewNames id =>
      obtain ⟨mine, here⟩ := Option.isSome_iff_exists.mp registered
      obtain ⟨found, visited⟩ := visitFollowing_returns mine.following (watched here)
      exact ⟨_, _, .getNewNames here (Prod.ext rfl visited)⟩

/-- The two stored copies of the relation agree and mention existing clients only. -/
structure FollowSymmetric (m : ClientDataManager) : Prop where
  balanced : ∀ a f, (m.followersOf a).count f = (m.followingOf f).countP (·.id = a)
  followersKnown : ∀ a f, f ∈ m.followersOf a → (m.clientsData f).isSome
  followingKnown : ∀ f watcher, watcher ∈ m.followingOf f → (m.clientsData watcher.id).isSome

theorem followSymmetric_run {calls : List (Op × Reply)} {database : Database}
    (run : Run Step {} calls database) : FollowSymmetric database.manager := by
  refine ⟨?_, ?_, ?_⟩
  · intro a f
    rw [followers_run run, ← watchers_run run, watchedBy_eq, List.count, List.countP_map]
    apply List.countP_congr
    simp
  · intro a f member
    exact (link_known run ((mem_followersOf_iff run).mp member)).2
  · intro f watcher member
    have listed : watcher.id ∈ database.manager.watchedBy f := by
      rw [watchedBy_eq]
      exact List.mem_map_of_mem member
    exact (link_known run ((mem_watchedBy_iff run).mp listed)).1

/-- Either end can cut the link, and the result is the same. -/
theorem cut_equal {database : Database} {a f : Int16}
    (owner : (database.manager.clientsData a).isSome)
    (follower : (database.manager.clientsData f).isSome) :
    ∃ after, removeFollower a f database = .ok () after ∧
      stopFollowing f a database = .ok () after ∧
      f ∉ after.manager.followersOf a ∧
      ∀ watcher ∈ after.manager.followingOf f, watcher.id ≠ a := by
  obtain ⟨mine, here⟩ := Option.isSome_iff_exists.mp owner
  obtain ⟨theirs, there⟩ := Option.isSome_iff_exists.mp follower
  have cut := Effect.removeFollower here there
  refine ⟨_, removeFollower_ok_iff.mpr cut, ?_, ?_, ?_⟩
  · rw [stopFollowing_ok_iff]
    simp only [cut_comm]
    exact .stopFollowing there here
  · have gone := followers_step cut a f
    simp only [linkChange, and_self, ↓reduceIte, Change.apply] at gone
    exact List.count_eq_zero.mp gone
  · have gone := watchers_step cut a f
    simp only [linkChange, and_self, ↓reduceIte, Change.apply, watchedBy_eq] at gone
    intro watcher member same
    have listed := List.mem_map_of_mem (f := Watcher.id) member
    rw [same] at listed
    exact List.count_eq_zero.mp gone listed

/-- In every reachable state the relation is symmetric, the queries of
registered clients return, and both ways to undo a follow agree. -/
theorem follow_symmetry {calls : List (Op × Reply)} {database : Database}
    (run : Run Step {} calls database) :
    FollowSymmetric database.manager ∧
    (∀ f, (database.manager.clientsData f).isSome →
      (∃ found after, getNewPositions f database = .ok found after) ∧
      ∃ found after, getNewNames f database = .ok found after) ∧
    ∀ a f, (database.manager.clientsData a).isSome → (database.manager.clientsData f).isSome →
      ∃ after, removeFollower a f database = .ok () after ∧
        stopFollowing f a database = .ok () after ∧
        f ∉ after.manager.followersOf a ∧
        ∀ watcher ∈ after.manager.followingOf f, watcher.id ≠ a := by
  refine ⟨followSymmetric_run run, ?_, fun a f => cut_equal⟩
  intro f known
  have positions : Registered database.manager (.getNewPositions f) := known
  have names : Registered database.manager (.getNewNames f) := known
  obtain ⟨_, after, stepped⟩ := registered_returns run positions
  obtain ⟨_, after', stepped'⟩ := registered_returns run names
  simp only [Step, ClientDataManager.run, Program.bind_pure_ok_iff] at stepped stepped'
  obtain ⟨found, returned, _⟩ := stepped
  obtain ⟨found', returned', _⟩ := stepped'
  exact ⟨⟨found, after, returned⟩, found', after', returned'⟩

/-- Two clients register and one follows the other. -/
def greeting : List (Op × Reply) :=
  [(.registerClient [1] 0, .id 1), (.registerClient [2] 1, .id 2),
    (.setName 1 [65], .accepted true), (.addFollower 1 2, .none)]

theorem follow_symmetry_greeting : ∃ database : Database,
    Run Step {} greeting database ∧ FollowSymmetric database.manager := by
  have run : Run Step {} greeting _ := .cons rfl (.cons rfl (.cons rfl (.cons rfl .nil)))
  exact ⟨_, run, (follow_symmetry run).1⟩

/-- The calls that decide whether `follower` may see `owner`. -/
def concerns (owner follower : Int16) : Op → Bool
  | .addFollower myId followerId => myId = owner ∧ followerId = follower
  | .removeFollower myId followerId => myId = owner ∧ followerId = follower
  | .stopFollowing myId followingId => myId = follower ∧ followingId = owner
  | _ => false

/-- A query hands out a position or a name of `owner`. -/
def Reply.Reports (owner : Int16) : Reply → Prop
  | .positions found => ∃ position, (owner, position) ∈ found
  | .names found => ∃ name, (owner, name) ∈ found
  | _ => False

theorem linkChange_isSome (owner follower : Int16) (op : Op) :
    (linkChange owner follower op).isSome = concerns owner follower op := by
  cases op <;> simp only [linkChange, concerns, Option.isSome_none] <;> split <;> simp_all

theorem addFollower_of_raise {owner follower : Int16} {op : Op}
    (raised : linkChange owner follower op = some .raise) : op = .addFollower owner follower := by
  cases op <;> simp_all [linkChange]

/-- The link is there exactly when the latest call that concerns it set it. -/
theorem linkCount_pos_iff (owner follower : Int16) (calls : List (Op × Reply)) :
    0 < linkCount owner follower calls ↔
      ((calls.map Prod.fst).filter (concerns owner follower)).getLast? =
        some (.addFollower owner follower) := by
  have same : (calls.map Prod.fst).filter (concerns owner follower) =
      (calls.filter fun call => (linkChange owner follower call.1).isSome).map Prod.fst := by
    rw [List.filter_map]
    simp only [linkChange_isSome, Function.comp_def]
  rw [linkCount, tally_pos_iff, same, List.getLast?_map, Option.map_eq_some_iff]
  constructor
  · rintro ⟨call, latest, raised⟩
    exact ⟨call, latest, addFollower_of_raise raised⟩
  · rintro ⟨call, latest, added⟩
    refine ⟨call, latest, ?_⟩
    simp only [added, linkChange, and_self, ↓reduceIte]

/-- What a query reports is about a client that its caller follows. -/
theorem watched_of_reports {before after : Database} {op : Op} {reply : Reply}
    {owner follower : Int16} (query : op = .getNewPositions follower ∨ op = .getNewNames follower)
    (effect : Effect before op reply after) (told : reply.Reports owner) :
    owner ∈ before.manager.watchedBy follower := by
  rcases query with rfl | rfl
  · cases effect with
    | @getNewPositions _ mine following found hereData visited =>
        obtain ⟨position, member⟩ := told
        rw [watchedBy, KeyMap.view_of_some _ _ hereData]
        exact visitFollowing_found watchPositions_keepsId mine.following found
          (congrArg Prod.snd visited) _ member
  · cases effect with
    | @getNewNames _ mine following found hereData visited =>
        obtain ⟨name, member⟩ := told
        rw [watchedBy, KeyMap.view_of_some _ _ hereData]
        exact visitFollowing_found watchName_keepsId mine.following found
          (congrArg Prod.snd visited) _ member

/-- A query tells `follower` about `owner` only while `owner` consents: of all the
earlier calls that concern the two, the latest is `addFollower`. -/
theorem consent {calls : List (Op × Reply)} {database after : Database} {op : Op}
    {reply : Reply} {owner follower : Int16} (run : Run Step {} calls database)
    (query : op = .getNewPositions follower ∨ op = .getNewNames follower)
    (last : Step database (op, reply) after) (told : reply.Reports owner) :
    ((calls.map Prod.fst).filter (concerns owner follower)).getLast? =
      some (.addFollower owner follower) := by
  have watched := watched_of_reports query (step_iff_effect.mp last) told
  rw [← linkCount_pos_iff]
  exact (mem_watchedBy_iff run).mp watched

theorem consent_greeting :
    ((greeting.map Prod.fst).filter (concerns 1 2)).getLast? = some (.addFollower 1 2) := by
  have run : Run Step {} greeting _ := .cons rfl (.cons rfl (.cons rfl (.cons rfl .nil)))
  have told : (Reply.names [(1, [65])]).Reports 1 := ⟨[65], by simp⟩
  exact consent run (.inr rfl) rfl told

end Locus.ClientDataManager
