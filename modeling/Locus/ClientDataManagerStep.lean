import Locus.ClientDataManager

set_option autoImplicit false

/- What a returning call of the manager has done. Every law about runs of the
manager is derived from this list and does not look at the methods again. -/
namespace Locus.ClientDataManager

open Program

/-- The queues that `postUpdates` writes to. -/
def queuesOf (m : ClientDataManager) (ids : List Int16) : List QueueRef :=
  ids.filterMap m.clientsQueue

/-- The pipes take the bytes of as many posts. -/
def Takes (before : Database) (posts : Nat) : Prop :=
  ∀ refused, before.refusal = some refused → posts ≤ refused

/-- The visible result of each public call, with the conditions under which it returns. -/
inductive Effect (before : Database) : Op → Reply → Database → Prop
  | registerKnown {key : Bytes} {queue : QueueRef} {id : Int16}
      (known : before.manager.clientsId key = some id) :
      Effect before (.registerClient key queue) (.id id)
        { before with manager := { before.manager with
          clientsQueue := before.manager.clientsQueue.insert id queue } }
  | registerFresh {key : Bytes} {queue : QueueRef}
      (fresh : before.manager.clientsId key = none) :
      Effect before (.registerClient key queue) (.id before.manager.nextId)
        { before with manager := { before.manager with
          nextId := before.manager.nextId + 1
          clientsId := before.manager.clientsId.insert key before.manager.nextId
          clientsData := before.manager.clientsData.insert before.manager.nextId
            { publicKey := key }
          clientsQueue := before.manager.clientsQueue.insert before.manager.nextId queue } }
  | unregister {id : Int16} :
      Effect before (.unregister id) .none
        { before with manager := { before.manager with
          clientsQueue := before.manager.clientsQueue.erase id } }
  | addFollower {myId followerId : Int16} {mine theirs : ClientData}
      (hereData : before.manager.clientsData myId = some mine)
      (thereData : before.manager.clientsData followerId = some theirs)
      (takes : Takes before (before.manager.queuesOf [followerId]).length) :
      Effect before (.addFollower myId followerId) .none
        { before with
          manager := { before.manager with
            clientsData := (before.manager.clientsData.modify myId
              (·.addFollower followerId)).modify followerId (·.startFollowing myId) }
          posted := before.posted ++ before.manager.queuesOf [followerId] }
  | removeFollower {myId followerId : Int16} {mine theirs : ClientData}
      (hereData : before.manager.clientsData myId = some mine)
      (thereData : before.manager.clientsData followerId = some theirs) :
      Effect before (.removeFollower myId followerId) .none
        { before with manager := { before.manager with
          clientsData := (before.manager.clientsData.modify myId
            (·.removeFollower followerId)).modify followerId (·.stopFollowing myId) } }
  | stopFollowing {myId followingId : Int16} {mine theirs : ClientData}
      (hereData : before.manager.clientsData myId = some mine)
      (thereData : before.manager.clientsData followingId = some theirs) :
      Effect before (.stopFollowing myId followingId) .none
        { before with manager := { before.manager with
          clientsData := (before.manager.clientsData.modify myId
            (·.stopFollowing followingId)).modify followingId (·.removeFollower myId) } }
  | addPosition {myId : Int16} {latitude longitude : FloatBits} {time : Int}
      {mine : ClientData} (hereData : before.manager.clientsData myId = some mine)
      (takes : Takes before (before.manager.queuesOf mine.followers).length) :
      Effect before (.addPosition myId latitude longitude time) .none
        { before with
          manager := { before.manager with
            clientsData := before.manager.clientsData.modify myId
              (·.addPosition latitude longitude time) }
          posted := before.posted ++ before.manager.queuesOf mine.followers }
  | getNewPositions {id : Int16} {mine : ClientData} {following : List Watcher}
      {found : List (Int16 × Position)}
      (hereData : before.manager.clientsData id = some mine)
      (visited : visitFollowing watchPositions before.manager.clientsData mine.following =
        (following, .ok found)) :
      Effect before (.getNewPositions id) (.positions found)
        { before with manager := { before.manager with
          clientsData := before.manager.clientsData.modify id (·.setFollowing following) } }
  | getNameId {name : Bytes} :
      Effect before (.getNameId name) (.id ((before.manager.clientsName name).getD 0)) before
  | setNameFree {myId : Int16} {name : Bytes} {mine : ClientData}
      (free : before.manager.clientsName name = none)
      (hereData : before.manager.clientsData myId = some mine)
      (takes : Takes before (before.manager.queuesOf mine.followers).length) :
      Effect before (.setName myId name) (.accepted true)
        { before with
          manager := { before.manager with
            clientsName := (if mine.name = [] then before.manager.clientsName
              else before.manager.clientsName.erase mine.name).insert name myId
            clientsData := before.manager.clientsData.modify myId (·.setName name) }
          posted := before.posted ++ before.manager.queuesOf mine.followers }
  | setNameTaken {myId holder : Int16} {name : Bytes} {mine : ClientData}
      (taken : before.manager.clientsName name = some holder)
      (hereData : before.manager.clientsData myId = some mine) :
      Effect before (.setName myId name) (.accepted (mine.name = name)) before
  | getNewNames {id : Int16} {mine : ClientData} {following : List Watcher}
      {found : List (Int16 × Bytes)}
      (hereData : before.manager.clientsData id = some mine)
      (visited : visitFollowing watchName before.manager.clientsData mine.following =
        (following, .ok found)) :
      Effect before (.getNewNames id) (.names found)
        { before with manager := { before.manager with
          clientsData := before.manager.clientsData.modify id (·.setFollowing following) } }

theorem takes_of_calm {before : Database} (calm : before.refusal = none) (posts : Nat) :
    Takes before posts := by
  intro refused here
  rw [calm] at here
  cases here

/-- Which post fails is not up to the calls. -/
theorem refusal_step {before after : Database} {op : Op} {reply : Reply}
    (effect : Effect before op reply after) : after.refusal = before.refusal := by
  cases effect <;> rfl

theorem client_ok_iff {id : Int16} {before after : Database} {data : ClientData} :
    client id before = .ok data after ↔
      before.manager.clientsData id = some data ∧ after = before := by
  simp only [client, bind_run, get_run]
  cases before.manager.clientsData id with
  | none => simp [throw_run]
  | some stored => simp [pure_run, eq_comm]

theorem edit_ok_iff {change : ClientDataManager → ClientDataManager} {before after : Database}
    {value : Unit} :
    edit change before = .ok value after ↔
      after = { before with manager := change before.manager } := by
  simp [edit, modify_run, eq_comm]

theorem editClient_ok_iff {id : Int16} {change : ClientData → ClientData}
    {before after : Database} {value : Unit} :
    editClient id change before = .ok value after ↔
      (∃ data, before.manager.clientsData id = some data) ∧
      after = { before with manager := { before.manager with
        clientsData := before.manager.clientsData.modify id change } } := by
  simp only [editClient, bind_ok_iff, client_ok_iff, edit_ok_iff]
  constructor
  · rintro ⟨data, middle, ⟨present, rfl⟩, done⟩
    exact ⟨⟨data, present⟩, done⟩
  · rintro ⟨⟨data, present⟩, rfl⟩
    exact ⟨data, before, ⟨present, rfl⟩, rfl⟩

theorem queuesOf_cons (m : ClientDataManager) (id : Int16) (ids : List Int16) :
    m.queuesOf (id :: ids) = (m.clientsQueue id).toList ++ m.queuesOf ids := by
  cases listed : m.clientsQueue id <;> simp [queuesOf, listed]

/-- Posts leave the tables of the manager alone. -/
def Posting (before after : Database) : Prop :=
  after.manager = before.manager ∧ after.refusal = before.refusal

theorem Posting.trans {before middle after : Database} (first : Posting before middle)
    (second : Posting middle after) : Posting before after :=
  ⟨second.1.trans first.1, second.2.trans first.2⟩

theorem postUpdate_posting (made : Nat) (queue : QueueRef) :
    Keeps Posting (postUpdate made queue) := by
  refine .bind .trans (.modify fun _ => ⟨rfl, rfl⟩) fun _ => ?_
  refine .get_bind fun database => ?_
  split
  · exact Keeps.throw (fun _ => ⟨rfl, rfl⟩) _ database
  · exact Keeps.pure (fun _ => ⟨rfl, rfl⟩) _ database

theorem postUpdates_posting (ids : List Int16) (made : Nat) :
    Keeps Posting (postUpdates made ids) := by
  induction ids generalizing made with
  | nil => exact .pure (fun _ => ⟨rfl, rfl⟩) ()
  | cons id ids ih =>
      refine .get_bind fun database => ?_
      cases database.manager.clientsQueue id with
      | none => exact ih made database
      | some queue =>
          have posts : Keeps Posting (postUpdate made queue >>= fun _ =>
            postUpdates (made + 1) ids) :=
            .bind .trans (postUpdate_posting made queue) fun _ => ih (made + 1)
          exact posts database

theorem notifyFollowers_posting (id : Int16) : Keeps Posting (notifyFollowers id) := by
  refine .bind .trans ?_ fun data => postUpdates_posting data.followers 0
  refine .get_bind fun database => ?_
  split
  · exact Keeps.throw (fun _ => ⟨rfl, rfl⟩) _ database
  · exact Keeps.pure (fun _ => ⟨rfl, rfl⟩) _ database

/-- Posts that are all made before or after the one whose byte is not taken. -/
theorem postUpdates_ok (ids : List Int16) {made : Nat} {before : Database}
    (taken : ∀ refused, before.refusal = some refused →
      refused < made ∨ made + (before.manager.queuesOf ids).length ≤ refused) :
    postUpdates made ids before =
      .ok () { before with posted := before.posted ++ before.manager.queuesOf ids } := by
  induction ids generalizing made before with
  | nil => simp only [postUpdates, pure_run, queuesOf, List.filterMap_nil, List.append_nil]
  | cons id ids ih =>
      rw [queuesOf_cons] at taken ⊢
      rw [postUpdates, bind_of_ok (get_run before)]
      cases listed : before.manager.clientsQueue id with
      | none =>
          rw [listed] at taken
          simpa using ih taken
      | some queue =>
          rw [listed] at taken
          simp only [Option.toList_some, List.length_append, List.length_singleton] at taken
          have passes : before.refusal ≠ some made := by
            intro here
            have apart := taken made here
            omega
          have later := @ih (made + 1) { before with posted := before.posted ++ [queue] } <| by
            intro refused here
            have apart := taken refused here
            change refused < made + 1 ∨ made + 1 + (before.manager.queuesOf ids).length ≤ refused
            have other : refused ≠ made := fun same => passes (same ▸ here)
            omega
          simp only [postUpdate, bind_run, modify_run, get_run, if_neg passes, pure_run, later,
            Option.toList_some, List.append_assoc]

/-- The loop ends at the pipe that takes no byte, with the message in its queue. -/
theorem postUpdates_refused (ids : List Int16) {made refused : Nat} {before : Database}
    (refusal : before.refusal = some refused) (low : made ≤ refused)
    (reached : refused < made + (before.manager.queuesOf ids).length) :
    postUpdates made ids before = .error pipeRefuses { before with
      posted := before.posted ++ (before.manager.queuesOf ids).take (refused + 1 - made) } := by
  induction ids generalizing made before with
  | nil =>
      simp only [queuesOf, List.filterMap_nil, List.length_nil] at reached
      omega
  | cons id ids ih =>
      rw [queuesOf_cons] at reached ⊢
      rw [postUpdates, bind_of_ok (get_run before)]
      cases listed : before.manager.clientsQueue id with
      | none =>
          rw [listed] at reached
          exact ih refusal low reached
      | some queue =>
          rw [listed] at reached
          simp only [Option.toList_some, List.length_append, List.length_singleton] at reached
          by_cases here : refused = made
          · subst here
            simp only [postUpdate, bind_run, modify_run, get_run, if_pos refusal, throw_run,
              Option.toList_some, Nat.add_sub_cancel_left, List.singleton_append,
              List.take_succ_cons, List.take_zero]
          · have passes : before.refusal ≠ some made := by
              intro same
              rw [refusal, Option.some.injEq] at same
              exact here same
            have later := @ih (made + 1) { before with posted := before.posted ++ [queue] }
              refusal (by omega) <| by
                change refused < made + 1 + (before.manager.queuesOf ids).length
                omega
            have count : refused + 1 - made = refused + 1 - (made + 1) + 1 := by omega
            simp only [postUpdate, bind_run, modify_run, get_run, if_neg passes, pure_run, later,
              Option.toList_some, List.append_assoc, List.singleton_append, count,
              List.take_succ_cons]

theorem postUpdates_ok_iff {ids : List Int16} {before after : Database} {value : Unit} :
    postUpdates 0 ids before = .ok value after ↔
      Takes before (before.manager.queuesOf ids).length ∧
      after = { before with posted := before.posted ++ before.manager.queuesOf ids } := by
  by_cases takes : Takes before (before.manager.queuesOf ids).length
  · have taken : ∀ refused, before.refusal = some refused →
        refused < 0 ∨ 0 + (before.manager.queuesOf ids).length ≤ refused := by
      intro refused here
      have passed := takes refused here
      omega
    rw [postUpdates_ok ids taken]
    simp [takes, eq_comm]
  · obtain ⟨refused, refusal, reached⟩ : ∃ refused, before.refusal = some refused ∧
        ¬ (before.manager.queuesOf ids).length ≤ refused := by
      simpa only [Takes, not_forall, exists_prop] using takes
    rw [postUpdates_refused ids refusal (Nat.zero_le _) (by omega)]
    exact iff_of_false (by simp) fun done => takes done.1

theorem notifyFollowers_ok_iff {id : Int16} {before after : Database} {value : Unit} :
    notifyFollowers id before = .ok value after ↔
      ∃ data, before.manager.clientsData id = some data ∧
        Takes before (before.manager.queuesOf data.followers).length ∧
        after = { before with posted := before.posted ++
          before.manager.queuesOf data.followers } := by
  simp only [notifyFollowers, bind_ok_iff, client_ok_iff, postUpdates_ok_iff]
  constructor
  · rintro ⟨data, middle, ⟨present, rfl⟩, done⟩
    exact ⟨data, present, done⟩
  · rintro ⟨data, present, done⟩
    exact ⟨data, before, ⟨present, rfl⟩, done⟩

/-- Editing two records needs both of them; the first edit does not remove a record. -/
theorem editClients_ok_iff {first second : Int16} {left right : ClientData → ClientData}
    {before after : Database} {value : Unit} :
    (do editClient first left; editClient second right) before = .ok value after ↔
      (∃ data, before.manager.clientsData first = some data) ∧
      (∃ data, before.manager.clientsData second = some data) ∧
      after = { before with manager := { before.manager with
        clientsData := (before.manager.clientsData.modify first left).modify second right } } := by
  have kept : (∃ data, before.manager.clientsData.modify first left second = some data) ↔
      ∃ data, before.manager.clientsData second = some data := by
    rw [← Option.isSome_iff_exists, ← Option.isSome_iff_exists, KeyMap.modify_isSome]
  simp only [bind_ok_iff, editClient_ok_iff]
  constructor
  · rintro ⟨_, middle, ⟨here, rfl⟩, there, done⟩
    exact ⟨here, kept.mp there, done⟩
  · rintro ⟨here, there, done⟩
    exact ⟨(), _, ⟨here, rfl⟩, kept.mpr there, done⟩

theorem registerClient_ok_iff {key : Bytes} {queue : QueueRef} {id : Int16}
    {before after : Database} :
    registerClient key queue before = .ok id after ↔
      Effect before (.registerClient key queue) (.id id) after := by
  simp only [registerClient, bind_run, get_run]
  cases known : before.manager.clientsId key with
  | some stored =>
      constructor
      · intro returned
        simp only [edit] at returned
        cases returned
        exact .registerKnown known
      · intro effect
        cases effect with
        | registerKnown found =>
            rw [known] at found
            cases found
            rfl
        | registerFresh fresh =>
            rw [known] at fresh
            cases fresh
  | none =>
      constructor
      · intro returned
        simp only [addClient, bind_run, get_run, edit, modify_run, pure_run] at returned
        cases returned
        exact .registerFresh known
      · intro effect
        cases effect with
        | registerKnown found =>
            rw [known] at found
            cases found
        | registerFresh fresh => rfl

theorem addFollower_ok_iff {myId followerId : Int16} {before after : Database} {value : Unit} :
    addFollower myId followerId before = .ok value after ↔
      Effect before (.addFollower myId followerId) .none after := by
  rw [addFollower, ← bind_assoc, bind_ok_iff]
  simp only [editClients_ok_iff, postUpdates_ok_iff]
  constructor
  · rintro ⟨_, middle, ⟨⟨mine, hereData⟩, ⟨theirs, thereData⟩, rfl⟩, takes, rfl⟩
    exact .addFollower hereData thereData takes
  · intro effect
    cases effect with
    | addFollower hereData thereData takes =>
        exact ⟨(), _, ⟨⟨_, hereData⟩, ⟨_, thereData⟩, rfl⟩, takes, rfl⟩

theorem removeFollower_ok_iff {myId followerId : Int16} {before after : Database}
    {value : Unit} :
    removeFollower myId followerId before = .ok value after ↔
      Effect before (.removeFollower myId followerId) .none after := by
  rw [removeFollower, editClients_ok_iff]
  constructor
  · rintro ⟨⟨mine, hereData⟩, ⟨theirs, thereData⟩, rfl⟩
    exact .removeFollower hereData thereData
  · intro effect
    cases effect with
    | removeFollower hereData thereData => exact ⟨⟨_, hereData⟩, ⟨_, thereData⟩, rfl⟩

theorem stopFollowing_ok_iff {myId followingId : Int16} {before after : Database}
    {value : Unit} :
    stopFollowing myId followingId before = .ok value after ↔
      Effect before (.stopFollowing myId followingId) .none after := by
  rw [stopFollowing, editClients_ok_iff]
  constructor
  · rintro ⟨⟨mine, hereData⟩, ⟨theirs, thereData⟩, rfl⟩
    exact .stopFollowing hereData thereData
  · intro effect
    cases effect with
    | stopFollowing hereData thereData => exact ⟨⟨_, hereData⟩, ⟨_, thereData⟩, rfl⟩

theorem addPosition_ok_iff {myId : Int16} {latitude longitude : FloatBits} {time : Int}
    {before after : Database} {value : Unit} :
    addPosition myId latitude longitude time before = .ok value after ↔
      Effect before (.addPosition myId latitude longitude time) .none after := by
  simp only [addPosition, bind_ok_iff, editClient_ok_iff, notifyFollowers_ok_iff]
  constructor
  · rintro ⟨_, middle, ⟨⟨mine, hereData⟩, rfl⟩, data, present, takes, rfl⟩
    have same : mine.addPosition latitude longitude time = data := by
      simpa only [KeyMap.modify_self, hereData, Option.map_some, Option.some.injEq] using present
    subst same
    have effect : Effect before (.addPosition myId latitude longitude time) .none _ :=
      .addPosition hereData takes
    exact effect
  · intro effect
    cases effect with
    | addPosition hereData takes =>
        rename_i mine
        refine ⟨(), _, ⟨⟨_, hereData⟩, rfl⟩, mine.addPosition latitude longitude time, ?_, takes,
          rfl⟩
        simp only [KeyMap.modify_self, hereData, Option.map_some]

/-- A position is in the record before the first post is made. -/
theorem addPosition_manager {myId : Int16} {mine : ClientData} {before : Database}
    (latitude longitude : FloatBits) (time : Int)
    (hereData : before.manager.clientsData myId = some mine) :
    (finalState (addPosition myId latitude longitude time before)).manager =
      { before.manager with
        clientsData := before.manager.clientsData.modify myId
          (·.addPosition latitude longitude time) } := by
  have edited : editClient myId (·.addPosition latitude longitude time) before = .ok () _ :=
    editClient_ok_iff.mpr ⟨⟨mine, hereData⟩, rfl⟩
  rw [addPosition, bind_of_ok edited]
  exact (notifyFollowers_posting myId _).1

theorem queryFollowing_ok_iff {β : Type} {watch : ClientData → Watcher → Watcher × List β}
    {id : Int16} {before after : Database} {found : List β} :
    queryFollowing watch id before = .ok found after ↔
      ∃ mine following, before.manager.clientsData id = some mine ∧
        visitFollowing watch before.manager.clientsData mine.following =
          (following, .ok found) ∧
        after = { before with manager := { before.manager with
          clientsData := before.manager.clientsData.modify id (·.setFollowing following) } } := by
  simp only [queryFollowing, bind_ok_iff, client_ok_iff, get_run, editClient_ok_iff,
    ofExcept_ok_iff]
  constructor
  · rintro ⟨mine, _, ⟨hereData, rfl⟩, _, _, same, _, _, ⟨_, rfl⟩, visited, rfl⟩
    cases same
    exact ⟨mine, _, hereData, Prod.ext rfl visited, rfl⟩
  · rintro ⟨mine, following, hereData, visited, rfl⟩
    refine ⟨mine, before, ⟨hereData, rfl⟩, before, before, rfl, (), _, ⟨⟨mine, hereData⟩, rfl⟩, ?_⟩
    simp only [visited, and_self]

theorem setName_ok_iff {myId : Int16} {name : Bytes} {accepted : Bool}
    {before after : Database} :
    setName myId name before = .ok accepted after ↔
      Effect before (.setName myId name) (.accepted accepted) after := by
  rw [setName, bind_of_ok (get_run before)]
  cases free : before.manager.clientsName name with
  | some holder =>
      simp only [bind_ok_iff, client_ok_iff, pure_run]
      constructor
      · rintro ⟨mine, _, ⟨hereData, rfl⟩, done⟩
        cases done
        exact .setNameTaken free hereData
      · intro effect
        cases effect with
        | setNameFree absent _ =>
            rw [free] at absent
            cases absent
        | setNameTaken _ hereData => exact ⟨_, before, ⟨hereData, rfl⟩, rfl⟩
  | none =>
      simp only [bind_ok_iff, client_ok_iff, edit_ok_iff, editClient_ok_iff,
        notifyFollowers_ok_iff, pure_run]
      constructor
      · rintro ⟨mine, _, ⟨hereData, rfl⟩, _, _, rfl, _, _, rfl, _, _, ⟨_, rfl⟩, _, _,
          ⟨data, present, takes, rfl⟩, done⟩
        cases done
        have same : mine.setName name = data := by
          simpa only [KeyMap.modify_self, hereData, Option.map_some, Option.some.injEq]
            using present
        subst same
        exact .setNameFree free hereData takes
      · intro effect
        cases effect with
        | setNameTaken taken _ =>
            rw [free] at taken
            cases taken
        | setNameFree absent hereData takes =>
            rename_i mine
            refine ⟨mine, before, ⟨hereData, rfl⟩, (), _, rfl, (), _, rfl, (), _,
              ⟨⟨mine, hereData⟩, rfl⟩, (), _, ⟨mine.setName name, ?_, takes, rfl⟩, rfl⟩
            simp only [KeyMap.modify_self, hereData, Option.map_some]

/-- A call without a result replies with `none`. -/
theorem silent_ok_iff {call : ManagerM Unit} {op : Op} {before after : Database} {reply : Reply}
    (spec : ∀ value, call before = .ok value after ↔ Effect before op .none after)
    (silent : Effect before op reply after → reply = .none) :
    (do call; return Reply.none) before = .ok reply after ↔ Effect before op reply after := by
  rw [bind_pure_ok_iff]
  constructor
  · rintro ⟨value, returned, rfl⟩
    exact (spec value).mp returned
  · intro effect
    obtain rfl := silent effect
    exact ⟨(), (spec ()).mpr effect, rfl⟩

/-- The methods, their results and their side effects are exactly the listed ones. -/
theorem step_iff_effect {before after : Database} {op : Op} {reply : Reply} :
    Step before (op, reply) after ↔ Effect before op reply after := by
  cases op with
  | registerClient key queue =>
      simp only [Step, run, bind_pure_ok_iff, registerClient_ok_iff]
      constructor
      · rintro ⟨id, effect, rfl⟩
        exact effect
      · intro effect
        obtain ⟨id, rfl⟩ : ∃ id, reply = .id id := by cases effect <;> exact ⟨_, rfl⟩
        exact ⟨id, effect, rfl⟩
  | unregister id =>
      simp only [Step, run, bind_pure_ok_iff, unregister, edit_ok_iff]
      constructor
      · rintro ⟨_, rfl, rfl⟩
        exact .unregister
      · intro effect
        cases effect
        exact ⟨(), rfl, rfl⟩
  | addFollower myId followerId =>
      exact silent_ok_iff (fun _ => addFollower_ok_iff) (by intro effect; cases effect; rfl)
  | removeFollower myId followerId =>
      exact silent_ok_iff (fun _ => removeFollower_ok_iff) (by intro effect; cases effect; rfl)
  | stopFollowing myId followingId =>
      exact silent_ok_iff (fun _ => stopFollowing_ok_iff) (by intro effect; cases effect; rfl)
  | addPosition myId latitude longitude time =>
      exact silent_ok_iff (fun _ => addPosition_ok_iff) (by intro effect; cases effect; rfl)
  | getNewPositions id =>
      simp only [Step, run, bind_pure_ok_iff, getNewPositions, queryFollowing_ok_iff]
      constructor
      · rintro ⟨found, ⟨mine, following, hereData, visited, rfl⟩, rfl⟩
        exact .getNewPositions hereData visited
      · intro effect
        cases effect with
        | getNewPositions hereData visited =>
            exact ⟨_, ⟨_, _, hereData, visited, rfl⟩, rfl⟩
  | getNameId name =>
      simp only [Step, run, bind_pure_ok_iff, getNameId, get_run]
      constructor
      · rintro ⟨_, ⟨_, same, rfl⟩, rfl⟩
        cases same
        exact .getNameId
      · intro effect
        cases effect
        exact ⟨_, ⟨_, rfl, rfl⟩, rfl⟩
  | setName myId name =>
      simp only [Step, run, bind_pure_ok_iff, setName_ok_iff]
      constructor
      · rintro ⟨accepted, effect, rfl⟩
        exact effect
      · intro effect
        obtain ⟨accepted, rfl⟩ : ∃ accepted, reply = .accepted accepted := by
          cases effect <;> exact ⟨_, rfl⟩
        exact ⟨accepted, effect, rfl⟩
  | getNewNames id =>
      simp only [Step, run, bind_pure_ok_iff, getNewNames, queryFollowing_ok_iff]
      constructor
      · rintro ⟨found, ⟨mine, following, hereData, visited, rfl⟩, rfl⟩
        exact .getNewNames hereData visited
      · intro effect
        cases effect with
        | getNewNames hereData visited =>
            exact ⟨_, ⟨_, _, hereData, visited, rfl⟩, rfl⟩

end Locus.ClientDataManager
