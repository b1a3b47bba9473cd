import Mathlib.Data.List.Dedup
import Locus.ClientDataManagerEntries

set_option autoImplicit false

/- Followers that follow a client once, and positions that are told once. -/
namespace Locus.ClientDataManager

open Transition

/-- A watcher that `getNewPositions` reports through. -/
def isDue (followed : ClientData) (watcher : Watcher) : Bool :=
  followed.name ≠ [] ∧ followed.positions.getLast?.any fun position => watcher.time < position.time

/-- A follower, with the clients that some of its watchers are due for. -/
def dueOf (m : ClientDataManager) (id : Int16) (watchers : List Watcher) :
    List (Int16 × Int16) :=
  (watchers.filter fun watcher => isDue (m.recordOf watcher.id) watcher).map
    fun watcher => (id, watcher.id)

/-- Where a watcher is due, its client has one position, of which the follower was not due to
hear before. -/
def FreshFor (m : ClientDataManager) (id : Int16) (due : List (Int16 × Int16))
    (watchers : List Watcher) : Prop :=
  ∀ watcher ∈ watchers, isDue (m.recordOf watcher.id) watcher →
    (m.recordOf watcher.id).positions.length = 1 ∧ (id, watcher.id) ∉ due

def dueTo (m : ClientDataManager) : Op → List (Int16 × Int16)
  | .getNewPositions id => dueOf m id (m.followingOf id)
  | _ => []

/-- What a call reports: the follower, the client, and the number of the position, which is
the last one that the client has. -/
def reportsOf (m : ClientDataManager) : Op × Reply → List (Int16 × Int16 × Nat)
  | (.getNewPositions id, .positions found) =>
      found.map fun news => (id, news.1, (m.recordOf news.1).positions.length)
  | _ => []

/-- The manager, with all that followers were due to hear and all that they were told. -/
structure Told where
  database : Database := {}
  due : List (Int16 × Int16) := []
  reports : List (Int16 × Int16 × Nat) := []

namespace Told

/-- A call, which adds to what was told. -/
structure Step (before : Told) (call : Op × Reply) (after : Told) : Prop where
  step : ClientDataManager.Step before.database call after.database
  due : after.due = before.due ++ dueTo before.database.manager call.1
  reports : after.reports = before.reports ++ reportsOf before.database.manager call

/-- Nobody is listed twice after the call, a follower that is added again changes nothing, a
position posts once to each follower, and no position has been told twice to one follower. -/
structure Single (before : Told) (call : Op × Reply) (after : Told) : Prop where
  followers : ∀ id, (after.database.manager.followersOf id).Nodup
  following : ∀ id, ((after.database.manager.followingOf id).map Watcher.id).Nodup
  again : ∀ a f, call.1 = .addFollower a f → f ∈ before.database.manager.followersOf a →
    ∀ id, after.database.manager.followersOf id = before.database.manager.followersOf id ∧
      after.database.manager.followingOf id = before.database.manager.followingOf id
  posts : ∀ a latitude longitude time, call.1 = .addPosition a latitude longitude time →
    ∃ posts, after.database.posted = before.database.posted ++ posts ∧
      ∀ queue, posts.count queue ≤ (before.database.manager.followersOf a).dedup.countP
        fun f => before.database.manager.clientsQueue f = some queue
  reported : after.reports.Nodup

/-- No follower is added that follows already, and nothing is due that was due before. -/
def Fresh (before : Told) : Op → Prop
  | .addFollower a f => f ∉ before.database.manager.followersOf a
  | .getNewPositions f => FreshFor before.database.manager f before.due
      (before.database.manager.followingOf f)
  | _ => True

/-- The report of the first position of a client. -/
def first (pair : Int16 × Int16) : Int16 × Int16 × Nat := (pair.1, pair.2, 1)

/-- What holds as long as the calls are fresh. -/
structure Held (told : Told) : Prop where
  balanced : ∀ a f, (told.database.manager.followersOf a).count f =
    (told.database.manager.watchedBy f).count a
  followers : ∀ id, (told.database.manager.followersOf id).Nodup
  following : ∀ id, (told.database.manager.watchedBy id).Nodup
  due : told.due.Nodup
  reports : told.reports = told.due.map first

end Told

/-- What is raised from nothing, or not raised, occurs once at most. -/
theorem nodup_of_change {before after : List Int16} {change : Int16 → Option Change}
    (counted : ∀ id, after.count id = Change.apply (change id) (before.count id))
    (fresh : ∀ id, change id = some .raise → id ∉ before) (nodup : before.Nodup) :
    after.Nodup := by
  rw [List.nodup_iff_count_le_one] at nodup ⊢
  intro id
  have once := nodup id
  rw [counted]
  cases kind : change id with
  | none => exact once
  | some kind' =>
      cases kind' with
      | clear => exact Nat.zero_le 1
      | raise =>
          rw [List.count_eq_zero.mpr (fresh id kind)]
          exact Nat.le_refl 1

/-- One turn of the walk, by what it reports. -/
theorem watchPositions_reports (followed : ClientData) (watcher : Watcher) :
    ∃ position, (isDue followed watcher → followed.positions.getLast? = some position) ∧
      (watchPositions followed watcher).2 =
        if isDue followed watcher then
          List.replicate (if followed.positions.length = 1 then 1 else 3) (watcher.id, position)
        else [] := by
  by_cases silent : followed.positions = [] ∨ followed.name = []
  · have quiet : ¬ isDue followed watcher := by
      rcases silent with nowhere | unnamed
      · simp [isDue, nowhere]
      · simp [isDue, unnamed]
    exact ⟨{}, fun due => absurd due quiet, by rw [watchPositions_silent silent, if_neg quiet]⟩
  · obtain ⟨somewhere, named⟩ := not_or.mp silent
    have last := List.getLast?_eq_some_getLast somewhere
    refine ⟨followed.positions.getLast somewhere, fun _ => last, ?_⟩
    rw [watchPositions_eq last named]
    by_cases new : (followed.positions.getLast somewhere).time > watcher.time
    · have due : isDue followed watcher := by simp [isDue, named, last, new]
      rw [if_pos new, if_pos due]
    · have quiet : ¬ isDue followed watcher := by simp [isDue, last, new]
      rw [if_neg new, if_neg quiet]

/-- What one watcher adds to the reports. -/
def piece (m : ClientDataManager) (id : Int16) (watcher : Watcher) :
    List (Int16 × Int16 × Nat) :=
  if isDue (m.recordOf watcher.id) watcher then
    List.replicate (if (m.recordOf watcher.id).positions.length = 1 then 1 else 3)
      (id, watcher.id, (m.recordOf watcher.id).positions.length)
  else []

theorem reportsOf_query {before after : ClientDataManager} {id : Int16}
    {found : List (Int16 × Position)}
    (queried : Queried watchPositions id before after found) :
    reportsOf before (.getNewPositions id, .positions found) =
      (before.followingOf id).flatMap (piece before id) := by
  rw [reportsOf, queried.reported, List.map_flatMap]
  apply List.flatMap_congr
  intro watcher _
  obtain ⟨position, _, reported⟩ := watchPositions_reports (before.recordOf watcher.id) watcher
  rw [reported, piece]
  split
  · rw [List.map_replicate]
  · rfl

/-- What is reported of a client is its last position. -/
theorem reported_last {before after : ClientDataManager} {id : Int16}
    {found : List (Int16 × Position)}
    (queried : Queried watchPositions id before after found) :
    ∀ news ∈ found, before.lastPosition news.1 = some news.2 := by
  intro news member
  rw [queried.reported] at member
  obtain ⟨watcher, _, told⟩ := List.mem_flatMap.mp member
  obtain ⟨position, last, reported⟩ := watchPositions_reports (before.recordOf watcher.id) watcher
  rw [reported] at told
  by_cases now : isDue (before.recordOf watcher.id) watcher
  · rw [if_pos now] at told
    rw [List.eq_of_mem_replicate told, lastPosition_eq]
    exact last now
  · rw [if_neg now] at told
    cases told

theorem first_injective : Function.Injective Told.first := by
  intro one other same
  obtain ⟨left, right⟩ := Prod.mk.inj same
  exact Prod.ext left (Prod.mk.inj right).1

section Pieces

variable {m : ClientDataManager} {id : Int16} {watchers : List Watcher}
  {due : List (Int16 × Int16)}

theorem flatMap_piece (fresh : FreshFor m id due watchers) :
    watchers.flatMap (piece m id) = (dueOf m id watchers).map Told.first := by
  induction watchers with
  | nil => rfl
  | cons watcher rest ih =>
      obtain ⟨here, later⟩ := List.forall_mem_cons.mp fresh
      rw [List.flatMap_cons, ih later, piece, dueOf, dueOf, List.filter_cons]
      by_cases now : isDue (m.recordOf watcher.id) watcher
      · have single := (here now).1
        rw [if_pos now, if_pos now, if_pos single, single]
        rfl
      · rw [if_neg now, if_neg now]
        rfl

theorem nodup_dueOf (ids : (watchers.map Watcher.id).Nodup) (nodup : due.Nodup)
    (fresh : FreshFor m id due watchers) : (due ++ dueOf m id watchers).Nodup := by
  rw [List.nodup_append]
  refine ⟨nodup, ?_, ?_⟩
  · have some_ids := ids.sublist ((List.filter_sublist (p := fun watcher : Watcher =>
      isDue (m.recordOf watcher.id) watcher)).map Watcher.id)
    have paired := some_ids.map (f := fun other : Int16 => (id, other))
      fun _ _ same => (Prod.mk.inj same).2
    rwa [List.map_map] at paired
  · intro pair earlier other member same
    subst same
    obtain ⟨watcher, filtered, rfl⟩ := List.mem_map.mp member
    obtain ⟨there, now⟩ := List.mem_filter.mp filtered
    exact (fresh watcher there now).2 earlier

/-- The reports stay without repetitions exactly if the call is fresh. -/
theorem nodup_reports_iff (ids : (watchers.map Watcher.id).Nodup) (nodup : due.Nodup) :
    (due.map Told.first ++ watchers.flatMap (piece m id)).Nodup ↔ FreshFor m id due watchers := by
  constructor
  · intro once watcher there now
    obtain ⟨_, apart, disjoint⟩ := List.nodup_append.mp once
    have own : (piece m id watcher).Nodup := (List.nodup_flatMap.mp apart).1 watcher there
    rw [piece, if_pos now, List.nodup_replicate] at own
    have single : (m.recordOf watcher.id).positions.length = 1 := by
      by_contra several
      rw [if_neg several] at own
      omega
    refine ⟨single, fun earlier => ?_⟩
    have told : Told.first (id, watcher.id) ∈ watchers.flatMap (piece m id) := by
      apply List.mem_flatMap.mpr
      refine ⟨watcher, there, ?_⟩
      rw [piece, if_pos now, if_pos single, single]
      exact List.mem_singleton.mpr rfl
    exact disjoint _ (List.mem_map_of_mem earlier) _ told rfl
  · intro fresh
    rw [flatMap_piece fresh, ← List.map_append]
    exact (nodup_dueOf ids nodup fresh).map first_injective

end Pieces

namespace Told

variable {before after : Told} {call : Op × Reply}

/-- Only a follower that is added raises a link. -/
theorem not_mem_of_fresh (held : before.Held) (fresh : before.Fresh call.1) {a f : Int16}
    (raised : linkChange a f call.1 = some .raise) :
    f ∉ before.database.manager.followersOf a ∧ a ∉ before.database.manager.watchedBy f := by
  rw [addFollower_of_raise raised] at fresh
  have absent : f ∉ before.database.manager.followersOf a := fresh
  have none_listed := List.count_eq_zero.mpr absent
  rw [held.balanced] at none_listed
  exact ⟨absent, List.count_eq_zero.mp none_listed⟩

/-- A call that is no query for positions reports none. -/
theorem quiet_of_other {m : ClientDataManager} {op : Op} {reply : Reply}
    (other : ¬ ∃ id, op = .getNewPositions id) :
    dueTo m op = [] ∧ reportsOf m (op, reply) = [] := by
  cases op with
  | getNewPositions id => exact absurd ⟨id, rfl⟩ other
  | _ => exact ⟨rfl, rfl⟩

/-- What a query for positions adds. -/
theorem query_reports {id : Int16} {reply : Reply}
    (step : Step before (.getNewPositions id, reply) after) :
    reportsOf before.database.manager (.getNewPositions id, reply) =
      (before.database.manager.followingOf id).flatMap (piece before.database.manager id) := by
  have effect := step_iff_effect.mp step.step
  cases reply with
  | positions found => exact reportsOf_query (getNewPositions_queried effect).1
  | _ => cases effect

/-- A fresh call keeps everything single. -/
theorem held_step (held : before.Held) (step : Step before call after)
    (fresh : before.Fresh call.1) : after.Held := by
  have effect := step_iff_effect.mp step.step
  obtain ⟨op, reply⟩ := call
  constructor
  · intro a f
    rw [followers_step effect, watchers_step effect, held.balanced]
  · intro a
    exact nodup_of_change (fun f => followers_step effect a f)
      (fun f raised => (not_mem_of_fresh held fresh raised).1) (held.followers a)
  · intro f
    exact nodup_of_change (fun a => watchers_step effect a f)
      (fun a raised => (not_mem_of_fresh held fresh raised).2) (held.following f)
  · rw [step.due]
    by_cases query : ∃ id, op = .getNewPositions id
    · obtain ⟨id, rfl⟩ := query
      have ids := held.following id
      rw [watchedBy_eq] at ids
      exact nodup_dueOf ids held.due fresh
    · rw [(@quiet_of_other _ _ reply query).1, List.append_nil]
      exact held.due
  · rw [step.due, step.reports, held.reports, List.map_append]
    by_cases query : ∃ id, op = .getNewPositions id
    · obtain ⟨id, rfl⟩ := query
      rw [query_reports step, flatMap_piece fresh]
      rfl
    · obtain ⟨none_due, none_told⟩ := @quiet_of_other before.database.manager op reply query
      rw [none_due, none_told, List.map_nil]

/-- Among followers without repetitions every one is posted to once. -/
theorem posts_single {a : Int16} {latitude longitude : FloatBits} {time : Int}
    {before after : Database} {reply : Reply}
    (effect : Effect before (.addPosition a latitude longitude time) reply after)
    (nodup : (before.manager.followersOf a).Nodup) :
    ∃ posts, after.posted = before.posted ++ posts ∧
      ∀ queue, posts.count queue ≤ (before.manager.followersOf a).dedup.countP
        fun f => before.manager.clientsQueue f = some queue := by
  cases effect with
  | @addPosition _ _ _ _ mine hereData =>
      have listed : before.manager.followersOf a = mine.followers :=
        KeyMap.view_of_some _ _ hereData
      refine ⟨before.manager.queuesOf mine.followers, rfl, fun queue => ?_⟩
      rw [listed] at nodup ⊢
      rw [nodup.dedup, queuesOf, List.count_filterMap]
      apply Nat.le_of_eq
      apply List.countP_congr
      simp

/-- As long as everything is single, a call keeps it so exactly if it is fresh. -/
theorem single_iff_fresh (held : before.Held) (step : Step before call after) :
    Single before call after ↔ before.Fresh call.1 := by
  have effect := step_iff_effect.mp step.step
  constructor
  · intro single
    obtain ⟨op, reply⟩ := call
    cases op with
    | addFollower a f =>
        intro member
        have raised : linkChange a f (.addFollower a f) = some .raise := if_pos ⟨rfl, rfl⟩
        have counted := followers_step effect a f
        have once := List.nodup_iff_count_le_one.mp (single.followers a) f
        have listed := List.count_pos_iff.mpr member
        rw [counted, raised, Change.apply] at once
        omega
    | getNewPositions f =>
        have ids := held.following f
        rw [watchedBy_eq] at ids
        have once := single.reported
        rw [step.reports, held.reports, query_reports step] at once
        exact (nodup_reports_iff ids held.due).mp once
    | _ => trivial
  · intro fresh
    have kept := held_step held step fresh
    constructor
    · exact kept.followers
    · intro id
      rw [← watchedBy_eq]
      exact kept.following id
    · intro a f added member
      rw [added] at fresh
      exact absurd member fresh
    · intro a latitude longitude time moved
      obtain ⟨op, reply⟩ := call
      cases moved
      exact posts_single effect (held.followers a)
    · rw [kept.reports]
      exact kept.due.map first_injective

/-- In the runs whose calls are fresh everything is single, and in no others. -/
theorem single_iff (calls : List (Op × Reply)) :
    Always Step {} Single calls ↔
      Always Step {} (fun before call _ => before.Fresh call.1) calls := by
  have nothing : ({} : Told).Held := ⟨fun _ _ => rfl, fun _ => .nil, fun _ => .nil, .nil, rfl⟩
  apply always_iff_of_invariant nothing
  · intro before call after held step
    exact single_iff_fresh held step
  · intro before call after held step fresh
    exact held_step held step fresh

/-- Every run of the manager is one in which what was told is known. -/
theorem run_told {calls : List (Op × Reply)} {database : Database}
    (run : Run ClientDataManager.Step {} calls database) :
    ∃ told : Told, Run Step {} calls told ∧ told.database = database := by
  induction run with
  | nil => exact ⟨{}, .nil, rfl⟩
  | @snoc calls before call after earlier last ih =>
      obtain ⟨told, run', rfl⟩ := ih
      have step : Step told call
          { database := after
            due := told.due ++ dueTo told.database.manager call.1
            reports := told.reports ++ reportsOf told.database.manager call } := ⟨last, rfl, rfl⟩
      exact ⟨_, .snoc run' step, rfl⟩

/-- The packet that adds the follower comes twice. -/
def insistence : List (Op × Reply) := greeting ++ [(.addFollower 1 2, .none)]

theorem insistence_not_single : ¬ Always Step {} Single insistence := by
  intro single
  have run : Run ClientDataManager.Step {} insistence _ :=
    .cons rfl (.cons rfl (.cons rfl (.cons rfl (.cons rfl .nil))))
  obtain ⟨told, run', last⟩ := run_told run
  obtain ⟨before, earlier, step⟩ := Run.snoc_iff.mp run'
  have once := (single greeting _ [] before told rfl earlier step).followers 1
  rw [last] at once
  revert once
  decide

end Told

end Locus.ClientDataManager
