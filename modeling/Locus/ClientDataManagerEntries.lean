import Mathlib.Data.List.Nodup
import Locus.ClientDataManagerNews

set_option autoImplicit false

/- The entries of the `following` lists from their creation to their removal, and what
`getNewPositions` reports through each of them. -/
namespace Locus.ClientDataManager

open Transition

/-- One turn of the walk: the last position fills the places, unless it is old. -/
theorem watchPositions_eq {followed : ClientData} {position : Position}
    (last : followed.positions.getLast? = some position) (named : followed.name ≠ [])
    (watcher : Watcher) :
    watchPositions followed watcher =
      if position.time > watcher.time then
        ({ watcher with time := max watcher.time (max 0 position.time) },
          List.replicate (if followed.positions.length = 1 then 1 else 3) (watcher.id, position))
      else ({ watcher with time := max watcher.time 0 }, []) := by
  by_cases new : position.time > watcher.time
  · by_cases single : followed.positions.length = 1
    · simp [watchPositions, last, named, pickPositions, maxPositionsPerFollowingId, new, single]
    · simp [watchPositions, last, named, pickPositions, maxPositionsPerFollowingId, new, single,
        List.replicate]
  · simp [watchPositions, last, named, pickPositions, maxPositionsPerFollowingId, new]

/-- There is nothing to report of a client without a name or without positions. -/
theorem watchPositions_silent {followed : ClientData}
    (silent : followed.positions = [] ∨ followed.name = []) (watcher : Watcher) :
    watchPositions followed watcher = (watcher, []) := by
  unfold watchPositions
  rcases silent with nowhere | unnamed
  · rw [nowhere]
    rfl
  · split
    · rfl
    · rw [if_pos unnamed]

/-- The times that are reported lie above the mark, and the mark is raised to them. -/
theorem watchPositions_times (followed : ClientData) (watcher : Watcher) :
    ∀ found ∈ (watchPositions followed watcher).2,
      watcher.time < found.2.time ∧ found.2.time ≤ (watchPositions followed watcher).1.time := by
  intro found member
  by_cases silent : followed.positions = [] ∨ followed.name = []
  · rw [watchPositions_silent silent] at member
    cases member
  · obtain ⟨somewhere, named⟩ := not_or.mp silent
    have last := List.getLast?_eq_some_getLast somewhere
    rw [watchPositions_eq last named] at member ⊢
    by_cases new : (followed.positions.getLast somewhere).time > watcher.time
    · rw [if_pos new] at member ⊢
      rw [List.eq_of_mem_replicate member]
      dsimp only
      omega
    · rw [if_neg new] at member
      cases member

/-- An entry, with the number of the call that made it. -/
structure Entry where
  watcher : Watcher
  stamp : Nat
  deriving DecidableEq, Repr

/-- A manager whose entries are told apart. -/
structure Traced where
  database : Database := {}
  entries : Int16 → List Entry := fun _ => []
  /-- How many calls were made. -/
  calls : Nat := 0
  /-- The times that were reported, with the stamp of the entry, oldest first. -/
  reports : List (Nat × List Int) := []

def Entry.move {β : Type} (watch : ClientData → Watcher → Watcher × List β)
    (m : ClientDataManager) (entry : Entry) : Entry :=
  { entry with watcher := (watch (m.recordOf entry.watcher.id) entry.watcher).1 }

/-- What `getNewPositions` reports through an entry. -/
def Entry.report (m : ClientDataManager) (entry : Entry) : Nat × List Int :=
  (entry.stamp,
    (watchPositions (m.recordOf entry.watcher.id) entry.watcher).2.map fun found => found.2.time)

namespace Traced

/-- `relist`, for entries. -/
def relist (traced : Traced) (id : Int16) : Op → List Entry
  | .addFollower owner follower =>
      if id = follower then
        traced.entries id ++ [{ watcher := { id := owner }, stamp := traced.calls }]
      else traced.entries id
  | .removeFollower owner follower | .stopFollowing follower owner =>
      if id = follower then (traced.entries id).filter (·.watcher.id ≠ owner)
      else traced.entries id
  | .getNewPositions caller =>
      if id = caller then
        (traced.entries id).map (Entry.move watchPositions traced.database.manager)
      else traced.entries id
  | .getNewNames caller =>
      if id = caller then (traced.entries id).map (Entry.move watchName traced.database.manager)
      else traced.entries id
  | _ => traced.entries id

/-- What a call reports through the entries of its caller. -/
def reported (traced : Traced) : Op → List (Nat × List Int)
  | .getNewPositions caller =>
      (traced.entries caller).map (Entry.report traced.database.manager)
  | _ => []

/-- The entries and the reports after a call that has left a manager. -/
def next (traced : Traced) (op : Op) (database : Database) : Traced where
  database
  entries := fun id => traced.relist id op
  calls := traced.calls + 1
  reports := traced.reports ++ traced.reported op

def Step (before : Traced) (call : Op × Reply) (after : Traced) : Prop :=
  ClientDataManager.Step before.database call after.database ∧
    after = before.next call.1 after.database

/-- Every run of the manager is traced. -/
theorem run_traced {calls : List (Op × Reply)} {database : Database}
    (run : Run ClientDataManager.Step {} calls database) :
    ∃ traced : Traced, Run Step {} calls traced ∧ traced.database = database := by
  induction run with
  | nil => exact ⟨{}, .nil, rfl⟩
  | @snoc events before event after earlier last ih =>
      obtain ⟨traced, run, rfl⟩ := ih
      have stepped : Step traced event (traced.next event.1 after) := ⟨last, rfl⟩
      exact ⟨_, .snoc run stepped, rfl⟩

/-- A later report through the same entry has later times only. -/
def Advances (earlier later : Nat × List Int) : Prop :=
  earlier.1 = later.1 → ∀ first ∈ earlier.2, ∀ second ∈ later.2, first < second

structure Sound (traced : Traced) : Prop where
  watchers : ∀ id, (traced.entries id).map (·.watcher) =
    traced.database.manager.followingOf id
  stamped : ∀ id, ∀ entry ∈ traced.entries id, entry.stamp < traced.calls
  distinct : ∀ id, ((traced.entries id).map (·.stamp)).Nodup
  apart : ∀ id other, ∀ entry ∈ traced.entries id, ∀ entry' ∈ traced.entries other,
    entry.stamp = entry'.stamp → id = other
  marked : ∀ id, ∀ entry ∈ traced.entries id, ∀ report ∈ traced.reports,
    report.1 = entry.stamp → ∀ time ∈ report.2, time ≤ entry.watcher.time
  logged : ∀ report ∈ traced.reports, report.1 < traced.calls
  ordered : traced.reports.Pairwise Advances

/-- Where an entry comes from. -/
inductive Came (traced : Traced) (id : Int16) (op : Op) (entry : Entry) : Prop
  | made (owner : Int16) (op_eq : op = .addFollower owner id)
      (entry_eq : entry = { watcher := { id := owner }, stamp := traced.calls })
  | placed (earlier : Entry) (member : earlier ∈ traced.entries id)
      (op_eq : op = .getNewPositions id)
      (entry_eq : entry = earlier.move watchPositions traced.database.manager)
  | named (earlier : Entry) (member : earlier ∈ traced.entries id)
      (op_eq : op = .getNewNames id)
      (entry_eq : entry = earlier.move watchName traced.database.manager)
  | kept (member : entry ∈ traced.entries id) (unplaced : op ≠ .getNewPositions id)
      (unnamed : op ≠ .getNewNames id)

theorem relist_came {traced : Traced} {id : Int16} {op : Op} {entry : Entry}
    (member : entry ∈ traced.relist id op) : traced.Came id op entry := by
  cases op with
  | registerClient | unregister | addPosition | getNameId | setName =>
      exact .kept member (by simp) (by simp)
  | addFollower owner follower =>
      simp only [relist] at member
      split at member
      · rename_i own
        subst own
        rcases List.mem_append.mp member with there | new
        · exact .kept there (by simp) (by simp)
        · exact .made owner rfl (List.mem_singleton.mp new)
      · exact .kept member (by simp) (by simp)
  | removeFollower | stopFollowing =>
      simp only [relist] at member
      split at member
      · exact .kept (List.mem_filter.mp member).1 (by simp) (by simp)
      · exact .kept member (by simp) (by simp)
  | getNewPositions caller =>
      simp only [relist] at member
      split at member
      · rename_i own
        subst own
        obtain ⟨earlier, there, rfl⟩ := List.mem_map.mp member
        exact .placed earlier there rfl rfl
      · rename_i apart
        exact .kept member (by simpa using fun same => apart same.symm) (by simp)
  | getNewNames caller =>
      simp only [relist] at member
      split at member
      · rename_i own
        subst own
        obtain ⟨earlier, there, rfl⟩ := List.mem_map.mp member
        exact .named earlier there rfl rfl
      · rename_i apart
        exact .kept member (by simp) (by simpa using fun same => apart same.symm)

section Step

variable {traced : Traced} {op : Op} {reply : Reply} {database : Database}

/-- Every entry after a call is new, or it has the mark that it had or a higher one. -/
theorem Came.stamp {id : Int16} {entry : Entry} (came : traced.Came id op entry) :
    (entry.stamp = traced.calls ∧ ∃ owner, op = .addFollower owner id) ∨
      ∃ earlier ∈ traced.entries id,
        entry.stamp = earlier.stamp ∧ earlier.watcher.time ≤ entry.watcher.time := by
  cases came with
  | made owner op_eq entry_eq => exact .inl ⟨by rw [entry_eq], owner, op_eq⟩
  | placed earlier member _ entry_eq =>
      refine .inr ⟨earlier, member, by rw [entry_eq]; rfl, ?_⟩
      rw [entry_eq]
      exact (watchPositions_spec _ earlier.watcher).2.2.1
  | named earlier member _ entry_eq =>
      refine .inr ⟨earlier, member, by rw [entry_eq]; rfl, ?_⟩
      rw [entry_eq]
      exact Int.le_of_eq (watchName_spec _ earlier.watcher).2.1.symm
  | kept member => exact .inr ⟨entry, member, rfl, Int.le_refl _⟩

theorem relist_watchers (sound : traced.Sound) (id : Int16) :
    (traced.relist id op).map (·.watcher) = traced.database.manager.relist id op := by
  have same := sound.watchers id
  have moved {β : Type} (watch : ClientData → Watcher → Watcher × List β) :
      ((traced.entries id).map (Entry.move watch traced.database.manager)).map (·.watcher) =
        (traced.database.manager.followingOf id).map fun watcher =>
          (watch (traced.database.manager.recordOf watcher.id) watcher).1 := by
    rw [← same, List.map_map, List.map_map]
    rfl
  cases op with
  | registerClient | unregister | addPosition | getNameId | setName => exact same
  | addFollower owner follower =>
      simp only [relist, ClientDataManager.relist]
      split
      · rw [List.map_append, same]
        rfl
      · exact same
  | removeFollower | stopFollowing =>
      simp only [relist, ClientDataManager.relist]
      split
      · rw [← same, List.filter_map]
        rfl
      · exact same
  | getNewPositions caller =>
      simp only [relist, ClientDataManager.relist]
      split
      · exact moved watchPositions
      · exact same
  | getNewNames caller =>
      simp only [relist, ClientDataManager.relist]
      split
      · exact moved watchName
      · exact same

theorem relist_distinct (sound : traced.Sound) (id : Int16) :
    ((traced.relist id op).map (·.stamp)).Nodup := by
  have distinct := sound.distinct id
  have moved {β : Type} (watch : ClientData → Watcher → Watcher × List β) :
      ((traced.entries id).map (Entry.move watch traced.database.manager)).map (·.stamp) =
        (traced.entries id).map (·.stamp) := by
    rw [List.map_map]
    rfl
  cases op with
  | registerClient | unregister | addPosition | getNameId | setName => exact distinct
  | addFollower owner follower =>
      simp only [relist]
      split
      · rw [List.map_append, List.nodup_append]
        refine ⟨distinct, by simp, ?_⟩
        intro stamp there other new same
        obtain ⟨entry, member, rfl⟩ := List.mem_map.mp there
        rw [List.map_singleton, List.mem_singleton] at new
        have older := sound.stamped id entry member
        rw [same, new] at older
        exact Nat.lt_irrefl _ older
      · exact distinct
  | removeFollower | stopFollowing =>
      simp only [relist]
      split
      · exact distinct.sublist (List.filter_sublist.map _)
      · exact distinct
  | getNewPositions caller =>
      simp only [relist]
      split
      · rw [moved]
        exact distinct
      · exact distinct
  | getNewNames caller =>
      simp only [relist]
      split
      · rw [moved]
        exact distinct
      · exact distinct

/-- Where a report comes from. -/
theorem mem_reported {report : Nat × List Int} (member : report ∈ traced.reported op) :
    ∃ caller, op = .getNewPositions caller ∧ ∃ entry ∈ traced.entries caller,
      report = entry.report traced.database.manager := by
  cases op with
  | getNewPositions caller =>
      obtain ⟨entry, there, rfl⟩ := List.mem_map.mp member
      exact ⟨caller, rfl, entry, there, rfl⟩
  | _ => cases member

theorem report_times {entry : Entry} {time : Int} {m : ClientDataManager}
    (member : time ∈ (entry.report m).2) :
    entry.watcher.time < time ∧ time ≤ (entry.move watchPositions m).watcher.time := by
  obtain ⟨found, there, rfl⟩ := List.mem_map.mp member
  exact watchPositions_times _ _ found there

/-- The times that were reported through an entry lie at or below its mark. -/
theorem marked_next (sound : traced.Sound) (id : Int16) :
    ∀ entry ∈ traced.relist id op, ∀ report ∈ traced.reports ++ traced.reported op,
      report.1 = entry.stamp → ∀ time ∈ report.2, time ≤ entry.watcher.time := by
  intro entry member report logged same time told
  have came := relist_came member
  rcases List.mem_append.mp logged with old | new
  · rcases came.stamp with fresh | ⟨earlier, there, stamp, later⟩
    · have older := sound.logged report old
      omega
    · exact Int.le_trans (sound.marked id earlier there report old (same.trans stamp) time told)
        later
  · obtain ⟨caller, rfl, reporter, there, rfl⟩ := mem_reported new
    have older := sound.stamped caller reporter there
    change reporter.stamp = entry.stamp at same
    cases came with
    | made owner op_eq | named owner _ op_eq => cases op_eq
    | placed earlier member' op_eq entry_eq =>
        cases op_eq
        rw [entry_eq] at same ⊢
        have one : reporter = earlier :=
          List.inj_on_of_nodup_map (sound.distinct id) there member' same
        rw [one] at told
        exact (report_times told).2
    | kept member' unplaced _ =>
        have own := sound.apart caller id reporter there entry member' same
        exact absurd (by rw [own]) unplaced

/-- What is reported lies above what was reported through the same entries before. -/
theorem ordered_next (sound : traced.Sound) :
    (traced.reports ++ traced.reported op).Pairwise Advances := by
  refine List.pairwise_append.mpr ⟨sound.ordered, ?_, ?_⟩
  · cases op with
    | getNewPositions caller =>
        simp only [reported, List.pairwise_map]
        have distinct := List.pairwise_map.mp (sound.distinct caller)
        exact distinct.imp fun apart same => absurd same apart
    | _ => exact .nil
  · intro earlier old later new same first told second told'
    obtain ⟨caller, rfl, entry, there, rfl⟩ := mem_reported new
    have mark := sound.marked caller entry there earlier old same first told
    have above := (report_times told').1
    omega

theorem sound_step {before after : Traced} {call : Op × Reply} (sound : before.Sound)
    (step : Step before call after) : after.Sound := by
  obtain ⟨called, next⟩ := step
  have effect := step_iff_effect.mp called
  rw [next]
  refine ⟨?_, ?_, relist_distinct sound, ?_, marked_next sound, ?_, ordered_next sound⟩
  · intro id
    exact (relist_watchers sound id).trans (followingOf_step effect id).symm
  · intro id entry member
    change entry.stamp < before.calls + 1
    rcases (relist_came member).stamp with ⟨fresh, _⟩ | ⟨earlier, there, stamp, _⟩
    · omega
    · have older := sound.stamped id earlier there
      omega
  · intro id other entry member entry' member' same
    have came := relist_came member
    have came' := relist_came member'
    rcases came.stamp with ⟨fresh, owner, op_eq⟩ | ⟨earlier, there, stamp, _⟩
    · rcases came'.stamp with ⟨_, owner', op_eq'⟩ | ⟨earlier', there', stamp', _⟩
      · rw [op_eq] at op_eq'
        cases op_eq'
        rfl
      · have older := sound.stamped other earlier' there'
        omega
    · rcases came'.stamp with ⟨fresh', _⟩ | ⟨earlier', there', stamp', _⟩
      · have older := sound.stamped id earlier there
        omega
      · exact sound.apart id other earlier there earlier' there' (by omega)
  · intro report member
    change report.1 < before.calls + 1
    rcases List.mem_append.mp member with old | new
    · have older := sound.logged report old
      omega
    · obtain ⟨caller, _, entry, there, rfl⟩ := mem_reported new
      exact Nat.lt_succ_of_lt (sound.stamped caller entry there)

end Step

section Runs

variable {calls later : List (Op × Reply)} {traced after : Traced}

theorem sound_start : Sound {} where
  watchers := fun _ => rfl
  stamped := by simp
  distinct := by simp
  apart := by simp
  marked := by simp
  logged := by simp
  ordered := .nil

theorem sound_run (run : Run Step {} calls traced) : traced.Sound :=
  run.invariant Sound sound_start fun _ _ _ => sound_step

/-- As long as an entry is there its mark is never lowered. -/
theorem marks_run (sound : traced.Sound) (run : Run Step traced later after) {id : Int16}
    {entry : Entry} (member : entry ∈ traced.entries id) :
    ∀ other, ∀ entry' ∈ after.entries other, entry'.stamp = entry.stamp →
      entry.watcher.time ≤ entry'.watcher.time := by
  have old := sound.stamped id entry member
  have held : traced.calls ≤ after.calls ∧ ∀ other, ∀ entry' ∈ after.entries other,
      entry'.stamp = entry.stamp → entry.watcher.time ≤ entry'.watcher.time := by
    refine run.invariant (fun after => traced.calls ≤ after.calls ∧
      ∀ other, ∀ entry' ∈ after.entries other, entry'.stamp = entry.stamp →
        entry.watcher.time ≤ entry'.watcher.time) ⟨Nat.le_refl _, ?_⟩ ?_
    · intro other entry' there same
      have own := sound.apart other id entry' there entry member same
      subst own
      have alike : entry' = entry :=
        List.inj_on_of_nodup_map (sound.distinct other) there member same
      exact Int.le_of_eq (congrArg (·.watcher.time) alike.symm)
    · rintro before call final ⟨counted, marks⟩ ⟨_, next⟩
      rw [next]
      refine ⟨Nat.le_succ_of_le counted, ?_⟩
      intro other entry' there same
      rcases (relist_came there).stamp with ⟨fresh, _⟩ | ⟨earlier, there', stamp, raised⟩
      · omega
      · have mark := marks other earlier there' (stamp.symm.trans same)
        omega
  exact held.2

end Runs

end Traced

/-- The calls that make something new to report of a client. -/
def Op.news : Op → Bool
  | .addPosition _ _ _ _ | .setName _ _ => true
  | _ => false

/-- Other calls leave the names and the last positions as they are. -/
theorem unchanged_step {before after : Database} {op : Op} {reply : Reply}
    (effect : Effect before op reply after) (quiet : op.news = false) :
    (∀ id, after.manager.nameOf id = before.manager.nameOf id) ∧
      ∀ id, after.manager.lastPosition id = before.manager.lastPosition id := by
  cases effect with
  | registerKnown | unregister | getNameId | setNameTaken => exact ⟨fun _ => rfl, fun _ => rfl⟩
  | registerFresh fresh =>
      exact ⟨fun _ => KeyMap.view_insert _ _ _ _ _ _ rfl,
        fun _ => KeyMap.view_insert _ _ _ _ _ _ rfl⟩
  | addFollower | removeFollower | stopFollowing =>
      exact ⟨KeyMap.view_edits_kept (fun _ => rfl) (fun _ => rfl),
        KeyMap.view_edits_kept (fun _ => rfl) (fun _ => rfl)⟩
  | addPosition | setNameFree => cases quiet
  | getNewPositions hereData visited =>
      have queried := queried_of_visited hereData visited
      exact ⟨queried.names, queried.positions⟩
  | getNewNames hereData visited =>
      have queried := queried_of_visited hereData visited
      exact ⟨queried.names, queried.positions⟩

/-- A query reports nothing through a watcher. -/
def Silent {β : Type} (watch : ClientData → Watcher → Watcher × List β) (m : ClientDataManager)
    (watcher : Watcher) : Prop :=
  (watch (m.recordOf watcher.id) watcher).2 = []

theorem silent_positions_iff {m : ClientDataManager} {watcher : Watcher} :
    Silent watchPositions m watcher ↔ (m.nameOf watcher.id ≠ [] →
      ∀ position, m.lastPosition watcher.id = some position → position.time ≤ watcher.time) := by
  rw [Silent, nameOf_eq, lastPosition_eq]
  generalize m.recordOf watcher.id = followed
  by_cases quiet : followed.positions = [] ∨ followed.name = []
  · rw [watchPositions_silent quiet]
    apply iff_of_true rfl
    intro named position last
    rcases quiet with nowhere | unnamed
    · rw [nowhere] at last
      cases last
    · exact absurd unnamed named
  · obtain ⟨somewhere, named⟩ := not_or.mp quiet
    have last := List.getLast?_eq_some_getLast somewhere
    rw [watchPositions_eq last named]
    by_cases new : (followed.positions.getLast somewhere).time > watcher.time
    · rw [if_pos new]
      apply iff_of_false
      · split <;> simp
      · intro old
        have seen := old named _ last
        omega
    · rw [if_neg new]
      apply iff_of_true rfl
      intro _ position last'
      cases last.symm.trans last'
      omega

theorem silent_names_iff {m : ClientDataManager} {watcher : Watcher} :
    Silent watchName m watcher ↔
      (m.nameOf watcher.id ≠ [] → watcher.name = m.nameOf watcher.id) := by
  rw [Silent, nameOf_eq, watchName]
  split
  · rename_i new
    exact iff_of_false (by simp) fun told => new.2 (told new.1).symm
  · rename_i old
    refine iff_of_true rfl fun named => ?_
    by_contra other
    exact old ⟨named, fun same => other same.symm⟩

/-- A watcher through which nothing is reported stays so while nothing new comes up. -/
structure Lasting {β : Type} (watch : ClientData → Watcher → Watcher × List β) : Prop where
  done : ∀ m watcher, Silent watch m (watch (m.recordOf watcher.id) watcher).1
  placed : ∀ m watcher, Silent watch m watcher →
    Silent watch m (watchPositions (m.recordOf watcher.id) watcher).1
  named : ∀ m watcher, Silent watch m watcher →
    Silent watch m (watchName (m.recordOf watcher.id) watcher).1
  unchanged : ∀ m other watcher, (∀ id, other.nameOf id = m.nameOf id) →
    (∀ id, other.lastPosition id = m.lastPosition id) → Silent watch m watcher →
    Silent watch other watcher

theorem lasting_positions : Lasting watchPositions := by
  refine ⟨?_, ?_, ?_, ?_⟩
  · intro m watcher
    obtain ⟨sameId, _, _, told⟩ := watchPositions_spec (m.recordOf watcher.id) watcher
    rw [silent_positions_iff, sameId, nameOf_eq, lastPosition_eq]
    exact told
  · intro m watcher silent
    obtain ⟨sameId, _, later, _⟩ := watchPositions_spec (m.recordOf watcher.id) watcher
    rw [silent_positions_iff] at silent ⊢
    rw [sameId]
    intro named position last
    exact Int.le_trans (silent named position last) later
  · intro m watcher silent
    obtain ⟨sameId, sameTime, _⟩ := watchName_spec (m.recordOf watcher.id) watcher
    rw [silent_positions_iff] at silent ⊢
    rwa [sameId, sameTime]
  · intro m other watcher names positions silent
    rw [silent_positions_iff] at silent ⊢
    rwa [names, positions]

theorem lasting_names : Lasting watchName := by
  refine ⟨?_, ?_, ?_, ?_⟩
  · intro m watcher
    obtain ⟨sameId, _, told⟩ := watchName_spec (m.recordOf watcher.id) watcher
    rw [silent_names_iff, sameId, nameOf_eq]
    exact told
  · intro m watcher silent
    obtain ⟨sameId, sameName, _⟩ := watchPositions_spec (m.recordOf watcher.id) watcher
    rw [silent_names_iff] at silent ⊢
    rwa [sameId, sameName]
  · intro m watcher silent
    obtain ⟨sameId, _, told⟩ := watchName_spec (m.recordOf watcher.id) watcher
    rw [silent_names_iff, sameId, nameOf_eq]
    exact told
  · intro m other watcher names _ silent
    rw [silent_names_iff] at silent ⊢
    rwa [names]

namespace Traced

/-- The entries of a client up to a stamp report nothing. -/
def Quieted {β : Type} (watch : ClientData → Watcher → Watcher × List β) (id : Int16)
    (stamp : Nat) (traced : Traced) : Prop :=
  ∀ entry ∈ traced.entries id, entry.stamp < stamp →
    Silent watch traced.database.manager entry.watcher

theorem quieted_step {β : Type} {watch : ClientData → Watcher → Watcher × List β}
    (lasting : Lasting watch) {id : Int16} {stamp : Nat} {before after : Traced}
    {call : Op × Reply} (older : stamp ≤ before.calls) (quieted : before.Quieted watch id stamp)
    (step : Step before call after) (quiet : call.1.news = false) :
    after.Quieted watch id stamp := by
  obtain ⟨called, next⟩ := step
  obtain ⟨names, positions⟩ := unchanged_step (step_iff_effect.mp called) quiet
  intro entry member early
  rw [next] at member
  apply lasting.unchanged _ _ _ names positions
  cases relist_came member with
  | made owner _ entry_eq =>
      rw [entry_eq] at early
      exact absurd early (Nat.not_lt.mpr older)
  | placed earlier there _ entry_eq =>
      rw [entry_eq] at early ⊢
      exact lasting.placed _ _ (quieted earlier there early)
  | named earlier there _ entry_eq =>
      rw [entry_eq] at early ⊢
      exact lasting.named _ _ (quieted earlier there early)
  | kept there => exact quieted entry there early

/-- A method that answers with what `watch` reports. -/
structure Asks {β : Type} (watch : ClientData → Watcher → Watcher × List β) (query : Int16 → Op)
    (answer : List β → Reply) : Prop where
  lasting : Lasting watch
  quiet : ∀ id, (query id).news = false
  queried : ∀ {before after : Database} {id : Int16} {reply : Reply},
    Effect before (query id) reply after →
      ∃ found, reply = answer found ∧ Queried watch id before.manager after.manager found

theorem asks_positions : Asks watchPositions .getNewPositions .positions := by
  refine ⟨lasting_positions, fun _ => rfl, ?_⟩
  intro before after id reply effect
  cases effect with
  | getNewPositions hereData visited => exact ⟨_, rfl, queried_of_visited hereData visited⟩

theorem asks_names : Asks watchName .getNewNames .names := by
  refine ⟨lasting_names, fun _ => rfl, ?_⟩
  intro before after id reply effect
  cases effect with
  | getNewNames hereData visited => exact ⟨_, rfl, queried_of_visited hereData visited⟩

/-- After a query and calls that bring nothing new, its client is reported nothing through the
entries that the query has seen, and it is answered with nothing if no entry was made. -/
def AskedAgain {β : Type} (watch : ClientData → Watcher → Watcher × List β)
    (query : Int16 → Op) (answer : List β → Reply) (before : Traced) : Prop :=
  ∀ id reply between after, Run Step before ((query id, reply) :: between) after →
    (∀ call ∈ between, call.1.news = false) →
    (∀ entry ∈ after.entries id, entry.stamp ≤ before.calls →
      Silent watch after.database.manager entry.watcher) ∧
    ((∀ call ∈ between, ∀ owner, call.1 ≠ .addFollower owner id) →
      ∀ again final, Step after (query id, again) final → again = answer [])

section AskedAgain

variable {β : Type} {watch : ClientData → Watcher → Watcher × List β} {query : Int16 → Op}
  {answer : List β → Reply}

/-- Right after a query nothing is left to report. -/
theorem quieted_of_query (asks : Asks watch query answer) {before after : Traced} {id : Int16}
    {reply : Reply} (sound : before.Sound) (step : Step before (query id, reply) after) :
    after.Quieted watch id after.calls := by
  have effect := step_iff_effect.mp step.1
  obtain ⟨found, _, queried⟩ := asks.queried effect
  obtain ⟨names, positions⟩ := unchanged_step effect (asks.quiet id)
  intro entry member _
  have listed : entry.watcher ∈ after.database.manager.followingOf id := by
    rw [← (sound_step sound step).watchers]
    exact List.mem_map_of_mem member
  rw [queried.moved] at listed
  obtain ⟨watcher, _, moved⟩ := List.mem_map.mp listed
  rw [← moved]
  exact asks.lasting.unchanged _ _ _ names positions (asks.lasting.done _ watcher)

/-- Calls that make no entry leave those with earlier stamps. -/
theorem stamps_run {id : Int16} {stamp : Nat} {between : List (Op × Reply)} {middle after : Traced}
    (old : ∀ entry ∈ middle.entries id, entry.stamp < stamp) (rest : Run Step middle between after)
    (unmade : ∀ call ∈ between, ∀ owner, call.1 ≠ .addFollower owner id) :
    ∀ entry ∈ after.entries id, entry.stamp < stamp := by
  induction rest with
  | nil => exact old
  | @snoc events before event after earlier last ih =>
      have held := ih fun call member => unmade call (List.mem_append_left _ member)
      obtain ⟨_, next⟩ := last
      intro entry member
      rw [next] at member
      rcases (relist_came member).stamp with ⟨_, owner, made⟩ | ⟨older, there, same, _⟩
      · exact absurd made (unmade event (by simp) owner)
      · rw [same]
        exact held older there

theorem quieted_run (lasting : Lasting watch) {id : Int16} {stamp : Nat}
    {between : List (Op × Reply)} {middle after : Traced} (older : stamp ≤ middle.calls)
    (quieted : middle.Quieted watch id stamp) (rest : Run Step middle between after)
    (quiet : ∀ call ∈ between, call.1.news = false) :
    stamp ≤ after.calls ∧ after.Quieted watch id stamp := by
  induction rest with
  | nil => exact ⟨older, quieted⟩
  | @snoc events before event after earlier last ih =>
      obtain ⟨counted, held⟩ := ih fun call member => quiet call (List.mem_append_left _ member)
      refine ⟨?_, quieted_step lasting counted held last (quiet event (by simp))⟩
      rw [last.2]
      exact Nat.le_succ_of_le counted

theorem asked_again (asks : Asks watch query answer) {before : Traced} (sound : before.Sound) :
    before.AskedAgain watch query answer := by
  intro id reply between after run quiet
  obtain ⟨middle, first, rest⟩ := Run.cons_iff.mp run
  have counted : middle.calls = before.calls + 1 := by rw [first.2]; rfl
  have quieted := quieted_of_query asks sound first
  obtain ⟨_, held⟩ := quieted_run asks.lasting (Nat.le_refl _) quieted rest quiet
  refine ⟨fun entry member early => held entry member (by omega), ?_⟩
  intro unmade again final second
  have sound' := sound_step sound first
  have old := stamps_run (sound'.stamped id) rest unmade
  obtain ⟨found, rfl, queried⟩ := asks.queried (step_iff_effect.mp second.1)
  have sound'' : after.Sound := by
    refine rest.invariant Sound sound' fun _ _ _ => sound_step
  rw [queried.reported, ← sound''.watchers]
  congr 1
  apply List.flatMap_eq_nil_iff.mpr
  intro watcher member
  obtain ⟨entry, there, rfl⟩ := List.mem_map.mp member
  exact held entry there (old entry there)

end AskedAgain

/-- What `getNewPositions` answers is what it reports through the entries of its caller. -/
theorem answered_step {before after : Traced} (sound : before.Sound) {id : Int16}
    {found : List (Int16 × Position)}
    (step : Step before (.getNewPositions id, .positions found) after) :
    after.reports = before.reports ++ before.reported (.getNewPositions id) ∧
      found.map (fun entry => entry.2.time) =
        (before.reported (.getNewPositions id)).flatMap (·.2) := by
  obtain ⟨called, next⟩ := step
  refine ⟨by rw [next]; rfl, ?_⟩
  have queried := (getNewPositions_queried (step_iff_effect.mp called)).1
  rw [queried.reported, ← sound.watchers, List.flatMap_map, List.map_flatMap, reported,
    List.flatMap_map]
  rfl

/-- What holds of the reports between two states of a run. -/
structure ReportsAdvance (before after : Traced) : Prop where
  watchers : ∀ id, (after.entries id).map (·.watcher) = after.database.manager.followingOf id
  answered : ∀ id found final, Step after (.getNewPositions id, .positions found) final →
    final.reports = after.reports ++ after.reported (.getNewPositions id) ∧
      found.map (fun entry => entry.2.time) =
        (after.reported (.getNewPositions id)).flatMap (·.2)
  ordered : after.reports.Pairwise Advances
  marks : ∀ id, ∀ entry ∈ before.entries id, ∀ entry' ∈ after.entries id,
    entry'.stamp = entry.stamp → entry.watcher.time ≤ entry'.watcher.time
  positions : after.AskedAgain watchPositions .getNewPositions .positions
  names : after.AskedAgain watchName .getNewNames .names

/-- In every run, what a query reports through an entry lies above all that was reported through
it before, the mark of an entry is never lowered, and a query that is made again reports nothing
as long as nothing new has come up. -/
theorem reports_advance {calls later : List (Op × Reply)} {middle after : Traced}
    (run : Run Step {} calls middle) (rest : Run Step middle later after) :
    middle.ReportsAdvance after := by
  have sound := sound_run run
  have sound' : after.Sound := rest.invariant Sound sound fun _ _ _ => sound_step
  refine ⟨sound'.watchers, fun _ _ _ => answered_step sound', sound'.ordered, ?_,
    asked_again asks_positions sound', asked_again asks_names sound'⟩
  intro id entry member
  exact marks_run sound rest member id

/-- A position comes in late, and its follower asks twice. -/
def lateNews : List (Op × Reply) :=
  [(.addPosition 1 7 8 5, .none), (.getNewPositions 2, .positions [(1, ⟨7, 8, 5⟩)]),
    (.addPosition 1 9 9 3, .none), (.getNewPositions 2, .positions [])]

theorem reports_advance_lateNews : ∃ middle after, Run Step {} greeting middle ∧
    Run Step middle lateNews after ∧ middle.ReportsAdvance after := by
  have called : Run ClientDataManager.Step {} (greeting ++ lateNews) _ :=
    .cons rfl (.cons rfl (.cons rfl (.cons rfl (.cons rfl (.cons rfl (.cons rfl
      (.cons rfl .nil)))))))
  obtain ⟨after, run, _⟩ := run_traced called
  obtain ⟨middle, first, rest⟩ := Run.append_iff.mp run
  exact ⟨middle, after, first, rest, reports_advance first rest⟩

end Traced

end Locus.ClientDataManager
