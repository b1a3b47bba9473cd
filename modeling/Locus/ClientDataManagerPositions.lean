import Mathlib.Data.List.DropRight
import Locus.ClientDataManagerEntries

set_option autoImplicit false

/- What `getNewPositions` is meant to report, and when it does. -/
namespace Locus.ClientDataManager

open Transition

/-- The positions that a watcher has not seen, newest first: the last ones of the longest suffix
whose times all lie above its mark. -/
def newPositions (followed : ClientData) (watcher : Watcher) : List Position :=
  if followed.name = [] then []
  else ((followed.positions.rtakeWhile (watcher.time < ·.time)).rtake
    maxPositionsPerFollowingId).reverse

/-- The watcher with its mark at the newest time that it was told. -/
def marked (watcher : Watcher) (positions : List Position) : Watcher :=
  { watcher with
    time := positions.foldl (fun time position => max time position.time) watcher.time }

/-- Each watcher in turn is told its new positions, and marked with them. -/
def ReportsNew (database : Database) (id : Int16) : Prop :=
  ∃ after, getNewPositions id database =
      .ok ((database.manager.followingOf id).flatMap fun watcher =>
        (newPositions (database.manager.recordOf watcher.id) watcher).map (watcher.id, ·)) after ∧
    after.manager.followingOf id = (database.manager.followingOf id).map fun watcher =>
      marked watcher (newPositions (database.manager.recordOf watcher.id) watcher)

/-- The client has no name, or its last position is old, or it is the only one, or it is the same
as the two before it. -/
def OnePosition (followed : ClientData) (watcher : Watcher) : Prop :=
  followed.name = [] ∨ ∀ position, followed.positions.getLast? = some position →
    position.time ≤ watcher.time ∨ followed.positions = [position] ∨
      [position, position, position] <:+ followed.positions

/-- What is new, from the last position backwards. -/
theorem newPositions_eq {followed : ClientData} (named : followed.name ≠ []) (watcher : Watcher) :
    newPositions followed watcher =
      (followed.positions.reverse.takeWhile (watcher.time < ·.time)).take
        maxPositionsPerFollowingId := by
  rw [newPositions, if_neg named, List.rtake_eq_reverse_take_reverse, List.reverse_reverse]
  congr 1
  rw [← List.reverse_reverse followed.positions, List.rtakeWhile_reverse, List.reverse_reverse,
    List.reverse_reverse]

/-- The first two that are taken are the same as `position` if the first two are. -/
theorem take_two_iff {positions : List Position} {position : Position} {mark : Int}
    (new : mark < position.time) :
    (positions.takeWhile (mark < ·.time)).take 2 = [position, position] ↔
      [position, position] <+: positions := by
  constructor
  · intro taken
    rw [← taken]
    exact (List.take_prefix 2 _).trans (List.takeWhile_prefix _)
  · rintro ⟨rest, rfl⟩
    simp [new]

theorem marked_replicate {watcher : Watcher} {position : Position}
    (new : watcher.time < position.time) (count : Nat) :
    marked watcher (List.replicate (count + 1) position) =
      { watcher with time := position.time } := by
  have top : ∀ count, (List.replicate count position).foldl
      (fun time position => max time position.time) position.time = position.time := by
    intro count
    induction count with
    | zero => rfl
    | succ count ih => rw [List.replicate_succ, List.foldl_cons, Int.max_self, ih]
  simp only [marked, List.replicate_succ, List.foldl_cons, Int.max_eq_right (Int.le_of_lt new), top]

section Turn

variable {followed : ClientData} {watcher : Watcher} {position : Position}
  {earlier : List Position}

/-- The condition, where the last position is new. -/
theorem onePosition_iff (named : followed.name ≠ [])
    (whole : followed.positions.reverse = position :: earlier)
    (new : watcher.time < position.time) :
    OnePosition followed watcher ↔ earlier = [] ∨ [position, position] <+: earlier := by
  have positions : followed.positions = earlier.reverse ++ [position] := by
    rw [← List.reverse_cons, ← whole, List.reverse_reverse]
  have last : followed.positions.getLast? = some position := by
    rw [positions, List.getLast?_concat]
  have suffix_iff : [position, position, position] <:+ followed.positions ↔
      [position, position] <+: earlier := by
    rw [← List.reverse_prefix, whole]
    simp
  have single : followed.positions = [position] ↔ earlier = [] := by
    rw [positions]
    simp
  constructor
  · rintro (unnamed | one)
    · exact absurd unnamed named
    · rcases one position last with old | only | same
      · omega
      · exact .inl (single.mp only)
      · exact .inr (suffix_iff.mp same)
  · rintro (only | same)
    · refine .inr fun other last' => ?_
      cases last.symm.trans last'
      exact .inr (.inl (single.mpr only))
    · refine .inr fun other last' => ?_
      cases last.symm.trans last'
      exact .inr (.inr (suffix_iff.mpr same))

/-- One turn of the walk, where the last position is new. -/
theorem turn_new (named : followed.name ≠ [])
    (whole : followed.positions.reverse = position :: earlier)
    (new : watcher.time < position.time) (started : 0 ≤ watcher.time) :
    watchPositions followed watcher =
        ({ watcher with time := position.time },
          List.replicate (if earlier = [] then 1 else 3) (watcher.id, position)) ∧
      newPositions followed watcher =
        position :: (earlier.takeWhile (watcher.time < ·.time)).take 2 := by
  have positions : followed.positions = earlier.reverse ++ [position] := by
    rw [← List.reverse_cons, ← whole, List.reverse_reverse]
  have last : followed.positions.getLast? = some position := by
    rw [positions, List.getLast?_concat]
  have single : followed.positions.length = 1 ↔ earlier = [] := by
    rw [positions]
    simp
  constructor
  · rw [watchPositions_eq last named, if_pos new]
    have time : max watcher.time (max 0 position.time) = position.time := by omega
    simp only [time, single]
  · rw [newPositions_eq named, whole]
    simp [new, maxPositionsPerFollowingId]

/-- One turn of the walk reports what is new exactly under the condition, and then it sets the
mark. It never reports less. -/
theorem turn_iff (started : 0 ≤ watcher.time) :
    ((watchPositions followed watcher).2 =
        (newPositions followed watcher).map (watcher.id, ·) ↔ OnePosition followed watcher) ∧
      (newPositions followed watcher).length ≤ (watchPositions followed watcher).2.length ∧
      (OnePosition followed watcher →
        (watchPositions followed watcher).1 = marked watcher (newPositions followed watcher)) := by
  by_cases named : followed.name = []
  · rw [watchPositions_silent (.inr named), newPositions, if_pos named]
    exact ⟨iff_of_true rfl (.inl named), Nat.le_refl 0, fun _ => rfl⟩
  · cases whole : followed.positions.reverse with
    | nil =>
        have nowhere : followed.positions = [] := List.reverse_eq_nil_iff.mp whole
        rw [watchPositions_silent (.inl nowhere), newPositions_eq named, whole]
        refine ⟨iff_of_true rfl (.inr ?_), Nat.le_refl 0, fun _ => rfl⟩
        intro position last
        rw [nowhere] at last
        cases last
    | cons position earlier =>
        by_cases new : watcher.time < position.time
        · obtain ⟨turn, expected⟩ := turn_new named whole new started
          rw [turn, expected, onePosition_iff named whole new]
          by_cases only : earlier = []
          · rw [if_pos only, only]
            exact ⟨iff_of_true rfl (.inl rfl), Nat.le_refl 1, fun _ =>
              (marked_replicate new 0).symm⟩
          · rw [if_neg only, ← take_two_iff new]
            refine ⟨?_, ?_, ?_⟩
            · have injective : Function.Injective fun found : Position => (watcher.id, found) :=
                fun _ _ same => (Prod.mk.inj same).2
              have thrice : List.replicate 3 (watcher.id, position) =
                  [position, position, position].map (watcher.id, ·) := rfl
              rw [thrice, (List.map_injective_iff.mpr injective).eq_iff, List.cons_inj_right,
                or_iff_right only, eq_comm]
            · rw [List.length_cons, List.length_replicate]
              exact Nat.succ_le_succ (List.length_take_le 2 _)
            · rintro (impossible | same)
              · exact absurd impossible only
              · rw [same]
                exact (marked_replicate new 2).symm
        · have last : followed.positions.getLast? = some position := by
            rw [← List.head?_reverse, whole]
            rfl
          have silent : newPositions followed watcher = [] := by
            rw [newPositions_eq named, whole]
            simp [new]
          have kept : max watcher.time 0 = watcher.time := by omega
          rw [watchPositions_eq last named, if_neg new, silent]
          refine ⟨iff_of_true rfl (.inr ?_), Nat.le_refl 0, fun _ => ?_⟩
          · intro other last'
            cases last.symm.trans last'
            exact .inl (Int.not_lt.mp new)
          · rw [kept]
            rfl

end Turn

section Pieces

variable {α β : Type} {long short : α → List β} {entries : List α}

theorem length_flatMap_le
    (shorter : ∀ entry ∈ entries, (short entry).length ≤ (long entry).length) :
    (entries.flatMap short).length ≤ (entries.flatMap long).length := by
  induction entries with
  | nil => exact Nat.le_refl 0
  | cons entry rest ih =>
      rw [List.flatMap_cons, List.flatMap_cons, List.length_append, List.length_append]
      exact Nat.add_le_add (shorter entry (by simp))
        (ih fun other member => shorter other (by simp [member]))

/-- Two lists that are made piece by piece are the same only if their pieces are, where the
pieces of one are never longer. -/
theorem flatMap_eq_iff (shorter : ∀ entry ∈ entries, (short entry).length ≤ (long entry).length) :
    entries.flatMap long = entries.flatMap short ↔
      ∀ entry ∈ entries, long entry = short entry := by
  constructor
  · intro same
    induction entries with
    | nil => simp
    | cons entry rest ih =>
        have shorter' : ∀ other ∈ rest, (short other).length ≤ (long other).length :=
          fun other member => shorter other (by simp [member])
        have here := shorter entry (by simp)
        have there := length_flatMap_le shorter'
        rw [List.flatMap_cons, List.flatMap_cons] at same
        have total := congrArg List.length same
        rw [List.length_append, List.length_append] at total
        obtain ⟨first, others⟩ := List.append_inj same (by omega)
        rintro other (_ | ⟨_, member⟩)
        · exact first
        · exact ih shorter' others other member
  · exact List.flatMap_congr

end Pieces

/-- No mark lies below where it starts. -/
theorem started_run {calls : List (Op × Reply)} {database : Database}
    (run : Run Step {} calls database) (id : Int16) :
    ∀ watcher ∈ database.manager.followingOf id, 0 ≤ watcher.time := by
  obtain ⟨traced, run', rfl⟩ := Traced.run_traced run
  have started : ∀ id, ∀ entry ∈ traced.entries id, 0 ≤ entry.watcher.time := by
    refine run'.invariant (fun traced => ∀ id, ∀ entry ∈ traced.entries id,
      0 ≤ entry.watcher.time) (by simp) ?_
    rintro before call after held ⟨_, next⟩ id entry member
    rw [next] at member
    cases Traced.relist_came member with
    | made owner _ entry_eq =>
        exact Int.le_of_eq (congrArg (·.watcher.time) entry_eq.symm)
    | placed earlier there _ entry_eq =>
        rw [entry_eq]
        exact Int.le_trans (held id earlier there)
          (watchPositions_spec _ earlier.watcher).2.2.1
    | named earlier there _ entry_eq =>
        rw [entry_eq]
        exact Int.le_trans (held id earlier there)
          (Int.le_of_eq (watchName_spec _ earlier.watcher).2.1.symm)
    | kept there => exact held id entry there
  intro watcher member
  rw [← (Traced.sound_run run').watchers] at member
  obtain ⟨entry, there, rfl⟩ := List.mem_map.mp member
  exact started id entry there

/-- `getNewPositions` reports what is new exactly if every watcher of its caller meets the
condition. -/
theorem reportsNew_iff {calls : List (Op × Reply)} {database : Database}
    (run : Run Step {} calls database) {id : Int16}
    (registered : (database.manager.clientsData id).isSome) :
    ReportsNew database id ↔ ∀ watcher ∈ database.manager.followingOf id,
      OnePosition (database.manager.recordOf watcher.id) watcher := by
  have started := started_run run id
  have shorter : ∀ watcher ∈ database.manager.followingOf id,
      ((newPositions (database.manager.recordOf watcher.id) watcher).map (watcher.id, ·)).length ≤
        (watchPositions (database.manager.recordOf watcher.id) watcher).2.length := by
    intro watcher member
    rw [List.length_map]
    exact (turn_iff (started watcher member)).2.1
  obtain ⟨reply, after, step⟩ := @registered_returns _ _ run (.getNewPositions id) registered
  simp only [Step, ClientDataManager.run, Program.bind_pure_ok_iff] at step
  obtain ⟨found, returned, rfl⟩ := step
  have effect : Effect database (.getNewPositions id) (.positions found) after := by
    rw [← step_iff_effect]
    simp only [Step, ClientDataManager.run, Program.bind_pure_ok_iff]
    exact ⟨found, returned, rfl⟩
  obtain ⟨queried, _⟩ := getNewPositions_queried effect
  constructor
  · rintro ⟨after', returned', _⟩
    rw [returned, queried.reported] at returned'
    have same := (EStateM.Result.ok.inj returned').1
    intro watcher member
    exact (turn_iff (started watcher member)).1.mp ((flatMap_eq_iff shorter).mp same watcher member)
  · intro one
    refine ⟨after, ?_, ?_⟩
    · rw [returned, queried.reported]
      congr 1
      refine (flatMap_eq_iff shorter).mpr fun watcher member => ?_
      exact (turn_iff (started watcher member)).1.mpr (one watcher member)
    · rw [queried.moved]
      refine List.map_congr_left fun watcher member => ?_
      exact (turn_iff (started watcher member)).2.2 (one watcher member)

theorem reportsNew_iff_greeting : ∃ database : Database, Run Step {} greeting database ∧
    (ReportsNew database 2 ↔ ∀ watcher ∈ database.manager.followingOf 2,
      OnePosition (database.manager.recordOf watcher.id) watcher) := by
  have run : Run Step {} greeting _ := .cons rfl (.cons rfl (.cons rfl (.cons rfl .nil)))
  exact ⟨_, run, reportsNew_iff run rfl⟩

/-- A client that is followed reports two positions. -/
def walk : List (Op × Reply) :=
  greeting ++ [(.addPosition 1 10 20 1, .none), (.addPosition 1 30 40 2, .none)]

/-- The follower is told the second one three times, and never the first one. -/
theorem walk_not_reportsNew : ¬ ∀ (calls : List (Op × Reply)) (database : Database) (id : Int16),
    Run Step {} calls database → (database.manager.clientsData id).isSome →
      ReportsNew database id := by
  intro reports
  have run : Run Step {} walk _ :=
    .cons rfl (.cons rfl (.cons rfl (.cons rfl (.cons rfl (.cons rfl .nil)))))
  obtain ⟨after, returned, _⟩ := reports walk _ 2 run rfl
  have told := (EStateM.Result.ok.inj returned).1
  revert told
  decide

end Locus.ClientDataManager
