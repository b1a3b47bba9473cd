import Locus.ClientDataManagerFollow
import Mathlib.Data.Finset.Card
import Mathlib.Data.Finset.Range

set_option autoImplicit false

/- Which id a public key gets. Ids count the distinct keys, as long as the count
fits a `short`. -/
namespace Locus.ClientDataManager

open Transition

/-- The public key kept under an id. -/
def keyAt (m : ClientDataManager) (id : Int16) : Option Bytes :=
  m.clientsData.view (fun data => some data.publicKey) none id

def keyOf : Op → Option Bytes
  | .registerClient publicKey _ => some publicKey
  | _ => none

/-- The keys of the registrations of a history, with repetitions. -/
def keysOf (calls : List (Op × Reply)) : List Bytes := calls.filterMap fun call => keyOf call.1

def distinctKeys (calls : List (Op × Reply)) : Nat := (keysOf calls).toFinset.card

theorem keysOf_snoc (calls : List (Op × Reply)) (call : Op × Reply) :
    keysOf (calls ++ [call]) = keysOf calls ++ (keyOf call.1).toList := by
  simp only [keysOf, List.filterMap_append]
  cases key : keyOf call.1 <;> simp [key]

theorem distinctKeys_known {calls : List (Op × Reply)} {call : Op × Reply}
    (known : ∀ key, keyOf call.1 = some key → key ∈ keysOf calls) :
    distinctKeys (calls ++ [call]) = distinctKeys calls := by
  simp only [distinctKeys, keysOf_snoc]
  congr 1
  ext key
  cases here : keyOf call.1 with
  | none => simp
  | some other =>
      simp only [Option.toList_some, List.toFinset_append, Finset.mem_union, List.mem_toFinset,
        List.mem_singleton]
      constructor
      · rintro (old | rfl)
        · exact old
        · exact known _ here
      · exact Or.inl

theorem distinctKeys_fresh {calls : List (Op × Reply)} {call : Op × Reply} {key : Bytes}
    (here : keyOf call.1 = some key) (fresh : key ∉ keysOf calls) :
    distinctKeys (calls ++ [call]) = distinctKeys calls + 1 := by
  have grown : (keysOf calls ++ [key]).toFinset = insert key (keysOf calls).toFinset := by
    ext other
    simp
  simp only [distinctKeys, keysOf_snoc, here, Option.toList_some, grown]
  exact Finset.card_insert_of_notMem (by simpa using fresh)

/-- A call either leaves keys and counter alone, or takes the next id for a new key. -/
theorem register_step {before after : Database} {op : Op} {reply : Reply}
    (effect : Effect before op reply after) :
    (after.manager.nextId = before.manager.nextId ∧
      after.manager.clientsId = before.manager.clientsId ∧
      (∀ id, after.manager.keyAt id = before.manager.keyAt id) ∧
      ∀ key, keyOf op = some key →
        ∃ id, reply = .id id ∧ before.manager.clientsId key = some id) ∨
    ∃ key, keyOf op = some key ∧ reply = .id before.manager.nextId ∧
      before.manager.clientsId key = none ∧
      after.manager.nextId = before.manager.nextId + 1 ∧
      after.manager.clientsId = before.manager.clientsId.insert key before.manager.nextId ∧
      ∀ id, after.manager.keyAt id =
        if id = before.manager.nextId then some ((before.manager.keyAt id).getD key)
        else before.manager.keyAt id := by
  cases effect with
  | @registerKnown key queue id known =>
      refine .inl ⟨rfl, rfl, fun _ => rfl, ?_⟩
      intro other same
      cases same
      exact ⟨id, rfl, known⟩
  | @registerFresh key queue fresh =>
      refine .inr ⟨key, rfl, rfl, fresh, rfl, rfl, ?_⟩
      intro id
      simp only [keyAt, KeyMap.view, KeyMap.insert_apply]
      split
      · cases stored : before.manager.clientsData id with
        | none => simp_all
        | some data => simp_all
      · rfl
  | unregister => exact .inl ⟨rfl, rfl, fun _ => rfl, by simp [keyOf]⟩
  | getNameId => exact .inl ⟨rfl, rfl, fun _ => rfl, by simp [keyOf]⟩
  | setNameTaken => exact .inl ⟨rfl, rfl, fun _ => rfl, by simp [keyOf]⟩
  | addFollower | removeFollower | stopFollowing =>
      refine .inl ⟨rfl, rfl, ?_, by simp [keyOf]⟩
      exact KeyMap.view_edits_kept (fun _ => rfl) (fun _ => rfl)
  | addPosition | getNewPositions | setNameFree | getNewNames =>
      refine .inl ⟨rfl, rfl, ?_, by simp [keyOf]⟩
      intro id
      exact KeyMap.view_modify_kept _ _ _ _ _ _ (fun _ _ => rfl)

/-- The ids handed out so far, whether or not the counter has wrapped. -/
structure Numbered (calls : List (Op × Reply)) (m : ClientDataManager) : Prop where
  next : m.nextId = Int16.ofNat (distinctKeys calls + 1)
  listed : ∀ key, key ∈ keysOf calls ↔ (m.clientsId key).isSome
  replied : ∀ op reply key, (op, reply) ∈ calls → keyOf op = some key →
    ∃ id, reply = .id id ∧ m.clientsId key = some id
  issued : ∀ n < distinctKeys calls, ∃ key, m.clientsId key = some (Int16.ofNat (n + 1))

theorem numbered_run {calls : List (Op × Reply)} {database : Database}
    (run : Run Step {} calls database) : Numbered calls database.manager := by
  refine run.history_invariant (fun calls (database : Database) =>
    Numbered calls database.manager) ?_ ?_
  · refine ⟨rfl, ?_, ?_, ?_⟩
    · simp [keysOf]
    · simp
    · intro n below
      exact absurd below (Nat.not_lt_zero n)
  · intro calls before call after _ held last
    rcases register_step (step_iff_effect.mp last) with
      ⟨next, ids, _, known⟩ | ⟨key, here, answer, fresh, next, ids, _⟩
    · have old : ∀ key, keyOf call.1 = some key → key ∈ keysOf calls := by
        intro key here
        obtain ⟨id, _, stored⟩ := known key here
        exact (held.listed key).mpr (by simp [stored])
      have count := distinctKeys_known old
      refine ⟨?_, ?_, ?_, ?_⟩
      · rw [next, held.next, count]
      · intro key
        rw [ids, ← held.listed, keysOf_snoc, List.mem_append]
        constructor
        · rintro (earlier | now)
          · exact earlier
          · exact old key (by simpa [Option.mem_toList] using now)
        · exact Or.inl
      · intro op reply key member here
        rw [ids]
        rcases List.mem_append.mp member with earlier | now
        · exact held.replied op reply key earlier here
        · cases List.mem_singleton.mp now
          exact known key here
      · intro n below
        rw [ids]
        exact held.issued n (count ▸ below)
    · have unseen : key ∉ keysOf calls := by
        rw [held.listed, fresh]
        exact Bool.false_ne_true
      have count := distinctKeys_fresh here unseen
      refine ⟨?_, ?_, ?_, ?_⟩
      · rw [next, held.next, count, Int16.ofNat_add (distinctKeys calls + 1) 1]
        rfl
      · intro other
        rw [ids, keysOf_snoc, here, List.mem_append, held.listed]
        by_cases same : other = key
        · subst same
          simp
        · simp [KeyMap.insert_of_ne _ _ same, same]
      · intro op reply other member own
        rw [ids]
        rcases List.mem_append.mp member with earlier | now
        · obtain ⟨id, answered, stored⟩ := held.replied op reply other earlier own
          exact ⟨id, answered, KeyMap.insert_of_some key _ stored⟩
        · cases List.mem_singleton.mp now
          rw [here] at own
          cases own
          exact ⟨_, answer, by simp [fresh]⟩
      · intro n below
        rw [ids]
        rw [count] at below
        by_cases newest : n = distinctKeys calls
        · exact ⟨key, by rw [KeyMap.insert_self, fresh, held.next, newest]; rfl⟩
        · obtain ⟨other, stored⟩ := held.issued n (by omega)
          exact ⟨other, KeyMap.insert_of_some key _ stored⟩

/-- While the counter has not wrapped, each id in use is positive, at most the
counter, and stores the key it was given to. -/
structure Unwrapped (calls : List (Op × Reply)) (m : ClientDataManager) : Prop where
  positive : ∀ key id, m.clientsId key = some id → 0 < id
  own : ∀ key id, m.clientsId key = some id → m.keyAt id = some key
  used : ∀ id, (m.keyAt id).isSome → id.toInt ≤ distinctKeys calls

/-- The largest `short`. -/
def maxShort : Nat := 32767

theorem toInt_ofNat_of_le {n : Nat} (small : n ≤ maxShort) : (Int16.ofNat n).toInt = n := by
  apply Int16.toInt_ofNat_of_lt
  simp only [maxShort] at small
  omega

theorem unwrapped_run {calls : List (Op × Reply)} {database : Database}
    (run : Run Step {} calls database) :
    distinctKeys calls ≤ maxShort → Unwrapped calls database.manager := by
  refine run.history_invariant (fun calls (database : Database) =>
    distinctKeys calls ≤ maxShort → Unwrapped calls database.manager) ?_ ?_
  · exact fun _ => ⟨by simp, by simp, by simp [keyAt, KeyMap.view]⟩
  · intro calls before call after earlier held last small
    have numbered := numbered_run earlier
    rcases register_step (step_iff_effect.mp last) with
      ⟨_, ids, kept, known⟩ | ⟨key, here, _, fresh, _, ids, kept⟩
    · have count : distinctKeys (calls ++ [call]) = distinctKeys calls := by
        apply distinctKeys_known
        intro key here
        obtain ⟨id, _, stored⟩ := known key here
        exact (numbered.listed key).mpr (by simp [stored])
      rw [count] at small
      obtain ⟨positive, own, used⟩ := held small
      refine ⟨?_, ?_, ?_⟩
      · simpa only [ids] using positive
      · simpa only [ids, kept] using own
      · simpa only [kept, count] using used
    · have unseen : key ∉ keysOf calls := by
        rw [numbered.listed, fresh]
        exact Bool.false_ne_true
      have count := distinctKeys_fresh here unseen
      rw [count] at small
      obtain ⟨positive, own, used⟩ := held (by omega)
      have newest : before.manager.nextId.toInt = distinctKeys calls + 1 := by
        rw [numbered.next, toInt_ofNat_of_le small]
        rfl
      -- the counter has not reached this id before
      have unused : before.manager.keyAt before.manager.nextId = none := by
        by_contra taken
        have below := used _ (Option.isSome_iff_ne_none.mpr taken)
        omega
      refine ⟨?_, ?_, ?_⟩
      · intro other id stored
        rw [ids, KeyMap.insert_apply] at stored
        split at stored
        · rw [fresh] at stored
          cases stored
          rw [Int16.lt_iff_toInt_lt, Option.getD_none, newest]
          exact Int.lt_add_one_of_le (Int.natCast_nonneg _)
        · exact positive other id stored
      · intro other id stored
        rw [kept]
        rw [ids, KeyMap.insert_apply] at stored
        split at stored
        · rename_i same
          rw [fresh] at stored
          cases stored
          simp [unused, same]
        · have mine := own other id stored
          have apart : id ≠ before.manager.nextId := by
            intro same
            rw [same, unused] at mine
            cases mine
          simp [apart, mine]
      · intro id present
        rw [kept] at present
        rw [count]
        split at present
        · rename_i same
          rw [same, newest]
          exact le_rfl
        · have below := used id present
          omega

/-- Registration keeps its promise: positive ids, one id for one key, and the
record at the id holds the key. -/
structure IdsKept (calls : List (Op × Reply)) (database : Database) : Prop where
  positive : ∀ op reply key, (op, reply) ∈ calls → keyOf op = some key →
    ∃ id, reply = .id id ∧ 0 < id
  same : ∀ op op' reply reply' key key', (op, reply) ∈ calls → (op', reply') ∈ calls →
    keyOf op = some key → keyOf op' = some key' → (reply = reply' ↔ key = key')
  stored : ∀ op id key, (op, .id id) ∈ calls → keyOf op = some key →
    ∃ data, database.manager.clientsData id = some data ∧ data.publicKey = key

theorem keyAt_eq_some_iff {m : ClientDataManager} {id : Int16} {key : Bytes} :
    m.keyAt id = some key ↔ ∃ data, m.clientsData id = some data ∧ data.publicKey = key := by
  simp only [keyAt, KeyMap.view]
  cases m.clientsData id <;> simp

theorem idsKept_of_unwrapped {calls : List (Op × Reply)} {database : Database}
    (numbered : Numbered calls database.manager) (unwrapped : Unwrapped calls database.manager) :
    IdsKept calls database := by
  refine ⟨?_, ?_, ?_⟩
  · intro op reply key member here
    obtain ⟨id, answer, stored⟩ := numbered.replied op reply key member here
    exact ⟨id, answer, unwrapped.positive key id stored⟩
  · intro op op' reply reply' key key' member member' here here'
    obtain ⟨id, rfl, stored⟩ := numbered.replied op reply key member here
    obtain ⟨id', rfl, stored'⟩ := numbered.replied op' reply' key' member' here'
    have mine := unwrapped.own key id stored
    have theirs := unwrapped.own key' id' stored'
    constructor
    · intro equal
      cases equal
      rw [mine] at theirs
      exact Option.some.inj theirs
    · intro equal
      rw [equal, stored'] at stored
      rw [Option.some.inj stored]
  · intro op id key member here
    obtain ⟨id', answer, stored⟩ := numbered.replied op _ key member here
    cases answer
    exact keyAt_eq_some_iff.mp (unwrapped.own key id stored)

/-- Registration keeps its promise in exactly the runs with at most 32767 keys. -/
theorem idsKept_iff {calls : List (Op × Reply)} {database : Database}
    (run : Run Step {} calls database) :
    IdsKept calls database ↔ distinctKeys calls ≤ maxShort := by
  have numbered := numbered_run run
  constructor
  · intro kept
    by_contra many
    -- the first key past the largest `short` was given the smallest one
    obtain ⟨key, stored⟩ := numbered.issued maxShort (by omega)
    have seen : key ∈ keysOf calls := (numbered.listed key).mpr (by simp [stored])
    obtain ⟨⟨op, reply⟩, member, here⟩ := List.mem_filterMap.mp seen
    obtain ⟨id, answer, positive⟩ := kept.positive op reply key member here
    obtain ⟨id', answer', stored'⟩ := numbered.replied op reply key member here
    rw [answer] at answer'
    cases answer'
    rw [stored] at stored'
    cases stored'
    exact absurd positive (by decide)
  · intro small
    exact idsKept_of_unwrapped numbered (unwrapped_run run small)

theorem idsKept_iff_greeting : ∃ database, Run Step {} greeting database ∧
    IdsKept greeting database := by
  have run : Run Step {} greeting _ := .cons rfl (.cons rfl (.cons rfl (.cons rfl .nil)))
  exact ⟨_, run, (idsKept_iff run).mpr (by decide)⟩

/-- As many clients as `count` register, each with a key of its own. -/
def crowd (count : Nat) : List Op :=
  (List.range count).map fun i => .registerClient (List.replicate i 0) 0

theorem crowd_run (count : Nat) :
    ∃ calls database, Run Step {} calls database ∧ calls.map Prod.fst = crowd count := by
  induction count with
  | zero => exact ⟨[], {}, .nil, rfl⟩
  | succ count ih =>
      obtain ⟨calls, database, run, ops⟩ := ih
      have registered : Registered database.manager
          (.registerClient (List.replicate count 0) 0) := trivial
      obtain ⟨reply, after, last⟩ := registered_returns run registered
      refine ⟨_, after, .snoc run last, ?_⟩
      rw [List.map_append, ops, crowd, crowd, List.range_succ, List.map_append]
      rfl

theorem crowd_keys {calls : List (Op × Reply)} {count : Nat}
    (ops : calls.map Prod.fst = crowd count) : distinctKeys calls = count := by
  have keys : keysOf calls = (List.range count).map fun i => List.replicate i (0 : UInt8) := by
    have split : keysOf calls = (calls.map Prod.fst).filterMap keyOf := by
      rw [List.filterMap_map]
      rfl
    rw [split, ops, crowd, List.filterMap_map, ← List.filterMap_eq_map]
    rfl
  have injective : Function.Injective fun i => List.replicate i (0 : UInt8) := by
    intro i j same
    simpa using congrArg List.length same
  rw [distinctKeys, keys, List.toFinset_card_of_nodup (List.nodup_range.map injective),
    List.length_map, List.length_range]

/-- With one key more than the largest `short`, a client is given a negative id. -/
theorem crowd_not_idsKept : ∃ calls database, Run Step {} calls database ∧
    calls.map Prod.fst = crowd 32768 ∧ ¬ IdsKept calls database := by
  obtain ⟨calls, database, run, ops⟩ := crowd_run 32768
  refine ⟨calls, database, run, ops, ?_⟩
  intro kept
  have small := (idsKept_iff run).mp kept
  rw [crowd_keys ops] at small
  exact absurd small (by decide)

end Locus.ClientDataManager
