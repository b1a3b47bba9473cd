import Locus.ClientDataManagerFollow

set_option autoImplicit false

/- Who is called what. The relation is stored twice, in `clientsName` and in the
`name` of each record. -/
namespace Locus.ClientDataManager

open Transition

def nameOf (m : ClientDataManager) (id : Int16) : Bytes :=
  m.clientsData.view ClientData.name [] id

/-- What `getNameId` returns. -/
def nameId (m : ClientDataManager) (name : Bytes) : Int16 := (m.clientsName name).getD 0

/-- Both copies agree, the unnamed clients apart. -/
structure Coherent (m : ClientDataManager) : Prop where
  named : ∀ name id, m.nameId name = id → 0 < id →
    (m.clientsData id).isSome ∧ m.nameOf id = name
  listed : ∀ id, m.nameOf id ≠ [] → m.nameId (m.nameOf id) = id
  unshared : ∀ id other, m.nameOf id ≠ [] → m.nameOf id = m.nameOf other → id = other

/-- A call leaves coherent names, and a renamed client gives its old name back. -/
def NamesKept (before : Database) (call : Op × Reply) (after : Database) : Prop :=
  Coherent after.manager ∧
  ∀ id old new, call = (.setName id new, .accepted true) → old ≠ new →
    before.manager.clientsName old = some id → after.manager.clientsName old = none

/-- A client that claimed the empty name gives itself another one. -/
def LeavesEmptyName (before : Database) (op : Op) : Prop :=
  ∃ id new, op = .setName id new ∧ new ≠ [] ∧ before.manager.clientsName new = none ∧
    before.manager.clientsName [] = some id

/-- The index entries and the names in the records are the same pairs. -/
structure Indexed (m : ClientDataManager) : Prop where
  named : ∀ name id, m.clientsName name = some id →
    (m.clientsData id).isSome ∧ m.nameOf id = name
  listed : ∀ id, m.nameOf id ≠ [] → m.clientsName (m.nameOf id) = some id

theorem coherent_of_indexed {m : ClientDataManager} (indexed : Indexed m) : Coherent m := by
  refine ⟨?_, ?_, ?_⟩
  · intro name id found positive
    cases entry : m.clientsName name with
    | none =>
        rw [nameId, entry, Option.getD_none] at found
        rw [← found] at positive
        exact absurd positive (by decide)
    | some holder =>
        rw [nameId, entry, Option.getD_some] at found
        rw [← found]
        exact indexed.named name holder entry
  · intro id present
    rw [nameId, indexed.listed id present, Option.getD_some]
  · intro id other present same
    have mine := indexed.listed id present
    have theirs := indexed.listed other (same ▸ present)
    rw [← same, mine] at theirs
    exact Option.some.inj theirs

/-- Only an accepted new name moves names. -/
theorem names_step {before after : Database} {op : Op} {reply : Reply}
    (effect : Effect before op reply after) :
    (after.manager.clientsName = before.manager.clientsName ∧
      (∀ id, after.manager.nameOf id = before.manager.nameOf id) ∧
      ∀ id new, op = .setName id new → reply = .accepted true →
        before.manager.nameOf id = new) ∨
    ∃ id new, op = .setName id new ∧ reply = .accepted true ∧
      before.manager.clientsName new = none ∧ (before.manager.clientsData id).isSome ∧
      after.manager.clientsName =
        (if before.manager.nameOf id = [] then before.manager.clientsName
          else before.manager.clientsName.erase (before.manager.nameOf id)).insert new id ∧
      ∀ other, after.manager.nameOf other =
        if other = id then new else before.manager.nameOf other := by
  cases effect with
  | unregister | registerKnown | getNameId => exact .inl ⟨rfl, fun _ => rfl, by simp⟩
  | registerFresh => exact .inl ⟨rfl, fun _ => KeyMap.view_insert _ _ _ _ _ _ rfl, by simp⟩
  | addFollower | removeFollower | stopFollowing =>
      refine .inl ⟨rfl, ?_, by simp⟩
      exact KeyMap.view_edits_kept (fun _ => rfl) (fun _ => rfl)
  | addPosition | getNewPositions | getNewNames =>
      refine .inl ⟨rfl, ?_, by simp⟩
      intro id
      exact KeyMap.view_modify_kept _ _ _ _ _ _ (fun _ _ => rfl)
  | @setNameTaken id holder name mine taken hereData =>
      refine .inl ⟨rfl, fun _ => rfl, ?_⟩
      intro other new same accepted
      cases same
      rw [nameOf, KeyMap.view_of_some _ _ hereData]
      simpa using accepted
  | @setNameFree id name mine free hereData =>
      have old : before.manager.nameOf id = mine.name := KeyMap.view_of_some _ _ hereData
      refine .inr ⟨id, name, rfl, rfl, free, by simp [hereData], by rw [old], ?_⟩
      intro other
      by_cases same : other = id
      · subst same
        simp only [↓reduceIte]
        exact KeyMap.view_modify_self _ _ _ hereData
      · simp only [same, ↓reduceIte]
        exact KeyMap.view_modify_of_ne _ _ _ _ same

/-- Giving the old name back does not take a free name. -/
theorem released_free {index : KeyMap Bytes Int16} {old new : Bytes} (free : index new = none) :
    (if old = [] then index else index.erase old) new = none := by
  split
  · exact free
  · by_cases own : new = old
    · rw [own, KeyMap.erase_self]
    · rw [KeyMap.erase_of_ne _ own, free]

/-- The entries that survive a renaming belong to other clients. -/
theorem surviving_entry {before after : Database} {id holder : Int16} {name new : Bytes}
    (indexed : Indexed before.manager) (steady : ¬ LeavesEmptyName before (.setName id new))
    (free : before.manager.clientsName new = none)
    (index : after.manager.clientsName =
      (if before.manager.nameOf id = [] then before.manager.clientsName
        else before.manager.clientsName.erase (before.manager.nameOf id)).insert new id)
    (apart : name ≠ new) (entry : after.manager.clientsName name = some holder) :
    before.manager.clientsName name = some holder ∧ holder ≠ id := by
  rw [index, KeyMap.insert_of_ne _ _ apart] at entry
  split at entry
  · rename_i unnamed
    refine ⟨entry, ?_⟩
    intro same
    subst same
    have empty : name = [] := (indexed.named name holder entry).2.symm.trans unnamed
    subst empty
    exact steady ⟨holder, new, rfl, Ne.symm apart, free, entry⟩
  · by_cases own : name = before.manager.nameOf id
    · rw [own, KeyMap.erase_self] at entry
      cases entry
    · rw [KeyMap.erase_of_ne _ own] at entry
      refine ⟨entry, ?_⟩
      intro same
      subst same
      exact own (indexed.named name holder entry).2.symm

theorem indexed_step {before after : Database} {op : Op} {reply : Reply}
    (indexed : Indexed before.manager) (effect : Effect before op reply after)
    (steady : ¬ LeavesEmptyName before op) : Indexed after.manager := by
  have known := known_step effect
  rcases names_step effect with ⟨index, names, _⟩ | ⟨id, new, rfl, rfl, free, here, index, names⟩
  · constructor
    · intro name holder entry
      rw [index] at entry
      obtain ⟨present, called⟩ := indexed.named name holder entry
      exact ⟨known holder present, (names holder).trans called⟩
    · intro holder named
      rw [names] at named ⊢
      rw [index]
      exact indexed.listed holder named
  constructor
  · intro name holder entry
    by_cases same : name = new
    · subst same
      have taken : holder = id := by
        rw [index, KeyMap.insert_self, released_free free] at entry
        exact (Option.some.inj entry).symm
      subst taken
      exact ⟨known holder here, by simp [names]⟩
    · obtain ⟨earlier, apart⟩ := surviving_entry indexed steady free index same entry
      obtain ⟨present, called⟩ := indexed.named name holder earlier
      exact ⟨known holder present, by rw [names, if_neg apart, called]⟩
  · intro holder named
    rw [names] at named ⊢
    by_cases same : holder = id
    · subst same
      simp only [↓reduceIte] at named ⊢
      rw [index, KeyMap.insert_self, released_free free, Option.getD_none]
    · rw [if_neg same] at named ⊢
      have entry := indexed.listed holder named
      have apart : before.manager.nameOf holder ≠ new := by
        intro equal
        rw [equal, free] at entry
        cases entry
      rw [index, KeyMap.insert_of_ne _ _ apart]
      split
      · exact entry
      · have distinct : before.manager.nameOf holder ≠ before.manager.nameOf id := by
          intro equal
          rename_i mine
          rw [equal, indexed.listed id mine] at entry
          exact same (Option.some.inj entry).symm
        rw [KeyMap.erase_of_ne _ distinct, entry]

/-- Moving on from the empty name leaves its entry behind. -/
theorem not_namesKept_of_leaves {before after : Database} {op : Op} {reply : Reply}
    (effect : Effect before op reply after) (leaves : LeavesEmptyName before op) :
    ¬ NamesKept before (op, reply) after := by
  obtain ⟨id, new, rfl, named, free, entry⟩ := leaves
  intro kept
  cases effect with
  | setNameTaken taken _ =>
      rw [free] at taken
      cases taken
  | setNameFree _ hereData =>
      have gone := kept.2 id [] new rfl (Ne.symm named) entry
      simp only [KeyMap.insert_of_ne _ _ (Ne.symm named)] at gone
      split at gone
      · rw [entry] at gone
        cases gone
      · rename_i other
        rw [KeyMap.erase_of_ne _ (Ne.symm other), entry] at gone
        cases gone

theorem namesKept_of_indexed {before after : Database} {op : Op} {reply : Reply}
    (indexed : Indexed before.manager) (effect : Effect before op reply after)
    (steady : ¬ LeavesEmptyName before op) : NamesKept before (op, reply) after := by
  refine ⟨coherent_of_indexed (indexed_step indexed effect steady), ?_⟩
  intro id old new renames apart entry
  obtain ⟨rfl, rfl⟩ := Prod.mk.inj renames
  rcases names_step effect with ⟨_, _, same⟩ | ⟨_, _, same, _, free, _, index, _⟩
  · have mine := (indexed.named old id entry).2
    exact absurd (mine.symm.trans (same id new rfl rfl)) apart
  · cases same
    cases left : after.manager.clientsName old with
    | none => rfl
    | some holder =>
        obtain ⟨earlier, other⟩ := surviving_entry indexed steady free index apart left
        rw [entry] at earlier
        exact absurd (Option.some.inj earlier).symm other

/-- The two copies stay coherent over exactly the runs in which no client
renames itself from a claimed empty name. -/
theorem namesKept_iff (calls : List (Op × Reply)) :
    Always Step {} NamesKept calls ↔
      Always Step {} (fun before call _ => ¬ LeavesEmptyName before call.1) calls := by
  constructor
  · intro kept earlier call later before after split prior stepped leaves
    exact not_namesKept_of_leaves (step_iff_effect.mp stepped) leaves
      (kept earlier call later before after split prior stepped)
  · intro steady earlier call later before after split prior stepped
    have indexed : Indexed before.manager := by
      have steadyPrior : Always Step {} (fun before call _ => ¬ LeavesEmptyName before call.1)
          earlier := steady.of_append split
      apply prior.invariant_of_always steadyPrior (fun database => Indexed database.manager)
      · exact ⟨by simp, by simp [nameOf, KeyMap.view]⟩
      · intro before call after held stepped
        exact indexed_step held (step_iff_effect.mp stepped)
    exact namesKept_of_indexed indexed (step_iff_effect.mp stepped)
      (steady earlier call later before after split prior stepped)

/-- A client claims the empty name and then another one. -/
def takeover : List (Op × Reply) :=
  [(.registerClient [1] 0, .id 1), (.setName 1 [], .accepted true),
    (.setName 1 [66], .accepted true)]

/-- The index still maps the empty name to the client, which has another name. -/
theorem takeover_not_coherent : ∃ database, Run Step {} takeover database ∧
    database.manager.nameId [] = 1 ∧ database.manager.nameOf 1 = [66] ∧
    ¬ Coherent database.manager := by
  have run : Run Step {} takeover _ := .cons rfl (.cons rfl (.cons rfl .nil))
  refine ⟨_, run, rfl, rfl, ?_⟩
  intro coherent
  have kept := (coherent.named [] 1 rfl (by decide)).2
  exact absurd kept (by decide)

end Locus.ClientDataManager
