import Mathlib.Logic.Basic

set_option autoImplicit false

/- Keyed containers with the lookup, insertion and erasure rules of an ordered
or hashed map, presented by their lookup function. -/

/-- The value stored at each key, `none` where the key is absent. -/
abbrev KeyMap (κ α : Type) := κ → Option α

namespace KeyMap

variable {κ α : Type} [DecidableEq κ]

/-- No key is present. -/
def empty : KeyMap κ α := fun _ => none

/-- Insertion keeps the value of a key that is already present. -/
def insert (m : KeyMap κ α) (key : κ) (value : α) : KeyMap κ α :=
  fun other => if other = key then some ((m key).getD value) else m other

/-- Forget a key; erasing an absent key changes nothing. -/
def erase (m : KeyMap κ α) (key : κ) : KeyMap κ α :=
  fun other => if other = key then none else m other

/-- Edit the value of a key in place; an absent key stays absent. -/
def modify (m : KeyMap κ α) (key : κ) (edit : α → α) : KeyMap κ α :=
  fun other => if other = key then (m key).map edit else m other

omit [DecidableEq κ] in
@[simp] theorem empty_apply (key : κ) : (empty : KeyMap κ α) key = none := rfl

theorem insert_apply (m : KeyMap κ α) (key other : κ) (value : α) :
    m.insert key value other =
      if other = key then some ((m key).getD value) else m other := rfl

@[simp] theorem insert_self (m : KeyMap κ α) (key : κ) (value : α) :
    m.insert key value key = some ((m key).getD value) := by
  simp only [insert, ↓reduceIte]

theorem insert_of_ne (m : KeyMap κ α) {key other : κ} (value : α) (apart : other ≠ key) :
    m.insert key value other = m other := by
  simp only [insert, apart, ↓reduceIte]

/-- An insertion never disturbs an entry that is already there. -/
theorem insert_of_some {m : KeyMap κ α} {other : κ} {stored : α} (key : κ) (value : α)
    (present : m other = some stored) : m.insert key value other = some stored := by
  by_cases same : other = key
  · subst same
    simp only [insert_self, present, Option.getD_some]
  · rw [insert_of_ne m value same, present]

@[simp] theorem erase_self (m : KeyMap κ α) (key : κ) : m.erase key key = none := by
  simp only [erase, ↓reduceIte]

theorem erase_of_ne (m : KeyMap κ α) {key other : κ} (apart : other ≠ key) :
    m.erase key other = m other := by
  simp only [erase, apart, ↓reduceIte]

@[simp] theorem modify_self (m : KeyMap κ α) (key : κ) (edit : α → α) :
    m.modify key edit key = (m key).map edit := by
  simp only [modify, ↓reduceIte]

theorem modify_of_ne (m : KeyMap κ α) {key other : κ} (edit : α → α) (apart : other ≠ key) :
    m.modify key edit other = m other := by
  simp only [modify, apart, ↓reduceIte]

/-- Editing keeps the set of keys. -/
@[simp] theorem modify_isSome (m : KeyMap κ α) (key other : κ) (edit : α → α) :
    (m.modify key edit other).isSome = (m other).isSome := by
  by_cases same : other = key
  · subst same
    simp only [modify_self, Option.isSome_map]
  · rw [modify_of_ne m edit same]

/-- What is found after a new key was inserted. -/
theorem insert_eq_some {m : KeyMap κ α} {key other : κ} {value found : α}
    (absent : m key = none) (there : m.insert key value other = some found) :
    (other = key ∧ found = value) ∨ (other ≠ key ∧ m other = some found) := by
  by_cases same : other = key
  · subst same
    rw [insert_self, absent, Option.getD_none, Option.some.injEq] at there
    exact .inl ⟨rfl, there.symm⟩
  · rw [insert_of_ne m value same] at there
    exact .inr ⟨same, there⟩

/-- What is found after the value of a key was replaced. -/
theorem modify_eq_some {m : KeyMap κ α} {key other : κ} {value found : α}
    (there : m.modify key (fun _ => value) other = some found) :
    (other = key ∧ found = value) ∨ (other ≠ key ∧ m other = some found) := by
  by_cases same : other = key
  · subst same
    rw [modify_self, Option.map_eq_some_iff] at there
    obtain ⟨_, _, replaced⟩ := there
    exact .inl ⟨rfl, replaced.symm⟩
  · rw [modify_of_ne m _ same] at there
    exact .inr ⟨same, there⟩

theorem modify_of_some {m : KeyMap κ α} {key : κ} {stored : α} (edit : α → α)
    (present : m key = some stored) : m.modify key edit key = some (edit stored) := by
  rw [modify_self, present, Option.map_some]

theorem modify_modify (m : KeyMap κ α) (key : κ) (first second : α → α) :
    (m.modify key first).modify key second = m.modify key fun value => second (first value) := by
  funext other
  by_cases same : other = key
  · subst same
    simp only [modify_self, Option.map_map]
    rfl
  · simp only [modify_of_ne _ _ same]

/-- An entry that is replaced by itself. -/
theorem modify_same {m : KeyMap κ α} {key : κ} {stored : α} (present : m key = some stored) :
    m.modify key (fun _ => stored) = m := by
  funext other
  by_cases same : other = key
  · subst same
    rw [modify_of_some _ present, present]
  · rw [modify_of_ne _ _ same]

/-- A new entry that is edited at once. -/
theorem modify_insert {m : KeyMap κ α} {key : κ} (value : α) (edit : α → α)
    (absent : m key = none) : (m.insert key value).modify key edit = m.insert key (edit value) := by
  funext other
  by_cases same : other = key
  · subst same
    simp only [modify_self, insert_self, absent, Option.getD_none, Option.map_some]
  · rw [modify_of_ne _ edit same, insert_of_ne m value same, insert_of_ne m _ same]

/-- What is found after a key was erased. -/
theorem erase_eq_some {m : KeyMap κ α} {key other : κ} {found : α}
    (there : m.erase key other = some found) : other ≠ key ∧ m other = some found := by
  by_cases same : other = key
  · subst same
    rw [erase_self] at there
    cases there
  · rw [erase_of_ne m same] at there
    exact ⟨same, there⟩

/-- One column of a table, `default` where the key is absent. -/
def view {β : Type} (m : KeyMap κ α) (column : α → β) (default : β) (key : κ) : β :=
  ((m key).map column).getD default

section View

variable {β : Type} (m : KeyMap κ α) (column : α → β) (default : β)

omit [DecidableEq κ] in
theorem view_of_some {m : KeyMap κ α} {key : κ} {value : α} (present : m key = some value) :
    m.view column default key = column value := by
  simp only [view, present, Option.map_some, Option.getD_some]

omit [DecidableEq κ] in
theorem view_of_none {m : KeyMap κ α} {key : κ} (absent : m key = none) :
    m.view column default key = default := by
  simp only [view, absent, Option.map_none, Option.getD_none]

/-- Inserting a value whose column is the default changes no column. -/
theorem view_insert (key other : κ) (value : α) (plain : column value = default) :
    (m.insert key value).view column default other = m.view column default other := by
  by_cases same : other = key
  · subst same
    cases present : m other with
    | none => simp only [view, insert_self, present, Option.getD_none, Option.map_some,
        Option.getD_some, Option.map_none, plain]
    | some stored => simp only [view, insert_self, present, Option.getD_some]
  · simp only [view, insert_of_ne m value same]

/-- An edit that keeps a column of the stored value changes it at no key. -/
theorem view_modify_kept (key other : κ) (edit : α → α)
    (kept : ∀ value, m key = some value → column (edit value) = column value) :
    (m.modify key edit).view column default other = m.view column default other := by
  by_cases same : other = key
  · subst same
    cases present : m other with
    | none => simp only [view, modify_self, present, Option.map_none]
    | some stored => simp only [view, modify_self, present, Option.map_some, kept stored present]
  · simp only [view, modify_of_ne m edit same]

theorem view_modify_self {m : KeyMap κ α} {key : κ} {value : α} (edit : α → α)
    (present : m key = some value) :
    (m.modify key edit).view column default key = column (edit value) := by
  simp only [view, modify_self, present, Option.map_some, Option.getD_some]

theorem view_modify_of_ne {key other : κ} (edit : α → α) (apart : other ≠ key) :
    (m.modify key edit).view column default other = m.view column default other := by
  simp only [view, modify_of_ne m edit apart]

/-- A column that two edits keep is the same after both. -/
theorem view_edits_kept {m : KeyMap κ α} {column : α → β} {default : β} {first second : κ}
    {left right : α → α} (keptLeft : ∀ value, column (left value) = column value)
    (keptRight : ∀ value, column (right value) = column value) (key : κ) :
    ((m.modify first left).modify second right).view column default key =
      m.view column default key := by
  rw [view_modify_kept _ _ _ _ _ _ fun value _ => keptRight value,
    view_modify_kept _ _ _ _ _ _ fun value _ => keptLeft value]

end View

/-- Edits of two entries, or commuting edits of one entry, can be swapped. -/
theorem modify_comm (m : KeyMap κ α) (first second : κ) (left right : α → α)
    (commute : ∀ value, right (left value) = left (right value)) :
    (m.modify first left).modify second right = (m.modify second right).modify first left := by
  funext other
  by_cases same : second = first
  · subst same
    by_cases here : other = second
    · subst here
      simp only [modify_self, Option.map_map]
      exact congrArg (fun f => (m other).map f) (funext commute)
    · simp only [modify_of_ne _ _ here]
  · by_cases here : other = second
    · subst here
      rw [modify_self, modify_of_ne m left same, modify_of_ne _ left same, modify_self]
    · rw [modify_of_ne _ right here]
      by_cases there : other = first
      · subst there
        rw [modify_self, modify_self, modify_of_ne m right here]
      · rw [modify_of_ne m left there, modify_of_ne _ left there, modify_of_ne m right here]

end KeyMap
