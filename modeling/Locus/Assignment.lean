import Mathlib.Data.PEquiv

set_option autoImplicit false

/- Partial bijections that are changed one pair at a time: what holds a value gives it up when
another one is assigned it. -/
namespace PEquiv

variable {α β : Type} [DecidableEq α] [DecidableEq β]

/-- `a` is assigned `b`. What each of them was paired with before goes without. -/
def assign (f : α ≃. β) (a : α) (b : β) : α ≃. β where
  toFun other := if other = a then some b else if f other = some b then none else f other
  invFun other := if other = b then some a else if f.symm other = some a then none
    else f.symm other
  inv x y := by
    have pair : f.symm y = some x ↔ f x = some y := f.eq_some_iff
    have old : f.symm y = some a ↔ f a = some y := f.eq_some_iff
    by_cases first : x = a <;> by_cases second : y = b
    · simp [first, second]
    · rw [if_pos first, if_neg second, first] at *
      constructor
      · intro found
        split at found
        · cases found
        · rename_i different
          exact absurd found different
      · intro found
        exact absurd (Option.some.inj found).symm second
    · rw [if_neg first, if_pos second]
      constructor
      · intro found
        exact absurd (Option.some.inj found).symm first
      · intro found
        split at found
        · cases found
        · rename_i different
          rw [second] at found
          exact absurd found different
    · rw [if_neg first, if_neg second]
      constructor
      · intro found
        split at found
        · cases found
        · rw [if_neg, pair.mp found]
          rw [pair.mp found]
          exact fun same => second (Option.some.inj same)
      · intro found
        split at found
        · cases found
        · rw [if_neg, pair.mpr found]
          rw [pair.mpr found]
          exact fun same => first (Option.some.inj same)

variable (f : α ≃. β) {a : α} {b : β}

theorem assign_apply (a other : α) (b : β) : f.assign a b other =
    if other = a then some b else if f other = some b then none else f other := rfl

theorem assign_symm_apply (a : α) (b other : β) : (f.assign a b).symm other =
    if other = b then some a else if f.symm other = some a then none else f.symm other := rfl

/-- Nothing loses a value that was free. -/
theorem assign_of_free (free : f.symm b = none) (a other : α) :
    f.assign a b other = if other = a then some b else f other := by
  rw [assign_apply]
  have unpaired : f other ≠ some b := by
    intro found
    rw [f.eq_some_iff.mpr found] at free
    cases free
  rw [if_neg unpaired]

/-- No value is lost for what had none. -/
theorem assign_symm_of_free (free : f a = none) (b other : β) :
    (f.assign a b).symm other = if other = b then some a else f.symm other := by
  rw [assign_symm_apply]
  have unpaired : f.symm other ≠ some a := by
    intro found
    rw [f.eq_some_iff.mp found] at free
    cases free
  rw [if_neg unpaired]

/-- What is paired already stays as it is. -/
theorem assign_same (paired : f a = some b) : f.assign a b = f := by
  ext1 other
  rw [assign_apply]
  by_cases same : other = a
  · rw [if_pos same, same, paired]
  · have unpaired : f other ≠ some b := by
      intro found
      exact same (f.inj found paired)
    rw [if_neg same, if_neg unpaired]

end PEquiv
