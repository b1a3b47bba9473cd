import Mathlib.Data.List.Lex
import Mathlib.Data.Prod.Lex

set_option autoImplicit false

/- Comparisons that are written out by hand, against a linear order of what they compare. -/
namespace Comparison

variable {α β γ : Type} [LinearOrder β] [LinearOrder γ]

/-- On some values, `less` is the order of their keys. -/
def LessBy (holds : α → Prop) (key : α → β) (less : α → α → Bool) : Prop :=
  ∀ a b, holds a → holds b → (less a b = true ↔ key a < key b)

omit [LinearOrder β] in
/-- On some values, `equal` is the equality of their keys. -/
def EqualBy (holds : α → Prop) (key : α → β) (equal : α → α → Bool) : Prop :=
  ∀ a b, holds a → holds b → (equal a b = true ↔ key a = key b)

/-- Two sequences by their first elements that differ, a shorter one before its extensions. -/
def lexicographicalCompare (less : α → α → Bool) : List α → List α → Bool
  | _, [] => false
  | [], _ :: _ => true
  | a :: as, b :: bs =>
      if less a b then true
      else if less b a then false
      else lexicographicalCompare less as bs

/-- A comparison by a first part, and by the others where the first parts are equal. -/
theorem first_iff {a b : β} {c d : γ} {less more : Prop} [Decidable less] [Decidable more]
    {rest : Bool} (first : less ↔ a < b) (swapped : more ↔ b < a) (others : rest = true ↔ c < d) :
    (if less then true else if more then false else rest) = true ↔
      toLex (a, c) < toLex (b, d) := by
  rw [Prod.Lex.toLex_lt_toLex]
  rcases lt_trichotomy a b with below | same | above
  · rw [if_pos (first.mpr below)]
    exact iff_of_true rfl (.inl below)
  · have not_less : ¬ less := fun below => (first.mp below).ne same
    have not_more : ¬ more := fun above => (swapped.mp above).ne same.symm
    have not_below : ¬ a < b := fun below => below.ne same
    rw [if_neg not_less, if_neg not_more, others, or_iff_right not_below, and_iff_right same]
  · have not_less : ¬ less := fun below => lt_asymm above (first.mp below)
    rw [if_neg not_less, if_pos (swapped.mpr above)]
    apply iff_of_false
    · exact Bool.false_ne_true
    · exact fun either => either.elim (lt_asymm above) fun both => above.ne both.1.symm

section Sequences

variable {holds : α → Prop} {key : α → β}

/-- Sequences are compared by the keys of their elements. -/
theorem LessBy.sequences {less : α → α → Bool} (elements : LessBy holds key less) :
    LessBy (fun as => ∀ a ∈ as, holds a) (List.map key) (lexicographicalCompare less) := by
  intro as bs
  induction as generalizing bs with
  | nil =>
      intro _ _
      cases bs with
      | nil => exact iff_of_false Bool.false_ne_true (lt_irrefl _)
      | cons b bs => exact iff_of_true rfl List.Lex.nil
  | cons a as ih =>
      intro good good'
      cases bs with
      | nil => exact iff_of_false Bool.false_ne_true fun less => nomatch less
      | cons b bs =>
          obtain ⟨here, later⟩ := List.forall_mem_cons.mp good
          obtain ⟨here', later'⟩ := List.forall_mem_cons.mp good'
          rw [lexicographicalCompare, first_iff (elements a b here here') (elements b a here' here)
            (ih bs later later'), Prod.Lex.toLex_lt_toLex, List.map_cons, List.map_cons,
            List.cons_lt_cons_iff]

omit [LinearOrder β] in
/-- Sequences are equal if they are element by element. -/
theorem EqualBy.sequences {equal : α → α → Bool} (elements : EqualBy holds key equal) :
    EqualBy (fun as => ∀ a ∈ as, holds a) (List.map key) fun as bs => as.isEqv bs equal := by
  intro as bs
  induction as generalizing bs with
  | nil =>
      intro _ _
      cases bs with
      | nil => exact iff_of_true rfl rfl
      | cons b bs => exact iff_of_false Bool.false_ne_true fun same => nomatch same
  | cons a as ih =>
      intro good good'
      cases bs with
      | nil => exact iff_of_false Bool.false_ne_true fun same => nomatch same
      | cons b bs =>
          obtain ⟨here, later⟩ := List.forall_mem_cons.mp good
          obtain ⟨here', later'⟩ := List.forall_mem_cons.mp good'
          change (List.isEqv (a :: as) (b :: bs) equal = true ↔ _)
          rw [List.isEqv_cons_cons, Bool.and_eq_true, elements a b here here',
            show as.isEqv bs equal = true ↔ _ from ih bs later later', List.map_cons, List.map_cons,
            List.cons.injEq]

end Sequences

section Orders

variable {holds : α → Prop} {key : α → β} {less : α → α → Bool}

theorem LessBy.trans (keyed : LessBy holds key less) {a b c : α} (first : holds a)
    (second : holds b) (third : holds c) (left : less a b = true) (right : less b c = true) :
    less a c = true :=
  (keyed a c first third).mpr
    (((keyed a b first second).mp left).trans ((keyed b c second third).mp right))

/-- Of two values one comes first, or they have the same key, and only one of these. -/
theorem LessBy.one_of_three (keyed : LessBy holds key less) {a b : α} (first : holds a)
    (second : holds b) {same : Bool} (equal : same = true ↔ key a = key b) :
    [less a b, same, less b a].count true = 1 := by
  have below := keyed a b first second
  have above := keyed b a second first
  rcases lt_trichotomy (key a) (key b) with before | alike | after
  · have not_same : ¬ same = true := fun alike => before.ne (equal.mp alike)
    have not_above : ¬ less b a = true := fun after => lt_asymm before (above.mp after)
    rw [below.mpr before, Bool.eq_false_iff.mpr not_same, Bool.eq_false_iff.mpr not_above]
    rfl
  · have not_below : ¬ less a b = true := fun before => (below.mp before).ne alike
    have not_above : ¬ less b a = true := fun after => (above.mp after).ne alike.symm
    rw [equal.mpr alike, Bool.eq_false_iff.mpr not_below, Bool.eq_false_iff.mpr not_above]
    rfl
  · have not_same : ¬ same = true := fun alike => after.ne (equal.mp alike).symm
    have not_below : ¬ less a b = true := fun before => lt_asymm after (below.mp before)
    rw [above.mpr after, Bool.eq_false_iff.mpr not_same, Bool.eq_false_iff.mpr not_below]
    rfl

end Orders

end Comparison
