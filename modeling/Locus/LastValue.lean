import Locus.Transition

set_option autoImplicit false

/- The value that the last entry of a log has which has one, for columns of a state that each step
sets or leaves. -/
namespace Transition

variable {σ ε ι γ : Type}

def lastValue (value : ε → Option γ) (log : List ε) : Option γ := (log.filterMap value).getLast?

theorem lastValue_append (value : ε → Option γ) (log more : List ε) :
    lastValue value (log ++ more) = (lastValue value more).or (lastValue value log) := by
  rw [lastValue, List.filterMap_append, List.getLast?_append]
  rfl

theorem lastValue_snoc (value : ε → Option γ) (log : List ε) (entry : ε) :
    lastValue value (log ++ [entry]) = (value entry).or (lastValue value log) := by
  have alone : lastValue value [entry] = value entry := by
    rw [lastValue, List.filterMap_cons]
    cases value entry <;> rfl
  rw [lastValue_append, alone]

theorem lastValue_eq_none_iff {value : ε → Option γ} {log : List ε} :
    lastValue value log = none ↔ ∀ entry ∈ log, value entry = none := by
  rw [lastValue, List.getLast?_eq_none_iff, List.filterMap_eq_nil_iff]

theorem exists_of_lastValue {value : ε → Option γ} {log : List ε} {last : γ}
    (found : lastValue value log = some last) : ∃ entry ∈ log, value entry = some last :=
  List.mem_filterMap.mp (List.mem_of_getLast? found)

/-- The event of a history whose entries gave the last value, with the events that did not. -/
theorem lastValue_flatMap {entries : ι → List ε} {value : ε → Option γ} {history : List ι}
    {last : γ} (found : lastValue value (history.flatMap entries) = some last) :
    ∃ earlier event later, history = earlier ++ event :: later ∧
      lastValue value (entries event) = some last ∧
      ∀ entry ∈ later.flatMap entries, value entry = none := by
  induction history using List.reverseRecOn with
  | nil => cases found
  | append_singleton history event ih =>
      rw [List.flatMap_append, List.flatMap_singleton, lastValue_append] at found
      cases own : lastValue value (entries event) with
      | some here =>
          rw [own] at found
          exact ⟨history, event, [], rfl, own.trans found, by simp⟩
      | none =>
          rw [own] at found
          obtain ⟨earlier, source, later, rfl, gave, silent⟩ := ih found
          refine ⟨earlier, source, later ++ [event], by simp, gave, ?_⟩
          intro entry member
          rw [List.flatMap_append, List.flatMap_singleton] at member
          rcases List.mem_append.mp member with before | now
          · exact silent entry before
          · exact lastValue_eq_none_iff.mp own entry now

/-- A column that each step sets to what its event says, or leaves, is what was said last. -/
theorem Run.column {step : σ → ε → σ → Prop} {start finish : σ} {events : List ε} {δ : Type}
    (column : σ → δ) (value : ε → Option γ) (put : γ → δ)
    (keep : ∀ before event after, step before event after →
      column after = (value event).elim (column before) put)
    (run : Run step start events finish) :
    column finish = (lastValue value events).elim (column start) put := by
  refine run.history_invariant
    (fun events state => column state = (lastValue value events).elim (column start) put) rfl ?_
  intro events before event after _ held last
  rw [keep before event after last, held, lastValue_snoc]
  cases value event <;> rfl

end Transition
