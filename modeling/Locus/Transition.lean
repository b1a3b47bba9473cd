import Mathlib.Data.List.Basic
import Mathlib.Data.List.Induction

set_option autoImplicit false

/- Runs of a labelled transition relation, and safety laws over the log that a
run leaves behind. -/
namespace Transition

variable {σ ε : Type}

/-- A finite run, oldest event first. -/
inductive Run (step : σ → ε → σ → Prop) (start : σ) : List ε → σ → Prop
  | nil : Run step start [] start
  | snoc {events : List ε} {before : σ} {event : ε} {after : σ}
      (earlier : Run step start events before) (last : step before event after) :
      Run step start (events ++ [event]) after

/-- The steps of a relation that start where a condition on state and event holds. -/
def Guarded (ok : σ → ε → Prop) (step : σ → ε → σ → Prop) (before : σ) (event : ε)
    (after : σ) : Prop :=
  ok before event ∧ step before event after

namespace Run

variable {step : σ → ε → σ → Prop} {start finish : σ} {events : List ε}

/-- A law of state and history that each step extends holds at the end of every run. -/
theorem history_invariant (holds : List ε → σ → Prop) (base : holds [] start)
    (keep : ∀ events before event after, Run step start events before →
      holds events before → step before event after → holds (events ++ [event]) after)
    (run : Run step start events finish) : holds events finish := by
  induction run with
  | nil => exact base
  | snoc earlier last ih => exact keep _ _ _ _ earlier ih last

/-- A state law that every step preserves holds at the end of every run. -/
theorem invariant (holds : σ → Prop) (base : holds start)
    (keep : ∀ before event after, holds before → step before event after → holds after)
    (run : Run step start events finish) : holds finish :=
  history_invariant (fun _ state => holds state) base
    (fun _ before event after _ held last => keep before event after held last) run

theorem nil_iff : Run step start [] finish ↔ start = finish := by
  constructor
  · intro run
    generalize empty : ([] : List ε) = events at run
    cases run with
    | nil => rfl
    | snoc earlier last => exact absurd empty (by simp)
  · rintro rfl
    exact .nil

theorem snoc_iff {event : ε} :
    Run step start (events ++ [event]) finish ↔
      ∃ before, Run step start events before ∧ step before event finish := by
  constructor
  · intro run
    generalize whole : events ++ [event] = all at run
    cases run with
    | nil => exact absurd whole (by simp)
    | snoc earlier last =>
        obtain ⟨rfl, same⟩ := List.append_inj' whole rfl
        cases same
        exact ⟨_, earlier, last⟩
  · rintro ⟨before, earlier, last⟩
    exact .snoc earlier last

theorem append_iff {later : List ε} :
    Run step start (events ++ later) finish ↔
      ∃ middle, Run step start events middle ∧ Run step middle later finish := by
  induction later using List.reverseRecOn generalizing finish with
  | nil => simp [nil_iff]
  | append_singleton later event ih =>
      rw [← List.append_assoc, snoc_iff]
      constructor
      · rintro ⟨before, earlier, last⟩
        obtain ⟨middle, first, second⟩ := ih.mp earlier
        exact ⟨middle, first, .snoc second last⟩
      · rintro ⟨middle, first, second⟩
        obtain ⟨before, earlier, last⟩ := snoc_iff.mp second
        exact ⟨before, ih.mpr ⟨middle, first, earlier⟩, last⟩

theorem cons_iff {event : ε} :
    Run step start (event :: events) finish ↔
      ∃ next, step start event next ∧ Run step next events finish := by
  rw [← List.singleton_append, append_iff]
  constructor
  · rintro ⟨next, first, rest⟩
    rw [← List.nil_append [event], snoc_iff] at first
    obtain ⟨before, earlier, last⟩ := first
    exact ⟨next, nil_iff.mp earlier ▸ last, rest⟩
  · rintro ⟨next, first, rest⟩
    refine ⟨next, ?_, rest⟩
    rw [← List.nil_append [event], snoc_iff]
    exact ⟨start, .nil, first⟩

/-- A run that starts with a given step. -/
theorem cons {event : ε} {next : σ} (first : step start event next)
    (rest : Run step next events finish) : Run step start (event :: events) finish :=
  cons_iff.mpr ⟨next, first, rest⟩

/-- Steps that meet a condition meet every weaker one. -/
theorem mono {ok weaker : σ → ε → Prop} (run : Run (Guarded ok step) start events finish)
    (weaken : ∀ before event after, step before event after → ok before event →
      weaker before event) : Run (Guarded weaker step) start events finish := by
  induction run with
  | nil => exact .nil
  | snoc earlier last ih => exact .snoc ih ⟨weaken _ _ _ last.2 last.1, last.2⟩

/-- A run of guarded steps is a run. -/
theorem of_guarded {ok : σ → ε → Prop} (run : Run (Guarded ok step) start events finish) :
    Run step start events finish := by
  induction run with
  | nil => exact .nil
  | snoc earlier last ih => exact .snoc ih last.2

/-- A run whose events meet a condition in every state. -/
theorem guard {ok : σ → ε → Prop} (run : Run step start events finish)
    (meets : ∀ event ∈ events, ∀ state, ok state event) :
    Run (Guarded ok step) start events finish := by
  induction run with
  | nil => exact .nil
  | snoc earlier last ih =>
      refine .snoc (ih fun event member => meets event (List.mem_append_left _ member)) ?_
      exact ⟨meets _ (by simp) _, last⟩

/-- A run goes on from where another one ends. -/
theorem append {middle : σ} {later : List ε} (first : Run step start events middle)
    (second : Run step middle later finish) : Run step start (events ++ later) finish :=
  append_iff.mpr ⟨middle, first, second⟩

/-- What each step shows is done by an abstract machine in a related state, and so is what a whole
run shows. -/
theorem simulates {τ α : Type} {abstractStep : τ → α → τ → Prop} (related : σ → τ → Prop)
    (shown : ε → List α)
    (simulated : ∀ before event after abstract, related before abstract → step before event after →
      ∃ next, Run abstractStep abstract (shown event) next ∧ related after next)
    {abstract : τ} (first : related start abstract) (run : Run step start events finish) :
    ∃ next, Run abstractStep abstract (events.flatMap shown) next ∧ related finish next := by
  induction run with
  | nil => exact ⟨abstract, .nil, first⟩
  | @snoc events before event after earlier last ih =>
      obtain ⟨middle, so_far, there⟩ := ih
      obtain ⟨next, shows, again⟩ := simulated before event after middle there last
      refine ⟨next, ?_, again⟩
      rw [List.flatMap_append, List.flatMap_singleton]
      exact so_far.append shows

/-- Where each step of one's own brings a bound down and no other step brings it up, the bound is
as many steps of one's own as are left. -/
theorem counted (bound : σ → Nat) (own : ε → Bool) (holds : σ → Prop)
    (keep : ∀ before event after, holds before → step before event after → holds after)
    (fewer : ∀ before event after, holds before → step before event after →
      bound after + (if own event then 1 else 0) ≤ bound before)
    (first : holds start) (run : Run step start events finish) :
    events.countP own + bound finish ≤ bound start := by
  induction run with
  | nil => exact Nat.le_of_eq (Nat.zero_add _)
  | @snoc events before event after earlier last ih =>
      have less := fewer before event after (earlier.invariant holds first keep) last
      rw [List.countP_append, List.countP_singleton]
      omega

/-- A deterministic step leads every run over the same events to the same state. -/
theorem deterministic
    (functional : ∀ before event first second, step before event first →
      step before event second → first = second) {other : σ}
    (run : Run step start events finish) (again : Run step start events other) :
    finish = other := by
  induction run generalizing other with
  | nil => exact nil_iff.mp again
  | snoc earlier last ih =>
      obtain ⟨before, prior, same⟩ := snoc_iff.mp again
      rw [← ih prior] at same
      exact functional _ _ _ _ last same

end Run

/-- An entry of a list that one more was added to is the new one or stood there before. -/
theorem split_snoc {events earlier later : List ε} {event entry : ε}
    (split : events ++ [event] = earlier ++ entry :: later) :
    (events = earlier ∧ event = entry ∧ later = []) ∨
      ∃ front, events = earlier ++ entry :: front ∧ later = front ++ [event] := by
  rcases List.eq_nil_or_concat later with rfl | ⟨front, final, rfl⟩
  · obtain ⟨same, last⟩ := List.append_inj' split rfl
    cases last
    exact .inl ⟨same, rfl, rfl⟩
  · have regroup : events ++ [event] = (earlier ++ entry :: front) ++ [final] := by
      simpa using split
    obtain ⟨same, last⟩ := List.append_inj' regroup rfl
    cases last
    exact .inr ⟨front, same, List.concat_eq_append⟩

/-- Each step of a run over `events` obeys a law of the states around it. -/
def Always (step : σ → ε → σ → Prop) (start : σ) (law : σ → ε → σ → Prop)
    (events : List ε) : Prop :=
  ∀ earlier event later before after, events = earlier ++ event :: later →
    Run step start earlier before → step before event after → law before event after

section Always

variable {step : σ → ε → σ → Prop} {start : σ} {law : σ → ε → σ → Prop} {events : List ε}

@[simp] theorem always_nil : Always step start law [] := by
  intro earlier event later before after empty
  exact absurd empty (by simp)

theorem always_snoc {event : ε} :
    Always step start law (events ++ [event]) ↔
      Always step start law events ∧
      ∀ before after, Run step start events before → step before event after →
        law before event after := by
  constructor
  · intro always
    constructor
    · intro earlier other later before after split
      exact always earlier other (later ++ [event]) before after (by simp [split])
    · intro before after
      exact always events event [] before after rfl
  · rintro ⟨always, last⟩ earlier other later before after split run stepped
    rcases split_snoc split with ⟨rfl, rfl, rfl⟩ | ⟨front, whole, rfl⟩
    · exact last before after run stepped
    · exact always earlier other front before after whole run stepped

theorem Always.of_append {later : List ε} {whole : List ε}
    (always : Always step start law whole) (split : whole = events ++ later) :
    Always step start law events := by
  intro earlier event rest before after front
  exact always earlier event (rest ++ later) before after (by simp [split, front])

/-- Two laws that agree on every step hold along the same runs. -/
theorem always_congr {other : σ → ε → σ → Prop}
    (agree : ∀ before event after, step before event after →
      (law before event after ↔ other before event after)) (events : List ε) :
    Always step start law events ↔ Always step start other events := by
  constructor
  · intro always earlier event later before after split run stepped
    exact (agree _ _ _ stepped).mp (always earlier event later before after split run stepped)
  · intro always earlier event later before after split run stepped
    exact (agree _ _ _ stepped).mpr (always earlier event later before after split run stepped)

/-- A state law that the steps obeying `law` preserve holds after every run that obeys it. -/
theorem Run.invariant_of_always {finish : σ} (run : Run step start events finish)
    (always : Always step start law events) (holds : σ → Prop) (base : holds start)
    (keep : ∀ before event after, holds before → step before event after →
      law before event after → holds after) : holds finish := by
  induction run with
  | nil => exact base
  | snoc earlier last ih =>
      obtain ⟨before, now⟩ := always_snoc.mp always
      exact keep _ _ _ (ih before) last (now _ _ earlier last)

/-- Where steps are deterministic, a run of guarded steps is the only one over its events. -/
theorem always_of_guarded {ok : σ → ε → Prop} {finish : σ}
    (functional : ∀ before event first second, step before event first →
      step before event second → first = second)
    (run : Run (Guarded ok step) start events finish) :
    Always step start (fun before event _ => ok before event) events := by
  induction run with
  | nil => exact always_nil
  | @snoc events before event after earlier last ih =>
      refine always_snoc.mpr ⟨ih, ?_⟩
      intro other _ again _
      rw [← earlier.of_guarded.deterministic functional again]
      exact last.1

/-- Where the steps that meet a condition keep an invariant, and under the invariant a step obeys
a law exactly if it meets the condition, the runs that obey the law are those whose steps all
meet the condition. -/
theorem always_iff_of_invariant {holds : σ → Prop} {meets : σ → ε → Prop} (base : holds start)
    (agree : ∀ before event after, holds before → step before event after →
      (law before event after ↔ meets before event))
    (keep : ∀ before event after, holds before → step before event after →
      meets before event → holds after) (events : List ε) :
    Always step start law events ↔
      Always step start (fun before event _ => meets before event) events := by
  induction events using List.reverseRecOn with
  | nil => exact iff_of_true always_nil always_nil
  | append_singleton events event ih =>
      rw [always_snoc, always_snoc, ih]
      apply and_congr_right
      intro steady
      have held : ∀ before, Run step start events before → holds before := by
        intro before run
        exact run.invariant_of_always steady holds base
          fun before event after held stepped met => keep before event after held stepped met
      constructor
      · intro obeys before after run stepped
        exact (agree _ _ _ (held before run) stepped).mp (obeys before after run stepped)
      · intro met before after run stepped
        exact (agree _ _ _ (held before run) stepped).mpr (met before after run stepped)

/-- Where a state law holds at first, and the steps that break it are those of a kind, the
states of a run obey the law if and only if the run has no step of the kind. -/
theorem always_iff {good : σ → Prop} {breaks : σ → ε → Prop} (base : good start)
    (keeps : ∀ past before event after, Run step start past before → step before event after →
      good before → ¬ breaks before event → good after)
    (spoils : ∀ past before event after, Run step start past before → step before event after →
      breaks before event → ¬ good after) (events : List ε) :
    Always step start (fun _ _ after => good after) events ↔
      Always step start (fun before event _ => ¬ breaks before event) events := by
  constructor
  · intro always earlier event later before after split prior stepped broken
    exact spoils _ _ _ _ prior stepped broken
      (always earlier event later before after split prior stepped)
  · intro steady earlier event later before after split prior stepped
    have held : good before ∧ ∃ past, Run step start past before := by
      refine prior.invariant_of_always (steady.of_append split)
        (fun state => good state ∧ ∃ past, Run step start past state) ⟨base, [], .nil⟩ ?_
      rintro before event after ⟨held, past, run⟩ stepped sound
      exact ⟨keeps _ _ _ _ run stepped held sound, _, .snoc run stepped⟩
    exact keeps _ _ _ _ prior stepped held.1
      (steady earlier event later before after split prior stepped)

end Always

/-- A run over `events` that ends in `finish` can take a step of a kind on its way. -/
def Occurs (step : σ → ε → σ → Prop) (start : σ) (kind : σ → ε → Prop) (events : List ε)
    (finish : σ) : Prop :=
  ∃ earlier event later before after, events = earlier ++ event :: later ∧
    Run step start earlier before ∧ kind before event ∧ step before event after ∧
    Run step after later finish

/-- Where a state law does not hold at first, the steps of a kind bring it about and no others do,
and no step ends it, it holds after the runs in which a step of the kind occurs. -/
theorem Run.occurs_iff {step : σ → ε → σ → Prop} {start finish : σ} {events : List ε}
    {holds : σ → Prop} {kind : σ → ε → Prop} (base : ¬ holds start)
    (makes : ∀ past before event after, Run step start past before → step before event after →
      kind before event → holds after)
    (keeps : ∀ past before event after, Run step start past before → step before event after →
      holds before → holds after)
    (only : ∀ past before event after, Run step start past before → step before event after →
      ¬ holds before → holds after → kind before event)
    (run : Run step start events finish) :
    holds finish ↔ Occurs step start kind events finish := by
  constructor
  · intro held
    refine run.history_invariant (fun events state => holds state →
      Occurs step start kind events state) (fun first => absurd first base) ?_ held
    intro past before event after prior occurred stepped held
    by_cases already : holds before
    · obtain ⟨earlier, cause, later, state, next, rfl, reached, matched, made, rest⟩ :=
        occurred already
      exact ⟨earlier, cause, later ++ [event], state, next, by simp, reached, matched, made,
        rest.snoc stepped⟩
    · exact ⟨past, event, [], before, after, rfl, prior, only _ _ _ _ prior stepped already held,
        stepped, .nil⟩
  · rintro ⟨earlier, cause, later, before, after, rfl, prior, matched, made, rest⟩
    refine (rest.invariant (fun state => holds state ∧ ∃ past, Run step start past state)
      ⟨makes _ _ _ _ prior made matched, _, prior.snoc made⟩ ?_).1
    rintro state event next ⟨held, past, reached⟩ stepped
    exact ⟨keeps _ _ _ _ reached stepped held, _, reached.snoc stepped⟩

/-- Each entry of a log obeys a law that may refer to everything logged before it. -/
def Each (law : List ε → ε → Prop) (log : List ε) : Prop :=
  ∀ earlier entry later, log = earlier ++ entry :: later → law earlier entry

variable {law : List ε → ε → Prop} {log : List ε}

@[simp] theorem each_nil : Each law [] := by
  intro earlier entry later empty
  exact absurd empty (by simp)

/-- Appending one entry has to be justified by the log so far, and by nothing else. -/
@[simp] theorem each_snoc {entry : ε} :
    Each law (log ++ [entry]) ↔ Each law log ∧ law log entry := by
  constructor
  · intro each
    refine ⟨?_, each log entry [] rfl⟩
    intro earlier other later split
    exact each earlier other (later ++ [entry]) (by simp [split])
  · rintro ⟨each, last⟩ earlier other later split
    rcases split_snoc split with ⟨rfl, rfl, rfl⟩ | ⟨front, whole, rfl⟩
    · exact last
    · exact each earlier other front whole

theorem Each.of_append {later : List ε} (each : Each law (log ++ later)) : Each law log := by
  intro earlier entry rest split
  exact each earlier entry (rest ++ later) (by simp [split])

/-- A log is extended by entries that are justified by it and by each other. -/
theorem each_append {more : List ε} :
    Each law (log ++ more) ↔ Each law log ∧ Each (fun earlier => law (log ++ earlier)) more := by
  induction more using List.reverseRecOn with
  | nil => simp
  | append_singleton more entry ih =>
      rw [← List.append_assoc, each_snoc, each_snoc, ih, and_assoc]

theorem each_cons {entry : ε} :
    Each law (entry :: log) ↔ law [] entry ∧ Each (fun earlier => law (entry :: earlier)) log := by
  rw [← List.singleton_append, each_append]
  have alone : Each law [entry] ↔ law [] entry := by
    rw [← List.nil_append [entry], each_snoc]
    simp
  rw [alone]
  rfl

theorem Each.of_forall (obeys : ∀ earlier, (∀ entry ∈ earlier, entry ∈ log) →
    ∀ entry ∈ log, law earlier entry) : Each law log := by
  intro earlier entry later split
  subst split
  exact obeys earlier (fun other member => List.mem_append_left _ member) entry (by simp)

/-- What an event does to a counter that is raised one by one and cleared at once. -/
inductive Change where
  | raise
  | clear
  deriving DecidableEq, Repr

def Change.apply : Option Change → Nat → Nat
  | some .raise, count => count + 1
  | some .clear, _ => 0
  | none, count => count

/-- The counter after a history, oldest event first. -/
def tally (change : ε → Option Change) (history : List ε) : Nat :=
  history.foldl (fun count event => Change.apply (change event) count) 0

theorem tally_snoc (change : ε → Option Change) (history : List ε) (event : ε) :
    tally change (history ++ [event]) = Change.apply (change event) (tally change history) := by
  simp only [tally, List.foldl_append, List.foldl_cons, List.foldl_nil]

/-- The counter is positive exactly when the latest event that changes it raised it. -/
theorem tally_pos_iff (change : ε → Option Change) (history : List ε) :
    0 < tally change history ↔
      ∃ event, (history.filter fun e => (change e).isSome).getLast? = some event ∧
        change event = some .raise := by
  induction history using List.reverseRecOn with
  | nil => simp [tally]
  | append_singleton history event ih =>
      rw [tally_snoc, List.filter_append]
      cases kind : change event with
      | none =>
          have skipped : [event].filter (fun e => (change e).isSome) = [] := by simp [kind]
          rw [skipped, List.append_nil]
          exact ih
      | some effect =>
          have kept : [event].filter (fun e => (change e).isSome) = [event] := by simp [kind]
          rw [kept, List.getLast?_concat]
          cases effect with
          | raise => exact ⟨fun _ => ⟨event, rfl, kind⟩, fun _ => Nat.succ_pos _⟩
          | clear =>
              constructor
              · intro impossible
                exact absurd impossible (Nat.lt_irrefl 0)
              · rintro ⟨other, same, raised⟩
                cases same
                rw [kind] at raised
                cases raised

end Transition
