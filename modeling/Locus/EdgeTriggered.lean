import Locus.Transition
import Mathlib.Data.List.Nodup
import Mathlib.Logic.Function.Basic

set_option autoImplicit false

/- Sources of inputs, and pollers that are told about new inputs by edges: a source is
armed while an input has arrived since its last report. -/
namespace EdgeTriggered

open Transition

variable {Source Poller : Type} [DecidableEq Source] [DecidableEq Poller]

structure State (Source Poller : Type) where
  /-- How many inputs have arrived and were not taken. -/
  waiting : Source → Nat
  watched : Source → Bool
  armed : Source → Bool
  /-- The reports that were given and are not served, next first. -/
  reported : Poller → List Source

inductive Event (Source Poller : Type) where
  | arrive (source : Source)
  /-- An input that makes no edge. -/
  | join (source : Source)
  | watch (source : Source)
  | forget (source : Source)
  | report (poller : Poller) (sources : List Source)
  /-- The next report is served, and so many inputs are taken. -/
  | serve (poller : Poller) (taken : Nat)

/-- Arrivals before a report are merged into it. -/
inductive Step (home : Source → Poller) (s : State Source Poller) :
    Event Source Poller → State Source Poller → Prop
  | arrive {source : Source} : Step home s (.arrive source)
      { s with
        waiting := Function.update s.waiting source (s.waiting source + 1)
        armed := Function.update s.armed source true }
  | join {source : Source} (present : 0 < s.waiting source) : Step home s (.join source)
      { s with waiting := Function.update s.waiting source (s.waiting source + 1) }
  | watch {source : Source} : Step home s (.watch source)
      { s with watched := Function.update s.watched source true }
  | forget {source : Source} (unreported : source ∉ s.reported (home source)) :
      Step home s (.forget source)
        { s with
          waiting := Function.update s.waiting source 0
          watched := Function.update s.watched source false
          armed := Function.update s.armed source false }
  | report {poller : Poller} {sources : List Source} (idle : s.reported poller = [])
      (distinct : sources.Nodup) (ready : ∀ source ∈ sources,
        home source = poller ∧ s.watched source = true ∧ s.armed source = true) :
      Step home s (.report poller sources)
        { s with
          armed := fun source => s.armed source && decide (source ∉ sources)
          reported := Function.update s.reported poller sources }
  | serve {poller : Poller} {source : Source} {rest : List Source} {taken : Nat}
      (next : s.reported poller = source :: rest) (taken_le : taken ≤ s.waiting source) :
      Step home s (.serve poller taken)
        { s with
          waiting := Function.update s.waiting source (s.waiting source - taken)
          reported := Function.update s.reported poller rest }

/-- A report is still to be given, or still to be served. -/
def Pending (home : Source → Poller) (s : State Source Poller) (source : Source) : Prop :=
  s.armed source = true ∨ source ∈ s.reported (home source)

/-- Nobody waits at a watched source without a report. -/
def Covered (home : Source → Poller) (s : State Source Poller) : Prop :=
  ∀ source, s.watched source = true → 0 < s.waiting source → Pending home s source

/-- A report is served by taking too little, after the last input has arrived. -/
def Strands (s : State Source Poller) (event : Event Source Poller) : Prop :=
  ∃ poller taken source rest, event = .serve poller taken ∧
    s.reported poller = source :: rest ∧ taken < s.waiting source ∧ s.armed source = false

/-- Each report is given once, to the poller of its source. -/
structure Tidy (home : Source → Poller) (s : State Source Poller) : Prop where
  home : ∀ poller, ∀ source ∈ s.reported poller, home source = poller
  watched : ∀ poller, ∀ source ∈ s.reported poller, s.watched source = true
  distinct : ∀ poller, (s.reported poller).Nodup
  unwatched : ∀ source, s.watched source = false → 0 < s.waiting source → s.armed source = true

section Steps

variable {home : Source → Poller} {before after : State Source Poller}
  {event : Event Source Poller}

omit [DecidableEq Source] [DecidableEq Poller] in
/-- The report that is served is not given a second time. -/
theorem Tidy.served (tidy : Tidy home before) {poller : Poller} {source : Source}
    {rest : List Source} (next : before.reported poller = source :: rest) :
    home source = poller ∧ before.watched source = true ∧ source ∉ rest := by
  have member : source ∈ before.reported poller := by
    rw [next]
    exact List.mem_cons_self
  have distinct := tidy.distinct poller
  rw [next] at distinct
  exact ⟨tidy.home poller source member, tidy.watched poller source member,
    (List.nodup_cons.mp distinct).1⟩

omit [DecidableEq Source] in
/-- One poller is given other reports: of its own sources, watched ones, and each once. -/
theorem Tidy.reports (tidy : Tidy home before) {poller : Poller} {sources : List Source}
    (own : ∀ source ∈ sources, home source = poller)
    (watched : ∀ source ∈ sources, before.watched source = true) (distinct : sources.Nodup)
    {waiting : Source → Nat} {armed : Source → Bool}
    (unwatched : ∀ source, before.watched source = false → 0 < waiting source →
      armed source = true) :
    Tidy home { before with
      waiting, armed, reported := Function.update before.reported poller sources } where
  home := (Function.forall_update_iff before.reported fun other given =>
    ∀ source ∈ given, home source = other).mpr ⟨own, fun other _ => tidy.home other⟩
  watched := (Function.forall_update_iff before.reported fun _ given =>
    ∀ source ∈ given, before.watched source = true).mpr
      ⟨watched, fun other _ => tidy.watched other⟩
  distinct := (Function.forall_update_iff before.reported fun _ given => given.Nodup).mpr
    ⟨distinct, fun other _ => tidy.distinct other⟩
  unwatched := unwatched

theorem tidy_step (tidy : Tidy home before) (step : Step home before event after) :
    Tidy home after := by
  cases step with
  | @arrive source =>
      refine ⟨tidy.home, tidy.watched, tidy.distinct, ?_⟩
      intro other unwatched waits
      dsimp only at unwatched waits ⊢
      by_cases same : other = source
      · subst same
        exact Function.update_self ..
      · rw [Function.update_of_ne same] at waits ⊢
        exact tidy.unwatched other unwatched waits
  | @join source present =>
      refine ⟨tidy.home, tidy.watched, tidy.distinct, ?_⟩
      intro other unwatched waits
      dsimp only at unwatched waits ⊢
      by_cases same : other = source
      · subst same
        exact tidy.unwatched other unwatched present
      · rw [Function.update_of_ne same] at waits
        exact tidy.unwatched other unwatched waits
  | @watch source =>
      refine ⟨tidy.home, ?_, tidy.distinct, ?_⟩
      · intro poller other member
        dsimp only at member ⊢
        by_cases same : other = source
        · subst same
          exact Function.update_self ..
        · rw [Function.update_of_ne same]
          exact tidy.watched poller other member
      · intro other unwatched waits
        dsimp only at unwatched waits ⊢
        by_cases same : other = source
        · subst same
          rw [Function.update_self] at unwatched
          cases unwatched
        · rw [Function.update_of_ne same] at unwatched
          exact tidy.unwatched other unwatched waits
  | @forget source unreported =>
      refine ⟨tidy.home, ?_, tidy.distinct, ?_⟩
      · intro poller other member
        dsimp only at member ⊢
        have apart : other ≠ source := by
          rintro rfl
          rw [tidy.home poller other member] at unreported
          exact unreported member
        rw [Function.update_of_ne apart]
        exact tidy.watched poller other member
      · intro other unwatched waits
        dsimp only at unwatched waits ⊢
        by_cases same : other = source
        · subst same
          rw [Function.update_self] at waits
          omega
        · rw [Function.update_of_ne same] at unwatched waits ⊢
          exact tidy.unwatched other unwatched waits
  | @report poller sources idle distinct ready =>
      refine tidy.reports (fun source member => (ready source member).1)
        (fun source member => (ready source member).2.1) distinct ?_
      intro source unwatched waits
      have unreported : source ∉ sources := by
        intro member
        have watched := (ready source member).2.1
        rw [unwatched] at watched
        cases watched
      simp only [tidy.unwatched source unwatched waits, unreported, not_false_eq_true,
        decide_true, Bool.and_self]
  | @serve poller source rest taken next taken_le =>
      have left : ∀ other ∈ rest, other ∈ before.reported poller := by
        intro other member
        rw [next]
        exact List.mem_cons_of_mem _ member
      have distinct := tidy.distinct poller
      rw [next] at distinct
      refine tidy.reports (fun other member => tidy.home poller other (left other member))
        (fun other member => tidy.watched poller other (left other member))
        (List.nodup_cons.mp distinct).2 ?_
      intro other unwatched waits
      apply tidy.unwatched other unwatched
      by_cases same : other = source
      · subst same
        rw [Function.update_self] at waits
        omega
      · rwa [Function.update_of_ne same] at waits

omit [DecidableEq Source] [DecidableEq Poller] in
/-- Who is served next is stranded, or nobody is. -/
theorem strands_serve_iff {poller : Poller} {source : Source} {rest : List Source} {taken : Nat}
    (next : before.reported poller = source :: rest) :
    Strands before (.serve poller taken) ↔
      taken < before.waiting source ∧ before.armed source = false := by
  constructor
  · rintro ⟨_, _, other, others, ⟨⟩, again, more, quiet⟩
    rw [next] at again
    cases again
    exact ⟨more, quiet⟩
  · rintro ⟨more, quiet⟩
    exact ⟨poller, taken, source, rest, rfl, next, more, quiet⟩

/-- A step that does not strand anyone keeps everyone covered. -/
theorem covered_step (tidy : Tidy home before) (covered : Covered home before)
    (step : Step home before event after) (sound : ¬ Strands before event) :
    Covered home after := by
  cases step with
  | @arrive source =>
      intro other watched waits
      dsimp only at watched waits
      by_cases same : other = source
      · subst same
        exact .inl (Function.update_self ..)
      · rw [Function.update_of_ne same] at waits
        apply (covered other watched waits).imp_left
        intro armed
        exact (Function.update_of_ne same _ _).trans armed
  | @join source present =>
      intro other watched waits
      dsimp only at watched waits
      by_cases same : other = source
      · subst same
        exact covered other watched present
      · rw [Function.update_of_ne same] at waits
        exact covered other watched waits
  | @watch source =>
      intro other watched waits
      dsimp only at watched waits
      by_cases old : before.watched other = true
      · exact covered other old waits
      · exact .inl (tidy.unwatched other (Bool.eq_false_iff.mpr old) waits)
  | @forget source unreported =>
      intro other watched waits
      dsimp only at watched waits
      by_cases same : other = source
      · subst same
        rw [Function.update_self] at waits
        omega
      · rw [Function.update_of_ne same] at watched waits
        apply (covered other watched waits).imp_left
        intro armed
        exact (Function.update_of_ne same _ _).trans armed
  | @report poller sources idle distinct ready =>
      intro source watched waits
      dsimp only at watched waits
      by_cases given : source ∈ sources
      · refine .inr ?_
        change source ∈ Function.update before.reported poller sources (home source)
        rw [(ready source given).1, Function.update_self]
        exact given
      · rcases covered source watched waits with armed | reported
        · refine .inl ?_
          simp only [armed, given, not_false_eq_true, decide_true, Bool.and_self]
        · refine .inr ?_
          have other : home source ≠ poller := by
            intro same
            rw [same, idle] at reported
            cases reported
          change source ∈ Function.update before.reported poller sources (home source)
          rwa [Function.update_of_ne other]
  | @serve poller source rest taken next taken_le =>
      obtain ⟨own, _, _⟩ := tidy.served next
      intro other watched waits
      dsimp only at watched waits
      by_cases same : other = source
      · subst same
        rw [Function.update_self] at waits
        by_cases armed : before.armed other = true
        · exact .inl armed
        · refine absurd ((strands_serve_iff next).mpr ⟨?_, ?_⟩) sound
          · omega
          · exact Bool.eq_false_iff.mpr armed
      · rw [Function.update_of_ne same] at waits
        apply (covered other watched waits).imp_right
        intro reported
        change other ∈ Function.update before.reported poller rest (home other)
        by_cases here : home other = poller
        · rw [here, Function.update_self]
          rw [here, next] at reported
          exact (List.mem_cons.mp reported).resolve_left same
        · rwa [Function.update_of_ne here]

/-- Who is stranded is not covered. -/
theorem not_covered_of_strands (tidy : Tidy home before) (step : Step home before event after)
    (strands : Strands before event) : ¬ Covered home after := by
  obtain ⟨poller, taken, source, rest, rfl, next, more, quiet⟩ := strands
  obtain ⟨own, watched, once⟩ := tidy.served next
  intro covered
  cases step with
  | serve again _ =>
      rw [next] at again
      cases again
      have left : 0 < Function.update before.waiting source (before.waiting source - taken)
          source := by
        rw [Function.update_self]
        omega
      rcases covered source watched left with armed | reported
      · rw [quiet] at armed
        cases armed
      · change source ∈ Function.update before.reported poller rest (home source) at reported
        rw [own, Function.update_self] at reported
        exact once reported

end Steps

end EdgeTriggered
