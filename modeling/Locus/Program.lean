import Mathlib.Tactic.ByContra

set_option autoImplicit false

/- Calls that read and write a state and either return or fail. A failed call
keeps the writes it made before it failed, as `EStateM` over a state without
backtracking does. -/
namespace Program

variable {ε σ α β : Type}

theorem pure_run (value : α) (state : σ) :
    (pure value : EStateM ε σ α) state = .ok value state := rfl

theorem get_run (state : σ) : (get : EStateM ε σ σ) state = .ok state state := rfl

theorem modify_run (state : σ) (edit : σ → σ) :
    (modify edit : EStateM ε σ PUnit) state = .ok ⟨⟩ (edit state) := rfl

theorem throw_run (failure : ε) (state : σ) :
    (throw failure : EStateM ε σ α) state = .error failure state := rfl

theorem bind_run (first : EStateM ε σ α) (next : α → EStateM ε σ β) (state : σ) :
    (first >>= next) state = match first state with
      | .ok value middle => next value middle
      | .error failure middle => .error failure middle := by
  change EStateM.bind first next state = _
  simp only [EStateM.bind]
  cases first state <;> rfl

theorem bind_of_ok {first : EStateM ε σ α} {next : α → EStateM ε σ β} {state middle : σ}
    {value : α} (returned : first state = .ok value middle) :
    (first >>= next) state = next value middle := by
  rw [bind_run, returned]

/-- A sequence returns exactly when both of its parts do. -/
theorem bind_ok_iff {first : EStateM ε σ α} {next : α → EStateM ε σ β} {state final : σ}
    {result : β} :
    (first >>= next) state = .ok result final ↔
      ∃ value middle, first state = .ok value middle ∧ next value middle = .ok result final := by
  rw [bind_run]
  cases ran : first state with
  | ok value middle =>
      constructor
      · intro rest
        exact ⟨value, middle, rfl, rest⟩
      · rintro ⟨value', middle', same, rest⟩
        cases same
        exact rest
  | error failure middle =>
      constructor
      · intro impossible
        cases impossible
      · rintro ⟨value, middle', impossible, _⟩
        cases impossible

theorem bind_error_iff {first : EStateM ε σ α} {next : α → EStateM ε σ β} {state final : σ}
    {failure : ε} :
    (first >>= next) state = .error failure final ↔
      first state = .error failure final ∨
      ∃ value middle, first state = .ok value middle ∧
        next value middle = .error failure final := by
  rw [bind_run]
  cases first state with
  | error other middle => simp
  | ok value middle =>
      constructor
      · intro failed
        exact .inr ⟨value, middle, rfl, failed⟩
      · rintro (impossible | ⟨_, _, returned, failed⟩)
        · cases impossible
        · cases returned
          exact failed

theorem bind_pure_ok_iff {call : EStateM ε σ α} {wrap : α → β} {state final : σ} {result : β} :
    (call >>= fun value => pure (wrap value)) state = .ok result final ↔
      ∃ value, call state = .ok value final ∧ wrap value = result := by
  simp only [bind_ok_iff, pure_run]
  constructor
  · rintro ⟨value, _, returned, done⟩
    cases done
    exact ⟨value, returned, rfl⟩
  · rintro ⟨value, returned, rfl⟩
    exact ⟨value, final, returned, rfl⟩

/-- Turn a computed outcome into a call that leaves the state alone. -/
def ofExcept (outcome : Except ε α) : EStateM ε σ α :=
  match outcome with
  | .ok value => pure value
  | .error failure => throw failure

theorem ofExcept_ok_run (value : α) (state : σ) :
    (ofExcept (.ok value) : EStateM ε σ α) state = .ok value state := rfl

theorem ofExcept_error_run (failure : ε) (state : σ) :
    (ofExcept (.error failure) : EStateM ε σ α) state = .error failure state := rfl

theorem ofExcept_ok_iff {outcome : Except ε α} {state final : σ} {value : α} :
    (ofExcept outcome : EStateM ε σ α) state = .ok value final ↔
      outcome = .ok value ∧ final = state := by
  cases outcome with
  | ok stored =>
      simp only [ofExcept_ok_run, EStateM.Result.ok.injEq, Except.ok.injEq, eq_comm]
  | error failure => simp [ofExcept_error_run]

/-- Run a call on a part of the state. -/
def zoom {τ : Type} (view : σ → τ) (put : τ → σ → σ) (call : EStateM ε τ α) :
    EStateM ε σ α := fun state =>
  match call (view state) with
  | .ok value inner => .ok value (put inner state)
  | .error failure inner => .error failure (put inner state)

theorem zoom_ok {τ : Type} {view : σ → τ} {put : τ → σ → σ} {call : EStateM ε τ α} {state : σ}
    {inner : τ} {value : α} (returned : call (view state) = .ok value inner) :
    zoom view put call state = .ok value (put inner state) := by
  simp only [zoom, returned]

theorem zoom_error {τ : Type} {view : σ → τ} {put : τ → σ → σ} {call : EStateM ε τ α}
    {state : σ} {inner : τ} {failure : ε} (failed : call (view state) = .error failure inner) :
    (zoom view put call : EStateM ε σ α) state = .error failure (put inner state) := by
  simp only [zoom, failed]

/-- The state a call ends in, whether it returned or failed. -/
def finalState (result : EStateM.Result ε σ α) : σ :=
  match result with
  | .ok _ after => after
  | .error _ after => after

/-- What a call hands back: its value, or how it failed. -/
def outcome (result : EStateM.Result ε σ α) : Except ε α :=
  match result with
  | .ok value _ => .ok value
  | .error failure _ => .error failure

/-- A call as a step, whether it returns or fails. -/
def Yields (call : EStateM ε σ α) (before : σ) (reply : Except ε α) (after : σ) : Prop :=
  reply = outcome (call before) ∧ after = finalState (call before)

/-- A call relates a state it starts in to the state it then ends in. -/
def KeepsAt (relation : σ → σ → Prop) (state : σ) (call : EStateM ε σ α) : Prop :=
  relation state (finalState (call state))

/-- A call relates every state it starts in to the state it then ends in. -/
def Keeps (relation : σ → σ → Prop) (call : EStateM ε σ α) : Prop :=
  ∀ state, KeepsAt relation state call

section Keeps

variable {relation : σ → σ → Prop}

theorem Keeps.of_ok {call : EStateM ε σ α} {state after : σ} {value : α}
    (keeps : Keeps relation call) (returned : call state = .ok value after) :
    relation state after := by
  have kept := keeps state
  rw [KeepsAt, returned] at kept
  exact kept

theorem Keeps.of_error {call : EStateM ε σ α} {state after : σ} {failure : ε}
    (keeps : Keeps relation call) (failed : call state = .error failure after) :
    relation state after := by
  have kept := keeps state
  rw [KeepsAt, failed] at kept
  exact kept

theorem Keeps.pure (refl : ∀ state, relation state state) (value : α) :
    Keeps relation (pure value : EStateM ε σ α) := by
  intro state
  exact refl state

theorem Keeps.throw (refl : ∀ state, relation state state) (failure : ε) :
    Keeps relation (throw failure : EStateM ε σ α) := by
  intro state
  exact refl state

theorem Keeps.ofExcept (refl : ∀ state, relation state state) (outcome : Except ε α) :
    Keeps relation (ofExcept outcome : EStateM ε σ α) := by
  cases outcome with
  | ok value => exact .pure refl value
  | error failure => exact .throw refl failure

theorem Keeps.modify {edit : σ → σ} (edited : ∀ state, relation state (edit state)) :
    Keeps relation (modify edit : EStateM ε σ PUnit) := by
  intro state
  exact edited state

theorem Keeps.get (refl : ∀ state, relation state state) :
    Keeps relation (get : EStateM ε σ σ) := by
  intro state
  exact refl state

/-- What is kept holds to every weaker relation. -/
theorem Keeps.mono {weaker : σ → σ → Prop} {call : EStateM ε σ α} (keeps : Keeps relation call)
    (weaken : ∀ before after, relation before after → weaker before after) :
    Keeps weaker call := by
  intro state
  exact weaken _ _ (keeps state)

/-- The rule for a sequence, from one state. -/
theorem KeepsAt.bind {first : EStateM ε σ α} {next : α → EStateM ε σ β} {state : σ}
    (trans : ∀ {before middle after}, relation before middle →
      relation middle after → relation before after)
    (here : KeepsAt relation state first) (rest : ∀ value, Keeps relation (next value)) :
    KeepsAt relation state (first >>= next) := by
  unfold KeepsAt at here ⊢
  rw [bind_run]
  cases ran : first state with
  | ok value middle =>
      rw [ran] at here
      exact trans here (rest value middle)
  | error failure middle =>
      rw [ran] at here
      exact here

theorem Keeps.bind {first : EStateM ε σ α} {next : α → EStateM ε σ β}
    (trans : ∀ {before middle after}, relation before middle →
      relation middle after → relation before after)
    (keeps : Keeps relation first) (rest : ∀ value, Keeps relation (next value)) :
    Keeps relation (first >>= next) := by
  intro state
  exact .bind trans (keeps state) rest

/-- A sequence may use the state it starts in. -/
theorem Keeps.get_bind {next : σ → EStateM ε σ β}
    (rest : ∀ state, KeepsAt relation state (next state)) :
    Keeps relation (MonadState.get >>= next) := by
  intro state
  exact rest state

end Keeps

/-- A call that has one way to fail. -/
def FailsOnly (failure : ε) (call : EStateM ε σ α) : Prop :=
  ∀ state other after, call state = .error other after → other = failure

section FailsOnly

variable {failure : ε}

theorem FailsOnly.pure (value : α) : FailsOnly failure (pure value : EStateM ε σ α) := by
  intro state other after failed
  cases failed

theorem FailsOnly.get : FailsOnly failure (get : EStateM ε σ σ) := by
  intro state other after failed
  cases failed

theorem FailsOnly.modify (edit : σ → σ) :
    FailsOnly failure (modify edit : EStateM ε σ PUnit) := by
  intro state other after failed
  cases failed

theorem FailsOnly.throw : FailsOnly failure (throw failure : EStateM ε σ α) := by
  intro state other after failed
  cases failed
  rfl

theorem FailsOnly.bind {first : EStateM ε σ α} {next : α → EStateM ε σ β}
    (fails : FailsOnly failure first) (rest : ∀ value, FailsOnly failure (next value)) :
    FailsOnly failure (first >>= next) := by
  intro state other after failed
  rw [bind_run] at failed
  cases ran : first state with
  | ok value middle =>
      rw [ran] at failed
      exact rest value middle other after failed
  | error earlier middle =>
      rw [ran] at failed
      cases failed
      exact fails state other after ran

end FailsOnly

/-- A call relates a state it starts in to the state it then ends in, unless it fails
for good. -/
def LeadsAt (fatal : ε → Prop) (relation : σ → σ → Prop) (state : σ) (call : EStateM ε σ α) :
    Prop :=
  (∀ value after, call state = .ok value after → relation state after) ∧
  ∀ failure after, call state = .error failure after → ¬ fatal failure → relation state after

section LeadsAt

variable {fatal : ε → Prop} {relation : σ → σ → Prop}

theorem KeepsAt.leadsAt {call : EStateM ε σ α} {state : σ} (kept : KeepsAt relation state call) :
    LeadsAt fatal relation state call := by
  unfold KeepsAt at kept
  constructor
  · intro value after returned
    rw [returned] at kept
    exact kept
  · intro failure after failed _
    rw [failed] at kept
    exact kept

/-- A sequence in which the second part may use where the first one led to. -/
theorem LeadsAt.bind {first : EStateM ε σ α} {next : α → EStateM ε σ β} {state : σ}
    (trans : ∀ {before middle after}, relation before middle →
      relation middle after → relation before after)
    (here : LeadsAt fatal relation state first)
    (rest : ∀ value middle, first state = .ok value middle →
      LeadsAt fatal relation middle (next value)) :
    LeadsAt fatal relation state (first >>= next) := by
  unfold LeadsAt
  rw [bind_run]
  cases ran : first state with
  | ok value middle =>
      have far := here.1 value middle ran
      obtain ⟨returns, fails⟩ := rest value middle ran
      constructor
      · intro result after returned
        exact trans far (returns result after returned)
      · intro failure after failed mild
        exact trans far (fails failure after failed mild)
  | error failure middle =>
      constructor
      · intro result after impossible
        cases impossible
      · intro other after failed mild
        cases failed
        exact here.2 _ _ ran mild

/-- A sequence may use the state it starts in. -/
theorem LeadsAt.get_bind {next : σ → EStateM ε σ β} {state : σ}
    (rest : LeadsAt fatal relation state (next state)) :
    LeadsAt fatal relation state (MonadState.get >>= next) := rest

end LeadsAt

/-- A call never fails in one way. -/
def Avoids (failure : ε) (call : EStateM ε σ α) : Prop :=
  ∀ state after, call state ≠ .error failure after

section Avoids

variable {failure : ε}

theorem Avoids.pure (value : α) : Avoids failure (pure value : EStateM ε σ α) := by
  intro state after failed
  cases failed

theorem Avoids.get : Avoids failure (get : EStateM ε σ σ) := by
  intro state after failed
  cases failed

theorem Avoids.modify (edit : σ → σ) :
    Avoids failure (modify edit : EStateM ε σ PUnit) := by
  intro state after failed
  cases failed

theorem Avoids.throw {other : ε} (apart : other ≠ failure) :
    Avoids failure (throw other : EStateM ε σ α) := by
  intro state after failed
  cases failed
  exact apart rfl

theorem Avoids.ofExcept {outcome : Except ε α} (apart : outcome ≠ .error failure) :
    Avoids failure (ofExcept outcome : EStateM ε σ α) := by
  cases outcome with
  | ok value => exact .pure value
  | error other => exact .throw fun same => apart (congrArg _ same)

theorem Avoids.bind {first : EStateM ε σ α} {next : α → EStateM ε σ β}
    (avoids : Avoids failure first) (rest : ∀ value, Avoids failure (next value)) :
    Avoids failure (first >>= next) := by
  intro state after failed
  rw [bind_run] at failed
  cases ran : first state with
  | ok value middle =>
      rw [ran] at failed
      exact rest value middle after failed
  | error earlier middle =>
      rw [ran] at failed
      cases failed
      exact avoids state after ran

theorem Avoids.zoom {τ : Type} {view : σ → τ} {put : τ → σ → σ} {call : EStateM ε τ α}
    (avoids : Avoids failure call) : Avoids failure (zoom view put call) := by
  intro state after failed
  rw [Program.zoom] at failed
  cases ran : call (view state) with
  | ok value inner =>
      rw [ran] at failed
      cases failed
  | error other inner =>
      rw [ran] at failed
      cases failed
      exact avoids (view state) inner ran

end Avoids

/-- The outcome of a call, with a change of the state it ends in. -/
def onState (map : σ → σ) : EStateM.Result ε σ α → EStateM.Result ε σ α
  | .ok value state => .ok value (map state)
  | .error failure state => .error failure (map state)

theorem finalState_onState (map : σ → σ) (result : EStateM.Result ε σ α) :
    finalState (onState map result) = map (finalState result) := by
  cases result <;> rfl

/-- A call that does not notice a change of its state. -/
def Commutes (map : σ → σ) (call : EStateM ε σ α) : Prop :=
  ∀ state, call (map state) = onState map (call state)

section Commutes

variable {map : σ → σ}

theorem Commutes.pure (value : α) : Commutes map (pure value : EStateM ε σ α) := fun _ => rfl

theorem Commutes.throw (failure : ε) : Commutes map (throw failure : EStateM ε σ α) :=
  fun _ => rfl

theorem Commutes.modify {edit : σ → σ} (free : ∀ state, edit (map state) = map (edit state)) :
    Commutes map (modify edit : EStateM ε σ PUnit) := by
  intro state
  rw [modify_run, modify_run, free]
  rfl

theorem Commutes.ofExcept (outcome : Except ε α) :
    Commutes map (ofExcept outcome : EStateM ε σ α) := by
  cases outcome with
  | ok value => exact .pure value
  | error failure => exact .throw failure

theorem Commutes.bind {first : EStateM ε σ α} {next : α → EStateM ε σ β}
    (commutes : Commutes map first) (rest : ∀ value, Commutes map (next value)) :
    Commutes map (first >>= next) := by
  intro state
  rw [bind_run, bind_run, commutes state]
  cases first state with
  | ok value middle => exact rest value middle
  | error failure middle => rfl

/-- A sequence may use what the change leaves alone of the state it starts in. -/
theorem Commutes.get_bind {next : σ → EStateM ε σ β}
    (blind : ∀ state, next (map state) = next state) (rest : ∀ state, Commutes map (next state)) :
    Commutes map (MonadState.get >>= next) := by
  intro state
  rw [bind_of_ok (get_run _), bind_of_ok (get_run _), blind]
  exact rest state state

theorem Commutes.zoom {τ : Type} {view : σ → τ} {put : τ → σ → σ} {call : EStateM ε τ α}
    (seen : ∀ state, view (map state) = view state)
    (free : ∀ inner state, put inner (map state) = map (put inner state)) :
    Commutes map (zoom view put call) := by
  intro state
  rw [Program.zoom, Program.zoom, seen]
  cases call (view state) with
  | ok value inner => exact congrArg (EStateM.Result.ok value) (free inner state)
  | error failure inner => exact congrArg (EStateM.Result.error failure) (free inner state)

end Commutes

end Program
