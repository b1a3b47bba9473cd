import Locus.Program

set_option autoImplicit false

namespace Locus

/-- Byte vectors, and the contents of `std::string`. -/
abbrev Bytes := List UInt8

/-- How a call fails to return. Handlers catch `std::exception` only: after
undefined behaviour nothing more is known, and a diverging call never comes back. -/
inductive Fault where
  | exception (what : String)
  | undefinedBehaviour
  | nonTermination
  deriving DecidableEq, Repr

variable {σ : Type}

/-- What a `try` block makes of the result of its body. -/
def settle (handler : EStateM Fault σ Unit) (result : EStateM.Result Fault σ Unit) :
    EStateM.Result Fault σ Unit :=
  match result with
  | .ok value after => .ok value after
  | .error (.exception _) after => handler after
  | .error .undefinedBehaviour after => .error .undefinedBehaviour after
  | .error .nonTermination after => .error .nonTermination after

/-- `try { body } catch (std::exception &e) { handler }`. -/
def catching (body handler : EStateM Fault σ Unit) : EStateM Fault σ Unit := fun state =>
  settle handler (body state)

theorem catching_keeps {relation : σ → σ → Prop} {body handler : EStateM Fault σ Unit}
    (trans : ∀ {before middle after}, relation before middle →
      relation middle after → relation before after)
    (keeps : Program.Keeps relation body) (handles : Program.Keeps relation handler) :
    Program.Keeps relation (catching body handler) := by
  intro state
  have kept := keeps state
  unfold Program.KeepsAt catching at *
  cases ran : body state with
  | ok value after =>
      rw [ran] at kept
      exact kept
  | error fault after =>
      rw [ran] at kept
      cases fault with
      | exception what => exact trans kept (handles after)
      | undefinedBehaviour | nonTermination => exact kept

end Locus
