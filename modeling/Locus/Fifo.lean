import Locus.Transition

set_option autoImplicit false

/- A queue between one side that puts items in and one that takes them out. -/
namespace Fifo

open Transition

variable {α : Type}

inductive Action (α : Type) where
  | enter (item : α)
  | leave (item : α)

def Action.entered : Action α → Option α
  | .enter item => some item
  | .leave _ => none

def Action.left : Action α → Option α
  | .enter _ => none
  | .leave item => some item

/-- Items leave in the order in which they entered, each of them once. -/
inductive Step : List α → Action α → List α → Prop
  | enter {queue : List α} {item : α} : Step queue (.enter item) (queue ++ [item])
  | leave {queue : List α} {item : α} : Step (item :: queue) (.leave item) queue

def entered (actions : List (Action α)) : List α := actions.filterMap Action.entered

def left (actions : List (Action α)) : List α := actions.filterMap Action.left

/-- What has entered is what has left, and then what waits. -/
theorem entered_eq {queue finish : List α} {actions : List (Action α)}
    (run : Run Step queue actions finish) :
    queue ++ entered actions = left actions ++ finish := by
  induction run with
  | nil => exact List.append_nil _
  | snoc earlier last ih =>
      simp only [entered, left, List.filterMap_append] at ih ⊢
      rw [← List.append_assoc, ih]
      cases last with
      | enter => simp [Action.entered, Action.left]
      | leave => simp [Action.entered, Action.left]

end Fifo
