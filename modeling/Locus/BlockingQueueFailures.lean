import Locus.BlockingQueueTraffic

set_option autoImplicit false

/- What is left of a BlockingQueue when a write to its pipe fails. -/
namespace Locus.BlockingQueue

open Program Transition

variable {T : Type}

/-- A critical section, with what its write to the pipe comes to. `priorityPush` allocates its node
at an address. -/
inductive Section (T : Type) where
  | push (written : Bool) (elem : T)
  | priorityPush (written : Bool) (address : Nat) (elem : T)
  | pop
  deriving DecidableEq, Repr

namespace Section

/-- The element that was popped, if any. -/
def run : Section T → QueueM T (Option T)
  | .push written elem => do
      BlockingQueue.push written elem
      return none
  | .priorityPush written address elem => do
      let _ ← BlockingQueue.priorityPush written address elem
      return none
  | .pop => popFor

/-- `push` has waited for room, and a new node is at an address of its own. -/
def Ready (q : BlockingQueue T) : Section T → Prop
  | .push written _ => q.HasRoom ∧ q.Answers written
  | .priorityPush written address _ =>
      (∀ node ∈ q.priority, node.1 ≠ address) ∧ q.Answers written
  | .pop => True

/-- The write to the pipe fails. -/
def Fails : Section T → Prop
  | .push written _ | .priorityPush written _ _ => written = false
  | .pop => False

end Section

/-- A critical section, whether it returns or throws. -/
def Step (before : BlockingQueue T) (event : Section T × Except Fault (Option T))
    (after : BlockingQueue T) : Prop :=
  event.1.Ready before ∧ Yields event.1.run before event.2 after

/-- A failed write throws and leaves the queue as it was, so that each element keeps its byte and
no pop loses one. -/
structure Whole (before : BlockingQueue T) (event : Section T × Except Fault (Option T))
    (after : BlockingQueue T) : Prop where
  throws : event.1.Fails → ∃ what, event.2 = .error (.exception what)
  unchanged : event.1.Fails → after = before
  piped : after.Piped
  pops : event.1 = .pop → ∀ fault, event.2 ≠ .error fault

section Steps

variable {before after : BlockingQueue T} {reply : Except Fault (Option T)}

/-- A push that fails makes the queue longer all the same. -/
theorem not_whole_of_failed {call : Section T} (fails : call.Fails)
    (longer : after.size = before.size + 1) : ¬ Whole before (call, reply) after := by
  intro whole
  have same : after = before := whole.unchanged fails
  rw [same] at longer
  omega

/-- A push that writes its byte keeps the bytes and the elements together. -/
theorem whole_of_written {call : Section T} (piped : before.Piped) (succeeds : ¬ call.Fails)
    (pushes : call ≠ .pop) (longer : after.size = before.size + 1)
    (byte : after.pipe = before.pipe + 1) : Whole before (call, reply) after ∧ after.Piped := by
  have kept : after.Piped := by
    have count : before.pipe = before.size := piped
    change after.pipe = after.size
    omega
  exact ⟨⟨fun fails => absurd fails succeeds, fun fails => absurd fails succeeds, kept,
    fun popped => absurd popped pushes⟩, kept⟩

/-- While there is a byte for each element a pop gives one of each. -/
theorem whole_of_popped (piped : before.Piped) (step : Step before (.pop, reply) after) :
    Whole before (.pop, reply) after ∧ after.Piped := by
  obtain ⟨-, replied, reached⟩ := step
  change reply = outcome (popFor before) at replied
  change after = finalState (popFor before) at reached
  have kept : after.Piped ∧ ∀ fault, reply ≠ .error fault := by
    cases ran : popFor before with
    | error fault state => exact absurd ran piped.popFor_ok
    | ok found state =>
        rw [ran] at replied reached
        refine ⟨?_, fun fault failed => by rw [replied] at failed; cases failed⟩
        rw [reached]
        cases found with
        | none =>
            have same : state = before := eq_of_popFor ran
            rw [finalState, same]
            exact piped
        | some elem =>
            have takes := takes_of_popFor ran
            have count : before.pipe = before.queue.length + before.priority.length := piped
            have one_byte : before.pipe = state.pipe + 1 := takes.pipe
            change state.pipe = state.queue.length + state.priority.length
            rcases takes.cases with ⟨-, same, address, first⟩ | ⟨-, drained, still, front⟩
            · rw [first, List.length_cons, ← same] at count
              omega
            · rw [drained, front, List.length_cons, List.length_nil] at count
              rw [still, List.length_nil]
              omega
  exact ⟨⟨fun fails => fails.elim, fun fails => fails.elim, kept.1, fun _ => kept.2⟩, kept.1⟩

theorem step_whole {event : Section T × Except Fault (Option T)} (piped : before.Piped)
    (step : Step before event after) :
    (Whole before event after ↔ ¬ event.1.Fails) ∧ (¬ event.1.Fails → after.Piped) := by
  obtain ⟨call, reply⟩ := event
  have reached : after = finalState (call.run before) := step.2.2
  have of_written : Whole before (call, reply) after ∧ after.Piped → ¬ call.Fails →
      (Whole before (call, reply) after ↔ ¬ call.Fails) ∧ (¬ call.Fails → after.Piped) :=
    fun held succeeds => ⟨iff_of_true held.1 succeeds, fun _ => held.2⟩
  have of_failed : after.size = before.size + 1 → call.Fails →
      (Whole before (call, reply) after ↔ ¬ call.Fails) ∧ (¬ call.Fails → after.Piped) :=
    fun longer fails => ⟨iff_of_false (not_whole_of_failed fails longer) (not_not_intro fails),
      fun succeeds => absurd fails succeeds⟩
  cases call with
  | push written elem =>
      cases written with
      | true =>
          have longer : after.size = before.size + 1 := reached ▸ size_push true elem before
          have byte : after.pipe = before.pipe + 1 := by
            rw [reached]
            rfl
          exact of_written (whole_of_written piped nofun nofun longer byte) nofun
      | false => exact of_failed (reached ▸ size_push false elem before) rfl
  | priorityPush written address elem =>
      cases written with
      | true =>
          have longer : after.size = before.size + 1 :=
            reached ▸ size_priorityPush true address elem before
          have byte : after.pipe = before.pipe + 1 := by
            rw [reached]
            rfl
          exact of_written (whole_of_written piped nofun nofun longer byte) nofun
      | false => exact of_failed (reached ▸ size_priorityPush false address elem before) rfl
  | pop => exact of_written (whole_of_popped piped step) fun fails => fails

end Steps

/-- An empty queue. -/
def drained (maxQueueSize : Nat) : BlockingQueue T := { maxQueueSize }

/-- The elements and the bytes stay together in the runs in which no write to the pipe fails, and
in no others. -/
theorem whole_iff (maxQueueSize : Nat) (events : List (Section T × Except Fault (Option T))) :
    Always Step (drained maxQueueSize) Whole events ↔
      Always Step (drained maxQueueSize) (fun _ event _ => ¬ event.1.Fails) events := by
  apply always_iff_of_invariant (show (drained maxQueueSize).Piped from rfl)
  · intro before event after piped step
    exact (step_whole piped step).1
  · intro before event after piped step
    exact (step_whole piped step).2

section Flood

def refused : Except Fault (Option Nat) :=
  .error (.exception "Resource temporarily unavailable")

/-- Messages whose bytes the pipe takes. -/
def fills (bytes : Nat) : List (Section Nat × Except Fault (Option Nat)) :=
  (List.range bytes).map fun number => (.priorityPush true number number, .ok none)

/-- The queue after them. -/
def filled (bytes : Nat) : BlockingQueue Nat :=
  { drained 1000 with
    priority := (List.range bytes).map fun number => (number, number)
    pipe := bytes }

/-- As many messages as the pipe takes and one more, and all of them are taken out again. -/
def flood (bytes : Nat) : List (Section Nat × Except Fault (Option Nat)) :=
  fills bytes ++ (.priorityPush false bytes bytes, refused) ::
    ((List.range bytes).map fun number => (.pop, .ok (some number))) ++ [(.pop, refused)]

theorem insertNode_last {address : Nat} {elem : T} {nodes : List (Nat × T)}
    (later : ∀ node ∈ nodes, node.1 < address) :
    insertNode address elem nodes = nodes ++ [(address, elem)] := by
  induction nodes with
  | nil => rfl
  | cons node rest ih =>
      have before := later node List.mem_cons_self
      rw [insertNode, if_neg (by omega), List.cons_append,
        ih fun other member => later other (List.mem_cons_of_mem _ member)]

theorem filled_below {bytes : Nat} : ∀ node ∈ (filled bytes).priority, node.1 < bytes := by
  intro node member
  obtain ⟨number, below, rfl⟩ := List.mem_map.mp member
  exact List.mem_range.mp below

theorem insertNode_filled (bytes : Nat) :
    insertNode bytes bytes (filled bytes).priority = (filled (bytes + 1)).priority := by
  rw [insertNode_last filled_below]
  simp only [filled, List.range_succ, List.map_append, List.map_singleton]

theorem fills_run (bytes : Nat) : Run Step (drained 1000) (fills bytes) (filled bytes) := by
  induction bytes with
  | zero => exact .nil
  | succ bytes ih =>
      have grown : fills (bytes + 1) =
          fills bytes ++ [(.priorityPush true bytes bytes, .ok none)] := by
        simp only [fills, List.range_succ, List.map_append, List.map_singleton]
      have state : { filled bytes with
          priority := insertNode bytes bytes (filled bytes).priority, pipe := bytes + 1 } =
            filled (bytes + 1) := by
        rw [insertNode_filled]
        rfl
      have fresh : ∀ node ∈ (filled bytes).priority, node.1 ≠ bytes :=
        fun node member => Nat.ne_of_lt (filled_below node member)
      rw [grown]
      exact Run.snoc_iff.mpr ⟨_, ih, ⟨fresh, .inl rfl⟩, rfl, state.symm⟩

/-- Each pop finds the byte of an element, as long as there is one. -/
theorem empties_run (numbers : List Nat) (last : Nat) :
    Run Step { drained 1000 with
        priority := (numbers ++ [last]).map fun number => (number, number)
        pipe := numbers.length }
      (numbers.map fun number => (.pop, .ok (some number)))
      { drained 1000 with priority := [(last, last)] } := by
  induction numbers with
  | nil => exact .nil
  | cons number rest ih => exact .cons ⟨trivial, rfl, rfl⟩ ih

/-- The failed push leaves its message, and the last pop loses it. -/
theorem flood_run {bytes : Nat} (some : 0 < bytes) :
    ∃ earlier, Run Step (drained 1000) (fills bytes ++ (.priorityPush false bytes bytes, refused) ::
        (List.range bytes).map fun number => (.pop, .ok (.some number))) earlier ∧
      Step earlier (.pop, refused) (drained 1000) := by
  have refuses : Step (filled bytes) (.priorityPush false bytes bytes, refused)
      { filled bytes with priority := (filled (bytes + 1)).priority } := by
    refine ⟨⟨fun node member => Nat.ne_of_lt (filled_below node member), .inr some⟩, rfl, ?_⟩
    rw [← insertNode_filled]
    rfl
  have empties := empties_run (List.range bytes) bytes
  rw [← List.range_succ, List.length_range] at empties
  exact ⟨_, (fills_run bytes).append (.cons refuses empties), trivial, rfl, rfl⟩

theorem flood_not_whole : ¬ Always Step (drained 1000) Whole (flood 65536) := by
  obtain ⟨earlier, run, last⟩ := flood_run (show 0 < 65536 by decide)
  intro whole
  exact (whole _ _ [] _ _ rfl run last).pops rfl _ rfl

end Flood

end Locus.BlockingQueue
