import Locus.Fault

set_option autoImplicit false

/- message/BlockingQueue over its buffer/PipeBuffer. A critical section is one call. -/
namespace Locus

structure BlockingQueue (T : Type) where
  /-- Front first. -/
  queue : List T := []
  /-- The nodes by their addresses, in the order in which the set holds them. -/
  priority : List (Nat × T) := []
  maxQueueSize : Nat := 1000
  /-- The bytes in the pipe. -/
  pipe : Nat := 0

namespace BlockingQueue

open Program

variable {T : Type}

abbrev QueueM (T : Type) := EStateM Fault (BlockingQueue T)

/-- Whether the byte is written is up to the kernel. How many bytes a pipe takes depends on how
they lie in its pages. -/
def pushByteToPipe (written : Bool) : QueueM T Unit := do
  if written then modify fun q => { q with pipe := q.pipe + 1 }
  else throw (.exception "Resource temporarily unavailable")

/-- What a write may come to. An empty pipe takes a byte. -/
def Answers (q : BlockingQueue T) (written : Bool) : Prop := written = true ∨ 0 < q.pipe

instance (q : BlockingQueue T) (written : Bool) : Decidable (q.Answers written) :=
  inferInstanceAs (Decidable (written = true ∨ 0 < q.pipe))

def popByteFromPipe : QueueM T Unit := do
  if 0 < (← get).pipe then modify fun q => { q with pipe := q.pipe - 1 }
  else throw (.exception "Resource temporarily unavailable")

/-- `push` waits for this. -/
def HasRoom (q : BlockingQueue T) : Prop := q.queue.length < q.maxQueueSize

instance (q : BlockingQueue T) : Decidable q.HasRoom :=
  inferInstanceAs (Decidable (q.queue.length < q.maxQueueSize))

def push (written : Bool) (elem : T) : QueueM T Unit := do
  modify fun q => { q with queue := q.queue ++ [elem] }
  pushByteToPipe written

/-- `priority.insert` of a node at an address. -/
def insertNode (address : Nat) (elem : T) : List (Nat × T) → List (Nat × T)
  | [] => [(address, elem)]
  | node :: rest =>
      if address < node.1 then (address, elem) :: node :: rest
      else node :: insertNode address elem rest

/-- The node is new, so its address is not in the set. -/
def priorityPush (written : Bool) (address : Nat) (elem : T) : QueueM T Bool := do
  modify fun q => { q with priority := insertNode address elem q.priority }
  pushByteToPipe written
  return true

def popWithoutBlocking : QueueM T T := do
  let q ← get
  let ret ← match q.priority, q.queue with
    | (_, elem) :: rest, _ => do
        modify fun q => { q with priority := rest }
        pure elem
    | [], elem :: rest => do
        modify fun q => { q with queue := rest }
        pure elem
    | [], [] => throw .undefinedBehaviour
  popByteFromPipe
  return ret

def size (q : BlockingQueue T) : Nat := q.queue.length + q.priority.length

def empty (q : BlockingQueue T) : Bool := q.queue.isEmpty && q.priority.isEmpty

/-- `pop_for(0ms)`. An element made by its default constructor comes back as nothing. -/
def popFor : QueueM T (Option T) := do
  if (← get).empty then return none
  else return some (← popWithoutBlocking)

/-- One element more, with its byte in the pipe if the call returned. -/
def Pushed {α : Type} (before : BlockingQueue T) :
    EStateM.Result Fault (BlockingQueue T) α → Prop
  | .ok _ after => after.size = before.size + 1 ∧ after.pipe = before.pipe + 1
  | .error _ after => after.size = before.size + 1 ∧ after.pipe = before.pipe ∧ 0 < before.pipe

theorem length_insertNode (address : Nat) (elem : T) (nodes : List (Nat × T)) :
    (insertNode address elem nodes).length = nodes.length + 1 := by
  induction nodes with
  | nil => rfl
  | cons node rest ih =>
      unfold insertNode
      split
      · rfl
      · rw [List.length_cons, ih, List.length_cons]

theorem push_run (written : Bool) (elem : T) (q : BlockingQueue T) :
    push written elem q =
      if written then .ok () { q with queue := q.queue ++ [elem], pipe := q.pipe + 1 }
      else .error (.exception "Resource temporarily unavailable")
        { q with queue := q.queue ++ [elem] } := by
  cases written <;> rfl

theorem priorityPush_run (written : Bool) (address : Nat) (elem : T) (q : BlockingQueue T) :
    priorityPush written address elem q =
      if written then .ok true
        { q with priority := insertNode address elem q.priority, pipe := q.pipe + 1 }
      else .error (.exception "Resource temporarily unavailable")
        { q with priority := insertNode address elem q.priority } := by
  cases written <;> rfl

@[simp] theorem size_push (written : Bool) (elem : T) (q : BlockingQueue T) :
    (finalState (push written elem q)).size = q.size + 1 := by
  have longer : (q.queue ++ [elem]).length + q.priority.length = q.size + 1 := by
    rw [List.length_append, List.length_singleton, size]
    omega
  cases written <;> exact longer

@[simp] theorem size_priorityPush (written : Bool) (address : Nat) (elem : T)
    (q : BlockingQueue T) :
    (finalState (priorityPush written address elem q)).size = q.size + 1 := by
  have longer : q.queue.length + (insertNode address elem q.priority).length = q.size + 1 := by
    rw [length_insertNode, size]
    omega
  cases written <;> exact longer

theorem pushed_push {written : Bool} (elem : T) {q : BlockingQueue T}
    (answers : q.Answers written) : q.Pushed (push written elem q) := by
  have longer := size_push written elem q
  cases written with
  | true => exact ⟨longer, rfl⟩
  | false => exact ⟨longer, rfl, answers.resolve_left Bool.false_ne_true⟩

theorem pushed_priorityPush {written : Bool} (address : Nat) (elem : T) {q : BlockingQueue T}
    (answers : q.Answers written) : q.Pushed (priorityPush written address elem q) := by
  have longer := size_priorityPush written address elem q
  cases written with
  | true => exact ⟨longer, rfl⟩
  | false => exact ⟨longer, rfl, answers.resolve_left Bool.false_ne_true⟩

theorem empty_iff (q : BlockingQueue T) : q.empty = true ↔ q.size = 0 := by
  simp [empty, size]

/-- The element that a pop takes, and what it leaves. -/
def next (q : BlockingQueue T) : Option (T × BlockingQueue T) :=
  match q.priority, q.queue with
  | (_, elem) :: rest, _ => some (elem, { q with priority := rest })
  | [], elem :: rest => some (elem, { q with queue := rest })
  | [], [] => none

theorem next_eq_none {q : BlockingQueue T} (nothing : q.next = none) : q.size = 0 := by
  unfold next at nothing
  split at nothing
  · cases nothing
  · cases nothing
  · rename_i priority queue
    simp [size, priority, queue]

theorem next_size {q left : BlockingQueue T} {elem : T} (taken : q.next = some (elem, left)) :
    q.size = left.size + 1 ∧ left.pipe = q.pipe := by
  unfold next at taken
  split at taken
  · rename_i priority
    cases taken
    refine ⟨?_, rfl⟩
    simp only [size, priority, List.length_cons]
    omega
  · rename_i priority queue
    cases taken
    refine ⟨?_, rfl⟩
    simp only [size, queue, priority, List.length_cons]
    omega
  · cases taken

/-- A pop takes an element and a byte. Without a byte it loses the element. -/
theorem popFor_some {q left : BlockingQueue T} {elem : T} (taken : q.next = some (elem, left)) :
    popFor q =
      if 0 < q.pipe then .ok (some elem) { left with pipe := q.pipe - 1 }
      else .error (.exception "Resource temporarily unavailable") left := by
  have some_left : ¬ q.empty = true := by
    rw [empty_iff]
    have counted := (next_size taken).1
    omega
  simp only [popFor, popWithoutBlocking, bind_run, get_run, if_neg some_left]
  unfold next at taken
  split at taken
  · rename_i priority
    cases taken
    simp only [priority, bind_run, modify_run, pure_run, popByteFromPipe, get_run]
    by_cases byte : 0 < q.pipe
    · simp only [if_pos byte]
      rfl
    · simp only [if_neg byte]
      rfl
  · rename_i priority queue
    cases taken
    simp only [priority, queue, bind_run, modify_run, pure_run, popByteFromPipe, get_run]
    by_cases byte : 0 < q.pipe
    · simp only [if_pos byte]
      rfl
    · simp only [if_neg byte]
      rfl
  · cases taken

theorem popFor_none {q : BlockingQueue T} (nothing : q.next = none) :
    popFor q = .ok none q := by
  have drained : q.empty = true := (empty_iff q).mpr (next_eq_none nothing)
  simp only [popFor, bind_run, get_run, if_pos drained]
  rfl

/-- A pop takes one element, if there is one, and leaves no more bytes than elements. -/
theorem popFor_spec (q : BlockingQueue T) :
    (finalState (popFor q)).size = q.size - 1 ∧
      (q.pipe ≤ q.size → (finalState (popFor q)).pipe ≤ (finalState (popFor q)).size) := by
  cases taken : q.next with
  | none =>
      have nothing := next_eq_none taken
      rw [popFor_none taken]
      refine ⟨?_, fun fits => fits⟩
      change q.size = q.size - 1
      omega
  | some pair =>
      obtain ⟨elem, left⟩ := pair
      obtain ⟨counted, pipe_eq⟩ := next_size taken
      rw [popFor_some taken]
      split
      · refine ⟨?_, ?_⟩
        · change left.size = q.size - 1
          omega
        · intro fits
          change q.pipe - 1 ≤ left.size
          omega
      · refine ⟨?_, ?_⟩
        · change left.size = q.size - 1
          omega
        · intro fits
          change left.pipe ≤ left.size
          omega

/-- An element was taken: the first node of the set, or the front of the queue. -/
def Popped (before : BlockingQueue T) (elem : T) (after : BlockingQueue T) : Prop :=
  (∃ address, before.priority = (address, elem) :: after.priority ∧
    after.queue = before.queue) ∨
  (before.priority = [] ∧ after.priority = [] ∧ before.queue = elem :: after.queue)

theorem next_popped {q left : BlockingQueue T} {elem : T} (taken : q.next = some (elem, left)) :
    q.Popped elem left := by
  unfold next at taken
  split at taken
  · rename_i priority
    cases taken
    exact .inl ⟨_, priority, rfl⟩
  · rename_i priority queue
    cases taken
    exact .inr ⟨priority, priority, queue⟩
  · cases taken

theorem popped_of_popFor {q after : BlockingQueue T} {elem : T}
    (popped : popFor q = .ok (some elem) after) : q.Popped elem after := by
  cases taken : q.next with
  | none =>
      rw [popFor_none taken] at popped
      cases popped
  | some pair =>
      rw [popFor_some taken] at popped
      split at popped
      · cases popped
        have gone : q.Popped pair.1 pair.2 := next_popped taken
        exact gone
      · cases popped

theorem eq_of_popFor {q after : BlockingQueue T} (nothing : popFor q = .ok none after) :
    after = q := by
  cases taken : q.next with
  | none =>
      rw [popFor_none taken] at nothing
      cases nothing
      rfl
  | some pair =>
      rw [popFor_some taken] at nothing
      split at nothing <;> cases nothing

/-- A pop that throws has taken an element all the same. -/
theorem popped_of_failed {q after : BlockingQueue T} {fault : Fault}
    (failed : popFor q = .error fault after) : ∃ elem, q.Popped elem after := by
  cases taken : q.next with
  | none =>
      rw [popFor_none taken] at failed
      cases failed
  | some pair =>
      rw [popFor_some taken] at failed
      split at failed
      · cases failed
      · cases failed
        exact ⟨pair.1, next_popped taken⟩

theorem push_state (written : Bool) (elem : T) (q : BlockingQueue T) :
    (finalState (push written elem q)).queue = q.queue ++ [elem] ∧
      (finalState (push written elem q)).priority = q.priority := by
  rw [push_run]
  split <;> exact ⟨rfl, rfl⟩

theorem priorityPush_state (written : Bool) (address : Nat) (elem : T) (q : BlockingQueue T) :
    (finalState (priorityPush written address elem q)).queue = q.queue ∧
      (finalState (priorityPush written address elem q)).priority =
        insertNode address elem q.priority := by
  rw [priorityPush_run]
  split <;> exact ⟨rfl, rfl⟩

theorem mem_insertNode {address : Nat} {elem : T} {nodes : List (Nat × T)} {node : Nat × T} :
    node ∈ insertNode address elem nodes ↔ node = (address, elem) ∨ node ∈ nodes := by
  induction nodes with
  | nil => simp [insertNode]
  | cons first rest ih =>
      unfold insertNode
      split
      · rw [List.mem_cons]
      · rw [List.mem_cons, ih, List.mem_cons, or_left_comm]

end BlockingQueue

end Locus
