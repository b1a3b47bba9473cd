import Locus.Fault
import Locus.LittleEndian

set_option autoImplicit false

/- buffer/Converter and buffer/Buffer: byte vectors in a list, with their total
size kept beside them. -/
namespace Locus

/-- The bytes of an object of `width` bytes on a little-endian host. -/
def toBytes (width : Nat) (object : Nat) : Bytes := LittleEndian.encode width object

/-- Copy bytes over an object, lowest byte first; the bytes above stay as they were. -/
def fromBytes (bytes object : Bytes) : Bytes := bytes ++ object.drop bytes.length

inductive Buffer.Stage where
  | Empty
  | Full
  | Receiving
  | Sending
  deriving DecidableEq, Repr

structure Buffer where
  buffer : List Bytes := []
  bufferMaxSize : Nat := 0
  bufferSize : Nat := 0
  stage : Buffer.Stage := .Empty
  sized : bufferSize = buffer.flatten.length := by rfl

namespace Buffer

/-- The bytes held, oldest first. -/
def bytes (b : Buffer) : Bytes := b.buffer.flatten

/-- `Buffer()`. -/
def blank : Buffer := {}

@[simp] theorem bytes_blank : blank.bytes = [] := rfl

def setMaxSize (bufferMaxSize : Nat) (b : Buffer) : Buffer := { b with bufferMaxSize }

def size (b : Buffer) : Nat := b.bufferSize

/-- The difference of two `size_t`. -/
def remainingSize (b : Buffer) : Nat := (2 ^ 64 + b.bufferMaxSize - b.bufferSize) % 2 ^ 64

def empty (b : Buffer) : Bool := b.bufferSize = 0

def setStage (stage : Stage) (b : Buffer) : Buffer := { b with stage }

def pushFront (bytes : Bytes) (b : Buffer) : Buffer := { b with
  bufferSize := b.bufferSize + bytes.length
  buffer := bytes :: b.buffer
  sized := by simp [b.sized, Nat.add_comm] }

def pushBack (bytes : Bytes) (b : Buffer) : Buffer := { b with
  bufferSize := b.bufferSize + bytes.length
  buffer := b.buffer ++ [bytes]
  sized := by simp [b.sized] }

/-- `pop()`: the front vector. An empty list has no front. -/
def pop (b : Buffer) : Except Fault (Bytes × Buffer) :=
  if b.size = 0 then .error (.exception "The BlockingBuffer is Empty")
  else match split : b.buffer with
    | [] => .error .undefinedBehaviour
    | front :: rest => .ok (front, { b with
        buffer := rest
        bufferSize := b.bufferSize - front.length
        sized := by simp [b.sized, split] })

/-- The loop of `pop(n)`: whole vectors while they fit, then a part of the next. -/
def popLoop : (left : Nat) → List Bytes → Except Fault (Bytes × List Bytes)
  | 0, chunks => .ok ([], chunks)
  | _ + 1, [] => .error .undefinedBehaviour
  | left + 1, front :: rest =>
      if front.length ≤ left + 1 then
        (popLoop (left + 1 - front.length) rest).map fun (bytes, others) => (front ++ bytes, others)
      else .ok (front.take (left + 1), front.drop (left + 1) :: rest)

/-- What the loop takes and what it leaves are the bytes that were there. -/
theorem popLoop_split {left : Nat} {chunks others : List Bytes} {bytes : Bytes}
    (success : popLoop left chunks = .ok (bytes, others)) :
    chunks.flatten = bytes ++ others.flatten ∧ bytes.length = left := by
  induction chunks generalizing left bytes with
  | nil =>
      cases left with
      | zero =>
          cases success
          exact ⟨rfl, rfl⟩
      | succ left => cases success
  | cons front rest ih =>
      cases left with
      | zero =>
          cases success
          exact ⟨rfl, rfl⟩
      | succ left =>
          simp only [popLoop] at success
          split at success
          · cases tail : popLoop (left + 1 - front.length) rest with
            | error fault =>
                rw [tail] at success
                cases success
            | ok found =>
                rw [tail] at success
                cases success
                obtain ⟨bytes_eq, length_eq⟩ := ih tail
                constructor
                · rw [List.flatten_cons, bytes_eq, List.append_assoc]
                · rw [List.length_append, length_eq]
                  omega
          · cases success
            constructor
            · rw [List.flatten_cons, List.flatten_cons, ← List.append_assoc,
                List.take_append_drop]
            · rw [List.length_take]
              omega

/-- What the loop takes comes first, and what it leaves is the rest. -/
theorem popLoop_cut {left : Nat} {chunks others : List Bytes} {bytes : Bytes}
    (popped : popLoop left chunks = .ok (bytes, others)) :
    chunks.flatten.take left = bytes ∧ chunks.flatten.drop left = others.flatten := by
  obtain ⟨whole, length_eq⟩ := popLoop_split popped
  rw [whole, ← length_eq]
  exact ⟨List.take_left, List.drop_left⟩

theorem popLoop_returns {left : Nat} {chunks : List Bytes}
    (inside : left ≤ chunks.flatten.length) : ∃ found, popLoop left chunks = .ok found := by
  induction chunks generalizing left with
  | nil =>
      have none_left : left = 0 := by simpa using inside
      rw [none_left]
      exact ⟨([], []), rfl⟩
  | cons front rest ih =>
      cases left with
      | zero => exact ⟨([], front :: rest), rfl⟩
      | succ left =>
          simp only [popLoop]
          split
          · have smaller : left + 1 - front.length ≤ rest.flatten.length := by
              rw [List.flatten_cons, List.length_append] at inside
              omega
            obtain ⟨found, tail⟩ := ih smaller
            exact ⟨_, by rw [tail]; rfl⟩
          · exact ⟨_, rfl⟩

/-- `pop(n)`. -/
def popN (n : Nat) (b : Buffer) : Except Fault (Bytes × Buffer) :=
  if n > b.size then
    .error (.exception "The BlockingBuffer has too small number of bytes")
  else match split : popLoop n b.buffer with
    | .error fault => .error fault
    | .ok (bytes, others) => .ok (bytes, { b with
        buffer := others
        bufferSize := b.bufferSize - n
        sized := by
          obtain ⟨whole, length_eq⟩ := popLoop_split split
          rw [b.sized, whole, List.length_append]
          omega })

def popAll (b : Buffer) : Except Fault (Bytes × Buffer) := b.popN b.size

theorem size_eq (b : Buffer) : b.size = b.bytes.length := b.sized

@[simp] theorem bytes_pushFront (bytes : Bytes) (b : Buffer) :
    (b.pushFront bytes).bytes = bytes ++ b.bytes := by
  simp only [Buffer.bytes, pushFront, List.flatten_cons]

@[simp] theorem bytes_pushBack (bytes : Bytes) (b : Buffer) :
    (b.pushBack bytes).bytes = b.bytes ++ bytes := by
  simp [Buffer.bytes, pushBack]

@[simp] theorem bytes_setStage (stage : Stage) (b : Buffer) :
    (b.setStage stage).bytes = b.bytes := rfl

@[simp] theorem bytes_setMaxSize (bufferMaxSize : Nat) (b : Buffer) :
    (b.setMaxSize bufferMaxSize).bytes = b.bytes := rfl

/-- While the size is in bounds the difference does not wrap. -/
theorem remainingSize_eq {b : Buffer} (bounded : b.bufferMaxSize < 2 ^ 64)
    (inside : b.bytes.length ≤ b.bufferMaxSize) :
    b.remainingSize = b.bufferMaxSize - b.bytes.length := by
  rw [remainingSize, b.sized]
  change b.buffer.flatten.length ≤ b.bufferMaxSize at inside
  change _ = b.bufferMaxSize - b.buffer.flatten.length
  omega

/-- Bytes for which there is room take it. -/
theorem remainingSize_pushBack {b : Buffer} {bytes : Bytes}
    (within : bytes.length ≤ b.remainingSize) :
    (b.pushBack bytes).remainingSize = b.remainingSize - bytes.length := by
  simp only [remainingSize, pushBack] at within ⊢
  omega

/-- `pop(n)` cuts the bytes held at `n` and touches nothing else. -/
theorem popN_spec {n : Nat} {b : Buffer} (inside : n ≤ b.bytes.length) :
    ∃ after, b.popN n = .ok (b.bytes.take n, after) ∧ after.bytes = b.bytes.drop n ∧
      after.stage = b.stage ∧ after.bufferMaxSize = b.bufferMaxSize := by
  have enough : ¬ n > b.size := by
    rw [size_eq]
    omega
  have held : n ≤ b.buffer.flatten.length := inside
  obtain ⟨⟨bytes, others⟩, success⟩ := popLoop_returns held
  obtain ⟨first, last⟩ := popLoop_cut success
  simp only [popN, if_neg enough]
  split
  · rename_i fault failed
    rw [success] at failed
    cases failed
  · rename_i bytes' others' same
    rw [success] at same
    cases same
    rw [Buffer.bytes, first, last]
    exact ⟨_, rfl, rfl, rfl, rfl⟩

/-- `popAll` hands over everything and cannot fail. -/
theorem popAll_spec (b : Buffer) :
    ∃ after, b.popAll = .ok (b.bytes, after) ∧ after.bytes = [] ∧
      after.stage = b.stage ∧ after.bufferMaxSize = b.bufferMaxSize := by
  have inside : b.size ≤ b.bytes.length := Nat.le_of_eq (size_eq b)
  obtain ⟨after, success, rest, stage_eq, max_eq⟩ := popN_spec inside
  rw [size_eq, List.take_length] at success
  rw [size_eq, List.drop_length] at rest
  exact ⟨after, by rw [popAll, size_eq, success], rest, stage_eq, max_eq⟩

/-- `pop` of a buffer that holds bytes returns its front vector. -/
theorem pop_spec {b : Buffer} (present : b.bytes ≠ []) :
    ∃ front after, b.pop = .ok (front, after) ∧ b.buffer = front :: after.buffer ∧
      after.stage = b.stage ∧ after.bufferMaxSize = b.bufferMaxSize := by
  have positive : ¬ b.size = 0 := by
    rw [size_eq]
    exact fun zero => present (List.eq_nil_of_length_eq_zero zero)
  simp only [pop, if_neg positive]
  split
  · rename_i none_left
    exact absurd (by rw [Buffer.bytes, none_left]; rfl) present
  · rename_i front rest split
    exact ⟨front, _, rfl, split, rfl, rfl⟩

/-- `pop` leaves the stage alone. -/
theorem pop_stage {b after : Buffer} {front : Bytes} (popped : b.pop = .ok (front, after)) :
    after.stage = b.stage := by
  unfold pop at popped
  split at popped
  · cases popped
  · split at popped
    · cases popped
    · cases popped
      rfl

end Buffer

end Locus
