import Locus.Buffer
import Locus.Transition

set_option autoImplicit false

/- Buffer as a deque of bytes, with the int counters that pop(n) copies by. -/
namespace Locus.Buffer

open Transition

/-- The largest `int`. -/
def intMax : Nat := 2 ^ 31 - 1

/-- `for (int i = 0; i < count; ++i)` over the bytes of a vector. The increment of the largest
`int` is undefined. -/
def copyLoop (count : Nat) : (i : Nat) → Bytes → Except Fault Bytes
  | i, [] => if i < count then .error .undefinedBehaviour else .ok []
  | i, byte :: rest =>
      if i < count then
        if i = intMax then .error .undefinedBehaviour
        else (copyLoop count (i + 1) rest).map (byte :: ·)
      else .ok []

/-- The loop of `pop(n)`, with its counters. Each turn takes a vector off the list or ends it. -/
def countedLoop : (left : Nat) → List Bytes → Except Fault (Bytes × List Bytes)
  | 0, chunks => .ok ([], chunks)
  | _ + 1, [] => .error .undefinedBehaviour
  | left + 1, front :: rest =>
      if front.length ≤ left + 1 then do
        let bytes ← copyLoop front.length 0 front
        let (others, kept) ← countedLoop (left + 1 - front.length) rest
        return (bytes ++ others, kept)
      else do
        let bytes ← copyLoop (left + 1) 0 front
        return (bytes, front.drop (left + 1) :: rest)

/-- How many bytes are copied out of each vector. -/
def copies : (left : Nat) → List Bytes → List Nat
  | _, [] => []
  | left, front :: rest => min front.length left :: copies (left - front.length) rest

/-- No vector gives more bytes than an `int` can count. -/
def Countable (n : Nat) (chunks : List Bytes) : Prop := ∀ count ∈ copies n chunks, count ≤ intMax

instance (n : Nat) (chunks : List Bytes) : Decidable (Countable n chunks) :=
  inferInstanceAs (Decidable (∀ count ∈ copies n chunks, count ≤ intMax))

theorem copyLoop_eq {count : Nat} {bytes : Bytes} {i : Nat} (started : i ≤ count)
    (inside : count ≤ i + bytes.length) (countable : i ≤ intMax) :
    copyLoop count i bytes =
      if count ≤ intMax then .ok (bytes.take (count - i)) else .error .undefinedBehaviour := by
  induction bytes generalizing i with
  | nil =>
      rw [List.length_nil] at inside
      rw [copyLoop, if_neg (show ¬ i < count by omega), if_pos (show count ≤ intMax by omega),
        List.take_nil]
  | cons byte rest ih =>
      rw [List.length_cons] at inside
      unfold copyLoop
      by_cases done : i = count
      · rw [if_neg (show ¬ i < count by omega), if_pos (show count ≤ intMax by omega), done,
          Nat.sub_self, List.take_zero]
      · rw [if_pos (show i < count by omega)]
        by_cases last : i = intMax
        · rw [if_pos last, if_neg (show ¬ count ≤ intMax by omega)]
        · rw [if_neg last, ih (by omega) (by omega) (by omega)]
          by_cases fits : count ≤ intMax
          · rw [if_pos fits, if_pos fits, show count - i = count - (i + 1) + 1 by omega]
            rfl
          · rw [if_neg fits, if_neg fits]
            rfl

theorem countable_zero (chunks : List Bytes) : Countable 0 chunks := by
  induction chunks with
  | nil => simp [Countable, copies]
  | cons front rest ih => simpa [Countable, copies] using ih

theorem countable_cons {left : Nat} {front : Bytes} {rest : List Bytes} :
    Countable left (front :: rest) ↔
      min front.length left ≤ intMax ∧ Countable (left - front.length) rest := by
  simp [Countable, copies]

/-- A pop of less than 2 GiB counts to them, in whatever vectors they are. -/
theorem countable_of_few {n : Nat} (few : n ≤ intMax) (chunks : List Bytes) :
    Countable n chunks := by
  induction chunks generalizing n with
  | nil => simp [Countable, copies]
  | cons front rest ih => exact countable_cons.mpr ⟨by omega, ih (by omega)⟩

/-- To take out everything each vector is copied to its end. -/
theorem countable_total (chunks : List Bytes) :
    Countable chunks.flatten.length chunks ↔ ∀ chunk ∈ chunks, chunk.length ≤ intMax := by
  induction chunks with
  | nil => simp [Countable, copies]
  | cons front rest ih =>
      rw [List.flatten_cons, List.length_append, countable_cons, Nat.add_sub_cancel_left, ih,
        List.forall_mem_cons, Nat.min_eq_left (by omega)]

/-- The loop with its counters is the loop without them, while they count. -/
theorem countedLoop_eq {chunks : List Bytes} {left : Nat}
    (inside : left ≤ chunks.flatten.length) :
    countedLoop left chunks =
      if Countable left chunks then popLoop left chunks else .error .undefinedBehaviour := by
  induction chunks generalizing left with
  | nil =>
      have none_left : left = 0 := by simpa using inside
      rw [none_left, if_pos (by simp [Countable, copies])]
      rfl
  | cons front rest ih =>
      cases left with
      | zero =>
          rw [if_pos (countable_zero _)]
          rfl
      | succ left =>
          rw [List.flatten_cons, List.length_append] at inside
          unfold countedLoop popLoop
          by_cases whole : front.length ≤ left + 1
          · rw [if_pos whole, if_pos whole, copyLoop_eq (Nat.zero_le _) (by omega) (by omega),
              ih (by omega)]
            simp only [countable_cons, Nat.min_eq_left whole]
            by_cases short : front.length ≤ intMax
            · by_cases others : Countable (left + 1 - front.length) rest
              · simp only [short, others, and_self, if_true, Nat.sub_zero, List.take_length]
                cases popLoop (left + 1 - front.length) rest <;> rfl
              · simp only [short, others, and_false, if_true, if_false]
                rfl
            · simp only [short, false_and, if_false]
              rfl
          · have none_left : left + 1 - front.length = 0 := by omega
            have part : min front.length (left + 1) = left + 1 := by omega
            rw [if_neg whole, if_neg whole, copyLoop_eq (Nat.zero_le _) (by omega) (by omega)]
            simp only [countable_cons, none_left, part, countable_zero, and_true]
            by_cases short : left + 1 ≤ intMax
            · rw [if_pos short, if_pos short]
              rfl
            · rw [if_neg short, if_neg short]
              rfl

/-- A call of a buffer. One that throws leaves the state it has made. -/
abbrev BufferM := EStateM Fault Buffer

/-- What the loop takes and leaves are the bytes that were there. -/
theorem countedLoop_ok {n : Nat} {chunks others : List Bytes} {bytes : Bytes}
    (inside : n ≤ chunks.flatten.length) (returned : countedLoop n chunks = .ok (bytes, others)) :
    chunks.flatten = bytes ++ others.flatten ∧ bytes.length = n := by
  rw [countedLoop_eq inside] at returned
  split at returned
  · exact popLoop_split returned
  · cases returned

/-- `pop(n)`, with its counters. -/
def countedPopN (n : Nat) : BufferM Bytes := fun b =>
  if outside : n > b.size then
    .error (.exception "The BlockingBuffer has too small number of bytes") b
  else match split : countedLoop n b.buffer with
    | .ok (bytes, others) => .ok bytes { b with
        buffer := others
        bufferSize := b.bufferSize - n
        sized := by
          obtain ⟨whole, length_eq⟩ :=
            countedLoop_ok (Nat.not_lt.mp (b.sized ▸ outside)) split
          rw [b.sized, whole, List.length_append]
          omega }
    | .error fault => .error fault b

def countedPopAll : BufferM Bytes := fun b => countedPopN b.size b

inductive Op where
  | pushFront (bytes : Bytes)
  | pushBack (bytes : Bytes)
  | pop
  | popN (n : Nat)
  | popAll
  deriving DecidableEq, Repr

/-- What a call hands back: some bytes, nothing, or how it failed. -/
abbrev Reply := Except Fault (Option Bytes)

/-- `pop()` throws before it changes anything. -/
def run : Op → BufferM (Option Bytes)
  | .pushFront bytes => do
      modify (·.pushFront bytes)
      return none
  | .pushBack bytes => do
      modify (·.pushBack bytes)
      return none
  | .pop => fun b =>
      match b.pop with
      | .ok (front, after) => .ok (some front) after
      | .error fault => .error fault b
  | .popN n => some <$> countedPopN n
  | .popAll => some <$> countedPopAll

/-- A call, whether it returns or not. -/
def Step (before : Buffer) (event : Op × Reply) (after : Buffer) : Prop :=
  Program.Yields (run event.1) before event.2 after

/-- What a deque does that holds these bytes. -/
inductive Deque (held : Bytes) : Op → Reply → Bytes → Prop
  | pushFront {bytes : Bytes} : Deque held (.pushFront bytes) (.ok none) (bytes ++ held)
  | pushBack {bytes : Bytes} : Deque held (.pushBack bytes) (.ok none) (held ++ bytes)
  | pop {front rest : Bytes} (present : held ≠ []) (split : held = front ++ rest) :
      Deque held .pop (.ok (some front)) rest
  | popThrows {what : String} (empty : held = []) :
      Deque held .pop (.error (.exception what)) held
  | popN {n : Nat} (inside : n ≤ held.length) :
      Deque held (.popN n) (.ok (some (held.take n))) (held.drop n)
  | popNThrows {n : Nat} {what : String} (outside : held.length < n) :
      Deque held (.popN n) (.error (.exception what)) held
  | popAll : Deque held .popAll (.ok (some held)) []

/-- A step of the buffer is one of the deque of its bytes, and a call that throws changes
nothing. -/
structure Refines (before : Buffer) (event : Op × Reply) (after : Buffer) : Prop where
  size : after.size = after.bytes.length
  deque : Deque before.bytes event.1 event.2 after.bytes
  unchanged : ∀ fault, event.2 = .error fault → after = before

/-- A pop of some number of bytes counts to them. -/
def Counts (before : Buffer) : Op → Prop
  | .pushFront _ | .pushBack _ | .pop => True
  | .popN n => n ≤ before.size → Countable n before.buffer
  | .popAll => Countable before.size before.buffer

theorem countedPopN_outside {n : Nat} {b : Buffer} (outside : b.size < n) :
    countedPopN n b =
      .error (.exception "The BlockingBuffer has too small number of bytes") b := by
  rw [countedPopN, dif_pos outside]

/-- A vector that is too long is copied into the overflow of the counter. -/
theorem countedPopN_overflow {n : Nat} {b : Buffer} (inside : n ≤ b.size)
    (long : ¬ Countable n b.buffer) : countedPopN n b = .error .undefinedBehaviour b := by
  have held : n ≤ b.buffer.flatten.length := b.sized ▸ inside
  have looped := countedLoop_eq held
  rw [if_neg long] at looped
  rw [countedPopN, dif_neg (Nat.not_lt.mpr inside)]
  split
  · rename_i bytes others returned
    rw [looped] at returned
    cases returned
  · rename_i fault failed
    rw [looped] at failed
    cases failed
    rfl

/-- Otherwise the bytes held are cut at `n`. -/
theorem countedPopN_returns {n : Nat} {b : Buffer} (inside : n ≤ b.size)
    (short : Countable n b.buffer) :
    ∃ after, countedPopN n b = .ok (b.bytes.take n) after ∧ after.bytes = b.bytes.drop n := by
  have held : n ≤ b.buffer.flatten.length := b.sized ▸ inside
  have looped := countedLoop_eq held
  rw [if_pos short] at looped
  obtain ⟨⟨bytes, others⟩, popped⟩ := popLoop_returns held
  obtain ⟨first, last⟩ := popLoop_cut popped
  rw [popped] at looped
  simp only [countedPopN, dif_neg (Nat.not_lt.mpr inside)]
  split
  · rename_i bytes' others' returned
    rw [looped] at returned
    cases returned
    rw [Buffer.bytes, first, last]
    exact ⟨_, rfl, rfl⟩
  · rename_i fault failed
    rw [looped] at failed
    cases failed

/-- A pop that counts to its bytes is the one without counters. -/
theorem countedPopN_eq {n : Nat} {b : Buffer} (counts : n ≤ b.size → Countable n b.buffer) :
    countedPopN n b =
      match b.popN n with
      | .ok (bytes, after) => .ok bytes after
      | .error fault => .error fault b := by
  by_cases inside : n ≤ b.size
  · have held : n ≤ b.buffer.flatten.length := b.sized ▸ inside
    have looped := countedLoop_eq held
    obtain ⟨⟨bytes, others⟩, popped⟩ := popLoop_returns held
    rw [if_pos (counts inside), popped] at looped
    have plain : b.popN n = .ok (bytes, { b with
        buffer := others
        bufferSize := b.bufferSize - n
        sized := by
          obtain ⟨whole, length_eq⟩ := popLoop_split popped
          rw [b.sized, whole, List.length_append]
          omega }) := by
      simp only [popN, if_neg (Nat.not_lt.mpr inside)]
      split
      · rename_i fault failed
        rw [popped] at failed
        cases failed
      · rename_i bytes' others' same
        rw [popped] at same
        cases same
        rfl
    rw [plain]
    simp only [countedPopN, dif_neg (Nat.not_lt.mpr inside)]
    split
    · rename_i bytes' others' returned
      rw [looped] at returned
      cases returned
      rfl
    · rename_i fault failed
      rw [looped] at failed
      cases failed
  · have outside : b.size < n := by omega
    rw [countedPopN_outside outside, popN, if_pos outside]

/-- `popAll` returns the bytes held, or runs into the overflow of a counter. -/
theorem countedPopAll_returns {b : Buffer} (short : Countable b.size b.buffer) :
    ∃ after, countedPopAll b = .ok b.bytes after ∧ after.bytes = [] := by
  obtain ⟨after, popped, cut⟩ := countedPopN_returns (Nat.le_refl _) short
  rw [size_eq, List.take_length] at popped
  rw [size_eq, List.drop_length] at cut
  rw [countedPopAll, size_eq]
  exact ⟨after, popped, cut⟩

theorem map_run {α β : Type} (wrap : α → β) (call : BufferM α) (b : Buffer) :
    (wrap <$> call) b =
      match call b with
      | .ok value after => .ok (wrap value) after
      | .error fault after => .error fault after := by
  change EStateM.map wrap call b = _
  unfold EStateM.map
  cases call b <;> rfl

section Steps

variable {before after : Buffer} {reply : Reply}

/-- A call that returns need not leave the buffer as it was. -/
theorem Refines.of_returned {op : Op} {found : Option Bytes}
    (deque : Deque before.bytes op (.ok found) after.bytes) :
    Refines before (op, .ok found) after :=
  ⟨size_eq after, deque, fun _ failed => nomatch failed⟩

/-- A deque has no undefined behaviour. -/
theorem not_refines_overflow (op : Op) :
    ¬ Refines before (op, .error .undefinedBehaviour) after := by
  intro refines
  cases refines.deque

theorem step_pop (step : Step before (.pop, reply) after) :
    Refines before (.pop, reply) after := by
  simp only [Step, Program.Yields, run] at step
  by_cases present : before.bytes = []
  · have empty : before.size = 0 := by rw [size_eq, present, List.length_nil]
    rw [pop, if_pos empty] at step
    obtain ⟨replied, rfl⟩ := step
    rw [replied]
    exact ⟨size_eq _, .popThrows present, fun _ _ => rfl⟩
  · obtain ⟨front, rest, popped, split, _, _⟩ := pop_spec present
    rw [popped] at step
    obtain ⟨replied, rfl⟩ := step
    rw [replied]
    have bytes_eq : before.bytes = front ++ after.bytes := by
      rw [Buffer.bytes, split, List.flatten_cons]
      rfl
    exact .of_returned (.pop present bytes_eq)

/-- A step that pops `n` bytes refines exactly when they can be counted. -/
theorem step_popN {n : Nat} (step : Step before (.popN n, reply) after) :
    Refines before (.popN n, reply) after ↔ Counts before (.popN n) := by
  simp only [Step, Program.Yields, run, map_run] at step
  by_cases inside : n ≤ before.size
  · have held : n ≤ before.bytes.length := size_eq before ▸ inside
    by_cases short : Countable n before.buffer
    · obtain ⟨rest, popped, cut⟩ := countedPopN_returns inside short
      rw [popped] at step
      obtain ⟨replied, rfl⟩ := step
      rw [replied]
      apply iff_of_true
      · apply Refines.of_returned
        rw [cut]
        exact .popN held
      · exact fun _ => short
    · rw [countedPopN_overflow inside short] at step
      obtain ⟨replied, rfl⟩ := step
      rw [replied]
      exact iff_of_false (not_refines_overflow _) fun counts => short (counts inside)
  · have outside : before.size < n := by omega
    rw [countedPopN_outside outside] at step
    obtain ⟨replied, rfl⟩ := step
    rw [replied]
    apply iff_of_true
    · refine ⟨size_eq _, .popNThrows ?_, fun _ _ => rfl⟩
      rw [← size_eq]
      exact outside
    · exact fun fits => absurd fits inside

theorem step_popAll (step : Step before (.popAll, reply) after) :
    Refines before (.popAll, reply) after ↔ Counts before .popAll := by
  have inside : before.size ≤ before.size := Nat.le_refl _
  simp only [Step, Program.Yields, run, map_run] at step
  by_cases short : Countable before.size before.buffer
  · obtain ⟨rest, popped, cut⟩ := countedPopAll_returns short
    rw [popped] at step
    obtain ⟨replied, rfl⟩ := step
    rw [replied]
    apply iff_of_true
    · apply Refines.of_returned
      rw [cut]
      exact .popAll
    · exact short
  · rw [countedPopAll, countedPopN_overflow inside short] at step
    obtain ⟨replied, rfl⟩ := step
    rw [replied]
    exact iff_of_false (not_refines_overflow _) short

theorem step_refines_iff {event : Op × Reply} (step : Step before event after) :
    Refines before event after ↔ Counts before event.1 := by
  obtain ⟨op, reply⟩ := event
  cases op with
  | pushFront bytes =>
      have answer : reply = .ok none := step.1
      have pushed : after = before.pushFront bytes := step.2
      subst answer pushed
      apply iff_of_true
      · apply Refines.of_returned
        rw [bytes_pushFront]
        exact .pushFront
      · trivial
  | pushBack bytes =>
      have answer : reply = .ok none := step.1
      have pushed : after = before.pushBack bytes := step.2
      subst answer pushed
      apply iff_of_true
      · apply Refines.of_returned
        rw [bytes_pushBack]
        exact .pushBack
      · trivial
  | pop => exact iff_of_true (step_pop step) trivial
  | popN n => exact step_popN step
  | popAll => exact step_popAll step

end Steps

/-- A buffer is a deque of bytes in every run whose pops copy no more bytes from one vector
than an `int` counts, and in no other. -/
theorem refines_iff (events : List (Op × Reply)) :
    Always Step blank Refines events ↔
      Always Step blank (fun before event _ => Counts before event.1) events :=
  always_congr (fun _ _ _ step => step_refines_iff step) events

/-- One vector of 2 GiB, which is taken out as it was put in. -/
def heap : List (Op × Reply) :=
  [(.pushBack (List.replicate (2 ^ 31) 0), .ok none), (.popAll, .error .undefinedBehaviour)]

/-- A vector of that size is too long for the counter, whatever is in it. -/
theorem vector_not_refines {vector : Bytes} (wide : vector.length = 2 ^ 31) :
    ¬ Always Step blank Refines
      [(.pushBack vector, .ok none), (.popAll, .error .undefinedBehaviour)] := by
  intro refines
  have filled : Run Step blank [(.pushBack vector, .ok none)] (blank.pushBack vector) :=
    .cons ⟨rfl, rfl⟩ .nil
  have buffer : (blank.pushBack vector).buffer = [vector] := rfl
  have size : (blank.pushBack vector).size = 2 ^ 31 := by
    rw [size_eq, bytes_pushBack, bytes_blank, List.nil_append, wide]
  have long : ¬ Countable (blank.pushBack vector).size (blank.pushBack vector).buffer := by
    rw [size, buffer, countable_cons, wide]
    exact fun both => absurd both.1 (by decide)
  have taken : Step (blank.pushBack vector) (.popAll, .error .undefinedBehaviour)
      (blank.pushBack vector) := by
    simp only [Step, Program.Yields, run, countedPopAll, map_run,
      countedPopN_overflow (Nat.le_refl _) long]
    exact ⟨rfl, rfl⟩
  have whole := refines [(.pushBack vector, .ok none)] _ [] _ _ rfl filled taken
  exact long ((step_refines_iff taken).mp whole)

theorem heap_not_refines : ¬ Always Step blank Refines heap :=
  vector_not_refines List.length_replicate

end Locus.Buffer
