import Locus.ClientBufferRecv

set_option autoImplicit false

/- One call of `recv(n)`: where its calls of `::recv` write, and what it returns of the bytes. -/
namespace Locus

/-- The bytes that a call of `::recv` stored. -/
def RecvOutcome.stored : RecvOutcome → Option Bytes
  | .data bytes => some bytes
  | .again | .error | .endOfFile => none

namespace ClientBuffer

/-- What `::recv` does for a request of `n` bytes: it stores some of what is missing, until all has
come or a call stores nothing. -/
inductive Answers : (n : Nat) → List RecvOutcome → Prop
  | full : Answers 0 []
  | stops {n : Nat} {outcome : RecvOutcome} (nothing : outcome.stored = none) :
      Answers (n + 1) [outcome]
  | data {n : Nat} {bytes : Bytes} {outcomes : List RecvOutcome} (positive : bytes ≠ [])
      (within : bytes.length ≤ n + 1) (rest : Answers (n + 1 - bytes.length) outcomes) :
      Answers (n + 1) (.data bytes :: outcomes)

/-- What was stored, call by call. -/
def pieces (outcomes : List RecvOutcome) : List Bytes := outcomes.filterMap RecvOutcome.stored

/-- A call of `::recv` that stores bytes, with the vector that it writes to. -/
structure Call where
  vector : RawVector
  offset : Nat
  bytes : Bytes

/-- The call writes to places that the vector has. -/
def Call.Inside (call : Call) : Prop := call.offset + call.bytes.length ≤ call.vector.size

/-- The loop of `recv(n)`, with its calls of `::recv` on the way. -/
def watchedLoop (n : Nat) : List RecvOutcome → (remaining : Nat) → RawVector →
    List Call × RawVector × Nat × Bool
  | .data bytes :: outcomes, remaining + 1, buffer =>
      let call : Call :=
        { vector := buffer.resize (remaining + 1), offset := n - (remaining + 1), bytes }
      let (calls, left) := watchedLoop n outcomes (remaining + 1 - bytes.length)
        (call.vector.write call.offset bytes)
      (call :: calls, left)
  | outcomes, remaining, buffer => ([], recvLoop n outcomes remaining buffer)

/-- The calls of `::recv` in `recv(n)`. -/
def recvCalls (n : Nat) (outcomes : List RecvOutcome) : List Call :=
  (watchedLoop n outcomes n (RawVector.zeros n)).1

/-- Each piece fits into the vector that the bytes before it have left. -/
def InPlace (n : Nat) : (front : Nat) → List Bytes → Prop
  | _, [] => True
  | front, piece :: rest =>
      2 * front + piece.length ≤ n ∧ InPlace n (front + piece.length) rest

/-- If bytes are missing in the end, those of the others that the last vector has no place for
are zero. -/
def Kept (n : Nat) (stored : Bytes) : Prop :=
  stored.length < n → ∀ byte ∈ stored.drop (n - stored.length), byte = 0

instance (n : Nat) (stored : Bytes) : Decidable (Kept n stored) :=
  inferInstanceAs (Decidable
    (stored.length < n → ∀ byte ∈ stored.drop (n - stored.length), byte = 0))

theorem Answers.serves {n : Nat} {outcomes : List RecvOutcome} (answers : Answers n outcomes) :
    Serves n (pieces outcomes) := by
  induction answers with
  | full => exact ⟨by simp [pieces], by simp [pieces]⟩
  | stops nothing => exact ⟨by simp [pieces, nothing], by simp [pieces, nothing]⟩
  | @data n bytes outcomes positive within rest ih =>
      have split : pieces (.data bytes :: outcomes) = bytes :: pieces outcomes := rfl
      have shorter := ih.within
      rw [split]
      constructor
      · intro other member
        rcases List.mem_cons.mp member with rfl | member
        · exact positive
        · exact ih.positive other member
      · rw [List.flatten_cons, List.length_append]
        omega

/-- On a connection that stays open the loop goes by what was stored. -/
theorem recvLoop_pieces {n remaining : Nat} {outcomes : List RecvOutcome}
    (answers : Answers remaining outcomes) (opened : .error ∉ outcomes ∧ .endOfFile ∉ outcomes)
    (buffer : RawVector) :
    recvLoop n outcomes remaining buffer =
      recvLoop n ((pieces outcomes).map .data) remaining buffer := by
  induction answers generalizing buffer with
  | full => rfl
  | @stops n outcome nothing =>
      cases outcome with
      | data bytes => cases nothing
      | again => rfl
      | error => exact absurd List.mem_cons_self opened.1
      | endOfFile => exact absurd List.mem_cons_self opened.2
  | @data n bytes outcomes positive within rest ih =>
      have later : .error ∉ outcomes ∧ .endOfFile ∉ outcomes :=
        ⟨fun member => opened.1 (List.mem_cons_of_mem _ member),
          fun member => opened.2 (List.mem_cons_of_mem _ member)⟩
      exact ih later _

/-- The calls of `::recv` stay inside exactly if the pieces are in place. -/
theorem inside_iff {n remaining : Nat} {outcomes : List RecvOutcome}
    (answers : Answers remaining outcomes) (front : Nat) (all : front + remaining = n)
    (buffer : RawVector) :
    (∀ call ∈ (watchedLoop n outcomes remaining buffer).1, call.Inside) ↔
      InPlace n front (pieces outcomes) := by
  induction answers generalizing front buffer with
  | full => exact iff_of_true (fun _ none_made => nomatch none_made) trivial
  | @stops n outcome nothing =>
      cases outcome with
      | data bytes => cases nothing
      | again | error | endOfFile =>
          exact iff_of_true (fun _ none_made => nomatch none_made) trivial
  | @data missing bytes outcomes positive within rest ih =>
      have split : pieces (.data bytes :: outcomes) = bytes :: pieces outcomes := rfl
      have offset : n - (missing + 1) = front := by omega
      rw [watchedLoop, split, InPlace, List.forall_mem_cons, ih (front + bytes.length) (by omega)]
      apply and_congr_left'
      rw [Call.Inside, offset]
      change front + bytes.length ≤ missing + 1 ↔ _
      omega

/-- What is returned is what was stored exactly if the final `resize` clears zeros only. -/
theorem recvN_exact_iff {n : Nat} {segments : List Bytes} (serves : Serves n segments) :
    recvN n (segments.map .data) = (segments.flatten, false) ↔ Intact n segments := by
  constructor
  · intro exact_bytes byte member
    rw [recvN_segments serves, Prod.mk.injEq] at exact_bytes
    have cut := congrArg (List.drop (n - lastCall n segments)) exact_bytes.1
    rw [← cut] at member
    rw [List.drop_append, List.mem_append] at member
    rcases member with none_left | cleared
    · rw [List.drop_take, Nat.sub_self, List.take_zero] at none_left
      cases none_left
    · exact List.eq_of_mem_replicate (List.mem_of_mem_drop cleared)
  · exact recvN_intact serves

/-- Pieces that are in place leave room for the last one once more. -/
theorem InPlace.room {n front : Nat} {segments : List Bytes} (placed : InPlace n front segments)
    (some_came : segments ≠ []) :
    2 * front + segments.dropLast.flatten.length + segments.flatten.length ≤ n := by
  induction segments generalizing front with
  | nil => exact absurd rfl some_came
  | cons segment rest ih =>
      obtain ⟨here, later⟩ := placed
      cases rest with
      | nil =>
          simp only [List.dropLast_singleton, List.flatten_nil, List.flatten_cons,
            List.append_nil, List.length_nil]
          omega
      | cons next others =>
          have bound := ih later (List.cons_ne_nil _ _)
          rw [List.dropLast_cons_cons, List.flatten_cons, List.flatten_cons, List.length_append,
            List.length_append]
          omega

/-- Pieces in place come back whole exactly if the rest of what was stored is kept. -/
theorem intact_iff_kept {n : Nat} {segments : List Bytes} (serves : Serves n segments)
    (placed : InPlace n 0 segments) : Intact n segments ↔ Kept n segments.flatten := by
  have within := serves.within
  rw [Intact, lastCall, Kept]
  by_cases complete : segments.flatten.length = n
  · apply iff_of_true
    · intro byte member
      by_cases none_came : segments = []
      · rw [none_came] at member
        cases List.mem_of_mem_drop member
      · have room := placed.room none_came
        rw [if_pos complete, List.drop_eq_nil_of_le (by omega)] at member
        cases member
    · intro missing
      omega
  · have missing : segments.flatten.length < n := by omega
    rw [if_neg complete]
    exact ⟨fun kept _ => kept, fun kept => kept missing⟩

/-- `recv(n)` returns what `::recv` stored and writes inside its vector exactly if each piece is no
longer than what is missing less what came before, and nothing but zeros is cut off at the end. -/
theorem received_iff {n : Nat} {outcomes : List RecvOutcome} (answers : Answers n outcomes)
    (opened : .error ∉ outcomes ∧ .endOfFile ∉ outcomes) :
    (recvN n outcomes = ((pieces outcomes).flatten, false) ∧
        ∀ call ∈ recvCalls n outcomes, call.Inside) ↔
      InPlace n 0 (pieces outcomes) ∧ Kept n (pieces outcomes).flatten := by
  have looped : recvN n outcomes = recvN n ((pieces outcomes).map .data) := by
    rw [recvN, recvN, recvLoop_pieces answers opened]
  rw [recvCalls, inside_iff answers 0 (Nat.zero_add n), looped, recvN_exact_iff answers.serves,
    and_comm]
  exact and_congr_right fun placed => intact_iff_kept answers.serves placed

/-- Two bytes one by one, for a request of four that the socket cannot fill. -/
theorem received_iff_halfway :
    recvN 4 [.data [1], .data [2], .again] = ([1, 2], false) ∧
      ∀ call ∈ recvCalls 4 [.data [1], .data [2], .again], call.Inside := by
  have answers : Answers 4 [.data [1], .data [2], .again] :=
    .data (by decide) (by decide) (.data (by decide) (by decide) (.stops rfl))
  have nothing_cut : Kept 4 [1, 2] := by
    intro _ byte member
    change byte ∈ [] at member
    cases member
  apply (received_iff answers (by decide)).mpr
  exact ⟨⟨by decide, by decide, trivial⟩, nothing_cut⟩

/-- The third byte is written behind the end of the vector, and two bytes come back as zeros. -/
theorem torn_not_received :
    ¬ ∀ (n : Nat) (outcomes : List RecvOutcome), 1 ≤ n → Answers n outcomes →
      .error ∉ outcomes ∧ .endOfFile ∉ outcomes →
        recvN n outcomes = ((pieces outcomes).flatten, false) ∧
          ∀ call ∈ recvCalls n outcomes, call.Inside := by
  intro received
  have torn := (received 3 [.data [1, 2], .data [3]] (by decide)
    (.data (by decide) (by decide) (.data (by decide) (by decide) .full)) (by decide)).1
  revert torn
  decide

end ClientBuffer

end Locus
