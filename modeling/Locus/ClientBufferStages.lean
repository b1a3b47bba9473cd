import Locus.ClientBufferEdges
import Locus.ClientBufferPieces

set_option autoImplicit false

/- What the stage of `bufferIn` says about its bytes, whatever comes in and whoever calls. -/
namespace Locus.ClientBuffer

open Transition

/-- `recv()` by the Receiver, with what `::recv` does for its two requests, or `recvData` by the
session. -/
inductive InputCall where
  | recv (header body : List RecvOutcome)
  | recvData
  deriving DecidableEq, Repr

/-- A call at any time. -/
inductive Input (before : ClientBuffer) : InputCall → ClientBuffer → Prop
  | recv {header body : List RecvOutcome} (headerAnswers : Answers before.headerRequest header)
      (bodyAnswers : Answers (before.recvHeader header).bodyRequest body) :
      Input before (.recv header body) (before.recv header body)
  | recvData {bytes : Bytes} {after : ClientBuffer}
      (returned : before.recvData = .ok (bytes, after)) : Input before .recvData after

/-- The stage goes with the bytes held, and a buffer that receives has bytes to ask for. -/
structure Regular (b : Buffer) : Prop where
  empty : b.stage = .Empty → b.size = 0
  receiving : b.stage = .Receiving → 0 < b.remainingSize ∧ b.remainingSize ≤ b.bufferMaxSize
  full : b.stage = .Full → b.size = b.bufferMaxSize

/-- A header of which nothing but zeros is taken: a second byte that comes by itself is not. -/
def ZeroHeader (header : List RecvOutcome) : Prop :=
  header = [.data [0, 0]] ∨ header = [.data [0], .again] ∨
    ∃ byte, header = [.data [0], .data [byte]]

/-- The call takes zero for the size of the next packet. -/
def ZeroLength (before : ClientBuffer) : InputCall → Prop
  | .recv header _ => before.close = false ∧ before.bufferIn.stage = .Empty ∧ ZeroHeader header
  | .recvData => False

/-- What the steps keep: the sizes are those of a `size_t`, and in order. -/
structure Bounded (b : Buffer) : Prop extends Regular b where
  small : b.bufferMaxSize < 2 ^ 64
  inside : b.stage = .Receiving → b.size ≤ b.bufferMaxSize

section Bounded

variable {b : Buffer}

theorem Bounded.of_empty (stage : b.stage = .Empty) (nothing : b.size = 0)
    (small : b.bufferMaxSize < 2 ^ 64) : Bounded b := by
  refine ⟨⟨fun _ => nothing, ?_, ?_⟩, small, ?_⟩ <;>
  · intro other
    rw [stage] at other
    cases other

theorem Bounded.of_receiving (stage : b.stage = .Receiving)
    (left : 0 < b.remainingSize ∧ b.remainingSize ≤ b.bufferMaxSize)
    (small : b.bufferMaxSize < 2 ^ 64) (inside : b.size ≤ b.bufferMaxSize) : Bounded b := by
  refine ⟨⟨?_, fun _ => left, ?_⟩, small, fun _ => inside⟩ <;>
  · intro other
    rw [stage] at other
    cases other

theorem Bounded.of_full (stage : b.stage = .Full) (complete : b.size = b.bufferMaxSize)
    (small : b.bufferMaxSize < 2 ^ 64) : Bounded b := by
  refine ⟨⟨?_, ?_, fun _ => complete⟩, small, ?_⟩ <;>
  · intro other
    rw [stage] at other
    cases other

end Bounded

/-- `recv(n)` returns no more than it was asked for. -/
theorem recvN_le (n : Nat) (outcomes : List RecvOutcome) :
    (recvN n outcomes).1.length ≤ n := by
  rw [recvN]
  dsimp only
  split
  · exact Nat.zero_le n
  · apply Nat.le_trans (List.length_take_le _ _)
    exact Nat.sub_le n _

/-- The size that is taken from the bytes of a header. -/
def headerSize (header : List RecvOutcome) : Nat :=
  LittleEndian.decode (fromBytes (recvN 2 header).1 (toBytes 2 0))

/-- What can come in answer to a request of two bytes. -/
theorem answers_two {header : List RecvOutcome} (answers : Answers 2 header) :
    (∃ outcome : RecvOutcome, outcome.stored = none ∧ header = [outcome]) ∨
      (∃ x y, header = [.data [x, y]]) ∨
      ∃ x, (∃ y, header = [.data [x], .data [y]]) ∨
        ∃ outcome : RecvOutcome, outcome.stored = none ∧ header = [.data [x], outcome] := by
  cases answers with
  | @stops _ outcome nothing => exact .inl ⟨outcome, nothing, rfl⟩
  | @data _ bytes outcomes positive within rest =>
      match bytes, positive, within, rest with
      | [x, y], _, _, .full => exact .inr (.inl ⟨x, y, rfl⟩)
      | [x], _, _, .stops nothing => exact .inr (.inr ⟨x, .inr ⟨_, nothing, rfl⟩⟩)
      | [x], _, _, .data positive' within' rest' =>
          rename_i bytes' outcomes'
          match bytes', positive', within', rest' with
          | [y], _, _, .full => exact .inr (.inr ⟨x, .inl ⟨y, rfl⟩⟩)

/-- A size of which only the low byte is taken. -/
theorem size_of_byte {size : Nat} {zero : Prop} (byte : UInt8) (low : size = byte.toNat)
    (zero_iff : zero ↔ byte = 0) : size < 2 ^ 16 ∧ (size = 0 ↔ zero) := by
  have small := byte.toNat_lt
  constructor
  · omega
  · rw [zero_iff, low, ← UInt8.toNat_inj]
    rfl

/-- A header gives no size, or it gives one of two bytes. That is zero for a zero header only. -/
theorem header_cases {header : List RecvOutcome} (answers : Answers 2 header) :
    ((recvN 2 header).1 = [] ∧ ¬ ZeroHeader header) ∨
      ((recvN 2 header).1 ≠ [] ∧ (recvN 2 header).2 = false ∧ headerSize header < 2 ^ 16 ∧
        (headerSize header = 0 ↔ ZeroHeader header)) := by
  rcases answers_two answers with ⟨outcome, nothing, rfl⟩ | ⟨x, y, rfl⟩ |
    ⟨x, ⟨y, rfl⟩ | ⟨outcome, nothing, rfl⟩⟩
  · cases outcome with
    | data bytes => cases nothing
    | again | error | endOfFile => exact .inl ⟨rfl, by simp [ZeroHeader]⟩
  · have size : headerSize [.data [x, y]] = x.toNat + 256 * (y.toNat + 256 * 0) := rfl
    refine .inr ⟨List.cons_ne_nil _ _, rfl, ?_, ?_⟩
    · have low := x.toNat_lt
      have high := y.toNat_lt
      omega
    · have zero : ZeroHeader [.data [x, y]] ↔ x.toNat = 0 ∧ y.toNat = 0 := by
        simp [ZeroHeader, ← UInt8.toNat_inj]
      rw [zero]
      omega
  · have came : recvN 2 [.data [x], .data [y]] = ([x, 0], false) := rfl
    have low : headerSize [.data [x], .data [y]] = x.toNat := by
      rw [headerSize, came]
      rfl
    have zero : ZeroHeader [.data [x], .data [y]] ↔ x = 0 := by simp [ZeroHeader]
    rw [came]
    exact .inr ⟨List.cons_ne_nil _ _, rfl, size_of_byte x low zero⟩
  · cases outcome with
    | data bytes => cases nothing
    | error | endOfFile => exact .inl ⟨rfl, by simp [ZeroHeader]⟩
    | again =>
        have came : recvN 2 [.data [x], .again] = ([x], false) := rfl
        have low : headerSize [.data [x], .again] = x.toNat := by
          rw [headerSize, came]
          rfl
        have zero : ZeroHeader [.data [x], .again] ↔ x = 0 := by simp [ZeroHeader]
        rw [came]
        exact .inr ⟨List.cons_ne_nil _ _, rfl, size_of_byte x low zero⟩

/-- A header that is not zero is followed by some bytes. -/
theorem recvHeader_bounded {c : ClientBuffer} {header : List RecvOutcome}
    (bounded : Bounded c.bufferIn) (answers : Answers c.headerRequest header)
    (nonzero : ¬ (c.close = false ∧ c.bufferIn.stage = .Empty ∧ ZeroHeader header)) :
    Bounded (c.recvHeader header).bufferIn := by
  rw [recvHeader]
  by_cases asks : c.close = false ∧ c.bufferIn.stage = .Empty
  · rw [headerRequest, if_pos asks] at answers
    have not_zero : ¬ ZeroHeader header := fun zero => nonzero ⟨asks.1, asks.2, zero⟩
    rw [if_pos asks]
    dsimp only
    rcases header_cases answers with ⟨nothing, -⟩ | ⟨something, -, small, zero_iff⟩
    · rw [if_pos nothing]
      exact bounded
    · have held : c.bufferIn.bufferSize = 0 := bounded.empty asks.2
      have positive : headerSize header ≠ 0 := fun zero => not_zero (zero_iff.mp zero)
      rw [if_neg something]
      apply Bounded.of_receiving rfl
      · change 0 < (2 ^ 64 + headerSize header - c.bufferIn.bufferSize) % 2 ^ 64 ∧
          (2 ^ 64 + headerSize header - c.bufferIn.bufferSize) % 2 ^ 64 ≤ headerSize header
        omega
      · change headerSize header < 2 ^ 64
        omega
      · change c.bufferIn.bufferSize ≤ headerSize header
        omega
  · rw [if_neg asks]
    exact bounded

/-- The bytes of a packet come in up to its size. -/
theorem recvBody_bounded {c : ClientBuffer} (bounded : Bounded c.bufferIn)
    (body : List RecvOutcome) : Bounded (c.recvBody body).bufferIn := by
  rw [recvBody]
  by_cases asks : c.close = false ∧ c.bufferIn.stage = .Receiving
  · rw [if_pos asks]
    dsimp only
    have within := recvN_le c.bufferIn.remainingSize body
    generalize (recvN c.bufferIn.remainingSize body).1 = bytes at within
    have small := bounded.small
    have inside := bounded.inside asks.2
    have left := Buffer.remainingSize_pushBack within
    have max_same : (c.bufferIn.pushBack bytes).bufferMaxSize = c.bufferIn.bufferMaxSize := rfl
    have size_now : (c.bufferIn.pushBack bytes).size = c.bufferIn.size + bytes.length := rfl
    have remaining : c.bufferIn.remainingSize = c.bufferIn.bufferMaxSize - c.bufferIn.size := by
      rw [Buffer.remainingSize]
      change c.bufferIn.bufferSize ≤ c.bufferIn.bufferMaxSize at inside
      change _ = c.bufferIn.bufferMaxSize - c.bufferIn.bufferSize
      omega
    split
    · exact bounded
    · split
      · rename_i complete
        change (c.bufferIn.pushBack bytes).remainingSize = 0 at complete
        apply Bounded.of_full rfl
        · change (c.bufferIn.pushBack bytes).size = c.bufferIn.bufferMaxSize
          omega
        · exact small
      · rename_i incomplete
        change ¬ (c.bufferIn.pushBack bytes).remainingSize = 0 at incomplete
        have receiving : (c.bufferIn.pushBack bytes).stage = .Receiving := asks.2
        apply Bounded.of_receiving receiving
        · change 0 < (c.bufferIn.pushBack bytes).remainingSize ∧
            (c.bufferIn.pushBack bytes).remainingSize ≤ c.bufferIn.bufferMaxSize
          omega
        · exact small
        · change (c.bufferIn.pushBack bytes).size ≤ c.bufferIn.bufferMaxSize
          omega
  · rw [if_neg asks]
    exact bounded

/-- The queue of the client is told, and `bufferIn` stays. -/
@[simp] theorem recvClose_bufferIn (c : ClientBuffer) : c.recvClose.bufferIn = c.bufferIn := by
  rw [recvClose]
  split <;> rfl

theorem recv_bounded {c : ClientBuffer} {header : List RecvOutcome} (body : List RecvOutcome)
    (bounded : Bounded c.bufferIn) (answers : Answers c.headerRequest header)
    (nonzero : ¬ ZeroLength c (.recv header body)) : Bounded (c.recv header body).bufferIn := by
  rw [recv, recvClose_bufferIn]
  exact recvBody_bounded (recvHeader_bounded bounded answers nonzero) body

theorem recvData_bounded {c after : ClientBuffer} {bytes : Bytes} (bounded : Bounded c.bufferIn)
    (returned : c.recvData = .ok (bytes, after)) : Bounded after.bufferIn := by
  obtain ⟨popped, success, nothing, -, max_same⟩ := c.bufferIn.popAll_spec
  rw [Buffer.popAll] at success
  simp only [recvData, success, Except.ok.injEq, Prod.mk.injEq] at returned
  obtain ⟨-, rfl⟩ := returned
  apply Bounded.of_empty rfl
  · change popped.size = 0
    rw [Buffer.size_eq, nothing]
    rfl
  · change popped.bufferMaxSize < 2 ^ 64
    rw [max_same]
    exact bounded.small

/-- A call that takes no zero for a size keeps the buffer as it has to be. -/
theorem input_bounded {before after : ClientBuffer} {call : InputCall}
    (bounded : Bounded before.bufferIn) (step : Input before call after)
    (nonzero : ¬ ZeroLength before call) : Bounded after.bufferIn := by
  cases step with
  | recv headerAnswers _ => exact recv_bounded _ bounded headerAnswers nonzero
  | recvData returned => exact recvData_bounded bounded returned

/-- A zero size is followed by a request for nothing, which nothing answers. -/
theorem recv_zero {c : ClientBuffer} {header body : List RecvOutcome}
    (bounded : Bounded c.bufferIn) (zero : ZeroLength c (.recv header body))
    (headerAnswers : Answers c.headerRequest header)
    (bodyAnswers : Answers (c.recvHeader header).bodyRequest body) :
    (c.recv header body).bufferIn.stage = .Receiving ∧
      (c.recv header body).bufferIn.remainingSize = 0 := by
  obtain ⟨opened, stage, zero_header⟩ := zero
  have asks : c.close = false ∧ c.bufferIn.stage = .Empty := ⟨opened, stage⟩
  rw [headerRequest, if_pos asks] at headerAnswers
  rcases header_cases headerAnswers with ⟨-, nonzero⟩ | ⟨something, open_still, -, zero_iff⟩
  · exact absurd zero_header nonzero
  · have held : c.bufferIn.bufferSize = 0 := bounded.empty stage
    have size : headerSize header = 0 := zero_iff.mpr zero_header
    have taken : c.recvHeader header = { c with
        close := false
        bufferIn := (c.bufferIn.setMaxSize 0).setStage .Receiving } := by
      rw [recvHeader, if_pos asks]
      dsimp only
      rw [if_neg something, open_still]
      change onBufferIn (fun bufferIn => (bufferIn.setMaxSize (headerSize header)).setStage _) _ = _
      rw [size]
      rfl
    have nothing_left : (c.recvHeader header).bufferIn.remainingSize = 0 := by
      rw [taken]
      change (2 ^ 64 + 0 - c.bufferIn.bufferSize) % 2 ^ 64 = 0
      omega
    have receives : (c.recvHeader header).close = false ∧
        (c.recvHeader header).bufferIn.stage = .Receiving := by
      rw [taken]
      exact ⟨rfl, rfl⟩
    rw [bodyRequest, if_pos receives, nothing_left] at bodyAnswers
    cases bodyAnswers
    have idle : ((c.recvHeader header).recvBody []).bufferIn = (c.recvHeader header).bufferIn := by
      rw [recvBody, if_pos receives, nothing_left]
      rfl
    rw [recv, recvClose_bufferIn, idle]
    exact ⟨receives.2, nothing_left⟩

/-- What holds of a connection as long as no call takes zero for a size. -/
def Sound (c : ClientBuffer) : Prop := Bounded c.bufferIn

theorem sound_start : Sound {} := Bounded.of_empty rfl rfl (by decide)

/-- On an open connection the buffer is as it has to be after every call, if and only if no call
takes zero for the size of a packet. -/
theorem regular_iff (events : List InputCall) :
    Always Input {} (fun before _ after => before.close = false → Regular after.bufferIn) events ↔
      Always Input {} (fun before call _ => ¬ ZeroLength before call) events := by
  apply always_iff_of_invariant (show Sound {} from sound_start)
  · intro before call after bounded step
    constructor
    · intro obeys zero
      cases step with
      | recvData => exact zero
      | recv headerAnswers bodyAnswers =>
          have regular := obeys zero.1
          obtain ⟨stage, nothing_left⟩ := recv_zero bounded zero headerAnswers bodyAnswers
          have some_left := (regular.receiving stage).1
          omega
    · intro nonzero _
      exact (input_bounded bounded step nonzero).toRegular
  · intro before call after bounded step nonzero
    exact input_bounded bounded step nonzero

/-- After a size of zero the buffer receives, and asks for nothing. -/
theorem zero_length_irregular :
    ¬ Always Input {} (fun before _ after => before.close = false → Regular after.bufferIn)
      [.recv [.data [0, 0]] []] := by
  intro obeys
  have step : Input {} (.recv [.data [0, 0]] []) (recv [.data [0, 0]] [] {}) :=
    .recv (.data (List.cons_ne_nil _ _) (by decide) .full) .full
  have regular := obeys [] _ [] _ _ rfl .nil step rfl
  exact absurd (regular.receiving rfl).1 (by decide)

end Locus.ClientBuffer
