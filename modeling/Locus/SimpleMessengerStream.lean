import Locus.ClientBuffer
import Locus.JavaPackets

set_option autoImplicit false

/- SimpleMessenger over a socket: the frames that the server writes one behind the other, and
what the two reads of each call get of them. -/
namespace Locus.Java

open Program

/-- How much of what a read asks for has come in when it is made. -/
structure Splitting where
  count : Nat → Nat → Nat
  positive : ∀ turn n, 0 < n → 0 < count turn n
  within : ∀ turn n, count turn n ≤ n

/-- What the server wrote and the client has yet to read, up to the end of the stream. -/
structure InputStream where
  bytes : Bytes
  /-- How many reads have been made. -/
  reads : Nat := 0

abbrev ReadM := EStateM Exception InputStream

/-- `read(buffer, 0, n)`: how many bytes were read, and the array with them in front. -/
def InputStream.read (splitting : Splitting) (buffer : Bytes) (n : Int) : ReadM (Int × Bytes) := do
  if n < 0 ∨ buffer.length < n then throw .runtime
  else if n = 0 then return (0, buffer)
  else
    let input ← get
    if input.bytes = [] then return (-1, buffer)
    else
      let count := splitting.count input.reads n.toNat
      let got := input.bytes.take count
      set { input with bytes := input.bytes.drop count, reads := input.reads + 1 }
      return (got.length, got ++ buffer.drop got.length)

namespace SimpleMessenger

/-- `receive(buffer, n)`, which does not look at `n`. A header of one byte is not noticed. -/
def receiveBytes (splitting : Splitting) (buffer : Bytes) : ReadM (Int × Bytes) := do
  let (j, buffer) ← InputStream.read splitting buffer 2
  if j < 0 then throw .checked
  else
    let s ← Program.ofExcept (Converter.byteToShort (buffer.take 2))
    InputStream.read splitting buffer s.toInt

/-- One call after the other, each with its array: what is returned and what it counts. -/
def receiveAll (splitting : Splitting) : (buffers : List Bytes) → ReadM (List (Int × Bytes))
  | [] => pure []
  | buffer :: buffers => do
      let (i, buffer) ← receiveBytes splitting buffer
      let others ← receiveAll splitting buffers
      return (i, buffer.take i.toNat) :: others

end SimpleMessenger

/-- The calls return the frames of a stream, from the read of this number on. -/
def Delivered (splitting : Splitting) (turn : Nat) (buffers frames : List Bytes) : Prop :=
  outcome (SimpleMessenger.receiveAll splitting buffers
      { bytes := frames.flatMap ClientBuffer.frame, reads := turn }) =
    .ok (frames.map fun frame => ((frame.length : Int), frame))

/-- No read for frames of these sizes gets less than it asks for. -/
def Filled (splitting : Splitting) : (turn : Nat) → (sizes : List Nat) → Prop
  | _, [] => True
  | turn, size :: sizes =>
      splitting.count turn 2 = 2 ∧ splitting.count (turn + 1) size = size ∧
        Filled splitting (turn + 2) sizes

section Reads

variable {splitting : Splitting} {buffer : Bytes} {input : InputStream}

/-- A read that asks for something that the array has room for. -/
theorem read_run {n : Nat} (asked : 0 < n) (room : n ≤ buffer.length) (more : input.bytes ≠ []) :
    InputStream.read splitting buffer n input =
      .ok (((input.bytes.take (splitting.count input.reads n)).length : Int),
          input.bytes.take (splitting.count input.reads n) ++
            buffer.drop (input.bytes.take (splitting.count input.reads n)).length)
        { bytes := input.bytes.drop (splitting.count input.reads n)
          reads := input.reads + 1 } := by
  have inside : ¬ ((n : Int) < 0 ∨ (buffer.length : Int) < n) := by omega
  have some_asked : ¬ (n : Int) = 0 := by omega
  rw [InputStream.read, if_neg inside, if_neg some_asked, bind_of_ok (get_run input), if_neg more,
    Int.toNat_natCast]
  rfl

/-- Whatever is read starts with the next byte of the stream, and is no more than was there. -/
theorem read_ok {n : Int} {i : Int} {result : Bytes} {after : InputStream}
    (returned : InputStream.read splitting buffer n input = .ok (i, result) after)
    (some_read : 0 < i) :
    i ≤ splitting.count input.reads n.toNat ∧ result.head? = input.bytes.head? := by
  rw [InputStream.read] at returned
  split at returned
  · cases returned
  · split at returned
    · cases returned
      omega
    · rw [bind_of_ok (get_run input)] at returned
      split at returned
      · cases returned
        omega
      · cases returned
        have positive : 0 < (input.bytes.take
            (splitting.count input.reads n.toNat)).length := by omega
        constructor
        · have short := List.length_take_le (splitting.count input.reads n.toNat) input.bytes
          omega
        · rw [List.head?_append_of_ne_nil _ (List.ne_nil_of_length_pos positive), List.head?_take,
            if_neg]
          intro none_read
          rw [none_read, List.take_zero] at positive
          exact absurd positive (Nat.lt_irrefl 0)

end Reads

/-- The header of a frame is read back as its size. -/
theorem byteToShort_size {size : Nat} (fits : size ≤ capacity) :
    ∃ s, Converter.byteToShort (toBytes 2 size) = .ok s ∧ s.toInt = size := by
  rw [capacity] at fits
  have read := Converter.getBytes_encode 2 size [] (by omega)
  rw [List.append_nil] at read
  refine ⟨(UInt16.ofNat size).toInt16, ?_, ?_⟩
  · rw [Converter.byteToShort, toBytes, read]
    rfl
  · change (BitVec.ofNat 16 size).toInt = size
    have small : (BitVec.ofNat 16 size).toNat = size := by
      rw [BitVec.toNat_ofNat]
      omega
    rw [BitVec.toInt_eq_toNat_of_lt (by omega), small]

section Receiving

variable {splitting : Splitting} {buffer packet rest : Bytes} {turn : Nat}

/-- What `receive` reads a frame from. -/
def ahead (packet rest : Bytes) (turn : Nat) : InputStream :=
  { bytes := ClientBuffer.frame packet ++ rest, reads := turn }

theorem frame_split (packet rest : Bytes) :
    (ahead packet rest turn).bytes =
      UInt8.ofNat packet.length :: UInt8.ofNat (packet.length / 256) :: (packet ++ rest) := rfl

/-- The first read of a call gets the header, or the first byte of it. -/
theorem header_run (wide : capacity ≤ buffer.length) :
    InputStream.read splitting buffer 2 (ahead packet rest turn) =
      .ok ((((ahead packet rest turn).bytes.take (splitting.count turn 2)).length : Int),
          (ahead packet rest turn).bytes.take (splitting.count turn 2) ++
            buffer.drop ((ahead packet rest turn).bytes.take (splitting.count turn 2)).length)
        { bytes := (ahead packet rest turn).bytes.drop (splitting.count turn 2)
          reads := turn + 1 } := by
  have room : 2 ≤ buffer.length := by
    rw [capacity] at wide
    omega
  have more : (ahead packet rest turn).bytes ≠ [] := by
    rw [frame_split]
    exact List.cons_ne_nil _ _
  exact @read_run splitting buffer (ahead packet rest turn) 2 (by decide) room more

/-- After a whole header the second read asks for the packet. -/
theorem receiveBytes_header (whole : splitting.count turn 2 = 2)
    (wide : capacity ≤ buffer.length) (fits : packet.length ≤ capacity) :
    SimpleMessenger.receiveBytes splitting buffer (ahead packet rest turn) =
      InputStream.read splitting (toBytes 2 packet.length ++ buffer.drop 2) packet.length
        { bytes := packet ++ rest, reads := turn + 1 } := by
  obtain ⟨s, read, size⟩ := byteToShort_size fits
  have header := @header_run splitting buffer packet rest turn wide
  have front : (ahead packet rest turn).bytes.take 2 = toBytes 2 packet.length :=
    List.take_left' (LittleEndian.length_encode 2 _)
  have behind : (ahead packet rest turn).bytes.drop 2 = packet ++ rest := rfl
  have two : (toBytes 2 packet.length).length = 2 := LittleEndian.length_encode 2 _
  have size_field : (toBytes 2 packet.length ++ buffer.drop 2).take 2 = toBytes 2 packet.length :=
    List.take_left' two
  rw [whole, front, behind, two] at header
  rw [SimpleMessenger.receiveBytes, bind_of_ok header]
  dsimp only
  rw [if_neg (by decide), size_field, read, bind_of_ok (ofExcept_ok_run s _), size]

/-- Two whole reads return the frame, and leave what is behind it. -/
theorem receiveBytes_filled (whole : splitting.count turn 2 = 2)
    (filled : splitting.count (turn + 1) packet.length = packet.length)
    (wide : capacity ≤ buffer.length) (some_size : 1 ≤ packet.length)
    (fits : packet.length ≤ capacity) :
    ∃ result, SimpleMessenger.receiveBytes splitting buffer (ahead packet rest turn) =
        .ok (packet.length, result) { bytes := rest, reads := turn + 2 } ∧
      result.take packet.length = packet := by
  rw [receiveBytes_header whole wide fits]
  have room : packet.length ≤ (toBytes 2 packet.length ++ buffer.drop 2).length := by
    rw [List.length_append, List.length_drop, toBytes, LittleEndian.length_encode]
    rw [capacity] at wide fits
    omega
  have more : packet ++ rest ≠ [] := by
    intro empty
    rw [(List.append_eq_nil_iff.mp empty).1] at some_size
    cases some_size
  have body := @read_run splitting _ { bytes := packet ++ rest, reads := turn + 1 } packet.length
    some_size room more
  rw [filled, List.take_left, List.drop_left] at body
  exact ⟨_, body, List.take_left⟩

/-- A short read is seen in what is returned, unless the packet starts with the byte that
the header ends with. -/
theorem receiveBytes_short
    (short : ¬ (splitting.count turn 2 = 2 ∧
      splitting.count (turn + 1) packet.length = packet.length))
    (wide : capacity ≤ buffer.length) (some_size : 1 ≤ packet.length)
    (fits : packet.length ≤ capacity)
    (marked : packet.head? ≠ some (UInt8.ofNat (packet.length / 256)))
    {i : Int} {result : Bytes} {after : InputStream}
    (returned : SimpleMessenger.receiveBytes splitting buffer (ahead packet rest turn) =
      .ok (i, result) after) :
    (i, result.take i.toNat) ≠ ((packet.length : Int), packet) := by
  intro same
  obtain ⟨length, content⟩ := Prod.mk.inj same
  have returns_some : 0 < i := by omega
  by_cases whole : splitting.count turn 2 = 2
  · -- the header is right, and the packet is cut off
    rw [receiveBytes_header whole wide fits] at returned
    have bound := (read_ok returned returns_some).1
    have less := splitting.within (turn + 1) packet.length
    rw [Int.toNat_natCast] at bound
    change i ≤ splitting.count (turn + 1) packet.length at bound
    exact short ⟨whole, by omega⟩
  · -- the packet is read from the second byte of its header on
    have one : splitting.count turn 2 = 1 := by
      have positive := splitting.positive turn 2 (by decide)
      have less := splitting.within turn 2
      omega
    have header := @header_run splitting buffer packet rest turn wide
    rw [one, frame_split] at header
    rw [SimpleMessenger.receiveBytes, bind_of_ok header] at returned
    dsimp only at returned
    rw [if_neg (by simp), bind_ok_iff] at returned
    obtain ⟨s, middle, field, returned⟩ := returned
    cases (ofExcept_ok_iff.mp field).2
    have first := congrArg List.head? content
    rw [List.head?_take, if_neg (by omega), (read_ok returned returns_some).2] at first
    exact marked first.symm

/-- After two whole reads the other calls go on with the other frames. -/
theorem delivered_cons {buffers packets : List Bytes} (whole : splitting.count turn 2 = 2)
    (filled : splitting.count (turn + 1) packet.length = packet.length)
    (wide : capacity ≤ buffer.length) (some_size : 1 ≤ packet.length)
    (fits : packet.length ≤ capacity) :
    Delivered splitting turn (buffer :: buffers) (packet :: packets) ↔
      Delivered splitting (turn + 2) buffers packets := by
  obtain ⟨result, returned, content⟩ := @receiveBytes_filled splitting buffer packet
    (packets.flatMap ClientBuffer.frame) turn whole filled wide some_size fits
  unfold Delivered
  change outcome (SimpleMessenger.receiveAll splitting (buffer :: buffers)
    (ahead packet (packets.flatMap ClientBuffer.frame) turn)) = _ ↔ _
  rw [SimpleMessenger.receiveAll, bind_of_ok returned]
  dsimp only
  rw [bind_run, Int.toNat_natCast, content, List.map_cons]
  cases SimpleMessenger.receiveAll splitting buffers
      { bytes := packets.flatMap ClientBuffer.frame, reads := turn + 2 } with
  | ok others after => simp [outcome, pure_run]
  | error exception after => simp [outcome]

/-- What is returned right has been read whole. -/
theorem filled_of_delivered {buffers packets : List Bytes} (wide : capacity ≤ buffer.length)
    (some_size : 1 ≤ packet.length) (fits : packet.length ≤ capacity)
    (marked : packet.head? ≠ some (UInt8.ofNat (packet.length / 256)))
    (delivered : Delivered splitting turn (buffer :: buffers) (packet :: packets)) :
    splitting.count turn 2 = 2 ∧ splitting.count (turn + 1) packet.length = packet.length := by
  by_contra short
  change outcome (SimpleMessenger.receiveAll splitting (buffer :: buffers)
    (ahead packet (packets.flatMap ClientBuffer.frame) turn)) = _ at delivered
  rw [SimpleMessenger.receiveAll, bind_run] at delivered
  cases returned : SimpleMessenger.receiveBytes splitting buffer
      (ahead packet (packets.flatMap ClientBuffer.frame) turn) with
  | error exception after =>
      rw [returned] at delivered
      cases delivered
  | ok pair after =>
      obtain ⟨i, result⟩ := pair
      rw [returned] at delivered
      dsimp only at delivered
      rw [bind_run] at delivered
      have wrong := receiveBytes_short short wide some_size fits marked returned
      cases ran : SimpleMessenger.receiveAll splitting buffers after with
      | error exception final =>
          rw [ran] at delivered
          cases delivered
      | ok others final =>
          rw [ran, List.map_cons] at delivered
          have same := Except.ok.inj delivered
          exact wrong (List.cons.inj same).1

end Receiving

/-- A packet of this size that does not start as its header ends. -/
def payload (size : Nat) : Bytes := List.replicate size (UInt8.ofNat (size / 256) + 1)

theorem length_payload (size : Nat) : (payload size).length = size := List.length_replicate

theorem payload_marked (size : Nat) (some_size : 1 ≤ size) :
    (payload size).head? ≠ some (UInt8.ofNat ((payload size).length / 256)) := by
  rw [length_payload, payload, List.head?_replicate, if_neg (by omega)]
  intro same
  have next := congrArg UInt8.toNat (Option.some.inj same)
  rw [UInt8.toNat_add] at next
  change (_ + 1) % 256 = _ at next
  omega

/-- Frames of these sizes arrive, whatever is in them, if no read is short. And if one is,
there are frames that do not arrive. -/
theorem delivered_iff (splitting : Splitting) (turn : Nat) {buffers : List Bytes}
    {sizes : List Nat} (bounded : ∀ size ∈ sizes, 1 ≤ size ∧ size ≤ capacity)
    (wide : ∀ buffer ∈ buffers, capacity ≤ buffer.length)
    (enough : buffers.length = sizes.length) :
    (∀ frames : List Bytes, frames.map List.length = sizes →
        Delivered splitting turn buffers frames) ↔
      Filled splitting turn sizes := by
  induction sizes generalizing turn buffers with
  | nil =>
      rw [List.eq_nil_of_length_eq_zero enough]
      apply iff_of_true
      · intro frames none_left
        rw [List.map_eq_nil_iff.mp none_left]
        rfl
      · trivial
  | cons size sizes ih =>
      cases buffers with
      | nil => cases enough
      | cons buffer buffers =>
          obtain ⟨⟨some_size, fits⟩, bounded⟩ := List.forall_mem_cons.mp bounded
          obtain ⟨here, wide⟩ := List.forall_mem_cons.mp wide
          have later := ih (turn + 2) bounded wide (Nat.succ.inj enough)
          have long := length_payload size
          constructor
          · intro delivered
            have lengths : ((size :: sizes).map payload).map List.length = size :: sizes := by
              rw [List.map_map, show List.length ∘ payload = id from funext length_payload,
                List.map_id]
            have first := delivered ((size :: sizes).map payload) lengths
            have read := filled_of_delivered here (by omega) (by omega)
              (payload_marked size some_size) first
            rw [long] at read
            refine ⟨read.1, read.2, later.mp fun frames same => ?_⟩
            have whole := delivered (payload size :: frames) (by rw [List.map_cons, long, same])
            apply (delivered_cons read.1 (by rw [long]; exact read.2) here _ _).mp whole
            · omega
            · omega
          · rintro ⟨header, body, rest⟩ frames same
            cases frames with
            | nil => cases same
            | cons packet packets =>
                obtain ⟨length, others⟩ := List.cons.inj same
                subst length
                exact (delivered_cons header body here some_size fits).mpr
                  (later.mpr rest packets others)

/-- All of a request comes in at once. -/
def unsplit : Splitting where
  count := fun _ n => n
  positive := fun _ _ some_asked => some_asked
  within := fun _ _ => Nat.le_refl _

theorem delivered_iff_unsplit :
    Delivered unsplit 0 [List.replicate 1024 0, List.replicate 1024 0]
      [List.replicate 19 7, [1]] := by
  refine (@delivered_iff unsplit 0 _ [19, 1] (by decide) ?_ rfl).mpr ⟨rfl, rfl, rfl, rfl, trivial⟩
    _ rfl
  intro buffer member
  rw [List.eq_of_mem_replicate (n := 2) member, List.length_replicate, capacity]

/-- The first header comes in two pieces. -/
def cutHeader : Splitting where
  count := fun turn n => if turn = 0 then min n 1 else n
  positive := by
    intro turn n some_asked
    split <;> omega
  within := by
    intro turn n
    split <;> omega

/-- The last byte of the header is taken for the first one of the packet. -/
theorem cutHeader_not_delivered :
    ¬ ∀ (splitting : Splitting) (buffers frames : List Bytes),
      (∀ frame ∈ frames, 1 ≤ frame.length ∧ frame.length ≤ capacity) →
      (∀ buffer ∈ buffers, buffer.length = capacity) → buffers.length = frames.length →
        Delivered splitting 0 buffers frames := by
  intro delivered
  have first := delivered cutHeader [List.replicate 1024 0] [[7, 1, 2]] (by decide)
    (by intro buffer member; rw [List.mem_singleton.mp member, List.length_replicate, capacity]) rfl
  have whole := (filled_of_delivered (by rw [List.length_replicate, capacity]) (by decide)
    (by decide) (by decide) first).1
  revert whole
  decide

end Locus.Java
