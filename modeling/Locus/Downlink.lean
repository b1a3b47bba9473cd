import Locus.ClientBufferSend
import Locus.Fifo
import Locus.SimpleMessengerStream

set_option autoImplicit false

/- The way down, both ends at once: the session and the Sender write to a socket, and the client's
`receive` reads from it, twice for a packet. -/
namespace Locus

open Transition ClientBuffer Java

structure Downlink where
  out : Transmission := {}
  /-- How many of the bytes that were written the client has read. -/
  taken : Nat := 0
  /-- The array and the size in it, between the two reads of a `receive`. -/
  header : Option (Bytes × Int16) := none

namespace Downlink

/-- What was written and is yet to be read. -/
def arrived (link : Downlink) : Bytes := link.out.buffer.written.drop link.taken

inductive Event where
  | send (event : SendEvent)
  | header (array : Bytes) (count : Nat)
  | body (count : Nat) (packet : Bytes)
  deriving DecidableEq, Repr

/-- A read gets some of what has arrived, and waits until something has. -/
inductive Step : Downlink → Event → Downlink → Prop
  | send {before : Downlink} {event : SendEvent} {out : Transmission}
      (sends : Transmit before.out event out) : Step before (.send event) { before with out }
  | header {before : Downlink} {splitting : Splitting} {array buffer : Bytes} {count : Nat}
      {s : Int16} {input after : InputStream} (between : before.header = none)
      (there : input.bytes = before.arrived)
      (returned : InputStream.read splitting array 2 input = .ok ((count : Int), buffer) after)
      (size : Converter.byteToShort (buffer.take 2) = .ok s) :
      Step before (.header array count)
        { before with taken := before.taken + count, header := some (buffer, s) }
  | body {before : Downlink} {splitting : Splitting} {array buffer : Bytes} {count : Nat}
      {s : Int16} {input after : InputStream} (inside : before.header = some (array, s))
      (there : input.bytes = before.arrived)
      (returned : InputStream.read splitting array s.toInt input =
        .ok ((count : Int), buffer) after) :
      Step before (.body count (buffer.take count))
        { before with taken := before.taken + count, header := none }

/-- A packet is pushed when the one before it has left, and a read gets all it asks for. -/
def Unbroken (before : Downlink) : Event → Prop
  | .send event => Uncrowded before.out event
  | .header _ count => count = 2
  | .body count _ => before.header.map (fun held => held.2.toInt) = some (count : Int)

instance (before : Downlink) (event : Event) : Decidable (Unbroken before event) :=
  match event with
  | .send event => inferInstanceAs (Decidable (Uncrowded before.out event))
  | .header _ count => inferInstanceAs (Decidable (count = 2))
  | .body count _ => inferInstanceAs (Decidable (_ = some (count : Int)))

/-- What an event is for the packets: `sendData` takes one, or `receive` returns one. -/
def shown : Event → List (Fifo.Action Bytes)
  | .send (.push payload) => [.enter payload]
  | .body _ packet => [.leave packet]
  | _ => []

/-- The connection is open, everything was sent, and everything that was written was read. -/
structure Drained (link : Downlink) : Prop where
  opened : link.out.buffer.close = false
  emptied : link.out.buffer.bufferOut.empty
  reads : link.arrived = []

/-- Where the client is in the packets that were handed to `sendData`. -/
inductive Place (link : Downlink) (queue : List Bytes) : Prop
  | between (done : List Bytes) (header : link.header = none)
      (split : link.out.payloads = done ++ queue)
      (taken : link.taken = (done.map frame).flatten.length)
  | inside (done : List Bytes) (packet : Bytes) (rest : List Bytes) (array : Bytes)
      (header : link.header = some (array, (UInt16.ofNat packet.length).toInt16))
      (split : link.out.payloads = done ++ packet :: rest) (waits : queue = packet :: rest)
      (taken : link.taken = (done.map frame).flatten.length + 2)

structure Follows (link : Downlink) (queue : List Bytes) : Prop where
  sent : Sent link.out
  sendable : Sendable link.out.payloads
  place : Place link queue

section Reading

variable {splitting : Splitting} {buffer result : Bytes} {input after : InputStream}

/-- A read that gets all it asks for has the next bytes of the stream in front. -/
theorem read_full {count : Nat} (asked : 0 < count)
    (returned : InputStream.read splitting buffer count input =
      .ok ((count : Int), result) after) :
    count ≤ input.bytes.length ∧ result.take count = input.bytes.take count := by
  have room : count ≤ buffer.length := by
    by_contra wide
    rw [InputStream.read, if_pos (.inr (by omega))] at returned
    cases returned
  have more : input.bytes ≠ [] := by
    intro ended
    rw [InputStream.read, if_neg (by omega), if_neg (by omega),
      Program.bind_of_ok (Program.get_run input), if_pos ended] at returned
    have impossible : (-1 : Int) = count := congrArg Prod.fst (EStateM.Result.ok.inj returned).1
    omega
  rw [read_run asked room more] at returned
  obtain ⟨length, content⟩ := Prod.mk.inj (EStateM.Result.ok.inj returned).1
  have length : (input.bytes.take (splitting.count input.reads count)).length = count := by omega
  have within := splitting.within input.reads count
  rw [List.length_take] at length
  have whole : splitting.count input.reads count = count := by omega
  rw [whole] at content
  have there : (input.bytes.take count).length = count := by
    rw [List.length_take]
    omega
  refine ⟨by omega, ?_⟩
  rw [← content, List.take_left' there]

theorem byteToShort_toBytes (size : Nat) (small : size ≤ 65535) :
    Converter.byteToShort (toBytes 2 size) = .ok (UInt16.ofNat size).toInt16 := by
  have read := Converter.getBytes_encode 2 size [] (by omega)
  rw [List.append_nil] at read
  rw [Converter.byteToShort, toBytes, read]
  rfl

/-- A size that is read as a count is the size that was written. -/
theorem size_of_count {size count : Nat} (small : size ≤ 65535)
    (counted : (UInt16.ofNat size).toInt16.toInt = (count : Int)) : size = count := by
  change (BitVec.ofNat 16 size).toInt = count at counted
  rw [BitVec.toInt_eq_toNat_cond, BitVec.toNat_ofNat] at counted
  split at counted
  · omega
  · omega

end Reading

section Steps

variable {before after : Downlink} {queue : List Bytes}

theorem Sent.arrived {link : Downlink} (sent : Sent link.out) {done rest : Bytes}
    (stream : link.out.stream = done ++ rest) (taken : link.taken = done.length) :
    link.arrived <+: rest := by
  obtain ⟨unsent, all⟩ := sent.in_order
  refine ⟨unsent.drop (link.taken - link.out.buffer.written.length), ?_⟩
  rw [Downlink.arrived, ← List.drop_append, all, stream, taken, List.drop_left]

theorem stream_append {out : Transmission} {done rest : List Bytes}
    (split : out.payloads = done ++ rest) :
    out.stream = (done.map frame).flatten ++ (rest.map frame).flatten := by
  rw [Transmission.stream, split, List.map_append, List.flatten_append]

theorem payloads_of_transmit {out next : Transmission} {event : SendEvent}
    (sends : Transmit out event next) :
    (∃ payload, event = .push payload ∧ (payload ≠ [] ∧ payload.length ≤ 65535) ∧
      next.payloads = out.payloads ++ [payload]) ∨
    shown (.send event) = [] ∧ next.payloads = out.payloads := by
  cases sends with
  | push idle sendable => exact .inl ⟨_, rfl, sendable, rfl⟩
  | setFull pushed => exact .inr ⟨rfl, rfl⟩
  | send staged returned => exact .inr ⟨rfl, rfl⟩
  | senderSend returned => exact .inr ⟨rfl, rfl⟩

theorem place_of_send (place : Place before queue) {out : Transmission} {added : List Bytes}
    (grown : out.payloads = before.out.payloads ++ added) :
    Place { before with out } (queue ++ added) := by
  cases place with
  | between done header split taken =>
      exact .between done header (by rw [grown, split, List.append_assoc]) taken
  | inside done packet rest array header split waits taken =>
      refine .inside done packet (rest ++ added) array header ?_ ?_ taken
      · rw [grown, split, List.append_assoc, List.cons_append]
      · rw [waits, List.cons_append]

theorem simulated_send (follows : Follows before queue) {event : SendEvent} {out : Transmission}
    (uncrowded : Uncrowded before.out event) (sends : Transmit before.out event out) :
    ∃ next, Run Fifo.Step queue (shown (.send event)) next ∧
      Follows { before with out } next := by
  have sent := transmit_step follows.sent uncrowded sends
  rcases payloads_of_transmit sends with ⟨payload, rfl, sendable, grown⟩ | ⟨silent, same⟩
  · refine ⟨queue ++ [payload], .cons .enter .nil, sent, ?_, place_of_send follows.place grown⟩
    intro packet member
    change packet ∈ out.payloads at member
    rw [grown, List.mem_append, List.mem_singleton] at member
    rcases member with old | rfl
    · exact follows.sendable packet old
    · exact sendable
  · rw [silent]
    refine ⟨queue, .nil, sent, ?_, ?_⟩
    · intro packet member
      exact follows.sendable packet (same ▸ member)
    · have place := @place_of_send before queue follows.place out [] (by simp [same])
      rwa [List.append_nil] at place

/-- The header of the packet in front of the queue. -/
theorem simulated_header (follows : Follows before queue) {splitting : Splitting}
    {array buffer : Bytes} {s : Int16} {input rest : InputStream}
    (between : before.header = none) (there : input.bytes = before.arrived)
    (returned : InputStream.read splitting array 2 input = .ok (((2 : Nat) : Int), buffer) rest)
    (size : Converter.byteToShort (buffer.take 2) = .ok s) :
    Follows { before with taken := before.taken + 2, header := some (buffer, s) } queue := by
  obtain ⟨sent, sendable, place⟩ := follows
  cases place with
  | inside done packet rest array header => rw [between] at header; cases header
  | between done header split taken =>
      obtain ⟨long, front⟩ := @read_full _ _ _ _ _ 2 (by decide) returned
      have coming := Sent.arrived sent (stream_append split) taken
      rw [there] at long front
      have filled : buffer.take 2 = (queue.map frame).flatten.take 2 := by
        rw [front]
        obtain ⟨later, all⟩ := coming
        rw [← all, List.take_append_of_le_length long]
      cases queue with
      | nil =>
          have short := coming.length_le
          rw [List.map_nil, List.flatten_nil, List.length_nil] at short
          omega
      | cons packet queue =>
          have small := (sendable packet (by rw [split]; simp)).2
          have two : (toBytes 2 packet.length).length = 2 := LittleEndian.length_encode 2 _
          rw [List.map_cons, List.flatten_cons, frame, List.append_assoc,
            List.take_left' two] at filled
          rw [filled, byteToShort_toBytes packet.length small] at size
          cases size
          refine ⟨sent, sendable, .inside done packet queue buffer rfl split rfl ?_⟩
          change before.taken + 2 = _
          rw [taken]

/-- The rest of the packet in front of the queue. -/
theorem simulated_body (follows : Follows before queue) {splitting : Splitting}
    {array buffer : Bytes} {count : Nat} {s : Int16} {input rest : InputStream}
    (inside : before.header = some (array, s)) (there : input.bytes = before.arrived)
    (returned : InputStream.read splitting array s.toInt input = .ok ((count : Int), buffer) rest)
    (whole : s.toInt = (count : Int)) :
    ∃ next, Run Fifo.Step queue [.leave (buffer.take count)] next ∧
      Follows { before with taken := before.taken + count, header := none } next := by
  obtain ⟨sent, sendable, place⟩ := follows
  cases place with
  | between done header => rw [inside] at header; cases header
  | inside done packet rest held header split waits taken =>
      rw [inside] at header
      cases header
      obtain ⟨present, small⟩ := sendable packet (by rw [split]; simp)
      cases size_of_count small whole
      rw [whole] at returned
      obtain ⟨long, front⟩ := read_full (List.length_pos_of_ne_nil present) returned
      have stream : before.out.stream = ((done.map frame).flatten ++ toBytes 2 packet.length) ++
          (packet ++ (rest.map frame).flatten) := by
        rw [stream_append split, List.map_cons, List.flatten_cons, frame]
        simp
      have two : (toBytes 2 packet.length).length = 2 := LittleEndian.length_encode 2 _
      obtain ⟨later, all⟩ := Sent.arrived sent stream (by rw [taken, List.length_append, two])
      have filled : buffer.take packet.length = packet := by
        rw [front, there]
        rw [there] at long
        rw [← List.take_append_of_le_length long, all, List.take_left]
      rw [filled, waits]
      refine ⟨rest, .cons .leave .nil, sent, sendable, .between (done ++ [packet]) rfl ?_ ?_⟩
      · rw [split, List.append_assoc, List.singleton_append]
      · change before.taken + packet.length = _
        rw [taken, List.map_append, List.flatten_append, List.length_append]
        simp only [List.map_cons, List.map_nil, List.flatten_cons, List.flatten_nil,
          List.append_nil, frame, List.length_append, two]
        omega

theorem simulated_step {event : Event} (follows : Follows before queue)
    (step : Guarded Unbroken Step before event after) :
    ∃ next, Run Fifo.Step queue (shown event) next ∧ Follows after next := by
  obtain ⟨unbroken, step⟩ := step
  cases step with
  | send sends => exact simulated_send follows unbroken sends
  | header between there returned size =>
      cases unbroken
      exact ⟨queue, .nil, simulated_header follows between there returned size⟩
  | body inside there returned =>
      rw [Unbroken, inside, Option.map_some, Option.some.injEq] at unbroken
      exact simulated_body follows inside there returned unbroken

/-- Nothing waits on a link that is drained. -/
theorem queue_of_drained (follows : Follows before queue) (drained : Drained before) :
    queue = [] := by
  obtain ⟨sent, sendable, place⟩ := follows
  obtain ⟨opened, emptied, reads⟩ := drained
  have nothing : before.out.buffer.bufferOut.bytes = [] := by
    have zero : before.out.buffer.bufferOut.bufferSize = 0 := by simpa [Buffer.empty] using emptied
    rw [before.out.buffer.bufferOut.sized] at zero
    exact List.eq_nil_of_length_eq_zero zero
  have all : before.out.buffer.written = before.out.stream := by
    cases sent with
    | closed closed _ => rw [opened] at closed; cases closed
    | resting _ _ line_eq => rwa [line, nothing, List.append_nil] at line_eq
    | waiting done payload payloads _ _ held _ =>
        exact absurd (held.symm.trans nothing)
          (sendable payload (by rw [payloads]; simp)).1
  rw [arrived, all, List.drop_eq_nil_iff] at reads
  cases place with
  | between done header split taken =>
      rw [stream_append split, List.length_append, taken] at reads
      cases queue with
      | nil => rfl
      | cons packet queue =>
          rw [List.map_cons, List.flatten_cons, frame] at reads
          simp [toBytes, LittleEndian.length_encode] at reads
  | inside done packet rest array header split waits taken =>
      have present := (sendable packet (by rw [split]; simp)).1
      rw [stream_append split, taken, List.map_cons, List.flatten_cons, frame] at reads
      have some_left := List.length_pos_of_ne_nil present
      have two : (toBytes 2 packet.length).length = 2 := LittleEndian.length_encode 2 _
      simp only [List.length_append, two] at reads
      omega

end Steps

/-- Two packets, the second of which is half written while the client reads the first. -/
def conversation : List Event :=
  [.send (.push [5, 6]), .send .setFull, .send (.send [.count 2, .count 2]), .header [0, 0, 0] 2,
    .send (.push [7]), .send .setFull, .send (.send [.count 1]), .body 2 [5, 6],
    .send (.senderSend [.count 1, .count 1]), .header [0, 0, 0] 2, .body 1 [7]]

end Downlink

end Locus
