import Locus.ClientBuffer
import Locus.Transition

set_option autoImplicit false

/- What arrives through `recv()`. A call of `recv(n)` that needs several `::recv`
calls shrinks its vector between them, and the final `resize` clears the bytes
that lie past the shrunk end. -/
namespace Locus.ClientBuffer

open Transition

/-- How many bytes had arrived before the last `::recv` of a call of `recv(n)`. -/
def lastCall (n : Nat) (segments : List Bytes) : Nat :=
  if segments.flatten.length = n then segments.dropLast.flatten.length
  else segments.flatten.length

/-- The kernel serves a request in positive pieces, and with `EAGAIN` once it has no more. -/
structure Serves (n : Nat) (segments : List Bytes) : Prop where
  positive : ∀ segment ∈ segments, segment ≠ []
  within : segments.flatten.length ≤ n

theorem recvLoop_segments {n : Nat} (segments : List Bytes) :
    ∀ (front : Bytes) (earlier : Nat) (buffer : RawVector),
    buffer.storage.length = n → buffer.storage.take front.length = front →
    buffer.size = n - earlier → earlier ≤ front.length →
    front.length + segments.flatten.length ≤ n → (∀ segment ∈ segments, segment ≠ []) →
    ∃ last, recvLoop n (segments.map .data) (n - front.length) buffer =
        (last, n - (front ++ segments.flatten).length, false) ∧
      last.storage.length = n ∧
      last.storage.take (front ++ segments.flatten).length = front ++ segments.flatten ∧
      last.size = n - (if front.length + segments.flatten.length = n then
          (if segments = [] then earlier
            else front.length + segments.dropLast.flatten.length)
        else front.length + segments.flatten.length) := by
  induction segments with
  | nil =>
      intro front earlier buffer length_eq written size_eq before within _
      rw [List.flatten_nil, List.append_nil, List.length_nil, Nat.add_zero]
      by_cases complete : front.length = n
      · have nothing : n - front.length = 0 := by omega
        rw [nothing]
        refine ⟨buffer, rfl, length_eq, written, ?_⟩
        rw [if_pos complete, if_pos rfl, size_eq]
      · obtain ⟨missing, some_left⟩ : ∃ missing, n - front.length = missing + 1 :=
          ⟨n - front.length - 1, by simp at within; omega⟩
        have smaller : missing + 1 ≤ buffer.size := by omega
        rw [some_left]
        refine ⟨{ buffer with size := missing + 1 }, ?_, length_eq, written, ?_⟩
        · simp only [List.map_nil, recvLoop, RawVector.resize_shrink smaller]
        · rw [if_neg complete]
          exact some_left.symm
  | cons segment rest ih =>
      intro front earlier buffer length_eq written size_eq before within positive
      have present : 0 < segment.length :=
        List.length_pos_of_ne_nil (positive segment (List.mem_cons_self ..))
      rw [List.flatten_cons, List.length_append] at within
      obtain ⟨missing, some_left⟩ : ∃ missing, n - front.length = missing + 1 :=
        ⟨n - front.length - 1, by omega⟩
      have smaller : missing + 1 ≤ buffer.size := by omega
      have offset : n - (missing + 1) = front.length := by omega
      have inside : front.length + segment.length ≤ buffer.storage.length := by omega
      obtain ⟨last, ran, length_last, written_last, size_last⟩ := ih (front ++ segment)
        front.length (RawVector.write { buffer with size := missing + 1 } front.length segment)
        ((RawVector.length_write inside).trans length_eq) (RawVector.take_write written)
        some_left.symm (by rw [List.length_append]; omega)
        (by rw [List.length_append]; omega)
        (fun other member => positive other (List.mem_cons_of_mem _ member))
      have rejoin : front ++ segment ++ rest.flatten = front ++ (segment :: rest).flatten := by
        rw [List.flatten_cons, List.append_assoc]
      rw [rejoin] at ran written_last
      refine ⟨last, ?_, length_last, written_last, ?_⟩
      · have step_left : missing + 1 - segment.length = n - (front ++ segment).length := by
          rw [List.length_append]
          omega
        rw [some_left, List.map_cons]
        simp only [recvLoop, RawVector.resize_shrink smaller, offset]
        rw [step_left, ran]
      · rw [size_last, List.length_append, List.flatten_cons, List.length_append,
          ← Nat.add_assoc]
        cases rest with
        | nil => simp
        | cons next others => simp [Nat.add_assoc]

/-- `recv(n)` returns what arrived, with every byte past the last end of the vector cleared. -/
theorem recvN_segments {n : Nat} {segments : List Bytes} (serves : Serves n segments) :
    recvN n (segments.map .data) =
      (segments.flatten.take (n - lastCall n segments) ++
        List.replicate (segments.flatten.length - (n - lastCall n segments)) 0, false) := by
  have within := serves.within
  obtain ⟨last, ran, -, written, size_last⟩ := recvLoop_segments segments [] 0
    (RawVector.zeros n) (by simp [RawVector.zeros]) rfl rfl (Nat.le_refl 0) (by simpa using within)
    serves.positive
  simp only [List.length_nil, Nat.sub_zero, List.nil_append, Nat.zero_add] at ran written size_last
  have size_eq : last.size = n - lastCall n segments := by
    rw [size_last, lastCall]
    by_cases nothing : segments = []
    · simp [nothing]
    · simp [nothing]
  have arrived : n - (n - segments.flatten.length) = segments.flatten.length := by omega
  simp only [recvN, ran, arrived, RawVector.contents_resize written, size_eq,
    Bool.false_eq_true, ↓reduceIte]

/-- The bytes that the final `resize` clears were zero anyway. -/
def Intact (n : Nat) (segments : List Bytes) : Prop :=
  ∀ byte ∈ segments.flatten.drop (n - lastCall n segments), byte = 0

instance (n : Nat) (segments : List Bytes) : Decidable (Intact n segments) :=
  inferInstanceAs (Decidable (∀ byte ∈ segments.flatten.drop (n - lastCall n segments), byte = 0))

theorem recvN_intact {n : Nat} {segments : List Bytes} (serves : Serves n segments)
    (intact : Intact n segments) : recvN n (segments.map .data) = (segments.flatten, false) := by
  have cleared : List.replicate (segments.flatten.length - (n - lastCall n segments)) 0 =
      segments.flatten.drop (n - lastCall n segments) := by
    rw [← List.length_drop]
    exact (List.eq_replicate_of_mem intact).symm
  rw [recvN_segments serves, cleared, List.take_append_drop]

/-- The two bytes of a size are read back. -/
theorem decode_size {size : Nat} (small : size ≤ 65535) :
    LittleEndian.decode (fromBytes (toBytes 2 size) (toBytes 2 0)) = size := by
  have whole : fromBytes (toBytes 2 size) (toBytes 2 0) = LittleEndian.encode 2 size := by
    simp [fromBytes, toBytes]
  rw [whole]
  exact LittleEndian.decode_encode 2 size (by omega)

/-- What `recv()` asks the socket for before it knows the size of a packet. -/
def headerRequest (c : ClientBuffer) : Nat :=
  if c.close = false ∧ c.bufferIn.stage = .Empty then 2 else 0

/-- What `recv()` asks the socket for when it knows the size of the packet. -/
def bodyRequest (c : ClientBuffer) : Nat :=
  if c.close = false ∧ c.bufferIn.stage = .Receiving then c.bufferIn.remainingSize else 0

/-- A connection seen from its reader: the bytes still to come, and what `recvData` returned. -/
structure Reception where
  buffer : ClientBuffer := {}
  wire : Bytes
  delivered : List Bytes := []

/-- `recv()` by the Receiver, with the pieces of its two requests, or `recvData` on a
`PacketReceive` message. -/
inductive RecvEvent where
  | recv (header body : List Bytes)
  | recvData
  deriving DecidableEq, Repr

inductive Receive : Reception → RecvEvent → Reception → Prop
  | recv {before : Reception} {header body : List Bytes} {wire : Bytes}
      (headerServed : Serves before.buffer.headerRequest header)
      (bodyServed : Serves (before.buffer.recvHeader (header.map .data)).bodyRequest body)
      (arrives : before.wire = header.flatten ++ (body.flatten ++ wire)) :
      Receive before (.recv header body)
        { before with
          buffer := before.buffer.recv (header.map .data) (body.map .data)
          wire := wire }
  | recvData {before : Reception} {bytes : Bytes} {buffer : ClientBuffer}
      (announced : .PacketReceive ∈ before.buffer.clientQueue)
      (returned : before.buffer.recvData = .ok (bytes, buffer)) :
      Receive before .recvData
        { before with
          buffer := { buffer with clientQueue := buffer.clientQueue.erase .PacketReceive }
          delivered := before.delivered ++ [bytes] }

/-- No size is split in two, and no call of `recv(n)` loses a byte. -/
def Whole (before : Reception) : RecvEvent → Prop
  | .recv header body =>
      (header.flatten = [] ∨ header.flatten.length = 2) ∧
      Intact before.buffer.headerRequest header ∧
      Intact (before.buffer.recvHeader (header.map .data)).bodyRequest body
  | .recvData => True

instance (before : Reception) (event : RecvEvent) : Decidable (Whole before event) :=
  match event with
  | .recv _ _ => inferInstanceAs (Decidable (_ ∧ _ ∧ _))
  | .recvData => .isTrue trivial

theorem Serves.eq_nil {n : Nat} {segments : List Bytes} (serves : Serves n segments)
    (nothing : segments.flatten = []) : segments = [] := by
  cases segments with
  | nil => rfl
  | cons segment rest =>
      rw [List.flatten_cons, List.append_eq_nil_iff] at nothing
      exact absurd nothing.1 (serves.positive segment (List.mem_cons_self ..))

theorem Serves.eq_nil_of_zero {segments : List Bytes} (serves : Serves 0 segments) :
    segments = [] :=
  serves.eq_nil (List.eq_nil_of_length_eq_zero (Nat.le_zero.mp serves.within))

/-- A buffer that holds a packet, or a part of one, asks for no size. -/
theorem recvHeader_idle {c : ClientBuffer} {header : List Bytes}
    (other : c.bufferIn.stage ≠ .Empty) (served : Serves c.headerRequest header) :
    header = [] ∧ c.recvHeader (header.map .data) = c := by
  have request : c.headerRequest = 0 := by
    simp only [headerRequest, other, and_false, ↓reduceIte]
  rw [request] at served
  refine ⟨served.eq_nil_of_zero, ?_⟩
  simp only [recvHeader, other, and_false, ↓reduceIte]

/-- A buffer that does not receive asks for no bytes. -/
theorem recvBody_idle {c : ClientBuffer} {body : List Bytes}
    (other : c.bufferIn.stage ≠ .Receiving) (served : Serves c.bodyRequest body) :
    body = [] ∧ c.recvBody (body.map .data) = c := by
  have request : c.bodyRequest = 0 := by
    simp only [bodyRequest, other, and_false, ↓reduceIte]
  rw [request] at served
  refine ⟨served.eq_nil_of_zero, ?_⟩
  simp only [recvBody, other, and_false, ↓reduceIte]

/-- How far the stream of packets has come, by the stage of `bufferIn`. -/
inductive Progress (packets : List Bytes) (r : Reception) : Prop
  | empty (rest : List Bytes) (split : packets = r.delivered ++ rest)
      (opened : r.buffer.close = false) (stage : r.buffer.bufferIn.stage = .Empty)
      (held : r.buffer.bufferIn.bytes = [])
      (announced : r.buffer.clientQueue.count .PacketReceive = 0)
      (wire : r.wire = (rest.map frame).flatten)
  | receiving (got missing : Bytes) (rest : List Bytes)
      (split : packets = r.delivered ++ (got ++ missing) :: rest)
      (opened : r.buffer.close = false) (stage : r.buffer.bufferIn.stage = .Receiving)
      (held : r.buffer.bufferIn.bytes = got) (incomplete : missing ≠ [])
      (size : r.buffer.bufferIn.bufferMaxSize = (got ++ missing).length)
      (announced : r.buffer.clientQueue.count .PacketReceive = 0)
      (wire : r.wire = missing ++ (rest.map frame).flatten)
  | full (packet : Bytes) (rest : List Bytes)
      (split : packets = r.delivered ++ packet :: rest)
      (opened : r.buffer.close = false) (stage : r.buffer.bufferIn.stage = .Full)
      (held : r.buffer.bufferIn.bytes = packet)
      (announced : r.buffer.clientQueue.count .PacketReceive = 1)
      (wire : r.wire = (rest.map frame).flatten)

section Steps

variable {packets : List Bytes} {before : Reception}

theorem recvHeader_step {header : List Bytes} {wire : Bytes} (sendable : Sendable packets)
    (progress : Progress packets before) (served : Serves before.buffer.headerRequest header)
    (together : header.flatten = [] ∨ header.flatten.length = 2)
    (intact : Intact before.buffer.headerRequest header)
    (arrives : before.wire = header.flatten ++ wire) :
    Progress packets { before with
      buffer := before.buffer.recvHeader (header.map .data)
      wire := wire } := by
  by_cases empty : before.buffer.bufferIn.stage = .Empty
  · cases progress with
    | receiving _ _ _ _ _ stage => exact absurd (stage.symm.trans empty) (by decide)
    | full _ _ _ _ stage => exact absurd (stage.symm.trans empty) (by decide)
    | empty rest split opened stage held announced stream =>
        have request : before.buffer.headerRequest = 2 := by
          simp only [headerRequest, opened, stage, and_self, ↓reduceIte]
        rw [request] at served intact
        simp only [recvHeader, opened, stage, and_self, ↓reduceIte, recvN_intact served intact]
        rcases together with nothing | both
        · rw [nothing, List.nil_append] at arrives
          rw [if_pos nothing]
          exact .empty rest split rfl stage held announced (arrives ▸ stream)
        · have some_arrived : header.flatten ≠ [] := by
            intro nothing
            rw [nothing] at both
            cases both
          rw [if_neg some_arrived]
          cases rest with
          | nil =>
              rw [stream] at arrives
              exact absurd (List.append_eq_nil_iff.mp arrives.symm).1 some_arrived
          | cons packet rest =>
              obtain ⟨present, small⟩ := sendable packet (by rw [split]; simp)
              -- the two bytes that arrived are the size of the next packet
              have framed : header.flatten ++ wire =
                  toBytes 2 packet.length ++ (packet ++ (rest.map frame).flatten) := by
                rw [← arrives, stream, List.map_cons, List.flatten_cons, frame,
                  List.append_assoc]
              obtain ⟨size_eq, wire_eq⟩ := List.append_inj framed (by simpa [toBytes] using both)
              refine .receiving [] packet rest split rfl rfl held present ?_ announced wire_eq
              change LittleEndian.decode (fromBytes header.flatten (toBytes 2 0)) = _
              rw [size_eq, decode_size small, List.nil_append]
  · obtain ⟨rfl, same⟩ := recvHeader_idle empty served
    rw [List.flatten_nil, List.nil_append] at arrives
    rw [same, ← arrives]
    exact progress

theorem recvBody_step {body : List Bytes} {wire : Bytes} (sendable : Sendable packets)
    (progress : Progress packets before) (served : Serves before.buffer.bodyRequest body)
    (intact : Intact before.buffer.bodyRequest body)
    (arrives : before.wire = body.flatten ++ wire) :
    Progress packets { before with
      buffer := before.buffer.recvBody (body.map .data)
      wire := wire } := by
  by_cases receiving : before.buffer.bufferIn.stage = .Receiving
  · cases progress with
    | empty _ _ _ stage => exact absurd (stage.symm.trans receiving) (by decide)
    | full _ _ _ _ stage => exact absurd (stage.symm.trans receiving) (by decide)
    | receiving got missing rest split opened stage held incomplete size announced stream =>
        obtain ⟨_, small⟩ := sendable (got ++ missing) (by rw [split]; simp)
        have remaining : before.buffer.bufferIn.remainingSize = missing.length := by
          rw [Buffer.remainingSize_eq (by omega) (by rw [held, size]; simp), held, size,
            List.length_append]
          omega
        have request : before.buffer.bodyRequest = missing.length := by
          simp only [bodyRequest, opened, stage, and_self, ↓reduceIte, remaining]
        rw [request] at served intact
        simp only [recvBody, opened, stage, and_self, ↓reduceIte, remaining,
          recvN_intact served intact]
        have cut : body.flatten ++ wire = missing ++ (rest.map frame).flatten := by
          rw [← arrives, stream]
        obtain ⟨left, rfl⟩ :=
          List.prefix_of_prefix_length_le ⟨wire, cut⟩ ⟨_, rfl⟩ served.within
        rw [List.append_assoc] at cut
        have wire_eq : wire = left ++ (rest.map frame).flatten := List.append_cancel_left cut
        rw [← List.append_assoc] at split size
        by_cases nothing : body.flatten = []
        · rw [nothing, List.append_nil] at split size
          rw [nothing, List.nil_append] at incomplete
          rw [if_pos nothing]
          exact .receiving got left rest split rfl stage held incomplete size announced wire_eq
        · rw [if_neg nothing]
          have held_now : (before.buffer.bufferIn.pushBack body.flatten).bytes =
              got ++ body.flatten := by
            rw [Buffer.bytes_pushBack, held]
          have remaining_now : (before.buffer.bufferIn.pushBack body.flatten).remainingSize =
              left.length := by
            rw [List.length_append] at remaining
            rw [Buffer.remainingSize_pushBack (by omega), remaining, Nat.add_sub_cancel_left]
          simp only [onBufferIn, remaining_now, List.length_eq_zero_iff]
          by_cases complete : left = []
          · rw [complete, List.append_nil] at split
            rw [complete, List.nil_append] at wire_eq
            rw [if_pos complete]
            refine .full (got ++ body.flatten) rest split rfl rfl held_now ?_ wire_eq
            change (before.buffer.clientQueue ++ [MessageType.PacketReceive]).count
              MessageType.PacketReceive = 1
            rw [List.count_append, announced]
            rfl
          · rw [if_neg complete]
            exact .receiving (got ++ body.flatten) left rest split rfl stage held_now complete size
              announced wire_eq
  · obtain ⟨rfl, same⟩ := recvBody_idle receiving served
    rw [List.flatten_nil, List.nil_append] at arrives
    rw [same, ← arrives]
    exact progress

end Steps

theorem Progress.opened {packets : List Bytes} {r : Reception} (progress : Progress packets r) :
    r.buffer.close = false := by
  cases progress <;> assumption

/-- `recvData` hands over what `bufferIn` holds and frees it for the next packet. -/
theorem recvData_spec (c : ClientBuffer) :
    ∃ after, c.recvData = .ok (c.bufferIn.bytes, after) ∧ after.bufferIn.bytes = [] ∧
      after.bufferIn.stage = .Empty ∧ after.close = c.close ∧
      after.clientQueue = c.clientQueue := by
  obtain ⟨bufferIn, popped, rest, _, _⟩ := c.bufferIn.popAll_spec
  rw [Buffer.popAll] at popped
  refine ⟨{ c with bufferIn := bufferIn.setStage .Empty }, ?_, rest, rfl, rfl, rfl⟩
  simp only [recvData, popped]

theorem receive_step {packets : List Bytes} {before after : Reception} {event : RecvEvent}
    (sendable : Sendable packets) (progress : Progress packets before)
    (whole : Whole before event) (step : Receive before event after) :
    Progress packets after := by
  cases step with
  | @recv header body wire headerServed bodyServed arrives =>
      obtain ⟨together, headerIntact, bodyIntact⟩ := whole
      have middle := recvHeader_step sendable progress headerServed together headerIntact arrives
      have last := recvBody_step sendable middle bodyServed bodyIntact rfl
      have silent : before.buffer.recv (header.map .data) (body.map .data) =
          recvBody (body.map .data) (before.buffer.recvHeader (header.map .data)) :=
        if_neg (by rw [last.opened]; exact Bool.false_ne_true)
      rw [silent]
      exact last
  | @recvData bytes buffer announced returned =>
      have counted := List.count_pos_iff.mpr announced
      cases progress with
      | empty _ _ _ _ _ quiet => omega
      | receiving _ _ _ _ _ _ _ _ _ quiet => omega
      | full packet rest split opened stage held once stream =>
          obtain ⟨after, ran, rest_eq, stage_eq, close_eq, queue_eq⟩ := recvData_spec before.buffer
          rw [returned] at ran
          cases ran
          refine .empty rest ?_ (close_eq.trans opened) stage_eq rest_eq ?_ stream
          · rw [split, held, List.append_assoc]
            rfl
          · rw [queue_eq, List.count_erase_self, once]

/-- Over a stream of packets, in whatever pieces it arrives, `recvData` returns the
packets in order, as long as no size is split and no call of `recv(n)` loses a byte. -/
theorem delivered_in_order {packets : List Bytes} {events : List RecvEvent} {finish : Reception}
    (sendable : Sendable packets)
    (run : Run (Guarded Whole Receive) { wire := (packets.map frame).flatten } events finish) :
    finish.delivered <+: packets := by
  have progress : Progress packets finish := by
    apply run.invariant (Progress packets)
    · exact .empty packets rfl rfl rfl rfl rfl rfl
    · intro before event after held step
      exact receive_step sendable held step.1 step.2
  cases progress with
  | empty _ split => exact ⟨_, split.symm⟩
  | receiving _ _ _ split => exact ⟨_, split.symm⟩
  | full _ _ split => exact ⟨_, split.symm⟩

theorem delivered_in_order_pair : ∃ finish : Reception, finish.delivered = [[7, 8]] ∧
    finish.delivered <+: [[7, 8]] := by
  have sendable : Sendable [[7, 8]] := by
    intro packet member
    rw [List.mem_singleton.mp member]
    exact ⟨by decide, by decide⟩
  have run : Run (Guarded Whole Receive) { wire := ([[7, 8]].map frame).flatten }
      [.recv [[2, 0]] [[7]], .recv [] [[8]], .recvData] _ :=
    .cons ⟨by decide +kernel, .recv ⟨by decide, by decide⟩ ⟨by decide, by decide⟩ rfl⟩
      (.cons ⟨by decide +kernel, .recv ⟨by decide, by decide⟩ ⟨by decide, by decide⟩ rfl⟩
        (.cons ⟨by decide +kernel, .recvData (by decide) rfl⟩ .nil))
  exact ⟨_, rfl, delivered_in_order sendable run⟩

/-- A packet whose bytes come in two pieces is delivered with its end cleared. -/
theorem torn_packet : ∃ finish : Reception,
    Run Receive { wire := ([[1, 2, 3]].map frame).flatten }
      [.recv [[3, 0]] [[1, 2], [3]], .recvData] finish ∧
    finish.delivered = [[1, 0, 0]] ∧ ¬ finish.delivered <+: [[1, 2, 3]] := by
  have run : Run Receive { wire := ([[1, 2, 3]].map frame).flatten }
      [.recv [[3, 0]] [[1, 2], [3]], .recvData] _ :=
    .cons (.recv ⟨by decide, by decide⟩ ⟨by decide, by decide⟩ rfl)
      (.cons (.recvData (by decide) rfl) .nil)
  exact ⟨_, run, rfl, by decide⟩

end Locus.ClientBuffer
