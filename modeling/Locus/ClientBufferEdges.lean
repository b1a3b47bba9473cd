import Locus.ClientBufferRecv

set_option autoImplicit false

/- Bytes on the way from an open connection into `bufferIn`: the Receiver calls `recv()` when
an edge of the socket is reported, and the session frees `bufferIn` for the next packet. -/
namespace Locus.ClientBuffer

open Transition

/-- `SimpleClient::recvData` up to the pop. -/
def popIn (c : ClientBuffer) : Except Fault (Bytes × ClientBuffer) :=
  match c.bufferIn.popN c.bufferIn.size with
  | .error fault => .error fault
  | .ok (bytes, bufferIn) => .ok (bytes, { c with bufferIn })

/-- The last step of `SimpleClient::recvData`. -/
def freeIn (c : ClientBuffer) : ClientBuffer := c.onBufferIn (·.setStage .Empty)

/-- How far `ProtocolClient` is with a `PacketReceive` message. -/
inductive Reader where
  | idle
  | handling
  /-- It has taken the bytes, and `bufferIn` is not free yet. -/
  | popped
  deriving DecidableEq, Repr

structure Inbound where
  buffer : ClientBuffer := {}
  /-- The bytes in the socket that were not read. -/
  unread : Bytes := []
  /-- Bytes have arrived since the last report. -/
  armed : Bool := false
  /-- `epoll_wait` has reported the socket, and `recv()` was not called for it. -/
  reported : Bool := false
  reader : Reader := .idle

/-- The `::recv` calls of one `recv(n)`, while bytes arrive: the pieces read, and what is left
unread. There is nothing more to read at the last of them, unless they have read all. -/
inductive Reads : (n : Nat) → (unread arrived : Bytes) → (pieces : List Bytes) →
    (left : Bytes) → Prop
  | done {unread : Bytes} : Reads 0 unread [] [] unread
  | again {n : Nat} : Reads (n + 1) [] [] [] []
  | arrive {n : Nat} {unread bytes arrived left : Bytes} {pieces : List Bytes}
      (some_arrive : bytes ≠ []) (rest : Reads n (unread ++ bytes) arrived pieces left) :
      Reads n unread (bytes ++ arrived) pieces left
  | data {n : Nat} {piece unread arrived left : Bytes} {pieces : List Bytes}
      (positive : piece ≠ []) (within : piece.length ≤ n)
      (rest : Reads (n - piece.length) unread arrived pieces left) :
      Reads n (piece ++ unread) arrived (piece :: pieces) left

inductive InboundEvent where
  | arrive (bytes : Bytes)
  | epollWait
  /-- `recv()` by the Receiver, with the pieces of its two requests and all that arrived. -/
  | recv (header body : List Bytes) (arrived : Bytes)
  /-- `ProtocolClient` pops a `PacketReceive` message. -/
  | receiveData
  | pop
  | free
  | handled
  deriving DecidableEq, Repr

/-- `recv()` is one step for the session, and the handler reads as often as it likes. -/
inductive Inflow (s : Inbound) : InboundEvent → Inbound → Prop
  | arrive {bytes : Bytes} (some_arrive : bytes ≠ []) : Inflow s (.arrive bytes)
      { s with unread := s.unread ++ bytes, armed := true }
  | epollWait (armed : s.armed = true) : Inflow s .epollWait
      { s with armed := false, reported := true }
  | recv {header body : List Bytes} {first second middle left : Bytes}
      (reported : s.reported = true) (opened : s.buffer.close = false)
      (headerRead : Reads s.buffer.headerRequest s.unread first header middle)
      (bodyRead : Reads (s.buffer.recvHeader (header.map .data)).bodyRequest middle second body
        left) :
      Inflow s (.recv header body (first ++ second))
        { s with
          buffer := s.buffer.recv (header.map .data) (body.map .data)
          unread := left
          armed := s.armed || !(first ++ second).isEmpty
          reported := false }
  | receiveData (idle : s.reader = .idle) (announced : .PacketReceive ∈ s.buffer.clientQueue) :
      Inflow s .receiveData
        { s with
          buffer := { s.buffer with clientQueue := s.buffer.clientQueue.erase .PacketReceive }
          reader := .handling }
  | pop {bytes : Bytes} {buffer : ClientBuffer} (handling : s.reader = .handling)
      (returned : s.buffer.popIn = .ok (bytes, buffer)) :
      Inflow s .pop { s with buffer, reader := .popped }
  | free (popped : s.reader = .popped) : Inflow s .free
      { s with buffer := s.buffer.freeIn, reader := .handling }
  | handled (handling : s.reader = .handling) : Inflow s .handled { s with reader := .idle }

/-- `bufferIn` waits for bytes. -/
def Awaits (c : ClientBuffer) : Prop :=
  c.bufferIn.stage = .Empty ∨ c.bufferIn.stage = .Receiving

/-- Where unread bytes are waited for, a report is still to be given or served. -/
def NoStrandedInput (s : Inbound) : Prop :=
  s.unread ≠ [] → s.buffer.Awaits → s.armed = true ∨ s.reported = true

/-- `bufferIn` is freed for bytes whose report has been served already, or `recv()` has a
packet without bytes to fill while more bytes are there. -/
def Strands (s : Inbound) : InboundEvent → Prop
  | .free => s.unread ≠ [] ∧ s.armed = false ∧ s.reported = false
  | .recv header _ arrived =>
      (s.buffer.recvHeader (header.map .data)).bufferIn.stage = .Receiving ∧
      (s.buffer.recvHeader (header.map .data)).bufferIn.remainingSize = 0 ∧
      header.flatten.length < s.unread.length ∧ arrived = [] ∧ s.armed = false
  | _ => False

theorem Reads.spec {n : Nat} {unread arrived left : Bytes} {pieces : List Bytes}
    (reads : Reads n unread arrived pieces left) :
    Serves n pieces ∧ unread ++ arrived = pieces.flatten ++ left ∧
      (pieces.flatten.length = n ∨ left = []) := by
  induction reads with
  | done => exact ⟨⟨by simp, by simp⟩, by simp, .inl rfl⟩
  | again => exact ⟨⟨by simp, by simp⟩, rfl, .inr rfl⟩
  | arrive some_arrive rest ih =>
      obtain ⟨serves, split, stop⟩ := ih
      exact ⟨serves, by rw [← List.append_assoc, split], stop⟩
  | @data n piece unread arrived left pieces positive within rest ih =>
      obtain ⟨serves, split, stop⟩ := ih
      have shorter := serves.within
      refine ⟨⟨?_, ?_⟩, ?_, ?_⟩
      · intro other member
        rcases List.mem_cons.mp member with rfl | member
        · exact positive
        · exact serves.positive other member
      · rw [List.flatten_cons, List.length_append]
        omega
      · rw [List.flatten_cons, List.append_assoc, List.append_assoc, split]
      · apply stop.imp_left
        intro all
        rw [List.flatten_cons, List.length_append]
        omega

/-- `recv(n)` returns as many bytes as it has read. -/
theorem recvN_length {n : Nat} {pieces : List Bytes} (serves : Serves n pieces) :
    (recvN n (pieces.map .data)).1.length = pieces.flatten.length ∧
      (recvN n (pieces.map .data)).2 = false := by
  rw [recvN_segments serves]
  refine ⟨?_, rfl⟩
  rw [List.length_append, List.length_take, List.length_replicate]
  omega

theorem recvHeader_spec {c : ClientBuffer} {header : List Bytes} (opened : c.close = false)
    (serves : Serves c.headerRequest header) :
    (c.recvHeader (header.map .data)).close = false ∧
      (c.bufferIn.stage ≠ .Empty → header.flatten = [] ∧ c.recvHeader (header.map .data) = c) ∧
      (c.bufferIn.stage = .Empty → c.headerRequest = 2 ∧
        ((header.flatten = [] ∧ (c.recvHeader (header.map .data)).bufferIn.stage = .Empty) ∨
          (c.recvHeader (header.map .data)).bufferIn.stage = .Receiving)) := by
  by_cases empty : c.bufferIn.stage = .Empty
  · have request : c.headerRequest = 2 := by
      simp only [headerRequest, opened, empty, and_self, ↓reduceIte]
    rw [request] at serves
    obtain ⟨length_eq, open_still⟩ := recvN_length serves
    unfold recvHeader
    rw [if_pos ⟨opened, empty⟩]
    dsimp only
    split
    · rename_i nothing
      rw [nothing] at length_eq
      have none_read := List.eq_nil_of_length_eq_zero length_eq.symm
      exact ⟨open_still, fun other => absurd empty other,
        fun _ => ⟨request, .inl ⟨none_read, empty⟩⟩⟩
    · exact ⟨open_still, fun other => absurd empty other, fun _ => ⟨request, .inr rfl⟩⟩
  · obtain ⟨rfl, same⟩ := recvHeader_idle empty serves
    rw [same]
    exact ⟨opened, fun _ => ⟨rfl, rfl⟩, fun impossible => absurd impossible empty⟩

theorem recvBody_spec {c : ClientBuffer} {body : List Bytes} (opened : c.close = false)
    (serves : Serves c.bodyRequest body) :
    (c.recvBody (body.map .data)).close = false ∧
      (c.bufferIn.stage ≠ .Receiving →
        body.flatten = [] ∧ c.recvBody (body.map .data) = c) ∧
      (c.bufferIn.stage = .Receiving → c.bodyRequest = c.bufferIn.remainingSize ∧
        (c.recvBody (body.map .data)).bufferIn.stage =
          if 0 < c.bufferIn.remainingSize ∧ body.flatten.length = c.bufferIn.remainingSize
          then .Full else .Receiving) := by
  by_cases receiving : c.bufferIn.stage = .Receiving
  · have request : c.bodyRequest = c.bufferIn.remainingSize := by
      simp only [bodyRequest, opened, receiving, and_self, ↓reduceIte]
    rw [request] at serves
    have within := serves.within
    obtain ⟨length_eq, open_still⟩ := recvN_length serves
    unfold recvBody
    rw [if_pos ⟨opened, receiving⟩]
    dsimp only
    generalize (recvN c.bufferIn.remainingSize (body.map .data)).1 = bytes at length_eq
    have left : (c.bufferIn.pushBack bytes).remainingSize =
        c.bufferIn.remainingSize - bytes.length :=
          Buffer.remainingSize_pushBack (by omega)
    split
    · rename_i nothing
      rw [nothing, List.length_nil] at length_eq
      refine ⟨open_still, fun other => absurd receiving other, fun _ => ⟨request, ?_⟩⟩
      rw [if_neg (by omega)]
      exact receiving
    · rename_i something
      have present := List.length_pos_of_ne_nil something
      split
      · rename_i complete
        change (c.bufferIn.pushBack bytes).remainingSize = 0 at complete
        refine ⟨open_still, fun other => absurd receiving other, fun _ => ⟨request, ?_⟩⟩
        rw [if_pos (by omega)]
        rfl
      · rename_i incomplete
        change ¬ (c.bufferIn.pushBack bytes).remainingSize = 0 at incomplete
        refine ⟨open_still, fun other => absurd receiving other, fun _ => ⟨request, ?_⟩⟩
        rw [if_neg (by omega)]
        exact receiving
  · obtain ⟨rfl, same⟩ := recvBody_idle receiving serves
    rw [same]
    exact ⟨opened, fun _ => ⟨rfl, rfl⟩, fun impossible => absurd impossible receiving⟩

section Recv

variable {c : ClientBuffer} {header body : List Bytes} {unread first middle second left : Bytes}

/-- Where a call of `recv()` can leave bytes that `bufferIn` waits for, though none of them
has arrived meanwhile: only at a packet without bytes. -/
theorem recv_leaves (opened : c.close = false)
    (headerRead : Reads c.headerRequest unread first header middle)
    (bodyRead : Reads (c.recvHeader (header.map .data)).bodyRequest middle second body left)
    (quiet : first ++ second = []) :
    (left ≠ [] ∧ (c.recv (header.map .data) (body.map .data)).Awaits) ↔
      ((c.recvHeader (header.map .data)).bufferIn.stage = .Receiving ∧
        (c.recvHeader (header.map .data)).bufferIn.remainingSize = 0 ∧
        header.flatten.length < unread.length) := by
  obtain ⟨headerServed, headerSplit, headerStop⟩ := headerRead.spec
  obtain ⟨bodyServed, bodySplit, bodyStop⟩ := bodyRead.spec
  obtain ⟨nothing_first, nothing_second⟩ := List.append_eq_nil_iff.mp quiet
  subst nothing_first nothing_second
  rw [List.append_nil] at headerSplit bodySplit
  obtain ⟨open_middle, other_stage, empty_stage⟩ := recvHeader_spec opened headerServed
  obtain ⟨open_after, other_body, receiving_body⟩ := recvBody_spec open_middle bodyServed
  have after : c.recv (header.map .data) (body.map .data) =
      (c.recvHeader (header.map .data)).recvBody (body.map .data) := by
    rw [recv, recvClose, open_after]
    rfl
  rw [after]
  have lengths := congrArg List.length headerSplit
  rw [List.length_append] at lengths
  have bodyLengths := congrArg List.length bodySplit
  rw [List.length_append] at bodyLengths
  have within := bodyServed.within
  by_cases receiving : (c.recvHeader (header.map .data)).bufferIn.stage = .Receiving
  · obtain ⟨request, stage⟩ := receiving_body receiving
    rw [request] at within bodyStop
    constructor
    · rintro ⟨some_left, awaits⟩
      refine ⟨receiving, ?_⟩
      have present := List.length_pos_of_ne_nil some_left
      have all := bodyStop.resolve_right some_left
      have zero : (c.recvHeader (header.map .data)).bufferIn.remainingSize = 0 := by
        by_contra positive
        rw [Awaits, stage, if_pos ⟨by omega, all⟩] at awaits
        revert awaits
        decide
      exact ⟨zero, by omega⟩
    · rintro ⟨_, zero, more⟩
      refine ⟨?_, .inr ?_⟩
      · rintro rfl
        rw [List.length_nil] at bodyLengths
        omega
      · rw [stage, if_neg (by omega)]
  · constructor
    · rintro ⟨some_left, awaits⟩
      obtain ⟨unread_body, same⟩ := other_body receiving
      rw [same] at awaits
      -- the header was asked for and the socket was drained
      have empty := awaits.resolve_right receiving
      rw [unread_body, List.nil_append] at bodySplit
      subst bodySplit
      by_cases start : c.bufferIn.stage = .Empty
      · obtain ⟨request, none_read | impossible⟩ := empty_stage start
        · have all := headerStop.resolve_right some_left
          rw [none_read.1, request] at all
          cases all
        · exact absurd impossible receiving
      · rw [(other_stage start).2] at empty
        exact absurd empty start
    · rintro ⟨stage, _⟩
      exact absurd stage receiving

end Recv

/-- A step that strands no bytes keeps all of them covered. -/
theorem kept_inflow {before after : Inbound} {event : InboundEvent}
    (kept : NoStrandedInput before) (step : Inflow before event after)
    (sound : ¬ Strands before event) : NoStrandedInput after := by
  cases step with
  | arrive => exact fun _ _ => .inl rfl
  | epollWait => exact fun _ _ => .inr rfl
  | @recv header body first second middle left reported opened headerRead bodyRead =>
      intro some_left awaits
      by_cases quiet : first ++ second = []
      · obtain ⟨stage, zero, more⟩ :=
          (recv_leaves opened headerRead bodyRead quiet).mp ⟨some_left, awaits⟩
        refine .inl ?_
        by_contra unarmed
        simp only [quiet, List.isEmpty_nil, Bool.not_true, Bool.or_false] at unarmed
        exact sound ⟨stage, zero, more, quiet, Bool.eq_false_iff.mpr unarmed⟩
      · refine .inl ?_
        simp [quiet]
  | receiveData | handled => exact kept
  | @pop bytes buffer handling returned =>
      have stage : buffer.bufferIn.stage = before.buffer.bufferIn.stage := by
        obtain ⟨popped, success, _, same, _⟩ := before.buffer.bufferIn.popAll_spec
        rw [Buffer.popAll] at success
        simp only [popIn, success] at returned
        cases returned
        exact same
      intro some_left awaits
      rw [Awaits, stage] at awaits
      exact kept some_left awaits
  | free popped =>
      intro some_left _
      by_contra neither
      obtain ⟨unarmed, unreported⟩ := not_or.mp neither
      exact sound ⟨some_left, Bool.eq_false_iff.mpr unarmed, Bool.eq_false_iff.mpr unreported⟩

theorem stranded_inflow {before after : Inbound} {event : InboundEvent}
    (step : Inflow before event after) (strands : Strands before event) :
    ¬ NoStrandedInput after := by
  intro kept
  cases step with
  | free popped =>
      obtain ⟨some_left, unarmed, unreported⟩ := strands
      rcases kept some_left (.inl rfl) with armed | reported
      · exact Bool.false_ne_true (unarmed.symm.trans armed)
      · exact Bool.false_ne_true (unreported.symm.trans reported)
  | @recv header body first second middle left reported opened headerRead bodyRead =>
      obtain ⟨stage, zero, more, quiet, unarmed⟩ := strands
      obtain ⟨some_left, awaits⟩ :=
        (recv_leaves opened headerRead bodyRead quiet).mpr ⟨stage, zero, more⟩
      have covered := kept some_left awaits
      simp [quiet, unarmed] at covered
  | arrive | epollWait | receiveData | pop | handled => exact strands

/-- No input is stranded in exactly the runs in which `bufferIn` is freed only where no unread
bytes are there or a report of them is to come, and no packet without bytes stops the reading. -/
theorem noStrandedInput_iff (events : List InboundEvent) :
    Always Inflow {} (fun _ _ after => NoStrandedInput after) events ↔
      Always Inflow {} (fun before event _ => ¬ Strands before event) events := by
  refine always_iff (fun some_left => absurd rfl some_left) ?_ ?_ events
  · intro past before event after run step kept sound
    exact kept_inflow kept step sound
  · intro past before event after run step strands
    exact stranded_inflow step strands

/-- Two packets arrive together. -/
def twoPackets : List InboundEvent :=
  [.arrive [1, 0, 65, 1, 0, 66], .epollWait, .recv [[1, 0]] [[65]] [], .receiveData, .pop, .free]

/-- The second packet stays in the socket. -/
theorem twoPackets_stranded : ∃ finish,
    Run Inflow {} twoPackets finish ∧ ¬ NoStrandedInput finish := by
  have headerRead : Reads 2 [1, 0, 65, 1, 0, 66] [] [[1, 0]] [65, 1, 0, 66] :=
    @Reads.data 2 [1, 0] _ _ _ _ (by decide) (by decide) .done
  have bodyRead : Reads 1 [65, 1, 0, 66] [] [[65]] [1, 0, 66] :=
    @Reads.data 1 [65] _ _ _ _ (by decide) (by decide) .done
  have read : Inflow { unread := [1, 0, 65, 1, 0, 66], reported := true }
      (.recv [[1, 0]] [[65]] []) _ :=
    @Inflow.recv _ [[1, 0]] [[65]] [] [] [65, 1, 0, 66] [1, 0, 66] rfl rfl headerRead bodyRead
  have run : Run Inflow {} twoPackets _ :=
    .cons (.arrive (by decide)) (.cons (.epollWait rfl) (.cons read
      (.cons (.receiveData rfl (by decide)) (.cons (.pop rfl rfl) (.cons (.free rfl) .nil)))))
  refine ⟨_, run, ?_⟩
  intro kept
  have covered := kept (by decide) (.inl rfl)
  revert covered
  decide

end Locus.ClientBuffer
