import Locus.CipherModule
import Locus.ClientBufferRecv
import Locus.Fifo
import Locus.JavaPackets

set_option autoImplicit false

/- The way up, both ends at once: the client's `send` writes to a socket, the Receiver reads from it
and the session takes the packets. -/
namespace Locus

/-- The message that `SimpleMessenger.send` writes, size and packet. -/
def Java.SimpleMessenger.write (buffer : Bytes) (n : Nat) : Except Exception Bytes :=
  (send buffer n).map fun packet => Converter.shortToByte (UInt16.ofNat n).toInt16 ++ packet

namespace Uplink

open Transition ClientBuffer Java

inductive Event where
  | write (array : Bytes) (n : Nat)
  | recv (header body : List Bytes)
  | recvData (packet : Bytes)
  deriving DecidableEq, Repr

inductive Step : Reception → Event → Reception → Prop
  | write {before : Reception} {array message : Bytes} {n : Nat}
      (written : SimpleMessenger.write array n = .ok message) :
      Step before (.write array n) { before with wire := before.wire ++ message }
  | recv {before after : Reception} {header body : List Bytes}
      (receives : Receive before (.recv header body) after) : Step before (.recv header body) after
  | recvData {before after : Reception} {packet : Bytes}
      (receives : Receive before .recvData after)
      (returned : after.delivered = before.delivered ++ [packet]) :
      Step before (.recvData packet) after

/-- A packet has a size that two bytes can hold, and what the server reads comes whole. -/
def Unbroken (before : Reception) : Event → Prop
  | .write _ n => 1 ≤ n ∧ n ≤ 65535
  | .recv header body => Whole before (.recv header body)
  | .recvData _ => True

instance (before : Reception) (event : Event) : Decidable (Unbroken before event) :=
  match event with
  | .write _ n => inferInstanceAs (Decidable (1 ≤ n ∧ n ≤ 65535))
  | .recv header body => inferInstanceAs (Decidable (Whole before (.recv header body)))
  | .recvData _ => .isTrue trivial

/-- What an event is for the packets: `send` takes one, or `recvData` returns one. -/
def shown : Event → List (Fifo.Action Bytes)
  | .write array n => [.enter (array.take n)]
  | .recv _ _ => []
  | .recvData packet => [.leave packet]

/-- Everything that was written was read, and the session has taken what was read. -/
structure Drained (link : Reception) : Prop where
  reads : link.wire = []
  taken : link.buffer.bufferIn.stage = .Empty

/-- The packets written are those delivered, and then those that wait. -/
structure Follows (link : Reception) (queue : List Bytes) : Prop where
  sendable : Sendable (link.delivered ++ queue)
  progress : Progress (link.delivered ++ queue) link

section Writing

theorem send_take {array packet : Bytes} {n : Nat}
    (sent : SimpleMessenger.send array n = .ok packet) :
    packet = array.take n ∧ packet.length = n := by
  have taken := SimpleMessenger.send_ok sent
  refine ⟨taken, ?_⟩
  unfold SimpleMessenger.send at sent
  split at sent
  · rw [taken, List.length_take]
    omega
  · cases sent

/-- What is written is the frame of the packet. -/
theorem write_frame {array message : Bytes} {n : Nat} (small : n ≤ 65535)
    (written : SimpleMessenger.write array n = .ok message) :
    message = frame (array.take n) ∧ (array.take n).length = n := by
  rw [SimpleMessenger.write] at written
  cases sent : SimpleMessenger.send array n with
  | error exception => rw [sent] at written; cases written
  | ok packet =>
      obtain ⟨taken, length⟩ := send_take sent
      rw [sent] at written
      cases written
      rw [taken] at length ⊢
      refine ⟨?_, length⟩
      have size : (UInt16.ofNat n).toInt16.toUInt16.toNat = n := by
        change (UInt16.ofNat n).toNat = n
        rw [UInt16.toNat_ofNat']
        omega
      rw [frame, length, Converter.shortToByte, size, toBytes]

/-- A packet more on the wire is a packet more to deliver. -/
theorem progress_write {packets : List Bytes} {link : Reception} {packet : Bytes}
    (progress : Progress packets link) :
    Progress (packets ++ [packet]) { link with wire := link.wire ++ frame packet } := by
  cases progress with
  | empty rest split opened stage held announced wire =>
      refine .empty (rest ++ [packet]) ?_ opened stage held announced ?_
      · rw [split, List.append_assoc]
      · simp [wire]
  | receiving got missing rest split opened stage held incomplete size announced wire =>
      refine .receiving got missing (rest ++ [packet]) ?_ opened stage held incomplete size
        announced ?_
      · rw [split, List.append_assoc, List.cons_append]
      · simp [wire]
  | full first rest split opened stage held announced wire =>
      refine .full first (rest ++ [packet]) ?_ opened stage held announced ?_
      · rw [split, List.append_assoc, List.cons_append]
      · simp [wire]

end Writing

section Steps

variable {before after : Reception} {queue : List Bytes}

theorem simulated_write (follows : Follows before queue) {array message : Bytes} {n : Nat}
    (sized : 1 ≤ n ∧ n ≤ 65535) (written : SimpleMessenger.write array n = .ok message) :
    Follows { before with wire := before.wire ++ message } (queue ++ [array.take n]) := by
  obtain ⟨framed, length⟩ := write_frame sized.2 written
  constructor
  · intro packet member
    rw [← List.append_assoc, List.mem_append, List.mem_singleton] at member
    rcases member with old | rfl
    · exact follows.sendable packet old
    · exact ⟨List.ne_nil_of_length_pos (by omega), by omega⟩
  · rw [framed, ← List.append_assoc]
    exact progress_write follows.progress

theorem delivered_of_recv {header body : List Bytes}
    (receives : Receive before (.recv header body) after) : after.delivered = before.delivered := by
  cases receives with
  | recv headerServed bodyServed arrives => rfl

theorem Progress.split {packets : List Bytes} {link : Reception}
    (progress : Progress packets link) :
    ∃ rest, packets = link.delivered ++ rest := by
  cases progress with
  | empty rest split => exact ⟨rest, split⟩
  | receiving got missing rest split => exact ⟨_, split⟩
  | full packet rest split => exact ⟨_, split⟩

theorem simulated_step {event : Event} (follows : Follows before queue)
    (step : Guarded Unbroken Step before event after) :
    ∃ next, Run Fifo.Step queue (shown event) next ∧ Follows after next := by
  obtain ⟨unbroken, step⟩ := step
  cases step with
  | write written =>
      exact ⟨_, .cons .enter .nil, simulated_write follows unbroken written⟩
  | @recv _ header body receives =>
      have same := delivered_of_recv receives
      have whole : Whole before (.recv header body) := unbroken
      refine ⟨queue, .nil, ?_⟩
      have progress := receive_step follows.sendable follows.progress whole receives
      rw [← same] at progress
      exact ⟨same ▸ follows.sendable, progress⟩
  | @recvData _ packet receives returned =>
      have whole : Whole before .recvData := trivial
      have progress := receive_step follows.sendable follows.progress whole receives
      obtain ⟨rest, split⟩ := Progress.split progress
      rw [returned, List.append_assoc] at split
      have front : queue = packet :: rest := List.append_cancel_left split
      have same : before.delivered ++ queue = after.delivered ++ rest := by
        rw [returned, front, List.append_assoc, List.singleton_append]
      rw [same] at progress
      rw [front]
      exact ⟨rest, .cons .leave .nil, same ▸ follows.sendable, progress⟩

/-- Nothing waits on a link that is drained. -/
theorem queue_of_drained (follows : Follows before queue) (drained : Drained before) :
    queue = [] := by
  obtain ⟨sendable, progress⟩ := follows
  cases progress with
  | receiving _ _ _ _ _ stage => rw [drained.taken] at stage; cases stage
  | full _ _ _ _ stage => rw [drained.taken] at stage; cases stage
  | empty rest split opened stage held announced wire =>
      rw [List.append_cancel_left split]
      rw [drained.reads] at wire
      cases rest with
      | nil => rfl
      | cons packet rest => simp [frame, toBytes, LittleEndian.encode] at wire

end Steps

/-- The connection before anything was written. -/
def fresh : Reception :=
  { buffer := { bufferIn := Buffer.blank, bufferOut := Buffer.blank }, wire := [] }

/-- However what the client writes is cut into pieces and whenever the Receiver and the session are
served, as long as what is read comes whole, the packets that `recvData` returns are the packets
handed to `send`, in their order, and all of them once the link is drained. -/
theorem uplink_refines {events : List Event} {finish : Reception}
    (run : Run (Guarded Unbroken Step) fresh events finish) :
    (∃ queue, Run Fifo.Step [] (events.flatMap shown) queue) ∧
      (Drained finish →
        Fifo.left (events.flatMap shown) = Fifo.entered (events.flatMap shown)) := by
  have start : Follows fresh [] := ⟨by simp [Sendable, fresh], .empty [] rfl rfl rfl rfl rfl rfl⟩
  obtain ⟨queue, same, follows⟩ := run.simulates Follows shown
    (fun _ _ _ _ follows step => simulated_step follows step) start
  refine ⟨⟨queue, same⟩, fun drained => ?_⟩
  have counted := Fifo.entered_eq same
  rw [queue_of_drained follows drained, List.append_nil] at counted
  exact counted.symm

/-- Two packets, the second written while half of the first has been read. -/
def conversation : List Event :=
  [.write [5, 6] 2, .recv [[2, 0]] [[5]], .write [7, 0, 0] 1, .recv [] [[6]], .recvData [5, 6],
    .recv [[1, 0]] [[7]], .recvData [7]]

theorem uplink_refines_conversation : ∃ finish : Reception,
    Run (Guarded Unbroken Step) fresh conversation finish ∧
    Fifo.left (conversation.flatMap shown) = Fifo.entered (conversation.flatMap shown) := by
  have run : Run (Guarded Unbroken Step) fresh conversation _ :=
    .cons ⟨by decide, .write rfl⟩
      (.cons ⟨by decide +kernel, .recv (.recv ⟨by decide, by decide⟩ ⟨by decide, by decide⟩ rfl)⟩
        (.cons ⟨by decide, .write rfl⟩
          (.cons ⟨by decide +kernel,
            .recv (.recv ⟨by decide, by decide⟩ ⟨by decide, by decide⟩ rfl)⟩
            (.cons ⟨by decide, .recvData (.recvData (by decide) rfl) rfl⟩
              (.cons ⟨by decide +kernel,
                .recv (.recv ⟨by decide, by decide⟩ ⟨by decide, by decide⟩ rfl)⟩
                (.cons ⟨by decide, .recvData (.recvData (by decide) rfl) rfl⟩ .nil))))))
  exact ⟨_, run, (uplink_refines run).2 ⟨rfl, rfl⟩⟩

end Uplink

end Locus
