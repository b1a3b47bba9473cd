import Locus.ClientBuffer
import Locus.Transition

set_option autoImplicit false

/- What leaves through `send()`, called by the session for a new packet and by the
Sender for what is left of one. -/
namespace Locus.ClientBuffer

open Transition

/-- The bytes written and the bytes held, one behind the other. -/
def line (c : ClientBuffer) : Bytes := c.written ++ c.bufferOut.bytes

/-- Where a loop of `send()` that had something to send can end. -/
def Resting (c : ClientBuffer) : Prop :=
  (c.bufferOut.stage = .Sending ∧ c.bufferOut.bytes ≠ []) ∨
  (c.bufferOut.stage = .Empty ∧ c.bufferOut.bytes = [])

theorem sendVector_spec (outcomes : List SendOutcome) (buffer : Bytes) (c : ClientBuffer) :
    ∃ left rest after, sendVector outcomes buffer c = (left, rest, after) ∧
      after.written ++ left = c.written ++ buffer ∧ after.bufferOut = c.bufferOut := by
  unfold sendVector
  split
  · cases outcomes with
    | nil => exact ⟨buffer, [], c, rfl, rfl, rfl⟩
    | cons outcome rest =>
        cases outcome with
        | count count =>
            refine ⟨_, rest, _, rfl, ?_, rfl⟩
            rw [List.append_assoc, List.take_append_drop]
        | again => exact ⟨buffer, rest, c, rfl, rfl, rfl⟩
        | error => exact ⟨buffer, rest, _, rfl, rfl, rfl⟩
  · exact ⟨buffer, outcomes, c, rfl, rfl, rfl⟩

/-- The loop moves bytes from the list to the socket, and keeps their order. -/
theorem sendLoop_spec {turns : Nat} :
    ∀ {outcomes : List SendOutcome} {c : ClientBuffer}, c.bufferOut.buffer.length < turns →
    c.bufferOut.stage = .Sending → c.bufferOut.bytes ≠ [] →
    ∃ after, sendLoop turns outcomes c = .ok after ∧ after.line = c.line ∧ Resting after := by
  induction turns with
  | zero => exact fun impossible => absurd impossible (Nat.not_lt_zero _)
  | succ turns ih =>
      intro outcomes c enough stage present
      unfold sendLoop
      by_cases opened : c.close = false
      · obtain ⟨front, bufferOut, popped, split, stage_eq, _⟩ := Buffer.pop_spec present
        have bytes_eq : c.bufferOut.bytes = front ++ bufferOut.bytes := by
          rw [Buffer.bytes, split, List.flatten_cons]
          rfl
        have fewer : bufferOut.buffer.length < turns := by
          rw [split, List.length_cons] at enough
          omega
        obtain ⟨left, rest, sent, ran, moved, kept⟩ :=
          sendVector_spec outcomes front { c with bufferOut }
        have sending : sent.bufferOut.stage = .Sending := by
          rw [kept]
          exact stage_eq.trans stage
        have line_eq : sent.written ++ (left ++ sent.bufferOut.bytes) = c.line := by
          rw [← List.append_assoc, moved, kept, List.append_assoc, ← bytes_eq, line]
        rw [if_pos ⟨opened, stage⟩, popped]
        simp only [ran]
        by_cases stopped : left = []
        · rw [if_neg (not_not_intro stopped)]
          rw [stopped, List.nil_append] at line_eq
          by_cases done : sent.bufferOut.bytes = []
          · have drained : sent.bufferOut.empty = true := by
              simp only [Buffer.empty, sent.bufferOut.sized, decide_eq_true_eq]
              exact congrArg List.length done
            rw [if_pos drained]
            exact ⟨_, rfl, line_eq, .inr ⟨rfl, done⟩⟩
          · have more : ¬ sent.bufferOut.empty = true := by
              simp only [Buffer.empty, sent.bufferOut.sized, decide_eq_true_eq]
              exact fun zero => done (List.eq_nil_of_length_eq_zero zero)
            rw [if_neg more]
            obtain ⟨after, looped, same, resting⟩ := ih (kept ▸ fewer) sending done
            exact ⟨after, looped, same.trans line_eq, resting⟩
        · rw [if_pos stopped]
          refine ⟨_, rfl, ?_, .inl ⟨sending, ?_⟩⟩
          · simp only [line, onBufferOut, Buffer.bytes_pushFront]
            exact line_eq
          · simp only [onBufferOut, Buffer.bytes_pushFront]
            exact fun nothing => stopped (List.append_eq_nil_iff.mp nothing).1
      · rw [if_neg (fun both => opened both.1)]
        exact ⟨c, rfl, rfl, .inl ⟨stage, present⟩⟩

/-- `send()` of a new packet writes its size and its bytes, one behind the other. -/
theorem send_full {c : ClientBuffer} (outcomes : List SendOutcome) (opened : c.close = false)
    (stage : c.bufferOut.stage = .Full) :
    ∃ after, c.send outcomes = .ok after ∧
      after.line = c.written ++ (toBytes 2 (c.bufferOut.size % 2 ^ 16) ++ c.bufferOut.bytes) ∧
      Resting after := by
  unfold send
  simp only
  have headed : (sendHeader c).line =
        c.written ++ (toBytes 2 (c.bufferOut.size % 2 ^ 16) ++ c.bufferOut.bytes) ∧
      (sendHeader c).bufferOut.stage = .Sending ∧ (sendHeader c).bufferOut.bytes ≠ [] := by
    unfold sendHeader
    rw [if_pos ⟨opened, stage⟩]
    simp [line, onBufferOut, toBytes, LittleEndian.encode]
    rfl
  obtain ⟨line_eq, sending, present⟩ := headed
  obtain ⟨after, ran, same, resting⟩ := sendLoop_spec (Nat.lt_succ_self _) sending present
  exact ⟨after, ran, same.trans line_eq, resting⟩

theorem send_sending {c : ClientBuffer} (outcomes : List SendOutcome)
    (stage : c.bufferOut.stage = .Sending) (present : c.bufferOut.bytes ≠ []) :
    ∃ after, c.send outcomes = .ok after ∧ after.line = c.line ∧ Resting after := by
  have unheaded : sendHeader c = c := by
    simp [sendHeader, stage]
  unfold send
  simp only [unheaded]
  exact sendLoop_spec (Nat.lt_succ_self _) stage present

/-- On a closed connection, or with nothing to send, `send()` does nothing. -/
theorem send_idle {c : ClientBuffer} (outcomes : List SendOutcome)
    (idle : c.close = true ∨ c.bufferOut.stage ≠ .Full ∧ c.bufferOut.stage ≠ .Sending) :
    c.send outcomes = .ok c := by
  have unheaded : sendHeader c = c := by
    rcases idle with closed | ⟨unfilled, _⟩
    · simp [sendHeader, closed]
    · simp [sendHeader, unfilled]
  unfold send sendLoop
  simp only [unheaded]
  rcases idle with closed | ⟨_, resting⟩
  · simp [closed]
  · simp [resting]

theorem send_quiet {c : ClientBuffer} (outcomes : List SendOutcome)
    (quiet : c.close = true ∨ c.bufferOut.stage = .Empty) : c.send outcomes = .ok c := by
  rcases quiet with closed | stage
  · exact send_idle outcomes (.inl closed)
  · refine send_idle outcomes (.inr ?_)
    rw [stage]
    decide

/-- A loop that comes to an end of its bytes has told the client. -/
theorem sendLoop_notifies {turns : Nat} :
    ∀ {outcomes : List SendOutcome} {c after : ClientBuffer},
    sendLoop turns outcomes c = .ok after → c.bufferOut.stage = .Sending →
    after.bufferOut.stage = .Empty → .PacketSend ∈ after.clientQueue := by
  induction turns with
  | zero =>
      intro outcomes c after impossible
      cases impossible
  | succ turns ih =>
      intro outcomes c after ran sending ended
      unfold sendLoop at ran
      split at ran
      · cases popped : c.bufferOut.pop with
        | error fault =>
            rw [popped] at ran
            cases ran
        | ok pair =>
            obtain ⟨front, bufferOut⟩ := pair
            obtain ⟨left, rest, sent, wrote, _, kept⟩ :=
              sendVector_spec outcomes front { c with bufferOut }
            have stage : sent.bufferOut.stage = .Sending := by
              rw [kept]
              exact (Buffer.pop_stage popped).trans sending
            rw [popped] at ran
            simp only [wrote] at ran
            split at ran
            · cases ran
              exact absurd (stage.symm.trans ended) (by decide)
            · split at ran
              · cases ran
                exact List.mem_append_right _ List.mem_cons_self
              · exact ih ran stage ended
      · cases ran
        exact absurd (sending.symm.trans ended) (by decide)

/-- `send()` of a buffer that is filled goes through its loop. -/
theorem send_notifies {c after : ClientBuffer} {outcomes : List SendOutcome}
    (ran : c.send outcomes = .ok after)
    (filled : c.bufferOut.stage = .Full ∧ c.close = false ∨ c.bufferOut.stage = .Sending)
    (ended : after.bufferOut.stage = .Empty) : .PacketSend ∈ after.clientQueue := by
  have sending : (sendHeader c).bufferOut.stage = .Sending := by
    rcases filled with ⟨stage, opened⟩ | stage
    · simp [sendHeader, opened, stage, onBufferOut]
      rfl
    · simp [sendHeader, stage]
  exact sendLoop_notifies ran sending ended

/-- Where the session's thread is in `sendData`. -/
inductive Phase where
  | idle
  | pushed
  | staged
  deriving DecidableEq, Repr

/-- A connection seen from its writers, with the payloads handed to `sendData` so far. -/
structure Transmission where
  buffer : ClientBuffer := {}
  phase : Phase := .idle
  payloads : List Bytes := []

/-- The three steps of `sendData`, and the Sender's `send()`. -/
inductive SendEvent where
  | push (payload : Bytes)
  | setFull
  | send (outcomes : List SendOutcome)
  | senderSend (outcomes : List SendOutcome)
  deriving DecidableEq, Repr

inductive Transmit : Transmission → SendEvent → Transmission → Prop
  | push {before : Transmission} {payload : Bytes} (idle : before.phase = .idle)
      (sendable : payload ≠ [] ∧ payload.length ≤ 65535) :
      Transmit before (.push payload)
        { buffer := before.buffer.onBufferOut (·.pushBack payload)
          phase := .pushed
          payloads := before.payloads ++ [payload] }
  | setFull {before : Transmission} (pushed : before.phase = .pushed) :
      Transmit before .setFull
        { before with
          buffer := before.buffer.onBufferOut (·.setStage .Full)
          phase := .staged }
  | send {before : Transmission} {outcomes : List SendOutcome} {buffer : ClientBuffer}
      (staged : before.phase = .staged) (returned : before.buffer.send outcomes = .ok buffer) :
      Transmit before (.send outcomes) { before with buffer, phase := .idle }
  | senderSend {before : Transmission} {outcomes : List SendOutcome} {buffer : ClientBuffer}
      (returned : before.buffer.send outcomes = .ok buffer) :
      Transmit before (.senderSend outcomes) { before with buffer }

/-- A new packet is pushed only when the one before it has left. -/
def Uncrowded (before : Transmission) : SendEvent → Prop
  | .push _ => before.buffer.bufferOut.empty
  | _ => True

instance (before : Transmission) (event : SendEvent) : Decidable (Uncrowded before event) :=
  match event with
  | .push _ => inferInstanceAs (Decidable (before.buffer.bufferOut.empty = true))
  | .setFull | .send _ | .senderSend _ => .isTrue trivial

/-- The bytes that the payloads handed over so far should become. -/
def Transmission.stream (t : Transmission) : Bytes := (t.payloads.map frame).flatten

/-- How far the stream has been written, by the stage of `bufferOut`. -/
inductive Sent (t : Transmission) : Prop
  | closed (closed : t.buffer.close = true) (written : t.buffer.written <+: t.stream)
  | resting (phase : t.phase ≠ .pushed) (resting : Resting t.buffer)
      (line : t.buffer.line = t.stream)
  | waiting (done : List Bytes) (payload : Bytes) (payloads : t.payloads = done ++ [payload])
      (small : payload.length ≤ 65535)
      (stage : t.phase = .pushed ∧ t.buffer.bufferOut.stage = .Empty ∨
        t.phase = .staged ∧ t.buffer.bufferOut.stage = .Full)
      (held : t.buffer.bufferOut.bytes = payload)
      (written : t.buffer.written = (done.map frame).flatten)

theorem Sent.in_order {t : Transmission} (sent : Sent t) : t.buffer.written <+: t.stream := by
  cases sent with
  | closed _ written => exact written
  | resting _ _ line_eq => exact ⟨t.buffer.bufferOut.bytes, line_eq⟩
  | waiting done payload payloads _ _ _ written =>
      refine ⟨frame payload, ?_⟩
      rw [Transmission.stream, payloads, written, List.map_append, List.flatten_append]
      simp

/-- A call of `send()` by either thread keeps to the stream. -/
theorem sent_of_send {t : Transmission} {outcomes : List SendOutcome} {buffer : ClientBuffer}
    (sent : Sent t) (returned : t.buffer.send outcomes = .ok buffer) {phase : Phase}
    (phase_eq : phase = t.phase ∨ t.phase = .staged ∧ phase = .idle) :
    Sent { t with buffer, phase } := by
  have phase_kept : t.phase ≠ .pushed → phase ≠ .pushed := by
    rcases phase_eq with same | ⟨_, idle⟩
    · rw [same]
      exact id
    · rw [idle]
      exact fun _ => by decide
  by_cases closed : t.buffer.close = true
  · rw [send_quiet outcomes (.inl closed)] at returned
    cases returned
    exact .closed closed sent.in_order
  · have opened : t.buffer.close = false := by simpa using closed
    cases sent with
    | closed shut _ => exact absurd shut closed
    | resting unpushed resting line_eq =>
        rcases resting with ⟨sending, present⟩ | ⟨empty, nothing⟩
        · obtain ⟨after, ran, same, rests⟩ := send_sending outcomes sending present
          rw [returned] at ran
          cases ran
          exact .resting (phase_kept unpushed) rests (same.trans line_eq)
        · rw [send_quiet outcomes (.inr empty)] at returned
          cases returned
          exact .resting (phase_kept unpushed) (.inr ⟨empty, nothing⟩) line_eq
    | waiting done payload payloads small stage held written =>
        rcases stage with ⟨pushed, empty⟩ | ⟨staged, full⟩
        · rw [send_quiet outcomes (.inr empty)] at returned
          cases returned
          have same : phase = t.phase := by
            rcases phase_eq with same | ⟨staged, _⟩
            · exact same
            · rw [pushed] at staged
              cases staged
          rw [same]
          exact .waiting done payload payloads small (.inl ⟨pushed, empty⟩) held written
        · obtain ⟨after, ran, line_eq, rests⟩ := send_full outcomes opened full
          rw [returned] at ran
          cases ran
          refine .resting (phase_kept (by rw [staged]; decide)) rests ?_
          have size_eq : t.buffer.bufferOut.size % 2 ^ 16 = payload.length := by
            rw [Buffer.size_eq, held]
            omega
          rw [line_eq, size_eq, held, written, Transmission.stream]
          change _ = (t.payloads.map frame).flatten
          rw [payloads, List.map_append, List.flatten_append]
          simp [frame]

theorem transmit_step {before after : Transmission} {event : SendEvent} (sent : Sent before)
    (uncrowded : Uncrowded before event) (step : Transmit before event after) : Sent after := by
  cases step with
  | @push payload idle sendable =>
      cases sent with
      | closed closed written =>
          refine .closed closed (written.trans ⟨frame payload, ?_⟩)
          simp [Transmission.stream]
      | waiting _ _ _ _ stage =>
          rcases stage with ⟨pushed, _⟩ | ⟨staged, _⟩
          · exact absurd (idle.symm.trans pushed) (by decide)
          · exact absurd (idle.symm.trans staged) (by decide)
      | resting _ resting line_eq =>
          have nothing : before.buffer.bufferOut.bytes = [] := by
            have zero : before.buffer.bufferOut.bufferSize = 0 := by
              simpa [Uncrowded, Buffer.empty] using uncrowded
            rw [before.buffer.bufferOut.sized] at zero
            exact List.eq_nil_of_length_eq_zero zero
          have empty : before.buffer.bufferOut.stage = .Empty := by
            rcases resting with ⟨_, present⟩ | ⟨empty, _⟩
            · exact absurd nothing present
            · exact empty
          rw [line, nothing, List.append_nil] at line_eq
          refine .waiting before.payloads payload rfl sendable.2 (.inl ⟨rfl, empty⟩) ?_ line_eq
          simp only [onBufferOut, Buffer.bytes_pushBack, nothing, List.nil_append]
  | setFull pushed =>
      cases sent with
      | closed closed written => exact .closed closed written
      | resting unpushed => exact absurd pushed unpushed
      | waiting done payload payloads small stage held written =>
          exact .waiting done payload payloads small (.inr ⟨rfl, rfl⟩) held written
  | send staged returned => exact sent_of_send sent returned (.inr ⟨staged, rfl⟩)
  | senderSend returned => exact sent_of_send sent returned (.inl rfl)

/-- The bytes written are a prefix of the framed payloads, as long as each packet
is pushed when the one before it has left. -/
theorem written_in_order {events : List SendEvent} {finish : Transmission}
    (run : Run (Guarded Uncrowded Transmit) {} events finish) :
    finish.buffer.written <+: (finish.payloads.map frame).flatten := by
  have sent : Sent finish := by
    apply run.invariant Sent
    · exact .resting (by decide) (.inr ⟨rfl, rfl⟩) rfl
    · intro before event after held step
      exact transmit_step held step.1 step.2
  exact sent.in_order

theorem written_in_order_pair : ∃ finish : Transmission,
    finish.buffer.written = [1, 0, 5, 2] ∧
    finish.buffer.written <+: (finish.payloads.map frame).flatten := by
  have run : Run (Guarded Uncrowded Transmit) {}
      [.push [5], .setFull, .send [.count 1], .senderSend [.count 1, .count 1],
        .push [6, 7], .setFull, .send [.count 1]] _ :=
    .cons ⟨by decide, .push rfl (by decide)⟩ (.cons ⟨by decide, .setFull rfl⟩
      (.cons ⟨by decide, .send rfl rfl⟩ (.cons ⟨by decide, .senderSend rfl⟩
        (.cons ⟨by decide, .push rfl (by decide)⟩ (.cons ⟨by decide, .setFull rfl⟩
          (.cons ⟨by decide, .send rfl rfl⟩ .nil))))))
  exact ⟨_, rfl, written_in_order run⟩

/-- A packet that is pushed while the one before it is half written puts its size
in the middle of it. -/
theorem crowded_packets : ∃ finish : Transmission,
    Run Transmit {} [.push [1], .setFull, .send [.count 1],
      .push [2], .setFull, .send [.count 2, .count 1, .count 1, .count 1]] finish ∧
    finish.buffer.written = [1, 3, 0, 0, 1, 2] ∧
    ¬ finish.buffer.written <+: (finish.payloads.map frame).flatten := by
  have run : Run Transmit {} [.push [1], .setFull, .send [.count 1],
      .push [2], .setFull, .send [.count 2, .count 1, .count 1, .count 1]] _ :=
    .cons (.push rfl (by decide)) (.cons (.setFull rfl) (.cons (.send rfl rfl)
      (.cons (.push rfl (by decide)) (.cons (.setFull rfl) (.cons (.send rfl rfl) .nil)))))
  exact ⟨_, run, rfl, by decide⟩

end Locus.ClientBuffer
