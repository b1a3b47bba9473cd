import Locus.CipherAgreement

set_option autoImplicit false

/- When the threads of a client wait for each other for good. The main thread waits for the writer
behind `sending`, and the reader waits for the main thread behind `receiveNext`; each of the two is
set by one thread and cleared by another. -/
namespace Locus

open Transition Java

namespace Java.Client

/-- The main thread waits for the writer, which has nothing to send. -/
structure MainStuck (client : Client) : Prop where
  waits : client.todo.head? = some .awaitSent
  sending : client.sending = true
  drained : client.pending = []

/-- The reader waits for `receiveNext`, and the main thread waits for the reader. -/
structure ReaderStuck (client : Client) : Prop where
  reader : client.reader = .looping ∨ client.reader = .await
  running : client.running = true
  receiveNext : client.receiveNext = false
  todo : client.todo = []
  childMessages : client.childMessages = []

/-- The writer can send what it holds. -/
def CanSend (java : Library) (client : Client) : Prop :=
  client.closed = false ∧ ∃ draw frame, client.sent java draw = .ok frame

/-- Some thread has a step to take that needs no frame from the server. -/
def CanMove (java : Library) (client : Client) : Prop :=
  (client.main java).isSome ∨ client.read.isSome ∨ (client.decipher java).isSome ∨
    client.take.isSome ∨ client.CanSend java

/-- The reader waits for a frame, and the main thread for the reader. -/
structure Listening (client : Client) : Prop where
  reader : ∃ isEncryptionOn, client.reader = .reading isEncryptionOn
  todo : client.todo = []
  childMessages : client.childMessages = []

/-- The next thing that the main thread or the writer does is to throw an exception. -/
def Raises (java : Library) (client : Client) : Prop :=
  (∃ statement, client.todo.head? = some statement ∧ statement ≠ .awaitSent ∧
    client.execute statement = none) ∨
  (∃ packet, client.writer = .holding packet) ∧ ¬ client.CanSend java

/-- The turns of the main loop set `sending` right before they wait for it, and `receiveNext` at
their end. -/
def Orderly : List Statement → Prop
  | [] => True
  | [statement] => statement = .receiveNext ∨ statement = .crash
  | statement :: next :: rest =>
      (statement = .startSending ↔ next = .awaitSent) ∧ Orderly (next :: rest)

theorem turn_orderly (java : Library) (message : Message) : Orderly (turn java message) := by
  cases message with
  | error => simp [turn, stop, goOn, Orderly]
  | packet packet =>
      cases packet with
      | none => exact .inr rfl
      | some packet =>
          obtain ⟨type, _⟩ := packet
          cases type <;> simp [turn, handle, stop, goOn, Orderly]

theorem turn_ne_nil (java : Library) (message : Message) : turn java message ≠ [] := by
  cases message with
  | error => simp [turn, stop]
  | packet packet => cases packet <;> simp [turn, goOn]

theorem turn_head (java : Library) (message : Message) :
    (turn java message).head? ≠ some .awaitSent := by
  cases message with
  | error => simp [turn, stop]
  | packet packet =>
      cases packet with
      | none => simp [turn]
      | some packet =>
          obtain ⟨type, _⟩ := packet
          cases type <;> simp [turn, handle, stop, goOn]

theorem Orderly.tail {statement : Statement} {rest : List Statement}
    (orderly : Orderly (statement :: rest)) : Orderly rest := by
  cases rest with
  | nil => trivial
  | cons next rest => exact orderly.2

/-- What holds of the threads as long as no exception is thrown. -/
structure Quiet (client : Client) : Prop where
  orderly : Orderly client.todo
  writer : client.writer ≠ .ended
  reader : client.reader = .ended → client.running = false

/-- What a step of the client does that throws no exception. -/
inductive Moves (java : Library) (client : Client) : Dialogue.Event → Client → Prop
  | takes {message : Message} {childMessages : List Message} (free : client.todo = [])
      (running : client.running = true) (next : client.childMessages = message :: childMessages) :
      Moves java client .main { client with childMessages, todo := turn java message }
  | executes {statement : Statement} {todo : List Statement} {after : Client}
      (busy : client.todo = statement :: todo) (ran : client.execute statement = some after) :
      Moves java client .main { after with todo }
  | read {after : Client} (ran : client.read = some after) : Moves java client .read after
  | fetch {isEncryptionOn : Bool} {frame : Bytes}
      (reader : client.reader = .reading isEncryptionOn) :
      Moves java client .fetch { client with reader := .arrived isEncryptionOn frame }
  | decipher {isEncryptionOn : Bool} {frame : Bytes} {packet : Option Packet}
      (reader : client.reader = .arrived isEncryptionOn frame) :
      Moves java client .decipher { client with reader := .received packet }
  | take {packet : Packet} {sendInstructions : List Packet} (writer : client.writer = .looping)
      (next : client.sendInstructions = packet :: sendInstructions) :
      Moves java client .take { client with sendInstructions, writer := .holding packet }
  | send {packet : Packet} {draw : Nat} (writer : client.writer = .holding packet) :
      Moves java client (.send draw) client.written
  | server {event : Dialogue.Event} (main : event ≠ .main) (read : event ≠ .read) :
      Moves java client event client

section Moves

variable {java : Library} {client after : Client} {event : Dialogue.Event}

theorem Moves.quiet (moves : client.Moves java event after) (quiet : client.Quiet) :
    after.Quiet := by
  obtain ⟨orderly, writer, reader⟩ := quiet
  cases moves with
  | takes free running next => exact ⟨turn_orderly java _, writer, reader⟩
  | executes busy ran =>
      have executed := execute_executed ran
      rw [busy] at orderly
      refine ⟨orderly.tail, fun ended => writer (executed.writer ▸ ended), fun ended => ?_⟩
      have stopped := reader (executed.reader ▸ ended)
      rename_i statement todo next
      by_cases halts : statement = .halt
      · exact executed.halted halts
      · exact (executed.running halts).trans stopped
  | read ran =>
      unfold Client.read at ran
      split at ran
      · cases ran
        refine ⟨orderly, writer, fun ended => ?_⟩
        cases running : client.running with
        | false => rfl
        | true => simp [running] at ended
      · split at ran
        · cases ran
          exact ⟨orderly, writer, by simp⟩
        · cases ran
      all_goals cases ran
      all_goals exact ⟨orderly, writer, by simp⟩
  | fetch | decipher => exact ⟨orderly, writer, by simp⟩
  | take => exact ⟨orderly, by simp, reader⟩
  | send => exact ⟨orderly, by simp [Client.written], reader⟩
  | server => exact ⟨orderly, writer, reader⟩

/-- A thread that does not read leaves the reader where it is, and a reader leaves the others. -/
theorem read_same (ran : client.read = some after) : after.todo = client.todo ∧
    after.sending = client.sending ∧ after.pending = client.pending := by
  unfold Client.read at ran
  split at ran
  · cases ran
    exact ⟨rfl, rfl, rfl⟩
  · split at ran
    · cases ran
      exact ⟨rfl, rfl, rfl⟩
    · cases ran
  all_goals cases ran
  all_goals exact ⟨rfl, rfl, rfl⟩

/-- Nothing moves a main thread that is stuck. -/
theorem MainStuck.moves (stuck : client.MainStuck) (moves : client.Moves java event after) :
    after.MainStuck := by
  obtain ⟨waits, sending, drained⟩ := stuck
  cases moves with
  | takes free running next => simp [free] at waits
  | executes busy ran =>
      rw [busy] at waits
      cases waits
      simp [execute, sending] at ran
  | read ran =>
      obtain ⟨todo, same, pending⟩ := read_same ran
      exact ⟨todo ▸ waits, same ▸ sending, pending ▸ drained⟩
  | fetch | decipher | server => exact ⟨waits, sending, drained⟩
  | take writer next => simp [pending, writer, next] at drained
  | send writer => simp [pending, writer] at drained

/-- A main thread gets stuck by the statement that sets `sending`. -/
theorem MainStuck.of_moves (quiet : client.Quiet) (moves : client.Moves java event after)
    (free : ¬ client.MainStuck) (stuck : after.MainStuck) :
    event = .main ∧ client.todo.head? = some .startSending ∧ client.pending = [] := by
  obtain ⟨waits, sending, drained⟩ := stuck
  cases moves with
  | takes => exact absurd waits (turn_head java _)
  | executes busy ran =>
      have orderly := quiet.orderly
      rename_i statement todo next
      cases todo with
      | nil => cases waits
      | cons second rest =>
          cases waits
          rw [busy] at orderly
          obtain rfl := orderly.1.mpr rfl
          cases ran
          exact ⟨rfl, by rw [busy]; rfl, drained⟩
  | read ran =>
      obtain ⟨todo, same, pending⟩ := read_same ran
      exact absurd ⟨todo ▸ waits, same ▸ sending, pending ▸ drained⟩ free
  | fetch | decipher | server => exact absurd ⟨waits, sending, drained⟩ free
  | take => simp [pending] at drained
  | send => cases sending

theorem MainStuck.of_overtaken (quiet : client.Quiet) (moves : client.Moves java .main after)
    (starts : client.todo.head? = some .startSending) (drained : client.pending = []) :
    after.MainStuck := by
  cases moves with
  | takes free => simp [free] at starts
  | executes busy ran =>
      have orderly := quiet.orderly
      rename_i statement todo next
      rw [busy] at starts orderly
      cases starts
      cases ran
      cases todo with
      | nil => simp [Orderly] at orderly
      | cons second rest => exact ⟨congrArg some (orderly.1.mp rfl), rfl, drained⟩
  | server main => exact absurd rfl main

/-- Nothing moves a reader that is stuck. -/
theorem ReaderStuck.moves (stuck : client.ReaderStuck) (moves : client.Moves java event after) :
    after.ReaderStuck := by
  obtain ⟨reader, running, receiveNext, todo, childMessages⟩ := stuck
  cases moves with
  | takes free alive next => simp [childMessages] at next
  | executes busy => simp [todo] at busy
  | read ran =>
      rcases reader with reader | reader
      · simp only [Client.read, reader, running, if_true, Option.some.injEq] at ran
        subst ran
        exact ⟨.inr rfl, rfl, receiveNext, todo, childMessages⟩
      · simp [Client.read, reader, receiveNext] at ran
  | fetch arrives | decipher arrives => simp [arrives] at reader
  | take | send | server => exact ⟨reader, running, receiveNext, todo, childMessages⟩

/-- A reader gets stuck when it clears `receiveNext`. -/
theorem ReaderStuck.of_moves (quiet : client.Quiet) (moves : client.Moves java event after)
    (free : ¬ client.ReaderStuck) (stuck : after.ReaderStuck) :
    event = .read ∧ client.reader = .put ∧ client.running = true ∧ client.todo = [] ∧
      client.childMessages = [] := by
  obtain ⟨reader, running, receiveNext, todo, childMessages⟩ := stuck
  cases moves with
  | takes => exact absurd todo (turn_ne_nil java _)
  | executes busy ran =>
      have orderly := quiet.orderly
      rename_i statement rest next
      obtain rfl : rest = [] := todo
      rw [busy] at orderly
      rcases orderly with rfl | rfl
      · cases ran
        cases receiveNext
      · cases ran
  | read ran =>
      unfold Client.read at ran
      split at ran
      · rename_i looping
        cases ran
        exact absurd ⟨.inl looping, running, receiveNext, todo, childMessages⟩ free
      · split at ran
        · cases ran
          simp at reader
        · cases ran
      all_goals cases ran
      · simp at reader
      · simp at reader
      · exact ⟨rfl, ‹_›, running, todo, childMessages⟩
  | fetch | decipher => simp at reader
  | take | send | server => exact absurd ⟨reader, running, receiveNext, todo, childMessages⟩ free

theorem ReaderStuck.of_overtaken (moves : client.Moves java .read after)
    (put : client.reader = .put) (running : client.running = true) (todo : client.todo = [])
    (childMessages : client.childMessages = []) : after.ReaderStuck := by
  cases moves with
  | read ran =>
      simp only [Client.read, put, Option.some.injEq] at ran
      subst ran
      exact ⟨.inl rfl, running, rfl, todo, childMessages⟩
  | server main read => exact absurd rfl read

/-- A client that no thread can move is stuck, waits for a frame, or is about to throw. -/
theorem Quiet.progress (quiet : client.Quiet) (running : client.running = true)
    (stays : ¬ client.CanMove java) :
    client.MainStuck ∨ client.ReaderStuck ∨ client.Listening ∨ client.Raises java := by
  simp only [CanMove, not_or, Option.not_isSome_iff_eq_none] at stays
  obtain ⟨main, read, decipher, take, send⟩ := stays
  cases todo : client.todo with
  | nil =>
      have childMessages : client.childMessages = [] := by
        cases next : client.childMessages with
        | nil => rfl
        | cons message rest => simp [Client.main, todo, running, next] at main
      cases reader : client.reader with
      | await =>
          have receiveNext : client.receiveNext = false := by
            simpa [Client.read, reader] using read
          exact .inr (.inl ⟨.inr reader, running, receiveNext, todo, childMessages⟩)
      | reading isEncryptionOn =>
          exact .inr (.inr (.inl ⟨⟨isEncryptionOn, reader⟩, todo, childMessages⟩))
      | ended => exact absurd (quiet.reader reader) (by simp [running])
      | arrived isEncryptionOn frame =>
          simp only [Client.decipher, reader] at decipher
          split at decipher
          all_goals cases decipher
      | looping | called | received packet | put => simp [Client.read, reader] at read
  | cons statement rest =>
      have refused : client.execute statement = none := by
        simpa [Client.main, todo] using main
      by_cases awaits : statement = .awaitSent
      · have sending : client.sending = true := by
          simpa [awaits, execute] using refused
        cases writer : client.writer with
        | looping =>
            cases next : client.sendInstructions with
            | nil =>
                exact .inl ⟨by rw [todo, awaits]; rfl, sending, by simp [pending, writer, next]⟩
            | cons packet more => simp [Client.take, writer, next, running] at take
        | holding packet => exact .inr (.inr (.inr (.inr ⟨⟨packet, writer⟩, send⟩)))
        | ended => exact absurd writer quiet.writer
      · exact .inr (.inr (.inr (.inl ⟨statement, by rw [todo]; rfl, awaits, refused⟩)))

end Moves

end Java.Client

namespace Dialogue

variable {Key : Type}

/-- An event that throws no exception in the client. -/
def calm (java : Library) (dialogue : Dialogue Key) : Event → Bool
  | .mainThrows | .mainInterrupted | .readerFails | .writerFails _ => false
  | .fetch => (dialogue.down[dialogue.fetched]?).all fun frame => frame.2.length ≤ capacity
  | .decipher =>
      match dialogue.client.reader with
      | .arrived isEncryptionOn frame =>
          (LayerManager.receive java isEncryptionOn dialogue.client.cipherModule frame).isOk
      | _ => true
  | .main | .read | .take | .send _ | .serve _ _ | .erase _ => true

/-- A step in which the client throws no exception. -/
abbrev CalmStep (lib : CryptoLibrary Key) (java : Library) :
    Dialogue Key → Event → Dialogue Key → Prop :=
  Guarded (fun dialogue event => dialogue.calm java event) (Step lib java)

/-- The main thread sets `sending` when the writer has sent everything already. -/
def MainOvertaken (dialogue : Dialogue Key) : Event → Prop
  | .main => dialogue.client.todo.head? = some .startSending ∧ dialogue.client.pending = []
  | _ => False

/-- The reader clears `receiveNext` when the main thread is done with the message already. -/
def ReaderOvertaken (dialogue : Dialogue Key) : Event → Prop
  | .read => dialogue.client.reader = .put ∧ dialogue.client.running = true ∧
      dialogue.client.todo = [] ∧ dialogue.client.childMessages = []
  | _ => False

section Steps

variable {lib : CryptoLibrary Key} {java : Library} {before after : Dialogue Key} {event : Event}

theorem moves_of_step (step : CalmStep lib java before event after) :
    before.client.Moves java event after.client := by
  obtain ⟨calm, step⟩ := step
  unfold Step at step
  cases event with
  | main =>
      obtain ⟨client, ran, rfl⟩ := Option.map_eq_some_iff.mp step
      unfold Client.main at ran
      split at ran
      · obtain ⟨next, executed, rfl⟩ := Option.map_eq_some_iff.mp ran
        exact .executes ‹_› executed
      · split at ran
        · cases ran
          exact .takes ‹_› ‹_› ‹_›
        · cases ran
  | read =>
      obtain ⟨client, ran, rfl⟩ := Option.map_eq_some_iff.mp step
      exact .read ran
  | fetch =>
      obtain ⟨frame, there, ran⟩ := Option.bind_eq_some_iff.mp step
      obtain ⟨client, fetched, rfl⟩ := Option.map_eq_some_iff.mp ran
      unfold Client.fetch at fetched
      split at fetched
      · split at fetched
        · cases fetched
        · have fits : frame.2.length ≤ capacity := by simpa [Dialogue.calm, there] using calm
          rw [if_pos fits] at fetched
          cases fetched
          exact .fetch ‹_›
      · cases fetched
  | decipher =>
      obtain ⟨frame, there, ran⟩ := Option.bind_eq_some_iff.mp step
      obtain ⟨client, opened, rfl⟩ := Option.map_eq_some_iff.mp ran
      unfold Client.decipher at opened
      split at opened
      · rename_i isEncryptionOn bytes reader
        simp only [Dialogue.calm, reader] at calm
        split at opened
        · cases opened
          exact .decipher reader
        · rename_i failure refused
          simp [refused, Except.isOk, Except.toBool] at calm
      · cases opened
  | take =>
      obtain ⟨client, taken, rfl⟩ := Option.map_eq_some_iff.mp step
      unfold Client.take at taken
      split at taken
      · split at taken
        · cases taken
          exact .take ‹_› ‹_›
        · cases taken
      · cases taken
  | send draw =>
      simp only [Dialogue.step] at step
      split at step
      · rename_i frame sealing closed sent sealed
        cases step
        unfold Client.sent at sent
        split at sent
        · exact .send ‹_›
        · cases sent
      · cases step
  | serve turn arrived | erase database =>
      simp only [Dialogue.step] at step
      split at step
      · cases step
        exact .server (by simp) (by simp)
      · cases step
  | mainThrows | mainInterrupted | readerFails | writerFails caught => cases calm

end Steps

/-- As long as no exception is thrown, the main thread waits for good if and only if the writer
sent everything before `sending` was set, and the reader waits for good if and only if the main
thread was done before `receiveNext` was cleared. Otherwise some thread can go on, unless they all
wait for a frame or an exception comes next. -/
theorem hangs_iff {lib : CryptoLibrary Key} {java : Library} {server : ProtocolClient.Life Key}
    {events : List Event} {finish : Dialogue Key}
    (run : Run (CalmStep lib java) (start server) events finish) :
    (finish.client.MainStuck ↔
      Occurs (CalmStep lib java) (start server) MainOvertaken events finish) ∧
    (finish.client.ReaderStuck ↔
      Occurs (CalmStep lib java) (start server) ReaderOvertaken events finish) ∧
    (finish.client.running = true → finish.client.MainStuck ∨ finish.client.ReaderStuck ∨
      finish.client.CanMove java ∨ finish.client.Listening ∨ finish.client.Raises java) := by
  have quiet : ∀ {past before}, Run (CalmStep lib java) (start server) past
      before → before.client.Quiet := fun prior =>
    prior.invariant (fun dialogue => dialogue.client.Quiet)
      ⟨trivial, by simp [start], by simp [start]⟩
      (fun _ _ _ quiet step => (moves_of_step step).quiet quiet)
  refine ⟨?_, ?_, ?_⟩
  · refine @Run.occurs_iff _ _ _ _ _ _ (fun dialogue => dialogue.client.MainStuck) _
      (fun stuck => ?_) ?_ ?_ ?_ run
    · cases stuck.waits
    · intro past before event after prior step overtaken
      cases event with
      | main =>
          exact .of_overtaken (quiet prior) (moves_of_step step) overtaken.1 overtaken.2
      | _ => exact overtaken.elim
    · exact fun _ _ _ _ _ step stuck => stuck.moves (moves_of_step step)
    · intro past before event after prior step free stuck
      obtain ⟨rfl, overtaken⟩ :=
        Client.MainStuck.of_moves (quiet prior) (moves_of_step step) free stuck
      exact overtaken
  · refine @Run.occurs_iff _ _ _ _ _ _ (fun dialogue => dialogue.client.ReaderStuck) _
      (fun stuck => ?_) ?_ ?_ ?_ run
    · cases stuck.receiveNext
    · intro past before event after prior step overtaken
      cases event with
      | read =>
          obtain ⟨put, running, todo, childMessages⟩ := overtaken
          exact .of_overtaken (moves_of_step step) put running todo childMessages
      | _ => exact overtaken.elim
    · exact fun _ _ _ _ _ step stuck => stuck.moves (moves_of_step step)
    · intro past before event after prior step free stuck
      obtain ⟨rfl, overtaken⟩ :=
        Client.ReaderStuck.of_moves (quiet prior) (moves_of_step step) free stuck
      exact overtaken
  · intro running
    by_cases stays : finish.client.CanMove java
    · exact .inr (.inr (.inl stays))
    · rcases (quiet run).progress running stays with stuck | stuck | waits
      · exact .inl stuck
      · exact .inr (.inl stuck)
      · exact .inr (.inr (.inr waits))

section Races

/-- All the events of a list are calm. -/
def calms (lib : CryptoLibrary Key) (java : Library) (dialogue : Dialogue Key) :
    List Event → Bool
  | [] => true
  | event :: events =>
      dialogue.calm java event && (dialogue.step lib java event).all fun next =>
        calms lib java next events

theorem run_of_calms {lib : CryptoLibrary Key} {java : Library} {events : List Event}
    {dialogue after : Dialogue Key} (quiet : calms lib java dialogue events)
    (played : dialogue.play lib java events = some after) :
    Run (CalmStep lib java) dialogue events after := by
  induction events generalizing dialogue with
  | nil =>
      cases played
      exact .nil
  | cons event events ih =>
      obtain ⟨next, stepped, rest⟩ := Option.bind_eq_some_iff.mp played
      simp only [calms, stepped, Option.all_some, Bool.and_eq_true] at quiet
      exact .cons ⟨quiet.1, stepped⟩ (ih quiet.2 rest)

/-- The writer is done before `sending` is set. -/
def overtaking : List Event :=
  hearing ++ List.replicate 5 .main ++ [.take, .send 0, .main]

theorem hangs_iff_overtaking : ∃ after,
    Run (CalmStep labelling labels)
      (start (ProtocolClient.create labelling serverKeys [] sessionKey 0)) overtaking after ∧
    Occurs (CalmStep labelling labels)
      (start (ProtocolClient.create labelling serverKeys [] sessionKey 0)) MainOvertaken
      overtaking after := by
  have plays : ((play labelling labels
      (start (ProtocolClient.create labelling serverKeys [] sessionKey 0)) overtaking).map
        fun after => (after.client.todo.head?, after.client.sending, after.client.pending)) =
      some (some .awaitSent, true, []) := by
    decide +kernel
  obtain ⟨after, played, ends⟩ := Option.map_eq_some_iff.mp plays
  simp only [Prod.mk.injEq] at ends
  have run : Run (CalmStep labelling labels) _ overtaking after :=
    run_of_calms (by decide +kernel) played
  exact ⟨after, run, (hangs_iff run).1.mp ⟨ends.1, ends.2.1, ends.2.2⟩⟩

end Races

end Dialogue

end Locus
