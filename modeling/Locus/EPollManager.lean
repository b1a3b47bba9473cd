import Locus.BlockingQueue
import Locus.ClientBuffer
import Locus.ClientDataManager
import Locus.EdgeTriggered

set_option autoImplicit false

/- epoll/EPollManager in the threads Server and Receiver, with the handlers whose `recv()`
takes one message out of a queue, and with server/Acceptor. -/
namespace Locus

open Transition Program

inductive Handler where
  | ProtocolClient (queue : QueueRef)
  | ClientManager
  | Acceptor
  deriving DecidableEq, Repr

inductive BasicThread where
  | Server
  | Receiver
  deriving DecidableEq, Repr

/-- The thread that a handler is added to. -/
def Handler.thread : Handler → BasicThread
  | .ProtocolClient _ | .ClientManager => .Server
  | .Acceptor => .Receiver

/-- The handlers and the two epoll instances, between two system calls. -/
structure EPollManager where
  /-- The queues that handlers own. An Acceptor has none. -/
  queues : Handler → BlockingQueue MessageType := fun _ => {}
  /-- The connections that wait to be accepted. -/
  backlog : Nat := 0
  registered : Handler → Bool := fun _ => false
  /-- Something has arrived at the descriptor since its last report. -/
  armed : Handler → Bool := fun _ => false
  /-- What `epoll_wait` has returned and `readEPoll` has not come to. -/
  events : BasicThread → List Handler := fun _ => []

namespace EPollManager

inductive Event where
  | push (handler : Handler) (written : Bool) (message : MessageType)
  | priorityPush (handler : Handler) (written : Bool) (address : Nat) (message : MessageType)
  /-- A connection enters the backlog. -/
  | connect
  | addEPollEvent (handler : Handler)
  /-- A session ends. -/
  | erase (queue : QueueRef)
  | epollWait (thread : BasicThread) (handlers : List Handler)
  /-- `readEPoll` calls `recv()` of a handler with a queue. -/
  | recv (thread : BasicThread)
  /-- `readEPoll` calls `Acceptor::recv`, whose `accept` may fail. -/
  | accept (thread : BasicThread) (accepted : Bool)
  deriving DecidableEq, Repr

def maxSizeEvents : Nat := 1024

/-- How much there is for a handler to take. -/
def waiting (s : EPollManager) : Handler → Nat
  | .Acceptor => s.backlog
  | handler => (s.queues handler).size

def setQueue (s : EPollManager) (handler : Handler) (queue : BlockingQueue MessageType) :
    EPollManager :=
  { s with queues := Function.update s.queues handler queue }

/-- A message was put into a queue. It arrives if its byte went into the pipe. -/
def pushed {α : Type} (s : EPollManager) (handler : Handler) :
    EStateM.Result Fault (BlockingQueue MessageType) α → EPollManager
  | .ok _ queue =>
      { s.setQueue handler queue with armed := Function.update s.armed handler true }
  | .error _ queue => s.setQueue handler queue

/-- A report is given only of what has arrived since the last one. -/
inductive Step (s : EPollManager) : Event → EPollManager → Prop
  | push {handler : Handler} {written : Bool} {message : MessageType}
      (owner : handler ≠ .Acceptor) (room : (s.queues handler).HasRoom)
      (answers : (s.queues handler).Answers written) :
      Step s (.push handler written message)
        (s.pushed handler (BlockingQueue.push written message (s.queues handler)))
  | priorityPush {handler : Handler} {written : Bool} {address : Nat} {message : MessageType}
      (owner : handler ≠ .Acceptor) (answers : (s.queues handler).Answers written) :
      Step s (.priorityPush handler written address message)
        (s.pushed handler (BlockingQueue.priorityPush written address message (s.queues handler)))
  | connect : Step s .connect
      { s with backlog := s.backlog + 1, armed := Function.update s.armed .Acceptor true }
  | addEPollEvent {handler : Handler} : Step s (.addEPollEvent handler)
      { s with registered := Function.update s.registered handler true }
  | erase {queue : QueueRef} (unreported : .ProtocolClient queue ∉ s.events .Server) :
      Step s (.erase queue)
        { s.setQueue (.ProtocolClient queue) {} with
          registered := Function.update s.registered (.ProtocolClient queue) false
          armed := Function.update s.armed (.ProtocolClient queue) false }
  | epollWait {thread : BasicThread} {handlers : List Handler} (idle : s.events thread = [])
      (distinct : handlers.Nodup) (few : handlers.length ≤ maxSizeEvents)
      (ready : ∀ handler ∈ handlers, handler.thread = thread ∧
        s.registered handler = true ∧ s.armed handler = true) :
      Step s (.epollWait thread handlers)
        { s with
          armed := fun handler => s.armed handler && decide (handler ∉ handlers)
          events := Function.update s.events thread handlers }
  | recv {thread : BasicThread} {handler : Handler} {rest : List Handler}
      (next : s.events thread = handler :: rest) (owner : handler ≠ .Acceptor) :
      Step s (.recv thread)
        { s.setQueue handler (finalState (BlockingQueue.popFor (s.queues handler))) with
          events := Function.update s.events thread rest }
  | accept {thread : BasicThread} {rest : List Handler} {accepted : Bool}
      (next : s.events thread = .Acceptor :: rest)
      (present : accepted = true → 0 < s.backlog) :
      Step s (.accept thread accepted)
        { s with
          backlog := s.backlog - accepted.toNat
          events := Function.update s.events thread rest }

/-- Where something waits at a registered handler, a report is still to be given or served. -/
def NoLostWakeup (s : EPollManager) : Prop :=
  ∀ handler, s.registered handler = true → 0 < s.waiting handler →
    s.armed handler = true ∨ handler ∈ s.events handler.thread

/-- A handler with more than it takes is served, and nothing has arrived since the report. -/
def LeavesBehind (s : EPollManager) : Event → Prop
  | .recv thread => ∃ handler rest, s.events thread = handler :: rest ∧
      1 < (s.queues handler).size ∧ s.armed handler = false
  | .accept _ accepted => accepted.toNat < s.backlog ∧ s.armed .Acceptor = false
  | _ => False

/-- No more bytes in a pipe than elements in the queue. -/
def Piped (s : EPollManager) : Prop :=
  ∀ handler, (s.queues handler).pipe ≤ (s.queues handler).size

/-- The two threads as pollers of the handlers. -/
def view (s : EPollManager) : EdgeTriggered.State Handler BasicThread where
  waiting := s.waiting
  watched := s.registered
  armed := s.armed
  reported := s.events

theorem waiting_setQueue (s : EPollManager) {handler : Handler} (owner : handler ≠ .Acceptor)
    (queue : BlockingQueue MessageType) :
    (s.setQueue handler queue).waiting = Function.update s.waiting handler queue.size := by
  funext other
  by_cases same : other = handler
  · subst same
    rw [Function.update_self]
    cases other with
    | Acceptor => exact absurd rfl owner
    | ProtocolClient | ClientManager =>
        simp only [waiting, setQueue, Function.update_self]
  · rw [Function.update_of_ne same]
    cases other with
    | Acceptor => rfl
    | ProtocolClient | ClientManager =>
        simp only [waiting, setQueue, Function.update_of_ne same]

theorem waiting_backlog (s : EPollManager) (backlog : Nat) :
    waiting { s with backlog } = Function.update s.waiting .Acceptor backlog := by
  funext other
  cases other <;> rfl

theorem waiting_queue (s : EPollManager) {handler : Handler} (owner : handler ≠ .Acceptor) :
    s.waiting handler = (s.queues handler).size := by
  cases handler with
  | Acceptor => exact absurd rfl owner
  | ProtocolClient | ClientManager => rfl

theorem Piped.setQueue {s : EPollManager} {handler : Handler}
    {queue : BlockingQueue MessageType} (piped : Piped s) (fits : queue.pipe ≤ queue.size) :
    Piped (s.setQueue handler queue) := by
  intro other
  by_cases same : other = handler
  · subst same
    simp only [EPollManager.setQueue, Function.update_self]
    exact fits
  · simp only [EPollManager.setQueue, Function.update_of_ne same]
    exact piped other

theorem Piped.pushed {α : Type} {s : EPollManager} {handler : Handler}
    {result : EStateM.Result Fault (BlockingQueue MessageType) α} (piped : Piped s)
    (grown : (s.queues handler).Pushed result) : Piped (s.pushed handler result) := by
  have fits := piped handler
  cases result with
  | ok value queue =>
      obtain ⟨size_eq, pipe_eq⟩ := grown
      exact piped.setQueue (by omega)
  | error fault queue =>
      obtain ⟨size_eq, pipe_eq, _⟩ := grown
      exact piped.setQueue (by omega)

theorem piped_step {before after : EPollManager} {event : Event} (piped : Piped before)
    (step : Step before event after) : Piped after := by
  cases step with
  | push owner room answers => exact piped.pushed (BlockingQueue.pushed_push _ answers)
  | priorityPush owner answers =>
      exact piped.pushed (BlockingQueue.pushed_priorityPush _ _ answers)
  | connect | addEPollEvent | epollWait | accept => exact piped
  | erase => exact piped.setQueue (Nat.le_refl 0)
  | @recv thread handler rest next owner =>
      exact Piped.setQueue piped ((before.queues handler).popFor_spec.2 (piped handler))

theorem view_pushed {α : Type} {s : EPollManager} {handler : Handler}
    {result : EStateM.Result Fault (BlockingQueue MessageType) α} (piped : Piped s)
    (owner : handler ≠ .Acceptor) (grown : (s.queues handler).Pushed result) :
    ∃ label, EdgeTriggered.Step Handler.thread s.view label (s.pushed handler result).view ∧
      ¬ EdgeTriggered.Strands s.view label := by
  have fits := piped handler
  cases result with
  | ok value queue =>
      refine ⟨.arrive handler, ?_, by simp [EdgeTriggered.Strands]⟩
      have same : (s.pushed handler (.ok value queue)).view = { s.view with
          waiting := Function.update s.waiting handler (s.waiting handler + 1)
          armed := Function.update s.armed handler true } := by
        rw [waiting_queue s owner, ← grown.1, ← waiting_setQueue s owner]
        rfl
      rw [same]
      exact .arrive
  | error fault queue =>
      obtain ⟨size_eq, _, refuses⟩ := grown
      refine ⟨.join handler, ?_, by simp [EdgeTriggered.Strands]⟩
      have same : (s.pushed handler (.error fault queue : EStateM.Result _ _ α)).view =
          { s.view with
            waiting := Function.update s.waiting handler (s.waiting handler + 1) } := by
        rw [waiting_queue s owner, ← size_eq, ← waiting_setQueue s owner]
        rfl
      rw [same]
      refine .join ?_
      have present : 0 < s.waiting handler := by
        rw [waiting_queue s owner]
        omega
      exact present

/-- Each step is one of the pollers, and leaves behind what the pollers strand. -/
theorem view_step {before after : EPollManager} {event : Event} (piped : Piped before)
    (step : Step before event after) :
    ∃ label, EdgeTriggered.Step Handler.thread before.view label after.view ∧
      (LeavesBehind before event ↔ EdgeTriggered.Strands before.view label) := by
  cases step with
  | push owner room answers =>
      obtain ⟨label, stepped, sound⟩ :=
        view_pushed piped owner (BlockingQueue.pushed_push _ answers)
      exact ⟨label, stepped, iff_of_false (fun impossible => impossible) sound⟩
  | priorityPush owner answers =>
      obtain ⟨label, stepped, sound⟩ :=
        view_pushed piped owner (BlockingQueue.pushed_priorityPush _ _ answers)
      exact ⟨label, stepped, iff_of_false (fun impossible => impossible) sound⟩
  | connect =>
      refine ⟨.arrive .Acceptor, ?_, by simp [LeavesBehind, EdgeTriggered.Strands]⟩
      have same : (view { before with
          backlog := before.backlog + 1
          armed := Function.update before.armed .Acceptor true }) = { before.view with
            waiting := Function.update before.waiting .Acceptor (before.waiting .Acceptor + 1)
            armed := Function.update before.armed .Acceptor true } := by
        rw [waiting, ← waiting_backlog]
        rfl
      rw [same]
      exact .arrive
  | addEPollEvent =>
      exact ⟨_, .watch, by simp [LeavesBehind, EdgeTriggered.Strands]⟩
  | @erase queue unreported =>
      refine ⟨.forget (.ProtocolClient queue), ?_, by simp [LeavesBehind, EdgeTriggered.Strands]⟩
      have same : (view { before.setQueue (.ProtocolClient queue) {} with
          registered := Function.update before.registered (.ProtocolClient queue) false
          armed := Function.update before.armed (.ProtocolClient queue) false }) =
          { before.view with
            waiting := Function.update before.waiting (.ProtocolClient queue) 0
            watched := Function.update before.registered (.ProtocolClient queue) false
            armed := Function.update before.armed (.ProtocolClient queue) false } := by
        have emptied : (before.setQueue (.ProtocolClient queue) {}).waiting =
            Function.update before.waiting (.ProtocolClient queue) 0 :=
          waiting_setQueue before (by simp) {}
        rw [← emptied]
        rfl
      rw [same]
      exact .forget unreported
  | epollWait idle distinct few ready =>
      exact ⟨_, .report idle distinct ready, by simp [LeavesBehind, EdgeTriggered.Strands]⟩
  | @recv thread handler rest next owner =>
      have counted := waiting_queue before owner
      obtain ⟨size_eq, _⟩ := (before.queues handler).popFor_spec
      refine ⟨.serve thread (min 1 (before.waiting handler)), ?_, ?_⟩
      · have same : (view { before.setQueue handler
            (finalState (BlockingQueue.popFor (before.queues handler))) with
            events := Function.update before.events thread rest }) = { before.view with
              waiting := Function.update before.waiting handler
                (before.waiting handler - min 1 (before.waiting handler))
              reported := Function.update before.events thread rest } := by
          have fewer : before.waiting handler - min 1 (before.waiting handler) =
              (finalState (BlockingQueue.popFor (before.queues handler))).size := by
            omega
          rw [fewer, ← waiting_setQueue before owner]
          rfl
        rw [same]
        exact .serve next (Nat.min_le_right _ _)
      · have served : before.view.reported thread = handler :: rest := next
        rw [EdgeTriggered.strands_serve_iff served]
        change _ ↔ min 1 (before.waiting handler) < before.waiting handler ∧ _
        constructor
        · rintro ⟨other, others, again, more, quiet⟩
          rw [next] at again
          cases again
          exact ⟨by omega, quiet⟩
        · rintro ⟨more, quiet⟩
          exact ⟨handler, rest, next, by omega, quiet⟩
  | @accept thread rest accepted next present =>
      refine ⟨.serve thread accepted.toNat, ?_, ?_⟩
      · have same : (view { before with
            backlog := before.backlog - accepted.toNat
            events := Function.update before.events thread rest }) = { before.view with
              waiting := Function.update before.waiting .Acceptor
                (before.waiting .Acceptor - accepted.toNat)
              reported := Function.update before.events thread rest } := by
          rw [waiting, ← waiting_backlog]
          rfl
        rw [same]
        refine .serve next ?_
        change accepted.toNat ≤ before.backlog
        cases accepted with
        | false => exact Nat.zero_le _
        | true => exact present rfl
      · have served : before.view.reported thread = .Acceptor :: rest := next
        exact (EdgeTriggered.strands_serve_iff served).symm

/-- What holds of every state that can be reached. -/
theorem reached {events : List Event} {finish : EPollManager} (run : Run Step {} events finish) :
    Piped finish ∧ EdgeTriggered.Tidy Handler.thread finish.view := by
  apply run.invariant (fun s => Piped s ∧ EdgeTriggered.Tidy Handler.thread s.view)
  · refine ⟨fun _ => Nat.le_refl 0, by simp [view], by simp [view],
      by simp [view], ?_⟩
    rintro (queue | _ | _) _ waits <;> exact absurd waits (Nat.lt_irrefl 0)
  · rintro before event after ⟨piped, tidy⟩ step
    obtain ⟨label, stepped, _⟩ := view_step piped step
    exact ⟨piped_step piped step, EdgeTriggered.tidy_step tidy stepped⟩

/-- No wakeup is lost in exactly the runs in which no handler with more than it takes is
served after the last arrival. -/
theorem noLostWakeup_iff (events : List Event) :
    Always Step {} (fun _ _ after => NoLostWakeup after) events ↔
      Always Step {} (fun before event _ => ¬ LeavesBehind before event) events := by
  refine always_iff (by simp [NoLostWakeup]) ?_ ?_ events
  · intro past before event after run step covered sound
    obtain ⟨piped, tidy⟩ := reached run
    obtain ⟨label, stepped, same⟩ := view_step piped step
    exact EdgeTriggered.covered_step tidy covered stepped (fun strands => sound (same.mpr strands))
  · intro past before event after run step leaves
    obtain ⟨piped, tidy⟩ := reached run
    obtain ⟨label, stepped, same⟩ := view_step piped step
    exact EdgeTriggered.not_covered_of_strands tidy stepped (same.mp leaves)

/-- Two updates come to a session before the Server waits for events. -/
def mergedUpdates : List Event :=
  [.addEPollEvent (.ProtocolClient 0), .priorityPush (.ProtocolClient 0) true 16 .Update,
    .priorityPush (.ProtocolClient 0) true 32 .Update, .epollWait .Server [.ProtocolClient 0],
    .recv .Server]

/-- The second update is left behind. -/
theorem mergedUpdates_lost : ∃ finish,
    Run Step {} mergedUpdates finish ∧ ¬ NoLostWakeup finish := by
  have run : Run Step {} mergedUpdates _ :=
    .cons .addEPollEvent (.cons (.priorityPush (by simp) (.inl rfl))
      (.cons (.priorityPush (by simp) (.inl rfl))
      (.cons (.epollWait rfl (by simp) (by decide) (by decide))
      (.cons (.recv rfl (by simp)) .nil))))
  refine ⟨_, run, ?_⟩
  intro kept
  have pending := kept (.ProtocolClient 0) (by decide) (by decide)
  revert pending
  decide

end EPollManager

end Locus
