import Locus.ClientManagerErase
import Locus.ThreadsReferences
import Mathlib.Data.List.Nodup

set_option autoImplicit false

/- The bounded queues of the threads: who waits for room in them, and for whom. -/
namespace Locus

open Transition Program

namespace BlockingQueue

variable {T : Type}

/-- A pop adds nothing. -/
structure Shrinks (before after : BlockingQueue T) : Prop where
  size : after.maxQueueSize = before.maxQueueSize
  length : after.queue.length ≤ before.queue.length
  priority : ∀ node ∈ after.priority, node ∈ before.priority

theorem next_shrinks {q left : BlockingQueue T} {elem : T} (taken : q.next = some (elem, left)) :
    q.Shrinks left := by
  have size := next_maxQueueSize taken
  rcases next_popped taken with ⟨address, first, same⟩ | ⟨drained, still, front⟩
  · refine ⟨size, by rw [same], ?_⟩
    intro node member
    rw [first]
    exact List.mem_cons_of_mem _ member
  · refine ⟨size, by rw [front, List.length_cons]; omega, ?_⟩
    rw [still]
    intro node member
    cases member

theorem popFor_shrinks (q : BlockingQueue T) : q.Shrinks (finalState (popFor q)) := by
  cases taken : q.next with
  | none =>
      rw [popFor_none taken]
      exact ⟨rfl, Nat.le_refl _, fun _ member => member⟩
  | some pair =>
      have shrinks : q.Shrinks pair.2 := next_shrinks taken
      rw [popFor_some taken]
      split <;> exact ⟨shrinks.size, shrinks.length, shrinks.priority⟩

theorem maxQueueSize_push (written : Bool) (elem : T) (q : BlockingQueue T) :
    (finalState (push written elem q)).maxQueueSize = q.maxQueueSize := by
  rw [push_run]
  split <;> rfl

theorem maxQueueSize_priorityPush (written : Bool) (address : Nat) (elem : T)
    (q : BlockingQueue T) :
    (finalState (priorityPush written address elem q)).maxQueueSize = q.maxQueueSize := by
  rw [priorityPush_run]
  split <;> rfl

theorem length_push (written : Bool) (elem : T) (q : BlockingQueue T) :
    (finalState (push written elem q)).queue.length = q.queue.length + 1 := by
  rw [(push_state written elem q).1, List.length_append, List.length_singleton]

end BlockingQueue

namespace Threads

variable {s after : Threads} {event : Event}

/-- No thread has a handler in its hands twice. -/
def Distinct (s : Threads) : Prop := ∀ thread, (s.place thread).handlers.Nodup

theorem Distinct.goTo (distinct : Distinct s) (thread : ThreadName) {place : Place}
    (nodup : place.handlers.Nodup) : Distinct (s.goTo thread place) := by
  intro other
  by_cases same : other = thread
  · subst same
    rw [place_goTo]
    exact nodup
  · rw [place_goTo_of_ne s place same]
    exact distinct other

theorem distinct_step (distinct : Distinct s) (step : Step s event after) : Distinct after := by
  cases step with
  | @popAddEPollEvent thread handler queue reading popped =>
      exact Distinct.goTo distinct thread (List.nodup_singleton handler)
  | @popClose thread queue reading popped =>
      exact Distinct.goTo distinct thread List.nodup_nil
  | @popNothing thread queue reading empty =>
      exact Distinct.goTo distinct thread List.nodup_nil
  | @addEPollEvent thread handler adding =>
      exact Distinct.goTo distinct thread List.nodup_nil
  | @epollWait thread events waiting nodup few ready =>
      exact Distinct.goTo distinct thread nodup
  | @dispatch thread handler events next =>
      have held := distinct thread
      rw [next] at held
      exact distinct.goTo thread held
  | @skip thread handler events next =>
      have held := distinct thread
      rw [next] at held
      exact distinct.goTo thread held.of_cons
  | @readEPollEnds thread done =>
      apply distinct.goTo thread
      split <;> exact List.nodup_nil
  | @returns thread handler events calling other =>
      have held := distinct thread
      rw [calling] at held
      exact distinct.goTo thread held.of_cons
  | @pop thread events m calling managed =>
      have held := distinct thread
      rw [calling] at held
      apply Distinct.goTo distinct thread
      split
      · exact held
      · exact held.of_cons
  | @switch thread events msg made m switching found managed =>
      have held := distinct thread
      rw [switching] at held
      exact Distinct.goTo distinct thread held
  | @push thread target handler others events queue pushing room written =>
      have held := distinct thread
      rw [pushing] at held
      exact Distinct.goTo distinct thread held
  | @pushFails thread target handler fault others events queue pushing room failed =>
      have held := distinct thread
      rw [pushing] at held
      exact Distinct.goTo distinct thread held.of_cons
  | @switched thread events done =>
      have held := distinct thread
      rw [done] at held
      exact distinct.goTo thread held.of_cons
  | @accept thread events fileDescriptor m calling managed =>
      have held := distinct thread
      rw [calling] at held
      exact Distinct.goTo distinct thread held
  | @setNonBlock thread events accepted =>
      have held := distinct thread
      rw [accepted] at held
      exact Distinct.goTo distinct thread held
  | @refuse thread events m accepted managed | @announce thread _ events m accepted managed =>
      have held := distinct thread
      rw [accepted] at held
      exact Distinct.goTo distinct thread held.of_cons
  | post | closeConnection | connect | ready | close | openOther | closeOther | mainPush
  | mainCommands | mainJoin => exact distinct

/-- The pushes to a thread that the Server has still to make for the message in its hand. -/
def owes (target : ThreadName) (msg : Option Message) : Place → Nat
  | .switch _ => if (msg.bind ClientManager.wanted).isSome then 1 else 0
  | .addClient pushes _ => pushes.countP fun push => push.1 = target
  | _ => 0

/-- The messages for handlers that `main` has still to push to a thread. -/
def mainOwes (target : ThreadName) (s : Threads) : Nat :=
  s.main.countP fun step => match step with
    | .push thread (.AddEPollEvent _) => thread = target
    | _ => false

/-- What may yet come into the Server's queue before the Server drains it. -/
def demand : Place → Nat
  | .readEPoll => 1
  | .dispatch events => events.count .ClientManager
  | .call event events => (event :: events).count .ClientManager
  | .switch events => 1 + events.count .ClientManager
  | .addClient pushes events =>
      pushes.countP (fun push => push.1 = .Server) + events.count .ClientManager
  | .setNonBlock events | .announce events => events.count .ClientManager
  | .readMessage | .addEPollEvent _ | .ended => 0

/-- The Receiver may push to the manager before it drains its queue. -/
def announces : Place → Bool
  | .readEPoll | .setNonBlock _ | .announce _ => true
  | .dispatch events | .switch events | .addClient _ events => events.contains .Acceptor
  | .call event events => (event :: events).contains .Acceptor
  | .readMessage | .addEPollEvent _ | .ended => false

/-- How many elements wait in a thread's queue. -/
def load (s : Threads) (thread : ThreadName) : Nat := (s.queues thread).queue.length

/-- The queues of the threads are as large as their constructors made them. -/
def Sized (s : Threads) : Prop := ∀ thread, (s.queues thread).maxQueueSize = 1000

/-- The manager's queue is within its bounds, and only `EraseClient` goes in with priority. -/
structure Managed (m : ClientManager) : Prop where
  size : m.blockingQueue.maxQueueSize = 1000
  length : m.blockingQueue.queue.length ≤ 1000
  erasing : ∀ node ∈ m.blockingQueue.priority, ClientManager.wanted node.2 = none

theorem Managed.shrinks {m : ClientManager} {queue : BlockingQueue Message} (managed : Managed m)
    (shrinks : m.blockingQueue.Shrinks queue) (msg : Option Message) :
    Managed { m with msg, blockingQueue := queue } :=
  ⟨shrinks.size.trans managed.size, shrinks.length.trans managed.length,
    fun node member => managed.erasing node (shrinks.priority node member)⟩

theorem Managed.push {m : ClientManager} (managed : Managed m) (room : m.blockingQueue.HasRoom)
    (written : Bool) (msg : Message) (inFd : Option Int) :
    Managed { m with
      inFd, blockingQueue := finalState (BlockingQueue.push written msg m.blockingQueue) } := by
  have below : m.blockingQueue.queue.length < m.blockingQueue.maxQueueSize := room
  have size := managed.size
  refine ⟨(BlockingQueue.maxQueueSize_push _ _ _).trans size, ?_, ?_⟩
  · change (finalState (BlockingQueue.push written msg m.blockingQueue)).queue.length ≤ 1000
    rw [BlockingQueue.length_push]
    omega
  · change ∀ node ∈ (finalState (BlockingQueue.push written msg m.blockingQueue)).priority, _
    rw [(BlockingQueue.push_state _ _ _).2]
    exact managed.erasing

theorem Managed.priorityPush {m : ClientManager} (managed : Managed m) {msg : Message}
    (erase : msg.type = .EraseClient) (written : Bool) (address : Nat) :
    Managed { m with
      blockingQueue :=
        finalState (BlockingQueue.priorityPush written address msg m.blockingQueue) } := by
  obtain ⟨queue, priority⟩ := BlockingQueue.priorityPush_state written address msg m.blockingQueue
  refine ⟨(BlockingQueue.maxQueueSize_priorityPush _ _ _ _).trans managed.size, ?_, ?_⟩
  · change (finalState
      (BlockingQueue.priorityPush written address msg m.blockingQueue)).queue.length ≤ _
    rw [queue]
    exact managed.length
  · change ∀ node ∈ (finalState
      (BlockingQueue.priorityPush written address msg m.blockingQueue)).priority, _
    rw [priority]
    intro node member
    rcases BlockingQueue.mem_insertNode.mp member with rfl | old
    · exact ClientManager.wanted_of_erase erase
    · exact managed.erasing node old

theorem blockingQueue_serve (msg : Message) (made : Bool) (m : ClientManager) :
    (m.serve msg made).blockingQueue = m.blockingQueue := by
  unfold ClientManager.serve
  split
  · unfold ClientManager.addClient
    split
    · split <;> rfl
    · rfl
  · unfold ClientManager.eraseClient
    split <;> rfl
  · rfl

theorem managed_step {m m' : ClientManager} {event : ClientManager.Event} (managed : Managed m)
    (step : ClientManager.Step m event m') : Managed m' := by
  cases step with
  | accept | refuse | openOther | closeOther =>
      exact ⟨managed.size, managed.length, managed.erasing⟩
  | announce held room => exact managed.push room _ _ _
  | closeConnection => exact managed.priorityPush rfl _ _
  | pop idle popped =>
      have shrinks := BlockingQueue.popFor_shrinks m.blockingQueue
      rw [popped] at shrinks
      exact managed.shrinks shrinks _
  | popNothing idle empty =>
      have shrinks := BlockingQueue.popFor_shrinks m.blockingQueue
      rw [empty] at shrinks
      exact managed.shrinks shrinks _
  | popFails idle failed =>
      have shrinks := BlockingQueue.popFor_shrinks m.blockingQueue
      rw [failed] at shrinks
      exact managed.shrinks shrinks _
  | @serve msg made held =>
      have same : ({ m.serve msg made with msg := none } : ClientManager).blockingQueue =
        m.blockingQueue := blockingQueue_serve msg made m
      refine ⟨?_, ?_, ?_⟩
      · rw [same]
        exact managed.size
      · rw [same]
        exact managed.length
      · rw [same]
        exact managed.erasing
  | post plain room => exact managed.push room _ _ _

theorem managed_threads_step (managed : Managed s.manager) (step : Step s event after) :
    Managed after.manager := by
  cases step with
  | closeConnection _ moved | pop _ moved | switch _ _ moved | accept _ moved | refuse _ moved
  | announce _ moved | openOther moved | closeOther moved => exact managed_step managed moved
  | close => exact managed.priorityPush rfl _ _
  | popAddEPollEvent | popClose | popNothing | addEPollEvent | epollWait | dispatch | skip
  | readEPollEnds | returns | post | push | pushFails | switched | setNonBlock | connect | ready
  | mainPush | mainCommands | mainJoin => exact managed

theorem Sized.setQueue (sized : Sized s) (thread : ThreadName)
    {queue : BlockingQueue ThreadMessage}
    (same : queue.maxQueueSize = (s.queues thread).maxQueueSize) :
    Sized (s.setQueue thread queue) := by
  intro other
  by_cases here : other = thread
  · subst here
    rw [queues_setQueue, same]
    exact sized other
  · rw [queues_setQueue_of_ne s queue here]
    exact sized other

theorem sized_step (sized : Sized s) (step : Step s event after) : Sized after := by
  cases step with
  | @popAddEPollEvent thread _ queue reading popped | @popClose thread queue reading popped =>
      have shrinks := BlockingQueue.popFor_shrinks (s.queues thread)
      rw [popped] at shrinks
      exact sized.setQueue thread shrinks.size
  | @push thread target handler _ _ queue pushing room written =>
      have kept := BlockingQueue.maxQueueSize_push true (.AddEPollEvent handler) (s.queues target)
      rw [written] at kept
      exact sized.setQueue target kept
  | @pushFails thread target handler _ _ _ queue pushing room failed =>
      have kept := BlockingQueue.maxQueueSize_push false (.AddEPollEvent handler) (s.queues target)
      rw [failed] at kept
      exact sized.setQueue target kept
  | @mainPush target message _ queue next room written =>
      have kept := BlockingQueue.maxQueueSize_push true message (s.queues target)
      rw [written] at kept
      exact sized.setQueue target kept
  | popNothing | addEPollEvent | epollWait | dispatch | skip | readEPollEnds | returns | post
  | closeConnection | pop | switch | switched | accept | refuse | setNonBlock | announce | connect
  | ready | close | openOther | closeOther | mainCommands | mainJoin => exact sized

/-- No thread has been told to end. -/
def Open (s : Threads) : Prop := ∀ thread, .Close ∉ (s.queues thread).line

theorem Open.setQueue (opened : Open s) (thread : ThreadName)
    {queue : BlockingQueue ThreadMessage} (still : .Close ∉ queue.line) :
    Open (s.setQueue thread queue) := by
  intro other
  by_cases here : other = thread
  · subst here
    rw [queues_setQueue]
    exact still
  · rw [queues_setQueue_of_ne s queue here]
    exact opened other

theorem Open.not_popped (opened : Open s) (thread : ThreadName)
    (queue : BlockingQueue ThreadMessage) :
    BlockingQueue.popFor (s.queues thread) ≠ .ok (some .Close) queue := by
  intro popped
  have line := (BlockingQueue.popped_of_popFor popped).line
  exact opened thread (by rw [line]; exact List.mem_cons_self)

theorem open_step (opened : Open s) (step : Step s event after)
    (other : ∀ thread, event ≠ .main (.push thread .Close)) : Open after := by
  have pushed : ∀ written target message, message ≠ .Close → .Close ∉ (finalState
      (BlockingQueue.push written message (s.queues target))).line := by
    intro written target message apart member
    rw [BlockingQueue.line_push] at member
    rcases List.mem_append.mp member with old | new
    · exact opened target old
    · exact apart (List.mem_singleton.mp new).symm
  cases step with
  | @popAddEPollEvent thread _ queue reading popped | @popClose thread queue reading popped =>
      have line := (BlockingQueue.popped_of_popFor popped).line
      refine opened.setQueue thread fun member => opened thread ?_
      rw [line]
      exact List.mem_cons_of_mem _ member
  | @push thread target handler _ _ queue pushing room written =>
      have still := pushed true target (.AddEPollEvent handler) (by simp)
      rw [written] at still
      exact opened.setQueue target still
  | @pushFails thread target handler _ _ _ queue pushing room failed =>
      have still := pushed false target (.AddEPollEvent handler) (by simp)
      rw [failed] at still
      exact opened.setQueue target still
  | @mainPush target message _ queue next room written =>
      have still := pushed true target message fun same => other target (by rw [same])
      rw [written] at still
      exact opened.setQueue target still
  | popNothing | addEPollEvent | epollWait | dispatch | skip | readEPollEnds | returns | post
  | closeConnection | pop | switch | switched | accept | refuse | setNonBlock | announce | connect
  | ready | close | openOther | closeOther | mainCommands | mainJoin => exact opened

/-- A measure of a thread's place does not grow when a thread goes where it is no larger. -/
theorem measure_goTo (measure : Place → Nat) {thread : ThreadName} {place : Place}
    (fewer : measure place ≤ measure (s.place thread)) (other : ThreadName) :
    measure ((s.goTo thread place).place other) ≤ measure (s.place other) := by
  by_cases same : other = thread
  · subst same
    rw [place_goTo]
    exact fewer
  · rw [place_goTo_of_ne s place same]

/-- A new session is sent to each thread once. -/
theorem countP_pushes (target : ThreadName) (msg : Message) (made : Bool) (m : ClientManager) :
    (pushes msg made m).countP (fun push => push.1 = target) ≤
      if (ClientManager.wanted msg).isSome then 1 else 0 := by
  unfold pushes
  split
  · rename_i add fileDescriptor
    have wants : (ClientManager.wanted msg).isSome = true := by
      rw [ClientManager.wanted, if_pos add, fileDescriptor]
      rfl
    rw [if_pos wants]
    split
    · cases target <;> simp
    · exact Nat.zero_le _
  · exact Nat.zero_le _

theorem mainOwes_step (step : Step s event after) (target : ThreadName) :
    after.mainOwes target ≤ s.mainOwes target := by
  have shorter : ∀ {first rest}, s.main = first :: rest → after.main = rest →
      after.mainOwes target ≤ s.mainOwes target := by
    intro first rest before later
    rw [mainOwes, mainOwes, before, later, List.countP_cons]
    omega
  cases step with
  | mainPush next | mainCommands next | mainJoin next => exact shorter next rfl
  | _ => exact Nat.le_refl _

/-- A message that `main` pushes is owed no more. -/
theorem mainOwes_push {target : ThreadName} {message : ThreadMessage}
    (step : Step s (.main (.push target message)) after)
    (other : ∀ thread, Event.main (.push target message) ≠ .main (.push thread .Close))
    (thread : ThreadName) :
    s.mainOwes thread = after.mainOwes thread + if target = thread then 1 else 0 := by
  cases step with
  | mainPush next room written =>
      cases message with
      | Close => exact absurd rfl (other target)
      | AddEPollEvent handler =>
          unfold mainOwes
          rw [next, List.countP_cons]
          simp only [decide_eq_true_eq]

/-- One message less is owed for each one pushed. -/
theorem demand_addClient (target : ThreadName) (handler : EPollEvent)
    (others : List (ThreadName × EPollEvent)) (events : List EPollEvent) :
    demand (.addClient ((target, handler) :: others) events) =
      demand (.addClient others events) + if target = .Server then 1 else 0 := by
  simp only [demand, List.countP_cons, decide_eq_true_eq]
  omega

theorem load_setQueue (s : Threads) (thread : ThreadName)
    {queue : BlockingQueue ThreadMessage}
    (fewer : queue.queue.length ≤ (s.queues thread).queue.length) (other : ThreadName) :
    (s.setQueue thread queue).load other ≤ s.load other := by
  unfold load
  by_cases same : other = thread
  · subst same
    rw [queues_setQueue]
    exact fewer
  · rw [queues_setQueue_of_ne s queue same]

/-- A push adds one to the queue that it goes to. -/
theorem load_pushed (s : Threads) (target : ThreadName) {queue : BlockingQueue ThreadMessage}
    (longer : queue.queue.length = (s.queues target).queue.length + 1) (other : ThreadName) :
    (s.setQueue target queue).load other = s.load other + if target = other then 1 else 0 := by
  unfold load
  by_cases same : other = target
  · subst same
    rw [queues_setQueue, if_pos rfl, longer]
  · rw [queues_setQueue_of_ne s queue same, if_neg (Ne.symm same), Nat.add_zero]

theorem length_pushed {T : Type} {written : Bool} {elem : T} {before queue : BlockingQueue T}
    {result : EStateM.Result Fault (BlockingQueue T) Unit}
    (ran : BlockingQueue.push written elem before = result) (left : finalState result = queue) :
    queue.queue.length = before.queue.length + 1 := by
  rw [← left, ← ran, BlockingQueue.length_push]

theorem length_popped {T : Type} {before queue : BlockingQueue T} {elem : Option T}
    (popped : BlockingQueue.popFor before = .ok elem queue) :
    queue.queue.length ≤ before.queue.length := by
  have shrinks := BlockingQueue.popFor_shrinks before
  rw [popped] at shrinks
  exact shrinks.length

theorem length_drained {T : Type} {before queue : BlockingQueue T}
    (empty : BlockingQueue.popFor before = .ok none queue) : before.queue.length = 0 := by
  cases taken : before.next with
  | none =>
      have nothing := BlockingQueue.next_eq_none taken
      unfold BlockingQueue.size at nothing
      omega
  | some pair =>
      rw [BlockingQueue.popFor_some taken] at empty
      split at empty <;> cases empty

/-- What is, may come or must come into the Server's queue before it is drained. -/
def serverLoad (s : Threads) : Nat :=
  s.load .Server + s.mainOwes .Server + demand (s.place .Server)

theorem serverLoad_goTo (s : Threads) (thread : ThreadName) {place : Place}
    (fewer : demand place ≤ demand (s.place thread)) :
    (s.goTo thread place).serverLoad ≤ s.serverLoad :=
  Nat.add_le_add_left (measure_goTo demand fewer .Server) _

theorem serverLoad_setQueue (s : Threads) (thread : ThreadName)
    {queue : BlockingQueue ThreadMessage}
    (fewer : queue.queue.length ≤ (s.queues thread).queue.length) :
    (s.setQueue thread queue).serverLoad ≤ s.serverLoad :=
  Nat.add_le_add_right (Nat.add_le_add_right (load_setQueue s thread fewer .Server) _) _

/-- A message that the Server has pushed is one that it need not push any more. -/
theorem serverLoad_pushed {target : ThreadName} {handler : EPollEvent}
    {others : List (ThreadName × EPollEvent)} {events : List EPollEvent} {place : Place}
    {queue : BlockingQueue ThreadMessage}
    (pushing : s.place .Server = .addClient ((target, handler) :: others) events)
    (longer : queue.queue.length = (s.queues target).queue.length + 1)
    (fewer : demand place ≤ demand (.addClient others events)) :
    ((s.setQueue target queue).goTo .Server place).serverLoad ≤ s.serverLoad := by
  have grown := load_pushed s target longer .Server
  have owed := demand_addClient target handler others events
  unfold serverLoad
  rw [pushing, owed, place_goTo]
  change (s.setQueue target queue).load .Server + s.mainOwes .Server + demand place ≤ _
  omega

/-- Before it waits the Server has drained its queue. -/
theorem serverLoad_popNothing {thread : ThreadName} {queue : BlockingQueue ThreadMessage}
    (main : s.mainOwes .Server ≤ 1) (bound : s.serverLoad ≤ 2)
    (empty : BlockingQueue.popFor (s.queues thread) = .ok none queue) :
    (s.goTo thread .readEPoll).serverLoad ≤ 2 := by
  by_cases same : thread = .Server
  · subst same
    have drained : s.load .Server = 0 := length_drained empty
    unfold serverLoad
    rw [place_goTo]
    change s.load .Server + s.mainOwes .Server + 1 ≤ 2
    omega
  · unfold serverLoad
    rw [place_goTo_of_ne s _ (Ne.symm same)]
    exact bound

/-- What `main` pushes it need not push any more. -/
theorem serverLoad_mainPush {target : ThreadName} {message : ThreadMessage}
    {rest : List MainStep} {queue : BlockingQueue ThreadMessage}
    (next : s.main = .push target message :: rest) (room : (s.queues target).HasRoom)
    (written : BlockingQueue.push true message (s.queues target) = .ok () queue)
    (other : ∀ thread, Event.main (.push target message) ≠ .main (.push thread .Close)) :
    { s.setQueue target queue with main := rest }.serverLoad ≤ s.serverLoad := by
  have longer : queue.queue.length = (s.queues target).queue.length + 1 :=
    length_pushed written rfl
  have grown := load_pushed s target longer .Server
  have owed := mainOwes_push (.mainPush next room written) other .Server
  unfold serverLoad
  change (s.setQueue target queue).load .Server + _ + demand (s.place .Server) ≤ _
  omega

/-- The manager is called once, with a message in its hand or without one. -/
theorem demand_pop (held : Bool) (events : List EPollEvent) :
    demand (if held then .switch events else .dispatch events) ≤
      demand (.call .ClientManager events) := by
  have counted : demand (.call .ClientManager events) = events.count .ClientManager + 1 :=
    List.count_cons_self
  rw [counted]
  split
  · exact Nat.le_of_eq (Nat.add_comm _ _)
  · exact Nat.le_succ _

/-- A message of the manager leads to one push to the Server. -/
theorem demand_switch (msg : Message) (made : Bool) (m : ClientManager)
    (events : List EPollEvent) :
    demand (.addClient (pushes msg made m) events) ≤ demand (.switch events) := by
  have sent := countP_pushes .Server msg made m
  have one : (if (ClientManager.wanted msg).isSome then 1 else 0) ≤ 1 := by
    split <;> omega
  exact Nat.add_le_add_right (Nat.le_trans sent one) _

theorem serverLoad_step (suited : Suited s) (opened : Open s)
    (mains : ∀ thread, s.mainOwes thread ≤ 1) (bound : s.serverLoad ≤ 2)
    (step : Step s event after) (other : ∀ thread, event ≠ .main (.push thread .Close)) :
    after.serverLoad ≤ 2 := by
  cases step with
  | @popAddEPollEvent thread handler queue reading popped =>
      apply Nat.le_trans (serverLoad_goTo _ thread (Nat.zero_le _))
      exact Nat.le_trans (serverLoad_setQueue s thread (length_popped popped)) bound
  | @popClose thread queue reading popped =>
      exact absurd popped (opened.not_popped thread queue)
  | @popNothing thread queue reading empty =>
      exact serverLoad_popNothing (mains .Server) bound empty
  | @addEPollEvent thread handler adding =>
      exact Nat.le_trans (serverLoad_goTo s thread (Nat.zero_le _)) bound
  | @epollWait thread events waiting distinct few ready =>
      refine Nat.le_trans (serverLoad_goTo s thread ?_) bound
      rw [waiting]
      exact List.nodup_iff_count_le_one.mp distinct _
  | @dispatch thread handler events next =>
      refine Nat.le_trans (serverLoad_goTo s thread ?_) bound
      rw [next]
      exact Nat.le_refl _
  | @skip thread handler events next =>
      refine Nat.le_trans (serverLoad_goTo s thread ?_) bound
      rw [next]
      exact List.count_le_count_cons
  | @readEPollEnds thread done =>
      refine Nat.le_trans (serverLoad_goTo s thread ?_) bound
      split <;> exact Nat.zero_le _
  | @returns thread handler events calling other =>
      refine Nat.le_trans (serverLoad_goTo s thread ?_) bound
      rw [calling]
      exact List.count_le_count_cons
  | @pop thread events m calling managed =>
      refine Nat.le_trans (serverLoad_goTo _ thread ?_) bound
      change _ ≤ demand (s.place thread)
      rw [calling]
      exact demand_pop _ _
  | @switch thread events msg made m switching found managed =>
      refine Nat.le_trans (serverLoad_goTo _ thread ?_) bound
      change _ ≤ demand (s.place thread)
      rw [switching]
      exact demand_switch msg made s.manager events
  | @push thread target handler others events queue pushing room written =>
      obtain rfl := suited.manager_server (by rw [pushing]; exact List.mem_cons_self)
      apply Nat.le_trans _ bound
      exact serverLoad_pushed pushing (length_pushed written rfl) (Nat.le_refl _)
  | @pushFails thread target handler fault others events queue pushing room failed =>
      obtain rfl := suited.manager_server (by rw [pushing]; exact List.mem_cons_self)
      have kept : demand (.dispatch events) ≤ demand (.addClient others events) :=
        Nat.le_add_left _ _
      apply Nat.le_trans _ bound
      exact serverLoad_pushed pushing (length_pushed failed rfl) kept
  | @switched thread events done =>
      refine Nat.le_trans (serverLoad_goTo s thread ?_) bound
      rw [done]
      exact Nat.le_add_left _ _
  | @accept thread events fileDescriptor m calling managed =>
      refine Nat.le_trans (serverLoad_goTo _ thread ?_) bound
      change _ ≤ demand (s.place thread)
      rw [calling]
      exact List.count_le_count_cons
  | @setNonBlock thread events accepted =>
      refine Nat.le_trans (serverLoad_goTo s thread ?_) bound
      rw [accepted]
      exact Nat.le_refl _
  | @refuse thread events m accepted managed | @announce thread _ events m accepted managed =>
      refine Nat.le_trans (serverLoad_goTo _ thread ?_) bound
      change _ ≤ demand (s.place thread)
      rw [accepted]
      exact Nat.le_refl _
  | @mainPush target message rest queue next room written =>
      exact Nat.le_trans (serverLoad_mainPush next room written other) bound
  | post | closeConnection | connect | ready | close | openOther | closeOther => exact bound
  | mainCommands next =>
      have fewer := mainOwes_step (.mainCommands next) .Server
      exact Nat.le_trans (Nat.add_le_add_right (Nat.add_le_add_left fewer _) _) bound
  | mainJoin next ended =>
      have fewer := mainOwes_step (.mainJoin next ended) .Server
      exact Nat.le_trans (Nat.add_le_add_right (Nat.add_le_add_left fewer _) _) bound

/-- How many messages wait behind those of closed connections. -/
def backlog (s : Threads) : Nat := s.manager.blockingQueue.queue.length

/-- The sessions that the Server has in its hand, on their way to a thread. -/
def inHand (s : Threads) (target : ThreadName) : Nat :=
  owes target s.manager.msg (s.place .Server)

/-- What is or may come into the Receiver's queue for the connections accepted so far. -/
def receiverLoad (s : Threads) : Nat :=
  s.backlog + s.load .Receiver + s.mainOwes .Receiver + s.inHand .Receiver

theorem inHand_goTo (s : Threads) (target thread : ThreadName) {place : Place}
    (fewer : owes target s.manager.msg place ≤ owes target s.manager.msg (s.place thread)) :
    (s.goTo thread place).inHand target ≤ s.inHand target :=
  measure_goTo (owes target s.manager.msg) fewer .Server

/-- One session less is in hand for each one pushed. -/
theorem owes_addClient (thread target : ThreadName) (handler : EPollEvent) (msg : Option Message)
    (others : List (ThreadName × EPollEvent)) (events : List EPollEvent) :
    owes thread msg (.addClient ((target, handler) :: others) events) =
      owes thread msg (.addClient others events) + if target = thread then 1 else 0 := by
  simp only [owes, List.countP_cons, decide_eq_true_eq]

theorem msg_kept {m m' : ClientManager} {event : ClientManager.Event}
    (step : ClientManager.Step m event m') (no_pop : event ≠ .pop)
    (no_serve : ∀ made, event ≠ .serve made) : m'.msg = m.msg := by
  cases step with
  | accept | refuse | announce | closeConnection | post | openOther | closeOther => rfl
  | pop | popNothing | popFails => exact absurd rfl no_pop
  | serve => exact absurd rfl (no_serve _)

theorem inHand_manage (s : Threads) (target : ThreadName) {m : ClientManager}
    (kept : m.msg = s.manager.msg) : ({ s with manager := m } : Threads).inHand target =
      s.inHand target := by
  unfold inHand
  rw [kept]

/-- Only a popped message brings a session into the Server's hand. -/
theorem inHand_step (suited : Suited s) (step : Step s event after)
    (no_pop : ∀ thread, event ≠ .pop thread) (target : ThreadName) :
    after.inHand target ≤ s.inHand target := by
  cases step with
  | @popAddEPollEvent thread handler queue reading popped =>
      exact inHand_goTo (s.setQueue thread queue) target thread (Nat.zero_le _)
  | @popClose thread queue reading popped =>
      exact inHand_goTo (s.setQueue thread queue) target thread (Nat.zero_le _)
  | @popNothing thread queue reading empty =>
      exact inHand_goTo s target thread (Nat.zero_le _)
  | @addEPollEvent thread handler adding => exact inHand_goTo s target thread (Nat.zero_le _)
  | @epollWait thread events => exact inHand_goTo s target thread (Nat.zero_le _)
  | @dispatch thread handler events next => exact inHand_goTo s target thread (Nat.zero_le _)
  | @skip thread handler events next => exact inHand_goTo s target thread (Nat.zero_le _)
  | @readEPollEnds thread done =>
      apply inHand_goTo s target thread
      split <;> exact Nat.zero_le _
  | @returns thread handler events calling other =>
      exact inHand_goTo s target thread (Nat.zero_le _)
  | @pop thread => exact absurd rfl (no_pop thread)
  | @switch thread events msg made m switching found managed =>
      obtain rfl := suited.manager_server (by rw [switching]; exact List.mem_cons_self)
      have sent := countP_pushes target msg made s.manager
      unfold inHand
      rw [place_goTo, switching, found]
      exact sent
  | @push thread sent handler others events queue pushing room written =>
      apply inHand_goTo (s.setQueue sent queue) target thread
      change owes target s.manager.msg _ ≤ owes target s.manager.msg (s.place thread)
      rw [pushing, owes_addClient]
      exact Nat.le_add_right _ _
  | @pushFails thread sent handler fault others events queue pushing room failed =>
      exact inHand_goTo (s.setQueue sent queue) target thread (Nat.zero_le _)
  | @switched thread events done => exact inHand_goTo s target thread (Nat.zero_le _)
  | @accept thread events fileDescriptor m calling managed =>
      have kept := inHand_manage s target (msg_kept managed (by simp) (by simp))
      rw [← kept]
      exact inHand_goTo _ target thread (Nat.zero_le _)
  | @refuse thread events m accepted managed =>
      have kept := inHand_manage s target (msg_kept managed (by simp) (by simp))
      rw [← kept]
      exact inHand_goTo _ target thread (Nat.zero_le _)
  | @setNonBlock thread events accepted => exact inHand_goTo s target thread (Nat.zero_le _)
  | @announce thread written events m announcing managed =>
      have kept := inHand_manage (s.ring written) target (msg_kept managed (by simp) (by simp))
      exact Nat.le_trans
        (inHand_goTo { s.ring written with manager := m } target thread (Nat.zero_le _))
        (Nat.le_of_eq kept)
  | @closeConnection thread session address written events m calling managed =>
      exact Nat.le_of_eq
        (inHand_manage (s.ring written) target (msg_kept managed (by simp) (by simp)))
  | openOther managed =>
      exact Nat.le_of_eq (inHand_manage s target (msg_kept managed (by simp) (by simp)))
  | closeOther managed =>
      exact Nat.le_of_eq (inHand_manage s target (msg_kept managed (by simp) (by simp)))
  | post | connect | ready | close | mainPush | mainCommands | mainJoin => exact Nat.le_refl _

/-- A message that brings a session comes out of the queue. -/
theorem inHand_pop (suited : Suited s) (ordered : Managed s.manager) {thread : ThreadName}
    (step : Step s (.pop thread) after) (target : ThreadName) :
    after.inHand target ≤ 1 ∧ after.backlog + after.inHand target ≤ s.backlog := by
  cases step with
  | @pop _ events m calling managed =>
      obtain rfl := suited.manager_server (by rw [calling]; exact List.mem_cons_self)
      unfold inHand backlog
      rw [place_goTo]
      change owes target m.msg _ ≤ 1 ∧ m.blockingQueue.queue.length + owes target m.msg _ ≤ _
      cases managed with
      | @pop msg queue idle popped =>
          change owes target (some msg) (.switch events) ≤ 1 ∧
            queue.queue.length + owes target (some msg) (.switch events) ≤ _
          have one : owes target (some msg) (.switch events) ≤ 1 := by
            change (if ((some msg).bind ClientManager.wanted).isSome then 1 else 0) ≤ 1
            split <;> omega
          refine ⟨one, ?_⟩
          rcases BlockingQueue.popped_of_popFor popped with
            ⟨address, first, same⟩ | ⟨_, _, front⟩
          · -- what was pushed with priority brings no session
            have none_wanted : ClientManager.wanted msg = none :=
              ordered.erasing (address, msg) (by rw [first]; exact List.mem_cons_self)
            simp only [owes, Option.bind_some, none_wanted, Option.isSome_none,
              Bool.false_eq_true, if_false, same, Nat.add_zero]
            exact Nat.le_refl _
          · rw [front, List.length_cons]
            omega
      | @popNothing queue idle empty =>
          rw [idle]
          exact ⟨Nat.zero_le _, length_popped empty⟩
      | @popFails what queue idle failed =>
          rw [idle]
          have shrinks := BlockingQueue.popFor_shrinks s.manager.blockingQueue
          rw [failed] at shrinks
          exact ⟨Nat.zero_le _, shrinks.length⟩

/-- Only the Acceptor adds to the messages of the manager. -/
theorem backlog_step (step : Step s event after)
    (other : ∀ thread written, event ≠ .announce thread written) :
    after.backlog ≤ s.backlog := by
  have left : ∀ {m : ClientManager} {moved : ClientManager.Event},
      ClientManager.Step s.manager moved m → (∀ written, moved ≠ .announce written) →
      (∀ type written, moved ≠ .post type written) →
      m.blockingQueue.queue.length ≤ s.backlog := by
    intro m moved managed no_announce no_post
    cases managed with
    | accept | refuse | openOther | closeOther => exact Nat.le_refl _
    | announce => exact absurd rfl (no_announce _)
    | closeConnection =>
        exact Nat.le_of_eq (congrArg List.length (BlockingQueue.priorityPush_state _ _ _ _).1)
    | pop idle popped => exact length_popped popped
    | popNothing idle empty => exact length_popped empty
    | popFails idle failed =>
        have shrinks := BlockingQueue.popFor_shrinks s.manager.blockingQueue
        rw [failed] at shrinks
        exact shrinks.length
    | serve held =>
        exact Nat.le_of_eq (congrArg (fun q => q.queue.length) (blockingQueue_serve _ _ _))
    | post => exact absurd rfl (no_post _ _)
  cases step with
  | announce => exact absurd rfl (other _ _)
  | closeConnection _ managed | pop _ managed | switch _ _ managed | accept _ managed
  | refuse _ managed | openOther managed | closeOther managed =>
      exact left managed (by simp) (by simp)
  | close =>
      exact Nat.le_of_eq (congrArg List.length (BlockingQueue.priorityPush_state _ _ _ _).1)
  | popAddEPollEvent | popClose | popNothing | addEPollEvent | epollWait | dispatch | skip
  | readEPollEnds | returns | post | push | pushFails | switched | setNonBlock | connect | ready
  | mainPush | mainCommands | mainJoin => exact Nat.le_refl _

/-- A message that the Server has pushed is in its hand no more. -/
theorem receiverLoad_pushed {target : ThreadName} {handler : EPollEvent}
    {others : List (ThreadName × EPollEvent)} {events : List EPollEvent} {place : Place}
    {queue : BlockingQueue ThreadMessage}
    (pushing : s.place .Server = .addClient ((target, handler) :: others) events)
    (longer : queue.queue.length = (s.queues target).queue.length + 1)
    (fewer : owes .Receiver s.manager.msg place ≤
      owes .Receiver s.manager.msg (.addClient others events)) :
    ((s.setQueue target queue).goTo .Server place).receiverLoad ≤ s.receiverLoad := by
  have grown := load_pushed s target longer .Receiver
  have owed := owes_addClient .Receiver target handler s.manager.msg others events
  unfold receiverLoad inHand
  rw [pushing, owed, place_goTo]
  change s.backlog + (s.setQueue target queue).load .Receiver + s.mainOwes .Receiver +
    owes .Receiver s.manager.msg place ≤ _
  omega

/-- What the Receiver has to take grows with accepted connections only. -/
theorem receiverLoad_fewer (suited : Suited s) (ordered : Managed s.manager)
    (step : Step s event after)
    (no_announce : ∀ thread written, event ≠ .announce thread written)
    (other : ∀ thread, event ≠ .main (.push thread .Close)) :
    after.receiverLoad ≤ s.receiverLoad := by
  have waiting := backlog_step step no_announce
  have mains := mainOwes_step step .Receiver
  have held : (∀ thread, event ≠ .pop thread) → after.inHand .Receiver ≤ s.inHand .Receiver :=
    fun no_pop => inHand_step suited step no_pop .Receiver
  unfold receiverLoad
  cases step with
  | @popAddEPollEvent thread handler queue reading popped
  | @popClose thread queue reading popped =>
      have fewer := load_setQueue s thread (length_popped popped) .Receiver
      have hand := held (by simp)
      change _ + (s.setQueue thread queue).load .Receiver + _ + _ ≤ _
      omega
  | @pop thread events m calling managed =>
      obtain ⟨_, less⟩ := inHand_pop suited ordered (.pop calling managed) .Receiver
      change _ + s.load .Receiver + _ + _ ≤ _
      omega
  | @push thread target handler others events queue pushing room written =>
      obtain rfl := suited.manager_server (by rw [pushing]; exact List.mem_cons_self)
      exact receiverLoad_pushed pushing (length_pushed written rfl) (Nat.le_refl _)
  | @pushFails thread target handler fault others events queue pushing room failed =>
      obtain rfl := suited.manager_server (by rw [pushing]; exact List.mem_cons_self)
      exact receiverLoad_pushed pushing (length_pushed failed rfl) (Nat.zero_le _)
  | @mainPush target message rest queue next room written =>
      have longer : queue.queue.length = (s.queues target).queue.length + 1 :=
        length_pushed written rfl
      have grown := load_pushed s target longer .Receiver
      have owed := mainOwes_push (.mainPush next room written) other .Receiver
      have hand := held (by simp)
      change _ + (s.setQueue target queue).load .Receiver + _ + _ ≤ _
      omega
  | announce => exact absurd rfl (no_announce _ _)
  | popNothing | addEPollEvent | epollWait | dispatch | skip | readEPollEnds | returns | post
  | closeConnection | switch | switched | accept | refuse | setNonBlock | connect | ready | close
  | openOther | closeOther | mainCommands | mainJoin =>
      have hand := held (by simp)
      change _ + s.load .Receiver + _ + _ ≤ _
      omega

theorem announces_goTo (s : Threads) (thread : ThreadName) {place : Place}
    (still : announces place = true → announces (s.place thread) = true) (other : ThreadName) :
    announces ((s.goTo thread place).place other) = true → announces (s.place other) = true := by
  by_cases same : other = thread
  · subst same
    rw [place_goTo]
    exact still
  · rw [place_goTo_of_ne s place same]
    exact id

theorem announces_tail {handler : EPollEvent} {events : List EPollEvent}
    (later : events.contains .Acceptor = true) :
    (handler :: events).contains .Acceptor = true := by
  rw [List.contains_cons, later, Bool.or_true]

/-- The Receiver comes to push to the manager only with its own queue drained. -/
theorem announces_step (opened : Open s) (step : Step s event after)
    (announcing : announces (after.place .Receiver) = true) :
    announces (s.place .Receiver) = true ∨ after.load .Receiver = 0 := by
  cases step with
  | @popAddEPollEvent thread handler queue reading popped =>
      exact .inl
        (announces_goTo (s.setQueue thread queue) thread (by simp [announces]) _ announcing)
  | @popClose thread queue reading popped =>
      exact absurd popped (opened.not_popped thread queue)
  | @popNothing thread queue reading empty =>
      by_cases same : thread = .Receiver
      · subst same
        exact .inr (length_drained empty)
      · rw [place_goTo_of_ne s _ (Ne.symm same)] at announcing
        exact .inl announcing
  | @addEPollEvent thread handler adding =>
      exact .inl (announces_goTo s thread (by simp [announces]) _ announcing)
  | @epollWait thread events waiting distinct few ready =>
      refine .inl (announces_goTo s thread ?_ _ announcing)
      rw [waiting]
      exact fun _ => rfl
  | @dispatch thread handler events next =>
      refine .inl (announces_goTo s thread ?_ _ announcing)
      rw [next]
      exact id
  | @skip thread handler events next =>
      refine .inl (announces_goTo s thread ?_ _ announcing)
      rw [next]
      exact announces_tail
  | @readEPollEnds thread done =>
      refine .inl (announces_goTo s thread ?_ _ announcing)
      split <;> simp [announces]
  | @returns thread handler events calling other =>
      refine .inl (announces_goTo s thread ?_ _ announcing)
      rw [calling]
      exact announces_tail
  | @pop thread events m calling managed =>
      refine .inl (announces_goTo { s with manager := m } thread ?_ _ announcing)
      change _ → announces (s.place thread) = true
      rw [calling]
      have tail := @announces_tail .ClientManager events
      split <;> exact tail
  | @switch thread events msg made m switching found managed =>
      refine .inl (announces_goTo _ thread ?_ _ announcing)
      rw [switching]
      exact id
  | @push thread target handler others events queue pushing room written =>
      refine .inl (announces_goTo (s.setQueue target queue) thread ?_ _ announcing)
      change _ → announces (s.place thread) = true
      rw [pushing]
      exact id
  | @pushFails thread target handler fault others events queue pushing room failed =>
      refine .inl (announces_goTo (s.setQueue target queue) thread ?_ _ announcing)
      change _ → announces (s.place thread) = true
      rw [pushing]
      exact id
  | @switched thread events done =>
      refine .inl (announces_goTo s thread ?_ _ announcing)
      rw [done]
      exact id
  | @accept thread events fileDescriptor m calling managed =>
      refine .inl (announces_goTo { s with manager := m } thread ?_ _ announcing)
      change _ → announces (s.place thread) = true
      rw [calling]
      exact fun _ => by simp [announces]
  | @refuse thread events m accepted managed =>
      refine .inl (announces_goTo { s with manager := m } thread ?_ _ announcing)
      change _ → announces (s.place thread) = true
      rw [accepted]
      exact fun _ => rfl
  | @setNonBlock thread events accepted =>
      refine .inl (announces_goTo s thread ?_ _ announcing)
      rw [accepted]
      exact fun _ => rfl
  | @announce thread written events m accepted managed =>
      refine .inl (announces_goTo { s.ring written with manager := m } thread ?_ _ announcing)
      change _ → announces (s.place thread) = true
      rw [accepted]
      exact fun _ => rfl
  | post | closeConnection | connect | ready | close | openOther | closeOther | mainPush
  | mainCommands | mainJoin => exact .inl announcing

/-- What holds as long as no thread has been told to end. -/
structure Flowing (s : Threads) : Prop where
  suited : Suited s
  distinct : Distinct s
  opened : Open s
  sized : Sized s
  ordered : Managed s.manager
  mains : ∀ thread, s.mainOwes thread ≤ 1
  server : s.serverLoad ≤ 2
  inHand : s.inHand .Receiver ≤ 1
  receiver : announces (s.place .Receiver) = true → s.receiverLoad ≤ 1002

theorem flowing_start : Flowing {} := by
  refine ⟨suited_start, ?_, ?_, ?_, ⟨rfl, Nat.zero_le _, ?_⟩, ?_, by decide, by decide, ?_⟩
  · intro thread
    exact List.nodup_nil
  · intro thread member
    cases member
  · intro thread
    rfl
  · intro node member
    cases member
  · intro thread
    cases thread <;> decide
  · intro announcing
    cases announcing

/-- After the Acceptor's push nothing is left for it in the events of the Receiver. -/
theorem not_announces_announce (suited : Suited s) (distinct : Distinct s)
    {thread : ThreadName} {written : Bool} (step : Step s (.announce thread written) after) :
    announces (after.place .Receiver) = false := by
  cases step with
  | @announce _ _ events m accepted managed =>
      obtain rfl := suited.acceptor_receiver (by rw [accepted]; exact List.mem_cons_self)
      have held := distinct .Receiver
      rw [accepted] at held
      have gone : .Acceptor ∉ events := (List.nodup_cons.mp held).1
      rw [place_goTo]
      change events.contains .Acceptor = false
      rw [Bool.eq_false_iff, ne_eq, List.contains_iff_mem]
      exact gone

theorem flowing_step (flowing : Flowing s) (step : Step s event after)
    (other : ∀ thread, event ≠ .main (.push thread .Close)) : Flowing after := by
  have suited := flowing.suited
  have ordered := managed_threads_step flowing.ordered step
  have mains : ∀ thread, after.mainOwes thread ≤ 1 := fun thread =>
    Nat.le_trans (mainOwes_step step thread) (flowing.mains thread)
  have hand : after.inHand .Receiver ≤ 1 := by
    by_cases popping : ∃ thread, event = .pop thread
    · obtain ⟨thread, rfl⟩ := popping
      exact (inHand_pop suited flowing.ordered step .Receiver).1
    · have no_pop : ∀ thread, event ≠ .pop thread := fun thread same => popping ⟨thread, same⟩
      exact Nat.le_trans (inHand_step suited step no_pop .Receiver) flowing.inHand
  refine ⟨suited_step suited step, distinct_step flowing.distinct step,
    open_step flowing.opened step other, sized_step flowing.sized step, ordered, mains,
    serverLoad_step suited flowing.opened flowing.mains flowing.server step other, hand, ?_⟩
  intro announcing
  rcases announces_step flowing.opened step announcing with before | drained
  · have no_announce : ∀ thread written, event ≠ .announce thread written := by
      rintro thread written rfl
      rw [not_announces_announce suited flowing.distinct step] at announcing
      cases announcing
    exact Nat.le_trans (receiverLoad_fewer suited flowing.ordered step no_announce other)
      (flowing.receiver before)
  · have waiting : after.backlog ≤ 1000 := ordered.length
    have main := mains .Receiver
    unfold receiverLoad
    omega

/-- A thread waits in a push to the queue of another one, or to its own. -/
def Waits (s : Threads) (thread target : ThreadName) : Prop :=
  ∃ event others events, s.place thread = .addClient ((target, event) :: others) events ∧
    ¬ (s.queues target).HasRoom

/-- A thread waits in a push to the queue of the manager. -/
def WaitsForManager (s : Threads) (thread : ThreadName) : Prop :=
  ∃ events, s.place thread = .announce events ∧ ¬ s.manager.blockingQueue.HasRoom

/-- The Server does not wait for itself, nor for a thread that waits in a push. -/
def NoDeadlock (s : Threads) : Prop :=
  ¬ s.Waits .Server .Server ∧
    ∀ thread, s.Waits .Server thread →
      ¬ s.WaitsForManager thread ∧ ∀ target, ¬ s.Waits thread target

/-- Only the Server is in `addClient`. -/
theorem Flowing.not_waits (flowing : Flowing s) {thread target : ThreadName}
    (other : thread ≠ .Server) : ¬ s.Waits thread target := by
  rintro ⟨event, others, events, pushing, _⟩
  exact other (flowing.suited.manager_server (by rw [pushing]; exact List.mem_cons_self))

theorem Flowing.load_of_waits (flowing : Flowing s) {thread target : ThreadName}
    (waits : s.Waits thread target) : 1000 ≤ s.load target := by
  obtain ⟨event, others, events, pushing, full⟩ := waits
  have size := flowing.sized target
  unfold BlockingQueue.HasRoom at full
  unfold load
  omega

theorem Flowing.backlog_of_waits (flowing : Flowing s) {thread : ThreadName}
    (waits : s.WaitsForManager thread) : 1000 ≤ s.backlog := by
  obtain ⟨events, accepted, full⟩ := waits
  have size := flowing.ordered.size
  unfold BlockingQueue.HasRoom at full
  unfold backlog
  omega

theorem Flowing.noDeadlock (flowing : Flowing s) : NoDeadlock s := by
  have not_own : ¬ s.Waits .Server .Server := by
    intro waits
    have long := flowing.load_of_waits waits
    have few := flowing.server
    unfold serverLoad at few
    omega
  refine ⟨not_own, ?_⟩
  intro thread waits
  have other : thread ≠ .Server := by
    rintro rfl
    exact not_own waits
  refine ⟨?_, fun target => flowing.not_waits other⟩
  intro announcing
  obtain ⟨events, accepted, full⟩ := announcing
  obtain rfl := flowing.suited.acceptor_receiver (by rw [accepted]; exact List.mem_cons_self)
  -- the Receiver drained its queue when the manager's was as long as it is now at most
  have few := flowing.receiver (by rw [accepted]; rfl)
  have long := flowing.load_of_waits waits
  have crowded := flowing.backlog_of_waits ⟨events, accepted, full⟩
  unfold receiverLoad at few
  omega

theorem flowing_of_run {events : List Event} {s : Threads} (run : Run Step {} events s)
    (before : ∀ thread, .main (.push thread .Close) ∉ events) : Flowing s := by
  have kept : (∀ thread, .main (.push thread .Close) ∉ events) → Flowing s := by
    refine run.history_invariant
      (fun events state => (∀ thread, .main (.push thread .Close) ∉ events) → Flowing state)
      (fun _ => flowing_start) ?_
    intro events before event after _ flowing step untold
    refine flowing_step (flowing fun thread member =>
      untold thread (List.mem_append_left _ member)) step ?_
    rintro thread rfl
    exact untold thread (by simp)
  exact kept before

/-- As long as no thread has been told to end, the threads do not wait for each other in a
circle: the Server never waits for room in its own queue, nor in that of a thread that waits
itself. -/
theorem no_deadlock {events : List Event} {s : Threads} (run : Run Step {} events s)
    (before : ∀ thread, .main (.push thread .Close) ∉ events) : NoDeadlock s :=
  (flowing_of_run run before).noDeadlock

theorem no_deadlock_firstConnection : ∃ s : Threads,
    s.place .Server = .addClient [(.Server, .ProtocolClient 0), (.Receiver, .ClientBuffer 0),
      (.Sender, .ClientBuffer 0)] [] ∧ NoDeadlock s :=
  ⟨_, rfl, no_deadlock
    (firstConnection.2.snoc (@Step.switch _ .Server [] _ true _ rfl rfl (.serve rfl)))
    fun thread => by simp⟩

end Threads

end Locus
