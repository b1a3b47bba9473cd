import Locus.ThreadsLifetimes
import Mathlib.Data.List.Infix

set_option autoImplicit false

/- How the threads end: what a thread does after `Close` has come into its queue. -/
namespace Locus

open Transition Program

/-- An element at the end changes nothing in front of one that stops. -/
theorem takeWhile_append_of_mem {α : Type} {keeps : α → Bool} {elems : List α} {stop : α}
    (stops : keeps stop = false) (member : stop ∈ elems) (later : List α) :
    (elems ++ later).takeWhile keeps = elems.takeWhile keeps := by
  induction elems with
  | nil => cases member
  | cons first rest ih =>
      rw [List.cons_append, List.takeWhile_cons, List.takeWhile_cons]
      cases kept : keeps first with
      | false => rfl
      | true =>
          rcases List.mem_cons.mp member with rfl | behind
          · rw [stops] at kept
            cases kept
          · simp only [if_true, ih behind]

namespace Threads

/-- The thread that takes a step. What a handler pushes while it is called is no step of its own. -/
def Event.actor : Event → Option ThreadName
  | .readMessage thread | .addEPollEvent thread | .epollWait thread _ | .dispatch thread
  | .skip thread | .readEPollEnds thread | .returns thread | .pop thread | .switch thread _
  | .push thread | .pushFails thread | .accept thread _ | .refuse thread | .setNonBlock thread
  | .announce thread _ => some thread
  | _ => none

/-- One step, if the thread has taken it. -/
def tick (actor : Option ThreadName) (thread : ThreadName) : Nat :=
  if actor = some thread then 1 else 0

theorem tick_self (thread : ThreadName) : tick (some thread) thread = 1 := if_pos rfl

theorem tick_other {own thread : ThreadName} (apart : own ≠ thread) :
    tick (some own) thread = 0 := if_neg fun same => apart (Option.some.inj same)

/-- How many steps it takes at most to the end of `readEPoll`. -/
def work : Place → Nat
  | .readMessage | .ended => 0
  | .addEPollEvent _ => 1
  | .readEPoll => 7 * maxSizeEvents + 2
  | .dispatch events => 7 * events.length + 1
  | .call _ events => 7 * events.length + 7
  | .switch events => 7 * events.length + 6
  | .addClient pushes events => 7 * events.length + pushes.length + 2
  | .setNonBlock events => 7 * events.length + 3
  | .announce events => 7 * events.length + 2

/-- How many messages are read before `Close`. -/
def ahead (queue : BlockingQueue ThreadMessage) : Nat :=
  (queue.line.takeWhile (· ≠ .Close)).length

/-- The last turn of the loop, and the messages that are read in it. -/
def lastTurn (s : Threads) (thread : ThreadName) : Nat :=
  if s.exit thread then 0 else 2 * ahead (s.queues thread) + 1 + work .readEPoll

/-- How many steps a thread that is told to end takes at most. -/
def remaining (s : Threads) (thread : ThreadName) : Nat :=
  work (s.place thread) + s.lastTurn thread

/-- `Close` is in the thread's queue, or has been read. -/
def Told (s : Threads) (thread : ThreadName) : Prop :=
  s.exit thread = true ∨ .Close ∈ (s.queues thread).line

section Steps

variable {s after : Threads} {event : Event} {thread : ThreadName}

/-- A thread that goes on in its turn has less to do. -/
theorem remaining_goTo (s : Threads) (own thread : ThreadName) {place : Place}
    (fewer : work place < work (s.place own)) :
    (s.goTo own place).remaining thread + tick (some own) thread ≤ s.remaining thread := by
  change work _ + s.lastTurn thread + _ ≤ work _ + s.lastTurn thread
  by_cases same : own = thread
  · subst same
    rw [place_goTo, tick_self]
    omega
  · rw [place_goTo_of_ne s place (Ne.symm same), tick_other same, Nat.add_zero]

theorem ahead_push {written : Bool} {message : ThreadMessage}
    {queue after : BlockingQueue ThreadMessage} (close : .Close ∈ queue.line)
    (left : finalState (BlockingQueue.push written message queue) = after) :
    ahead after = ahead queue := by
  rw [ahead, ← left, BlockingQueue.line_push,
    takeWhile_append_of_mem (by simp) close, ahead]

theorem ahead_pop {message : ThreadMessage} {queue after : BlockingQueue ThreadMessage}
    (popped : BlockingQueue.popFor queue = .ok (some message) after) (other : message ≠ .Close) :
    ahead queue = ahead after + 1 := by
  rw [ahead, (BlockingQueue.popped_of_popFor popped).line,
    List.takeWhile_cons_of_pos (by simpa using other), List.length_cons, ahead]

theorem lastTurn_pushed {target : ThreadName} {written : Bool} {message : ThreadMessage}
    {queue : BlockingQueue ThreadMessage} (told : s.Told thread)
    (left : finalState (BlockingQueue.push written message (s.queues target)) = queue) :
    (s.setQueue target queue).lastTurn thread = s.lastTurn thread := by
  by_cases same : thread = target
  · subst same
    rcases told with leaves | close
    · simp only [lastTurn, setQueue, leaves, if_true]
    · rw [lastTurn, queues_setQueue, ahead_push close left]
      rfl
  · rw [lastTurn, queues_setQueue_of_ne s queue same]
    rfl

theorem told_pushed {target : ThreadName} {written : Bool} {message : ThreadMessage}
    {queue : BlockingQueue ThreadMessage} (told : s.Told thread)
    (left : finalState (BlockingQueue.push written message (s.queues target)) = queue) :
    (s.setQueue target queue).Told thread := by
  refine told.imp_right fun close => ?_
  by_cases same : thread = target
  · subst same
    rw [queues_setQueue, ← left, BlockingQueue.line_push]
    exact List.mem_append_left _ close
  · rw [queues_setQueue_of_ne s queue same]
    exact close

/-- A thread that reads a message in front of `Close` has two steps less to take. -/
theorem lastTurn_popped {own : ThreadName} {message : ThreadMessage}
    {queue : BlockingQueue ThreadMessage} (stays : s.exit own = false)
    (popped : BlockingQueue.popFor (s.queues own) = .ok (some message) queue)
    (other : message ≠ .Close) (thread : ThreadName) :
    (s.setQueue own queue).lastTurn thread + (if own = thread then 2 else 0) =
      s.lastTurn thread := by
  by_cases same : own = thread
  · subst same
    have still : (s.setQueue own queue).exit own = false := stays
    rw [lastTurn, lastTurn, stays, still, queues_setQueue, ahead_pop popped other, if_pos rfl]
    simp only [Bool.false_eq_true, if_false]
    omega
  · rw [lastTurn, queues_setQueue_of_ne s queue (Ne.symm same), if_neg same]
    rfl

theorem told_popped {own : ThreadName} {message : ThreadMessage}
    {queue : BlockingQueue ThreadMessage} (told : s.Told thread)
    (popped : BlockingQueue.popFor (s.queues own) = .ok (some message) queue)
    (other : message ≠ .Close) : (s.setQueue own queue).Told thread := by
  refine told.imp_right fun close => ?_
  by_cases same : thread = own
  · subst same
    rw [(BlockingQueue.popped_of_popFor popped).line] at close
    rw [queues_setQueue]
    exact (List.mem_cons.mp close).resolve_left fun same => other same.symm
  · rw [queues_setQueue_of_ne s queue same]
    exact close

theorem line_of_popNothing {queue after : BlockingQueue ThreadMessage}
    (empty : BlockingQueue.popFor queue = .ok none after) : queue.line = [] := by
  cases taken : queue.next with
  | none =>
      have nothing := BlockingQueue.next_eq_none taken
      unfold BlockingQueue.size at nothing
      rw [BlockingQueue.line, List.eq_nil_of_length_eq_zero (show queue.queue.length = 0 by omega),
        List.eq_nil_of_length_eq_zero (show queue.priority.length = 0 by omega)]
      rfl
  | some pair =>
      rw [BlockingQueue.popFor_some taken] at empty
      split at empty <;> cases empty

/-- A thread that reads `Close` has its last turn before it. -/
theorem remaining_popClose {own : ThreadName} (reading : s.place own = .readMessage)
    (stays : s.exit own = false) (queue : BlockingQueue ThreadMessage) (thread : ThreadName) :
    remaining { (s.setQueue own queue).goTo own .readEPoll with
      exit := Function.update s.exit own true } thread + tick (some own) thread ≤
        s.remaining thread := by
  by_cases same : own = thread
  · subst same
    have place : ((s.setQueue own queue).goTo own .readEPoll).place own = .readEPoll :=
      place_goTo _ _ _
    simp only [remaining, lastTurn, place, reading, stays, Function.update_self, if_true, work,
      Bool.false_eq_true, if_false, tick_self]
    omega
  · have place : ((s.setQueue own queue).goTo own .readEPoll).place thread = s.place thread :=
      place_goTo_of_ne _ _ (Ne.symm same)
    have line : ((s.setQueue own queue).goTo own .readEPoll).queues thread = s.queues thread :=
      queues_setQueue_of_ne s queue (Ne.symm same)
    simp only [remaining, lastTurn, place, line, Function.update_of_ne (Ne.symm same),
      tick_other same, Nat.add_zero, Nat.le_refl]

theorem told_step (told : s.Told thread) (step : Step s event after) : after.Told thread := by
  cases step with
  | @popAddEPollEvent own handler queue reading popped => exact told_popped told popped (by simp)
  | @popClose own queue reading popped =>
      by_cases same : thread = own
      · subst same
        exact .inl (Function.update_self _ _ _)
      · refine told.imp (fun leaves => ?_) fun close => ?_
        · exact (Function.update_of_ne same _ _).trans leaves
        · change _ ∈ ((s.setQueue own queue).queues thread).line
          rw [queues_setQueue_of_ne s queue same]
          exact close
  | push pushing room written => exact told_pushed told (by rw [written]; rfl)
  | pushFails pushing room failed => exact told_pushed told (by rw [failed]; rfl)
  | mainPush next room written => exact told_pushed told (by rw [written]; rfl)
  | popNothing | addEPollEvent | epollWait | dispatch | skip | readEPollEnds | returns | post
  | closeConnection | pop | switch | switched | accept | refuse | setNonBlock | announce | connect
  | ready | close | openOther | closeOther | mainCommands | mainJoin => exact told

theorem remaining_pushed {own target : ThreadName} {written : Bool} {message : ThreadMessage}
    {place : Place} {queue : BlockingQueue ThreadMessage} (told : s.Told thread)
    (left : finalState (BlockingQueue.push written message (s.queues target)) = queue)
    (fewer : work place < work (s.place own)) :
    ((s.setQueue target queue).goTo own place).remaining thread + tick (some own) thread ≤
      s.remaining thread := by
  have less := remaining_goTo (s.setQueue target queue) own thread fewer
  rwa [show (s.setQueue target queue).remaining thread = s.remaining thread from
    congrArg (work (s.place thread) + ·) (lastTurn_pushed told left)] at less

/-- A thread that reads another message has two steps less to take, and adds one. -/
theorem remaining_popAddEPollEvent {own : ThreadName} {handler : EPollEvent}
    {queue : BlockingQueue ThreadMessage} (reading : s.place own = .readMessage)
    (stays : s.exit own = false)
    (popped : BlockingQueue.popFor (s.queues own) = .ok (some (.AddEPollEvent handler)) queue)
    (thread : ThreadName) :
    ((s.setQueue own queue).goTo own (.addEPollEvent handler)).remaining thread +
      tick (some own) thread ≤ s.remaining thread := by
  have turn := lastTurn_popped stays popped (by simp) thread
  change work (((s.setQueue own queue).goTo own (.addEPollEvent handler)).place thread) +
    (s.setQueue own queue).lastTurn thread + tick (some own) thread ≤
      work (s.place thread) + s.lastTurn thread
  by_cases same : own = thread
  · subst same
    rw [if_pos rfl] at turn
    rw [place_goTo, reading, tick_self]
    simp only [work]
    omega
  · rw [if_neg same] at turn
    rw [place_goTo_of_ne _ _ (Ne.symm same), tick_other same]
    change work (s.place thread) + _ + _ ≤ _
    omega

/-- A thread that finds no message has not been told to end. -/
theorem remaining_popNothing {own : ThreadName} {queue : BlockingQueue ThreadMessage}
    (told : s.Told thread) (stays : s.exit own = false)
    (empty : BlockingQueue.popFor (s.queues own) = .ok none queue) :
    (s.goTo own .readEPoll).remaining thread + tick (some own) thread ≤ s.remaining thread := by
  by_cases same : own = thread
  · subst same
    rcases told with leaves | close
    · rw [stays] at leaves
      cases leaves
    · rw [line_of_popNothing empty] at close
      cases close
  · rw [tick_other same, remaining, place_goTo_of_ne s _ (Ne.symm same)]
    exact Nat.le_refl _

theorem work_addClient (msg : Message) (made : Bool) (m : ClientManager)
    (events : List EPollEvent) :
    work (.addClient (pushes msg made m) events) < work (.switch events) := by
  have few : (pushes msg made m).length ≤ 3 := by
    unfold pushes
    split
    · split
      · exact Nat.le_refl _
      · exact Nat.zero_le _
    · exact Nat.zero_le _
  simp only [work]
  omega

/-- A thread that is told to end has a step less to take after each of its own, and as many after
each of the others. -/
theorem remaining_step (suited : Suited s) (told : s.Told thread) (step : Step s event after) :
    after.remaining thread + tick event.actor thread ≤ s.remaining thread := by
  cases step with
  | @popAddEPollEvent own handler queue reading popped =>
      exact remaining_popAddEPollEvent reading (suited.reading reading rfl nofun) popped thread
  | @popClose own queue reading popped =>
      exact remaining_popClose reading (suited.reading reading rfl nofun) queue thread
  | @popNothing own queue reading empty =>
      exact remaining_popNothing told (suited.reading reading rfl nofun) empty
  | addEPollEvent adding =>
      exact remaining_goTo s _ thread (by rw [adding]; exact Nat.one_pos)
  | epollWait waiting distinct few ready =>
      exact remaining_goTo s _ thread (by rw [waiting]; simp only [work]; omega)
  | dispatch next | skip next =>
      exact remaining_goTo s _ thread (by
        rw [next]
        simp only [work, List.length_cons]
        omega)
  | readEPollEnds done =>
      exact remaining_goTo s _ thread (by
        rw [done]
        split <;> exact Nat.one_pos)
  | returns calling other =>
      exact remaining_goTo s _ thread (by rw [calling]; simp only [work]; omega)
  | pop calling managed =>
      exact remaining_goTo { s with manager := _ } _ thread (by
        change _ < work (s.place _)
        rw [calling]
        split <;> simp only [work] <;> omega)
  | switch switching held managed =>
      exact remaining_goTo { s.renew _ _ with manager := _ } _ thread (by
        change _ < work (s.place _)
        rw [switching]
        exact work_addClient _ _ _ _)
  | @push own target handler others events queue pushing room written =>
      exact remaining_pushed told (by rw [written]; rfl) (by rw [pushing]; exact Nat.lt_succ_self _)
  | @pushFails own target handler fault others events queue pushing room failed =>
      refine remaining_pushed told (by rw [failed]; rfl) ?_
      rw [pushing]
      simp only [work, List.length_cons]
      omega
  | switched done =>
      exact remaining_goTo s _ thread (by
        rw [done]
        simp only [work, List.length_nil]
        omega)
  | accept calling managed =>
      exact remaining_goTo { s with manager := _ } _ thread (by
        change _ < work (s.place _)
        rw [calling]
        simp only [work]
        omega)
  | refuse accepted managed =>
      exact remaining_goTo { s with manager := _ } _ thread (by
        change _ < work (s.place _)
        rw [accepted]
        simp only [work]
        omega)
  | setNonBlock accepted =>
      exact remaining_goTo s _ thread (by
        rw [accepted]
        simp only [work]
        omega)
  | announce announcing managed =>
      exact remaining_goTo { s.ring _ with manager := _ } _ thread (by
        change _ < work (s.place _)
        rw [announcing]
        simp only [work]
        omega)
  | @mainPush target message rest queue next room written =>
      have turn := lastTurn_pushed told (show finalState (BlockingQueue.push _ _ _) = queue by
        rw [written]
        rfl)
      change work (s.place thread) + (s.setQueue target queue).lastTurn thread ≤ _
      rw [turn]
      exact Nat.le_refl _
  | post | closeConnection | connect | ready | close | openOther | closeOther | mainCommands
  | mainJoin => exact Nat.le_refl _

end Steps

section Progress

variable {s after : Threads} {event : Event}

/-- In `Acceptor::recv`, behind `accept`. -/
def accepts : Place → Bool
  | .setNonBlock _ | .announce _ => true
  | _ => false

/-- The manager has a message in its hand in its `switch` only, and the Acceptor a descriptor
behind `accept`. -/
structure Handed (s : Threads) : Prop where
  switching : ∀ thread events, s.place thread = .switch events → s.manager.msg.isSome = true
  idle : s.manager.msg.isSome = true → ∃ events, s.place .Server = .switch events
  accepted : ∀ thread, accepts (s.place thread) = true → s.manager.inFd.isSome = true

theorem Suited.accepts_receiver (suited : Suited s) {thread : ThreadName}
    (accepting : accepts (s.place thread) = true) : thread = .Receiver := by
  refine suited.acceptor_receiver ?_
  cases there : s.place thread with
  | setNonBlock | announce => exact List.mem_cons_self
  | _ =>
      rw [there] at accepting
      cases accepting

theorem Handed.moved (handed : Handed s) {own : ThreadName} {place : Place}
    (there : ∀ thread, after.place thread = (s.goTo own place).place thread)
    (manager : after.manager = s.manager) (plain : ∀ events, place ≠ .switch events)
    (kept : accepts place = true → accepts (s.place own) = true)
    (left : ∀ events, s.place own ≠ .switch events) : Handed after := by
  refine ⟨?_, ?_, ?_⟩
  · intro thread events here
    rw [there] at here
    rw [manager]
    by_cases same : thread = own
    · subst same
      rw [place_goTo] at here
      exact absurd here (plain events)
    · rw [place_goTo_of_ne s place same] at here
      exact handed.switching thread events here
  · intro held
    rw [manager] at held
    obtain ⟨events, here⟩ := handed.idle held
    have apart : ThreadName.Server ≠ own := by
      rintro rfl
      exact left events here
    exact ⟨events, (there _).trans ((place_goTo_of_ne s place apart).trans here)⟩
  · intro thread here
    rw [there] at here
    rw [manager]
    by_cases same : thread = own
    · subst same
      rw [place_goTo] at here
      exact handed.accepted thread (kept here)
    · rw [place_goTo_of_ne s place same] at here
      exact handed.accepted thread here

theorem Handed.manage (handed : Handed s) (place : ∀ thread, after.place thread = s.place thread)
    (msg : after.manager.msg = s.manager.msg) (inFd : after.manager.inFd = s.manager.inFd) :
    Handed after := by
  refine ⟨fun thread events there => ?_, fun held => ?_, fun thread there => ?_⟩
  · rw [msg]
    exact handed.switching thread events ((place thread).symm.trans there)
  · rw [msg] at held
    obtain ⟨events, there⟩ := handed.idle held
    exact ⟨events, (place _).trans there⟩
  · rw [inFd]
    rw [place] at there
    exact handed.accepted thread there

theorem inFd_serve (msg : Message) (made : Bool) (m : ClientManager) :
    (m.serve msg made).inFd = m.inFd := by
  unfold ClientManager.serve
  split
  · unfold ClientManager.addClient
    split
    · split <;> rfl
    · rfl
  · unfold ClientManager.eraseClient
    split <;> rfl
  · rfl

/-- The Server takes a message in its hand, or goes on without one. -/
theorem handed_pop (suited : Suited s) (handed : Handed s) {thread : ThreadName}
    (step : Step s (.pop thread) after) : Handed after := by
  cases step with
  | @pop _ events m calling managed =>
      obtain rfl := suited.manager_server (by rw [calling]; exact List.mem_cons_self)
      have away : ∀ events, s.place .Server ≠ .switch events := by
        intro events there
        rw [calling] at there
        cases there
      have others : ∀ thread events, thread ≠ .Server → s.place thread ≠ .switch events := by
        intro thread events apart there
        exact apart (suited.manager_server (by rw [there]; exact List.mem_cons_self))
      have same : m.inFd = s.manager.inFd := by
        cases managed <;> rfl
      refine ⟨?_, ?_, ?_⟩
      · intro thread events there
        by_cases here : thread = .Server
        · subst here
          rw [place_goTo] at there
          split at there
          · assumption
          · cases there
        · rw [place_goTo_of_ne _ _ here] at there
          exact absurd there (others thread events here)
      · intro held
        change m.msg.isSome = true at held
        rw [if_pos held]
        exact ⟨_, place_goTo _ _ _⟩
      · intro thread there
        change m.inFd.isSome = true
        rw [same]
        by_cases here : thread = .Server
        · subst here
          rw [place_goTo] at there
          split at there <;> cases there
        · rw [place_goTo_of_ne _ _ here] at there
          exact handed.accepted thread there

theorem handed_switch (suited : Suited s) (handed : Handed s) {thread : ThreadName} {made : Bool}
    (step : Step s (.switch thread made) after) : Handed after := by
  cases step with
  | @switch _ events msg _ m switching held managed =>
      obtain rfl := suited.manager_server (by rw [switching]; exact List.mem_cons_self)
      have released : m.msg = none ∧ m.inFd = s.manager.inFd := by
        cases managed with
        | serve held => exact ⟨rfl, inFd_serve _ _ _⟩
      refine ⟨?_, ?_, ?_⟩
      · intro thread events there
        by_cases here : thread = .Server
        · subst here
          rw [place_goTo] at there
          cases there
        · rw [place_goTo_of_ne _ _ here] at there
          exact absurd (suited.manager_server (s := s) (by
            rw [show s.place thread = .switch events from there]
            exact List.mem_cons_self)) here
      · intro held
        change m.msg.isSome = true at held
        rw [released.1] at held
        cases held
      · intro thread there
        change m.inFd.isSome = true
        rw [released.2]
        by_cases here : thread = .Server
        · subst here
          rw [place_goTo] at there
          cases there
        · rw [place_goTo_of_ne _ _ here] at there
          exact handed.accepted thread there

/-- The Receiver takes a descriptor in its hand. -/
theorem handed_accept (suited : Suited s) (handed : Handed s) {thread : ThreadName}
    {events : List EPollEvent} (calling : s.place thread = .call .Acceptor events)
    {m : ClientManager} (msg : m.msg = s.manager.msg) (inFd : m.inFd.isSome = true) :
    Handed ({ s with manager := m }.goTo thread (.setNonBlock events)) := by
  obtain rfl := suited.acceptor_receiver (by rw [calling]; exact List.mem_cons_self)
  refine ⟨?_, ?_, fun _ _ => inFd⟩
  · intro thread others there
    change m.msg.isSome = true
    rw [msg]
    by_cases here : thread = .Receiver
    · subst here
      rw [place_goTo] at there
      cases there
    · rw [place_goTo_of_ne _ _ here] at there
      exact handed.switching thread others there
  · intro held
    change m.msg.isSome = true at held
    rw [msg] at held
    obtain ⟨others, there⟩ := handed.idle held
    exact ⟨others, (place_goTo_of_ne _ _ (by decide)).trans there⟩

/-- The Receiver is done with the descriptor in its hand. -/
theorem handed_released (suited : Suited s) (handed : Handed s) {thread : ThreadName}
    {events : List EPollEvent} (accepting : accepts (s.place thread) = true)
    {after : Threads} (place : after.place = s.place) (msg : after.manager.msg = s.manager.msg) :
    Handed (after.goTo thread (.dispatch events)) := by
  obtain rfl := suited.accepts_receiver accepting
  refine ⟨?_, ?_, ?_⟩
  · intro thread others there
    change after.manager.msg.isSome = true
    rw [msg]
    by_cases here : thread = .Receiver
    · subst here
      rw [place_goTo] at there
      cases there
    · rw [place_goTo_of_ne _ _ here, place] at there
      exact handed.switching thread others there
  · intro held
    change after.manager.msg.isSome = true at held
    rw [msg] at held
    obtain ⟨others, there⟩ := handed.idle held
    exact ⟨others, (place_goTo_of_ne _ _ (by decide)).trans (place ▸ there)⟩
  · intro thread there
    by_cases here : thread = .Receiver
    · subst here
      rw [place_goTo] at there
      cases there
    · rw [place_goTo_of_ne _ _ here, place] at there
      exact absurd (suited.accepts_receiver there) here

theorem handed_step (suited : Suited s) (handed : Handed s) (step : Step s event after) :
    Handed after := by
  have away : ∀ {thread place}, s.place thread = place → (∀ events, place ≠ .switch events) →
      ∀ events, s.place thread ≠ .switch events := by
    intro thread place there other events
    rw [there]
    exact other events
  cases step with
  | popAddEPollEvent reading popped | popClose reading popped | popNothing reading empty =>
      exact handed.moved (fun _ => rfl) rfl nofun nofun (away reading (by simp))
  | addEPollEvent adding =>
      exact handed.moved (fun _ => rfl) rfl nofun nofun (away adding (by simp))
  | epollWait waiting distinct few ready =>
      exact handed.moved (fun _ => rfl) rfl nofun nofun (away waiting (by simp))
  | dispatch next | skip next =>
      exact handed.moved (fun _ => rfl) rfl nofun nofun (away next (by simp))
  | readEPollEnds done =>
      refine handed.moved (fun _ => rfl) rfl (fun _ => ?_) ?_ (away done (by simp))
      · split <;> simp
      · split <;> nofun
  | returns calling other =>
      exact handed.moved (fun _ => rfl) rfl nofun nofun (away calling (by simp))
  | pop calling managed => exact handed_pop suited handed (.pop calling managed)
  | switch switching held managed =>
      exact handed_switch suited handed (.switch switching held managed)
  | push pushing room written | pushFails pushing room failed =>
      exact handed.moved (fun _ => rfl) rfl nofun nofun (away pushing (by simp))
  | switched done =>
      exact handed.moved (fun _ => rfl) rfl nofun nofun (away done (by simp))
  | accept calling managed =>
      cases managed with
      | accept idle closed => exact handed_accept suited handed calling rfl rfl
  | refuse accepted managed =>
      cases managed with
      | refuse held => exact handed_released suited handed (by rw [accepted]; rfl) rfl rfl
  | setNonBlock accepted =>
      exact handed.moved (fun _ => rfl) rfl nofun (fun _ => by rw [accepted]; rfl)
        (away accepted (by simp))
  | announce announcing managed =>
      cases managed with
      | announce held room => exact handed_released suited handed (by rw [announcing]; rfl) rfl rfl
  | closeConnection calling managed =>
      cases managed with
      | closeConnection alive fresh => exact handed.manage (fun _ => rfl) rfl rfl
  | openOther managed =>
      cases managed with
      | openOther closed => exact handed.manage (fun _ => rfl) rfl rfl
  | closeOther managed =>
      cases managed with
      | closeOther opened => exact handed.manage (fun _ => rfl) rfl rfl
  | close | post | connect | ready | mainPush | mainCommands | mainJoin =>
      exact handed.manage (fun _ => rfl) rfl rfl

/-- The pipe of a thread's queue has a byte for each element. -/
structure Filled (queue : BlockingQueue ThreadMessage) : Prop where
  piped : queue.Piped
  priority : queue.priority = []

theorem Filled.push {queue after : BlockingQueue ThreadMessage} {message : ThreadMessage}
    (filled : Filled queue) (written : BlockingQueue.push true message queue = .ok () after) :
    Filled after := by
  obtain ⟨piped, priority⟩ := filled
  cases written
  refine ⟨?_, priority⟩
  change queue.pipe + 1 = (queue.queue ++ [message]).length + queue.priority.length
  rw [BlockingQueue.Piped] at piped
  rw [List.length_append, List.length_singleton]
  omega

theorem Filled.pop {queue after : BlockingQueue ThreadMessage} {message : ThreadMessage}
    (filled : Filled queue)
    (popped : BlockingQueue.popFor queue = .ok (some message) after) : Filled after := by
  obtain ⟨piped, priority⟩ := filled
  obtain ⟨origin, taken, pipe, limit⟩ := BlockingQueue.takes_of_popFor popped
  rcases taken with ⟨address, first, _⟩ | ⟨_, still, front⟩
  · rw [priority] at first
    cases first
  · refine ⟨?_, still⟩
    rw [BlockingQueue.Piped] at piped ⊢
    rw [front, priority, List.length_cons] at piped
    rw [still]
    simp only [List.length_nil] at piped ⊢
    omega

theorem filled_setQueue (filled : ∀ thread, Filled (s.queues thread)) (own : ThreadName)
    {queue : BlockingQueue ThreadMessage} (kept : Filled queue) (thread : ThreadName) :
    Filled ((s.setQueue own queue).queues thread) := by
  by_cases same : thread = own
  · subst same
    rw [queues_setQueue]
    exact kept
  · rw [queues_setQueue_of_ne s queue same]
    exact filled thread

theorem filled_step (filled : ∀ thread, Filled (s.queues thread)) (step : Step s event after)
    (fits : ∀ thread, event ≠ .pushFails thread) : ∀ thread, Filled (after.queues thread) := by
  cases step with
  | popAddEPollEvent reading popped | popClose reading popped =>
      exact filled_setQueue filled _ ((filled _).pop popped)
  | push pushing room written | mainPush next room written =>
      exact filled_setQueue filled _ ((filled _).push written)
  | pushFails => exact absurd rfl (fits _)
  | popNothing | addEPollEvent | epollWait | dispatch | skip | readEPollEnds | returns | post
  | closeConnection | pop | switch | switched | accept | refuse | setNonBlock | announce | connect
  | ready | close | openOther | closeOther | mainCommands | mainJoin => exact filled

/-- What every reachable state has. -/
structure Steady (s : Threads) : Prop where
  suited : Suited s
  handed : Handed s

theorem steady_start : Steady {} :=
  ⟨suited_start, ⟨by simp, by simp, nofun⟩⟩

theorem steady_step (steady : Steady s) (step : Step s event after) : Steady after :=
  ⟨suited_step steady.suited step, handed_step steady.suited steady.handed step⟩

theorem steady_of_run {events : List Event} (run : Run Step {} events s) : Steady s :=
  run.invariant Steady steady_start fun _ _ _ => steady_step

/-- As long as every byte goes into its pipe. -/
theorem filled_of_run {events : List Event} (run : Run Step {} events s)
    (fits : ∀ thread, .pushFails thread ∉ events) : ∀ thread, Filled (s.queues thread) := by
  have kept : (∀ thread, .pushFails thread ∉ events) → ∀ thread, Filled (s.queues thread) := by
    refine run.history_invariant (fun events state =>
      (∀ thread, .pushFails thread ∉ events) → ∀ thread, Filled (state.queues thread))
      (fun _ _ => ⟨by rfl, rfl⟩) ?_
    intro events before event after _ filled step fits
    refine filled_step (filled fun thread member =>
      fits thread (List.mem_append_left _ member)) step ?_
    rintro thread rfl
    exact fits thread (by simp)
  exact kept fits

/-- A thread has a step to take. -/
def CanStep (s : Threads) (thread : ThreadName) : Prop :=
  ∃ event after, event.actor = some thread ∧ Step s event after

theorem exception_of_popFor {queue after : BlockingQueue Message} {fault : Fault}
    (failed : BlockingQueue.popFor queue = .error fault after) :
    ∃ what, fault = .exception what := by
  cases taken : queue.next with
  | none =>
      rw [BlockingQueue.popFor_none taken] at failed
      cases failed
  | some pair =>
      rw [BlockingQueue.popFor_some taken] at failed
      split at failed
      · cases failed
      · cases failed
        exact ⟨_, rfl⟩

/-- Whatever its queue gives, the manager goes on with it. -/
theorem canStep_pop (steady : Steady s) {thread : ThreadName} {events : List EPollEvent}
    (calling : s.place thread = .call .ClientManager events) : s.CanStep thread := by
  obtain rfl := steady.suited.manager_server (by rw [calling]; exact List.mem_cons_self)
  have idle : s.manager.msg = none := by
    rw [← Option.not_isSome_iff_eq_none]
    intro held
    obtain ⟨events, there⟩ := steady.handed.idle held
    rw [calling] at there
    cases there
  cases popped : BlockingQueue.popFor s.manager.blockingQueue with
  | ok elem queue =>
      cases elem with
      | none => exact ⟨.pop .Server, _, rfl, .pop calling (.popNothing idle popped)⟩
      | some msg => exact ⟨.pop .Server, _, rfl, .pop calling (.pop idle popped)⟩
  | error fault queue =>
      obtain ⟨what, rfl⟩ := exception_of_popFor popped
      exact ⟨.pop .Server, _, rfl, .pop calling (.popFails idle popped)⟩

/-- A push in `addClient` goes on as soon as there is room. -/
theorem canStep_push {thread target : ThreadName} {handler : EPollEvent}
    {others : List (ThreadName × EPollEvent)} {events : List EPollEvent}
    (pushing : s.place thread = .addClient ((target, handler) :: others) events)
    (room : (s.queues target).HasRoom) : s.CanStep thread :=
  ⟨.push thread, _, rfl, .push pushing room rfl⟩

/-- So does the push of the Acceptor. -/
theorem canStep_announce (handed : Handed s) {thread : ThreadName} {events : List EPollEvent}
    (announcing : s.place thread = .announce events)
    (room : s.manager.blockingQueue.HasRoom) : s.CanStep thread := by
  obtain ⟨fileDescriptor, held⟩ :=
    Option.isSome_iff_exists.mp (handed.accepted thread (by rw [announcing]; rfl))
  exact ⟨.announce thread true, _, rfl, .announce announcing (.announce held room)⟩

/-- A thread that has not ended can go on, unless it waits for room in a queue. -/
theorem goes_on (steady : Steady s) (filled : ∀ thread, Filled (s.queues thread))
    (thread : ThreadName) (running : s.place thread ≠ .ended) :
    s.CanStep thread ∨ (∃ target, s.Waits thread target) ∨ s.WaitsForManager thread := by
  cases there : s.place thread with
  | ended => exact absurd there running
  | readMessage =>
      cases popped : BlockingQueue.popFor (s.queues thread) with
      | error fault queue => exact absurd popped (filled thread).piped.popFor_ok
      | ok elem queue =>
          cases elem with
          | none => exact .inl ⟨.readMessage thread, _, rfl, .popNothing there popped⟩
          | some message =>
              cases message with
              | Close => exact .inl ⟨.readMessage thread, _, rfl, .popClose there popped⟩
              | AddEPollEvent event =>
                  exact .inl ⟨.readMessage thread, _, rfl, .popAddEPollEvent there popped⟩
  | addEPollEvent event => exact .inl ⟨.addEPollEvent thread, _, rfl, .addEPollEvent there⟩
  | readEPoll =>
      exact .inl ⟨.epollWait thread [], _, rfl,
        .epollWait there List.nodup_nil (Nat.zero_le _) (by simp)⟩
  | dispatch events =>
      cases events with
      | nil => exact .inl ⟨.readEPollEnds thread, _, rfl, .readEPollEnds there⟩
      | cons event events => exact .inl ⟨.dispatch thread, _, rfl, .dispatch there⟩
  | call event events =>
      by_cases manager : event = .ClientManager
      · subst manager
        exact .inl (canStep_pop steady there)
      · exact .inl ⟨.returns thread, _, rfl, .returns there manager⟩
  | switch events =>
      obtain ⟨msg, held⟩ :=
        Option.isSome_iff_exists.mp (steady.handed.switching thread events there)
      exact .inl ⟨.switch thread true, _, rfl, .switch there held (.serve held)⟩
  | addClient pushes events =>
      cases pushes with
      | nil => exact .inl ⟨.returns thread, _, rfl, .switched there⟩
      | cons push others =>
          obtain ⟨target, event⟩ := push
          by_cases room : (s.queues target).HasRoom
          · exact .inl (canStep_push there room)
          · exact .inr (.inl ⟨target, event, others, events, there, room⟩)
  | setNonBlock events => exact .inl ⟨.setNonBlock thread, _, rfl, .setNonBlock there⟩
  | announce events =>
      by_cases room : s.manager.blockingQueue.HasRoom
      · exact .inl (canStep_announce steady.handed there room)
      · exact .inr (.inr ⟨events, there, room⟩)

end Progress

/-- A thread that has `Close` in its queue takes no more steps than its place and the messages in
front leave it, whatever the others do. Where every byte has gone into the pipe of its queue, the
thread has a step to take until it has ended, unless it is the Server and waits for room in the
queue of a thread, or the Receiver and waits for room in that of the manager. -/
theorem ends_when_told {history later : List Event} {told finish : Threads} {thread : ThreadName}
    (before : Run Step {} history told) (close : .Close ∈ (told.queues thread).line)
    (run : Run Step told later finish) :
    later.countP (fun event => event.actor = some thread) + finish.remaining thread ≤
      told.remaining thread ∧
    ((∀ pushing, .pushFails pushing ∉ history ++ later) →
      finish.place thread = .ended ∨ finish.CanStep thread ∨
      (thread = .Server ∧ ∃ target, finish.Waits thread target) ∨
      thread = .Receiver ∧ finish.WaitsForManager thread) := by
  constructor
  · refine run.counted (fun s => s.remaining thread) _ (fun s => Suited s ∧ s.Told thread) ?_ ?_
      ⟨(steady_of_run before).suited, .inr close⟩
    · exact fun _ _ _ held step => ⟨suited_step held.1 step, told_step held.2 step⟩
    · rintro s event after ⟨suited, told⟩ step
      have fewer := remaining_step suited told step
      simpa [tick] using fewer
  · intro fits
    by_cases ended : finish.place thread = .ended
    · exact .inl ended
    · have steady := steady_of_run (before.append run)
      have filled := filled_of_run (before.append run) fits
      rcases goes_on steady filled thread ended with step | waits | waits
      · exact .inr (.inl step)
      · obtain ⟨target, event, others, events, pushing, full⟩ := waits
        have server : thread = .Server := steady.suited.manager_server (by
          rw [pushing]
          exact List.mem_cons_self)
        exact .inr (.inr (.inl ⟨server, target, event, others, events, pushing, full⟩))
      · obtain ⟨events, announcing, full⟩ := waits
        have receiver : thread = .Receiver := steady.suited.acceptor_receiver (by
          rw [announcing]
          exact List.mem_cons_self)
        exact .inr (.inr (.inr ⟨receiver, events, announcing, full⟩))

/-- `main` tells the Sender to end, while no client has come. -/
def senderTold : { s : Threads // Run Step {} [
      .main (.push .Server (.AddEPollEvent .ClientManager)),
      .main (.push .Receiver (.AddEPollEvent .Acceptor)), .main .commands,
      .main (.push .Sender .Close)] s } :=
  ⟨_, .cons (.mainPush rfl (by decide) rfl) <| .cons (.mainPush rfl (by decide) rfl) <|
    .cons (.mainCommands rfl) <| .cons (.mainPush rfl (by decide) rfl) .nil⟩

/-- The Sender reads the message and ends. -/
def senderEnded : { s : Threads // Run Step senderTold.1
      [.readMessage .Sender, .epollWait .Sender [], .readEPollEnds .Sender] s } :=
  ⟨_, .cons (.popClose rfl rfl) <|
    .cons (.epollWait rfl (by decide) (by decide) (by decide)) <|
    .cons (.readEPollEnds rfl) .nil⟩

theorem ends_when_told_sender : senderTold.1.CanStep .Sender ∧
    senderEnded.1.place .Sender = .ended ∧
    3 + senderEnded.1.remaining .Sender ≤ senderTold.1.remaining .Sender := by
  have goes := (@ends_when_told _ _ _ _ .Sender senderTold.2 (by decide) .nil).2 (by simp)
  have steps := (@ends_when_told _ _ _ _ .Sender senderTold.2 (by decide) senderEnded.2).1
  exact ⟨(goes.resolve_left (by decide)).resolve_right (by simp), rfl, steps⟩

section Order

variable {s after : Threads} {event : Event} {thread : ThreadName}

/-- A thread that has ended stays where it is, and one that ends has read `Close`. -/
theorem place_step (step : Step s event after) (thread : ThreadName) :
    after.place thread = s.place thread ∨
      s.place thread ≠ .ended ∧ (after.place thread = .ended → s.exit thread = true) := by
  have moved : ∀ {own place}, s.place own ≠ .ended →
      (∀ other, after.place other = (s.goTo own place).place other) →
      (place = .ended → s.exit own = true) →
      after.place thread = s.place thread ∨
        s.place thread ≠ .ended ∧ (after.place thread = .ended → s.exit thread = true) := by
    intro own place running there ends
    by_cases here : thread = own
    · subst here
      refine .inr ⟨running, fun ended => ends ?_⟩
      rwa [there, place_goTo] at ended
    · rw [there, place_goTo_of_ne s place here]
      exact .inl rfl
  cases step with
  | popAddEPollEvent reading | popClose reading | popNothing reading =>
      exact moved (by simp [reading]) (fun _ => rfl) nofun
  | addEPollEvent adding => exact moved (by simp [adding]) (fun _ => rfl) nofun
  | epollWait waiting => exact moved (by simp [waiting]) (fun _ => rfl) nofun
  | dispatch next | skip next => exact moved (by simp [next]) (fun _ => rfl) nofun
  | readEPollEnds done =>
      refine moved (by simp [done]) (fun _ => rfl) ?_
      split
      · exact fun _ => ‹_›
      · exact nofun
  | returns calling | accept calling => exact moved (by simp [calling]) (fun _ => rfl) nofun
  | pop calling =>
      refine moved (by simp [calling]) (fun _ => rfl) ?_
      split <;> exact nofun
  | switch switching => exact moved (by simp [switching]) (fun _ => rfl) nofun
  | push pushing | pushFails pushing => exact moved (by simp [pushing]) (fun _ => rfl) nofun
  | switched done => exact moved (by simp [done]) (fun _ => rfl) nofun
  | refuse accepted | setNonBlock accepted =>
      exact moved (by simp [accepted]) (fun _ => rfl) nofun
  | announce announcing => exact moved (by simp [announcing]) (fun _ => rfl) nofun
  | post | closeConnection | connect | ready | close | openOther | closeOther | mainPush
  | mainCommands | mainJoin => exact .inl rfl

/-- Only `main` tells a thread to end. -/
theorem told_of_step (step : Step s event after) (told : after.Told thread) :
    s.Told thread ∨ event = .main (.push thread .Close) := by
  have pushed : ∀ {written target message queue},
      finalState (BlockingQueue.push written message (s.queues target)) = queue →
      (s.setQueue target queue).Told thread →
      s.Told thread ∨ target = thread ∧ message = .Close := by
    intro written target message queue left told
    by_cases same : thread = target
    · subst same
      rcases told with leaves | close
      · exact .inl (.inl leaves)
      · rw [queues_setQueue, ← left, BlockingQueue.line_push] at close
        rcases List.mem_append.mp close with old | new
        · exact .inl (.inr old)
        · exact .inr ⟨rfl, (List.mem_singleton.mp new).symm⟩
    · rw [Told, queues_setQueue_of_ne s queue same] at told
      exact .inl told
  have popped : ∀ {own message queue},
      BlockingQueue.popFor (s.queues own) = .ok (some message) queue →
      (s.setQueue own queue).Told thread → s.Told thread := by
    intro own message queue popped told
    by_cases same : thread = own
    · subst same
      refine told.imp_right fun close => ?_
      rw [queues_setQueue] at close
      rw [(BlockingQueue.popped_of_popFor popped).line]
      exact List.mem_cons_of_mem _ close
    · rwa [Told, queues_setQueue_of_ne s _ same] at told
  cases step with
  | popAddEPollEvent reading taken => exact .inl (popped taken told)
  | @popClose own queue reading taken =>
      by_cases same : thread = own
      · subst same
        refine .inl (.inr ?_)
        rw [(BlockingQueue.popped_of_popFor taken).line]
        exact List.mem_cons_self
      · refine .inl (popped taken (told.imp_left fun leaves => ?_))
        exact (Function.update_of_ne same _ _).symm.trans leaves
  | push pushing room written =>
      exact .inl ((pushed (by rw [written]; rfl) told).resolve_right (by simp))
  | pushFails pushing room failed =>
      exact .inl ((pushed (by rw [failed]; rfl) told).resolve_right (by simp))
  | mainPush next room written =>
      refine (pushed (by rw [written]; rfl) told).imp_right ?_
      rintro ⟨rfl, rfl⟩
      rfl
  | popNothing | addEPollEvent | epollWait | dispatch | skip | readEPollEnds | returns | post
  | closeConnection | pop | switch | switched | accept | refuse | setNonBlock | announce | connect
  | ready | close | openOther | closeOther | mainCommands | mainJoin => exact .inl told

/-- `main` goes through its steps one by one. -/
theorem main_split (step : Step s event after) :
    after.main = s.main ∨ ∃ next, event = .main next ∧ s.main = next :: after.main := by
  cases step with
  | mainPush next | mainCommands next | mainJoin next => exact .inr ⟨_, rfl, next⟩
  | _ => exact .inl rfl

/-- Where `main` has come to: it tells the threads to end one after the other. -/
structure Ordered (s : Threads) : Prop where
  main : s.main <:+ ({} : Threads).main
  told : ∀ thread, s.Told thread → .push thread .Close ∉ s.main
  joined : ∀ thread, .join thread ∉ s.main → s.place thread = .ended
  ended : ∀ thread, s.place thread = .ended → s.exit thread = true

theorem exit_step (step : Step s event after) (leaves : s.exit thread = true) :
    after.exit thread = true := by
  cases step with
  | @popClose own queue reading popped =>
      by_cases same : thread = own
      · subst same
        exact Function.update_self _ _ _
      · exact (Function.update_of_ne same _ _).trans leaves
  | _ => exact leaves

theorem ordered_start : Ordered {} := by
  refine ⟨List.suffix_refl _, ?_, ?_, nofun⟩
  · rintro thread (leaves | close)
    · cases leaves
    · cases close
  · intro thread
    cases thread <;> decide

theorem ordered_step (ordered : Ordered s) (step : Step s event after) : Ordered after := by
  have distinct : s.main.Nodup := ordered.main.sublist.nodup (by decide)
  refine ⟨?_, ?_, ?_, ?_⟩
  · rcases main_split step with same | ⟨next, _, split⟩
    · exact same ▸ ordered.main
    · exact (List.suffix_cons next after.main).trans (split ▸ ordered.main)
  · intro thread told member
    rcases told_of_step step told with before | rfl
    · exact ordered.told thread before (main_step step _ member)
    · rcases main_split step with same | ⟨next, push, split⟩
      · cases step with
        | mainPush first =>
            rw [first] at same
            exact absurd same (List.cons_ne_self _ _).symm
      · cases push
        rw [split] at distinct
        exact (List.nodup_cons.mp distinct).1 member
  · intro thread gone
    have before : s.place thread = .ended := by
      rcases main_split step with kept | ⟨next, rfl, split⟩
      · exact ordered.joined thread (kept ▸ gone)
      · by_cases joins : next = .join thread
        · subst joins
          cases step with
          | mainJoin first ended => exact ended
        · refine ordered.joined thread fun member => ?_
          rw [split] at member
          exact (List.mem_cons.mp member).elim (fun same => joins same.symm) gone
    rcases place_step step thread with same | ⟨running, _⟩
    · exact same.trans before
    · exact absurd before running
  · intro thread ended
    rcases place_step step thread with same | ⟨_, ends⟩
    · exact exit_step step (ordered.ended thread (same ▸ ended))
    · exact exit_step step (ends ended)

end Order

/-- The threads end one after the other, the Sender first and the Server last, and `main` returns
when all of them have ended. -/
theorem ends_in_order {events : List Event} {s : Threads} (run : Run Step {} events s) :
    (s.Told .Receiver → s.place .Sender = .ended) ∧
    (s.Told .Server → s.place .Receiver = .ended) ∧
    (s.main = [] → ∀ thread, s.place thread = .ended) := by
  have ordered : Ordered s := run.invariant Ordered ordered_start fun _ _ _ => ordered_step
  have later : ∀ main ∈ ({} : Threads).main.tails,
      (.push .Receiver .Close ∉ main → .join .Sender ∉ main) ∧
      (.push .Server .Close ∉ main → .join .Receiver ∉ main) := by
    decide
  obtain ⟨receiver, server⟩ := later s.main ((List.mem_tails _ _).mpr ordered.main)
  refine ⟨?_, ?_, ?_⟩
  · exact fun told => ordered.joined .Sender (receiver (ordered.told .Receiver told))
  · exact fun told => ordered.joined .Receiver (server (ordered.told .Server told))
  · intro returned thread
    exact ordered.joined thread (by rw [returned]; exact List.not_mem_nil)

/-- `main` goes on to the Receiver. -/
def receiverTold : { s : Threads // Run Step senderEnded.1
      [.main (.join .Sender), .main (.push .Receiver .Close)] s } :=
  ⟨_, .cons (.mainJoin rfl rfl) <| .cons (.mainPush rfl (by decide) rfl) .nil⟩

theorem ends_in_order_sender : .Close ∈ (receiverTold.1.queues .Receiver).line ∧
    receiverTold.1.place .Sender = .ended :=
  ⟨by decide, (ends_in_order ((senderTold.2.append senderEnded.2).append receiverTold.2)).1
    (.inr (by decide))⟩

end Threads

end Locus
