import Locus.BlockingQueueTraffic
import Locus.Threads

set_option autoImplicit false

/- Where the threads keep pointers to handlers, and which handlers these are. -/
namespace Locus

open Transition Program

namespace BlockingQueue

variable {T : Type}

/-- What is in a queue, in the order in which it comes out. -/
def line (q : BlockingQueue T) : List T := q.priority.map Prod.snd ++ q.queue

theorem Popped.line {before after : BlockingQueue T} {elem : T}
    (popped : before.Popped elem after) : before.line = elem :: after.line := by
  unfold BlockingQueue.line
  rcases popped with ⟨address, first, same⟩ | ⟨drained, still, front⟩
  · rw [first, same]
    rfl
  · rw [drained, still, front]
    rfl

/-- What a push leaves in the queue, whether it returns or throws. -/
theorem line_push (written : Bool) (elem : T) (q : BlockingQueue T) :
    (finalState (push written elem q)).line = q.line ++ [elem] := by
  obtain ⟨queue, priority⟩ := push_state written elem q
  rw [line, queue, priority, ← List.append_assoc]
  rfl

end BlockingQueue

/-- The handlers whose calls have not returned. -/
def Place.calls : Place → List EPollEvent
  | .call event _ => [event]
  | .switch _ | .addClient _ _ => [.ClientManager]
  | .setNonBlock _ | .announce _ => [.Acceptor]
  | .readMessage | .addEPollEvent _ | .readEPoll | .dispatch _ | .ended => []

/-- The handlers that a thread has still to register or to call. -/
def Place.awaits : Place → List EPollEvent
  | .addEPollEvent event => [event]
  | .dispatch events | .call _ events | .switch events | .addClient _ events
  | .setNonBlock events | .announce events => events
  | .readMessage | .readEPoll | .ended => []

/-- The handlers that a thread has in its hands. -/
def Place.handlers (place : Place) : List EPollEvent := place.calls ++ place.awaits

/-- The handlers that a thread is about to send to others. -/
def Place.pushes : Place → List (ThreadName × EPollEvent)
  | .addClient pushes _ => pushes
  | _ => []

/-- Before the `epoll_wait` of a turn of the loop. -/
def Place.waits : Place → Bool
  | .readMessage | .addEPollEvent _ | .readEPoll => true
  | .dispatch _ | .call _ _ | .switch _ | .addClient _ _ | .setNonBlock _ | .announce _
  | .ended => false

/-- An element that is added at the end is the last one to be taken. -/
theorem mem_takeWhile_append {α : Type} {keeps : α → Bool} {elems : List α} {elem last : α}
    (member : elem ∈ (elems ++ [last]).takeWhile keeps) :
    elem ∈ elems.takeWhile keeps ∨ elem = last := by
  induction elems with
  | nil => exact .inr (List.mem_singleton.mp ((List.takeWhile_sublist keeps).subset member))
  | cons first rest ih =>
      rw [List.cons_append, List.takeWhile_cons] at member
      rw [List.takeWhile_cons]
      cases kept : keeps first with
      | false => simp [kept] at member
      | true =>
          simp only [kept, if_true, List.mem_cons] at member ⊢
          rcases member with here | later
          · exact .inl (.inl here)
          · exact (ih later).imp_left .inr

namespace Threads

/-- The messages that a thread will read. -/
def readable (s : Threads) (thread : ThreadName) : List ThreadMessage :=
  if s.exit thread then [] else (s.queues thread).line.takeWhile (· ≠ .Close)

/-- A thread will call `epoll_wait` again. -/
def WaitsAgain (s : Threads) (thread : ThreadName) : Prop :=
  s.exit thread = false ∨ s.place thread = .readEPoll

/-- Every pointer to a handler that a thread will use, will be sent or will be told of satisfies
a condition, and those in use another one. -/
structure Refs (good called : ThreadName → EPollEvent → Prop) (s : Threads) : Prop where
  awaits : ∀ thread, ∀ event ∈ (s.place thread).awaits, good thread event
  calls : ∀ thread, ∀ event ∈ (s.place thread).calls, called thread event
  pushes : ∀ thread, ∀ push ∈ (s.place thread).pushes, good push.1 push.2
  queued : ∀ thread event, .AddEPollEvent event ∈ s.readable thread → good thread event
  armed : ∀ thread event, s.WaitsAgain thread → s.watched thread event = true →
    s.armed thread event = true → good thread event
  main : ∀ thread event, .push thread (.AddEPollEvent event) ∈ s.main → good thread event
  /-- A thread that has read `Close` comes to its last `epoll_wait` at once. -/
  leaving : ∀ thread, s.exit thread = true → (s.place thread).waits = true →
    s.place thread = .readEPoll

/-- The pointers that a step makes. -/
def Brings (s : Threads) : Event → ThreadName → EPollEvent → Prop
  | .switch _ made, thread, event =>
      ∃ msg, s.manager.msg = some msg ∧ (thread, event) ∈ pushes msg made s.manager
  | .post _ session, thread, event => thread = .Server ∧ event = .ProtocolClient session
  | .closeConnection _ _ _, thread, event | .announce _ _, thread, event
  | .close _ _ _, thread, event => thread = .Server ∧ event = .ClientManager
  | .connect, thread, event => thread = .Receiver ∧ event = .Acceptor
  | .ready target session, thread, event => thread = target ∧ event = .ClientBuffer session
  | _, _, _ => False

section Refs

variable {good called : ThreadName → EPollEvent → Prop} {s : Threads}

section Places

variable {thread : ThreadName} {place : Place}

theorem Refs.held (refs : Refs good called s) (there : s.place thread = place) :
    ∀ event ∈ place.awaits, good thread event := by
  rw [← there]
  exact refs.awaits thread

theorem Refs.inUse (refs : Refs good called s) (there : s.place thread = place) :
    ∀ event ∈ place.calls, called thread event := by
  rw [← there]
  exact refs.calls thread

theorem Refs.sending (refs : Refs good called s) (there : s.place thread = place) :
    ∀ push ∈ place.pushes, good push.1 push.2 := by
  rw [← there]
  exact refs.pushes thread

/-- A thread that has not read `Close` is before its `epoll_wait`. -/
theorem Refs.reading (refs : Refs good called s) (there : s.place thread = place)
    (waits : place.waits = true) (other : place ≠ .readEPoll) : s.exit thread = false := by
  rw [← there] at waits other
  rw [← Bool.not_eq_true]
  exact fun leaves => other (refs.leaving thread leaves waits)

end Places

/-- A thread goes to a place whose handlers it knows. -/
theorem Refs.goTo (refs : Refs good called s) (thread : ThreadName) {place : Place}
    (awaits : ∀ event ∈ place.awaits, good thread event)
    (calls : ∀ event ∈ place.calls, called thread event)
    (pushes : ∀ push ∈ place.pushes, good push.1 push.2)
    (waits : place.waits = true → s.exit thread = false) :
    Refs good called (s.goTo thread place) := by
  refine ⟨?_, ?_, ?_, refs.queued, ?_, refs.main, ?_⟩
  · intro other event member
    by_cases same : other = thread
    · subst same
      rw [place_goTo] at member
      exact awaits event member
    · rw [place_goTo_of_ne s place same] at member
      exact refs.awaits other event member
  · intro other event member
    by_cases same : other = thread
    · subst same
      rw [place_goTo] at member
      exact calls event member
    · rw [place_goTo_of_ne s place same] at member
      exact refs.calls other event member
  · intro other push member
    by_cases same : other = thread
    · subst same
      rw [place_goTo] at member
      exact pushes push member
    · rw [place_goTo_of_ne s place same] at member
      exact refs.pushes other push member
  · intro other event again
    by_cases same : other = thread
    · subst same
      rw [WaitsAgain, place_goTo] at again
      refine refs.armed other event (.inl ?_)
      rcases again with stays | last
      · exact stays
      · exact waits (by rw [last]; rfl)
    · rw [WaitsAgain, place_goTo_of_ne s place same] at again
      exact refs.armed other event again
  · intro other leaves
    by_cases same : other = thread
    · subst same
      rw [place_goTo]
      intro there
      have stays : s.exit other = false := waits there
      exact absurd (stays.symm.trans leaves) Bool.false_ne_true
    · rw [place_goTo_of_ne s place same]
      exact refs.leaving other leaves

/-- A thread goes to a place where it calls nobody. -/
theorem Refs.goBack (refs : Refs good called s) (thread : ThreadName) {place : Place}
    (awaits : ∀ event ∈ place.awaits, good thread event) (calls : place.calls = [])
    (pushes : place.pushes = []) (waits : place.waits = true → s.exit thread = false) :
    Refs good called (s.goTo thread place) := by
  refine refs.goTo thread awaits ?_ ?_ waits
  · rw [calls]
    exact fun _ member => absurd member List.not_mem_nil
  · rw [pushes]
    exact fun _ member => absurd member List.not_mem_nil

theorem Refs.setQueue (refs : Refs good called s) (thread : ThreadName)
    {queue : BlockingQueue ThreadMessage}
    (queued : ∀ event, .AddEPollEvent event ∈ (s.setQueue thread queue).readable thread →
      good thread event) : Refs good called (s.setQueue thread queue) := by
  refine ⟨refs.awaits, refs.calls, refs.pushes, ?_, refs.armed, refs.main, refs.leaving⟩
  intro other event member
  by_cases same : other = thread
  · subst same
    exact queued event member
  · rw [readable, queues_setQueue_of_ne s queue same] at member
    exact refs.queued other event member

/-- A pop shows a thread the first message that it will read. -/
theorem Refs.popped (refs : Refs good called s) {thread : ThreadName} {message : ThreadMessage}
    {queue : BlockingQueue ThreadMessage} (reading : s.place thread = .readMessage)
    (popped : BlockingQueue.popFor (s.queues thread) = .ok (some message) queue)
    (other : message ≠ .Close) :
    message ∈ s.readable thread ∧ Refs good called (s.setQueue thread queue) := by
  have stays : s.exit thread = false := refs.reading reading rfl nofun
  have line := (BlockingQueue.popped_of_popFor popped).line
  have front : s.readable thread = message :: (s.setQueue thread queue).readable thread := by
    have same : (s.setQueue thread queue).exit thread = false := stays
    simp [readable, stays, same, line, other]
  rw [front]
  refine ⟨List.mem_cons_self, refs.setQueue thread ?_⟩
  intro event member
  exact refs.queued thread event (by rw [front]; exact List.mem_cons_of_mem _ member)

/-- A push puts a known handler into a queue, whether it returns or throws. -/
theorem Refs.pushed (refs : Refs good called s) {target : ThreadName} {message : ThreadMessage}
    {written : Bool} {queue : BlockingQueue ThreadMessage}
    (left : finalState (BlockingQueue.push written message (s.queues target)) = queue)
    (known : ∀ event, message = .AddEPollEvent event → good target event) :
    Refs good called (s.setQueue target queue) := by
  have line : queue.line = (s.queues target).line ++ [message] := by
    rw [← left, BlockingQueue.line_push]
  apply refs.setQueue target
  intro event member
  have readable_or : .AddEPollEvent event ∈ s.readable target ∨
      .AddEPollEvent event = message := by
    have same : (s.setQueue target queue).exit target = s.exit target := rfl
    rw [readable, same, queues_setQueue, line] at member
    rw [readable]
    split at member
    · cases member
    · rename_i stays
      rw [if_neg stays]
      exact mem_takeWhile_append member
  rcases readable_or with old | new
  · exact refs.queued target event old
  · exact known event new.symm

/-- Nothing but the flags of the epoll instances changes, or what no pointer depends on. -/
theorem Refs.of_armed {after : Threads} (refs : Refs good called s)
    (place : after.place = s.place) (queues : after.queues = s.queues)
    (exit : after.exit = s.exit) (main : ∀ step ∈ after.main, step ∈ s.main)
    (armed : ∀ thread event, s.WaitsAgain thread → after.watched thread event = true →
      after.armed thread event = true → good thread event) : Refs good called after := by
  have same : ∀ thread, after.readable thread = s.readable thread := by
    intro thread
    rw [readable, readable, queues, exit]
  refine ⟨?_, ?_, ?_, ?_, ?_, fun thread event member => refs.main thread event (main _ member),
    ?_⟩
  · rw [place]
    exact refs.awaits
  · rw [place]
    exact refs.calls
  · rw [place]
    exact refs.pushes
  · intro thread event member
    rw [same] at member
    exact refs.queued thread event member
  · intro thread event again
    rw [WaitsAgain, place, exit] at again
    exact armed thread event again
  · rw [place, exit]
    exact refs.leaving

/-- A thread reads `Close`, and nothing behind it. -/
theorem Refs.leave (refs : Refs good called s) {thread : ThreadName}
    (reading : s.place thread = .readMessage) (queue : BlockingQueue ThreadMessage) :
    Refs good called { (s.setQueue thread queue).goTo thread .readEPoll with
      exit := Function.update s.exit thread true } := by
  have stays : s.exit thread = false := refs.reading reading rfl nofun
  have moved : Refs good called (s.goTo thread .readEPoll) :=
    refs.goBack thread (by simp [Place.awaits]) rfl rfl fun _ => stays
  refine ⟨moved.awaits, moved.calls, moved.pushes, ?_, ?_, moved.main, ?_⟩
  · intro other event member
    by_cases same : other = thread
    · subst same
      simp [readable] at member
    · have kept : ((s.setQueue thread queue).goTo thread .readEPoll).queues other =
          s.queues other := queues_setQueue_of_ne s queue same
      apply refs.queued other event
      simpa [readable, Function.update_of_ne same, kept] using member
  · intro other event again
    apply refs.armed other event
    by_cases same : other = thread
    · subst same
      exact .inl stays
    · have place : (s.goTo thread .readEPoll).place other = s.place other :=
        place_goTo_of_ne s _ same
      rcases again with open_ | last
      · exact .inl (by simpa [Function.update_of_ne same] using open_)
      · exact .inr (place.symm.trans last)
  · intro other leaves waits
    by_cases same : other = thread
    · subst same
      exact place_goTo _ _ _
    · have place : (s.goTo thread .readEPoll).place other = s.place other :=
        place_goTo_of_ne s _ same
      refine place.trans (refs.leaving other ?_ ?_)
      · simpa [Function.update_of_ne same] using leaves
      · rw [← place]
        exact waits

theorem Refs.arm {thread : ThreadName} {event : EPollEvent} (refs : Refs good called s)
    (new : good thread event) : Refs good called (s.arm thread event) := by
  refine refs.of_armed rfl rfl rfl (fun _ member => member) ?_
  intro other handler again watched armed
  rcases Bool.or_eq_true_iff.mp armed with old | same
  · exact refs.armed other handler again watched old
  · simp only [Bool.and_eq_true, decide_eq_true_eq] at same
    rw [same.1, same.2]
    exact new

theorem Refs.ring (refs : Refs good called s) (written : Bool)
    (new : good .Server .ClientManager) : Refs good called (s.ring written) := by
  refine refs.of_armed rfl rfl rfl (fun _ member => member) ?_
  intro other handler again watched armed
  rcases Bool.or_eq_true_iff.mp armed with old | same
  · exact refs.armed other handler again watched old
  · simp only [Bool.and_eq_true, decide_eq_true_eq] at same
    rw [same.1.2, same.2]
    exact new

/-- What the manager does concerns no pointer. -/
theorem Refs.manage (refs : Refs good called s) (m : ClientManager) :
    Refs good called { s with manager := m } :=
  refs.of_armed rfl rfl rfl (fun _ member => member) refs.armed

/-- The session that `eraseClient` destroys loses flags only. -/
theorem Refs.renew (refs : Refs good called s) (created erased : Option Nat) :
    Refs good called (s.renew created erased) := by
  refine refs.of_armed rfl rfl rfl (fun _ member => member) ?_
  intro thread event again watched armed
  exact refs.armed thread event again (Bool.and_eq_true_iff.mp watched).1
    (Bool.and_eq_true_iff.mp armed).1

section Calls

variable {thread target : ThreadName} {handler : EPollEvent} {place : Place}
  {events : List EPollEvent} {queue : BlockingQueue ThreadMessage}

theorem Refs.popAddEPollEvent (refs : Refs good called s) (reading : s.place thread = .readMessage)
    (popped : BlockingQueue.popFor (s.queues thread) = .ok (some (.AddEPollEvent handler)) queue) :
    Refs good called ((s.setQueue thread queue).goTo thread (.addEPollEvent handler)) := by
  have stays : s.exit thread = false := refs.reading reading rfl nofun
  obtain ⟨present, left⟩ := refs.popped reading popped (by simp)
  refine left.goBack thread ?_ rfl rfl fun _ => stays
  intro other member
  rw [List.mem_singleton.mp member]
  exact refs.queued thread handler present

/-- Before its `epoll_wait` a thread goes where it has no handler. -/
theorem Refs.goOn (refs : Refs good called s) (there : s.place thread = place)
    (waits : place.waits = true) (other : place ≠ .readEPoll) {next : Place}
    (awaits : next.awaits = []) (calls : next.calls = []) (pushes : next.pushes = []) :
    Refs good called (s.goTo thread next) := by
  refine refs.goBack thread ?_ calls pushes fun _ => refs.reading there waits other
  rw [awaits]
  exact fun _ member => absurd member List.not_mem_nil

theorem Refs.addEPollEvent (refs : Refs good called s)
    (adding : s.place thread = .addEPollEvent handler) :
    Refs good called { s.goTo thread .readMessage with
      watched := fun other event =>
        s.watched other event || (other = thread && event = handler) } := by
  have known : good thread handler := refs.held adding handler List.mem_cons_self
  have moved : Refs good called (s.goTo thread .readMessage) :=
    refs.goOn adding rfl nofun rfl rfl rfl
  refine moved.of_armed rfl rfl rfl (fun _ member => member) ?_
  intro other event again watched armed
  rcases Bool.or_eq_true_iff.mp watched with old | same
  · exact moved.armed other event again old armed
  · simp only [Bool.and_eq_true, decide_eq_true_eq] at same
    rw [same.1, same.2]
    exact known

/-- What `epoll_wait` reports was watched and armed. -/
theorem Refs.epollWait (refs : Refs good called s) (waiting : s.place thread = .readEPoll)
    (ready : ∀ event ∈ events, s.watched thread event = true ∧ s.armed thread event = true) :
    Refs good called { s.goTo thread (.dispatch events) with
      armed := fun other event =>
        s.armed other event && !(other = thread && decide (event ∈ events)) } := by
  have moved : Refs good called (s.goTo thread (.dispatch events)) :=
    refs.goBack thread
      (fun event member => refs.armed thread event (.inr waiting) (ready event member).1
        (ready event member).2) rfl rfl nofun
  refine moved.of_armed rfl rfl rfl (fun _ member => member) ?_
  intro other event again watched armed
  exact moved.armed other event again watched (Bool.and_eq_true_iff.mp armed).1

theorem Refs.dispatch (refs : Refs good called s)
    (uses : ∀ thread handler, good thread handler → called thread handler)
    (next : s.place thread = .dispatch (handler :: events)) :
    Refs good called (s.goTo thread (.call handler events)) := by
  have held := refs.held next
  refine refs.goTo thread (fun event member => held event (List.mem_cons_of_mem _ member)) ?_
    (by simp [Place.pushes]) nofun
  intro event member
  rw [List.mem_singleton.mp member]
  exact uses thread handler (held handler List.mem_cons_self)

theorem Refs.readEPollEnds (refs : Refs good called s) :
    Refs good called (s.goTo thread (if s.exit thread then .ended else .readMessage)) := by
  split
  · exact refs.goBack thread (by simp [Place.awaits]) rfl rfl nofun
  · rename_i stays
    exact refs.goBack thread (by simp [Place.awaits]) rfl rfl
      fun _ => Bool.eq_false_of_not_eq_true stays

theorem Refs.pop (refs : Refs good called s)
    (calling : s.place thread = .call .ClientManager events) (m : ClientManager) :
    Refs good called ({ s with manager := m }.goTo thread
      (if m.msg.isSome then .switch events else .dispatch events)) := by
  have held := refs.held calling
  have called := refs.inUse calling
  split
  · exact (refs.manage m).goTo thread held called (by simp [Place.pushes]) nofun
  · exact (refs.manage m).goBack thread held rfl rfl nofun

section AddClient

variable {others : List (ThreadName × EPollEvent)}
  (pushing : s.place thread = .addClient ((target, handler) :: others) events)

include pushing

theorem Refs.push (refs : Refs good called s)
    (written : BlockingQueue.push true (.AddEPollEvent handler) (s.queues target) =
      .ok () queue) :
    Refs good called ((s.setQueue target queue).goTo thread (.addClient others events)) := by
  have held := refs.held pushing
  have called := refs.inUse pushing
  have sent := refs.sending pushing
  refine (refs.pushed (by rw [written]; rfl) ?_).goTo thread held called
    (fun push member => sent push (List.mem_cons_of_mem _ member)) nofun
  rintro event ⟨⟩
  exact sent _ List.mem_cons_self

theorem Refs.pushFails (refs : Refs good called s) {fault : Fault}
    (failed : BlockingQueue.push false (.AddEPollEvent handler) (s.queues target) =
      .error fault queue) :
    Refs good called ((s.setQueue target queue).goTo thread (.dispatch events)) := by
  have held := refs.held pushing
  have sent := refs.sending pushing
  refine (refs.pushed (by rw [failed]; rfl) ?_).goBack thread held rfl rfl nofun
  rintro event ⟨⟩
  exact sent _ List.mem_cons_self

end AddClient

theorem Refs.mainPush (refs : Refs good called s) {message : ThreadMessage} {rest : List MainStep}
    (next : s.main = .push target message :: rest)
    (written : BlockingQueue.push true message (s.queues target) = .ok () queue) :
    Refs good called { s.setQueue target queue with main := rest } := by
  have pushed : Refs good called (s.setQueue target queue) := by
    apply refs.pushed (by rw [written]; rfl)
    rintro event rfl
    exact refs.main target event (by rw [next]; exact List.mem_cons_self)
  refine pushed.of_armed rfl rfl rfl ?_ refs.armed
  intro step member
  change step ∈ s.main
  rw [next]
  exact List.mem_cons_of_mem _ member

theorem Refs.mainGoesOn (refs : Refs good called s) {step : MainStep} {rest : List MainStep}
    (next : s.main = step :: rest) : Refs good called { s with main := rest } := by
  refine refs.of_armed rfl rfl rfl ?_ refs.armed
  intro step member
  rw [next]
  exact List.mem_cons_of_mem _ member

end Calls

/-- The pointers after a step are those before and those that it makes. -/
theorem refs_step {after : Threads} {event : Event} (refs : Refs good called s)
    (step : Step s event after)
    (uses : ∀ thread handler, good thread handler → called thread handler)
    (news : ∀ thread handler, Brings s event thread handler → good thread handler) :
    Refs good called after := by
  cases step with
  | popAddEPollEvent reading popped => exact refs.popAddEPollEvent reading popped
  | popClose reading => exact refs.leave reading _
  | popNothing reading => exact refs.goOn reading rfl nofun rfl rfl rfl
  | addEPollEvent adding => exact refs.addEPollEvent adding
  | epollWait waiting _ _ ready => exact refs.epollWait waiting ready
  | dispatch next => exact refs.dispatch uses next
  | @skip thread handler events next =>
      have held := refs.held next
      exact refs.goBack thread (fun event member => held event (List.mem_cons_of_mem _ member))
        rfl rfl nofun
  | readEPollEnds => exact refs.readEPollEnds
  | returns calling =>
      have held := refs.held calling
      exact refs.goBack _ held rfl rfl nofun
  | post | connect | ready => exact refs.arm (news _ _ ⟨rfl, rfl⟩)
  | closeConnection | close => exact (refs.ring _ (news _ _ ⟨rfl, rfl⟩)).manage _
  | pop calling => exact refs.pop calling _
  | @switch thread events msg made m switching found managed =>
      have held := refs.held switching
      have called := refs.inUse switching
      exact ((refs.renew _ _).manage m).goTo thread held called
        (fun push member => news _ _ ⟨msg, found, member⟩) nofun
  | push pushing _ written => exact refs.push pushing written
  | pushFails pushing _ failed => exact refs.pushFails pushing failed
  | switched done =>
      have held := refs.held done
      exact refs.goBack _ held rfl rfl nofun
  | accept calling =>
      have held := refs.held calling
      have called := refs.inUse calling
      exact (refs.manage _).goTo _ held called (by simp [Place.pushes]) nofun
  | refuse accepted =>
      have held := refs.held accepted
      exact (refs.manage _).goBack _ held rfl rfl nofun
  | setNonBlock accepted =>
      have held := refs.held accepted
      have called := refs.inUse accepted
      exact refs.goTo _ held called (by simp [Place.pushes]) nofun
  | announce announcing =>
      have held := refs.held announcing
      exact ((refs.ring _ (news _ _ ⟨rfl, rfl⟩)).manage _).goBack _ held rfl rfl nofun
  | openOther | closeOther => exact refs.manage _
  | mainPush next _ written => exact refs.mainPush next written
  | mainCommands next | mainJoin next => exact refs.mainGoesOn next

end Refs

/-- The thread that a handler is sent to. -/
def Suits : ThreadName → EPollEvent → Prop
  | .Server, .ClientManager | .Server, .ProtocolClient _ => True
  | .Receiver, .Acceptor | .Receiver, .ClientBuffer _ => True
  | .Sender, .ClientBuffer _ => True
  | _, _ => False

/-- Every thread has the handlers that are meant for it. -/
abbrev Suited (s : Threads) : Prop := Refs Suits Suits s

theorem pushes_suits {msg : Message} {made : Bool} {m : ClientManager}
    {push : ThreadName × EPollEvent} (member : push ∈ pushes msg made m) :
    Suits push.1 push.2 := by
  unfold pushes at member
  split at member
  · split at member
    · simp only [List.mem_cons, List.not_mem_nil, or_false] at member
      rcases member with rfl | rfl | rfl <;> exact trivial
    · cases member
  · cases member

theorem suited_step {s after : Threads} {event : Event} (suited : Suited s)
    (step : Step s event after) : Suited after := by
  apply refs_step suited step (fun _ _ suits => suits)
  intro thread handler brings
  cases step with
  | switch =>
      obtain ⟨msg, _, member⟩ := brings
      exact pushes_suits member
  | post | closeConnection | announce | connect | close =>
      obtain ⟨rfl, rfl⟩ := brings
      exact trivial
  | @ready target session socket =>
      obtain ⟨rfl, rfl⟩ := brings
      cases thread with
      | Server => exact absurd rfl socket
      | Receiver | Sender => exact trivial
  | _ => cases brings

theorem suited_start : Suited {} := by
  refine ⟨?_, ?_, ?_, ?_, ?_, ?_, ?_⟩
  · intro thread event member
    cases member
  · intro thread event member
    cases member
  · intro thread push member
    cases member
  · intro thread event member
    cases member
  · intro thread event again watched armed
    cases armed
  · intro thread event member
    simp only [List.mem_cons, MainStep.push.injEq, ThreadMessage.AddEPollEvent.injEq,
      reduceCtorEq, and_false, List.not_mem_nil, or_self, or_false] at member
    rcases member with ⟨rfl, rfl⟩ | ⟨rfl, rfl⟩ <;> exact trivial
  · intro thread leaves
    cases leaves

/-- Only the Server is in a call of the manager, and only the Receiver in one of the Acceptor. -/
theorem Suited.manager_server {s : Threads} (suited : Suited s) {thread : ThreadName}
    (called : .ClientManager ∈ (s.place thread).calls) : thread = .Server := by
  have suits := suited.calls thread _ called
  cases thread with
  | Server => rfl
  | Receiver | Sender => cases suits

theorem Suited.acceptor_receiver {s : Threads} (suited : Suited s) {thread : ThreadName}
    (called : .Acceptor ∈ (s.place thread).calls) : thread = .Receiver := by
  have suits := suited.calls thread _ called
  cases thread with
  | Receiver => rfl
  | Server | Sender => cases suits

/-- A connection is accepted, and the Server pops its message. -/
def firstConnection : { s : Threads // Run Step {} [
      .main (.push .Server (.AddEPollEvent .ClientManager)),
      .main (.push .Receiver (.AddEPollEvent .Acceptor)),
      .readMessage .Receiver, .addEPollEvent .Receiver, .readMessage .Receiver,
      .readMessage .Server, .addEPollEvent .Server, .readMessage .Server,
      .connect, .epollWait .Receiver [.Acceptor], .dispatch .Receiver, .accept .Receiver 5,
      .setNonBlock .Receiver, .announce .Receiver true, .epollWait .Server [.ClientManager],
      .dispatch .Server, .pop .Server] s } :=
  ⟨_, .cons (.mainPush rfl (by decide) rfl) <| .cons (.mainPush rfl (by decide) rfl) <|
    .cons (.popAddEPollEvent rfl rfl) <| .cons (.addEPollEvent rfl) <|
    .cons (.popNothing rfl rfl) <| .cons (.popAddEPollEvent rfl rfl) <|
    .cons (.addEPollEvent rfl) <| .cons (.popNothing rfl rfl) <| .cons .connect <|
    .cons (.epollWait rfl (by decide) (by decide) (by decide)) <| .cons (.dispatch rfl) <|
    .cons (.accept rfl (.accept rfl rfl)) <| .cons (.setNonBlock rfl) <|
    .cons (.announce rfl (.announce rfl (by decide))) <|
    .cons (.epollWait rfl (by decide) (by decide) (by decide)) <| .cons (.dispatch rfl) <|
    .cons (.pop rfl (.pop rfl rfl)) .nil⟩

end Threads

end Locus
