import Locus.BlockingQueue
import Locus.Transition

set_option autoImplicit false

/- Any number of threads in the calls of one BlockingQueue. A wait on a condition variable
holds no lock and changes nothing, so a step is a critical section. -/
namespace Locus.BlockingQueue

open Program Transition

variable {T : Type}

inductive Call (T : Type) where
  | push (elem : T)
  | priorityPush (elem : T)
  | pop
  | popFor

inductive Origin where
  | queue
  | priority
  deriving DecidableEq

/-- Where `popWithoutBlocking` takes its element. -/
def origin (q : BlockingQueue T) : Origin := if q.priority.isEmpty then .queue else .priority

/-- A queue and what each thread does with it. -/
structure Traffic (T : Type) where
  queue : BlockingQueue T
  calls : Nat → Option (Call T) := fun _ => none

inductive Event (T : Type) where
  | calls (thread : Nat) (call : Call T)
  | pushed (thread : Nat) (elem : T)
  | priorityPushed (thread : Nat) (elem : T)
  | popped (thread : Nat) (source : Origin) (elem : T)
  | timedOut (thread : Nat)
  | failed (thread : Nat) (fault : Fault)

def Event.fault : Event T → Option Fault
  | .failed _ fault => some fault
  | _ => none

/-- The elements of `push`, in the order of its critical sections. -/
def pushedIn (history : List (Event T)) : List T :=
  history.filterMap fun
    | .pushed _ elem => some elem
    | _ => none

def priorityPushedIn (history : List (Event T)) : List T :=
  history.filterMap fun
    | .priorityPushed _ elem => some elem
    | _ => none

def poppedFrom (source : Origin) (history : List (Event T)) : List T :=
  history.filterMap fun
    | .popped _ origin elem => if origin = source then some elem else none
    | _ => none

namespace Traffic

/-- The call of a thread has left its critical section. -/
def leaves (t : Traffic T) (thread : Nat) (queue : BlockingQueue T) : Traffic T :=
  { queue, calls := fun other => if other = thread then none else t.calls other }

/-- The pipe writes succeed. The reads may fail. -/
inductive Step (t : Traffic T) : Event T → Traffic T → Prop
  | calls {thread : Nat} {call : Call T} (idle : t.calls thread = none) :
      Step t (.calls thread call)
        { t with calls := fun other => if other = thread then some call else t.calls other }
  | push {thread : Nat} {elem : T} {queue : BlockingQueue T}
      (calling : t.calls thread = some (.push elem)) (room : t.queue.HasRoom)
      (written : BlockingQueue.push true elem t.queue = .ok () queue) :
      Step t (.pushed thread elem) (t.leaves thread queue)
  | priorityPush {thread address : Nat} {elem : T} {queue : BlockingQueue T}
      (calling : t.calls thread = some (.priorityPush elem))
      (fresh : ∀ node ∈ t.queue.priority, node.1 ≠ address)
      (written : BlockingQueue.priorityPush true address elem t.queue = .ok true queue) :
      Step t (.priorityPushed thread elem) (t.leaves thread queue)
  | pop {thread : Nat} {elem : T} {queue : BlockingQueue T}
      (calling : t.calls thread = some .pop) (some : t.queue.empty = false)
      (popped : popWithoutBlocking t.queue = .ok elem queue) :
      Step t (.popped thread t.queue.origin elem) (t.leaves thread queue)
  | popFails {thread : Nat} {fault : Fault} {queue : BlockingQueue T}
      (calling : t.calls thread = some .pop) (some : t.queue.empty = false)
      (failed : popWithoutBlocking t.queue = .error fault queue) :
      Step t (.failed thread fault) (t.leaves thread queue)
  | popFor {thread : Nat} {elem : T} {queue : BlockingQueue T}
      (calling : t.calls thread = some .popFor)
      (popped : BlockingQueue.popFor t.queue = .ok (.some elem) queue) :
      Step t (.popped thread t.queue.origin elem) (t.leaves thread queue)
  | timeOut {thread : Nat} {queue : BlockingQueue T}
      (calling : t.calls thread = some .popFor)
      (nothing : BlockingQueue.popFor t.queue = .ok none queue) :
      Step t (.timedOut thread) (t.leaves thread queue)
  | popForFails {thread : Nat} {fault : Fault} {queue : BlockingQueue T}
      (calling : t.calls thread = some .popFor)
      (failed : BlockingQueue.popFor t.queue = .error fault queue) :
      Step t (.failed thread fault) (t.leaves thread queue)

end Traffic

/-- A pop from a queue with an element is a pop that does not wait. -/
theorem popFor_of_some {q : BlockingQueue T} (some_left : q.empty = false) :
    popFor q = (some <$> popWithoutBlocking : QueueM T (Option T)) q := by
  simp only [popFor, bind_run, get_run, some_left, Bool.false_eq_true, if_false]
  rfl

theorem popFor_of_popped {q after : BlockingQueue T} {elem : T} (some_left : q.empty = false)
    (popped : popWithoutBlocking q = .ok elem after) : popFor q = .ok (some elem) after := by
  rw [popFor_of_some some_left]
  simp only [Functor.map, EStateM.map, popped]

theorem popFor_of_failed {q after : BlockingQueue T} {fault : Fault}
    (some_left : q.empty = false) (failed : popWithoutBlocking q = .error fault after) :
    popFor q = .error fault after := by
  rw [popFor_of_some some_left]
  simp only [Functor.map, EStateM.map, failed]

/-- Outside the critical sections the pipe has a byte for each element. -/
def Piped (q : BlockingQueue T) : Prop := q.pipe = q.queue.length + q.priority.length

theorem Piped.popFor_ok {q after : BlockingQueue T} {fault : Fault} (piped : q.Piped) :
    popFor q ≠ .error fault after := by
  intro failed
  cases taken : q.next with
  | none =>
      rw [popFor_none taken] at failed
      cases failed
  | some pair =>
      have counted := (next_size taken).1
      have byte : 0 < q.pipe := by
        have whole : q.pipe = q.size := piped
        omega
      rw [popFor_some taken, if_pos byte] at failed
      cases failed

/-- What a pop that returns has done to the queue. -/
structure Takes (q : BlockingQueue T) (source : Origin) (elem : T) (after : BlockingQueue T) :
    Prop where
  origin : source = q.origin
  popped : q.Popped elem after
  pipe : q.pipe = after.pipe + 1
  limit : after.maxQueueSize = q.maxQueueSize

theorem next_maxQueueSize {q left : BlockingQueue T} {elem : T}
    (taken : q.next = some (elem, left)) : left.maxQueueSize = q.maxQueueSize := by
  unfold next at taken
  split at taken
  · cases taken
    rfl
  · cases taken
    rfl
  · cases taken

theorem takes_of_popFor {q after : BlockingQueue T} {elem : T}
    (popped : popFor q = .ok (some elem) after) : q.Takes q.origin elem after := by
  cases taken : q.next with
  | none =>
      rw [popFor_none taken] at popped
      cases popped
  | some pair =>
      have gone : q.Popped pair.1 pair.2 := next_popped taken
      have limit : pair.2.maxQueueSize = q.maxQueueSize := next_maxQueueSize taken
      rw [popFor_some taken] at popped
      split at popped
      · rename_i byte
        cases popped
        exact ⟨rfl, gone, by change q.pipe = q.pipe - 1 + 1; omega, limit⟩
      · cases popped

/-- The element comes from the queue only when no priority element is there. -/
theorem Takes.cases {q after : BlockingQueue T} {source : Origin} {elem : T}
    (takes : q.Takes source elem after) :
    (source = .priority ∧ after.queue = q.queue ∧
      ∃ address, q.priority = (address, elem) :: after.priority) ∨
    (source = .queue ∧ q.priority = [] ∧ after.priority = [] ∧
      q.queue = elem :: after.queue) := by
  have origin_eq : source = q.origin := takes.origin
  rcases takes.popped with ⟨address, first, same⟩ | ⟨drained, still, front⟩
  · have priority : q.origin = .priority := by
      simp only [BlockingQueue.origin, first]
      rfl
    exact .inl ⟨origin_eq.trans priority, same, address, first⟩
  · have queue : q.origin = .queue := by
      simp only [BlockingQueue.origin, drained]
      rfl
    exact .inr ⟨origin_eq.trans queue, drained, still, front⟩

@[simp] theorem pushedIn_append (history more : List (Event T)) :
    pushedIn (history ++ more) = pushedIn history ++ pushedIn more :=
  List.filterMap_append

@[simp] theorem priorityPushedIn_append (history more : List (Event T)) :
    priorityPushedIn (history ++ more) = priorityPushedIn history ++ priorityPushedIn more :=
  List.filterMap_append

@[simp] theorem poppedFrom_append (source : Origin) (history more : List (Event T)) :
    poppedFrom source (history ++ more) = poppedFrom source history ++ poppedFrom source more :=
  List.filterMap_append

theorem perm_insertNode (address : Nat) (elem : T) (nodes : List (Nat × T)) :
    (insertNode address elem nodes).Perm ((address, elem) :: nodes) := by
  induction nodes with
  | nil => exact .refl _
  | cons node rest ih =>
      unfold insertNode
      split
      · exact .refl _
      · exact (ih.cons node).trans (.swap _ _ _)

namespace Traffic

variable {t after : Traffic T} {history : List (Event T)} {event : Event T} {limit : Nat}

/-- What the threads have put into the queue, against what they have got out of it. -/
structure Accounts (limit : Nat) (history : List (Event T)) (t : Traffic T) : Prop where
  piped : t.queue.Piped
  inOrder : pushedIn history = poppedFrom .queue history ++ t.queue.queue
  kept : (priorityPushedIn history).Perm
    (poppedFrom .priority history ++ t.queue.priority.map Prod.snd)
  size : t.queue.maxQueueSize = limit
  fits : t.queue.queue.length ≤ limit

/-- A step that is no push and no pop counts for nothing. -/
theorem Accounts.quiet (accounts : Accounts limit history t) (pushed : pushedIn [event] = [])
    (hurried : priorityPushedIn [event] = [])
    (popped : ∀ source, poppedFrom source [event] = []) (same : after.queue = t.queue) :
    Accounts limit (history ++ [event]) after := by
  refine ⟨?_, ?_, ?_, ?_, ?_⟩
  · rw [same]
    exact accounts.piped
  · rw [pushedIn_append, poppedFrom_append, pushed, popped, List.append_nil, List.append_nil,
      same, accounts.inOrder]
  · rw [priorityPushedIn_append, poppedFrom_append, hurried, popped, List.append_nil,
      List.append_nil, same]
    exact accounts.kept
  · rw [same]
    exact accounts.size
  · rw [same]
    exact accounts.fits

theorem Accounts.push {thread : Nat} {elem : T} {queue : BlockingQueue T}
    (accounts : Accounts limit history t) (room : t.queue.HasRoom)
    (written : BlockingQueue.push true elem t.queue = .ok () queue) :
    Accounts limit (history ++ [.pushed thread elem]) (t.leaves thread queue) := by
  have piped : t.queue.pipe = t.queue.queue.length + t.queue.priority.length := accounts.piped
  have size := accounts.size
  have below : t.queue.queue.length < t.queue.maxQueueSize := room
  rw [push_run] at written
  split at written
  · cases written
    refine ⟨?_, ?_, ?_, size, ?_⟩
    · simp only [leaves, Piped, List.length_append, List.length_singleton]
      omega
    · simp only [leaves, pushedIn_append, poppedFrom_append, accounts.inOrder, List.append_assoc]
      rfl
    · simp only [leaves, priorityPushedIn_append, poppedFrom_append]
      simpa [priorityPushedIn, poppedFrom] using accounts.kept
    · simp only [leaves, List.length_append, List.length_singleton]
      omega
  · cases written

theorem Accounts.priorityPush {thread address : Nat} {elem : T} {queue : BlockingQueue T}
    (accounts : Accounts limit history t)
    (written : BlockingQueue.priorityPush true address elem t.queue = .ok true queue) :
    Accounts limit (history ++ [.priorityPushed thread elem]) (t.leaves thread queue) := by
  have piped : t.queue.pipe = t.queue.queue.length + t.queue.priority.length := accounts.piped
  rw [priorityPush_run] at written
  split at written
  · cases written
    refine ⟨?_, ?_, ?_, accounts.size, accounts.fits⟩
    · simp only [leaves, Piped, length_insertNode]
      omega
    · have inOrder := accounts.inOrder
      simpa [leaves, pushedIn, poppedFrom] using inOrder
    · have one_more : (priorityPushedIn history ++ [elem]).Perm
          (poppedFrom .priority history ++ (t.queue.priority.map Prod.snd ++ [elem])) := by
        rw [← List.append_assoc]
        exact accounts.kept.append_right [elem]
      have inserted : (t.queue.priority.map Prod.snd ++ [elem]).Perm
          ((insertNode address elem t.queue.priority).map Prod.snd) :=
        (List.perm_append_singleton _ _).trans
          ((perm_insertNode address elem t.queue.priority).map Prod.snd).symm
      have kept := one_more.trans (inserted.append_left (poppedFrom .priority history))
      simpa [leaves, priorityPushedIn, poppedFrom] using kept
  · cases written

theorem Accounts.takes {thread : Nat} {elem : T} {queue : BlockingQueue T}
    (accounts : Accounts limit history t) (takes : t.queue.Takes t.queue.origin elem queue) :
    Accounts limit (history ++ [.popped thread t.queue.origin elem]) (t.leaves thread queue) := by
  have piped : t.queue.pipe = t.queue.queue.length + t.queue.priority.length := accounts.piped
  have fits := accounts.fits
  have one_byte := takes.pipe
  have size := takes.limit.trans accounts.size
  have no_push : pushedIn [Event.popped thread t.queue.origin elem] = [] := rfl
  have no_hurry : priorityPushedIn [Event.popped thread t.queue.origin elem] = [] := rfl
  rcases takes.cases with ⟨source, same, address, first⟩ | ⟨source, drained, still, front⟩
  · have pops : poppedFrom .priority [Event.popped thread t.queue.origin elem] = [elem] := by
      simp [poppedFrom, source]
    have serves : poppedFrom .queue [Event.popped thread t.queue.origin elem] = [] := by
      simp [poppedFrom, source]
    refine ⟨?_, ?_, ?_, size, ?_⟩
    · simp only [leaves, Piped]
      rw [first, List.length_cons] at piped
      rw [same]
      omega
    · simp only [leaves, pushedIn_append, poppedFrom_append, no_push, serves, List.append_nil]
      rw [same]
      exact accounts.inOrder
    · have kept := accounts.kept
      rw [first, List.map_cons] at kept
      simpa only [leaves, priorityPushedIn_append, poppedFrom_append, no_hurry, pops,
        List.append_nil, List.append_assoc, List.singleton_append] using kept
    · simp only [leaves]
      rw [same]
      omega
  · have pops : poppedFrom .priority [Event.popped thread t.queue.origin elem] = [] := by
      simp [poppedFrom, source]
    have serves : poppedFrom .queue [Event.popped thread t.queue.origin elem] = [elem] := by
      simp [poppedFrom, source]
    rw [drained, front, List.length_cons, List.length_nil] at piped
    rw [front, List.length_cons] at fits
    refine ⟨?_, ?_, ?_, size, ?_⟩
    · simp only [leaves, Piped, still, List.length_nil]
      omega
    · have inOrder := accounts.inOrder
      rw [front] at inOrder
      simpa only [leaves, pushedIn_append, poppedFrom_append, no_push, serves, List.append_nil,
        List.append_assoc, List.singleton_append] using inOrder
    · have kept := accounts.kept
      rw [drained] at kept
      simpa only [leaves, priorityPushedIn_append, poppedFrom_append, no_hurry, pops, still,
        List.append_nil] using kept
    · simp only [leaves]
      omega

theorem Accounts.step (accounts : Accounts limit history t) (step : Step t event after) :
    Accounts limit (history ++ [event]) after := by
  cases step with
  | calls => exact accounts.quiet rfl rfl (fun _ => rfl) rfl
  | push _ room written => exact accounts.push room written
  | priorityPush _ _ written => exact accounts.priorityPush written
  | pop _ some_left popped =>
      exact accounts.takes (takes_of_popFor (popFor_of_popped some_left popped))
  | popFails _ some_left failed =>
      exact absurd (popFor_of_failed some_left failed) accounts.piped.popFor_ok
  | popFor _ popped => exact accounts.takes (takes_of_popFor popped)
  | timeOut _ nothing =>
      exact accounts.quiet rfl rfl (fun _ => rfl) (eq_of_popFor nothing)
  | popForFails _ failed => exact absurd failed accounts.piped.popFor_ok

/-- What the calls get out of the queue as it stands. -/
structure Serves (t : Traffic T) : Prop where
  /-- `popByteFromPipe` finds its byte. -/
  noFault : ∀ event after, Step t event after → event.fault = none
  takes : ∀ thread source elem after, Step t (.popped thread source elem) after →
    t.queue.Takes source elem after.queue
  /-- An element of `push` waits for those of `priorityPush`. -/
  priorityFirst : ∀ thread elem after, Step t (.popped thread .queue elem) after →
    t.queue.priority = []

theorem Accounts.serves (accounts : Accounts limit history t) : Serves t := by
  have takes : ∀ thread source elem after, Step t (.popped thread source elem) after →
      t.queue.Takes source elem after.queue := by
    intro thread source elem after step
    cases step with
    | pop _ some_left popped => exact takes_of_popFor (popFor_of_popped some_left popped)
    | popFor _ popped => exact takes_of_popFor popped
  refine ⟨?_, takes, ?_⟩
  · intro event after step
    cases step with
    | popFails _ some_left failed =>
        exact absurd (popFor_of_failed some_left failed) accounts.piped.popFor_ok
    | popForFails _ failed => exact absurd failed accounts.piped.popFor_ok
    | calls | push | priorityPush | pop | popFor | timeOut => rfl
  · intro thread elem after step
    rcases (takes _ _ _ _ step).cases with ⟨wrong, _⟩ | ⟨_, drained, _⟩
    · cases wrong
    · exact drained

theorem accounts_of_run {maxQueueSize : Nat}
    (run : Run Step { queue := { maxQueueSize } } history t) :
    Accounts maxQueueSize history t :=
  Run.history_invariant (Accounts maxQueueSize)
    ⟨by rfl, rfl, .refl _, rfl, Nat.zero_le _⟩
    (fun _ _ _ _ _ accounts step => accounts.step step) run

/-- Whatever the threads do, each element that went in is held or came out once, in its
order, and no pop misses its byte. -/
theorem traffic_accounts {maxQueueSize : Nat}
    (run : Run Step { queue := { maxQueueSize } } history t) :
    Accounts maxQueueSize history t ∧ Serves t :=
  ⟨accounts_of_run run, (accounts_of_run run).serves⟩

/-- A producer, and a consumer that came first. -/
def handover : List (Event Nat) :=
  [.calls 1 .pop, .calls 0 (.push 7), .pushed 0 7, .calls 0 (.priorityPush 8),
    .priorityPushed 0 8, .popped 1 .priority 8, .calls 1 .popFor, .popped 1 .queue 7]

theorem handover_run : ∃ t : Traffic Nat,
    Run Step { queue := { maxQueueSize := 1 } } handover t ∧
      t.queue.queue = [] :=
  ⟨_, .cons (.calls rfl) (.cons (.calls rfl) (.cons (.push rfl (by decide) rfl)
    (.cons (.calls rfl)
    (.cons (@Step.priorityPush _ _ _ 0 _ _ rfl (fun _ none => nomatch none) rfl)
    (.cons (.pop rfl rfl rfl) (.cons (.calls rfl) (.cons (.popFor rfl rfl) .nil))))))), rfl⟩

theorem traffic_accounts_handover :
    ∃ t : Traffic Nat, Accounts 1 handover t ∧ Serves t ∧ t.queue.queue = [] := by
  obtain ⟨t, run, drained⟩ := handover_run
  obtain ⟨accounts, serves⟩ := traffic_accounts run
  exact ⟨t, accounts, serves, drained⟩

end Traffic

end Locus.BlockingQueue
