import Mathlib.Data.List.Nodup
import Mathlib.Logic.Equiv.Basic
import Locus.BlockingQueueTraffic
import Locus.ClientBuffer

set_option autoImplicit false

/- The order in which a BlockingQueue serves its priority elements, against the addresses of their
nodes. -/
namespace Locus.BlockingQueue

open Program

variable {T : Type}

inductive Request (T : Type) where
  | priorityPush (written : Bool) (elem : T)
  | pop
  deriving DecidableEq, Repr

/-- What a caller sees of a call: the element that was taken, also where it is lost, and what the
call returned. -/
inductive Served (T : Type) where
  | pushed (result : Except Fault Bool)
  | popped (taken : Option T) (result : Except Fault (Option T))

/-- A sequence of calls, with the address of the node that each `priorityPush` allocates. -/
def serve (address : Nat → Nat) : (allocated : Nat) → List (Request T) → BlockingQueue T →
    List (Served T)
  | _, [], _ => []
  | allocated, .priorityPush written elem :: rest, q =>
      let result := priorityPush written (address allocated) elem q
      .pushed (outcome result) :: serve address (allocated + 1) rest (finalState result)
  | allocated, .pop :: rest, q =>
      .popped (q.next.map Prod.fst) (outcome (popFor q)) ::
        serve address allocated rest (finalState (popFor q))

/-- The same calls are served in the same way wherever the nodes are. -/
def AddressFree (q : BlockingQueue T) (requests : List (Request T)) : Prop :=
  ∀ first second : Nat → Nat, first.Injective → second.Injective →
    serve first 0 requests q = serve second 0 requests q

/-- The elements that wait after some calls, with the number of each, first come first served. -/
def waiting : (allocated : Nat) → List (Nat × T) → List (Request T) → List (Nat × T)
  | _, nodes, [] => nodes
  | allocated, nodes, .priorityPush _ elem :: rest =>
      waiting (allocated + 1) (nodes ++ [(allocated, elem)]) rest
  | allocated, nodes, .pop :: rest => waiting allocated nodes.tail rest

/-- At every pop the elements that wait are all the same. -/
def Uniform (allocated : Nat) (nodes : List (Nat × T)) (requests : List (Request T)) : Prop :=
  ∀ earlier later, requests = earlier ++ .pop :: later →
    ∀ one ∈ waiting allocated nodes earlier, ∀ other ∈ waiting allocated nodes earlier,
      one.2 = other.2

/-- The queue after some calls, and the number of nodes that have been allocated. -/
def afterAll (address : Nat → Nat) : (allocated : Nat) → List (Request T) → BlockingQueue T →
    Nat × BlockingQueue T
  | allocated, [], q => (allocated, q)
  | allocated, .priorityPush written elem :: rest, q =>
      afterAll address (allocated + 1) rest
        (finalState (priorityPush written (address allocated) elem q))
  | allocated, .pop :: rest, q => afterAll address allocated rest (finalState (popFor q))

theorem serve_append (address : Nat → Nat) (earlier later : List (Request T)) (allocated : Nat)
    (q : BlockingQueue T) :
    serve address allocated (earlier ++ later) q =
      serve address allocated earlier q ++
        serve address (afterAll address allocated earlier q).1 later
          (afterAll address allocated earlier q).2 := by
  induction earlier generalizing allocated q with
  | nil => rfl
  | cons request rest ih =>
      cases request with
      | priorityPush written elem => simp only [List.cons_append, serve, afterAll, ih]
      | pop => simp only [List.cons_append, serve, afterAll, ih]

theorem length_serve (address : Nat → Nat) (requests : List (Request T)) (allocated : Nat)
    (q : BlockingQueue T) : (serve address allocated requests q).length = requests.length := by
  induction requests generalizing allocated q with
  | nil => rfl
  | cons request rest ih =>
      cases request with
      | priorityPush written elem => simp only [serve, List.length_cons, ih]
      | pop => simp only [serve, List.length_cons, ih]

section Alike

/-- Two queues that hold the same elements, but for the order of those with priority. -/
structure Alike (nodes : List (Nat × T)) (q r : BlockingQueue T) : Prop where
  left : (q.priority.map Prod.snd).Perm (nodes.map Prod.snd)
  right : (r.priority.map Prod.snd).Perm (nodes.map Prod.snd)
  queue : q.queue = r.queue
  pipe : q.pipe = r.pipe

variable {nodes : List (Nat × T)} {q r : BlockingQueue T}

theorem perm_insert_value {values : List T} (address : Nat) (elem : T) {priority : List (Nat × T)}
    (same : (priority.map Prod.snd).Perm values) :
    ((insertNode address elem priority).map Prod.snd).Perm (values ++ [elem]) :=
  ((perm_insertNode address elem priority).map Prod.snd).trans
    ((same.cons elem).trans (List.perm_append_singleton elem values).symm)

theorem Alike.priorityPush (alike : Alike nodes q r) (written : Bool) (number here there : Nat)
    (elem : T) :
    outcome (BlockingQueue.priorityPush written here elem q) =
        outcome (BlockingQueue.priorityPush written there elem r) ∧
      Alike (nodes ++ [(number, elem)])
        (finalState (BlockingQueue.priorityPush written here elem q))
        (finalState (BlockingQueue.priorityPush written there elem r)) := by
  have left := perm_insert_value here elem alike.left
  have right := perm_insert_value there elem alike.right
  have values : (nodes ++ [(number, elem)]).map Prod.snd = nodes.map Prod.snd ++ [elem] := by
    rw [List.map_append, List.map_singleton]
  rw [← values] at left right
  rw [priorityPush_run, priorityPush_run, ← alike.pipe]
  cases written with
  | true => exact ⟨rfl, left, right, alike.queue, rfl⟩
  | false => exact ⟨rfl, left, right, alike.queue, rfl⟩

/-- The first of some values that are all the same, and the others. -/
theorem uniform_first {first : Nat × T} {rest : List (Nat × T)}
    (uniform : ∀ one ∈ nodes, ∀ other ∈ nodes, one.2 = other.2)
    (same : ((first :: rest).map Prod.snd).Perm (nodes.map Prod.snd)) :
    ∃ head tail, nodes = head :: tail ∧ first.2 = head.2 ∧
      (rest.map Prod.snd).Perm (tail.map Prod.snd) := by
  have member : first.2 ∈ nodes.map Prod.snd := by
    apply same.mem_iff.mp
    rw [List.map_cons]
    exact List.mem_cons_self
  obtain ⟨node, there, value⟩ := List.mem_map.mp member
  cases nodes with
  | nil => cases there
  | cons head tail =>
      have equal : first.2 = head.2 := by
        rw [← value]
        exact uniform node there head List.mem_cons_self
      rw [List.map_cons, List.map_cons, equal] at same
      exact ⟨head, tail, rfl, equal, same.cons_inv⟩

/-- Where the elements that wait are all the same, two pops take the same one. -/
theorem Alike.next (alike : Alike nodes q r)
    (uniform : ∀ one ∈ nodes, ∀ other ∈ nodes, one.2 = other.2) :
    (q.next = none ∧ r.next = none ∧ Alike nodes.tail q r) ∨
      ∃ elem here there, q.next = some (elem, here) ∧ r.next = some (elem, there) ∧
        Alike nodes.tail here there := by
  cases left : q.priority with
  | nil =>
      have empty : nodes = [] := by
        have same := alike.left
        rw [left, List.map_nil] at same
        exact List.map_eq_nil_iff.mp same.nil_eq.symm
      have right : r.priority = [] := by
        have same := alike.right
        rw [empty, List.map_nil] at same
        exact List.map_eq_nil_iff.mp same.eq_nil
      subst empty
      cases queue : q.queue with
      | nil =>
          refine .inl ⟨?_, ?_, alike⟩
          · simp only [BlockingQueue.next, left, queue]
          · simp only [BlockingQueue.next, right, ← alike.queue, queue]
      | cons elem rest =>
          refine .inr ⟨elem, { q with queue := rest }, { r with queue := rest }, ?_, ?_, ?_⟩
          · simp only [BlockingQueue.next, left, queue]
          · simp only [BlockingQueue.next, right, ← alike.queue, queue]
          · exact ⟨alike.left, alike.right, rfl, alike.pipe⟩
  | cons first rest =>
      have same := alike.left
      rw [left] at same
      obtain ⟨head, tail, rfl, value, others⟩ := uniform_first uniform same
      cases right : r.priority with
      | nil =>
          have impossible := alike.right.length_eq
          rw [right, List.map_nil, List.map_cons, List.length_nil, List.length_cons] at impossible
          omega
      | cons first' rest' =>
          have same' := alike.right
          rw [right] at same'
          obtain ⟨head', tail', whole, value', others'⟩ := uniform_first uniform same'
          cases whole
          refine .inr ⟨first.2, { q with priority := rest }, { r with priority := rest' },
            ?_, ?_, ?_⟩
          · simp only [BlockingQueue.next, left]
          · simp only [BlockingQueue.next, right, value, value']
          · exact ⟨others, others', alike.queue, alike.pipe⟩

theorem Alike.popFor (alike : Alike nodes q r)
    (uniform : ∀ one ∈ nodes, ∀ other ∈ nodes, one.2 = other.2) :
    q.next.map Prod.fst = r.next.map Prod.fst ∧
      outcome (BlockingQueue.popFor q) = outcome (BlockingQueue.popFor r) ∧
      Alike nodes.tail (finalState (BlockingQueue.popFor q))
        (finalState (BlockingQueue.popFor r)) := by
  rcases alike.next uniform with ⟨left, right, rest⟩ | ⟨elem, here, there, left, right, rest⟩
  · rw [left, right, popFor_none left, popFor_none right]
    exact ⟨rfl, rfl, rest⟩
  · rw [left, right, popFor_some left, popFor_some right, ← alike.pipe]
    by_cases byte : 0 < q.pipe
    · rw [if_pos byte, if_pos byte]
      exact ⟨rfl, rfl, rest.left, rest.right, rest.queue, rfl⟩
    · rw [if_neg byte, if_neg byte]
      exact ⟨rfl, rfl, rest⟩

theorem Uniform.tail {allocated : Nat} {request : Request T} {rest : List (Request T)}
    (uniform : Uniform allocated nodes (request :: rest)) :
    match request with
    | .priorityPush _ elem => Uniform (allocated + 1) (nodes ++ [(allocated, elem)]) rest
    | .pop => Uniform allocated nodes.tail rest := by
  cases request with
  | priorityPush written elem =>
      intro earlier later split
      exact uniform (.priorityPush written elem :: earlier) later (by rw [split, List.cons_append])
  | pop =>
      intro earlier later split
      exact uniform (.pop :: earlier) later (by rw [split, List.cons_append])

/-- Calls that find only equal elements are served alike. -/
theorem serve_alike (first second : Nat → Nat) {requests : List (Request T)} {allocated : Nat}
    (alike : Alike nodes q r) (uniform : Uniform allocated nodes requests) :
    serve first allocated requests q = serve second allocated requests r := by
  induction requests generalizing allocated nodes q r with
  | nil => rfl
  | cons request rest ih =>
      cases request with
      | priorityPush written elem =>
          obtain ⟨result, after⟩ :=
            alike.priorityPush written allocated (first allocated) (second allocated) elem
          rw [serve, serve, result, ih after uniform.tail]
      | pop =>
          obtain ⟨taken, result, after⟩ := alike.popFor (uniform [] rest rfl)
          rw [serve, serve, taken, result, ih after uniform.tail]

end Alike

section Placed

/-- The nodes that wait, as the set has them under an assignment of addresses. -/
structure Placed (address : Nat → Nat) (nodes : List (Nat × T)) (q : BlockingQueue T) : Prop where
  perm : q.priority.Perm (nodes.map fun node => (address node.1, node.2))
  sorted : q.priority.Pairwise (·.1 < ·.1)

variable {address : Nat → Nat} {nodes : List (Nat × T)} {q : BlockingQueue T}

theorem sorted_insertNode {place : Nat} {elem : T} {priority : List (Nat × T)}
    (sorted : priority.Pairwise (·.1 < ·.1)) (fresh : ∀ node ∈ priority, node.1 ≠ place) :
    (insertNode place elem priority).Pairwise (·.1 < ·.1) := by
  induction priority with
  | nil => simp [insertNode]
  | cons node rest ih =>
      obtain ⟨least, others⟩ := List.pairwise_cons.mp sorted
      have apart := fresh node List.mem_cons_self
      unfold insertNode
      by_cases before : place < node.1
      · rw [if_pos before, List.pairwise_cons]
        refine ⟨?_, sorted⟩
        intro other member
        cases member with
        | head => exact before
        | tail _ there => exact Nat.lt_trans before (least other there)
      · rw [if_neg before, List.pairwise_cons]
        refine ⟨?_, ih others fun other member => fresh other (List.mem_cons_of_mem _ member)⟩
        intro other member
        rcases mem_insertNode.mp member with rfl | there
        · change node.1 < place
          omega
        · exact least other there

theorem Placed.priorityPush (placed : Placed address nodes q) (injective : address.Injective)
    {allocated : Nat} (earlier : ∀ node ∈ nodes, node.1 < allocated) (written : Bool)
    (elem : T) :
    Placed address (nodes ++ [(allocated, elem)])
      (finalState (BlockingQueue.priorityPush written (address allocated) elem q)) := by
  have state := (priorityPush_state written (address allocated) elem q).2
  have fresh : ∀ node ∈ q.priority, node.1 ≠ address allocated := by
    intro node member same
    obtain ⟨source, there, rfl⟩ := List.mem_map.mp (placed.perm.mem_iff.mp member)
    have number : source.1 = allocated := injective same
    have less := earlier source there
    omega
  constructor
  · rw [state, List.map_append, List.map_singleton]
    exact (perm_insertNode _ _ _).trans
      ((placed.perm.cons _).trans (List.perm_append_singleton _ _).symm)
  · rw [state]
    exact sorted_insertNode placed.sorted fresh

/-- The node at the least address comes first. -/
theorem Placed.least (placed : Placed address nodes q) {node : Nat × T} (member : node ∈ nodes)
    (least : ∀ other ∈ nodes, other = node ∨ address node.1 < address other.1) :
    ∃ rest, q.priority = (address node.1, node.2) :: rest := by
  have there : (address node.1, node.2) ∈ q.priority :=
    placed.perm.mem_iff.mpr (List.mem_map_of_mem (f := fun node => (address node.1, node.2)) member)
  cases priority : q.priority with
  | nil =>
      rw [priority] at there
      cases there
  | cons first rest =>
      have front : first ∈ q.priority := by
        rw [priority]
        exact List.mem_cons_self
      obtain ⟨source, mine, rfl⟩ := List.mem_map.mp (placed.perm.mem_iff.mp front)
      rcases least source mine with rfl | less
      · exact ⟨rest, rfl⟩
      · have sorted := placed.sorted
        rw [priority] at there sorted
        rcases List.mem_cons.mp there with same | behind
        · have equal : address node.1 = address source.1 := (Prod.mk.inj same).1
          omega
        · have more := (List.pairwise_cons.mp sorted).1 _ behind
          change address source.1 < address node.1 at more
          omega

theorem next_fst_of_first {first : Nat × T} {rest : List (Nat × T)}
    (priority : q.priority = first :: rest) :
    q.next.map Prod.fst = some first.2 ∧ (finalState (popFor q)).priority = rest := by
  have taken : q.next = some (first.2, { q with priority := rest }) := by
    simp only [BlockingQueue.next, priority]
  refine ⟨by rw [taken]; rfl, ?_⟩
  rw [popFor_some taken]
  split <;> rfl

/-- A pop takes the first of the waiting nodes if that is the one at the least address. -/
theorem Placed.popFor {first : Nat × T} {rest : List (Nat × T)}
    (placed : Placed address (first :: rest) q)
    (least : ∀ other ∈ rest, address first.1 < address other.1) :
    Placed address rest (finalState (BlockingQueue.popFor q)) := by
  have smallest : ∀ other ∈ first :: rest, other = first ∨ address first.1 < address other.1 := by
    intro other member
    rcases List.mem_cons.mp member with same | there
    · exact .inl same
    · exact .inr (least other there)
  obtain ⟨others, priority⟩ := placed.least List.mem_cons_self smallest
  have state := (next_fst_of_first priority).2
  have perm := placed.perm
  have sorted := placed.sorted
  rw [priority] at perm sorted
  constructor
  · rw [state]
    exact perm.cons_inv
  · rw [state]
    exact (List.pairwise_cons.mp sorted).2

theorem Placed.popFor_nil (placed : Placed address [] q) :
    Placed address [] (finalState (BlockingQueue.popFor q)) := by
  have none_left : q.priority = [] := List.perm_nil.mp placed.perm
  have state : (finalState (BlockingQueue.popFor q)).priority = [] := by
    cases taken : q.next with
    | none =>
        rw [popFor_none taken]
        exact none_left
    | some pair =>
        have left : pair.2.priority = [] := by
          rcases next_popped taken with ⟨place, first, -⟩ | ⟨-, still, -⟩
          · rw [none_left] at first
            cases first
          · exact still
        rw [popFor_some taken]
        split <;> exact left
  constructor
  · rw [state]
    exact .refl _
  · rw [state]
    exact .nil

/-- The nodes that are left to wait are not the ones that were popped. -/
theorem waiting_bound {bound : Nat} {requests : List (Request T)} {allocated : Nat}
    (inside : ∀ node ∈ nodes, bound ≤ node.1) (new : bound ≤ allocated) :
    ∀ node ∈ waiting allocated nodes requests, bound ≤ node.1 := by
  induction requests generalizing allocated nodes with
  | nil => exact inside
  | cons request rest ih =>
      cases request with
      | priorityPush written elem =>
          apply ih
          · intro node member
            rcases List.mem_append.mp member with there | last
            · exact inside node there
            · rw [List.mem_singleton.mp last]
              exact new
          · omega
      | pop =>
          apply ih
          · exact fun node member => inside node (List.mem_of_mem_tail member)
          · exact new

/-- The nodes that wait, in the order of their numbers. -/
def Numbered (allocated : Nat) (nodes : List (Nat × T)) : Prop :=
  nodes.Pairwise (·.1 < ·.1) ∧ ∀ node ∈ nodes, node.1 < allocated

theorem Numbered.push {allocated : Nat} (numbered : Numbered allocated nodes) (elem : T) :
    Numbered (allocated + 1) (nodes ++ [(allocated, elem)]) := by
  constructor
  · rw [List.pairwise_append]
    refine ⟨numbered.1, List.pairwise_singleton _ _, ?_⟩
    intro node member last same
    rw [List.mem_singleton.mp same]
    exact numbered.2 node member
  · intro node member
    rcases List.mem_append.mp member with there | last
    · have less := numbered.2 node there
      omega
    · rw [List.mem_singleton.mp last]
      exact Nat.lt_succ_self allocated

theorem Numbered.tail {allocated : Nat} (numbered : Numbered allocated nodes) :
    Numbered allocated nodes.tail :=
  ⟨numbered.1.tail, fun node member => numbered.2 node (List.mem_of_mem_tail member)⟩

/-- The numbers below a bound are addresses, and no other number has such an address. -/
structure Identical (bound : Nat) (address : Nat → Nat) : Prop where
  below : ∀ number < bound, address number = number
  above : ∀ number, bound ≤ number → bound ≤ address number

theorem Identical.lt {bound : Nat} (identical : Identical bound address) {number other : Nat}
    (low : number < bound) (less : number < other) : address number < address other := by
  rw [identical.below number low]
  by_cases small : other < bound
  · rw [identical.below other small]
    exact less
  · have high := identical.above other (by omega)
    omega

/-- As long as the nodes that are popped have low numbers, they are popped first come first
served. -/
theorem Placed.afterAll {bound : Nat} (identical : Identical bound address)
    (injective : address.Injective) {requests : List (Request T)} {allocated : Nat}
    (placed : Placed address nodes q) (numbered : Numbered allocated nodes)
    (waits : ∃ node ∈ waiting allocated nodes requests, node.1 = bound) :
    Placed address (waiting allocated nodes requests)
      (BlockingQueue.afterAll address allocated requests q).2 := by
  induction requests generalizing allocated nodes q with
  | nil => exact placed
  | cons request rest ih =>
      cases request with
      | priorityPush written elem =>
          have pushed := placed.priorityPush injective numbered.2 written elem
          exact ih pushed (numbered.push elem) waits
      | pop =>
          cases nodes with
          | nil => exact ih placed.popFor_nil numbered waits
          | cons first others =>
              obtain ⟨node, member, number⟩ := waits
              have later : ∀ other ∈ others, first.1 < other.1 :=
                (List.pairwise_cons.mp numbered.1).1
              have last : first.1 < allocated := numbered.2 first List.mem_cons_self
              have low : first.1 + 1 ≤ node.1 :=
                waiting_bound later last node member
              have popped := placed.popFor fun other there =>
                identical.lt (show first.1 < bound by omega) (later other there)
              exact ih popped numbered.tail ⟨node, member, number⟩

theorem numbered_waiting {requests : List (Request T)} {allocated : Nat}
    (numbered : Numbered allocated nodes) :
    (waiting allocated nodes requests).Pairwise (·.1 < ·.1) := by
  induction requests generalizing allocated nodes with
  | nil => exact numbered.1
  | cons request rest ih =>
      cases request with
      | priorityPush written elem => exact ih (numbered.push elem)
      | pop => exact ih numbered.tail

theorem identical_swap {low high : Nat} (less : low ≤ high) :
    Identical low (Equiv.swap low high) := by
  constructor
  · intro number below
    exact Equiv.swap_apply_of_ne_of_ne (by omega) (by omega)
  · intro number above
    rw [Equiv.swap_apply_def]
    split
    · exact less
    · split <;> omega

/-- Of the nodes that wait each one comes first, if it is allocated at the right address. -/
theorem exists_first {requests : List (Request T)} {node : Nat × T}
    (empty : q.priority = []) (member : node ∈ waiting 0 [] requests) :
    ∃ address : Nat → Nat, address.Injective ∧
      (afterAll address 0 requests q).2.next.map Prod.fst = some node.2 := by
  have sorted : (waiting 0 ([] : List (Nat × T)) requests).Pairwise (·.1 < ·.1) :=
    numbered_waiting ⟨.nil, fun _ none => nomatch none⟩
  cases whole : waiting 0 [] requests with
  | nil =>
      rw [whole] at member
      cases member
  | cons first rest =>
      rw [whole] at member sorted
      obtain ⟨least, others⟩ := List.pairwise_cons.mp sorted
      have above : first.1 ≤ node.1 := by
        rcases List.mem_cons.mp member with rfl | there
        · exact Nat.le_refl _
        · exact Nat.le_of_lt (least node there)
      have injective := (Equiv.swap first.1 node.1).injective
      have start : Placed (Equiv.swap first.1 node.1) ([] : List (Nat × T)) q :=
        ⟨by rw [empty]; exact .nil, by rw [empty]; exact .nil⟩
      have placed : Placed (Equiv.swap first.1 node.1) (waiting 0 [] requests)
          (afterAll (Equiv.swap first.1 node.1) 0 requests q).2 :=
        start.afterAll (identical_swap above) injective ⟨.nil, fun _ none => nomatch none⟩
          ⟨first, by rw [whole]; exact List.mem_cons_self, rfl⟩
      rw [whole] at placed
      have smallest : ∀ other ∈ first :: rest, other = node ∨
          Equiv.swap first.1 node.1 node.1 < Equiv.swap first.1 node.1 other.1 := by
        intro other there
        by_cases same : other = node
        · exact .inl same
        · have numbers : ((first :: rest).map Prod.fst).Nodup :=
            List.pairwise_map.mpr (sorted.imp fun less => Nat.ne_of_lt less)
          have distinct : other.1 ≠ node.1 :=
            fun equal => same (List.inj_on_of_nodup_map numbers there member equal)
          refine .inr ?_
          rw [Equiv.swap_apply_right]
          rcases List.mem_cons.mp there with rfl | behind
          · rw [Equiv.swap_apply_left]
            omega
          · have less := least other behind
            rw [Equiv.swap_apply_of_ne_of_ne (by omega) distinct]
            exact less
      obtain ⟨behind, priority⟩ := placed.least member smallest
      exact ⟨_, injective, (next_fst_of_first priority).1⟩

end Placed

/-- Where the addresses do not matter, any two assignments of them pop the same element. -/
theorem AddressFree.next {q : BlockingQueue T} {earlier later : List (Request T)}
    (free : AddressFree q (earlier ++ .pop :: later)) {first second : Nat → Nat}
    (one : first.Injective) (other : second.Injective) :
    (afterAll first 0 earlier q).2.next.map Prod.fst =
      (afterAll second 0 earlier q).2.next.map Prod.fst := by
  have same := free first second one other
  rw [serve_append, serve_append] at same
  have behind := (List.append_inj same (by rw [length_serve, length_serve])).2
  rw [serve, serve] at behind
  exact (Served.popped.inj (List.cons.inj behind).1).1

/-- The order of service is free of the addresses exactly if no pop has a choice between different
elements. -/
theorem addressFree_iff (queue : List T) (maxQueueSize pipe : Nat)
    (requests : List (Request T)) :
    AddressFree { queue, maxQueueSize, pipe } requests ↔ Uniform 0 [] requests := by
  constructor
  · rintro free earlier later rfl node here other there
    have empty : ({ queue, maxQueueSize, pipe } : BlockingQueue T).priority = [] := rfl
    obtain ⟨first, one, firstTaken⟩ := exists_first empty here
    obtain ⟨second, two, secondTaken⟩ := exists_first empty there
    have same := free.next one two
    rw [firstTaken, secondTaken] at same
    exact Option.some.inj same
  · intro uniform first second _ _
    exact serve_alike first second ⟨.refl _, .refl _, rfl, rfl⟩ uniform

/-- A session is told to close while a packet waits. -/
def farewell : List (Request MessageType) :=
  [.priorityPush true .Close, .priorityPush true .PacketReceive, .pop]

theorem farewell_not_addressFree : ¬ AddressFree {} farewell := by
  intro free
  have split : farewell =
      [.priorityPush true .Close, .priorityPush true .PacketReceive] ++ .pop :: [] := rfl
  rw [split] at free
  have same := free.next Function.injective_id (Equiv.swap 0 1).injective
  revert same
  decide

end Locus.BlockingQueue
