import Locus.SessionsLatest

set_option autoImplicit false

/- What a follower has been told when nothing is left to be sent: the present name of each client
that it follows, and a place that is as new as the last one. -/
namespace Locus

open Transition

namespace Server

open ClientDataManager

variable {Key : Type} {lib : CryptoLibrary Key}

/-- The packets that were handed over for a client, oldest first. -/
def handedTo (events : List Event) (id : Int16) : List (PacketType × Bytes) :=
  events.flatMap (Event.handed id)

theorem handedTo_snoc (events : List Event) (event : Event) (id : Int16) :
    handedTo (events ++ [event]) id = handedTo events id ++ event.handed id := by
  simp only [handedTo, List.flatMap_append, List.flatMap_singleton]

/-- A client registers that has a session. -/
def Rejoins (before : Server Key) (event : Event) : Prop :=
  ∃ queue acts key other client, event = .selfRegister queue acts ∧
    before.sessions other = some client ∧ client.Registered ∧
    (.registerClient key queue, .id client.id) ∈ event.calls

/-- The packets of a client are handed over as they were queued. -/
structure InOrder (events : List Event) (server : Server Key) : Prop where
  alone : ∀ queue other client twin, server.sessions queue = some client → client.Registered →
    server.sessions other = some twin → twin.Registered → client.id = twin.id → queue = other
  waiting : ∀ queue client, server.sessions queue = some client → client.Registered →
    queuedFor events client.id =
      handedTo events client.id ++ client.remainingPackets.map Packet.content
  gone : ∀ id, (∀ queue client, server.sessions queue = some client → client.Registered →
    client.id ≠ id) → queuedFor events id = handedTo events id

section Orders

variable {events : List Event} {before after : Server Key} {event : Event}

theorem InOrder.quiet (inOrder : InOrder events before)
    (silent : ∀ id, event.queued id = [] ∧ event.handed id = []) :
    InOrder (events ++ [event]) before := by
  have same : ∀ id, queuedFor (events ++ [event]) id = queuedFor events id ∧
      handedTo (events ++ [event]) id = handedTo events id := by
    intro id
    rw [queuedFor_snoc, handedTo_snoc, (silent id).1, (silent id).2]
    simp
  refine ⟨inOrder.alone, ?_, ?_⟩
  · intro queue client alive registered
    rw [(same client.id).1, (same client.id).2]
    exact inOrder.waiting queue client alive registered
  · intro id absent
    rw [(same id).1, (same id).2]
    exact inOrder.gone id absent

/-- A session that goes on, with what its queue gets and what is taken out of it. -/
theorem InOrder.replace {queue : QueueRef} {client next : ProtocolClient Key}
    {database : Database} (inOrder : InOrder events before)
    (alive : before.sessions queue = some client) (sameId : next.id = client.id)
    (standing : next.Registered ↔ client.Registered)
    (balance : client.Registered →
      client.remainingPackets.map Packet.content ++ (event.queued client.id).map Packet.content =
        event.handed client.id ++ next.remainingPackets.map Packet.content)
    (others : ∀ id, (client.Registered → client.id ≠ id) →
      event.queued id = [] ∧ event.handed id = []) :
    InOrder (events ++ [event])
      { database, sessions := before.sessions.modify queue fun _ => next } := by
  have back : ∀ {other found}, before.sessions.modify queue (fun _ => next) other = some found →
      found.Registered → ∃ earlier, before.sessions other = some earlier ∧
        earlier.Registered ∧ earlier.id = found.id := by
    intro other found there registered
    rcases KeyMap.modify_eq_some there with ⟨rfl, rfl⟩ | ⟨_, there⟩
    · exact ⟨client, alive, standing.mp registered, sameId.symm⟩
    · exact ⟨found, there, registered, rfl⟩
  refine ⟨?_, ?_, ?_⟩
  · intro one other found twin here registered there also same
    obtain ⟨first, firstAlive, firstStands, firstId⟩ := back here registered
    obtain ⟨second, secondAlive, secondStands, secondId⟩ := back there also
    exact inOrder.alone one other first second firstAlive firstStands secondAlive secondStands
      (firstId.trans (same.trans secondId.symm))
  · intro other found there registered
    rw [queuedFor_snoc, handedTo_snoc]
    rcases KeyMap.modify_eq_some there with ⟨rfl, rfl⟩ | ⟨apart, there⟩
    · have stands := standing.mp registered
      rw [sameId, inOrder.waiting other client alive stands, List.append_assoc, balance stands,
        List.append_assoc]
    · obtain ⟨nothing, nobody⟩ := others found.id fun stands same =>
        apart (inOrder.alone queue other client found alive stands there registered same).symm
      rw [nothing, nobody, List.map_nil, List.append_nil, List.append_nil]
      exact inOrder.waiting other found there registered
  · intro id absent
    have missing : client.Registered → client.id ≠ id := by
      intro stands same
      exact absent queue next (KeyMap.modify_of_some _ alive) (standing.mpr stands)
        (sameId.trans same)
    rw [queuedFor_snoc, handedTo_snoc, (others id missing).1, (others id missing).2,
      List.map_nil, List.append_nil, List.append_nil]
    refine inOrder.gone id fun other found there registered => ?_
    by_cases here : other = queue
    · subst here
      rw [alive] at there
      cases there
      exact missing registered
    · exact absent other found ((KeyMap.modify_of_ne _ _ here).trans there) registered

/-- A session that ends with nothing in its queue. -/
theorem InOrder.erase {queue : QueueRef} {client : ProtocolClient Key} {database : Database}
    (inOrder : InOrder events before) (alive : before.sessions queue = some client)
    (empty : client.remainingPackets = [])
    (silent : ∀ id, event.queued id = [] ∧ event.handed id = []) :
    InOrder (events ++ [event]) { database, sessions := before.sessions.erase queue } := by
  have inOrder := inOrder.quiet silent
  refine ⟨?_, ?_, ?_⟩
  · intro one other found twin here registered there
    exact inOrder.alone one other found twin (KeyMap.erase_eq_some here).2 registered
      (KeyMap.erase_eq_some there).2
  · intro other found there
    exact inOrder.waiting other found (KeyMap.erase_eq_some there).2
  · intro id absent
    by_cases own : client.Registered ∧ client.id = id
    · obtain ⟨registered, rfl⟩ := own
      have drained := inOrder.waiting queue client alive registered
      rw [empty, List.map_nil, List.append_nil] at drained
      exact drained
    · refine inOrder.gone id fun other found there registered => ?_
      by_cases here : other = queue
      · subst here
        rw [alive] at there
        cases there
        exact fun same => own ⟨registered, same⟩
      · exact absent other found ((KeyMap.erase_of_ne _ here).trans there) registered

/-- A session that has not registered. -/
theorem InOrder.create {queue : QueueRef} {client : ProtocolClient Key}
    (inOrder : InOrder events before) (unused : before.sessions queue = none)
    (stage : client.stage = .SetPublicKey) :
    InOrder (events ++ [.create queue])
      { before with sessions := before.sessions.insert queue client } := by
  have newcomer : ¬ client.Registered := by
    intro registered
    rw [ProtocolClient.Registered, stage] at registered
    cases registered
  have inOrder : InOrder (events ++ [.create queue]) before := inOrder.quiet fun _ => ⟨rfl, rfl⟩
  have back : ∀ {other found}, before.sessions.insert queue client other = some found →
      found.Registered → before.sessions other = some found := by
    intro other found there registered
    rcases KeyMap.insert_eq_some unused there with ⟨_, rfl⟩ | ⟨_, there⟩
    · exact absurd registered newcomer
    · exact there
  refine ⟨?_, ?_, ?_⟩
  · intro one other found twin here registered there also
    exact inOrder.alone one other found twin (back here registered) registered
      (back there also) also
  · intro other found there registered
    exact inOrder.waiting other found (back there registered) registered
  · intro id absent
    exact inOrder.gone id fun other found there =>
      absent other found (KeyMap.insert_of_some _ _ there)

/-- A session takes up the id of a client that has none, after all of that client's packets. -/
theorem InOrder.selfRegister {queue : QueueRef} {client next : ProtocolClient Key}
    {database : Database} {acts : List Act} (inOrder : InOrder events before)
    (alive : before.sessions queue = some client) (unregistered : ¬ client.Registered)
    (packets : next.remainingPackets = [])
    (fresh : ∀ other twin, before.sessions other = some twin → twin.Registered →
      twin.id ≠ next.id) :
    InOrder (events ++ [.selfRegister queue acts])
      { database, sessions := before.sessions.modify queue fun _ => next } := by
  have kept : ∀ other twin, before.sessions other = some twin → twin.Registered →
      other ≠ queue := by
    rintro other twin there stands rfl
    rw [alive] at there
    cases there
    exact unregistered stands
  have inOrder : InOrder (events ++ [.selfRegister queue acts]) before :=
    inOrder.quiet fun _ => ⟨rfl, rfl⟩
  refine ⟨?_, ?_, ?_⟩
  · intro one other found twin here stands there also same
    rcases KeyMap.modify_eq_some here with ⟨rfl, rfl⟩ | ⟨_, first⟩
    · rcases KeyMap.modify_eq_some there with ⟨rfl, rfl⟩ | ⟨_, second⟩
      · rfl
      · exact absurd same.symm (fresh other twin second also)
    · rcases KeyMap.modify_eq_some there with ⟨rfl, rfl⟩ | ⟨_, second⟩
      · exact absurd same (fresh one found first stands)
      · exact inOrder.alone one other found twin first stands second also same
  · intro other found there stands
    rcases KeyMap.modify_eq_some there with ⟨rfl, rfl⟩ | ⟨_, there⟩
    · rw [packets, List.map_nil, List.append_nil]
      exact inOrder.gone _ fresh
    · exact inOrder.waiting other found there stands
  · intro id absent
    refine inOrder.gone id fun other found there stands => ?_
    exact absent other found ((KeyMap.modify_of_ne _ _ (kept other found there stands)).trans
      there) stands

end Orders

/-- Nobody is told anything that will be lost: clients come back to no news, and with one session
at a time, sessions end with nothing in their queues, and no post is left out. -/
def Steady (before : Server Key) (event : Event) : Prop :=
  Notified before event ∧ QueriesInUpdate event ∧ ¬ DropsPackets before event ∧
    ¬ Rejoins before event

end Server

end Locus
