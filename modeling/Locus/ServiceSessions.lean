import Locus.ServiceCommutes
import Locus.ServiceRefinement

set_option autoImplicit false

/- One session of the service by itself: whatever the other sessions do meanwhile, it goes through
a run of its own, with the manager that each of its messages finds. -/
namespace Locus.Service

open Program Transition ProtocolClient

variable {Key : Type}

/-- What the session at an address has done since it was accepted. -/
def record (queue : QueueRef) (acts : List Act) : Event → List Act
  | .accept other | .erase other _ => if other = queue then [] else acts
  | .serve other _ _ log => if other = queue then acts ++ log else acts

def actsOf (history : List Event) (queue : QueueRef) : List Act :=
  history.foldl (record queue) []

/-- The messages that the session at an address was served since it was accepted, each with the
events before it. -/
def hear (queue : QueueRef) (heard : List Event × List (List Event × Turn)) (event : Event) :
    List Event × List (List Event × Turn) :=
  (heard.1 ++ [event],
    match event with
    | .accept other | .erase other _ => if other = queue then [] else heard.2
    | .serve other _ turn _ =>
        if other = queue then heard.2 ++ [(heard.1, turn)] else heard.2)

def messagesOf (history : List Event) (queue : QueueRef) : List (List Event × Turn) :=
  (history.foldl (hear queue) ([], [])).2

/-- The session is served a message with the manager that it finds on the way to this server. -/
def Found (lib : CryptoLibrary Key) (history : List Event) (server : Server Key)
    (queue : QueueRef) (heard : List Event × Turn) (event : ProtocolClient.Event) : Prop :=
  ∃ middle later, history = heard.1 ++ later ∧ Run (Step lib) {} heard.1 middle ∧
    Run (Step lib) middle later server ∧
    event = .serve { heard.2 with database := (pops middle queue heard.2.message).database }

/-- The session's life since it was made for this address. -/
def Lived (lib : CryptoLibrary Key) (history : List Event) (server : Server Key)
    (queue : QueueRef) (client : ProtocolClient Key) : Prop :=
  ∃ rsaServerCrypto blank aesKey events,
    Run (ProtocolClient.Step lib) (create lib rsaServerCrypto blank aesKey queue) events
      { client
        acts := (create lib rsaServerCrypto blank aesKey queue).acts ++ actsOf history queue } ∧
    List.Forall₂ (Found lib history server queue) (messagesOf history queue) events

section Lives

variable {lib : CryptoLibrary Key} {history : List Event} {server after : Server Key}
  {queue : QueueRef} {client : ProtocolClient Key}

theorem actsOf_snoc (history : List Event) (event : Event) (queue : QueueRef) :
    actsOf (history ++ [event]) queue = record queue (actsOf history queue) event := by
  simp only [actsOf, List.foldl_append, List.foldl_cons, List.foldl_nil]

theorem messagesOf_snoc (history : List Event) (event : Event) (queue : QueueRef) :
    messagesOf (history ++ [event]) queue =
      (hear queue (history, messagesOf history queue) event).2 := by
  have past : ∀ history : List Event, (history.foldl (hear queue) ([], [])).1 = history := by
    intro history
    induction history using List.reverseRecOn with
    | nil => rfl
    | append_singleton history event ih =>
        rw [List.foldl_append, List.foldl_cons, List.foldl_nil]
        exact congrArg (· ++ [event]) ih
  have split : history.foldl (hear queue) ([], []) = (history, messagesOf history queue) :=
    Prod.ext (past history) rfl
  rw [messagesOf, List.foldl_append, List.foldl_cons, List.foldl_nil, split]

theorem Found.later {event : Event} {heard : List Event × Turn}
    {served : ProtocolClient.Event} (found : Found lib history server queue heard served)
    (step : Step lib server event after) :
    Found lib (history ++ [event]) after queue heard served := by
  obtain ⟨middle, later, rfl, before, behind, same⟩ := found
  exact ⟨middle, later ++ [event], List.append_assoc .., before, behind.snoc step, same⟩

theorem Lived.elsewhere {event : Event} (lived : Lived lib history server queue client)
    (step : Step lib server event after) (silent : record queue (actsOf history queue) event =
      actsOf history queue)
    (unheard : (hear queue (history, messagesOf history queue) event).2 =
      messagesOf history queue) : Lived lib (history ++ [event]) after queue client := by
  obtain ⟨rsaServerCrypto, blank, aesKey, events, run, heard⟩ := lived
  refine ⟨rsaServerCrypto, blank, aesKey, events, ?_, ?_⟩
  · rw [actsOf_snoc, silent]
    exact run
  · rw [messagesOf_snoc, unheard]
    exact heard.imp fun _ _ found => found.later step

/-- A message that is served in the service is served in the life of the session. -/
theorem serve_attended {turn : Turn} (acts : List Act)
    (goesOn : Server.GoesOn (recv lib turn (attend server queue client turn))) :
    ProtocolClient.serve lib { turn with database := (pops server queue turn.message).database }
      { client, acts } =
    { client := (finalState (recv lib turn (attend server queue client turn))).client
      acts := acts ++ (finalState (recv lib turn (attend server queue client turn))).acts } := by
  have resumes := @recv_commutes _ acts lib turn (attend server queue client turn)
  have start : resumed acts (attend server queue client turn) =
      { client, inbound := turn.inbound, database := (pops server queue turn.message).database,
        acts } := by
    simp only [resumed, shifted, attend, Server.enter, List.append_nil]
  rw [start] at resumes
  have same : recv lib { turn with database := (pops server queue turn.message).database } =
      recv lib turn := rfl
  rw [ProtocolClient.serve, same, resumes]
  cases ran : recv lib turn (attend server queue client turn) with
  | ok value final => rfl
  | error fault final =>
      rw [ran] at goesOn
      cases fault with
      | exception what => rfl
      | undefinedBehaviour | nonTermination => exact absurd goesOn id

theorem lived_step (earlier : Run (Step lib) {} history server)
    (lived : ∀ queue client, server.sessions queue = some client →
      Lived lib history server queue client) {event : Event}
    (step : Step lib server event after) : ∀ queue client, after.sessions queue = some client →
      Lived lib (history ++ [event]) after queue client := by
  intro queue client there
  cases step with
  | @accept other rsaServerCrypto blank aesKey unused =>
      rcases KeyMap.insert_eq_some unused there with ⟨rfl, rfl⟩ | ⟨apart, before⟩
      · refine ⟨rsaServerCrypto, blank, aesKey, [], ?_, ?_⟩
        · rw [actsOf_snoc, record, if_pos rfl, List.append_nil]
          exact .nil
        · rw [messagesOf_snoc, hear, if_pos rfl]
          exact .nil
      · exact (lived queue client before).elsewhere (.accept unused)
          (if_neg (Ne.symm apart)) (if_neg (Ne.symm apart))
  | @serve other served turn result alive posted ran goesOn =>
      have step := Step.serve alive posted ran goesOn
      rcases KeyMap.modify_eq_some there with ⟨rfl, rfl⟩ | ⟨apart, before⟩
      · obtain ⟨rsaServerCrypto, blank, aesKey, events, run, heard⟩ := lived queue served alive
        subst ran
        refine ⟨rsaServerCrypto, blank, aesKey, events ++ [.serve { turn with
          database := (pops server queue turn.message).database }], run.snoc ⟨rfl, ?_⟩, ?_⟩
        · rw [actsOf_snoc, record, if_pos rfl, ← List.append_assoc]
          exact (serve_attended _ goesOn).symm
        · rw [messagesOf_snoc, hear, if_pos rfl]
          exact List.rel_append (heard.imp fun _ _ found => found.later step)
            (.cons ⟨server, _, rfl, earlier, .cons step .nil, rfl⟩ .nil)
      · exact (lived queue client before).elsewhere step
          (if_neg (Ne.symm apart)) (if_neg (Ne.symm apart))
  | @erase other served final alive ran =>
      obtain ⟨apart, before⟩ := KeyMap.erase_eq_some there
      exact (lived queue client before).elsewhere (.erase alive ran)
        (if_neg (Ne.symm apart)) (if_neg (Ne.symm apart))

theorem lived_run (run : Run (Step lib) {} history server)
    (alive : server.sessions queue = some client) : Lived lib history server queue client := by
  refine run.history_invariant (fun history server => ∀ queue client,
    server.sessions queue = some client → Lived lib history server queue client)
    (by simp) ?_ queue client alive
  intro history before event after earlier lived step
  exact lived_step earlier lived step

/-- Each session of the service lives a life of its own, in which it is served the messages of the
service, with the managers that they find, and has done what the service has logged of it. -/
theorem sessions_live (run : Run (Step lib) {} history server)
    (alive : server.sessions queue = some client) :
    ∃ rsaServerCrypto blank aesKey events,
      Run (ProtocolClient.Step lib) (create lib rsaServerCrypto blank aesKey queue) events
        { client
          acts := (create lib rsaServerCrypto blank aesKey queue).acts ++
            actsOf history queue } ∧
      List.Forall₂ (Found lib history server queue) (messagesOf history queue) events :=
  lived_run run alive

end Lives

theorem sessions_live_itinerary : ∃ history server client,
    Run (Step transparent) {} history server ∧ ∃ rsaServerCrypto blank aesKey events,
      Run (ProtocolClient.Step transparent) (create transparent rsaServerCrypto blank aesKey 0)
        events
        { client
          acts := (create transparent rsaServerCrypto blank aesKey 0).acts ++
            actsOf history 0 } ∧
      List.Forall₂ (Found transparent history server 0) (messagesOf history 0) events := by
  have replays : (replay transparent itinerary hosted).map (fun result =>
      (result.2.sessions 0).isSome) = some true := by decide +kernel
  obtain ⟨⟨history, server⟩, replayed, there⟩ := Option.map_eq_some_iff.mp replays
  obtain ⟨client, alive⟩ := Option.isSome_iff_exists.mp there
  have run : Run (Step transparent) {} (.accept 0 :: history) server :=
    .cons (.accept rfl) (replay_run replayed)
  exact ⟨_, server, client, run, sessions_live run alive⟩

end Locus.Service
