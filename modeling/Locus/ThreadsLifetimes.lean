import Locus.ThreadsQueues

set_option autoImplicit false

/- Sessions that end while other threads, or later events of the Server, still refer to their
handlers. -/
namespace Locus

open Transition Program

namespace Threads

/-- `readEPoll` calls, and `readMessage` registers, a handler that has not been destroyed. -/
def UsesLive (s : Threads) : Event → Prop
  | .dispatch thread =>
      ∀ handler events, s.place thread = .dispatch (handler :: events) → s.live handler = true
  | .addEPollEvent thread =>
      ∀ handler, s.place thread = .addEPollEvent handler → s.live handler = true
  | _ => True

/-- No thread has a handler of the session left in its events, or will read a message that
refers to one, or will be told of a byte in the pipe of its queue. -/
structure Idle (s : Threads) (session : Nat) : Prop where
  awaits : ∀ thread handler, handler.isOf session = true →
    handler ∉ (s.place thread).awaits
  queued : ∀ thread handler, handler.isOf session = true →
    .AddEPollEvent handler ∉ s.readable thread
  armed : ∀ thread, s.WaitsAgain thread → s.watched thread (.ProtocolClient session) = true →
    s.armed thread (.ProtocolClient session) = false

/-- `eraseClient` destroys a session only when nothing refers to it. -/
def ErasesIdle (s : Threads) : Event → Prop
  | .switch _ _ => ∀ msg session, s.manager.msg = some msg →
      erased msg s.manager = some session → s.Idle session
  | _ => True

variable {s after : Threads} {event : Event}

/-- The manager and the Acceptor are there as long as `main`. -/
structure Permanent (s : Threads) : Prop where
  manager : s.live .ClientManager = true
  acceptor : s.live .Acceptor = true
  main : ∀ thread handler, .push thread (.AddEPollEvent handler) ∈ s.main →
    handler = .ClientManager ∨ handler = .Acceptor

theorem permanent_start : Permanent {} := by
  refine ⟨rfl, rfl, ?_⟩
  intro thread handler member
  simp only [List.mem_cons, MainStep.push.injEq, ThreadMessage.AddEPollEvent.injEq,
    reduceCtorEq, and_false, List.not_mem_nil, or_self, or_false] at member
  rcases member with ⟨_, rfl⟩ | ⟨_, rfl⟩
  · exact .inl rfl
  · exact .inr rfl

theorem live_renew (s : Threads) (created erased : Option Nat) (handler : EPollEvent) :
    (s.renew created erased).live handler =
      ((s.live handler || created.any handler.isOf) && !erased.any handler.isOf) := rfl

/-- A handler outlives a session that it does not belong to. -/
theorem live_renew_of_not (created : Option Nat) {gone : Option Nat} {handler : EPollEvent}
    (live : s.live handler = true) (other : ∀ session, gone = some session →
      handler.isOf session = false) : (s.renew created gone).live handler = true := by
  rw [live_renew, live, Bool.true_or, Bool.true_and, Bool.not_eq_true']
  cases gone with
  | none => rfl
  | some session => exact other session rfl

/-- Handlers come and go in the `switch` of the manager only. -/
theorem live_step (step : Step s event after) (other : ∀ thread made, event ≠ .switch thread made) :
    after.live = s.live := by
  cases step with
  | switch => exact absurd rfl (other _ _)
  | _ => rfl

theorem main_step (step : Step s event after) : ∀ next ∈ after.main, next ∈ s.main := by
  have shorter : ∀ {first rest}, s.main = first :: rest → ∀ next ∈ rest, next ∈ s.main := by
    intro first rest before next member
    rw [before]
    exact List.mem_cons_of_mem _ member
  cases step with
  | mainPush next | mainCommands next | mainJoin next => exact shorter next
  | _ => exact fun _ member => member

theorem permanent_step (permanent : Permanent s) (step : Step s event after) :
    Permanent after := by
  have main : ∀ thread handler, .push thread (.AddEPollEvent handler) ∈ after.main →
      handler = .ClientManager ∨ handler = .Acceptor :=
    fun thread handler member => permanent.main thread handler (main_step step _ member)
  by_cases switching : ∃ thread made, event = .switch thread made
  · obtain ⟨thread, made, rfl⟩ := switching
    cases step with
    | switch =>
        exact ⟨live_renew_of_not _ permanent.manager fun _ _ => rfl,
          live_renew_of_not _ permanent.acceptor fun _ _ => rfl, main⟩
  · have same := live_step step fun thread made here => switching ⟨thread, made, here⟩
    refine ⟨?_, ?_, main⟩
    · rw [same]
      exact permanent.manager
    · rw [same]
      exact permanent.acceptor

theorem reserved_threads_step (reserved : s.manager.Reserved) (ordered : Managed s.manager)
    (step : Step s event after) : after.manager.Reserved := by
  cases step with
  | closeConnection _ moved | pop _ moved | switch _ _ moved | accept _ moved | refuse _ moved
  | announce _ moved | openOther moved | closeOther moved =>
      exact ClientManager.reserved_step reserved ordered.erasing moved
  | close => exact ClientManager.reserved_priorityPush reserved _ _ _
  | _ => exact reserved

/-- The Server, in the manager, is about to push nothing else. -/
theorem Suited.nothing_pushed (suited : Suited s) {thread : ThreadName} {events : List EPollEvent}
    (switching : s.place thread = .switch events) (other : ThreadName) :
    (s.place other).pushes = [] := by
  have server : thread = .Server :=
    suited.manager_server (by rw [switching]; exact List.mem_cons_self)
  cases here : s.place other with
  | addClient pushes events =>
      have same : other = .Server :=
        suited.manager_server (by rw [here]; exact List.mem_cons_self)
      rw [same, ← server, switching] at here
      cases here
  | _ => rfl

/-- `addClient` sends the handlers of the session that it has made. -/
theorem isOf_created (reserved : s.manager.Reserved) {msg : Message} {made : Bool}
    (held : s.manager.msg = some msg) {push : ThreadName × EPollEvent}
    (member : push ∈ pushes msg made s.manager) :
    (created msg made s.manager).any push.2.isOf = true ∧ erased msg s.manager = none := by
  unfold pushes at member
  split at member
  · rename_i fileDescriptor type names
    have wants : ClientManager.wanted msg = some fileDescriptor := by
      rw [ClientManager.wanted, if_pos type, names]
    have unmapped := (ClientManager.wanted_apart reserved held wants).2.1
    have none_erased : erased msg s.manager = none := by simp [erased, type]
    refine ⟨?_, none_erased⟩
    split at member
    · rename_i new
      rw [unmapped, Option.getD_none] at member
      have number : created msg made s.manager = some s.manager.created := by
        simp [created, type, names, new, unmapped]
      rw [number]
      simp only [List.mem_cons, List.not_mem_nil, or_false] at member
      rcases member with rfl | rfl | rfl <;> simp [EPollEvent.isOf]
    · cases member
  · cases member

/-- Where everything that the threads refer to is alive. -/
structure Known (s : Threads) : Prop where
  suited : Suited s
  ordered : Managed s.manager
  reserved : s.manager.Reserved
  permanent : Permanent s
  live : Refs (fun _ handler => s.live handler = true) (fun _ _ => True) s

/-- What is sent, armed or registered by any other step is alive. -/
theorem live_brings (known : Known s) (step : Step s event after)
    (other : ∀ thread made, event ≠ .switch thread made) {thread : ThreadName}
    {handler : EPollEvent} (brings : Brings s event thread handler) : s.live handler = true := by
  cases step with
  | switch => exact absurd rfl (other _ _)
  | @post _ session posts alive =>
      obtain ⟨_, rfl⟩ := brings
      exact alive
  | @ready _ session socket alive =>
      obtain ⟨_, rfl⟩ := brings
      exact alive
  | closeConnection | announce | close =>
      obtain ⟨_, rfl⟩ := brings
      exact known.permanent.manager
  | connect =>
      obtain ⟨_, rfl⟩ := brings
      exact known.permanent.acceptor
  | _ => cases brings

/-- The `switch` of the manager leaves no reference to a session that it destroys, if none was
left to be used. -/
theorem live_switch (known : Known s) {thread : ThreadName} {made : Bool}
    (step : Step s (.switch thread made) after) (idle : ErasesIdle s (.switch thread made)) :
    Refs (fun _ handler => after.live handler = true) (fun _ _ => True) after := by
  cases step with
  | @switch _ events msg _ m switching held managed =>
      have survives : ∀ handler, s.live handler = true →
          (∀ session, erased msg s.manager = some session → handler.isOf session = false) →
          (s.renew (created msg made s.manager) (erased msg s.manager)).live handler = true :=
        fun handler live other => live_renew_of_not _ live other
      have awaits : ∀ other, ∀ handler ∈ (s.place other).awaits,
          (s.renew (created msg made s.manager) (erased msg s.manager)).live handler = true := by
        intro other handler member
        apply survives handler (known.live.awaits other handler member)
        intro session gone
        rw [← Bool.not_eq_true]
        exact fun own => (idle msg session held gone).awaits other handler own member
      have renewed : Refs (fun _ handler =>
          (s.renew (created msg made s.manager) (erased msg s.manager)).live handler = true)
          (fun _ _ => True)
          { s.renew (created msg made s.manager) (erased msg s.manager) with manager := m } := by
        refine ⟨awaits, fun _ _ _ => trivial, ?_, ?_, ?_, ?_, known.live.leaving⟩
        · intro other push member
          have nothing := known.suited.nothing_pushed switching other
          change push ∈ (s.place other).pushes at member
          rw [nothing] at member
          cases member
        · intro other handler member
          apply survives handler (known.live.queued other handler member)
          intro session gone
          rw [← Bool.not_eq_true]
          exact fun own => (idle msg session held gone).queued other handler own member
        · intro other handler again watched armed
          obtain ⟨before, kept⟩ := Bool.and_eq_true_iff.mp watched
          have told := (Bool.and_eq_true_iff.mp armed).1
          apply survives handler (known.live.armed other handler again before told)
          intro session gone
          rw [gone] at kept
          cases handler with
          | ClientManager | Acceptor => rfl
          | ClientBuffer number => simpa [EPollEvent.isOf] using kept
          | ProtocolClient number =>
              apply decide_eq_false
              rintro rfl
              rw [(idle msg number held gone).armed other again before] at told
              cases told
        · intro other handler member
          rcases known.permanent.main other handler member with rfl | rfl
          · exact survives _ known.permanent.manager fun _ _ => rfl
          · exact survives _ known.permanent.acceptor fun _ _ => rfl
      refine renewed.goTo thread ?_ (fun _ _ => trivial) ?_ nofun
      · intro handler member
        exact awaits thread handler (by rw [switching]; exact member)
      · intro push member
        obtain ⟨own, nobody⟩ := isOf_created known.reserved held member
        rw [live_renew, own, nobody, Bool.or_true]
        rfl

theorem known_step (known : Known s) (step : Step s event after) (idle : ErasesIdle s event) :
    Known after := by
  refine ⟨suited_step known.suited step, managed_threads_step known.ordered step,
    reserved_threads_step known.reserved known.ordered step,
    permanent_step known.permanent step, ?_⟩
  by_cases switching : ∃ thread made, event = .switch thread made
  · obtain ⟨thread, made, rfl⟩ := switching
    exact live_switch known step idle
  · have other : ∀ thread made, event ≠ .switch thread made :=
      fun thread made here => switching ⟨thread, made, here⟩
    rw [live_step step other]
    exact refs_step known.live step (fun _ _ _ => trivial)
      fun thread handler brings => live_brings known step other brings

theorem known_start : Known {} := by
  refine ⟨suited_start, ⟨rfl, Nat.zero_le _, ?_⟩, ClientManager.reserved_start, permanent_start,
    ⟨?_, fun _ _ _ => trivial, ?_, ?_, ?_, ?_, suited_start.leaving⟩⟩
  · intro node member
    cases member
  · intro thread handler member
    cases member
  · intro thread push member
    cases member
  · intro thread handler member
    cases member
  · intro thread handler again watched armed
    cases armed
  · intro thread handler member
    rcases permanent_start.main thread handler member with rfl | rfl <;> rfl

/-- A handler that is called or registered is one that the thread had in its hands. -/
theorem Known.usesLive (known : Known s) : UsesLive s event := by
  cases event with
  | dispatch thread =>
      intro handler events next
      exact known.live.awaits thread handler (by rw [next]; exact List.mem_cons_self)
  | addEPollEvent thread =>
      intro handler adding
      exact known.live.awaits thread handler (by rw [adding]; exact List.mem_cons_self)
  | _ => exact trivial

/-- Where each session that `eraseClient` destroys has become idle, no handler is called or
registered after its destruction. -/
theorem uses_live {events : List Event} {s : Threads}
    (run : Run (Guarded ErasesIdle Step) {} events s) (event : Event) : UsesLive s event :=
  (run.invariant Known known_start fun _ _ _ known step =>
    known_step known step.2 step.1).usesLive

theorem idle_of_nil {session : Nat} (awaits : ∀ thread, (s.place thread).awaits = [])
    (queued : ∀ thread, s.readable thread = [])
    (armed : ∀ thread, s.armed thread (.ProtocolClient session) = false) : s.Idle session := by
  refine ⟨?_, ?_, fun thread _ _ => armed thread⟩
  · intro thread handler _
    rw [awaits]
    exact List.not_mem_nil
  · intro thread handler _
    rw [queued]
    exact List.not_mem_nil

theorem erasesIdle_of_held {thread : ThreadName} {made : Bool} {msg : Message}
    (held : s.manager.msg = some msg)
    (idle : ∀ session, erased msg s.manager = some session → s.Idle session) :
    ErasesIdle s (.switch thread made) := by
  intro other session same gone
  cases held.symm.trans same
  exact idle session gone

/-- The session of the first connection is made and known to the Server and the Receiver. -/
def firstSession : { s : Threads // Run (Guarded ErasesIdle Step) firstConnection.1 [
      .switch .Server true, .push .Server, .push .Server, .push .Server, .returns .Server,
      .readEPollEnds .Server, .readMessage .Server, .addEPollEvent .Server, .readMessage .Server,
      .readEPollEnds .Receiver, .readMessage .Receiver, .addEPollEvent .Receiver,
      .readMessage .Receiver] s } :=
  ⟨_, .cons ⟨erasesIdle_of_held rfl nofun, .switch rfl rfl (.serve rfl)⟩ <|
    .cons ⟨trivial, .push rfl (by decide) rfl⟩ <| .cons ⟨trivial, .push rfl (by decide) rfl⟩ <|
    .cons ⟨trivial, .push rfl (by decide) rfl⟩ <| .cons ⟨trivial, .switched rfl⟩ <|
    .cons ⟨trivial, .readEPollEnds rfl⟩ <| .cons ⟨trivial, .popAddEPollEvent rfl rfl⟩ <|
    .cons ⟨trivial, .addEPollEvent rfl⟩ <| .cons ⟨trivial, .popNothing rfl rfl⟩ <|
    .cons ⟨trivial, .readEPollEnds rfl⟩ <| .cons ⟨trivial, .popAddEPollEvent rfl rfl⟩ <|
    .cons ⟨trivial, .addEPollEvent rfl⟩ <| .cons ⟨trivial, .popNothing rfl rfl⟩ .nil⟩

theorem firstSession_run :
    ∃ events, Run (Guarded ErasesIdle Step) {} events firstSession.1 :=
  ⟨_, (firstConnection.2.guard (by simp [ErasesIdle])).append firstSession.2⟩

/-- The session ends when the Sender knows it, too. Then the next connection comes. -/
theorem uses_live_firstSession : ∃ s : Threads, s.live (.ProtocolClient 0) = false ∧
    s.place .Receiver = .dispatch [.Acceptor] ∧ UsesLive s (.dispatch .Receiver) := by
  obtain ⟨events, earlier⟩ := firstSession_run
  have idle : ∃ s : Threads, s.live (.ProtocolClient 0) = false ∧
      s.place .Receiver = .dispatch [.Acceptor] ∧
      Run (Guarded ErasesIdle Step) firstSession.1 [.readMessage .Sender, .addEPollEvent .Sender,
        .close 5 0 true, .epollWait .Server [.ClientManager], .dispatch .Server, .pop .Server,
        .switch .Server true, .connect, .epollWait .Receiver [.Acceptor]] s :=
    ⟨_, rfl, rfl,
      .cons ⟨trivial, .popAddEPollEvent rfl rfl⟩ <| .cons ⟨trivial, .addEPollEvent rfl⟩ <|
      .cons ⟨trivial, .close rfl (by decide)⟩ <|
      .cons ⟨trivial, .epollWait rfl (by decide) (by decide) (by decide)⟩ <|
      .cons ⟨trivial, .dispatch rfl⟩ <| .cons ⟨trivial, .pop rfl (.pop rfl rfl)⟩ <|
      .cons ⟨erasesIdle_of_held rfl fun _ gone => Option.some.inj gone ▸ idle_of_nil
        (fun thread => by cases thread <;> rfl) (fun thread => by cases thread <;> rfl)
        (fun thread => by cases thread <;> rfl), .switch rfl rfl (.serve rfl)⟩ <|
      .cons ⟨trivial, .connect⟩ <|
      .cons ⟨trivial, .epollWait rfl (by decide) (by decide) (by decide)⟩ .nil⟩
  obtain ⟨s, gone, waits, later⟩ := idle
  exact ⟨s, gone, waits, uses_live (earlier.append later) _⟩

/-- The command `close` and a packet of the client come in one batch of the Server: `recv()` is
called for a session that the event before destroyed. -/
theorem uses_erased : ¬ ∀ (events : List Event) (s : Threads) (event : Event),
    Run Step {} events s → UsesLive s event := by
  intro uses
  obtain ⟨events, earlier⟩ := firstSession_run
  have batch : ∃ s : Threads, s.live (.ProtocolClient 0) = false ∧
      s.place .Server = .dispatch [.ProtocolClient 0] ∧
      Run Step firstSession.1 [.close 5 0 true, .ready .Receiver 0,
        .epollWait .Receiver [.ClientBuffer 0], .dispatch .Receiver, .post .Receiver 0,
        .epollWait .Server [.ClientManager, .ProtocolClient 0], .dispatch .Server, .pop .Server,
        .switch .Server true, .returns .Server] s :=
    ⟨_, rfl, rfl,
      .cons (.close rfl (by decide)) <| .cons (.ready (by decide) rfl) <|
      .cons (.epollWait rfl (by decide) (by decide) (by decide)) <| .cons (.dispatch rfl) <|
      .cons (.post rfl rfl) <| .cons (.epollWait rfl (by decide) (by decide) (by decide)) <|
      .cons (.dispatch rfl) <| .cons (.pop rfl (.pop rfl rfl)) <|
      .cons (.switch rfl rfl (.serve rfl)) <| .cons (.switched rfl) .nil⟩
  obtain ⟨s, gone, next, later⟩ := batch
  have live := uses _ s (.dispatch .Server) (earlier.of_guarded.append later) _ _ next
  rw [gone] at live
  cases live

end Threads

end Locus
