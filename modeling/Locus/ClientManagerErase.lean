import Locus.ClientManager

set_option autoImplicit false

/- Whom `EraseClient` messages meet: the connections on their way into the map are behind all
of them. -/
namespace Locus.ClientManager

open Transition Program

theorem wanted_of_erase {msg : Message} (erase : msg.type = .EraseClient) : wanted msg = none := by
  rw [wanted, erase]
  rfl

/-- The descriptors of the sessions and those on their way into the map are open and apart. -/
structure Reserved (m : ClientManager) : Prop where
  mapped : ∀ fileDescriptor session, m.clientsMap fileDescriptor = some session →
    m.descriptors fileDescriptor = some .connection
  expected : ∀ fileDescriptor ∈ m.expected,
    m.descriptors fileDescriptor = some .connection ∧ m.clientsMap fileDescriptor = none
  distinct : m.expected.Nodup

theorem reserved_start : Reserved {} := by
  refine ⟨?_, ?_, List.nodup_nil⟩
  · intro fileDescriptor session mapped
    cases mapped
  · intro fileDescriptor member
    cases member

theorem Sound.reserved {m : ClientManager} (sound : Sound m) : Reserved m :=
  ⟨sound.mapped, sound.expected, sound.distinct⟩

section Reserved

variable {m : ClientManager} {fileDescriptor : Int}

/-- Closing a descriptor that is neither mapped nor expected concerns nobody. -/
theorem Reserved.closed {after : ClientManager} (reserved : Reserved m)
    (expected : ∀ other ∈ after.expected, other ∈ m.expected ∧ other ≠ fileDescriptor)
    (distinct : after.expected.Nodup) (unmapped : m.clientsMap fileDescriptor = none)
    (map : after.clientsMap = m.clientsMap)
    (descriptors : after.descriptors = m.descriptors.erase fileDescriptor) : Reserved after := by
  refine ⟨?_, ?_, distinct⟩
  · intro other session mapped
    rw [map] at mapped
    have apart : other ≠ fileDescriptor := by
      rintro rfl
      rw [unmapped] at mapped
      cases mapped
    rw [descriptors, KeyMap.erase_of_ne _ apart]
    exact reserved.mapped other session mapped
  · intro other member
    obtain ⟨earlier, apart⟩ := expected other member
    rw [descriptors, map, KeyMap.erase_of_ne _ apart]
    exact reserved.expected other earlier

theorem reserved_accept (reserved : Reserved m) (idle : m.inFd = none)
    (closed : m.descriptors fileDescriptor = none) :
    Reserved { m with
      inFd := some fileDescriptor
      descriptors := m.descriptors.insert fileDescriptor .connection } := by
  have grown : expected { m with
      inFd := some fileDescriptor
      descriptors := m.descriptors.insert fileDescriptor .connection } =
        fileDescriptor :: m.expected := by
    simp [expected, idle]
  have new : fileDescriptor ∉ m.expected := by
    intro member
    have opened := (reserved.expected fileDescriptor member).1
    rw [closed] at opened
    cases opened
  have unmapped : m.clientsMap fileDescriptor = none := by
    cases mapped : m.clientsMap fileDescriptor with
    | none => rfl
    | some session =>
        have opened := reserved.mapped fileDescriptor session mapped
        rw [closed] at opened
        cases opened
  refine ⟨?_, ?_, ?_⟩
  · intro other session mapped
    exact KeyMap.insert_of_some _ _ (reserved.mapped other session mapped)
  · intro other member
    rw [grown] at member
    rcases List.mem_cons.mp member with rfl | earlier
    · refine ⟨(KeyMap.insert_self _ _ _).trans ?_, unmapped⟩
      rw [closed]
      rfl
    · obtain ⟨opened, absent⟩ := reserved.expected other earlier
      exact ⟨KeyMap.insert_of_some _ _ opened, absent⟩
  · rw [grown]
    exact List.nodup_cons.mpr ⟨new, reserved.distinct⟩

/-- The descriptor that the Acceptor closes again is not mapped, nor expected any more. -/
theorem refused_apart (reserved : Reserved m) (held : m.inFd = some fileDescriptor) :
    m.clientsMap fileDescriptor = none ∧
      (expected { m.closeDescriptor fileDescriptor with inFd := none }).Nodup ∧
      ∀ other ∈ expected { m.closeDescriptor fileDescriptor with inFd := none },
        other ∈ m.expected ∧ other ≠ fileDescriptor := by
  have split : m.expected = fileDescriptor ::
      expected { m.closeDescriptor fileDescriptor with inFd := none } := by
    simp [expected, held, closeDescriptor]
  have distinct := reserved.distinct
  rw [split] at distinct
  obtain ⟨once, rest⟩ := List.nodup_cons.mp distinct
  refine ⟨(reserved.expected fileDescriptor (by rw [split]; simp)).2, rest, ?_⟩
  intro other member
  refine ⟨by rw [split]; exact List.mem_cons_of_mem _ member, ?_⟩
  rintro rfl
  exact once member

theorem expected_push (m : ClientManager) (written : Bool) (inFd : Option Int) (msg : Message) :
    (expected { m with
        inFd
        blockingQueue := finalState (BlockingQueue.push written msg m.blockingQueue) }).Perm
      (inFd.toList ++ (wanted msg).toList ++
        (m.msg.toList ++ m.blockingQueue.queue).filterMap wanted) := by
  have queue := (BlockingQueue.push_state written msg m.blockingQueue).1
  have last : [msg].filterMap wanted = (wanted msg).toList := by
    cases wants : wanted msg <;> simp [wants]
  simp only [expected, queue]
  rw [← List.append_assoc m.msg.toList, List.filterMap_append, last, List.append_assoc]
  exact List.perm_append_comm.append_left _

theorem expected_priorityPush (m : ClientManager) (written : Bool) (address : Nat)
    (msg : Message) :
    expected { m with
      blockingQueue :=
        finalState (BlockingQueue.priorityPush written address msg m.blockingQueue) } =
        m.expected := by
  simp only [expected, (BlockingQueue.priorityPush_state written address msg m.blockingQueue).1]

/-- A connection that is announced was expected before. -/
theorem reserved_push {msg : Message} (reserved : Reserved m) (written : Bool)
    (inFd : Option Int)
    (same : (inFd.toList ++ (wanted msg).toList).Perm m.inFd.toList) :
    Reserved { m with
      inFd
      blockingQueue := finalState (BlockingQueue.push written msg m.blockingQueue) } := by
  have perm := (expected_push m written inFd msg).trans (same.append_right _)
  refine ⟨reserved.mapped, ?_, perm.nodup_iff.mpr reserved.distinct⟩
  intro other member
  exact reserved.expected other (perm.mem_iff.mp member)

theorem reserved_priorityPush (reserved : Reserved m) (written : Bool) (address : Nat)
    (msg : Message) :
    Reserved { m with
      blockingQueue :=
        finalState (BlockingQueue.priorityPush written address msg m.blockingQueue) } := by
  have same := expected_priorityPush m written address msg
  refine ⟨reserved.mapped, ?_, ?_⟩
  · rw [same]
    exact reserved.expected
  · rw [same]
    exact reserved.distinct

theorem reserved_pop {msg : Message} {queue : BlockingQueue Message} (reserved : Reserved m)
    (idle : m.msg = none) (erasing : ∀ node ∈ m.blockingQueue.priority, wanted node.2 = none)
    (popped : m.blockingQueue.Popped msg queue) :
    Reserved { m with msg := some msg, blockingQueue := queue } := by
  have same : expected { m with msg := some msg, blockingQueue := queue } = m.expected := by
    rcases popped with ⟨address, priority, rest⟩ | ⟨drained, still, rest⟩
    · have unwanted := erasing (address, msg) (by rw [priority]; simp)
      simp [expected, idle, rest, unwanted]
    · simp [expected, idle, rest]
  refine ⟨reserved.mapped, ?_, ?_⟩
  · rw [same]
    exact reserved.expected
  · rw [same]
    exact reserved.distinct

/-- A message that has been popped may get lost. -/
theorem Reserved.lost (reserved : Reserved m) :
    Reserved ({ m with msg := none } : ClientManager) := by
  have fewer : ({ m with msg := none } : ClientManager).expected.Sublist m.expected := by
    refine List.Sublist.append_left ?_ _
    apply List.Sublist.filterMap _
    exact List.sublist_append_right _ _
  refine ⟨reserved.mapped, ?_, fewer.nodup reserved.distinct⟩
  exact fun other member => reserved.expected other (fewer.subset member)

/-- `addClient` finds the map without its descriptor, which no other connection has. -/
theorem wanted_apart (reserved : Reserved m) {msg : Message} (held : m.msg = some msg)
    (wants : wanted msg = some fileDescriptor) :
    m.descriptors fileDescriptor = some .connection ∧ m.clientsMap fileDescriptor = none ∧
      (expected ({ m with msg := none } : ClientManager)).Nodup ∧
      ∀ other ∈ expected ({ m with msg := none } : ClientManager),
        other ∈ m.expected ∧ other ≠ fileDescriptor := by
  have split : m.expected.Perm (fileDescriptor ::
      expected ({ m with msg := none } : ClientManager)) := by
    simp [expected, held, wants]
  have distinct := split.nodup_iff.mp reserved.distinct
  obtain ⟨once, rest⟩ := List.nodup_cons.mp distinct
  obtain ⟨opened, unmapped⟩ :=
    reserved.expected fileDescriptor (split.mem_iff.mpr List.mem_cons_self)
  refine ⟨opened, unmapped, rest, ?_⟩
  intro other member
  refine ⟨split.mem_iff.mpr (List.mem_cons_of_mem _ member), ?_⟩
  rintro rfl
  exact once member

theorem reserved_addClient {msg : Message} (reserved : Reserved m) (held : m.msg = some msg)
    (wants : wanted msg = some fileDescriptor) (made : Bool) :
    Reserved { m.addClient fileDescriptor made with msg := none } := by
  obtain ⟨opened, unmapped, rest, later⟩ := wanted_apart reserved held wants
  unfold addClient
  cases made with
  | false => exact reserved.closed later rest unmapped rfl rfl
  | true =>
      simp only [unmapped, if_true]
      refine ⟨?_, ?_, rest⟩
      · intro other session mapped
        rcases KeyMap.insert_eq_some unmapped mapped with ⟨rfl, _⟩ | ⟨_, old⟩
        · exact opened
        · exact reserved.mapped other session old
      · intro other member
        obtain ⟨earlier, apart⟩ := later other member
        obtain ⟨stillOpen, absent⟩ := reserved.expected other earlier
        exact ⟨stillOpen, (KeyMap.insert_of_ne _ _ apart).trans absent⟩

theorem reserved_eraseClient (reserved : Reserved m) :
    Reserved { m.eraseClient fileDescriptor with msg := none } := by
  unfold eraseClient
  cases mapped : m.clientsMap fileDescriptor with
  | none => exact reserved.lost
  | some session =>
      have silent := reserved.lost
      refine ⟨?_, ?_, silent.distinct⟩
      · intro other found there
        obtain ⟨apart, old⟩ := KeyMap.erase_eq_some there
        exact (KeyMap.erase_of_ne _ apart).trans (reserved.mapped other found old)
      · intro other member
        obtain ⟨opened, absent⟩ := silent.expected other member
        have apart : other ≠ fileDescriptor := by
          rintro rfl
          have absent : m.clientsMap other = none := absent
          rw [mapped] at absent
          cases absent
        exact ⟨(KeyMap.erase_of_ne _ apart).trans opened,
          (KeyMap.erase_of_ne _ apart).trans absent⟩

theorem reserved_serve {msg : Message} (reserved : Reserved m) (held : m.msg = some msg)
    (made : Bool) : Reserved { m.serve msg made with msg := none } := by
  unfold serve
  split
  · rename_i type names
    exact reserved_addClient reserved held (by rw [wanted, if_pos type, names]) made
  · exact reserved_eraseClient reserved
  · exact reserved.lost

/-- A descriptor that is used for something else is neither mapped nor expected. -/
theorem Reserved.apart (reserved : Reserved m)
    (other : m.descriptors fileDescriptor ≠ some .connection) :
    m.clientsMap fileDescriptor = none ∧ fileDescriptor ∉ m.expected := by
  refine ⟨?_, fun member => other (reserved.expected fileDescriptor member).1⟩
  cases mapped : m.clientsMap fileDescriptor with
  | none => rfl
  | some session => exact absurd (reserved.mapped fileDescriptor session mapped) other

end Reserved

/-- What is pushed with priority asks for no session, whoever pushed it. -/
theorem reserved_step {before after : ClientManager} {event : Event} (reserved : Reserved before)
    (erasing : ∀ node ∈ before.blockingQueue.priority, wanted node.2 = none)
    (step : Step before event after) : Reserved after := by
  cases step with
  | accept idle closed => exact reserved_accept reserved idle closed
  | refuse held =>
      obtain ⟨unmapped, distinct, expected⟩ := refused_apart reserved held
      exact reserved.closed expected distinct unmapped rfl rfl
  | @announce fileDescriptor written held room =>
      apply reserved_push reserved _ none
      rw [held]
      exact List.Perm.refl _
  | closeConnection => exact reserved_priorityPush reserved _ _ _
  | pop idle popped =>
      exact reserved_pop reserved idle erasing (BlockingQueue.popped_of_popFor popped)
  | popNothing idle empty =>
      rw [BlockingQueue.eq_of_popFor empty]
      exact reserved
  | @popFails what queue idle failed =>
      obtain ⟨msg, popped⟩ := BlockingQueue.popped_of_failed failed
      have lost := (reserved_pop reserved idle erasing popped).lost
      rw [← idle] at lost
      exact lost
  | serve held => exact reserved_serve reserved held _
  | @post type written plain room =>
      apply reserved_push reserved _ before.inFd
      have unwanted : wanted { type } = none := by rw [wanted, if_neg plain.1]
      rw [unwanted, Option.toList_none, List.append_nil]
  | openOther closed =>
      refine ⟨?_, ?_, reserved.distinct⟩
      · exact fun other session mapped =>
          KeyMap.insert_of_some _ _ (reserved.mapped other session mapped)
      · intro other member
        obtain ⟨opened, absent⟩ := reserved.expected other member
        exact ⟨KeyMap.insert_of_some _ _ opened, absent⟩
  | @closeOther fileDescriptor opened =>
      obtain ⟨unmapped, unexpected⟩ := reserved.apart (by rw [opened]; decide)
      refine reserved.closed ?_ reserved.distinct unmapped rfl rfl
      intro other member
      refine ⟨member, ?_⟩
      rintro rfl
      exact unexpected member

section Sound

variable {m : ClientManager} {fileDescriptor : Int}

theorem Sound.unwanted (sound : Sound m) :
    ∀ node ∈ m.blockingQueue.priority, wanted node.2 = none :=
  fun node member => wanted_of_erase (sound.erasing node member).1

/-- Nothing is done to the messages, and to the map. -/
theorem Sound.of_reserved {after : ClientManager} (sound : Sound m) (reserved : Reserved after)
    (map : after.clientsMap = m.clientsMap) (queue : after.blockingQueue = m.blockingQueue)
    (msg : after.msg = m.msg ∨ after.msg = none) : Sound after := by
  have owned : ∀ msg, m.Owned msg → after.Owned msg := by
    intro msg own
    rw [Owned, map]
    exact own
  refine ⟨reserved.mapped, reserved.expected, reserved.distinct, ?_, ?_, ?_, ?_⟩
  · rw [queue]
    exact sound.queued
  · rw [queue]
    exact fun node member => owned _ (sound.erasing node member)
  · intro held here erase
    rcases msg with same | nothing
    · exact owned held (sound.held held (same ▸ here) erase)
    · rw [nothing] at here
      cases here
  · intro held wantedFd here wants
    rw [queue]
    rcases msg with same | nothing
    · exact sound.alone held wantedFd (same ▸ here) wants
    · rw [nothing] at here
      cases here

/-- Messages that end no session may be pushed at any time. -/
theorem sound_push {msg : Message} {written : Bool} (sound : Sound m)
    (plain : msg.type ≠ .EraseClient) (inFd : Option Int)
    (reserved : Reserved { m with
      inFd
      blockingQueue := finalState (BlockingQueue.push written msg m.blockingQueue) }) :
    Sound { m with
      inFd
      blockingQueue := finalState (BlockingQueue.push written msg m.blockingQueue) } := by
  obtain ⟨queue, priority⟩ := BlockingQueue.push_state written msg m.blockingQueue
  refine ⟨reserved.mapped, reserved.expected, reserved.distinct, ?_, ?_, sound.held, ?_⟩
  · intro other member
    dsimp only at member
    rw [queue] at member
    rcases List.mem_append.mp member with old | new
    · exact sound.queued other old
    · rw [List.mem_singleton.mp new]
      exact plain
  · dsimp only
    rw [priority]
    exact sound.erasing
  · dsimp only
    rw [priority]
    exact sound.alone

theorem sound_closeConnection {session address : Nat} {written : Bool} (sound : Sound m)
    (alive : m.clientsMap fileDescriptor = some session) :
    Sound { m with
      blockingQueue := finalState (BlockingQueue.priorityPush written address
        { type := .EraseClient
          fileDescriptor := some fileDescriptor
          sender := some session } m.blockingQueue) } := by
  obtain ⟨queue, priority⟩ := BlockingQueue.priorityPush_state written address
    { type := .EraseClient, fileDescriptor := some fileDescriptor, sender := some session }
    m.blockingQueue
  have reserved := reserved_priorityPush sound.reserved written address
    { type := .EraseClient, fileDescriptor := some fileDescriptor, sender := some session }
  refine ⟨reserved.mapped, reserved.expected, reserved.distinct, ?_, ?_, sound.held, ?_⟩
  · dsimp only
    rw [queue]
    exact sound.queued
  · intro node member
    dsimp only at member
    rw [priority] at member
    rcases BlockingQueue.mem_insertNode.mp member with rfl | old
    · refine ⟨rfl, fileDescriptor, session, rfl, rfl, ?_⟩
      intro other mapped
      exact Option.some.inj (mapped.symm.trans alive)
    · exact sound.erasing node old
  · intro msg wantedFd held wants node member
    dsimp only at member
    rw [priority] at member
    rcases BlockingQueue.mem_insertNode.mp member with rfl | old
    · rintro ⟨⟩
      -- the session that is being made has no predecessor left at its descriptor
      rw [(wanted_apart sound.reserved held wants).2.1] at alive
      cases alive
    · exact sound.alone msg wantedFd held wants node old

theorem sound_pop {msg : Message} {queue : BlockingQueue Message} (sound : Sound m)
    (idle : m.msg = none) (popped : m.blockingQueue.Popped msg queue) :
    Sound { m with msg := some msg, blockingQueue := queue } := by
  have reserved := reserved_pop sound.reserved idle sound.unwanted popped
  rcases popped with ⟨address, priority, rest⟩ | ⟨drained, still, rest⟩
  · have owned : m.Owned msg := sound.erasing (address, msg) (by rw [priority]; simp)
    have unwanted := wanted_of_erase owned.1
    have fewer : ∀ node ∈ queue.priority, node ∈ m.blockingQueue.priority := by
      intro node member
      rw [priority]
      exact List.mem_cons_of_mem _ member
    refine ⟨reserved.mapped, reserved.expected, reserved.distinct, ?_, ?_, ?_, ?_⟩
    · dsimp only
      rw [rest]
      exact sound.queued
    · exact fun node member => sound.erasing node (fewer node member)
    · rintro _ ⟨⟩ _
      exact owned
    · rintro _ wantedFd ⟨⟩ wants
      rw [unwanted] at wants
      cases wants
  · refine ⟨reserved.mapped, reserved.expected, reserved.distinct, ?_, ?_, ?_, ?_⟩
    · intro other member
      exact sound.queued other (by rw [rest]; exact List.mem_cons_of_mem _ member)
    · dsimp only
      rw [still]
      simp
    · rintro _ ⟨⟩ erase
      exact absurd erase (sound.queued msg (by rw [rest]; simp))
    · dsimp only
      rw [still]
      simp

theorem Sound.lost (sound : Sound m) : Sound ({ m with msg := none } : ClientManager) :=
  sound.of_reserved sound.reserved.lost rfl rfl (.inr rfl)

/-- The new session finds nobody in its way. -/
theorem sound_addClient {msg : Message} (sound : Sound m) (held : m.msg = some msg)
    (wants : wanted msg = some fileDescriptor) (made : Bool) :
    Sound { m.addClient fileDescriptor made with msg := none } := by
  have reserved := reserved_addClient sound.reserved held wants made
  have unmapped := (wanted_apart sound.reserved held wants).2.1
  unfold addClient at reserved ⊢
  cases made with
  | false => exact sound.of_reserved reserved rfl rfl (.inr rfl)
  | true =>
      simp only [unmapped, if_true] at reserved ⊢
      refine ⟨reserved.mapped, reserved.expected, reserved.distinct, sound.queued, ?_, ?_, ?_⟩
      · intro node member
        obtain ⟨erase, target, session, names, sender, own⟩ := sound.erasing node member
        refine ⟨erase, target, session, names, sender, ?_⟩
        intro other mapped
        have apart : target ≠ fileDescriptor := by
          rintro rfl
          exact sound.alone msg target held wants node member names
        exact own other ((KeyMap.insert_of_ne _ _ apart).symm.trans mapped)
      · rintro _ ⟨⟩
      · rintro _ _ ⟨⟩

/-- `eraseClient` leaves the messages of all others as they were. -/
theorem sound_eraseClient (sound : Sound m) :
    Sound { m.eraseClient fileDescriptor with msg := none } := by
  have reserved : Reserved { m.eraseClient fileDescriptor with msg := none } :=
    reserved_eraseClient sound.reserved
  unfold eraseClient at reserved ⊢
  cases mapped : m.clientsMap fileDescriptor with
  | none => exact sound.lost
  | some session =>
      simp only [mapped] at reserved
      have fewer : ∀ {other found}, m.clientsMap.erase fileDescriptor other = some found →
          m.clientsMap other = some found := fun there => (KeyMap.erase_eq_some there).2
      refine ⟨reserved.mapped, reserved.expected, reserved.distinct, sound.queued, ?_, ?_, ?_⟩
      · intro node member
        obtain ⟨erase, target, pusher, names, sender, own⟩ := sound.erasing node member
        exact ⟨erase, target, pusher, names, sender, fun other there => own other (fewer there)⟩
      · rintro _ ⟨⟩
      · rintro _ _ ⟨⟩

theorem sound_serve {msg : Message} (sound : Sound m) (held : m.msg = some msg) (made : Bool) :
    Sound { m.serve msg made with msg := none } := by
  unfold serve
  split
  · rename_i type names
    exact sound_addClient sound held (by rw [wanted, if_pos type, names]) made
  · exact sound_eraseClient sound
  · exact sound.lost

end Sound

theorem sound_step {before after : ClientManager} {event : Event} (sound : Sound before)
    (step : Step before event after) : Sound after := by
  have reserved := reserved_step sound.reserved sound.unwanted step
  cases step with
  | accept idle closed => exact sound.of_reserved reserved rfl rfl (.inl rfl)
  | refuse held => exact sound.of_reserved reserved rfl rfl (.inl rfl)
  | announce held room => exact sound_push sound (by simp) none reserved
  | closeConnection alive fresh => exact sound_closeConnection sound alive
  | pop idle popped => exact sound_pop sound idle (BlockingQueue.popped_of_popFor popped)
  | popNothing idle empty =>
      rw [BlockingQueue.eq_of_popFor empty]
      exact sound
  | @popFails what queue idle failed =>
      obtain ⟨msg, popped⟩ := BlockingQueue.popped_of_failed failed
      have lost := (sound_pop sound idle popped).lost
      rw [← idle] at lost
      exact lost
  | serve held => exact sound_serve sound held _
  | post plain room => exact sound_push sound plain.2 before.inFd reserved
  | openOther closed => exact sound.of_reserved reserved rfl rfl (.inl rfl)
  | closeOther opened => exact sound.of_reserved reserved rfl rfl (.inl rfl)

/-- Only `eraseClient` takes sessions out of the map, and it meets the one that asked. -/
theorem erasesOwn_step {before after : ClientManager} {event : Event} (sound : Sound before)
    (step : Step before event after) : ErasesOwn before event after := by
  have unchanged : after.clientsMap = before.clientsMap → (∀ made, event ≠ .serve made) →
      ErasesOwn before event after := by
    intro same other
    refine ⟨?_, fun made _ _ here => absurd here (other made)⟩
    intro fileDescriptor session mapped gone
    rw [same] at gone
    exact absurd mapped gone
  cases step with
  | accept | refuse | announce | closeConnection | pop | popNothing | popFails | post | openOther
  | closeOther => exact unchanged rfl (by simp)
  | @serve msg made held =>
      constructor
      · intro fileDescriptor session mapped gone
        refine ⟨msg, made, rfl, held, ?_⟩
        change (before.serve msg made).clientsMap fileDescriptor ≠ some session at gone
        unfold serve at gone
        split at gone
        · unfold addClient at gone
          split at gone
          · split at gone
            · exact absurd (KeyMap.insert_of_some _ _ mapped) gone
            · exact absurd mapped gone
          · exact absurd mapped gone
        · rename_i target type names
          refine ⟨type, ?_⟩
          obtain ⟨_, named, pusher, same, sender, own⟩ := sound.held msg held type
          rw [names] at same
          cases same
          unfold eraseClient at gone
          split at gone
          · exact absurd mapped gone
          · by_cases here : fileDescriptor = target
            · subst here
              rw [sender, own session mapped]
            · exact absurd ((KeyMap.erase_of_ne _ here).trans mapped) gone
        · exact absurd mapped gone
      · rintro _ other fileDescriptor ⟨⟩ here type names
        cases held.symm.trans here
        exact (wanted_apart sound.reserved held (by rw [wanted, if_pos type, names])).2.1

/-- Whatever the order in which connections are accepted, sessions close and messages are
served, each session ends by its own message, and each connection finds its place free. -/
theorem erases_own (events : List Event) : Always Step {} ErasesOwn events := by
  intro earlier event later before after _ prior step
  refine erasesOwn_step (prior.invariant Sound ?_ ?_) step
  · exact ⟨by simp, by simp [expected], by simp [expected], by simp, by simp, by simp, by simp⟩
  · exact fun _ _ _ sound step => sound_step sound step

end Locus.ClientManager
