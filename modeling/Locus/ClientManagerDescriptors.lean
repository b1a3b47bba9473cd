import Locus.ClientManagerErase

set_option autoImplicit false

/- Which connections are open: each belongs to a session or is on its way to one, but for those
whose message a failed pop has lost. -/
namespace Locus.ClientManager

open Transition Program

/-- A session has the connection, or it is on its way to one. -/
def Held (m : ClientManager) (fileDescriptor : Int) : Prop :=
  (∃ session, m.clientsMap fileDescriptor = some session) ∨ fileDescriptor ∈ m.expected

/-- A connection that is open, and that nobody knows of. -/
def Orphan (m : ClientManager) (fileDescriptor : Int) : Prop :=
  m.descriptors fileDescriptor = some .connection ∧ ¬ m.Held fileDescriptor

/-- A pop took the message that announced the connection, and did not return it. -/
def Lost (events : List Event) (finish : ClientManager) (fileDescriptor : Int) : Prop :=
  ∃ earlier later before after, events = earlier ++ .pop :: later ∧
    Run Step {} earlier before ∧ Step before .pop after ∧ Run Step after later finish ∧
    fileDescriptor ∈ before.expected ∧ fileDescriptor ∉ after.expected

section Steps

variable {m before after : ClientManager} {event : Event} {fileDescriptor : Int}

/-- A connection that a session has, or that is on its way, is open. -/
theorem Reserved.opened (reserved : Reserved m) (held : m.Held fileDescriptor) :
    m.descriptors fileDescriptor = some .connection := by
  rcases held with ⟨session, mapped⟩ | waits
  · exact reserved.mapped fileDescriptor session mapped
  · exact (reserved.expected fileDescriptor waits).1

theorem expected_accept (accepted : Int) (idle : m.inFd = none) :
    expected { m with
      inFd := some accepted
      descriptors := m.descriptors.insert accepted .connection } = accepted :: m.expected := by
  simp [expected, idle]

theorem expected_popped {msg : Message} {queue : BlockingQueue Message} (idle : m.msg = none)
    (unwanted : ∀ node ∈ m.blockingQueue.priority, wanted node.2 = none)
    (popped : m.blockingQueue.Popped msg queue) :
    expected { m with msg := some msg, blockingQueue := queue } = m.expected := by
  rcases popped with ⟨address, first, rest⟩ | ⟨drained, still, rest⟩
  · have nothing := unwanted (address, msg) (by rw [first]; exact List.mem_cons_self)
    simp [expected, idle, rest, nothing]
  · simp [expected, idle, rest]

/-- A message that asks for no session makes no difference. -/
theorem expected_unwanted {msg : Message} (held : m.msg = some msg) (unwanted : wanted msg = none) :
    expected ({ m with msg := none } : ClientManager) = m.expected := by
  simp [expected, held, unwanted]

/-- Without the message in hand nobody more is expected. -/
theorem mem_expected_of_lost
    (waits : fileDescriptor ∈ expected ({ m with msg := none } : ClientManager)) :
    fileDescriptor ∈ m.expected := by
  rw [expected, List.mem_append] at waits ⊢
  rw [List.filterMap_append, List.mem_append]
  exact waits.imp_right .inr

/-- A connection that was open is held by whoever held it, or by nobody as before. -/
theorem held_or_orphan
    (map : ∀ session, before.clientsMap fileDescriptor = some session →
      after.clientsMap fileDescriptor = some session)
    (expected : fileDescriptor ∈ before.expected → after.Held fileDescriptor)
    (opened : before.descriptors fileDescriptor = some .connection) :
    after.Held fileDescriptor ∨ before.Orphan fileDescriptor := by
  by_cases held : before.Held fileDescriptor
  · rcases held with ⟨session, mapped⟩ | waits
    · exact .inl (.inl ⟨session, map session mapped⟩)
    · exact .inl (expected waits)
  · exact .inr ⟨opened, held⟩

theorem opened_serve (reserved : Reserved m) {msg : Message} {made : Bool}
    (held : m.msg = some msg)
    (opened : (m.serve msg made).descriptors fileDescriptor = some .connection) :
    Held { m.serve msg made with msg := none } fileDescriptor ∨ m.Orphan fileDescriptor := by
  unfold serve at opened ⊢
  split at opened
  · rename_i target type names
    have wants : wanted msg = some target := by rw [wanted, if_pos type, names]
    have unmapped := (wanted_apart reserved held wants).2.1
    have later : fileDescriptor ≠ target → fileDescriptor ∈ m.expected →
        fileDescriptor ∈ expected ({ m with msg := none } : ClientManager) := by
      intro apart waits
      simpa [expected, held, wants, apart] using waits
    unfold addClient at opened ⊢
    cases made with
    | false =>
        obtain ⟨apart, before⟩ := KeyMap.erase_eq_some opened
        exact held_or_orphan (fun _ mapped => mapped) (fun waits => .inr (later apart waits)) before
    | true =>
        simp only [unmapped, if_true] at opened ⊢
        by_cases same : fileDescriptor = target
        · subst same
          exact .inl (.inl ⟨_, KeyMap.insert_self _ _ _⟩)
        · exact held_or_orphan (fun _ mapped => KeyMap.insert_of_some _ _ mapped)
            (fun waits => .inr (later same waits)) opened
  · rename_i target type names
    have still := expected_unwanted held (wanted_of_erase type)
    unfold eraseClient at opened ⊢
    cases mapped : m.clientsMap target with
    | none =>
        simp only [mapped] at opened ⊢
        exact held_or_orphan (fun _ mapped => mapped) (fun waits => .inr (still ▸ waits)) opened
    | some session =>
        simp only [mapped] at opened ⊢
        obtain ⟨apart, before⟩ := KeyMap.erase_eq_some opened
        exact held_or_orphan (fun _ mapped => (KeyMap.erase_of_ne _ apart).trans mapped)
          (fun waits => .inr (still ▸ waits)) before
  · rename_i unnamed _
    have unwanted : wanted msg = none := by
      unfold wanted
      split
      · rename_i type
        cases names : msg.fileDescriptor with
        | none => rfl
        | some target => exact absurd names (unnamed target type)
      · rfl
    have still := expected_unwanted held unwanted
    exact held_or_orphan (fun _ mapped => mapped) (fun waits => .inr (still ▸ waits)) opened

theorem orphan_serve (reserved : Reserved m) (orphan : m.Orphan fileDescriptor) {msg : Message}
    {made : Bool} (held : m.msg = some msg) :
    Orphan { m.serve msg made with msg := none } fileDescriptor := by
  obtain ⟨opened, unknown⟩ := orphan
  have unmapped : ∀ session, m.clientsMap fileDescriptor ≠ some session :=
    fun session mapped => unknown (.inl ⟨session, mapped⟩)
  have unexpected : fileDescriptor ∉ expected ({ m with msg := none } : ClientManager) :=
    fun waits => unknown (.inr (mem_expected_of_lost waits))
  unfold serve
  split
  · rename_i target type names
    have wants : wanted msg = some target := by rw [wanted, if_pos type, names]
    have absent := (wanted_apart reserved held wants).2.1
    have apart : fileDescriptor ≠ target := by
      rintro rfl
      exact unknown (.inr (by simp [expected, held, wants]))
    unfold addClient
    cases made with
    | false =>
        refine ⟨(KeyMap.erase_of_ne _ apart).trans opened, ?_⟩
        rintro (⟨session, mapped⟩ | waits)
        · exact unmapped session mapped
        · exact unexpected waits
    | true =>
        simp only [absent, if_true]
        refine ⟨opened, ?_⟩
        rintro (⟨session, mapped⟩ | waits)
        · exact unmapped session ((KeyMap.insert_of_ne _ _ apart).symm.trans mapped)
        · exact unexpected waits
  · rename_i target type names
    unfold eraseClient
    cases mapped : m.clientsMap target with
    | none =>
        refine ⟨opened, ?_⟩
        rintro (⟨session, there⟩ | waits)
        · exact unmapped session there
        · exact unexpected waits
    | some session =>
        have apart : fileDescriptor ≠ target := by
          rintro rfl
          exact unmapped session mapped
        refine ⟨(KeyMap.erase_of_ne _ apart).trans opened, ?_⟩
        rintro (⟨session, there⟩ | waits)
        · exact unmapped session (KeyMap.erase_eq_some there).2
        · exact unexpected waits
  · refine ⟨opened, ?_⟩
    rintro (⟨session, there⟩ | waits)
    · exact unmapped session there
    · exact unexpected waits

/-- What is open after a step is held, or was an orphan, or the step lost its message. -/
theorem opened_step (reserved : Reserved before)
    (unwanted : ∀ node ∈ before.blockingQueue.priority, wanted node.2 = none)
    (step : Step before event after)
    (opened : after.descriptors fileDescriptor = some .connection) :
    (after.Held fileDescriptor ∨ before.Orphan fileDescriptor) ∨
      event = .pop ∧ fileDescriptor ∈ before.expected ∧ fileDescriptor ∉ after.expected := by
  cases step with
  | @accept accepted idle closed =>
      have grown := expected_accept accepted idle
      rcases KeyMap.insert_eq_some closed opened with ⟨rfl, _⟩ | ⟨_, earlier⟩
      · exact .inl (.inl (.inr (grown ▸ List.mem_cons_self)))
      · refine .inl (held_or_orphan (fun _ mapped => mapped) (fun waits => .inr ?_) earlier)
        exact grown ▸ List.mem_cons_of_mem _ waits
  | @refuse refused held =>
      obtain ⟨apart, earlier⟩ := KeyMap.erase_eq_some opened
      refine .inl (held_or_orphan (fun _ mapped => mapped) (fun waits => .inr ?_) earlier)
      simpa [expected, closeDescriptor, held, apart] using waits
  | @announce announced written held room =>
      refine .inl (held_or_orphan (fun _ mapped => mapped) (fun waits => .inr ?_) opened)
      rw [(expected_push before _ none _).mem_iff]
      rw [expected, held] at waits
      exact waits
  | closeConnection alive fresh =>
      refine .inl (held_or_orphan (fun _ mapped => mapped) (fun waits => .inr ?_) opened)
      rw [expected_priorityPush]
      exact waits
  | pop idle popped =>
      refine .inl (held_or_orphan (fun _ mapped => mapped) (fun waits => .inr ?_) opened)
      rw [expected_popped idle unwanted (BlockingQueue.popped_of_popFor popped)]
      exact waits
  | popNothing idle empty =>
      rw [BlockingQueue.eq_of_popFor empty] at opened ⊢
      exact .inl (held_or_orphan (fun _ mapped => mapped) .inr opened)
  | @popFails what queue idle failed =>
      by_cases lost : fileDescriptor ∈ before.expected ∧
          fileDescriptor ∉ expected { before with blockingQueue := queue }
      · exact .inr ⟨rfl, lost⟩
      · exact .inl (held_or_orphan (fun _ mapped => mapped)
          (fun waits => .inr (by_contra fun gone => lost ⟨waits, gone⟩)) opened)
  | serve held => exact .inl (opened_serve reserved held opened)
  | @post type written plain room =>
      refine .inl (held_or_orphan (fun _ mapped => mapped) (fun waits => .inr ?_) opened)
      rw [(expected_push before _ before.inFd _).mem_iff, List.append_assoc]
      have nothing : wanted { type } = none := by rw [wanted, if_neg plain.1]
      rw [nothing]
      exact waits
  | @openOther other closed =>
      rcases KeyMap.insert_eq_some closed opened with ⟨_, impossible⟩ | ⟨_, earlier⟩
      · cases impossible
      · exact .inl (held_or_orphan (fun _ mapped => mapped) .inr earlier)
  | @closeOther other _ =>
      obtain ⟨_, earlier⟩ := KeyMap.erase_eq_some opened
      exact .inl (held_or_orphan (fun _ mapped => mapped) .inr earlier)

theorem orphan_of_lost (reserved : Reserved before) (step : Step before .pop after)
    (waits : fileDescriptor ∈ before.expected) (gone : fileDescriptor ∉ after.expected) :
    after.Orphan fileDescriptor := by
  obtain ⟨opened, unmapped⟩ := reserved.expected fileDescriptor waits
  have unknown : after.clientsMap = before.clientsMap → ¬ after.Held fileDescriptor := by
    rintro same (⟨session, mapped⟩ | expected)
    · rw [same, unmapped] at mapped
      cases mapped
    · exact gone expected
  cases step with
  | pop | popNothing | popFails => exact ⟨opened, unknown rfl⟩

/-- A descriptor that nobody knows of is not closed, and nobody gets to know of it. -/
theorem orphan_step (reserved : Reserved before)
    (unwanted : ∀ node ∈ before.blockingQueue.priority, wanted node.2 = none)
    (orphan : before.Orphan fileDescriptor) (step : Step before event after) :
    after.Orphan fileDescriptor := by
  obtain ⟨opened, unknown⟩ := orphan
  have unmapped : ∀ session, before.clientsMap fileDescriptor ≠ some session :=
    fun session mapped => unknown (.inl ⟨session, mapped⟩)
  have unexpected : fileDescriptor ∉ before.expected := fun waits => unknown (.inr waits)
  cases step with
  | @accept accepted idle closed =>
      have apart : fileDescriptor ≠ accepted := by
        rintro rfl
        rw [closed] at opened
        cases opened
      refine ⟨KeyMap.insert_of_some _ _ opened, ?_⟩
      rintro (⟨session, mapped⟩ | waits)
      · exact unmapped session mapped
      · rw [expected_accept accepted idle] at waits
        rcases List.mem_cons.mp waits with same | earlier
        · exact apart same
        · exact unexpected earlier
  | @refuse refused held =>
      have apart : fileDescriptor ≠ refused := by
        rintro rfl
        exact unexpected (by simp [expected, held])
      refine ⟨(KeyMap.erase_of_ne _ apart).trans opened, ?_⟩
      rintro (⟨session, mapped⟩ | waits)
      · exact unmapped session mapped
      · exact unexpected ((refused_apart reserved held).2.2 fileDescriptor waits).1
  | @announce announced written held room =>
      refine ⟨opened, ?_⟩
      rintro (⟨session, mapped⟩ | waits)
      · exact unmapped session mapped
      · rw [(expected_push before _ none _).mem_iff] at waits
        apply unexpected
        rw [expected, held]
        exact waits
  | closeConnection alive fresh =>
      refine ⟨opened, ?_⟩
      rintro (⟨session, mapped⟩ | waits)
      · exact unmapped session mapped
      · rw [expected_priorityPush] at waits
        exact unexpected waits
  | pop idle popped =>
      refine ⟨opened, ?_⟩
      rintro (⟨session, mapped⟩ | waits)
      · exact unmapped session mapped
      · rw [expected_popped idle unwanted (BlockingQueue.popped_of_popFor popped)] at waits
        exact unexpected waits
  | popNothing idle empty =>
      rw [BlockingQueue.eq_of_popFor empty]
      exact ⟨opened, unknown⟩
  | @popFails what queue idle failed =>
      obtain ⟨msg, popped⟩ := BlockingQueue.popped_of_failed failed
      refine ⟨opened, ?_⟩
      rintro (⟨session, mapped⟩ | waits)
      · exact unmapped session mapped
      · apply unexpected
        rw [idle] at waits
        rw [← expected_popped idle unwanted popped]
        exact mem_expected_of_lost waits
  | serve held => exact orphan_serve reserved ⟨opened, unknown⟩ held
  | @post type written plain room =>
      refine ⟨opened, ?_⟩
      rintro (⟨session, mapped⟩ | waits)
      · exact unmapped session mapped
      · rw [(expected_push before _ before.inFd _).mem_iff, List.append_assoc] at waits
        have nothing : wanted { type } = none := by rw [wanted, if_neg plain.1]
        rw [nothing] at waits
        exact unexpected waits
  | @openOther other closed => exact ⟨KeyMap.insert_of_some _ _ opened, unknown⟩
  | @closeOther other used =>
      have apart : fileDescriptor ≠ other := by
        rintro rfl
        rw [used] at opened
        cases opened
      exact ⟨(KeyMap.erase_of_ne _ apart).trans opened, unknown⟩

end Steps

/-- In any run, the connections that are open are those that have a session, those on their way to
one, and those that a pop has lost, which stay open for good. -/
theorem open_iff {events : List Event} {finish : ClientManager} (run : Run Step {} events finish)
    (fileDescriptor : Int) :
    finish.descriptors fileDescriptor = some .connection ↔
      finish.Held fileDescriptor ∨ Lost events finish fileDescriptor := by
  have sound : ∀ {some_events m}, Run Step {} some_events m → Sound m := fun prior =>
    prior.invariant Sound
      ⟨by simp, by simp [expected], by simp [expected], by simp, by simp, by simp, by simp⟩
      (fun _ _ _ sound step => sound_step sound step)
  constructor
  · intro opened
    refine run.history_invariant (fun events m =>
      m.descriptors fileDescriptor = some .connection →
        m.Held fileDescriptor ∨ Lost events m fileDescriptor) (by simp) ?_ opened
    intro events before event after prior known step opened
    rcases opened_step (sound prior).reserved (sound prior).unwanted step opened with
      (held | orphan) | ⟨rfl, waits, gone⟩
    · exact .inl held
    · rcases known orphan.1 with held | ⟨earlier, later, _, _, rfl, first, lost, rest, there⟩
      · exact absurd held orphan.2
      · exact .inr ⟨earlier, later ++ [event], _, _, by simp, first, lost, rest.snoc step, there⟩
    · exact .inr ⟨events, [], before, after, rfl, prior, step, .nil, waits, gone⟩
  · rintro (held | ⟨earlier, later, before, after, rfl, prior, step, rest, waits, gone⟩)
    · exact (sound run).reserved.opened held
    · have orphan := orphan_of_lost (sound prior).reserved step waits gone
      refine (rest.invariant (fun m => Sound m ∧ m.Orphan fileDescriptor)
        ⟨sound (prior.snoc step), orphan⟩ ?_).2.1
      rintro m event next ⟨sound, orphan⟩ step
      exact ⟨sound_step sound step, orphan_step sound.reserved sound.unwanted orphan step⟩

/-- Two connections are accepted, and the first of them gets its session. -/
theorem open_iff_first : ∃ finish : ClientManager,
    finish.descriptors 5 = some .connection ∧ finish.descriptors 6 = some .connection ∧
    finish.clientsMap 5 = some 0 ∧ (finish.Held 6 ∨
      Lost [.accept 5, .announce true, .accept 6, .pop, .serve true] finish 6) := by
  have run : Run Step {} [.accept 5, .announce true, .accept 6, .pop, .serve true] _ :=
    .cons (.accept rfl rfl) (.cons (.announce rfl (by decide)) (.cons (.accept rfl rfl)
      (.cons (.pop rfl rfl) (.cons (.serve rfl) .nil))))
  exact ⟨_, rfl, rfl, rfl, (open_iff run 6).mp rfl⟩

end Locus.ClientManager
