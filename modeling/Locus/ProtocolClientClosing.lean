import Locus.ProtocolClientHandshake

set_option autoImplicit false

/- What a session does after it has called `closeConnection`. The call posts a
message to the manager of the clients and leaves the session as it is. -/
namespace Locus.ProtocolClient

open Transition

variable {Key : Type} {lib : CryptoLibrary Key}

/-- Acts that a session must not do once its connection is closed. -/
def isDoing : Act → Bool
  | .stage _ | .sent _ _ _ _ | .called _ _ => true
  | entry => isFrame entry

def ClosedLaw (earlier : List Act) (entry : Act) : Prop := .closed ∈ earlier → ¬ isDoing entry

/-- The event makes the session go on after its close. -/
def Lingers (lib : CryptoLibrary Key) (life : Life Key) : Event → Prop
  | .serve turn =>
      match turn.message with
      | .PacketReceive =>
          (.closed ∈ life.acts ∧ life.client.stage ≠ .Exit ∧ turn.inbound.headD [] ≠ []) ∨
          -- the refused first frame closes the connection, and a second frame is there
          (life.client.stage = .TestKey ∧ turn.inbound.tail.headD [] ≠ [] ∧ ∀ payload,
            ¬ Tests lib life.client.cryptoModule.aesKey (turn.inbound.headD []) payload)
      | .PacketSend => .closed ∈ life.acts ∧ Sendable lib life.client
      | .Update => .closed ∈ life.acts ∧ life.client.stage = .StableCommunication
      | _ => False
  | .erase _ => .closed ∈ life.acts ∧ life.client.id > 0

theorem not_closed_of_input {entry : Act} (input : isInput entry) : entry ≠ .closed := by
  rintro rfl
  cases input

theorem Ordinary.not_closed {id : Int16} {entry : Act} (ordinary : Ordinary id entry) :
    entry ≠ .closed := by
  cases ordinary with
  | input input => exact not_closed_of_input input
  | send plain => simp
  | call speaks => simp

/-- An open session may log anything but its end. -/
theorem closed_append {acts log : List Act} (each : Each ClosedLaw acts)
    (is_open : .closed ∉ acts) (still_open : .closed ∉ log) : Each ClosedLaw (acts ++ log) := by
  refine each_append.mpr ⟨each, .of_forall ?_⟩
  intro earlier before entry _ closed
  rcases List.mem_append.mp closed with here | there
  · exact absurd here is_open
  · exact absurd (before _ there) still_open

theorem closed_ending {acts closing : List Act} (each : Each ClosedLaw acts)
    (ending : closing = [] ∨ closing = [.closed]) : Each ClosedLaw (acts ++ closing) := by
  rcases ending with rfl | rfl
  · rwa [List.append_nil]
  · exact each_snoc.mpr ⟨each, fun _ => by simp [isDoing, isFrame]⟩

/-- A closed session may log what does nothing. -/
theorem closed_append_iff {acts log : List Act} (each : Each ClosedLaw acts)
    (closed : .closed ∈ acts) :
    Each ClosedLaw (acts ++ log) ↔ ∀ entry ∈ log, ¬ isDoing entry := by
  rw [each_append]
  constructor
  · rintro ⟨_, later⟩ entry member
    obtain ⟨earlier, rest, split⟩ := List.append_of_mem member
    exact later earlier entry rest split (List.mem_append_left _ closed)
  · intro still
    exact ⟨each, .of_forall fun _ _ entry member _ => still entry member⟩

theorem not_lawful {acts log : List Act} {entry : Act} (closed : .closed ∈ acts)
    (member : entry ∈ log) (doing : isDoing entry) : ¬ Each ClosedLaw (acts ++ log) := by
  intro each
  exact (closed_append_iff each.of_append closed).mp each entry member doing

theorem isDoing_read (bytes : Bytes) : isDoing (.read bytes) ↔ bytes ≠ [] := decide_eq_true_iff

theorem still_ending {closing : List Act} (ending : closing = [] ∨ closing = [.closed]) :
    ∀ entry ∈ closing, ¬ isDoing entry := by
  rcases ending with rfl | rfl <;> simp [isDoing, isFrame]

/-- What a session takes in is nothing if the read found nothing. -/
theorem still_inputs_iff {log : List Act} {head : Bytes} (inputs : ∀ entry ∈ log, isInput entry)
    (reads : ∀ bytes, .read bytes ∈ log ↔ bytes = head) :
    (∀ entry ∈ log, ¬ isDoing entry) ↔ head = [] := by
  constructor
  · intro still
    have absent := still (.read head) ((reads head).mpr rfl)
    rwa [isDoing_read, not_not] at absent
  · intro absent entry member
    have input := inputs entry member
    cases entry with
    | read bytes =>
        rw [isDoing_read, not_not]
        exact ((reads bytes).mp member).trans absent
    | received type payload | accepted key => simp [isDoing, isFrame]
    | closed | stage stage | sent type algorithm payload frame | called op reply => cases input

theorem Ordinary.doing {id : Int16} {entry : Act} (ordinary : Ordinary id entry)
    (active : ¬ isInput entry) : isDoing entry := by
  cases ordinary with
  | input input => exact absurd input active
  | send plain => rfl
  | call speaks => rfl

section Communicated

variable {before after : Session Key}

theorem Communicated.closing (communicated : Communicated lib before after)
    (each : Each ClosedLaw before.acts) (is_open : .closed ∉ before.acts) :
    Each ClosedLaw after.acts := by
  obtain ⟨log, closing, acts, ordinary, ending, _⟩ := communicated.acts
  rw [acts, ← List.append_assoc]
  refine closed_ending (closed_append each is_open ?_) ending
  intro member
  rcases List.mem_cons.mp member with impossible | inside
  · cases impossible
  · exact (ordinary _ inside).not_closed rfl

/-- After the close, a turn of stable communication does nothing if it finds no frame. -/
theorem Communicated.closing_iff
    (empty : ∀ key plain, lib.aesDecrypt key [] = .ok plain → plain = [])
    (communicated : Communicated lib before after) (each : Each ClosedLaw before.acts)
    (closed : .closed ∈ before.acts) :
    Each ClosedLaw after.acts ↔ before.inbound.headD [] = [] := by
  by_cases absent : before.inbound.headD [] = []
  · obtain ⟨fault, unreadable⟩ : ∃ fault,
        aesPacket lib before.client.cryptoModule.aesKey [] = .error fault := aesPacket_empty empty
    rw [communicated.unreadable fault (by rw [absent, unreadable]),
      closed_append_iff each closed, absent]
    exact iff_of_true (by simp [isDoing, isFrame]) rfl
  · obtain ⟨log, closing, acts, _⟩ := communicated.acts
    rw [acts]
    exact iff_of_false (not_lawful closed (by simp) ((isDoing_read _).mpr absent)) absent

end Communicated

section Outcome

variable {life : Life Key} {turn : Turn} {final : Session Key}

theorem lingers_receive (receives : turn.message = .PacketReceive) :
    Lingers lib life (.serve turn) ↔
      (.closed ∈ life.acts ∧ life.client.stage ≠ .Exit ∧ turn.inbound.headD [] ≠ []) ∨
      (life.client.stage = .TestKey ∧ turn.inbound.tail.headD [] ≠ [] ∧ ∀ payload,
        ¬ Tests lib life.client.cryptoModule.aesKey (turn.inbound.headD []) payload) := by
  simp only [Lingers, receives]

/-- A message that comes with a frame to a stage that takes one. -/
theorem lingers_frame (receives : turn.message = .PacketReceive)
    (stage : life.client.stage ≠ .Exit) (found : turn.inbound.headD [] ≠ [])
    (passes : life.client.stage = .TestKey → ∃ payload,
      Tests lib life.client.cryptoModule.aesKey (turn.inbound.headD []) payload) :
    Lingers lib life (.serve turn) ↔ .closed ∈ life.acts := by
  rw [lingers_receive receives]
  constructor
  · rintro (⟨closed, _, _⟩ | ⟨test, _, refused⟩)
    · exact closed
    · obtain ⟨payload, tests⟩ := passes test
      exact absurd tests (refused payload)
  · exact fun closed => .inl ⟨closed, stage, found⟩

theorem not_lingers_of_still (still : Still lib life.client turn.message) :
    ¬ Lingers lib life (.serve turn) := by
  intro lingers
  cases message : turn.message with
  | PacketReceive =>
      rw [message] at still
      rcases (lingers_receive message).mp lingers with ⟨_, stage, _⟩ | ⟨stage, _⟩
      · exact stage still
      · cases stage.symm.trans still
  | PacketSend =>
      simp only [Lingers, message] at lingers still
      exact still lingers.2
  | Update =>
      simp only [Lingers, message] at lingers still
      exact still lingers.2
  | _ => simp only [Lingers, message] at lingers

/-- A refused frame closes the connection between the two reads of the call. -/
theorem refused_iff {log : List Act} {middle : Session Key}
    (empty : ∀ key plain, lib.aesDecrypt key [] = .ok plain → plain = [])
    (inputs : ∀ entry ∈ log, isInput entry)
    (reads : ∀ bytes, .read bytes ∈ log ↔ bytes = turn.inbound.headD [])
    (acts : middle.acts = life.acts ++ (log ++ [.closed]))
    (communicated : Communicated lib middle final) (each : Each ClosedLaw life.acts) :
    Each ClosedLaw final.acts ↔
      (.closed ∈ life.acts → turn.inbound.headD [] = []) ∧ middle.inbound.headD [] = [] := by
  have first : Each ClosedLaw middle.acts ↔
      (.closed ∈ life.acts → turn.inbound.headD [] = []) := by
    have ends : ClosedLaw (life.acts ++ log) .closed := fun _ => by simp [isDoing, isFrame]
    rw [acts, ← List.append_assoc, each_snoc, and_iff_left ends]
    by_cases closed : .closed ∈ life.acts
    · rw [closed_append_iff each closed, still_inputs_iff inputs reads, imp_iff_right closed]
    · refine iff_of_true (closed_append each closed ?_) fun now => absurd now closed
      intro member
      exact not_closed_of_input (inputs _ member) rfl
  have closed : .closed ∈ middle.acts := by
    rw [acts]
    simp
  constructor
  · intro lawful
    obtain ⟨_, _, grown, _⟩ := communicated.acts
    have kept : Each ClosedLaw middle.acts := (grown ▸ lawful).of_append
    exact ⟨first.mp kept, (communicated.closing_iff empty kept closed).mp lawful⟩
  · rintro ⟨before, after⟩
    exact (communicated.closing_iff empty (first.mpr before) closed).mpr after

/-- A session that does something in a step of which the close is no part. -/
theorem active_iff {log : List Act} (acts : final.acts = life.acts ++ log)
    (each : Each ClosedLaw life.acts) (still_open : .closed ∉ log)
    (busy : ∃ entry ∈ log, isDoing entry) :
    Each ClosedLaw final.acts ↔ .closed ∉ life.acts := by
  rw [acts]
  constructor
  · intro lawful closed
    obtain ⟨entry, member, doing⟩ := busy
    exact not_lawful closed member doing lawful
  · exact fun is_open => closed_append each is_open still_open

/-- A frame of the handshake that is taken. -/
theorem passed_iff {bytes : Bytes} {rest : List Act} {stage : Stage}
    (passed : Passed (life.session turn) final (.read bytes :: rest) stage)
    (each : Each ClosedLaw life.acts) (still_open : .closed ∉ rest) (found : bytes ≠ []) :
    Each ClosedLaw final.acts ↔ .closed ∉ life.acts :=
  active_iff passed.acts each (by simpa using still_open)
    ⟨_, List.mem_cons_self, (isDoing_read _).mpr found⟩

/-- A frame that is only taken in does nothing if the read found nothing. -/
theorem listened_iff (listened : Listened (life.session turn) final)
    (each : Each ClosedLaw life.acts) :
    Each ClosedLaw final.acts ↔ (.closed ∈ life.acts → turn.inbound.headD [] = []) := by
  obtain ⟨log, closing, inputs, ending, acts, _, reads⟩ := listened
  rw [acts]
  by_cases closed : .closed ∈ life.acts
  · have split : Each ClosedLaw (life.acts ++ (log ++ closing)) ↔
        ∀ entry ∈ log, ¬ isDoing entry := by
      rw [closed_append_iff each closed, List.forall_mem_append,
        and_iff_left (still_ending ending)]
    exact split.trans ((still_inputs_iff inputs reads).trans (imp_iff_right closed).symm)
  · refine iff_of_true ?_ fun now => absurd now closed
    rw [← List.append_assoc]
    refine closed_ending (closed_append each closed ?_) ending
    intro member
    exact not_closed_of_input (inputs _ member) rfl

/-- A session that registers and goes on with a second frame. -/
theorem registered_iff {log : List Act} {middle : Session Key}
    (acts : middle.acts = life.acts ++ log) (communicated : Communicated lib middle final)
    (each : Each ClosedLaw life.acts) (still_open : .closed ∉ log)
    (busy : ∃ entry ∈ log, isDoing entry) :
    Each ClosedLaw final.acts ↔ .closed ∉ life.acts := by
  have first := active_iff acts each still_open busy
  constructor
  · intro lawful
    obtain ⟨_, _, grown, _⟩ := communicated.acts
    exact first.mp (grown ▸ lawful).of_append
  · intro is_open
    refine communicated.closing (first.mpr is_open) ?_
    rw [acts]
    exact fun now => (List.mem_append.mp now).elim is_open still_open

/-- A session does nothing after its close in a step exactly if the step is not one that
makes it go on. -/
theorem Outcome.closing_iff (outcome : Outcome lib turn (life.session turn) final)
    (empty : ∀ key plain, lib.aesDecrypt key [] = .ok plain → plain = [])
    (each : Each ClosedLaw life.acts) :
    Each ClosedLaw final.acts ↔ ¬ Lingers lib life (.serve turn) := by
  cases outcome with
  | idle acts client still => exact iff_of_true (acts ▸ each) (not_lingers_of_still still)
  | closes acts client message =>
      rw [acts]
      refine iff_of_true (closed_ending each (.inr rfl)) ?_
      simp [Lingers, message]
  | listens receives stage listened =>
      have lingers : Lingers lib life (.serve turn) ↔
          .closed ∈ life.acts ∧ turn.inbound.headD [] ≠ [] := by
        rw [lingers_receive receives]
        rcases stage with stage | stage <;> simp only [Life.session] at stage <;> simp [stage]
      rw [lingers, not_and, not_not]
      exact listened_iff listened each
  | takesPublicKey bytes key frame receives stage passed first found =>
      have stage_eq : life.client.stage = .SetPublicKey := stage
      have lingers : Lingers lib life (.serve turn) ↔ .closed ∈ life.acts :=
        lingers_frame receives (by simp [stage_eq]) (first ▸ found) (by simp [stage_eq])
      rw [lingers]
      exact passed_iff passed each (by simp) found
  | takesSymmetricKey bytes frame receives stage passed first found =>
      have stage_eq : life.client.stage = .SetSymmetricKey := stage
      have lingers : Lingers lib life (.serve turn) ↔ .closed ∈ life.acts :=
        lingers_frame receives (by simp [stage_eq]) (first ▸ found) (by simp [stage_eq])
      rw [lingers]
      exact passed_iff passed each (by simp) found
  | refuses log middle receives stage inputs acts same next refused communicated reads =>
      have stage_eq : life.client.stage = .TestKey := stage
      have second : middle.inbound = turn.inbound.tail := next
      rw [refused_iff empty inputs reads acts communicated each, lingers_receive receives, second]
      simp only [stage_eq, ne_eq, reduceCtorEq, not_false_eq_true, true_and, not_or, not_and,
        not_not]
      refine and_congr_right fun _ => ⟨fun absent present => absurd absent present, ?_⟩
      intro passes
      by_contra present
      exact passes present refused
  | registers payload frame publicKey queue middle receives stage tests passed communicated =>
      have stage_eq : life.client.stage = .TestKey := stage
      have found : turn.inbound.headD [] ≠ [] := by
        intro absent
        obtain ⟨⟨packet, parsed, _⟩, _⟩ := tests
        obtain ⟨fault, unreadable⟩ := aesPacket_empty empty
        rw [show (life.session turn).inbound.headD [] = [] from absent, unreadable] at parsed
        cases parsed
      rw [lingers_frame receives (by simp [stage_eq]) found fun _ => ⟨payload, tests⟩]
      exact registered_iff passed.acts communicated each (by simp)
        ⟨_, List.mem_cons_self, (isDoing_read _).mpr found⟩
  | communicates receives stage communicated =>
      have stage_eq : life.client.stage = .StableCommunication := stage
      have lingers : Lingers lib life (.serve turn) ↔
          .closed ∈ life.acts ∧ turn.inbound.headD [] ≠ [] := by
        rw [lingers_receive receives]
        simp [stage_eq]
      rw [lingers, not_and, not_not]
      by_cases closed : .closed ∈ life.acts
      · exact (communicated.closing_iff empty each closed).trans (imp_iff_right closed).symm
      · exact iff_of_true (communicated.closing each closed) fun now => absurd now closed
  | forwards log stage message ordinary acts steady settled active =>
      have lingers : Lingers lib life (.serve turn) ↔ .closed ∈ life.acts := by
        rcases message with update | ⟨send, sendable⟩
        · simp only [Lingers, update]
          exact and_iff_left stage
        · simp only [Lingers, send]
          exact and_iff_left sendable
      rw [lingers]
      obtain ⟨entry, member, busy⟩ := active
      exact active_iff acts each (fun closed => (ordinary _ closed).not_closed rfl)
        ⟨entry, member, (ordinary entry member).doing busy⟩

end Outcome

/-- What holds of a session as long as it does nothing after its close. -/
structure Lawful (life : Life Key) : Prop where
  sound : Sound life.client
  each : Each ClosedLaw life.acts

theorem step_closing_iff {before after : Life Key} {event : Event}
    (empty : ∀ key plain, lib.aesDecrypt key [] = .ok plain → plain = [])
    (sound : Sound before.client) (each : Each ClosedLaw before.acts)
    (step : Step lib before event after) :
    Each ClosedLaw after.acts ↔ ¬ Lingers lib before event := by
  cases event with
  | serve turn =>
      obtain ⟨final, outcome, _, acts⟩ := step_serve sound step
      rw [acts]
      exact outcome.closing_iff empty each
  | erase database =>
      obtain ⟨_, ⟨unknown, acts⟩ | ⟨registered, reply, acts⟩⟩ := step_erase step
      · rw [acts]
        exact iff_of_true each fun lingers => unknown lingers.2
      · rw [acts, each_snoc]
        exact (and_iff_right each).trans
          ⟨fun lawful lingers => lawful lingers.1 rfl,
            fun ends closed => absurd ⟨closed, registered⟩ ends⟩

/-- A session does nothing after it has closed its connection exactly if no event of the run
makes it go on. -/
theorem closing_is_final {rsaServerCrypto : RSASimpleCrypto Key} {blank : Key} {aesKey : Bytes}
    {blockingQueue : QueueRef}
    (empty : ∀ key plain, lib.aesDecrypt key [] = .ok plain → plain = []) (events : List Event) :
    Always (Step lib) (create lib rsaServerCrypto blank aesKey blockingQueue)
        (fun _ _ life => Each ClosedLaw life.acts) events ↔
      Always (Step lib) (create lib rsaServerCrypto blank aesKey blockingQueue)
        (fun life event _ => ¬ Lingers lib life event) events := by
  have base : Lawful (create lib rsaServerCrypto blank aesKey blockingQueue) := by
    refine ⟨create_sound .., ?_⟩
    simp only [create_eq, each_cons, each_nil, and_true]
    exact fun closed => absurd closed List.not_mem_nil
  apply always_iff_of_invariant base
  · intro before event after lawful step
    exact step_closing_iff empty lawful.sound lawful.each step
  · intro before event after lawful step stays
    refine ⟨?_, (step_closing_iff empty lawful.sound lawful.each step).mpr stays⟩
    exact (step_holds (fun _ _ => True) lawful.sound trivial (fun _ _ _ _ => trivial)
      (fun _ _ _ _ => trivial) step).1

/-- A peer that says `CLOSE`, and messages that are served afterwards: a receive that finds no
frame, a send that finds no packet, and an error of the connection. -/
def leaving : List Event :=
  greeting ++ [receive [[7, 1]], receive [], .serve { message := .PacketSend },
    .serve { message := .Close }]

/-- A peer that is refused at once. -/
def turnedAway : List Event :=
  [receive [[9, 4]], receive [], .serve { message := .PacketSend },
    .serve { message := .Update }, .erase {}]

theorem stays_receive {life : Life Unit} {inbound : List Bytes}
    (stage : life.client.stage ≠ .TestKey)
    (idle : .closed ∉ life.acts ∨ inbound.headD [] = []) :
    ¬ Lingers transparent life (receive inbound) := by
  rintro (⟨closed, _, found⟩ | ⟨test, _⟩)
  · exact idle.elim (fun is_open => is_open closed) found
  · exact stage test

theorem stays_echo {life : Life Unit} (key : life.client.cryptoModule.aesKey = [7])
    (is_open : .closed ∉ life.acts) :
    ¬ Lingers transparent life (receive [[7, 11, 7], [7, 17, 65]]) := by
  rintro (⟨closed, _⟩ | ⟨_, _, refused⟩)
  · exact is_open closed
  · apply refused [7]
    rw [key]
    exact ⟨⟨_, rfl, rfl, rfl⟩, _, rfl⟩

theorem stays_send {life : Life Unit} (none_left : life.client.remainingPackets = []) :
    ¬ Lingers transparent life (.serve { message := .PacketSend }) := by
  rintro ⟨_, packet, rest, frame, queue, _⟩
  cases none_left.symm.trans queue

theorem leaving_stays :
    Meets transparent (fun life event => ¬ Lingers transparent life event) newcomer leaving :=
  ⟨⟨rfl, stays_receive (by decide +kernel) (.inl (by decide +kernel))⟩,
    ⟨by decide +kernel, stays_receive (by decide +kernel) (.inl (by decide +kernel))⟩,
    ⟨by decide +kernel, stays_echo (by decide +kernel) (by decide +kernel)⟩,
    ⟨by decide +kernel, stays_receive (by decide +kernel) (.inl (by decide +kernel))⟩,
    ⟨by decide +kernel, stays_receive (by decide +kernel) (.inr rfl)⟩,
    ⟨by decide +kernel, stays_send (by decide +kernel)⟩,
    ⟨by decide +kernel, not_false⟩, trivial⟩

theorem turnedAway_stays :
    Meets transparent (fun life event => ¬ Lingers transparent life event) newcomer turnedAway :=
  ⟨⟨rfl, stays_receive (by decide +kernel) (.inl (by decide +kernel))⟩,
    ⟨by decide +kernel, stays_receive (by decide +kernel) (.inr rfl)⟩,
    ⟨by decide +kernel, stays_send (by decide +kernel)⟩,
    ⟨by decide +kernel, fun lingers => absurd lingers.2 (by decide +kernel)⟩,
    ⟨by decide +kernel, fun lingers => absurd lingers.2 (by decide +kernel)⟩, trivial⟩

/-- The sessions of both peers are closed, are served on, and do nothing more. -/
theorem closing_is_final_leaving :
    (.closed ∈ (play transparent newcomer leaving).acts ∧
      Run (Step transparent) newcomer leaving (play transparent newcomer leaving) ∧
      Always (Step transparent) newcomer (fun _ _ life => Each ClosedLaw life.acts) leaving) ∧
    .closed ∈ (play transparent newcomer turnedAway).acts ∧
      Run (Step transparent) newcomer turnedAway (play transparent newcomer turnedAway) ∧
      Always (Step transparent) newcomer (fun _ _ life => Each ClosedLaw life.acts) turnedAway :=
  ⟨⟨by decide +kernel, run_of_lives (by decide +kernel),
      (closing_is_final transparent_empty leaving).mpr (always_of_meets leaving_stays)⟩,
    by decide +kernel, run_of_lives (by decide +kernel),
    (closing_is_final transparent_empty turnedAway).mpr (always_of_meets turnedAway_stays)⟩

theorem not_each_of_last {acts : List Act} {entry : Act} (last : acts.getLast? = some entry)
    (closed : .closed ∈ acts.dropLast) (doing : isDoing entry) : ¬ Each ClosedLaw acts := by
  intro each
  have split : acts = acts.dropLast ++ entry :: [] :=
    (List.dropLast_append_getLast? entry last).symm
  exact each _ _ _ split closed doing

/-- A peer whose `CLOSE` is followed by a frame that has been queued already. -/
def parting : List Event := greeting ++ [receive [[7, 1]], receive [[7, 18, 65]]]

/-- A peer is served in the call that closed its connection, and in the calls after it. -/
theorem served_after_closing :
    (∃ life, Run (Step transparent) newcomer intruding life ∧ ¬ Each ClosedLaw life.acts) ∧
    ∃ life, Run (Step transparent) newcomer parting life ∧ ¬ Each ClosedLaw life.acts := by
  constructor
  · refine ⟨play transparent newcomer intruding, run_of_lives (by decide +kernel), ?_⟩
    have last : (play transparent newcomer intruding).acts.getLast? =
        some (.called (.getNameId [65]) (some (.id 0))) := by decide +kernel
    exact not_each_of_last last (by decide +kernel) rfl
  · refine ⟨play transparent newcomer parting, run_of_lives (by decide +kernel), ?_⟩
    have last : (play transparent newcomer parting).acts.getLast? =
        some (.called (.getNameId [65]) (some (.id 0))) := by decide +kernel
    exact not_each_of_last last (by decide +kernel) rfl

end Locus.ProtocolClient
