import Locus.ProtocolClientRun

set_option autoImplicit false

/- Which calls of the manager a session makes, and after which packets. -/
namespace Locus.ProtocolClient

open Transition
open scoped List

variable {Key : Type} {lib : CryptoLibrary Key} {aesKey : Bytes}

/-- The id that a call registered. -/
def registration : Act → Option Int16
  | .called (.registerClient _ _) (some (.id id)) => some id
  | _ => none

/-- The ids that a session registered. -/
def registrations (acts : List Act) : List Int16 := acts.filterMap registration

/-- The acts that make a peer known, in order. -/
def handshake (aesKey key frame : Bytes) : List Act :=
  [.received .PUBLIC_KEY key, .accepted key, .received .SYMMETRIC_KEY aesKey,
    .sent .TEST_KEY .AES aesKey frame, .received .TEST_KEY aesKey]

/-- How far the handshake is in each stage. -/
def progress : Stage → Nat
  | .SetPublicKey => 0
  | .SetSymmetricKey => 2
  | .TestKey => 4
  | .StableCommunication | .Exit => 5

/-- The log of a session in some stage contains the handshake so far. -/
def Reached (aesKey : Bytes) (acts : List Act) (stage : Stage) : Prop :=
  ∃ key frame, (handshake aesKey key frame).take (progress stage) <+ acts

/-- A session may make a call after what it has done so far: its peer has shown the
symmetric key, and the call passes the one id that was registered. -/
structure Entitled (aesKey : Bytes) (earlier : List Act) (op : ClientDataManager.Op) : Prop where
  known : ∃ key frame, handshake aesKey key frame <+ earlier
  once : ∀ publicKey queue, op = .registerClient publicKey queue → registrations earlier = []
  own : (∀ publicKey queue, op ≠ .registerClient publicKey queue) →
    ∃ id, registrations earlier = [id] ∧ ∀ other, callerOf op = some other → other = id

def CallLaw (aesKey : Bytes) (earlier : List Act) : Act → Prop
  | .called op _ => Entitled aesKey earlier op
  | _ => True

/-- In the stage that tests the key, the first frame is the echo of the key, or it is
refused and the frame read after it does not ask for the manager. -/
def Tested (lib : CryptoLibrary Key) (life : Life Key) : Event → Prop
  | .serve turn => turn.message = .PacketReceive → life.client.stage = .TestKey →
      (∀ payload, Tests lib life.client.cryptoModule.aesKey (turn.inbound.headD []) payload →
        payload = life.client.cryptoModule.aesKey) ∧
      ((∃ payload, Tests lib life.client.cryptoModule.aesKey (turn.inbound.headD []) payload) ∨
        ∀ packet, aesPacket lib life.client.cryptoModule.aesKey (turn.inbound.tail.headD []) =
          .ok packet → ¬ CallsManager packet)
  | .erase _ => True

theorem Reached.append {acts : List Act} {stage : Stage} (reached : Reached aesKey acts stage)
    (log : List Act) : Reached aesKey (acts ++ log) stage := by
  obtain ⟨key, frame, inside⟩ := reached
  exact ⟨key, frame, inside.trans (List.sublist_append_left acts log)⟩

/-- Where a session stands with the manager. -/
structure Standing (aesKey : Bytes) (client : ProtocolClient Key) (acts : List Act) : Prop where
  key : client.cryptoModule.aesKey = aesKey
  each : Each (CallLaw aesKey) acts
  reached : Reached aesKey acts client.stage
  unregistered : client.stage ≠ .StableCommunication → registrations acts = [] ∧ client.id = 0
  registered : client.stage = .StableCommunication → registrations acts = [client.id]

theorem registrations_append (acts log : List Act) :
    registrations (acts ++ log) = registrations acts ++ registrations log :=
  List.filterMap_append

/-- An act that takes something in, sends, calls for `id` or closes. -/
def Usual (id : Int16) (entry : Act) : Prop := Ordinary id entry ∨ entry = .closed

theorem Usual.registration {id : Int16} {entry : Act} (usual : Usual id entry) :
    registration entry = none := by
  rcases usual with ordinary | rfl
  · cases ordinary with
    | input input =>
        cases entry with
        | called op reply => cases input
        | _ => rfl
    | send plain => rfl
    | @call op reply speaks =>
        cases op with
        | registerClient publicKey queue => exact absurd rfl (speaks.registered publicKey queue)
        | _ => rfl
  · rfl

theorem registrations_usual {id : Int16} {log : List Act} (usual : ∀ entry ∈ log, Usual id entry) :
    registrations log = [] := by
  apply List.filterMap_eq_nil_iff.mpr
  intro entry member
  exact (usual entry member).registration

/-- Usual acts leave the standing as it is. Calls are usual only for a registered session. -/
theorem Standing.extend {client next : ProtocolClient Key} {acts log : List Act}
    (standing : Standing aesKey client acts) (usual : ∀ entry ∈ log, Usual client.id entry)
    (calls : ∀ op reply, .called op reply ∈ log → client.stage = .StableCommunication)
    (stage : next.stage = client.stage) (id : next.id = client.id)
    (key : next.cryptoModule.aesKey = client.cryptoModule.aesKey) :
    Standing aesKey next (acts ++ log) := by
  have none_new : registrations (acts ++ log) = registrations acts := by
    rw [registrations_append, registrations_usual usual, List.append_nil]
  refine ⟨key.trans standing.key, ?_, ?_, ?_, ?_⟩
  · refine each_append.mpr ⟨standing.each, .of_forall ?_⟩
    intro earlier before entry member
    cases entry with
    | called op reply =>
        have stable := calls op reply member
        have reached := standing.reached.append earlier
        rw [stable] at reached
        have still : registrations (acts ++ earlier) = [client.id] := by
          rw [registrations_append, standing.registered stable,
            registrations_usual fun other inside => usual other (before other inside),
            List.append_nil]
        rcases usual _ member with ordinary | impossible
        · cases ordinary with
          | input input => cases input
          | call speaks =>
              refine ⟨reached, ?_, fun _ => ⟨client.id, still, speaks.own⟩⟩
              intro publicKey queue same
              exact absurd same (speaks.registered publicKey queue)
        · cases impossible
    | _ => trivial
  · rw [stage]
    exact standing.reached.append log
  · rw [stage, none_new, id]
    exact standing.unregistered
  · rw [stage, none_new, id]
    exact standing.registered

theorem usual_of_closing {id : Int16} {closing : List Act}
    (ending : closing = [] ∨ closing = [.closed]) : ∀ entry ∈ closing, Usual id entry := by
  intro entry member
  rcases ending with rfl | rfl
  · exact absurd member List.not_mem_nil
  · exact .inr (List.mem_singleton.mp member)

theorem no_call_of_inputs {log closing : List Act} (inputs : ∀ entry ∈ log, isInput entry)
    (ending : closing = [] ∨ closing = [.closed]) (op : ClientDataManager.Op)
    (reply : Option ClientDataManager.Reply) : .called op reply ∉ log ++ closing := by
  intro member
  rcases List.mem_append.mp member with front | last
  · have impossible := inputs _ front
    cases impossible
  · rcases ending with rfl | rfl
    · exact absurd last List.not_mem_nil
    · cases List.mem_singleton.mp last

/-- Input, and perhaps the end of the connection, changes nothing. -/
theorem Standing.listen {client next : ProtocolClient Key} {acts log closing : List Act}
    (standing : Standing aesKey client acts) (inputs : ∀ entry ∈ log, isInput entry)
    (ending : closing = [] ∨ closing = [.closed]) (same : Same client next) :
    Standing aesKey next (acts ++ (log ++ closing)) := by
  refine standing.extend ?_ ?_ same.stage same.id same.aesKey
  · intro entry member
    rcases List.mem_append.mp member with front | last
    · exact .inl (.input (inputs entry front))
    · exact usual_of_closing ending entry last
  · intro op reply member
    exact absurd member (no_call_of_inputs inputs ending op reply)

/-- A turn of stable communication, where the session is registered or the frame does
not ask for the manager. -/
theorem Standing.communicate {before after : Session Key}
    (standing : Standing aesKey before.client before.acts)
    (communicated : Communicated lib before after)
    (allowed : before.client.stage = .StableCommunication ∨
      ∀ packet, aesPacket lib before.client.cryptoModule.aesKey (before.inbound.headD []) =
        .ok packet → ¬ CallsManager packet) : Standing aesKey after.client after.acts := by
  obtain ⟨log, closing, acts, ordinary, ending, asked⟩ := communicated.acts
  have steady := communicated.steady
  rw [acts]
  refine standing.extend ?_ ?_ steady.stage steady.id steady.aesKey
  · intro entry member
    rcases List.mem_append.mp member with front | last
    · rcases List.mem_cons.mp front with rfl | inside
      · exact .inl (.input rfl)
      · exact .inl (ordinary entry inside)
    · exact usual_of_closing ending entry last
  · intro op reply member
    have inside : .called op reply ∈ log := by
      rcases List.mem_append.mp member with front | last
      · rcases List.mem_cons.mp front with impossible | inside
        · cases impossible
        · exact inside
      · rcases ending with rfl | rfl
        · exact absurd last List.not_mem_nil
        · cases List.mem_singleton.mp last
    obtain ⟨packet, found, calls⟩ := asked op reply inside
    rcases allowed with stable | silent
    · exact stable
    · exact absurd calls (silent packet found)

/-- The handshake gets one stage further. -/
theorem Reached.advance {acts log : List Act} {stage : Stage} (key frame : Bytes) (done : Nat)
    (inside : (handshake aesKey key frame).take done <+ acts)
    (more : ((handshake aesKey key frame).take (progress stage)).drop done <+ log)
    (later : done ≤ progress stage) : Reached aesKey (acts ++ log) stage := by
  refine ⟨key, frame, ?_⟩
  have front : ((handshake aesKey key frame).take (progress stage)).take done =
      (handshake aesKey key frame).take done := by
    rw [List.take_take, Nat.min_eq_left later]
  rw [← List.take_append_drop done ((handshake aesKey key frame).take (progress stage)), front]
  exact inside.append more

/-- A handler of the handshake that got through without a call. -/
theorem Standing.pass {before after : Session Key} {log : List Act} {stage : Stage}
    (standing : Standing aesKey before.client before.acts)
    (passed : Passed before after log stage)
    (elsewhere : before.client.stage ≠ .StableCommunication)
    (still_elsewhere : stage ≠ .StableCommunication)
    (silent : ∀ entry ∈ log, ∀ op reply, entry ≠ .called op reply)
    (reached : Reached aesKey (before.acts ++ log) stage) :
    Standing aesKey after.client after.acts := by
  obtain ⟨unnamed, id⟩ := standing.unregistered elsewhere
  have none_new : registrations log = [] := by
    apply List.filterMap_eq_nil_iff.mpr
    intro entry member
    cases entry with
    | called op reply => exact absurd rfl (silent _ member op reply)
    | _ => rfl
  rw [passed.acts]
  refine ⟨passed.aesKey.trans standing.key, ?_, ?_, ?_, ?_⟩
  · refine each_append.mpr ⟨standing.each, .of_forall ?_⟩
    intro earlier _ entry member
    cases entry with
    | called op reply => exact absurd rfl (silent _ member op reply)
    | _ => trivial
  · rw [passed.stage]
    exact reached
  · intro _
    rw [registrations_append, none_new, List.append_nil]
    exact ⟨unnamed, passed.id.trans id⟩
  · intro stable
    exact absurd (passed.stage.symm.trans stable) still_elsewhere

/-- A peer that has echoed the key is registered. -/
theorem Standing.register {before middle : Session Key} {bytes frame publicKey : Bytes}
    {queue : QueueRef} (standing : Standing aesKey before.client before.acts)
    (stage : before.client.stage = .TestKey)
    (passed : Passed { before with client := { before.client with id := middle.client.id } }
      middle
      [.read bytes, .received .TEST_KEY aesKey, .sent .OPEN_PROT .AES [] frame,
        .stage .StableCommunication,
        .called (.registerClient publicKey queue) (some (.id middle.client.id))]
      .StableCommunication) : Standing aesKey middle.client middle.acts := by
  obtain ⟨unnamed, _⟩ := standing.unregistered (by rw [stage]; decide)
  obtain ⟨key, tested, inside⟩ := standing.reached
  rw [stage] at inside
  have known : ∀ log, [.received .TEST_KEY aesKey] <+ log →
      Reached aesKey (before.acts ++ log) .StableCommunication :=
    fun log more => .advance key tested 4 inside more (by decide)
  rw [passed.acts]
  refine ⟨passed.aesKey.trans standing.key, ?_, ?_, ?_, ?_⟩
  · refine each_append.mpr ⟨standing.each, ?_⟩
    simp only [each_cons, each_nil, CallLaw, true_and, and_true]
    refine ⟨known _ (by simp), fun _ _ _ => ?_, ?_⟩
    · rw [registrations_append, unnamed]
      rfl
    · intro other
      exact absurd rfl (other publicKey queue)
  · rw [passed.stage]
    exact known _ (by simp)
  · intro elsewhere
    exact absurd passed.stage elsewhere
  · intro _
    rw [registrations_append, unnamed]
    rfl

theorem Standing.serve {life : Life Key} {turn : Turn} {final : Session Key}
    (standing : Standing aesKey life.client life.acts) (tested : Tested lib life (.serve turn))
    (outcome : Outcome lib turn (life.session turn) final) :
    Standing aesKey final.client final.acts := by
  cases outcome with
  | idle acts client =>
      rw [acts, client]
      exact standing
  | closes acts client =>
      rw [acts, client]
      have ended : Standing aesKey life.client (life.acts ++ ([] ++ [.closed])) :=
        standing.listen (by simp) (.inr rfl) (.refl _)
      exact ended
  | listens receives stage listened =>
      obtain ⟨log, closing, inputs, ending, acts, same⟩ := listened
      rw [acts]
      exact standing.listen inputs ending same
  | takesPublicKey bytes key frame receives stage passed =>
      apply standing.pass passed (by rw [stage]; decide) (by decide) (by simp)
      exact .advance key frame 0 (List.nil_sublist _) (by simp [handshake, progress]) (by decide)
  | takesSymmetricKey bytes frame receives stage passed =>
      have key_eq : (life.session turn).client.cryptoModule.aesKey = aesKey := standing.key
      rw [key_eq] at passed
      have stage_eq : life.client.stage = .SetSymmetricKey := stage
      obtain ⟨key, later, inside⟩ := standing.reached
      rw [stage_eq] at inside
      apply standing.pass passed (by rw [stage]; decide) (by decide) (by simp)
      exact .advance key frame 2 inside (by simp [handshake, progress]) (by decide)
  | refuses log middle receives stage inputs acts same next refused communicated =>
      have heard : Standing aesKey middle.client middle.acts := by
        rw [acts]
        exact standing.listen inputs (.inr rfl) same
      refine heard.communicate communicated (.inr ?_)
      rw [same.aesKey, next]
      obtain ⟨_, ⟨payload, passes⟩ | silent⟩ := tested receives stage
      · exact absurd passes (refused payload)
      · exact silent
  | registers payload frame publicKey queue middle receives stage tests passed communicated =>
      obtain ⟨echoes, _⟩ := tested receives stage
      have echo : payload = aesKey := (echoes payload tests).trans standing.key
      rw [echo] at passed
      have registered : Standing aesKey middle.client middle.acts :=
        standing.register stage passed
      exact registered.communicate communicated (.inl passed.stage)
  | communicates receives stage communicated =>
      exact standing.communicate communicated (.inl stage)
  | forwards log stage message ordinary acts steady settled =>
      rw [acts]
      refine standing.extend ?_ (fun _ _ _ => stage) steady.stage steady.id steady.aesKey
      intro entry member
      exact .inl (ordinary entry member)

/-- A session calls the manager only for a peer that has shown the symmetric key, and
only for the id that it registered, as long as no packet slips through in `TestKey`. -/
theorem calls_after_handshake {rsaServerCrypto : RSASimpleCrypto Key} {blank : Key}
    {blockingQueue : QueueRef} {events : List Event} {life : Life Key}
    (run : Run (Guarded (Tested lib) (Step lib))
      (create lib rsaServerCrypto blank aesKey blockingQueue) events life) :
    Each (CallLaw aesKey) life.acts := by
  have standing : Sound life.client ∧ Standing aesKey life.client life.acts := by
    refine run.invariant (fun life => Sound life.client ∧ Standing aesKey life.client life.acts)
      ⟨create_sound .., ?_⟩ ?_
    · rw [create_eq]
      refine ⟨rfl, ?_, ⟨[], [], List.nil_sublist _⟩, fun _ => ⟨rfl, rfl⟩, ?_⟩
      · simp only [each_cons, each_nil, CallLaw, and_self]
      · intro stable
        cases stable
    · rintro before event after ⟨sound, standing⟩ ⟨tested, step⟩
      refine step_holds (Standing aesKey) sound standing ?_ ?_ step
      · rintro turn final rfl outcome
        exact standing.serve tested outcome
      · intro database reply _ positive
        have stable : before.client.stage = .StableCommunication := by
          by_contra elsewhere
          rw [(standing.unregistered elsewhere).2] at positive
          cases positive
        refine standing.extend ?_ (fun _ _ _ => stable) rfl rfl rfl
        intro entry member
        rw [List.mem_singleton.mp member]
        exact .inl (.call ⟨by simp [callerOf], by simp⟩)
  exact standing.2.each

theorem tested_echo {life : Life Unit} (key : life.client.cryptoModule.aesKey = [7]) :
    Tested transparent life (receive [[7, 11, 7], [7, 17, 65]]) := by
  intro _ _
  rw [key]
  refine ⟨?_, .inl ⟨[7], ⟨_, rfl, rfl, rfl⟩, _, rfl⟩⟩
  rintro payload ⟨⟨packet, found, _, rfl⟩, _⟩
  cases found
  rfl

theorem calls_after_handshake_greeting :
    Each (CallLaw [7]) (play transparent newcomer greeting).acts := by
  have meets : Meets transparent (Tested transparent) newcomer greeting := by
    exact ⟨⟨rfl, fun _ stage => absurd stage (by decide +kernel)⟩,
      ⟨by decide +kernel, fun _ stage => absurd stage (by decide +kernel)⟩,
      ⟨by decide +kernel, tested_echo (by decide +kernel)⟩, trivial⟩
  exact calls_after_handshake (run_of_meets meets)

/-- A call for a peer that has not shown the symmetric key. -/
theorem not_each_of_stranger {acts : List Act} {op : ClientDataManager.Op}
    {reply : Option ClientDataManager.Reply} (called : .called op reply ∈ acts)
    (stranger : .received .TEST_KEY aesKey ∉ acts) : ¬ Each (CallLaw aesKey) acts := by
  intro each
  obtain ⟨earlier, later, split⟩ := List.append_of_mem called
  have entitled : Entitled aesKey earlier op := each earlier _ later split
  obtain ⟨key, frame, inside⟩ := entitled.known
  have received : .received .TEST_KEY aesKey ∈ earlier := inside.subset (by simp [handshake])
  rw [split] at stranger
  exact stranger (List.mem_append_left _ received)

/-- A peer that does not echo the key. -/
def unproven : List Event := [receive [[9, 5]], receive [[10, 7]], receive [[7, 11, 0]]]

theorem stranger_is_served :
    (∃ life, Run (Step transparent) newcomer unproven life ∧ ¬ Each (CallLaw [7]) life.acts) ∧
    ∃ life, Run (Step transparent) newcomer intruding life ∧ ¬ Each (CallLaw [7]) life.acts := by
  constructor
  · refine ⟨play transparent newcomer unproven, run_of_lives (by decide +kernel), ?_⟩
    have registered : .called (.registerClient [5] 0) (some (.id 1)) ∈
        (play transparent newcomer unproven).acts := by decide +kernel
    exact not_each_of_stranger registered (by decide +kernel)
  · refine ⟨play transparent newcomer intruding, run_of_lives (by decide +kernel), ?_⟩
    have asked : .called (.getNameId [65]) (some (.id 0)) ∈
        (play transparent newcomer intruding).acts := by decide +kernel
    exact not_each_of_stranger asked (by decide +kernel)

end Locus.ProtocolClient
