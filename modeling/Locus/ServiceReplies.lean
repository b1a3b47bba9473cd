import Locus.ServiceProvenance

set_option autoImplicit false

/- The answers to SET_NAME: which packet each of them answers, and how long what it tells the
client is true. -/
namespace Locus

open Transition

namespace ClientDataManager

/-- A name that is not empty leads to the client that has it, and to no other. -/
structure Owned (m : ClientDataManager) : Prop where
  named : ∀ name id, name ≠ [] → m.clientsName name = some id → m.nameOf id = name
  listed : ∀ id, m.nameOf id ≠ [] → m.clientsName (m.nameOf id) = some id

section Steps

variable {before after : Database} {op : Op} {reply : Reply} {id : Int16} {name : Bytes}

theorem owned_step (owned : Owned before.manager) (effect : Effect before op reply after) :
    Owned after.manager := by
  rcases names_step effect with ⟨index, names, _⟩ | ⟨id, new, _, _, free, _, index, names⟩
  · constructor
    · intro name holder present entry
      rw [index] at entry
      exact (names holder).trans (owned.named name holder present entry)
    · intro holder present
      rw [names] at present ⊢
      rw [index]
      exact owned.listed holder present
  · have others (name : Bytes) (apart : name ≠ new) : after.manager.clientsName name =
        if before.manager.nameOf id ≠ [] ∧ name = before.manager.nameOf id then none
          else before.manager.clientsName name := by
      rw [index, KeyMap.insert_of_ne _ _ apart]
      by_cases unnamed : before.manager.nameOf id = []
      · simp [unnamed]
      · by_cases own : name = before.manager.nameOf id
        · simp [unnamed, own, KeyMap.erase_self]
        · simp [unnamed, own, KeyMap.erase_of_ne]
    have taken : after.manager.clientsName new = some id := by
      rw [index, KeyMap.insert_self, released_free free, Option.getD_none]
    constructor
    · intro name holder present entry
      by_cases same : name = new
      · rw [same, taken] at entry
        rw [names, if_pos (Option.some.inj entry).symm, same]
      · rw [others name same] at entry
        split at entry
        · cases entry
        · rename_i kept
          have mine := owned.named name holder present entry
          rw [names, if_neg, mine]
          rintro rfl
          exact kept ⟨by rw [mine]; exact present, mine.symm⟩
    · intro holder present
      rw [names] at present ⊢
      split at present
      · rename_i same
        rw [if_pos same, taken, same]
      · rename_i other
        have entry := owned.listed holder present
        rw [if_neg other, others, if_neg, entry]
        · rintro ⟨named, same⟩
          rw [same, owned.listed id named] at entry
          exact other (Option.some.inj entry).symm
        · intro same
          rw [same, free] at entry
          cases entry

/-- A client that is granted a name has it. -/
theorem Owned.granted (owned : Owned before.manager) (present : name ≠ [])
    (effect : Effect before (.setName id name) (.accepted true) after) :
    after.manager.clientsName name = some id := by
  rcases names_step effect with ⟨index, _, mine⟩ | ⟨_, _, same, _, free, _, index, _⟩
  · have called := mine id name rfl rfl
    rw [index, ← called]
    exact owned.listed id (called ▸ present)
  · cases same
    rw [index, KeyMap.insert_self, released_free free, Option.getD_none]

/-- A client that is refused a name asked for that of another one. -/
theorem Owned.refused (owned : Owned before.manager) (present : name ≠ [])
    (effect : Effect before (.setName id name) (.accepted false) after) :
    ∃ holder, holder ≠ id ∧ before.manager.nameOf holder = name := by
  generalize answer : Reply.accepted false = reply at effect
  cases effect with
  | @setNameTaken _ holder _ mine taken hereData =>
      have called := owned.named name holder present taken
      refine ⟨holder, ?_, called⟩
      rintro rfl
      rw [nameOf, KeyMap.view_of_some _ _ hereData] at called
      simp [called] at answer
  | setNameFree => cases answer

/-- A client keeps its name as long as it takes no other one. -/
theorem Owned.keeps (owned : Owned before.manager) (present : name ≠ [])
    (held : before.manager.clientsName name = some id) (effect : Effect before op reply after) :
    after.manager.clientsName name = some id ∨
      ∃ other, other ≠ name ∧ op = .setName id other ∧ reply = .accepted true := by
  rcases names_step effect with ⟨index, _, _⟩ | ⟨renamed, new, same, accepted, free, _, index, _⟩
  · exact .inl (index ▸ held)
  · have apart : name ≠ new := by
      rintro rfl
      rw [free] at held
      cases held
    by_cases own : before.manager.nameOf renamed = name
    · have mine := owned.listed renamed (own ▸ present)
      rw [own, held] at mine
      cases mine
      exact .inr ⟨new, apart.symm, same, accepted⟩
    · left
      rw [index, KeyMap.insert_of_ne _ _ apart]
      split
      · exact held
      · rw [KeyMap.erase_of_ne _ (Ne.symm own), held]

end Steps

theorem owned_run {calls : List (Op × Reply)} {database : Database}
    (run : Run Step {} calls database) : Owned database.manager :=
  run.invariant (fun database => Owned database.manager)
    ⟨by simp, by simp [nameOf, KeyMap.view]⟩
    fun _ _ _ owned step => owned_step owned (step_iff_effect.mp step)

/-- A name that a client was granted is its own, until it is granted another one. -/
theorem name_kept {first more : List (Op × Reply)} {database : Database} {id : Int16}
    {name : Bytes} (present : name ≠ [])
    (run : Run Step {} (first ++ (.setName id name, .accepted true) :: more) database) :
    database.manager.nameId name = id ∨
      ∃ other, other ≠ name ∧ (.setName id other, .accepted true) ∈ more := by
  obtain ⟨before, earlier, rest⟩ := Run.append_iff.mp run
  obtain ⟨after, granted, later⟩ := Run.cons_iff.mp rest
  have given := (owned_run earlier).granted present (step_iff_effect.mp granted)
  have kept : database.manager.clientsName name = some id ∨
      ∃ other, other ≠ name ∧ (.setName id other, .accepted true) ∈ more := by
    refine (later.history_invariant (fun more database => Owned database.manager ∧
      (database.manager.clientsName name = some id ∨
        ∃ other, other ≠ name ∧ (.setName id other, .accepted true) ∈ more))
      ⟨owned_run (earlier.snoc granted), .inl given⟩ ?_).2
    rintro more database ⟨op, reply⟩ next _ ⟨owned, held⟩ step
    have effect := step_iff_effect.mp step
    refine ⟨owned_step owned effect, ?_⟩
    rcases held with held | ⟨other, apart, member⟩
    · rcases owned.keeps present held effect with still | ⟨other, apart, rfl, rfl⟩
      · exact .inl still
      · exact .inr ⟨other, apart, by simp⟩
    · exact .inr ⟨other, apart, List.mem_append_left _ member⟩
  exact kept.imp (fun held => by rw [nameId, held, Option.getD_some]) fun moved => moved

/-- A client is refused a name that another one has. -/
theorem name_taken {first more : List (Op × Reply)} {database : Database} {id : Int16}
    {name : Bytes} (present : name ≠ [])
    (run : Run Step {} (first ++ (.setName id name, .accepted false) :: more) database) :
    ∃ holder, holder ≠ id ∧ lastValue (renames holder) first = some name := by
  obtain ⟨before, earlier, rest⟩ := Run.append_iff.mp run
  obtain ⟨after, refused, _⟩ := Run.cons_iff.mp rest
  obtain ⟨holder, apart, called⟩ :=
    (owned_run earlier).refused present (step_iff_effect.mp refused)
  have last := named_last ⟨before, earlier, rfl⟩ (called ▸ present)
  exact ⟨holder, apart, last.trans (congrArg some called)⟩

end ClientDataManager

namespace ProtocolClient

open Program
open ClientDataManager (Op Reply)

variable {Key : Type} {lib : CryptoLibrary Key}

/-- What an answer to SET_NAME tells the client. -/
def acknowledged : Act → Option Bool
  | .sent .ACK_OK _ _ _ => some true
  | .sent .ACK_ERR _ _ _ => some false
  | _ => none

/-- An answer follows the packet that it answers, and tells the reply of the call for it. -/
def Acknowledges (id : Int16) (earlier : List Act) (entry : Act) : Prop :=
  ∀ granted, acknowledged entry = some granted → ∃ front name, earlier =
    front ++ [.received .SET_NAME name, .called (.setName id name) (some (.accepted granted))]

section Logs

variable {id : Int16} {log more : List Act}

theorem acknowledges_of_silent (silent : ∀ entry ∈ log, acknowledged entry = none) :
    Each (Acknowledges id) log := by
  refine .of_forall fun earlier _ entry member granted answer => ?_
  rw [silent entry member] at answer
  cases answer

theorem acknowledges_append (first : Each (Acknowledges id) log)
    (second : Each (Acknowledges id) more) : Each (Acknowledges id) (log ++ more) := by
  refine each_append.mpr ⟨first, ?_⟩
  intro earlier entry later split granted answer
  obtain ⟨front, name, rfl⟩ := second earlier entry later split granted answer
  exact ⟨log ++ front, name, (List.append_assoc log front _).symm⟩

theorem silent_of_input {entry : Act} (input : isInput entry) : acknowledged entry = none := by
  cases entry with
  | sent => cases input
  | _ => rfl

end Logs

/-- A handler that keeps the id and answers nothing. -/
structure Silent (before after : Session Key) : Prop where
  id : after.client.id = before.client.id
  acts : ∃ log, after.acts = before.acts ++ log ∧ ∀ entry ∈ log, acknowledged entry = none

theorem Silent.refl (s : Session Key) : Silent s s := ⟨rfl, [], by simp, by simp⟩

theorem Silent.trans {first second third : Session Key} (left : Silent first second)
    (right : Silent second third) : Silent first third := by
  obtain ⟨sameId, log, acts, silent⟩ := left
  obtain ⟨sameId', more, acts', silent'⟩ := right
  refine ⟨sameId'.trans sameId, log ++ more, by rw [acts', acts, List.append_assoc], ?_⟩
  intro entry member
  exact (List.mem_append.mp member).elim (silent entry) (silent' entry)

theorem silent_logged {entry : Act} (silent : acknowledged entry = none) (s : Session Key) :
    Silent s (logged s [entry]) := ⟨rfl, [entry], rfl, by simp [silent]⟩

theorem closeConnection_silent : Keeps Silent (closeConnection : SessionM Key Unit) := by
  intro s
  exact silent_logged rfl s

theorem manager_silent (op : Op) : Keeps Silent (manager op : SessionM Key Reply) := by
  intro s
  unfold KeepsAt manager
  cases ClientDataManager.run op s.database with
  | ok reply database => exact ⟨rfl, [.called op (some reply)], rfl, by simp [acknowledged]⟩
  | error fault database => exact ⟨rfl, [.called op none], rfl, by simp [acknowledged]⟩

theorem sendPacket_logs (lib : CryptoLibrary Key) (packet : Packet) (s : Session Key) :
    (finalState (sendPacket lib packet s)).client.id = s.client.id ∧
    ∃ log, (finalState (sendPacket lib packet s)).acts = s.acts ++ log ∧
      (log = [] ∨ ∃ algorithm frame,
        log = [.sent packet.type algorithm packet.buffer.bytes frame]) := by
  obtain ⟨m, _, ⟨fault, failed⟩ | ⟨frame, _, sent⟩⟩ := sendPacket_spec lib packet s
  · rw [failed]
    exact ⟨rfl, [], (List.append_nil _).symm, .inl rfl⟩
  · rw [sent]
    exact ⟨rfl, _, rfl, .inr ⟨_, frame, rfl⟩⟩

/-- What the session logs while it serves SET_NAME: nothing but the call, or the call and the
answer that tells its reply. -/
theorem setName_logs (lib : CryptoLibrary Key) (packet : Packet) (s : Session Key) :
    (finalState (setName lib packet s)).client.id = s.client.id ∧
    ∃ log, (finalState (setName lib packet s)).acts = s.acts ++ log ∧
      ((∀ entry ∈ log, acknowledged entry = none) ∨ ∃ granted answer, log =
        [.called (.setName s.client.id packet.buffer.bytes) (some (.accepted granted)), answer] ∧
        acknowledged answer = some granted) := by
  obtain ⟨rest, popped, -⟩ := packet.buffer.popAll_spec
  simp only [setName, popped, bind_of_ok (ofExcept_ok_run _ s), bind_of_ok (get_run s)]
  cases ran : ClientDataManager.run (.setName s.client.id packet.buffer.bytes) s.database with
  | error fault database =>
      rw [bind_run, manager_error ran]
      exact ⟨rfl, _, rfl, .inl (by simp [acknowledged])⟩
  | ok reply database =>
      have answers : ∃ granted, reply = .accepted granted := by
        cases ClientDataManager.step_iff_effect.mp ran <;> exact ⟨_, rfl⟩
      obtain ⟨granted, rfl⟩ := answers
      have told : (if (Reply.accepted granted).isAccepted then sendPacket lib { type := .ACK_OK }
          else sendPacket lib { type := .ACK_ERR }) =
          sendPacket lib { type := if granted then .ACK_OK else .ACK_ERR } := by
        cases granted <;> rfl
      rw [bind_of_ok (manager_ok ran), told]
      obtain ⟨sameId, log, acts, quiet⟩ := sendPacket_logs lib
        { type := if granted then .ACK_OK else .ACK_ERR } (logged { s with database }
          [.called (.setName s.client.id packet.buffer.bytes) (some (.accepted granted))])
      refine ⟨sameId, _, acts.trans (List.append_assoc _ _ _), ?_⟩
      rcases quiet with rfl | ⟨algorithm, frame, rfl⟩
      · exact .inl (by simp [acknowledged])
      · exact .inr ⟨granted, _, rfl, by cases granted <;> rfl⟩

/-- What `stableCommunication` does with a packet that it has received. -/
theorem dispatch_acknowledges (lib : CryptoLibrary Key) (turn : Turn) (packet : Packet)
    (s : Session Key) :
    (finalState (Service.dispatch lib turn packet s)).client.id = s.client.id ∧
    ∃ log, (finalState (Service.dispatch lib turn packet s)).acts = s.acts ++ log ∧
      Each (Acknowledges s.client.id)
        (.received packet.type packet.buffer.bytes :: log) := by
  have quiet {call : SessionM Key Unit} (keeps : Keeps Silent call) (type : PacketType) :
      (finalState (call s)).client.id = s.client.id ∧
      ∃ log, (finalState (call s)).acts = s.acts ++ log ∧
        Each (Acknowledges s.client.id) (.received type packet.buffer.bytes :: log) := by
    obtain ⟨sameId, log, acts, silent⟩ := keeps s
    refine ⟨sameId, log, acts, acknowledges_of_silent ?_⟩
    exact List.forall_mem_cons.mpr ⟨rfl, silent⟩
  unfold Service.dispatch
  cases packet.type with
  | CLOSE => exact quiet closeConnection_silent _
  | SET_NAME =>
      obtain ⟨sameId, log, acts, silent | ⟨granted, answer, rfl, tells⟩⟩ :=
        setName_logs lib packet s
      · exact ⟨sameId, log, acts,
          acknowledges_of_silent (List.forall_mem_cons.mpr ⟨rfl, silent⟩)⟩
      · refine ⟨sameId, _, acts, ?_⟩
        simp only [each_cons, each_nil, and_true]
        refine ⟨by simp [Acknowledges, acknowledged], by simp [Acknowledges, acknowledged], ?_⟩
        intro told answers
        rw [tells] at answers
        cases answers
        exact ⟨[], packet.buffer.bytes, rfl⟩
  | ADD_FOLLOWER | REMOVE_FOLLOWER | REMOVE_FOLLOWED =>
      exact quiet (Service.callNamed_keeps .refl .trans manager_silent _ packet) _
  | MY_LOCATION =>
      exact quiet (Service.myLocation_keeps .refl .trans manager_silent closeConnection_silent
        turn packet) _
  | _ => exact quiet (.pure .refl _) _

/-- `stableCommunication` answers SET_NAME, and nothing else. -/
theorem stableCommunication_acknowledges (lib : CryptoLibrary Key) (turn : Turn)
    (s : Session Key) :
    (finalState (stableCommunication lib turn s)).client.id = s.client.id ∧
    ∃ log, (finalState (stableCommunication lib turn s)).acts = s.acts ++ log ∧
      Each (Acknowledges s.client.id) log := by
  have settles (result : EStateM.Result Fault (Session Key) Unit) :
      Silent (finalState result) (finalState (settle closeConnection result)) := by
    cases result with
    | ok value after => exact .refl after
    | error fault after =>
        cases fault with
        | exception what => exact silent_logged rfl after
        | undefinedBehaviour | nonTermination => exact .refl after
  rw [Service.stableCommunication_eq, catching]
  obtain ⟨sameId, closing, closes, silent⟩ :=
    settles ((recvPacket lib >>= Service.dispatch lib turn) s)
  revert sameId closes
  rw [bind_run]
  obtain ⟨m, _, ⟨fault, failed⟩ | ⟨packet, heard, _⟩⟩ := recvPacket_spec lib s
  · rw [failed]
    intro sameId closes
    refine ⟨sameId, _, closes.trans (List.append_assoc _ _ _), acknowledges_of_silent ?_⟩
    exact List.forall_mem_cons.mpr ⟨rfl, silent⟩
  · rw [heard]
    intro sameId closes
    obtain ⟨kept, log, acts, answers⟩ := dispatch_acknowledges lib turn packet
      (logged (withModule (taken s) m) [.received packet.type packet.buffer.bytes])
    have read : Each (Acknowledges s.client.id) [.read (s.inbound.headD [])] :=
      acknowledges_of_silent (by simp [acknowledged])
    refine ⟨sameId.trans kept, _, ?_,
      acknowledges_append (acknowledges_append read answers) (acknowledges_of_silent silent)⟩
    dsimp only
    rw [closes]
    dsimp only
    rw [acts]
    simp [taken, logged, withModule]

/-- A session that serves `PacketReceive` answers SET_NAME, and nothing else. -/
theorem receiveData_acknowledges (lib : CryptoLibrary Key) (turn : Turn) {s : Session Key}
    (sound : Sound s.client) :
    ∃ log, (finalState (receiveData lib turn s)).acts = s.acts ++ log ∧
      Each (Acknowledges (finalState (receiveData lib turn s)).client.id) log := by
  have inputs {log closing : List Act} (inputs : ∀ entry ∈ log, isInput entry)
      (ending : closing = [] ∨ closing = [.closed]) :
      ∀ entry ∈ log ++ closing, acknowledged entry = none := by
    intro entry member
    rcases List.mem_append.mp member with input | close
    · exact silent_of_input (inputs entry input)
    · rcases ending with rfl | rfl
      · cases close
      · rw [List.mem_singleton.mp close]
        rfl
  have listened {after : Session Key} (listened : Listened s after) :
      ∃ log, after.acts = s.acts ++ log ∧ Each (Acknowledges after.client.id) log := by
    obtain ⟨log, closing, heard, ending, acts, _⟩ := listened
    exact ⟨_, acts, acknowledges_of_silent (inputs heard ending)⟩
  simp only [receiveData, bind_run, get_run]
  cases stage : s.client.stage with
  | SetPublicKey =>
      rcases setPublicKey_outcome lib s with heard | ⟨key, frame, passed, _⟩
      · exact listened heard
      · exact ⟨_, passed.acts, acknowledges_of_silent (by simp [acknowledged])⟩
  | SetSymmetricKey =>
      have ready := sound.initialized (by rw [stage]; decide)
      rcases setSymmetricKey_outcome lib s ready with heard | ⟨_, frame, passed⟩
      · exact listened heard
      · exact ⟨_, passed.acts, acknowledges_of_silent (by simp [acknowledged])⟩
  | TestKey =>
      have ready := sound.initialized (by rw [stage]; decide)
      obtain ⟨middle, ran, _, _, outcome⟩ := testKey_outcome lib s ready
      have first : ∃ log, middle.acts = s.acts ++ log ∧
          ∀ entry ∈ log, acknowledged entry = none := by
        rcases outcome with ⟨log, heard, acts, _⟩ | ⟨payload, frame, key, queue, _, passed⟩
        · exact ⟨_, acts, inputs heard (.inr rfl)⟩
        · exact ⟨_, passed.acts, by simp [acknowledged]⟩
      obtain ⟨log, acts, silent⟩ := first
      obtain ⟨sameId, more, later, answers⟩ := stableCommunication_acknowledges lib turn middle
      dsimp only
      rw [bind_of_ok ran, sameId]
      exact ⟨log ++ more, by rw [later, acts, List.append_assoc],
        acknowledges_append (acknowledges_of_silent silent) answers⟩
  | StableCommunication =>
      obtain ⟨sameId, log, acts, answers⟩ := stableCommunication_acknowledges lib turn s
      dsimp only
      rw [sameId]
      exact ⟨log, acts, answers⟩
  | Exit => exact ⟨[], (List.append_nil _).symm, each_nil⟩

end ProtocolClient

namespace Service

open Program ProtocolClient
open ClientDataManager (Op Reply renames)

variable {Key : Type} {lib : CryptoLibrary Key}

/-- What a session takes from its queue is no answer. -/
theorem silent_of_backed {history : List Event} {follower : Int16} {type : PacketType}
    {algorithm : Algorithm} {payload frame : Bytes}
    (backed : Backed history follower (type, payload)) :
    acknowledged (.sent type algorithm payload frame) = none := by
  obtain ⟨_, _, _, _, _, _, _, ⟨_, _, same, _⟩ | ⟨_, _, same, _⟩⟩ := backed
  all_goals rw [(Prod.mk.inj same).1]
  all_goals rfl

/-- What a session logs while it serves a message answers SET_NAME, and nothing else. -/
theorem acknowledges_of_serve {past : List Event} {server : Server Key} {queue : QueueRef}
    {number : Int16} {turn : Turn} {acts : List Act}
    (run : Run (Step lib) {} (past ++ [.serve queue number turn acts]) server) :
    Each (Acknowledges number) acts := by
  have sent := (provenance_run run).sent number
  obtain ⟨before, prior, last⟩ := Run.snoc_iff.mp run
  have sounds := (mirrored_sound prior).2
  cases last with
  | @serve _ client _ result alive posted ran goesOn =>
      have sound : Sound (attend before queue client turn).client := sounds queue client alive
      by_cases waits : turn.message = .Update ∨ turn.message = .PacketSend
      · refine acknowledges_of_silent fun entry member => ?_
        cases entry with
        | sent type algorithm payload frame =>
            refine silent_of_backed (sent _ ?_)
            rw [forwardedTo_snoc, Event.forwarded, if_pos ⟨rfl, waits⟩]
            exact List.mem_append_right _ (List.mem_filterMap.mpr ⟨_, member, rfl⟩)
        | _ => rfl
      · rw [← ran]
        unfold recv
        cases message : turn.message with
        | PacketReceive =>
            obtain ⟨log, acts, answers⟩ := receiveData_acknowledges lib turn sound
            dsimp only
            rw [acts]
            exact answers
        | Update => exact absurd (.inl message) waits
        | PacketSend => exact absurd (.inr message) waits
        | Close =>
            have silent : ∀ entry ∈ [Act.closed], acknowledged entry = none := by
              simp [acknowledged]
            exact acknowledges_of_silent silent
        | _ => exact each_nil

/-- An answer to SET_NAME is about the packet before it. The name of a client that was told that it
has it is its own until it is granted another one, and a client that was told that it cannot have a
name asked for one that another client has. -/
theorem replies_honoured {past later : List Event} {server : Server Key} {queue : QueueRef}
    {number : Int16} {turn : Turn} {acts earlier rest : List Act} {answer : Act} {granted : Bool}
    (run : Run (Step lib) {} (past ++ .serve queue number turn acts :: later) server)
    (made : acts = earlier ++ answer :: rest) (answers : acknowledged answer = some granted) :
    ∃ front name, earlier = front ++ [.received .SET_NAME name,
        .called (.setName number name) (some (.accepted granted))] ∧
      (name ≠ [] → if granted then
        server.database.manager.nameId name = number ∨ ∃ other, other ≠ name ∧
          (.setName number other, .accepted true) ∈ rest.filterMap Act.call ++ callsOf later
      else ∃ holder, holder ≠ number ∧ lastValue (renames holder)
        (callsOf past ++ front.filterMap Act.call) = some name) := by
  have split : past ++ .serve queue number turn acts :: later =
      (past ++ [.serve queue number turn acts]) ++ later := by simp
  obtain ⟨events, mirrored, same, _⟩ := (mirrored_sound run).1
  obtain ⟨database, calls, manager⟩ := (Server.consistent_run mirrored).reached
  rw [split] at run
  obtain ⟨middle, served, _⟩ := Run.append_iff.mp run
  obtain ⟨front, name, rfl⟩ :=
    acknowledges_of_serve served earlier answer rest made granted answers
  refine ⟨front, name, rfl, fun present => ?_⟩
  have silent : Act.call answer = none := by
    cases answer with
    | sent => rfl
    | _ => cases answers
  have whole : Server.callsOf events = (callsOf past ++ front.filterMap Act.call) ++
      (.setName number name, .accepted granted) ::
        (rest.filterMap Act.call ++ callsOf later) := by
    have asked : [Act.received .SET_NAME name, .called (.setName number name)
        (some (.accepted granted))].filterMap Act.call =
        [(.setName number name, .accepted granted)] := rfl
    have after : (answer :: rest).filterMap Act.call = rest.filterMap Act.call := by
      rw [List.filterMap_cons, silent]
    rw [same, callsOf, List.flatMap_append, List.flatMap_cons, Event.calls, Event.acts, made,
      List.filterMap_append, List.filterMap_append, asked, after]
    simp only [callsOf, List.append_assoc, List.cons_append, List.nil_append]
  rw [whole] at calls
  cases granted with
  | true =>
      rw [if_pos rfl, ← manager]
      exact ClientDataManager.name_kept present calls
  | false =>
      rw [if_neg (by decide)]
      exact ClientDataManager.name_taken present calls

/-- A session tells its client whether it has the name `A`, which is all that it was asked for. -/
def answersName (granted : Bool) : Event → Bool
  | .serve _ _ _ acts =>
      acts.any (acknowledged · = some granted) && acts.all fun entry =>
        match entry with
        | .received .SET_NAME name => name = [65]
        | _ => true
  | _ => false

def rivalKeys : RSASimpleCrypto Bytes where
  publicKey := []
  encryptor := []
  maxPlainTextLength := 1
  fixedCipherTextLength := 1
  publicKeyInitialized := true
  privateKeyInitialized := true

/-- Two clients sign in with keys of their own and ask for the same name. -/
def rivalry : List (QueueRef × Turn) :=
  let asks (queue : QueueRef) (key : UInt8) : List (QueueRef × Turn) :=
    [[[9, key]], [[10, 7]], [[7, 11, 7], [7, 17, 65]]].map fun inbound =>
      (queue, { message := .PacketReceive, inbound })
  asks 0 5 ++ asks 1 6

def rivals : Server Bytes :=
  let rival (queue : QueueRef) := (create Server.keyring rivalKeys [] [7] queue).client
  { sessions := (KeyMap.empty.insert 0 (rival 0)).insert 1 (rival 1) }

/-- One of them is told that it has it, and the other one that it has not. -/
theorem replies_honoured_rivals : ∃ (history : List Event) (server : Server Bytes),
    Run (Step Server.keyring) {} history server ∧
    ∀ granted, ∃ past queue number turn front answer rest later, history = past ++
        .serve queue number turn (front ++ [.received .SET_NAME [65],
          .called (.setName number [65]) (some (.accepted granted))] ++ answer :: rest) :: later ∧
      acknowledged answer = some granted ∧
      if granted then
        server.database.manager.nameId [65] = number ∨ ∃ other, other ≠ [65] ∧
          (.setName number other, .accepted true) ∈ rest.filterMap Act.call ++ callsOf later
      else ∃ holder, holder ≠ number ∧ lastValue (renames holder)
        (callsOf past ++ front.filterMap Act.call) = some [65] := by
  have replays : (replay Server.keyring rivalry rivals).map (fun result =>
      (result.1.any (answersName true), result.1.any (answersName false))) = some (true, true) := by
    decide +kernel
  obtain ⟨⟨history, server⟩, replayed, both⟩ := Option.map_eq_some_iff.mp replays
  have run : Run (Step Server.keyring) {} (.accept 0 :: .accept 1 :: history) server :=
    .cons (.accept rfl) (.cons (.accept rfl) (replay_run replayed))
  refine ⟨_, server, run, fun granted => ?_⟩
  have some_answer : history.any (answersName granted) = true := by
    cases granted with
    | true => exact congrArg Prod.fst both
    | false => exact congrArg Prod.snd both
  obtain ⟨event, member, gives⟩ := List.any_eq_true.mp some_answer
  obtain ⟨past, later, rfl⟩ := List.append_of_mem member
  cases event with
  | accept queue | erase queue acts => cases gives
  | serve queue number turn acts =>
      obtain ⟨answered, asked⟩ := Bool.and_eq_true_iff.mp gives
      obtain ⟨answer, there, answers⟩ := List.any_eq_true.mp answered
      obtain ⟨earlier, rest, rfl⟩ := List.append_of_mem there
      have answers := of_decide_eq_true answers
      obtain ⟨front, name, rfl, kept⟩ := @replies_honoured _ _ (.accept 0 :: .accept 1 :: past)
        later _ _ _ _ _ _ _ _ _ run rfl answers
      have same : name = [65] :=
        of_decide_eq_true (List.all_eq_true.mp asked (.received .SET_NAME name) (by simp))
      subst same
      exact ⟨_, queue, number, turn, front, answer, rest, later, rfl, answers,
        kept (List.cons_ne_nil _ _)⟩

end Service

end Locus
