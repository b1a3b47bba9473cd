import Locus.ClientDataManagerSharing
import Locus.LastValue
import Locus.ServiceRefinement

set_option autoImplicit false

/- Where the news that a session sends come from: packets of the client that they are about, which
has let the receiver follow it. -/
namespace Locus

open Transition

namespace ClientDataManager

/-- The name that a call gives to a client. -/
def renames (id : Int16) : Op × Reply → Option Bytes
  | (.setName myId name, .accepted true) => if myId = id then some name else none
  | _ => none

/-- The position that a call adds to a client. -/
def visits (id : Int16) : Op × Reply → Option Position
  | (.addPosition myId latitude longitude time, _) =>
      if myId = id then some { latitude, longitude, time } else none
  | _ => none

/-- What a call does to a link. -/
def relinks (owner follower : Int16) (call : Op × Reply) : Option Change :=
  linkChange owner follower call.1

section Columns

variable {before after : Database} {op : Op} {reply : Reply}

theorem nameOf_step (effect : Effect before op reply after) (id : Int16) :
    after.manager.nameOf id =
      (renames id (op, reply)).elim (before.manager.nameOf id) fun name => name := by
  rcases names_step effect with ⟨_, kept, own⟩ | ⟨myId, name, rfl, rfl, _, _, _, moved⟩
  · rw [kept id]
    cases given : renames id (op, reply) with
    | none => rfl
    | some name =>
        simp only [renames] at given
        split at given
        · rename_i myId new same
          cases same
          split at given
          · rename_i here
            cases given
            rw [← here]
            exact own myId name rfl rfl
          · cases given
        · cases given
  · rw [moved id, renames]
    by_cases own : myId = id
    · rw [if_pos own, if_pos own.symm]
      rfl
    · rw [if_neg own, if_neg (Ne.symm own)]
      rfl

theorem lastPosition_step (effect : Effect before op reply after) (id : Int16) :
    after.manager.lastPosition id =
      (visits id (op, reply)).elim (before.manager.lastPosition id) some := by
  cases op with
  | addPosition myId latitude longitude time =>
      cases effect with
      | @addPosition _ _ _ _ mine here =>
          simp only [visits]
          by_cases own : myId = id
          · subst own
            rw [if_pos rfl]
            exact (KeyMap.view_modify_self _ _ _ here).trans (by
              rw [ClientData.addPosition, List.getLast?_concat]
              rfl)
          · rw [if_neg own]
            exact KeyMap.view_modify_of_ne _ _ _ _ (Ne.symm own)
  | _ => exact lastPosition_kept effect (by simp) id

theorem watchedBy_step (effect : Effect before op reply after) (owner follower : Int16) :
    (owner ∈ after.manager.watchedBy follower) =
      (relinks owner follower (op, reply)).elim (owner ∈ before.manager.watchedBy follower)
        (· = .raise) := by
  rw [← List.count_pos_iff, watchers_step effect, ← List.count_pos_iff, relinks]
  cases linkChange owner follower op with
  | none => rfl
  | some change => cases change <;> simp [Change.apply]

end Columns

section Runs

variable {calls : List (Op × Reply)} {m : ClientDataManager}

/-- A client is called what it was last told that it is called. -/
theorem named_last (reaches : Reaches calls m) {id : Int16} (named : m.nameOf id ≠ []) :
    lastValue (renames id) calls = some (m.nameOf id) := by
  obtain ⟨database, run, rfl⟩ := reaches
  have column := run.column (fun database => database.manager.nameOf id) (renames id)
    (fun name => name) fun _ _ _ last => nameOf_step (step_iff_effect.mp last) id
  dsimp only at column
  rw [column] at named ⊢
  cases found : lastValue (renames id) calls with
  | none =>
      rw [found] at named
      exact absurd rfl named
  | some name => rfl

theorem placed_last (reaches : Reaches calls m) (id : Int16) :
    m.lastPosition id = lastValue (visits id) calls := by
  obtain ⟨database, run, rfl⟩ := reaches
  have column := run.column (fun database => database.manager.lastPosition id) (visits id) some
    fun _ _ _ last => lastPosition_step (step_iff_effect.mp last) id
  dsimp only at column
  rw [column]
  cases lastValue (visits id) calls <;> rfl

/-- A link is there as long as the last word on it was the owner's consent. -/
theorem linked_last (reaches : Reaches calls m) {owner follower : Int16}
    (linked : owner ∈ m.watchedBy follower) :
    lastValue (relinks owner follower) calls = some .raise := by
  obtain ⟨database, run, rfl⟩ := reaches
  have column := run.column (fun database => owner ∈ database.manager.watchedBy follower)
    (relinks owner follower) (· = .raise)
    fun _ _ _ last => watchedBy_step (step_iff_effect.mp last) owner follower
  dsimp only at column
  rw [column] at linked
  cases found : lastValue (relinks owner follower) calls with
  | none =>
      rw [found] at linked
      cases linked
  | some change =>
      rw [found] at linked
      exact congrArg some linked

end Runs

end ClientDataManager

namespace Service

open Program ProtocolClient
open ClientDataManager (Op Reply renames visits relinks)

variable {Key : Type}

/-- The last call that said something was made for a packet to a session of client `owner`. -/
def Sourced {γ : Type} (past : List Event) (value : Op × Reply → Option γ) (owner : Int16)
    (source : Turn → List Act → Prop) : Prop :=
  ∃ earlier queue turn acts later, past = earlier ++ .serve queue owner turn acts :: later ∧
    source turn acts ∧ ∀ call ∈ callsOf later, value call = none

/-- The client has let the other one follow it, and neither of them has taken that back. -/
def Allowed (past : List Event) (owner follower : Int16) : Prop :=
  Sourced past (relinks owner follower) owner fun _ acts =>
    ∃ name, .received .ADD_FOLLOWER name ∈ acts ∧
      .called (.getNameId name) (some (.id follower)) ∈ acts

/-- The client has reported the position, and no other one since. -/
def Reported (past : List Event) (owner : Int16) (position : Position) : Prop :=
  Sourced past (visits owner) owner fun turn acts =>
    ∃ payload, .received .MY_LOCATION payload ∈ acts ∧ payload.length = 16 ∧
      position = mixed turn payload

/-- The client has got the name that it asked for, and no other one since. -/
def Called (past : List Event) (owner : Int16) (name : Bytes) : Prop :=
  Sourced past (renames owner) owner fun _ acts =>
    .received .SET_NAME name ∈ acts ∧ .called (.setName owner name) (some (.accepted true)) ∈ acts

/-- The news is in a reply that was made meanwhile. -/
def TellsPlace (acts : List Act) (follower : Int16) (news : Int16 × Position) : Prop :=
  ∃ positions, .called (.getNewPositions follower) (some (.positions positions)) ∈ acts ∧
    news ∈ positions

def TellsName (acts : List Act) (follower : Int16) (news : Int16 × Bytes) : Prop :=
  ∃ names, .called (.getNewNames follower) (some (.names names)) ∈ acts ∧ news ∈ names

/-- An update queued the packet for news that it was told itself, and when it was due: the follower
was allowed to know what it says. -/
def Backed (history : List Event) (follower : Int16) (content : PacketType × Bytes) : Prop :=
  ∃ past queue turn acts later, history = past ++ .serve queue follower turn acts :: later ∧
    turn.message = .Update ∧
    ((∃ owner position, content = (locationPacket (owner, position)).content ∧
      TellsPlace acts follower (owner, position) ∧
      Allowed past owner follower ∧ Reported past owner position) ∨
    ∃ owner name, content = (followedPacket turn (owner, name)).content ∧
      TellsName acts follower (owner, name) ∧
      Allowed past owner follower ∧ Called past owner name)

/-- A call about names, positions and links was made for a packet. -/
def Attributed (event : Event) : Prop :=
  ∀ call ∈ event.calls, ClientDataManager.isDirect call.1 = true →
    ∃ queue id turn acts calls, event = .serve queue id turn acts ∧
      Prompted turn id acts calls ∧ calls ⊆ event.calls ∧ call ∈ calls

section Attributions

variable {lib : CryptoLibrary Key} {server after : Server Key} {event : Event}

theorem attributed_of_effect {past : List Server.Event}
    (consistent : Server.Consistent past server) (effect : Effect lib server event after) :
    Attributed event := by
  intro call member direct
  cases effect with
  | accept step => cases member
  | listens alive message kept ran prompted =>
      exact ⟨_, _, _, _, _, rfl, prompted, fun _ inside => inside, member⟩
  | joins alive receives tested shown keyed ran rest kept made prompted =>
      simp only [Event.calls, Event.acts, made] at member ⊢
      rcases List.mem_cons.mp member with rfl | asked
      · cases direct
      · exact ⟨_, _, _, _, _, rfl, prompted, fun _ inside => List.mem_cons_of_mem _ inside, asked⟩
  | @tells queue client turn packets acts _ message alive step =>
      have told := Server.effect_of_step consistent step
      generalize client.id = id at told
      simp only [Event.calls, Event.acts] at member
      cases told with
      | update _ registered posted named placed updated =>
          rw [updated.calls] at member
          rcases List.mem_cons.mp member with rfl | second
          · cases direct
          · rw [List.mem_singleton.mp second] at direct
            cases direct
      | ignore => cases member
  | @forwards queue client turn acts _ message alive step =>
      have sent := Server.effect_of_step consistent step
      generalize client.id = id at sent
      simp only [Event.calls, Event.acts] at member
      cases sent with
      | sendRemainingData _ packets sent calls =>
          rw [calls] at member
          cases member
  | @erase queue acts _ step =>
      have gone := Server.effect_of_step consistent step
      simp only [Event.calls, Event.acts] at member
      cases gone with
      | unregister _ positive called calls =>
          rw [calls] at member
          rw [List.mem_singleton.mp member] at direct
          cases direct
      | vanish => cases member

end Attributions

section Sources

variable {past : List Event} {owner follower : Int16}

theorem called_of_mem {acts : List Act} {op : Op} {reply : Reply}
    (member : (op, reply) ∈ acts.filterMap Act.call) : .called op (some reply) ∈ acts := by
  obtain ⟨entry, inside, call⟩ := List.mem_filterMap.mp member
  cases entry with
  | called other answer =>
      cases answer with
      | none => cases call
      | some answer =>
          cases call
          exact inside
  | _ => cases call

/-- A call that a packet asks for. -/
inductive Asked (turn : Turn) (id : Int16) (acts : List Act) (op : Op) : Prop
  | name {payload : Bytes} (received : .received .SET_NAME payload ∈ acts)
      (same : op = .setName id payload)
  | lookUp {payload : Bytes} (same : op = .getNameId payload)
  | named {type : PacketType} {call : Int16 → Int16 → Op} {payload : Bytes} {other : Int16}
      (kind : namedCall type = some call) (received : .received type payload ∈ acts)
      (looked : .called (.getNameId payload) (some (.id other)) ∈ acts)
      (same : op = call id other)
  | place {payload : Bytes} (received : .received .MY_LOCATION payload ∈ acts)
      (sixteen : payload.length = 16) (same : op = located turn id payload)

theorem Prompted.asked {turn : Turn} {id : Int16} {acts : List Act} {calls : List (Op × Reply)}
    (prompted : Prompted turn id acts calls) (inside : calls ⊆ acts.filterMap Act.call) :
    ∀ call ∈ calls, Asked turn id acts call.1 := by
  intro call member
  rcases prompted with rfl | ⟨type, payload, received, asks⟩
  · cases member
  · cases asks with
    | nothing => cases member
    | name =>
        rw [List.mem_singleton.mp member]
        exact .name received rfl
    | unknown =>
        rw [List.mem_singleton.mp member]
        exact .lookUp rfl
    | known kind =>
        have looked := called_of_mem (inside (List.mem_cons_self ..))
        rcases List.mem_cons.mp member with rfl | second
        · exact .lookUp rfl
        · rw [List.mem_singleton.mp second]
          exact .named kind received looked rfl
    | place sixteen =>
        rw [List.mem_singleton.mp member]
        exact .place received sixteen rfl

theorem sourced_of_last {γ : Type} {value : Op × Reply → Option γ} {last : γ}
    {source : Turn → List Act → Prop} (attributed : ∀ event ∈ past, Attributed event)
    (found : lastValue value (callsOf past) = some last)
    (direct : ∀ call, value call = some last → ClientDataManager.isDirect call.1 = true)
    (asked : ∀ turn id acts op reply, Asked turn id acts op → .called op (some reply) ∈ acts →
      value (op, reply) = some last → id = owner ∧ source turn acts) :
    Sourced past value owner source := by
  obtain ⟨earlier, event, later, rfl, gave, silent⟩ := lastValue_flatMap found
  obtain ⟨call, member, gives⟩ := exists_of_lastValue gave
  obtain ⟨queue, id, turn, acts, calls, rfl, prompted, inside, mine⟩ :=
    attributed event (by simp) call member (direct call gives)
  obtain ⟨rfl, source⟩ := asked turn id acts call.1 call.2 (prompted.asked inside call mine)
    (called_of_mem member) gives
  exact ⟨earlier, queue, turn, acts, later, rfl, source, silent⟩

theorem allowed_of_last (attributed : ∀ event ∈ past, Attributed event)
    (found : lastValue (relinks owner follower) (callsOf past) = some .raise) :
    Allowed past owner follower := by
  refine sourced_of_last attributed found ?_ ?_
  · intro call raised
    rw [ClientDataManager.addFollower_of_raise raised]
    rfl
  · intro turn id acts op reply asked called raised
    have consent := ClientDataManager.addFollower_of_raise raised
    dsimp only at consent
    subst consent
    cases asked with
    | name _ same | lookUp same | place _ _ same => cases same
    | @named type call payload other kind received looked same =>
        cases type <;> cases kind <;> cases same
        exact ⟨rfl, payload, received, looked⟩

theorem reported_of_last {position : Position} (attributed : ∀ event ∈ past, Attributed event)
    (found : lastValue (visits owner) (callsOf past) = some position) :
    Reported past owner position := by
  refine sourced_of_last attributed found ?_ ?_
  · rintro ⟨op, reply⟩ visited
    cases op <;> first | rfl | cases visited
  · intro turn id acts op reply asked called visited
    cases asked with
    | name _ same | lookUp same =>
        subst same
        cases visited
    | @named type call payload other kind received looked same =>
        subst same
        cases type <;> cases kind <;> cases visited
    | place received sixteen same =>
        subst same
        simp only [located, visits] at visited
        split at visited
        · rename_i own
          cases visited
          exact ⟨own, _, received, sixteen, rfl⟩
        · cases visited

theorem called_of_last {name : Bytes} (attributed : ∀ event ∈ past, Attributed event)
    (found : lastValue (renames owner) (callsOf past) = some name) :
    Called past owner name := by
  refine sourced_of_last attributed found ?_ ?_
  · rintro ⟨op, reply⟩ renamed
    cases op <;> first | rfl | cases renamed
  · intro turn id acts op reply asked called renamed
    cases asked with
    | lookUp same | place _ _ same =>
        subst same
        cases renamed
    | @named type call payload other kind received looked same =>
        subst same
        cases type <;> cases kind <;> cases renamed
    | @name payload received same =>
        subst same
        simp only [renames] at renamed
        split at renamed
        · rename_i myId new accepted
          cases accepted
          split at renamed
          · rename_i own
            cases renamed
            exact ⟨own, received, own ▸ called⟩
          · cases renamed
        · cases renamed

end Sources

/-- The sessions hold and send only what was due. -/
structure Provenance (history : List Event) (server : Server Key) : Prop where
  attributed : ∀ event ∈ history, Attributed event
  waiting : ∀ queue client, server.sessions queue = some client →
    ∀ packet ∈ client.remainingPackets, Backed history client.id packet.content
  sent : ∀ id, ∀ content ∈ forwardedTo history id, Backed history id content

section Steps

variable {lib : CryptoLibrary Key} {history : List Event} {server after : Server Key}
  {event : Event}

theorem Backed.later {follower : Int16} {content : PacketType × Bytes}
    (backed : Backed history follower content) (event : Event) :
    Backed (history ++ [event]) follower content := by
  obtain ⟨past, queue, turn, acts, later, rfl, due⟩ := backed
  exact ⟨past, queue, turn, acts, later ++ [event], by simp, due⟩

/-- What the two queries of `update()` report may be told. -/
theorem news_due {turn : Turn} {id : Int16} {acts : List Act}
    {names : List (Int16 × Bytes)} {positions : List (Int16 × Position)}
    {before middle database : Database} (attributed : ∀ event ∈ history, Attributed event)
    (reaches : ClientDataManager.Reaches (callsOf history) before.manager)
    (named : ClientDataManager.Effect before (.getNewNames id) (.names names) middle)
    (placed : ClientDataManager.Effect middle (.getNewPositions id) (.positions positions)
      database)
    (calls : acts.filterMap Act.call =
      [(.getNewNames id, .names names), (.getNewPositions id, .positions positions)]) :
    ∀ content ∈ Server.newsOf turn names positions,
      (∃ owner position, content = (locationPacket (owner, position)).content ∧
        TellsPlace acts id (owner, position) ∧
        Allowed history owner id ∧ Reported history owner position) ∨
      ∃ owner name, content = (followedPacket turn (owner, name)).content ∧
        TellsName acts id (owner, name) ∧
        Allowed history owner id ∧ Called history owner name := by
  intro content member
  rcases Server.mem_newsOf.mp member with ⟨⟨owner, name⟩, told, rfl⟩ | ⟨⟨owner, place⟩, told, rfl⟩
  · obtain ⟨watched, unempty, same⟩ := ClientDataManager.met_told named _ told
    have last := ClientDataManager.named_last reaches unempty
    rw [same] at last
    have asked : .called (.getNewNames id) (some (.names names)) ∈ acts :=
      called_of_mem (by rw [calls]; exact List.mem_cons_self ..)
    exact .inr ⟨owner, name, rfl, ⟨names, asked, told⟩, allowed_of_last attributed
      (ClientDataManager.linked_last reaches watched), called_of_last attributed last⟩
  · obtain ⟨watched, _, same⟩ := ClientDataManager.looked_told placed _ told
    have later := reaches.snoc named
    have link := ClientDataManager.linked_last later watched
    have last := ClientDataManager.placed_last later owner
    rw [lastValue_snoc] at link last
    have asked : .called (.getNewPositions id) (some (.positions positions)) ∈ acts :=
      called_of_mem (by rw [calls]; simp)
    exact .inl ⟨owner, place, rfl, ⟨positions, asked, told⟩, allowed_of_last attributed link,
      reported_of_last attributed (last.symm.trans same)⟩

/-- A session goes on with packets that were due, and sends others. -/
theorem Provenance.serve {queue : QueueRef} {next : ProtocolClient Key}
    {database : Database} (provenance : Provenance history server)
    (attributed : ∀ other ∈ history ++ [event], Attributed other)
    (packets : ∀ packet ∈ next.remainingPackets,
      Backed (history ++ [event]) next.id packet.content)
    (sent : ∀ id, ∀ content ∈ event.forwarded id, Backed (history ++ [event]) id content) :
    Provenance (history ++ [event])
      { database, sessions := server.sessions.modify queue fun _ => next } := by
  refine ⟨attributed, ?_, ?_⟩
  · intro other found there
    rcases KeyMap.modify_eq_some there with ⟨_, rfl⟩ | ⟨_, there⟩
    · exact packets
    · intro packet member
      exact (provenance.waiting other found there packet member).later event
  · intro id content member
    rw [forwardedTo_snoc] at member
    rcases List.mem_append.mp member with before | now
    · exact (provenance.sent id content before).later event
    · exact sent id content now

/-- A session that leaves its queue alone. -/
theorem Provenance.kept {queue : QueueRef} {client next : ProtocolClient Key}
    {database : Database} (provenance : Provenance history server)
    (attributed : ∀ other ∈ history ++ [event], Attributed other)
    (alive : server.sessions queue = some client)
    (kept : next.remainingPackets = [] ∨
      next.remainingPackets = client.remainingPackets ∧ next.id = client.id)
    (silent : ∀ id, event.forwarded id = []) :
    Provenance (history ++ [event])
      { database, sessions := server.sessions.modify queue fun _ => next } := by
  refine @Provenance.serve _ _ _ _ queue next database provenance attributed ?_ ?_
  · intro packet member
    rcases kept with empty | ⟨same, sameId⟩
    · rw [empty] at member
      cases member
    · rw [same] at member
      rw [sameId]
      exact (provenance.waiting queue client alive packet member).later event
  · intro id content member
    rw [silent id] at member
    cases member

/-- A session that hands the first packets of its queue over, after it has queued some. -/
theorem Provenance.hand {queue : QueueRef} {client next : ProtocolClient Key} {turn : Turn}
    {acts : List Act} {database : Database} {queued handed : List Packet}
    (provenance : Provenance history server)
    (attributed : ∀ other ∈ history ++ [.serve queue client.id turn acts], Attributed other)
    (alive : server.sessions queue = some client)
    (balance : client.remainingPackets ++ queued = handed ++ next.remainingPackets)
    (due : ∀ content ∈ queued.map Packet.content,
      Backed (history ++ [.serve queue client.id turn acts]) client.id content)
    (sent : acts.filterMap Act.packet = handed.map Packet.content)
    (sameId : next.id = client.id) :
    Provenance (history ++ [.serve queue client.id turn acts])
      { database, sessions := server.sessions.modify queue fun _ => next } := by
  have all : ∀ packet ∈ handed ++ next.remainingPackets,
      Backed (history ++ [.serve queue client.id turn acts]) client.id packet.content := by
    intro packet member
    rw [← balance] at member
    rcases List.mem_append.mp member with old | new
    · exact (provenance.waiting queue client alive packet old).later _
    · exact due packet.content (List.mem_map_of_mem new)
  refine @Provenance.serve _ _ _ _ queue next database provenance attributed ?_ ?_
  · intro packet member
    rw [sameId]
    exact all packet (List.mem_append_right handed member)
  · intro id content member
    rw [Event.forwarded] at member
    split at member
    · rename_i own
      rw [sent] at member
      obtain ⟨packet, inside, rfl⟩ := List.mem_map.mp member
      rw [← own.1]
      exact all packet (List.mem_append_left _ inside)
    · cases member

theorem provenance_step {past : List Server.Event} (provenance : Provenance history server)
    (consistent : Server.Consistent past server)
    (same : Server.callsOf past = callsOf history) (effect : Effect lib server event after) :
    Provenance (history ++ [event]) after := by
  have attributed : ∀ other ∈ history ++ [event], Attributed other := by
    intro other member
    rcases List.mem_append.mp member with before | now
    · exact provenance.attributed other before
    · rw [List.mem_singleton.mp now]
      exact attributed_of_effect consistent effect
  have quiet : (∀ id, event.forwarded id = []) → ∀ id, ∀ content ∈
      forwardedTo (history ++ [event]) id, Backed (history ++ [event]) id content := by
    intro silent id content member
    rw [forwardedTo_snoc, silent, List.append_nil] at member
    exact (provenance.sent id content member).later event
  cases effect with
  | accept step =>
      have created := Server.effect_of_step consistent step
      cases created with
      | create unused address stage sameId packets =>
          refine ⟨attributed, ?_, quiet fun _ => rfl⟩
          intro other found there packet member
          rcases KeyMap.insert_eq_some unused there with ⟨_, rfl⟩ | ⟨_, there⟩
          · rw [packets] at member
            cases member
          · exact (provenance.waiting other found there packet member).later _
  | listens alive message kept ran prompted =>
      refine provenance.kept attributed alive (.inr ⟨kept.packets, kept.id⟩) fun id => ?_
      rw [Event.forwarded, if_neg (by simp [message])]
  | @joins queue client before next _ _ _ _ _ _ alive receives tested shown keyed ran rest kept
      made prompted =>
      have unregistered : ¬ client.Registered := by
        rw [← shown.registered, Registered, tested]
        decide
      have empty := (consistent.fresh queue client alive unregistered).2
      refine provenance.kept attributed alive
        (.inl (kept.packets.trans (shown.packets.trans empty))) fun id => ?_
      rw [Event.forwarded, if_neg (by simp [receives])]
  | @tells queue client turn packets acts _ message alive step =>
      have told := Server.effect_of_step consistent step
      generalize client.id = id at told
      cases told with
      | @update _ found next _ names positions handed middle database _ there registered posted
          named placed updated =>
          rw [alive] at there
          cases there
          refine provenance.hand attributed alive updated.queue ?_ updated.sent updated.id
          intro content member
          have reaches : ClientDataManager.Reaches (callsOf history)
              (server.popUpdate queue).database.manager := same ▸ consistent.reached
          exact ⟨history, queue, turn, acts, [], rfl, message,
            news_due provenance.attributed reaches named placed updated.calls content member⟩
      | ignore there unregistered posted =>
          rw [alive] at there
          cases there
          refine provenance.kept attributed alive (.inr ⟨rfl, rfl⟩) fun id => ?_
          rw [Event.forwarded]
          split <;> rfl
  | @forwards queue client turn acts _ message alive step =>
      have sent := Server.effect_of_step consistent step
      generalize client.id = id at sent
      cases sent with
      | @sendRemainingData _ found next handed _ there packets sent calls sameQueue sameId
          sameStage =>
          rw [alive] at there
          cases there
          refine @Provenance.hand _ _ _ queue client next turn acts _ [] handed provenance
            attributed alive ?_ (by simp) sent sameId
          rw [List.append_nil, packets]
  | @erase queue acts _ step =>
      have gone := Server.effect_of_step consistent step
      cases gone with
      | unregister | vanish =>
          refine ⟨attributed, ?_, quiet fun _ => rfl⟩
          intro other found there packet member
          exact (provenance.waiting other found (KeyMap.erase_eq_some there).2 packet
            member).later _

end Steps

section Runs

variable {lib : CryptoLibrary Key} {history : List Event} {server : Server Key}

theorem provenance_run (run : Run (Step lib) {} history server) :
    Provenance history server := by
  have holds : Mirrored lib history server ∧ AllSound server ∧ Provenance history server := by
    apply run.history_invariant (fun history server =>
      Mirrored lib history server ∧ AllSound server ∧ Provenance history server)
    · exact ⟨⟨[], .nil, rfl, fun _ => rfl⟩, by simp [AllSound],
        by simp, by simp, by simp [forwardedTo]⟩
    · rintro history before event after _ ⟨mirrored, sound, provenance⟩ step
      obtain ⟨events, earlier, calls, handed⟩ := mirrored
      have consistent := Server.consistent_run earlier
      have effect := effect_of_step consistent sound step
      exact ⟨mirrored_step ⟨events, earlier, calls, handed⟩ effect, allSound_step sound step,
        provenance_step provenance consistent calls effect⟩
  exact holds.2.2

/-- Whatever a session of a client hands over from its queue, `update()` has queued it for that
client, and at that time it was what the client that it is about had said last, in packets of its
own, while it let the receiver follow it. -/
theorem forwarded_backed (run : Run (Step lib) {} history server) {follower : Int16}
    {content : PacketType × Bytes} (told : content ∈ forwardedTo history follower) :
    Backed history follower content :=
  (provenance_run run).sent follower content told

end Runs

theorem forwarded_backed_itinerary :
    ∃ history server, Run (Step transparent) {} history server ∧
      ∀ content ∈ told, Backed history 1 content := by
  obtain ⟨history, server, run, sent⟩ := itinerary_run
  exact ⟨history, server, run, fun content member =>
    forwarded_backed run (sent.symm ▸ member)⟩

end Service

end Locus
