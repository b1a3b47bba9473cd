import Locus.ClientDataManagerDuplicates
import Locus.ClientDataManagerRegister
import Locus.Sharing

set_option autoImplicit false

/- The manager is a way to keep a `Sharing`: its pairs of tables are the two directions of the
partial bijections, and its lists with repetitions are the relation between followers and
followed. -/
namespace Locus.ClientDataManager

open Transition

/-- What people see of a call. -/
def shown : Op × Reply → List (Sharing.Action Int16 Bytes Bytes Position)
  | (.registerClient publicKey _, reply) => [.join publicKey reply.toId]
  | (.unregister _, _) => []
  | (.addFollower myId followerId, _) => [.allow myId followerId]
  | (.removeFollower myId followerId, _) => [.forbid myId followerId]
  | (.stopFollowing myId followingId, _) => [.forbid followingId myId]
  | (.addPosition myId latitude longitude time, _) => [.visit myId { latitude, longitude, time }]
  | (.getNewPositions id, reply) => [.look id reply.toPositions]
  | (.getNameId name, reply) => [.find name (if reply.toId = 0 then none else some reply.toId)]
  | (.setName myId name, reply) =>
      [if reply.isAccepted then .rename myId name else .refuse myId name]
  | (.getNewNames id, reply) => [.meet id reply.toNames]

/-- Nobody asks for the empty name, which stands for none. -/
def Op.Named : Op → Prop
  | .setName _ name => name ≠ []
  | _ => True

structure KeysAre (m : ClientDataManager) (keys : Bytes ≃. Int16) : Prop where
  ids : ∀ key, m.clientsId key = keys key
  records : ∀ id, m.keyAt id = keys.symm id

structure NamesAre (m : ClientDataManager) (names : Bytes ≃. Int16) : Prop where
  index : ∀ name, m.clientsName name = names name
  records : ∀ id, names.symm id = if m.nameOf id = [] then none else some (m.nameOf id)

structure LinksAre (m : ClientDataManager) (follows : Set (Int16 × Int16)) : Prop where
  followers : ∀ owner follower, follower ∈ m.followersOf owner ↔ (follower, owner) ∈ follows
  watchers : ∀ owner follower, owner ∈ m.watchedBy follower ↔ (follower, owner) ∈ follows

structure Represents (m : ClientDataManager) (s : Sharing Int16 Bytes Bytes Position) :
    Prop where
  keys : KeysAre m s.keys
  names : NamesAre m s.names
  links : LinksAre m s.follows
  places : ∀ id, m.lastPosition id = s.place id

section Steps

variable {before after : Database} {op : Op} {reply : Reply}

theorem keysAre_kept {keys : Bytes ≃. Int16} (are : KeysAre before.manager keys)
    (effect : Effect before op reply after)
    (old : ∀ key, keyOf op = some key → before.manager.clientsId key ≠ none) :
    KeysAre after.manager keys := by
  rcases register_step effect with ⟨_, ids, records, _⟩ | ⟨key, own, _, fresh, _⟩
  · exact ⟨fun key => by rw [ids, are.ids], fun id => by rw [records, are.records]⟩
  · exact absurd fresh (old key own)

theorem keysAre_joined {keys : Bytes ≃. Int16} {key : Bytes}
    (are : KeysAre before.manager keys) (effect : Effect before op reply after)
    (own : keyOf op = some key) (fresh : before.manager.clientsId key = none)
    (unused : before.manager.keyAt before.manager.nextId = none) :
    KeysAre after.manager (keys.assign key before.manager.nextId) := by
  rcases register_step effect with ⟨_, _, _, known⟩ | ⟨other, same, _, _, _, ids, records⟩
  · obtain ⟨id, _, stored⟩ := known key own
    rw [fresh] at stored
    cases stored
  · rw [own, Option.some.injEq] at same
    subst same
    constructor
    · intro other
      rw [ids, KeyMap.insert_apply, fresh, Option.getD_none, are.ids,
        PEquiv.assign_of_free _ (by rw [← are.records, unused])]
    · intro id
      rw [records, are.records, PEquiv.assign_symm_of_free _ (by rw [← are.ids, fresh])]
      by_cases here : id = before.manager.nextId
      · rw [if_pos here, if_pos here, here, ← are.records, unused, Option.getD_none]
      · rw [if_neg here, if_neg here]

theorem namesAre_kept {names : Bytes ≃. Int16} (are : NamesAre before.manager names)
    (effect : Effect before op reply after)
    (other : ∀ id name, op = .setName id name → reply ≠ .accepted true) :
    NamesAre after.manager names := by
  rcases names_step effect with ⟨index, records, _⟩ | ⟨id, name, same, accepted, _⟩
  · exact ⟨fun name => by rw [index, are.index], fun id => by rw [records, are.records]⟩
  · exact absurd accepted (other id name same)

/-- The links after a call, from its change to each of them. -/
theorem linksAre_step {follows next : Set (Int16 × Int16)}
    (are : LinksAre before.manager follows) (effect : Effect before op reply after)
    (changed : ∀ owner follower, (follower, owner) ∈ next ↔
      linkChange owner follower op = some .raise ∨
        linkChange owner follower op = none ∧ (follower, owner) ∈ follows) :
    LinksAre after.manager next := by
  have counted (change : Option Change) (count : Nat) :
      0 < Change.apply change count ↔ change = some .raise ∨ change = none ∧ 0 < count := by
    rcases change with _ | ⟨_ | _⟩ <;> simp [Change.apply]
  constructor
  · intro owner follower
    rw [changed, ← are.followers, ← List.count_pos_iff, ← List.count_pos_iff,
      followers_step effect, counted]
  · intro owner follower
    rw [changed, ← are.watchers, ← List.count_pos_iff, ← List.count_pos_iff,
      watchers_step effect, counted]

theorem linksAre_kept {follows : Set (Int16 × Int16)} (are : LinksAre before.manager follows)
    (effect : Effect before op reply after)
    (kept : ∀ owner follower, linkChange owner follower op = none) :
    LinksAre after.manager follows :=
  linksAre_step are effect fun owner follower => by simp [kept]

/-- Only a report moves the last position of a client. -/
theorem lastPosition_kept (effect : Effect before op reply after)
    (other : ∀ id latitude longitude time, op ≠ .addPosition id latitude longitude time) :
    ∀ id, after.manager.lastPosition id = before.manager.lastPosition id := by
  cases effect with
  | registerKnown | unregister | getNameId | setNameTaken => exact fun _ => rfl
  | registerFresh => exact fun id => KeyMap.view_insert _ _ _ _ _ _ rfl
  | addFollower | removeFollower | stopFollowing =>
      exact KeyMap.view_edits_kept (fun _ => rfl) (fun _ => rfl)
  | getNewPositions | setNameFree | getNewNames =>
      exact fun id => KeyMap.view_modify_kept _ _ _ _ _ _ fun _ _ => rfl
  | addPosition => exact absurd rfl (other _ _ _ _)

/-- Two names of the index lead to one client only if it has them both. -/
theorem NamesAre.held {m : ClientDataManager} {names : Bytes ≃. Int16} (are : NamesAre m names)
    {id : Int16} {name : Bytes} :
    names name = some id ↔ m.nameOf id ≠ [] ∧ m.nameOf id = name := by
  rw [← names.eq_some_iff, are.records]
  split <;> simp [*]

/-- A name that is free, or the one that the client has, is given. -/
theorem namesAre_renamed {names : Bytes ≃. Int16} {id : Int16} {name : Bytes}
    (are : NamesAre before.manager names) (named : name ≠ [])
    (effect : Effect before (.setName id name) (.accepted true) after) :
    NamesAre after.manager (names.assign name id) ∧
      ∀ holder, names name = some holder → holder = id := by
  rcases names_step effect with ⟨index, records, mine⟩ | ⟨_, _, same, _, free, _, index, records⟩
  · have held : names name = some id := by
      rw [are.held, mine id name rfl rfl]
      exact ⟨named, rfl⟩
    rw [PEquiv.assign_same names held]
    refine ⟨⟨fun name => by rw [index, are.index], fun id => by rw [records, are.records]⟩, ?_⟩
    intro holder also
    rw [held] at also
    exact (Option.some.inj also).symm
  · cases same
    rw [are.index] at free
    refine ⟨⟨?_, ?_⟩, by simp [free]⟩
    · intro other
      rw [index, PEquiv.assign_apply]
      by_cases here : other = name
      · subst here
        rw [KeyMap.insert_self, released_free (by rw [are.index, free]), if_pos rfl,
          Option.getD_none]
      · rw [KeyMap.insert_of_ne _ _ here, if_neg here]
        by_cases unnamed : before.manager.nameOf id = []
        · rw [if_pos unnamed, if_neg fun held => (are.held.mp held).1 unnamed, are.index]
        · rw [if_neg unnamed]
          by_cases own : other = before.manager.nameOf id
          · rw [own, KeyMap.erase_self, if_pos (are.held.mpr ⟨unnamed, rfl⟩)]
          · rw [KeyMap.erase_of_ne _ own, are.index,
              if_neg fun held => own (are.held.mp held).2.symm]
    · intro other
      rw [PEquiv.assign_symm_of_free names free, records, are.records]
      by_cases same : other = id
      · rw [if_pos same, if_pos same, if_neg named]
      · rw [if_neg same, if_neg same]

theorem known_iff {m : ClientDataManager} {s : Sharing Int16 Bytes Bytes Position}
    (represents : Represents m s) (id : Int16) : s.Known id ↔ (m.clientsData id).isSome := by
  rw [Sharing.Known, ← represents.keys.records, keyAt, KeyMap.view]
  cases m.clientsData id <;> simp

/-- Who is reported has a name, and is at the place that is reported. -/
theorem looked_told {id : Int16} {found : List (Int16 × Position)}
    (effect : Effect before (.getNewPositions id) (.positions found) after) :
    ∀ news ∈ found, news.1 ∈ before.manager.watchedBy id ∧
      before.manager.nameOf news.1 ≠ [] ∧ before.manager.lastPosition news.1 = some news.2 := by
  have queried := (getNewPositions_queried effect).1
  intro news member
  refine ⟨watched_of_reports (.inl rfl) effect ⟨news.2, member⟩, ?_,
    reported_last queried news member⟩
  rw [queried.reported] at member
  obtain ⟨watcher, _, told⟩ := List.mem_flatMap.mp member
  rw [watchPositions_keepsId.found _ _ news told, nameOf_eq]
  intro unnamed
  rw [watchPositions_silent (.inr unnamed)] at told
  cases told

/-- A name that is reported is the one that the client has. -/
theorem met_told {id : Int16} {found : List (Int16 × Bytes)}
    (effect : Effect before (.getNewNames id) (.names found) after) :
    ∀ news ∈ found, news.1 ∈ before.manager.watchedBy id ∧
      before.manager.nameOf news.1 ≠ [] ∧ before.manager.nameOf news.1 = news.2 := by
  have queried := (getNewNames_queried effect).1
  intro news member
  refine ⟨watched_of_reports (.inr rfl) effect ⟨news.2, member⟩, ?_⟩
  rw [queried.reported] at member
  obtain ⟨watcher, _, told⟩ := List.mem_flatMap.mp member
  unfold watchName at told
  split at told
  · rename_i fresh
    rw [List.mem_singleton.mp told]
    dsimp only
    rw [nameOf_eq]
    exact ⟨fresh.1, rfl⟩
  · cases told

end Steps

section Simulation

variable {before after : Database} {op : Op} {reply : Reply}
  {s : Sharing Int16 Bytes Bytes Position}

/-- The state of the people is untouched by a call that does not change the tables. -/
theorem represents_kept (represents : Represents before.manager s)
    (effect : Effect before op reply after)
    (old : ∀ key, keyOf op = some key → before.manager.clientsId key ≠ none)
    (called : ∀ id name, op = .setName id name → reply ≠ .accepted true)
    (links : ∀ owner follower, linkChange owner follower op = none)
    (still : ∀ id latitude longitude time, op ≠ .addPosition id latitude longitude time) :
    Represents after.manager s := by
  refine ⟨keysAre_kept represents.keys effect old, namesAre_kept represents.names effect called,
    linksAre_kept represents.links effect links, ?_⟩
  intro id
  rw [lastPosition_kept effect still, represents.places]

/-- A call that changes links only. -/
theorem represents_linked {next : Sharing Int16 Bytes Bytes Position}
    (represents : Represents before.manager s) (effect : Effect before op reply after)
    (link : ∃ owner follower, (linkChange owner follower op).isSome)
    (keys : next.keys = s.keys) (names : next.names = s.names) (place : next.place = s.place)
    (changed : ∀ owner follower, (follower, owner) ∈ next.follows ↔
      linkChange owner follower op = some .raise ∨
        linkChange owner follower op = none ∧ (follower, owner) ∈ s.follows) :
    Represents after.manager next := by
  obtain ⟨owner, follower, moved⟩ := link
  refine ⟨?_, ?_, linksAre_step represents.links effect changed, ?_⟩
  · rw [keys]
    refine keysAre_kept represents.keys effect fun key own => ?_
    cases op <;> simp [keyOf, linkChange] at own moved
  · rw [names]
    refine namesAre_kept represents.names effect fun id name same => ?_
    rw [same] at moved
    cases moved
  · intro id
    rw [place, ← represents.places]
    refine lastPosition_kept effect (fun id latitude longitude time same => ?_) id
    rw [same] at moved
    cases moved

theorem represents_register {key : Bytes} {queue : QueueRef}
    (represents : Represents before.manager s)
    (effect : Effect before (.registerClient key queue) reply after)
    (unused : before.manager.clientsId key = none →
      before.manager.keyAt before.manager.nextId = none) :
    ∃ next, Sharing.Step s (.join key reply.toId) next ∧ Represents after.manager next := by
  cases stored : before.manager.clientsId key with
  | some id =>
      have answered : reply = .id id := by
        cases effect with
        | registerKnown known => rw [Option.some.inj (stored.symm.trans known)]
        | registerFresh fresh => rw [stored] at fresh; cases fresh
      subst answered
      refine ⟨s, .rejoin (by rw [← represents.keys.ids, stored]; rfl), ?_⟩
      refine represents_kept represents effect ?_ (by simp) (by simp [linkChange]) (by simp)
      rintro other same
      cases same
      simp [stored]
  | none =>
      have answered : reply = .id before.manager.nextId := by
        cases effect with
        | registerKnown known => rw [stored] at known; cases known
        | registerFresh fresh => rfl
      subst answered
      have fresh : s.keys key = none := by rw [← represents.keys.ids, stored]
      have free : s.keys.symm before.manager.nextId = none := by
        rw [← represents.keys.records, unused stored]
      refine ⟨s.join key before.manager.nextId fresh, .join fresh free, ?_⟩
      refine ⟨keysAre_joined represents.keys effect rfl stored (unused stored),
        namesAre_kept represents.names effect (by simp),
        linksAre_kept represents.links effect (by simp [linkChange]), ?_⟩
      intro id
      rw [lastPosition_kept effect (by simp), represents.places]
      rfl

theorem represents_visit {id : Int16} {latitude longitude : FloatBits} {time : Int}
    (represents : Represents before.manager s)
    (effect : Effect before (.addPosition id latitude longitude time) reply after) :
    ∃ next, Sharing.Step s (.visit id { latitude, longitude, time }) next ∧
      Represents after.manager next := by
  cases effect with
  | @addPosition _ _ _ _ mine here takes =>
      have known : s.Known id := by
        rw [known_iff represents, here]
        rfl
      have effect : Effect before (.addPosition id latitude longitude time) .none _ :=
        .addPosition here takes
      refine ⟨s.visit id { latitude, longitude, time } known, .visit known,
        keysAre_kept represents.keys effect (by simp [keyOf]),
        namesAre_kept represents.names effect (by simp),
        linksAre_kept represents.links effect (by simp [linkChange]), ?_⟩
      intro other
      simp only [Sharing.visit]
      by_cases same : other = id
      · subst same
        rw [if_pos rfl]
        simp only [lastPosition, KeyMap.view_modify_self _ _ _ here, ClientData.addPosition,
          List.getLast?_append, List.getLast?_singleton, Option.some_or]
      · rw [if_neg same, ← represents.places]
        exact KeyMap.view_modify_of_ne _ _ _ _ same

theorem represents_setName {id : Int16} {name : Bytes} {accepted : Bool}
    (represents : Represents before.manager s) (named : name ≠ [])
    (effect : Effect before (.setName id name) (.accepted accepted) after) :
    ∃ next, Sharing.Step s (if accepted then .rename id name else .refuse id name) next ∧
      Represents after.manager next := by
  have known : s.Known id := by
    rw [known_iff represents]
    cases effect with
    | setNameFree _ here | setNameTaken _ here => simp [here]
  cases accepted with
  | true =>
      obtain ⟨names, free⟩ := namesAre_renamed represents.names named effect
      refine ⟨s.rename id name known, .rename known free, ?_⟩
      refine ⟨keysAre_kept represents.keys effect (by simp [keyOf]), names,
        linksAre_kept represents.links effect (by simp [linkChange]), ?_⟩
      intro other
      rw [lastPosition_kept effect (by simp), represents.places]
      rfl
  | false =>
      refine ⟨s, ?_, represents_kept represents effect (by simp [keyOf]) (by simp)
        (by simp [linkChange]) (by simp)⟩
      generalize answer : Reply.accepted false = reply at effect
      cases effect with
      | setNameFree => cases answer
      | @setNameTaken _ holder _ mine taken here =>
          rw [represents.names.index] at taken
          refine .refuse taken ?_
          rintro rfl
          have own := (represents.names.held.mp taken).2
          rw [nameOf, KeyMap.view_of_some _ _ here] at own
          simp [own] at answer

theorem represents_find {name : Bytes} (represents : Represents before.manager s)
    (positive : ∀ key id, before.manager.clientsId key = some id → 0 < id)
    (effect : Effect before (.getNameId name) reply after) :
    ∃ next, Sharing.Step s
        (.find name (if reply.toId = 0 then none else some reply.toId)) next ∧
      Represents after.manager next := by
  refine ⟨s, ?_, represents_kept represents effect (by simp [keyOf]) (by simp)
    (by simp [linkChange]) (by simp)⟩
  have answer : (if reply.toId = 0 then none else some reply.toId) = s.names name := by
    cases effect with
    | getNameId =>
        rw [represents.names.index]
        cases held : s.names name with
        | none => rfl
        | some id =>
            obtain ⟨key, own⟩ := Option.isSome_iff_exists.mp (s.named_known name id held)
            have above := positive key id (by
              rw [represents.keys.ids, s.keys.eq_some_iff.mp own])
            have other : id ≠ 0 := by
              rintro rfl
              exact absurd above (by decide)
            simp [Reply.toId, other]
  rw [answer]
  exact .find

theorem represents_look {id : Int16} (represents : Represents before.manager s)
    (effect : Effect before (.getNewPositions id) reply after) :
    Sharing.Step s (.look id reply.toPositions) s ∧ Represents after.manager s := by
  refine ⟨?_, represents_kept represents effect (by simp [keyOf]) (by simp)
    (by simp [linkChange]) (by simp)⟩
  cases effect with
  | @getNewPositions _ mine following found here visited =>
      have told := looked_told (.getNewPositions here visited)
      refine .look (by rw [known_iff represents, here]; rfl) ?_
      intro news member
      obtain ⟨watched, named, last⟩ := told news member
      refine ⟨(represents.links.watchers _ _).mp watched, ?_, ?_⟩
      · rw [represents.names.records, if_neg named]
        rfl
      · rw [← represents.places, last]

theorem represents_meet {id : Int16} (represents : Represents before.manager s)
    (effect : Effect before (.getNewNames id) reply after) :
    Sharing.Step s (.meet id reply.toNames) s ∧ Represents after.manager s := by
  refine ⟨?_, represents_kept represents effect (by simp [keyOf]) (by simp)
    (by simp [linkChange]) (by simp)⟩
  cases effect with
  | @getNewNames _ mine following found here visited =>
      have told := met_told (.getNewNames here visited)
      refine .meet (by rw [known_iff represents, here]; rfl) ?_
      intro news member
      obtain ⟨watched, named, called⟩ := told news member
      refine ⟨(represents.links.watchers _ _).mp watched, ?_⟩
      rw [represents.names.records, if_neg named, called]

/-- One call of the manager does to the people what it shows. -/
theorem represents_step (represents : Represents before.manager s)
    (effect : Effect before op reply after) (named : op.Named)
    (unused : ∀ key, keyOf op = some key → before.manager.clientsId key = none →
      before.manager.keyAt before.manager.nextId = none)
    (positive : ∀ key id, before.manager.clientsId key = some id → 0 < id) :
    ∃ next, Run Sharing.Step s (shown (op, reply)) next ∧ Represents after.manager next := by
  have single {action : Sharing.Action Int16 Bytes Bytes Position}
      (step : ∃ next, Sharing.Step s action next ∧ Represents after.manager next) :
      ∃ next, Run Sharing.Step s [action] next ∧ Represents after.manager next := by
    obtain ⟨next, step, represents⟩ := step
    exact ⟨next, .cons step .nil, represents⟩
  have known {id : Int16} {data : ClientData}
      (here : before.manager.clientsData id = some data) : s.Known id := by
    rw [known_iff represents, here]
    rfl
  cases op with
  | registerClient key queue =>
      exact single (represents_register represents effect (unused key rfl))
  | unregister id =>
      exact ⟨s, .nil, represents_kept represents effect (by simp [keyOf]) (by simp)
        (by simp [linkChange]) (by simp)⟩
  | addFollower myId followerId =>
      cases effect with
      | addFollower here there takes =>
          refine single ⟨_, .allow (known here) (known there), ?_⟩
          refine represents_linked represents (.addFollower here there takes)
            ⟨myId, followerId, by simp [linkChange]⟩ rfl rfl rfl ?_
          intro owner follower
          simp only [Sharing.allow, Set.mem_insert_iff, Prod.mk.injEq, linkChange]
          grind
  | removeFollower myId followerId =>
      cases effect with
      | removeFollower here there =>
          refine single ⟨_, .forbid, ?_⟩
          refine represents_linked represents (.removeFollower here there)
            ⟨myId, followerId, by simp [linkChange]⟩ rfl rfl rfl ?_
          intro owner follower
          simp only [Sharing.forbid, Set.mem_sdiff, Set.mem_singleton_iff, Prod.mk.injEq,
            linkChange]
          grind
  | stopFollowing myId followingId =>
      cases effect with
      | stopFollowing here there =>
          refine single ⟨_, .forbid, ?_⟩
          refine represents_linked represents (.stopFollowing here there)
            ⟨followingId, myId, by simp [linkChange]⟩ rfl rfl rfl ?_
          intro owner follower
          simp only [Sharing.forbid, Set.mem_sdiff, Set.mem_singleton_iff, Prod.mk.injEq,
            linkChange]
          grind
  | addPosition id latitude longitude time => exact single (represents_visit represents effect)
  | getNewPositions id => exact single ⟨s, represents_look represents effect⟩
  | getNameId name => exact single (represents_find represents positive effect)
  | setName id name =>
      have answered : reply = .accepted reply.isAccepted := by
        cases effect <;> rfl
      rw [answered] at effect
      exact single (represents_setName represents named effect)
  | getNewNames id => exact single ⟨s, represents_meet represents effect⟩

end Simulation

/-- The next id is free as long as it is positive. -/
theorem nextId_unused {calls : List (Op × Reply)} {database : Database} {op : Op} {reply : Reply}
    {key : Bytes} (run : Run Step {} calls database) (own : keyOf op = some key)
    (fresh : database.manager.clientsId key = none)
    (small : distinctKeys (calls ++ [(op, reply)]) ≤ maxShort) :
    database.manager.keyAt database.manager.nextId = none := by
  have numbered := numbered_run run
  have unseen : key ∉ keysOf calls := by
    rw [numbered.listed, fresh]
    exact Bool.false_ne_true
  rw [distinctKeys_fresh own unseen] at small
  by_contra taken
  have below := (unwrapped_run run (by omega)).used _ (Option.isSome_iff_ne_none.mpr taken)
  rw [numbered.next, toInt_ofNat_of_le small] at below
  omega

theorem distinctKeys_mono (calls : List (Op × Reply)) (call : Op × Reply) :
    distinctKeys calls ≤ distinctKeys (calls ++ [call]) := by
  apply Finset.card_le_card
  intro key member
  rw [List.mem_toFinset, keysOf_snoc, List.mem_append]
  exact .inl (List.mem_toFinset.mp member)

theorem represents_empty : Represents ({} : ClientDataManager) {} :=
  ⟨⟨fun _ => rfl, fun _ => rfl⟩, ⟨fun _ => rfl, fun _ => rfl⟩,
    ⟨fun _ _ => by simp [followersOf, KeyMap.view], fun _ _ => by simp [watchedBy, KeyMap.view]⟩,
    fun _ => rfl⟩

/-- What people see of a run of the manager is a history of sharing, up to 32767 keys. -/
theorem manager_shares {calls : List (Op × Reply)} {database : Database}
    (run : Run Step {} calls database) (named : ∀ call ∈ calls, call.1.Named)
    (small : distinctKeys calls ≤ maxShort) :
    ∃ s : Sharing Int16 Bytes Bytes Position,
      Run Sharing.Step {} (calls.flatMap shown) s ∧ Represents database.manager s := by
  revert named small
  refine run.history_invariant (fun calls (database : Database) =>
    (∀ call ∈ calls, call.1.Named) → distinctKeys calls ≤ maxShort →
      ∃ s : Sharing Int16 Bytes Bytes Position,
        Run Sharing.Step {} (calls.flatMap shown) s ∧ Represents database.manager s) ?_ ?_
  · exact fun _ _ => ⟨{}, .nil, represents_empty⟩
  · intro calls before call after earlier held last named small
    have fewer := (distinctKeys_mono calls call).trans small
    obtain ⟨s, history, represents⟩ := held
      (fun other member => named other (List.mem_append_left _ member)) fewer
    obtain ⟨next, shows, again⟩ := represents_step represents (step_iff_effect.mp last)
      (named call (by simp)) (fun key own fresh => nextId_unused earlier own fresh small)
      (unwrapped_run earlier fewer).positive
    refine ⟨next, ?_, again⟩
    rw [List.flatMap_append, List.flatMap_singleton]
    exact history.append shows

theorem manager_shares_greeting : ∃ database s, Run Step {} greeting database ∧
    Run Sharing.Step {} (greeting.flatMap shown) s ∧ Represents database.manager s := by
  have run : Run Step {} greeting _ := .cons rfl (.cons rfl (.cons rfl (.cons rfl .nil)))
  obtain ⟨s, history, represents⟩ :=
    manager_shares run (by simp [greeting, Op.Named]) (by decide)
  exact ⟨_, s, run, history, represents⟩

end Locus.ClientDataManager
