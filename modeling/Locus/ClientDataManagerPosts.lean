import Locus.ClientDataManagerStep

set_option autoImplicit false

/- A call that throws at a post whose byte the pipe does not take. Its work is done by then, and
what it leaves out is the rest of its posts. -/
namespace Locus.ClientDataManager

open Program

/-- The calls that post. -/
def isPosting : Op → Bool
  | .addFollower _ _ | .addPosition _ _ _ _ | .setName _ _ => true
  | _ => false

/-- What a call that posts would have answered. -/
def answerOf : Op → Reply
  | .setName _ _ => .accepted true
  | _ => .none

/-- The queues that a call posts to. -/
def postsOf (m : ClientDataManager) : Op → List QueueRef
  | .addFollower _ followerId => m.queuesOf [followerId]
  | .addPosition id _ _ _ | .setName id _ =>
      m.queuesOf (m.clientsData.view ClientData.followers [] id)
  | _ => []

/-- What a call leaves that threw at a post, against what the whole of it would have left. -/
structure Refused (before : Database) (op : Op) (after whole : Database) : Prop where
  posting : isPosting op
  effect : Effect { before with refusal := none } op (answerOf op) whole
  manager : after.manager = whole.manager
  refusal : after.refusal = before.refusal
  posts : whole.posted = before.posted ++ postsOf before.manager op
  made : ∃ made left, postsOf before.manager op = made ++ left ∧
    after.posted = before.posted ++ made

theorem client_error {id : Int16} {before after : Database} {fault : Fault}
    (failed : client id before = .error fault after) : fault = .undefinedBehaviour := by
  simp only [client, bind_run, get_run] at failed
  cases present : before.manager.clientsData id with
  | none =>
      rw [present] at failed
      cases failed
      rfl
  | some data =>
      rw [present] at failed
      cases failed

theorem editClient_error {id : Int16} {change : ClientData → ClientData}
    {before after : Database} {fault : Fault}
    (failed : editClient id change before = .error fault after) : fault = .undefinedBehaviour := by
  rcases bind_error_iff.mp failed with missing | ⟨_, middle, _, impossible⟩
  · exact client_error missing
  · cases impossible

theorem postUpdates_error {ids : List Int16} {before after : Database} {fault : Fault}
    (failed : postUpdates 0 ids before = .error fault after) :
    fault = pipeRefuses ∧ ∃ made left, before.manager.queuesOf ids = made ++ left ∧
      after = { before with posted := before.posted ++ made } := by
  by_cases takes : Takes before (before.manager.queuesOf ids).length
  · have returned : postUpdates 0 ids before = .ok () _ := postUpdates_ok_iff.mpr ⟨takes, rfl⟩
    cases failed.symm.trans returned
  · obtain ⟨refused, refusal, reached⟩ : ∃ refused, before.refusal = some refused ∧
        ¬ (before.manager.queuesOf ids).length ≤ refused := by
      simpa only [Takes, not_forall, exists_prop] using takes
    rw [postUpdates_refused ids refusal (Nat.zero_le _) (by omega)] at failed
    cases failed
    exact ⟨rfl, _, _, (List.take_append_drop _ _).symm, rfl⟩

theorem notifyFollowers_error {id : Int16} {before after : Database} {fault : Fault}
    (failed : notifyFollowers id before = .error fault after) : fault = .undefinedBehaviour ∨
      fault = pipeRefuses ∧ ∃ data made left, before.manager.clientsData id = some data ∧
        before.manager.queuesOf data.followers = made ++ left ∧
        after = { before with posted := before.posted ++ made } := by
  rcases bind_error_iff.mp failed with missing | ⟨data, middle, found, posting⟩
  · exact .inl (client_error missing)
  · obtain ⟨present, rfl⟩ := client_ok_iff.mp found
    obtain ⟨refuses, made, left, whole, same⟩ := postUpdates_error posting
    exact .inr ⟨refuses, data, made, left, present, whole, same⟩

theorem addFollower_error {myId followerId : Int16} {before after : Database} {fault : Fault}
    (failed : addFollower myId followerId before = .error fault after) :
    fault = .undefinedBehaviour ∨ fault = pipeRefuses ∧
      ∃ whole, Refused before (.addFollower myId followerId) after whole := by
  rcases bind_error_iff.mp failed with missing | ⟨_, first, edited, rest⟩
  · exact .inl (editClient_error missing)
  rcases bind_error_iff.mp rest with missing | ⟨_, second, followed, posting⟩
  · exact .inl (editClient_error missing)
  have both := editClients_ok_iff.mp (bind_ok_iff.mpr ⟨_, first, edited, followed⟩)
  obtain ⟨⟨mine, here⟩, ⟨theirs, there⟩, rfl⟩ := both
  obtain ⟨refuses, made, left, whole, rfl⟩ := postUpdates_error posting
  have effect : Effect { before with refusal := none } (.addFollower myId followerId) .none _ :=
    .addFollower here there (takes_of_calm rfl _)
  exact .inr ⟨refuses, _, rfl, effect, rfl, rfl, rfl, made, left, whole, rfl⟩

theorem addPosition_error {myId : Int16} {latitude longitude : FloatBits} {time : Int}
    {before after : Database} {fault : Fault}
    (failed : addPosition myId latitude longitude time before = .error fault after) :
    fault = .undefinedBehaviour ∨ fault = pipeRefuses ∧
      ∃ whole, Refused before (.addPosition myId latitude longitude time) after whole := by
  rcases bind_error_iff.mp failed with missing | ⟨_, first, edited, rest⟩
  · exact .inl (editClient_error missing)
  obtain ⟨⟨mine, here⟩, rfl⟩ := editClient_ok_iff.mp edited
  rcases notifyFollowers_error rest with
    undefined | ⟨refuses, data, made, left, present, whole, rfl⟩
  · exact .inl undefined
  have same : mine.addPosition latitude longitude time = data := by
    simpa only [KeyMap.modify_self, here, Option.map_some, Option.some.injEq] using present
  subst same
  have effect : Effect { before with refusal := none }
      (.addPosition myId latitude longitude time) .none _ :=
    .addPosition here (takes_of_calm rfl _)
  have listed : postsOf before.manager (.addPosition myId latitude longitude time) =
      before.manager.queuesOf mine.followers := by
    rw [postsOf, KeyMap.view_of_some _ _ here]
  exact .inr ⟨refuses, _, rfl, effect, rfl, rfl, by rw [listed], made, left,
    listed.trans whole, rfl⟩

theorem setName_error {myId : Int16} {name : Bytes} {before after : Database} {fault : Fault}
    (failed : setName myId name before = .error fault after) :
    fault = .undefinedBehaviour ∨ fault = pipeRefuses ∧
      ∃ whole, Refused before (.setName myId name) after whole := by
  rw [setName, bind_of_ok (get_run before)] at failed
  cases free : before.manager.clientsName name with
  | some holder =>
      rw [free] at failed
      rcases bind_error_iff.mp failed with missing | ⟨_, _, _, impossible⟩
      · exact .inl (client_error missing)
      · cases impossible
  | none =>
      rw [free] at failed
      rcases bind_error_iff.mp failed with missing | ⟨mine, middle, found, rest⟩
      · exact .inl (client_error missing)
      obtain ⟨here, rfl⟩ := client_ok_iff.mp found
      rcases bind_error_iff.mp rest with impossible | ⟨_, _, erased, rest⟩
      · cases impossible
      obtain rfl := edit_ok_iff.mp erased
      rcases bind_error_iff.mp rest with impossible | ⟨_, _, inserted, rest⟩
      · cases impossible
      obtain rfl := edit_ok_iff.mp inserted
      rcases bind_error_iff.mp rest with missing | ⟨_, _, edited, rest⟩
      · exact .inl (editClient_error missing)
      obtain ⟨_, rfl⟩ := editClient_ok_iff.mp edited
      rcases bind_error_iff.mp rest with stopped | ⟨_, _, _, impossible⟩
      · rcases notifyFollowers_error stopped with
          undefined | ⟨refuses, data, made, left, present, whole, rfl⟩
        · exact .inl undefined
        have same : mine.setName name = data := by
          simpa only [KeyMap.modify_self, here, Option.map_some, Option.some.injEq] using present
        subst same
        have effect : Effect { middle with refusal := none } (.setName myId name)
            (.accepted true) _ := .setNameFree free here (takes_of_calm rfl _)
        have listed : postsOf middle.manager (.setName myId name) =
            middle.manager.queuesOf mine.followers := by
          rw [postsOf, KeyMap.view_of_some _ _ here]
        exact .inr ⟨refuses, _, rfl, effect, rfl, rfl, by rw [listed], made, left,
          listed.trans whole, rfl⟩
      · cases impossible

/-- The queues are none of a posting call's business. -/
theorem queues_posting {before after : Database} {op : Op} {reply : Reply}
    (effect : Effect before op reply after) (posting : isPosting op) :
    after.manager.clientsQueue = before.manager.clientsQueue := by
  cases effect <;> first | rfl | cases posting

/-- The calls that walk over no list of records. -/
def isDirect : Op → Bool
  | .registerClient _ _ | .unregister _ | .getNewPositions _ | .getNewNames _ => false
  | _ => true

/-- A call that misses a record throws no exception. Only a post does. -/
theorem run_error {op : Op} {before after : Database} {fault : Fault} (direct : isDirect op)
    (failed : run op before = .error fault after) : fault = .undefinedBehaviour ∨
      fault = pipeRefuses ∧ ∃ whole, Refused before op after whole := by
  cases op with
  | registerClient | unregister | getNewPositions | getNewNames => cases direct
  | addFollower myId followerId =>
      rcases bind_error_iff.mp failed with stopped | ⟨_, _, _, impossible⟩
      · exact addFollower_error stopped
      · cases impossible
  | addPosition myId latitude longitude time =>
      rcases bind_error_iff.mp failed with stopped | ⟨_, _, _, impossible⟩
      · exact addPosition_error stopped
      · cases impossible
  | setName myId name =>
      rcases bind_error_iff.mp failed with stopped | ⟨_, _, _, impossible⟩
      · exact setName_error stopped
      · cases impossible
  | removeFollower myId otherId | stopFollowing myId otherId =>
      rcases bind_error_iff.mp failed with stopped | ⟨_, _, _, impossible⟩
      · rcases bind_error_iff.mp stopped with missing | ⟨_, _, _, missing⟩
        · exact .inl (editClient_error missing)
        · exact .inl (editClient_error missing)
      · cases impossible
  | getNameId name => cases failed

/-- Where every pipe takes what is posted, a call that misses no record returns. -/
theorem run_error_calm {op : Op} {before after : Database} {fault : Fault} (direct : isDirect op)
    (calm : before.refusal = none) (failed : run op before = .error fault after) :
    fault = .undefinedBehaviour := by
  rcases run_error direct failed with undefined | ⟨refuses, whole, refused⟩
  · exact undefined
  · have effect := refused.effect
    rw [← calm] at effect
    have returned : Step before (op, answerOf op) whole := step_iff_effect.mpr effect
    cases failed.symm.trans returned

end Locus.ClientDataManager
