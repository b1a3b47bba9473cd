import Locus.ClientDataManagerFollow

set_option autoImplicit false

/- Calls with an id that `clientsData` has no record for. -/
namespace Locus.ClientDataManager

open Program

/-- What the methods set out to do with such an id: report it and change nothing. -/
def FailsCleanly (database : Database) (op : Op) : Prop :=
  ∃ what, run op database = .error (.exception what) database

/-- The call goes on with the end iterator. -/
def Dereferences (database : Database) (op : Op) : Prop :=
  ∃ after, run op database = .error .undefinedBehaviour after

theorem client_missing {id : Int16} {database : Database}
    (missing : database.manager.clientsData id = none) :
    client id database = .error .undefinedBehaviour database := by
  simp only [client, bind_run, get_run, missing]
  rfl

theorem editClient_missing {id : Int16} {database : Database}
    (missing : database.manager.clientsData id = none) (change : ClientData → ClientData) :
    editClient id change database = .error .undefinedBehaviour database := by
  rw [editClient, bind_run, client_missing missing]

theorem editClient_known {id : Int16} {database : Database}
    (known : (database.manager.clientsData id).isSome) (change : ClientData → ClientData) :
    editClient id change database = .ok ()
      { database with manager := { database.manager with
        clientsData := database.manager.clientsData.modify id change } } :=
  editClient_ok_iff.mpr ⟨Option.isSome_iff_exists.mp known, rfl⟩

/-- Where one of two ids has no record, the record of the other one may be changed already. -/
theorem editClients_missing {first second : Int16} {left right : ClientData → ClientData}
    {database : Database}
    (missing : ¬ ((database.manager.clientsData first).isSome ∧
      (database.manager.clientsData second).isSome)) :
    ∃ after, (do editClient first left; editClient second right : ManagerM Unit) database =
      .error .undefinedBehaviour after := by
  rw [bind_run]
  cases present : database.manager.clientsData first with
  | none =>
      rw [editClient_missing present]
      exact ⟨_, rfl⟩
  | some data =>
      have known : (database.manager.clientsData first).isSome := by rw [present]; rfl
      rw [editClient_known known]
      refine ⟨_, editClient_missing ?_ right⟩
      have absent : ¬ (database.manager.clientsData second).isSome :=
        fun there => missing ⟨known, there⟩
      rw [← KeyMap.modify_isSome _ first _ left, Option.not_isSome_iff_eq_none] at absent
      exact absent

theorem dereferences_of_call {α : Type} {call : ManagerM α} {wrap : α → Reply}
    {database : Database}
    (ended : ∃ after, call database = .error .undefinedBehaviour after) :
    ∃ after, (do return wrap (← call)) database = .error .undefinedBehaviour after := by
  obtain ⟨after, ran⟩ := ended
  exact ⟨after, by rw [bind_run, ran]⟩

theorem dereferences_of_silent {call : ManagerM Unit} {database : Database}
    (ended : ∃ after, call database = .error .undefinedBehaviour after) :
    ∃ after, (do call; return Reply.none) database = .error .undefinedBehaviour after :=
  dereferences_of_call ended

theorem queryFollowing_missing {β : Type} {id : Int16} {database : Database}
    (missing : ¬ (database.manager.clientsData id).isSome)
    (watch : ClientData → Watcher → Watcher × List β) :
    queryFollowing watch id database = .error .undefinedBehaviour database := by
  rw [queryFollowing, bind_run, client_missing (Option.not_isSome_iff_eq_none.mp missing)]

/-- Whichever method is called with an id that has no record, it does not report it: the
exception is made and not thrown. -/
theorem dereferences_of_missing {database : Database} {op : Op}
    (missing : ¬ Registered database.manager op) : Dereferences database op := by
  unfold Dereferences
  cases op with
  | registerClient | unregister | getNameId => exact absurd trivial missing
  | addFollower myId followerId =>
      apply dereferences_of_silent
      obtain ⟨after, ended⟩ := editClients_missing missing
      rw [addFollower, ← bind_assoc, bind_run, ended]
      exact ⟨after, rfl⟩
  | removeFollower myId followerId => exact dereferences_of_silent (editClients_missing missing)
  | stopFollowing myId followingId => exact dereferences_of_silent (editClients_missing missing)
  | addPosition myId latitude longitude time =>
      refine dereferences_of_silent ⟨database, ?_⟩
      rw [addPosition, bind_run, editClient_missing (Option.not_isSome_iff_eq_none.mp missing)]
  | getNewPositions id =>
      exact dereferences_of_call ⟨database, queryFollowing_missing missing _⟩
  | getNewNames id =>
      exact dereferences_of_call ⟨database, queryFollowing_missing missing _⟩
  | setName myId name =>
      have absent := client_missing (Option.not_isSome_iff_eq_none.mp missing)
      refine dereferences_of_call ⟨database, ?_⟩
      rw [setName, bind_run, get_run]
      dsimp only
      cases database.manager.clientsName name <;> simp only [bind_run, absent]

/-- No call with an id that has no record fails as it should. -/
theorem missing_never {database : Database} {op : Op}
    (missing : ¬ Registered database.manager op) :
    ¬ FailsCleanly database op ∧ Dereferences database op := by
  obtain ⟨after, ended⟩ := dereferences_of_missing missing
  refine ⟨?_, after, ended⟩
  rintro ⟨what, failed⟩
  rw [ended] at failed
  cases failed

theorem missing_never_addPosition :
    ¬ FailsCleanly {} (.addPosition 1 0 0 0) ∧ Dereferences {} (.addPosition 1 0 0 0) :=
  missing_never (by simp [Registered, KeyMap.empty])

/-- A session that has not registered sets its name. -/
theorem missing_not_reported : ¬ ∀ (database : Database) (op : Op),
    ¬ Registered database.manager op → FailsCleanly database op := by
  intro reported
  obtain ⟨what, failed⟩ := reported {} (.setName 0 [65]) (by simp [Registered, KeyMap.empty])
  cases failed

end Locus.ClientDataManager
