import Locus.ClientDataManagerFollow

set_option autoImplicit false

/- database/Database: the manager that its constructor loads from a file, and what is left of it
when the loading fails. -/
namespace Locus

open Program Transition ClientDataManager

/-- What the archive makes of a field of the file. -/
inductive Field (α : Type) where
  | value (value : α)
  /-- It is not there, or it is of another type. -/
  | missing (what : String)
  /-- Something inside it is ill-typed. What came before that has been loaded. -/
  | broken (what : String) (part : α)

/-- The fields of a file, as `serialize` names them. -/
structure Document where
  nextId : Field Int16
  clientsId : Field (KeyMap Bytes Int16)
  clientsName : Field (KeyMap Bytes Int16)
  clientsData : Field (KeyMap Int16 ClientData)

namespace Field

/-- A field is loaded into its member. -/
def load {α : Type} (put : α → ClientDataManager → ClientDataManager) :
    Field α → EStateM Fault ClientDataManager Unit
  | .value found => modify (put found)
  | .missing what => throw (.exception what)
  | .broken what part => do
      modify (put part)
      throw (.exception what)

def Loaded {α : Type} : Field α → Prop
  | .value _ => True
  | .missing _ | .broken _ _ => False

/-- The member holds after the load what it held before. -/
def Leaves {α : Type} (initial : α) : Field α → Prop
  | .value found => found = initial
  | .missing _ => True
  | .broken _ part => part = initial

end Field

namespace ClientDataManager

/-- `ClientDataManager::serialize`, for an archive that is read. -/
def serialize (document : Document) : EStateM Fault ClientDataManager Unit := do
  document.nextId.load fun nextId m => { m with nextId }
  document.clientsId.load fun clientsId m => { m with clientsId }
  document.clientsName.load fun clientsName m => { m with clientsName }
  document.clientsData.load fun clientsData m => { m with clientsData }

/-- `serialize`, for an archive that is written. -/
def saved (m : ClientDataManager) : Document where
  nextId := .value m.nextId
  clientsId := .value m.clientsId
  clientsName := .value m.clientsName
  clientsData := .value m.clientsData

end ClientDataManager

namespace Database

/-- `Database::Database` over a file that can be opened. A text that is no JSON makes the
constructor of the archive throw. The handler only logs. -/
def load (text : Except String Document) : EStateM Fault ClientDataManager Unit :=
  catching (do
    let document ← Program.ofExcept (text.mapError Fault.exception)
    serialize document)
  (pure ())

/-- The database as its constructor leaves it, with a file or without one. -/
def opened : Option (Except String Document) → Database
  | none => {}
  | some text => { manager := finalState (load text {}) }

end Database

namespace Document

/-- A field keeps the archive from its end. -/
def Fails (document : Document) : Prop :=
  ¬ (document.nextId.Loaded ∧ document.clientsId.Loaded ∧ document.clientsName.Loaded ∧
    document.clientsData.Loaded)

/-- The fields up to the one that fails bring nothing into an empty manager. -/
def Barren (document : Document) : Prop :=
  document.nextId.Leaves 1 ∧ (document.nextId.Loaded →
    document.clientsId.Leaves KeyMap.empty ∧ (document.clientsId.Loaded →
      document.clientsName.Leaves KeyMap.empty ∧ (document.clientsName.Loaded →
        document.clientsData.Leaves KeyMap.empty)))

end Document

namespace Database

/-- The database is as if there were no file, and every id that it gives out from then on has a
record. -/
structure Untouched (database : Database) : Prop where
  manager : database.manager = {}
  registers : ∀ calls reached, Run Step database calls reached → ∀ key queue id after,
    registerClient key queue reached = .ok id after → (after.manager.clientsData id).isSome

end Database

namespace ClientDataManager

/-- The ids of the keys have records. -/
def Recorded (m : ClientDataManager) : Prop :=
  ∀ key id, m.clientsId key = some id → (m.clientsData id).isSome

theorem recorded_step {before after : Database} {op : Op} {reply : Reply}
    (recorded : before.manager.Recorded) (effect : Effect before op reply after) :
    after.manager.Recorded := by
  cases effect with
  | @registerFresh key queue fresh =>
      intro other id found
      rcases KeyMap.insert_eq_some fresh found with ⟨rfl, rfl⟩ | ⟨_, old⟩
      · simp
      · obtain ⟨stored, present⟩ := Option.isSome_iff_exists.mp (recorded other id old)
        simp only [KeyMap.insert_of_some _ _ present, Option.isSome_some]
  | registerKnown | unregister | getNameId | setNameTaken => exact recorded
  | addFollower | removeFollower | stopFollowing | addPosition | getNewPositions | setNameFree
  | getNewNames =>
      intro key id found
      simpa only [KeyMap.modify_isSome] using recorded key id found

/-- An id that a registration returns has a record. -/
theorem registered_recorded {before after : Database} {key : Bytes} {queue : QueueRef} {id : Int16}
    (recorded : before.manager.Recorded)
    (returned : registerClient key queue before = .ok id after) :
    (after.manager.clientsData id).isSome := by
  have effect := registerClient_ok_iff.mp returned
  cases effect with
  | registerKnown known => exact recorded key id known
  | registerFresh fresh => simp

end ClientDataManager

namespace Database

/-- An empty manager stays sound. -/
theorem untouched_of_manager {database : Database} (empty : database.manager = {}) :
    database.Untouched := by
  refine ⟨empty, ?_⟩
  intro calls reached run key queue id after returned
  have base : database.manager.Recorded := by
    rw [empty]
    intro key id found
    cases found
  have recorded : reached.manager.Recorded :=
    run.invariant (fun database : Database => database.manager.Recorded) base
      fun before call after held step => recorded_step held (step_iff_effect.mp step)
  exact registered_recorded recorded returned

theorem manager_opened (document : Document) :
    (opened (some (.ok document))).manager = finalState (serialize document {}) := by
  change finalState (catching (serialize document) (pure ()) {}) = _
  unfold catching settle
  cases serialize document {} with
  | ok value after => rfl
  | error fault after => cases fault <;> rfl

/-- A load leaves the queues alone. -/
def KeepsQueues (before after : ClientDataManager) : Prop :=
  after.clientsQueue = before.clientsQueue

theorem KeepsQueues.refl (m : ClientDataManager) : KeepsQueues m m := rfl

theorem KeepsQueues.trans {first second third : ClientDataManager}
    (left : KeepsQueues first second) (right : KeepsQueues second third) :
    KeepsQueues first third := Eq.trans right left

theorem load_queues {α : Type} {put : α → ClientDataManager → ClientDataManager}
    (apart : ∀ value m, (put value m).clientsQueue = m.clientsQueue) (field : Field α) :
    Keeps KeepsQueues (field.load put) := by
  cases field with
  | value found => exact .modify fun m => apart found m
  | missing what => exact .throw .refl _
  | broken what part =>
      exact .bind .trans (.modify fun m => apart part m) fun _ => .throw .refl _

theorem serialize_queues (document : Document) : Keeps KeepsQueues (serialize document) := by
  refine .bind .trans ?_ fun _ => .bind .trans ?_ fun _ => .bind .trans ?_ fun _ => ?_ <;>
  · apply load_queues
    intro value m
    rfl

/-- No file holds the queues of sessions. -/
theorem queues_opened (text : Option (Except String Document)) :
    (opened text).manager.clientsQueue = KeyMap.empty := by
  cases text with
  | none => rfl
  | some text =>
      cases text with
      | error what => rfl
      | ok document =>
          rw [manager_opened]
          exact serialize_queues document {}

/-- What a file leaves in the manager is empty if what was loaded of it is. -/
theorem manager_opened_iff {document : Document} (fails : document.Fails) :
    (opened (some (.ok document))).manager = {} ↔ document.Barren := by
  rw [manager_opened]
  obtain ⟨nextId, clientsId, clientsName, clientsData⟩ := document
  simp only [Document.Barren, serialize, bind_run]
  cases nextId with
  | missing what => simp [Field.load, Field.Leaves, Field.Loaded, throw_run, finalState]
  | broken what part =>
      simp [Field.load, Field.Leaves, Field.Loaded, throw_run, finalState, bind_run, modify_run]
  | value next =>
      simp only [Field.load, Field.Leaves, Field.Loaded, modify_run, forall_const]
      cases clientsId with
      | missing what => simp [throw_run, finalState]
      | broken what part => simp [throw_run, finalState, bind_run, modify_run]
      | value ids =>
          simp only [modify_run, forall_const]
          cases clientsName with
          | missing what => simp [throw_run, finalState]
          | broken what part => simp [throw_run, finalState, bind_run, modify_run]
          | value names =>
              simp only [modify_run, forall_const]
              cases clientsData with
              | missing what => simp [throw_run, finalState]
              | broken what part => simp [throw_run, finalState, bind_run, modify_run]
              | value records => exact absurd ⟨trivial, trivial, trivial, trivial⟩ fails

/-- A file that fails leaves the database untouched exactly if nothing was loaded before. -/
theorem untouched_iff {document : Document} (fails : document.Fails) :
    (opened (some (.ok document))).Untouched ↔ document.Barren := by
  rw [← manager_opened_iff fails]
  exact ⟨fun untouched => untouched.manager, untouched_of_manager⟩

/-- What the destructor writes comes back, without the queues of the sessions. -/
theorem manager_opened_saved (m : ClientDataManager) :
    (opened (some (.ok m.saved))).manager = { m with clientsQueue := KeyMap.empty } := by
  rw [manager_opened]
  rfl

/-- A file whose first field is of another type. -/
def headless : Document where
  nextId := .missing "rapidjson internal assertion failure: data_.f.flags & kIntFlag"
  clientsId := .value (KeyMap.empty.insert [1] 1)
  clientsName := .value KeyMap.empty
  clientsData := .value (KeyMap.empty.insert 1 { publicKey := [1] })

theorem untouched_iff_headless : (opened (some (.ok headless))).Untouched :=
  (@untouched_iff headless fun all => all.1).mpr ⟨trivial, fun impossible => impossible.elim⟩

/-- A file of one client whose names have been cut off. -/
def cutOff : Document where
  nextId := .value 2
  clientsId := .value (KeyMap.empty.insert [1] 1)
  clientsName := .missing "provided NVP (clientsName) not found"
  clientsData := .missing "provided NVP (clientsData) not found"

/-- The client comes back, and is given an id that has no record. -/
theorem cutOff_not_untouched :
    ¬ ∀ document : Document, document.Fails → (opened (some (.ok document))).Untouched := by
  intro untouched
  have sound := untouched cutOff fun all => all.2.2.1
  have found := sound.registers [] _ .nil [1] 0 1 _ rfl
  revert found
  decide

end Database

end Locus
