import Locus.ClientDataManagerRegister
import Locus.ClientDataOrder
import Locus.DatabaseFile

set_option autoImplicit false

/- database/Database over many lifetimes of the server: what the destructor of one process
writes is what the constructor of the next one reads. -/
namespace Locus

open Program Transition ClientDataManager

/-- The archives of cereal: the text of a document, and what is read from a text. -/
structure Archive (Text : Type) where
  write : Document → Text
  read : Text → Except String Document

/-- Texts end at their first null byte when they are read, and NaN comes back as some NaN. -/
structure ClientData.Plain (data : ClientData) : Prop where
  name : 0 ∉ data.name
  positions : data.Ordered
  following : ∀ watcher ∈ data.following, 0 ∉ watcher.name

structure ClientDataManager.Plain (m : ClientDataManager) : Prop where
  names : ∀ name id, m.clientsName name = some id → 0 ∉ name
  records : ∀ id data, m.clientsData id = some data → data.Plain

/-- What is written of plain data comes back. -/
def Archive.Restores {Text : Type} (archive : Archive Text) : Prop :=
  ∀ m : ClientDataManager, m.Plain → archive.read (archive.write m.saved) = .ok m.saved

/-- The file, and the database of the process that runs. -/
structure Deployment (Text : Type) where
  file : Option Text := none
  database : Database := {}

namespace Deployment

/-- What the end of a process makes of the file. -/
inductive Saving where
  /-- The destructor writes it. -/
  | written
  /-- The destructor cannot open it, or the process dies before. -/
  | skipped
  /-- The process dies while it is written. -/
  | torn
  deriving DecidableEq, Repr

inductive Event where
  | call (call : Op × Reply)
  /-- A process ends, and the next one can open the file or cannot. -/
  | restart (saving : Saving) (opens : Bool)
  deriving DecidableEq, Repr

section Steps

variable {Text : Type} (archive : Archive Text) (before : Deployment Text)

/-- A text that was cut off is no JSON. -/
inductive Leaves : Saving → Option Text → Prop
  | written : Leaves .written (some (archive.write before.database.manager.saved))
  | skipped : Leaves .skipped before.file
  | torn {text : Text} {what : String} (broken : archive.read text = .error what) :
      Leaves .torn (some text)

inductive Step : Event → Deployment Text → Prop
  | call {call : Op × Reply} {after : Database}
      (returns : ClientDataManager.Step before.database call after) :
      Step (.call call) { before with database := after }
  | restart {saving : Saving} {opens : Bool} {file : Option Text}
      (leaves : Leaves archive before saving file) :
      Step (.restart saving opens)
        { file, database := Database.opened (if opens then file.map archive.read else none) }

end Steps

/-- The names and coordinates that clients send. -/
def Event.Plain : Event → Prop
  | .call (.setName _ name, _) => 0 ∉ name
  | .call (.addPosition _ latitude longitude time, _) =>
      Position.Ordered { latitude, longitude, time }
  | _ => True

/-- The calls that the running process is the result of, and those that the file is. -/
structure Lasting where
  running : List (Op × Reply) := []
  filed : List (Op × Reply) := []

def Saving.keeps (lasting : Lasting) : Saving → List (Op × Reply)
  | .written => lasting.running
  | .skipped => lasting.filed
  | .torn => []

def Lasting.after (lasting : Lasting) : Event → Lasting
  | .call call => { lasting with running := lasting.running ++ [call] }
  | .restart saving opens =>
      { running := if opens then saving.keeps lasting else [], filed := saving.keeps lasting }

def lasting (events : List Event) : Lasting := events.foldl Lasting.after {}

/-- What an event does to the queues. A process starts without any. -/
def queuesAfter (queues : KeyMap Int16 QueueRef) : Event → KeyMap Int16 QueueRef
  | .call (.registerClient _ queue, reply) => queues.insert reply.toId queue
  | .call (.unregister id, _) => queues.erase id
  | .call _ => queues
  | .restart _ _ => KeyMap.empty

theorem lasting_snoc (events : List Event) (event : Event) :
    lasting (events ++ [event]) = (lasting events).after event := by
  simp only [lasting, List.foldl_append, List.foldl_cons, List.foldl_nil]

end Deployment

namespace ClientData.Plain

variable {data : ClientData} (plain : data.Plain)

include plain

theorem setName {name : Bytes} (given : 0 ∉ name) : (data.setName name).Plain :=
  ⟨given, plain.positions, plain.following⟩

theorem addPosition {latitude longitude : FloatBits} {time : Int}
    (given : Position.Ordered { latitude, longitude, time }) :
    (data.addPosition latitude longitude time).Plain := by
  refine ⟨plain.name, ?_, plain.following⟩
  intro position member
  rcases List.mem_append.mp member with old | new
  · exact plain.positions position old
  · rw [List.mem_singleton.mp new]
    exact given

theorem addFollower (id : Int16) : (data.addFollower id).Plain :=
  ⟨plain.name, plain.positions, plain.following⟩

theorem removeFollower (id : Int16) : (data.removeFollower id).Plain :=
  ⟨plain.name, plain.positions, plain.following⟩

theorem startFollowing (id : Int16) : (data.startFollowing id).Plain := by
  refine ⟨plain.name, plain.positions, ?_⟩
  intro watcher member
  rcases List.mem_append.mp member with old | new
  · exact plain.following watcher old
  · rw [List.mem_singleton.mp new]
    exact List.not_mem_nil

theorem stopFollowing (id : Int16) : (data.stopFollowing id).Plain :=
  ⟨plain.name, plain.positions, fun watcher member =>
    plain.following watcher (List.mem_of_mem_filter member)⟩

end ClientData.Plain

namespace ClientDataManager

theorem saved_eq_iff {a b : ClientDataManager} :
    a.saved = b.saved ↔ b = { a with clientsQueue := b.clientsQueue } := by
  cases a
  cases b
  simp only [saved, Document.mk.injEq, Field.value.injEq, ClientDataManager.mk.injEq, and_true]
  simp only [eq_comm]

/-- No call looks at the queues to find out what it does to the rest. -/
theorem effect_saved {before after other : Database} {op : Op} {reply : Reply}
    (effect : Effect before op reply after) (same : before.manager.saved = other.manager.saved)
    (calm : other.refusal = none) :
    ∃ next, Effect other op reply next ∧ after.manager.saved = next.manager.saved := by
  obtain ⟨⟨nextId, clientsId, clientsName, clientsData, queues⟩, posted, _⟩ := before
  obtain ⟨⟨_, _, _, _, others⟩, elsewhere, _⟩ := other
  rw [saved_eq_iff] at same
  cases same
  have takes := takes_of_calm calm
  cases effect with
  | registerKnown known => exact ⟨_, .registerKnown known, rfl⟩
  | registerFresh fresh => exact ⟨_, .registerFresh fresh, rfl⟩
  | unregister => exact ⟨_, .unregister, rfl⟩
  | addFollower here there => exact ⟨_, .addFollower here there (takes _), rfl⟩
  | removeFollower here there => exact ⟨_, .removeFollower here there, rfl⟩
  | stopFollowing here there => exact ⟨_, .stopFollowing here there, rfl⟩
  | addPosition here => exact ⟨_, .addPosition here (takes _), rfl⟩
  | getNewPositions here visited => exact ⟨_, .getNewPositions here visited, rfl⟩
  | getNameId => exact ⟨_, .getNameId, rfl⟩
  | setNameFree free here => exact ⟨_, .setNameFree free here (takes _), rfl⟩
  | setNameTaken taken here => exact ⟨_, .setNameTaken taken here, rfl⟩
  | getNewNames here visited => exact ⟨_, .getNewNames here visited, rfl⟩

/-- An edit of one record that keeps it plain. -/
theorem plain_modify {clientsData : KeyMap Int16 ClientData} {key : Int16}
    {edit : ClientData → ClientData}
    (records : ∀ id data, clientsData id = some data → data.Plain)
    (kept : ∀ data, clientsData key = some data → data.Plain → (edit data).Plain) :
    ∀ id data, clientsData.modify key edit id = some data → data.Plain := by
  intro id data found
  by_cases same : id = key
  · subst same
    rw [KeyMap.modify_self, Option.map_eq_some_iff] at found
    obtain ⟨stored, present, rfl⟩ := found
    exact kept stored present (records id stored present)
  · rw [KeyMap.modify_of_ne _ _ same] at found
    exact records id data found

section Visit

variable {β : Type} {watch : ClientData → Watcher → Watcher × List β}
  {clientsData : KeyMap Int16 ClientData}

/-- A query takes the names of its marks from the records. -/
theorem plain_visit (records : ∀ id data, clientsData id = some data → data.Plain)
    (kept : ∀ followed watcher, followed.Plain → 0 ∉ watcher.name →
      0 ∉ (watch followed watcher).1.name) (watchers : List Watcher)
    (plain : ∀ watcher ∈ watchers, 0 ∉ watcher.name) :
    ∀ watcher ∈ (visitFollowing watch clientsData watchers).1, 0 ∉ watcher.name := by
  induction watchers with
  | nil => simp [visitFollowing]
  | cons watcher rest ih =>
      simp only [visitFollowing]
      cases present : clientsData watcher.id with
      | none => exact plain
      | some followed =>
          have here := kept followed watcher (records _ _ present) (plain watcher (by simp))
          have later := ih fun other member => plain other (List.mem_cons_of_mem _ member)
          intro other member
          rcases List.mem_cons.mp member with rfl | member
          · exact here
          · exact later other member

theorem plain_query {id : Int16} {mine : ClientData} {following : List Watcher}
    {result : Except Fault (List β)}
    (records : ∀ id data, clientsData id = some data → data.Plain)
    (kept : ∀ followed watcher, followed.Plain → 0 ∉ watcher.name →
      0 ∉ (watch followed watcher).1.name)
    (here : clientsData id = some mine)
    (visited : visitFollowing watch clientsData mine.following = (following, result)) :
    ∀ other data, clientsData.modify id (·.setFollowing following) other = some data →
      data.Plain := by
  refine plain_modify records ?_
  rintro data present ⟨name, positions, watchers⟩
  rw [here] at present
  cases present
  have moved := plain_visit records kept mine.following watchers
  rw [visited] at moved
  exact ⟨name, positions, moved⟩

end Visit

theorem watchPositions_name (followed : ClientData) (watcher : Watcher) :
    (watchPositions followed watcher).1.name = watcher.name := by
  unfold watchPositions
  split
  · rfl
  · split <;> rfl

theorem watchName_plain {followed : ClientData} {watcher : Watcher} (plain : followed.Plain)
    (mark : 0 ∉ watcher.name) : 0 ∉ (watchName followed watcher).1.name := by
  unfold watchName
  split
  · exact plain.name
  · exact mark

theorem plain_step {before after : Database} {op : Op} {reply : Reply}
    (plain : before.manager.Plain) (sent : (Deployment.Event.call (op, reply)).Plain)
    (effect : Effect before op reply after) : after.manager.Plain := by
  obtain ⟨names, records⟩ := plain
  cases effect with
  | registerKnown | unregister | getNameId | setNameTaken => exact ⟨names, records⟩
  | @registerFresh key queue fresh =>
      refine ⟨names, ?_⟩
      intro id data found
      simp only [KeyMap.insert_apply] at found
      split at found
      · cases stored : before.manager.clientsData before.manager.nextId with
        | none =>
            rw [stored] at found
            cases found
            exact ⟨List.not_mem_nil, by simp [ClientData.Ordered], by simp⟩
        | some old =>
            rw [stored] at found
            cases found
            exact records _ _ stored
      · exact records id data found
  | addFollower here there =>
      exact ⟨names, plain_modify (plain_modify records fun _ _ plain => plain.addFollower _)
        fun _ _ plain => plain.startFollowing _⟩
  | removeFollower here there =>
      exact ⟨names, plain_modify (plain_modify records fun _ _ plain => plain.removeFollower _)
        fun _ _ plain => plain.stopFollowing _⟩
  | stopFollowing here there =>
      exact ⟨names, plain_modify (plain_modify records fun _ _ plain => plain.stopFollowing _)
        fun _ _ plain => plain.removeFollower _⟩
  | addPosition here =>
      exact ⟨names, plain_modify records fun _ _ plain => plain.addPosition sent⟩
  | getNewPositions here visited =>
      refine ⟨names, plain_query records ?_ here visited⟩
      intro followed watcher _ mark
      rw [watchPositions_name]
      exact mark
  | @setNameFree myId name mine free here =>
      refine ⟨?_, plain_modify records fun _ _ plain => plain.setName sent⟩
      intro other id found
      by_cases same : other = name
      · rw [same]
        exact sent
      · dsimp only at found
        rw [KeyMap.insert_of_ne _ _ same] at found
        split at found
        · exact names other id found
        · exact names other id (KeyMap.erase_eq_some found).2
  | getNewNames here visited =>
      exact ⟨names, plain_query records (fun _ _ => watchName_plain) here visited⟩

end ClientDataManager

namespace Deployment

variable {Text : Type} {archive : Archive Text} {deployment : Deployment Text}
  {events : List Event}

/-- What a process that can open the file loads from it. -/
def reopened (archive : Archive Text) (file : Option Text) : ClientDataManager :=
  (Database.opened (file.map archive.read)).manager

/-- The manager is what a run over some calls leaves, the queues apart, and it is plain. -/
structure ResultOf (calls : List (Op × Reply)) (m : ClientDataManager) : Prop where
  run : ∃ database, Run ClientDataManager.Step {} calls database ∧
    m.saved = database.manager.saved
  plain : m.Plain

theorem resultOf_nil : ResultOf [] {} := by
  refine ⟨⟨{}, .nil, rfl⟩, ?_, ?_⟩
  · intro name id found
    cases found
  · intro id data found
    cases found

theorem ResultOf.snoc {calls : List (Op × Reply)} {call : Op × Reply} {before after : Database}
    (result : ResultOf calls before.manager) (sent : (Event.call call).Plain)
    (returns : ClientDataManager.Step before call after) :
    ResultOf (calls ++ [call]) after.manager := by
  obtain ⟨⟨database, run, same⟩, plain⟩ := result
  have effect := step_iff_effect.mp returns
  obtain ⟨next, matched, kept⟩ := effect_saved effect same (refusal_run run)
  exact ⟨⟨next, .snoc run (step_iff_effect.mpr matched), kept⟩, plain_step plain sent effect⟩

/-- The running process and the file hold what the calls that they stand for lead to. -/
structure Recalls (archive : Archive Text) (lasting : Lasting) (deployment : Deployment Text) :
    Prop where
  running : ResultOf lasting.running deployment.database.manager
  filed : ResultOf lasting.filed (reopened archive deployment.file)

/-- The file that a process leaves. -/
theorem Recalls.leaves (restores : archive.Restores) {lasting : Lasting} {saving : Saving}
    {file : Option Text} (recalls : Recalls archive lasting deployment)
    (left : Leaves archive deployment saving file) :
    ResultOf (saving.keeps lasting) (reopened archive file) := by
  cases left with
  | written =>
      have loaded : reopened archive (some (archive.write deployment.database.manager.saved)) =
          { deployment.database.manager with clientsQueue := KeyMap.empty } := by
        simp only [reopened, Option.map_some, restores _ recalls.running.plain,
          Database.manager_opened_saved]
      rw [loaded]
      exact ⟨recalls.running.run, recalls.running.plain.names, recalls.running.plain.records⟩
  | skipped => exact recalls.filed
  | @torn text what broken =>
      have loaded : reopened archive (some text) = {} := by
        simp only [reopened, Option.map_some, broken]
        rfl
      rw [loaded]
      exact resultOf_nil

theorem recalls_step (restores : archive.Restores) {lasting : Lasting}
    {after : Deployment Text} {event : Event} (recalls : Recalls archive lasting deployment)
    (sent : event.Plain) (step : Step archive deployment event after) :
    Recalls archive (lasting.after event) after := by
  cases step with
  | call returns => exact ⟨recalls.running.snoc sent returns, recalls.filed⟩
  | @restart saving opens file left =>
      have filed := recalls.leaves restores left
      cases opens with
      | true => exact ⟨filed, filed⟩
      | false => exact ⟨resultOf_nil, filed⟩

theorem recalls_run (restores : archive.Restores)
    (run : Run (Guarded (fun _ event => event.Plain) (Step archive)) {} events deployment) :
    Recalls archive (lasting events) deployment := by
  refine run.history_invariant (fun events deployment =>
    Recalls archive (lasting events) deployment) ?_ ?_
  · exact ⟨resultOf_nil, resultOf_nil⟩
  · rintro events before event after _ recalls ⟨sent, step⟩
    rw [lasting_snoc]
    exact recalls_step restores recalls sent step

/-- The queues are those of the process that runs. -/
theorem queues_run (run : Run (Step archive) {} events deployment) :
    deployment.database.manager.clientsQueue = events.foldl queuesAfter KeyMap.empty := by
  refine run.history_invariant (fun events deployment =>
    deployment.database.manager.clientsQueue = events.foldl queuesAfter KeyMap.empty) rfl ?_
  intro events before event after _ held step
  rw [List.foldl_append, List.foldl_cons, List.foldl_nil, ← held]
  cases step with
  | @call call _ returns =>
      obtain ⟨op, reply⟩ := call
      cases step_iff_effect.mp returns <;> rfl
  | restart leaves => exact Database.queues_opened _

/-- Whatever ended the processes before, what the running one keeps and what is in the file are
what the calls that last lead to in one process, but for the queues. -/
theorem lifetimes_recall (restores : archive.Restores)
    (run : Run (Guarded (fun _ event => event.Plain) (Step archive)) {} events deployment) :
    (∃ database, Run ClientDataManager.Step {} (lasting events).running database ∧
      deployment.database.manager.saved = database.manager.saved) ∧
    (∃ database, Run ClientDataManager.Step {} (lasting events).filed database ∧
      (reopened archive deployment.file).saved = database.manager.saved) ∧
    deployment.database.manager.clientsQueue = events.foldl queuesAfter KeyMap.empty :=
  ⟨(recalls_run restores run).running.run, (recalls_run restores run).filed.run,
    queues_run run.of_guarded⟩

/-- An archive that keeps documents as they are. -/
def plainArchive : Archive Document where
  write := id
  read := .ok

theorem plainArchive_restores : plainArchive.Restores := fun _ _ => rfl

/-- A client registers and posts, the process is stopped, and the next one loses a post. -/
def relaunched : List Event :=
  [.call (.registerClient [1] 0, .id 1), .call (.addPosition 1 0 0 5, .none),
    .restart .written true, .call (.registerClient [1] 4, .id 1),
    .call (.addPosition 1 0 0 6, .none), .restart .skipped true]

theorem relaunched_run : ∃ deployment,
    Run (Guarded (fun _ event => event.Plain) (Step plainArchive)) {} relaunched deployment := by
  have coordinates (time : Int) :
      (Event.call (.addPosition 1 0 0 time, .none)).Plain := ⟨rfl, rfl⟩
  exact ⟨_, .cons ⟨trivial, .call rfl⟩ (.cons ⟨coordinates 5, .call rfl⟩
    (.cons ⟨trivial, .restart .written⟩ (.cons ⟨trivial, .call rfl⟩
      (.cons ⟨coordinates 6, .call rfl⟩ (.cons ⟨trivial, .restart .skipped⟩ .nil)))))⟩

theorem lifetimes_recall_relaunched : ∃ deployment database,
    Run (Guarded (fun _ event => event.Plain) (Step plainArchive)) {} relaunched deployment ∧
    Run ClientDataManager.Step {}
      [(.registerClient [1] 0, .id 1), (.addPosition 1 0 0 5, .none)] database ∧
    deployment.database.manager.saved = database.manager.saved ∧
    deployment.database.manager.clientsQueue = KeyMap.empty := by
  obtain ⟨deployment, run⟩ := relaunched_run
  obtain ⟨⟨database, ran, same⟩, _, queues⟩ := lifetimes_recall plainArchive_restores run
  exact ⟨deployment, database, run, ran, same, queues⟩

/-- A restart after which the next process knows what this one or the file knew. -/
def Event.Gentle : Event → Prop
  | .call _ => True
  | .restart saving opens => saving ≠ .torn ∧ opens = true

theorem lasting_append (events later : List Event) :
    lasting (events ++ later) = later.foldl Lasting.after (lasting events) := by
  simp only [lasting, List.foldl_append]

/-- What the file holds while it is known, gentle restarts keep. -/
theorem lasting_gentle {call : Op × Reply} (later : List Event) :
    ∀ lasting : Lasting, call ∈ lasting.running → call ∈ lasting.filed →
    (∀ event ∈ later, event.Gentle) → call ∈ (later.foldl Lasting.after lasting).running := by
  induction later with
  | nil => exact fun _ here _ _ => here
  | cons event later ih =>
      intro lasting here filed gentle
      have rest := fun other member => gentle other (List.mem_cons_of_mem _ member)
      have now := gentle event (by simp)
      cases event with
      | call other => exact ih _ (List.mem_append_left _ here) filed rest
      | restart saving opens =>
          obtain ⟨whole, rfl⟩ := now
          have kept : call ∈ saving.keeps lasting := by
            cases saving with
            | written => exact here
            | skipped => exact filed
            | torn => exact absurd rfl whole
          exact ih _ kept kept rest

/-- An id that was given out before the file was written is the id of that key, and of no other,
in every process that follows. -/
theorem ids_last (restores : archive.Restores) {earlier later : List Event} {op again : Op}
    {reply answer : Reply} {key other : Bytes}
    (registered : (op, reply) ∈ (lasting earlier).running) (own : keyOf op = some key)
    (gentle : ∀ event ∈ later, event.Gentle) (theirs : keyOf again = some other)
    (run : Run (Guarded (fun _ event => event.Plain) (Step archive)) {}
      ((earlier ++ .restart .written true :: later) ++ [.call (again, answer)]) deployment)
    (small : distinctKeys (lasting ((earlier ++ .restart .written true :: later) ++
      [.call (again, answer)])).running ≤ maxShort) :
    answer = reply ↔ other = key := by
  obtain ⟨database, ran, _⟩ := (recalls_run restores run).running.run
  have kept := idsKept_of_unwrapped (numbered_run ran) (unwrapped_run ran small)
  have old : (op, reply) ∈ (lasting (earlier ++ .restart .written true :: later)).running := by
    rw [lasting_append, List.foldl_cons]
    exact lasting_gentle later _ registered registered gentle
  rw [lasting_snoc] at kept
  exact kept.same again op answer reply other key
    (List.mem_append_right _ (List.mem_singleton.mpr rfl)) (List.mem_append_left _ old) theirs own

/-- After a restart, and a crash of the next process, another client registers. -/
theorem ids_last_relaunched : ∃ deployment : Deployment Document,
    Run (Guarded (fun _ event => event.Plain) (Step plainArchive)) {}
      [.call (.registerClient [1] 0, .id 1), .restart .written true, .restart .skipped true,
        .call (.registerClient [2] 4, .id 2)] deployment ∧
    (Reply.id 2 = .id 1 ↔ ([2] : Bytes) = [1]) := by
  have run : Run (Guarded (fun _ event => Event.Plain event) (Step plainArchive)) {}
      [.call (.registerClient [1] 0, .id 1), .restart .written true, .restart .skipped true,
        .call (.registerClient [2] 4, .id 2)] _ :=
    .cons ⟨trivial, .call rfl⟩ (.cons ⟨trivial, .restart .written⟩
      (.cons ⟨trivial, .restart .skipped⟩ (.cons ⟨trivial, .call rfl⟩ .nil)))
  refine ⟨_, run, ?_⟩
  exact @ids_last Document plainArchive _ plainArchive_restores
    [.call (.registerClient [1] 0, .id 1)] [.restart .skipped true] (.registerClient [1] 0)
    (.registerClient [2] 4) (.id 1) (.id 2) [1] [2] (List.mem_singleton.mpr rfl) rfl
    (by simp [Event.Gentle]) rfl run (by decide)

end Deployment

end Locus
