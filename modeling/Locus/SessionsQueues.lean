import Locus.SessionsStep

set_option autoImplicit false

/- The queues that the manager notifies, and the sessions that own them. A session
enters its queue when it registers and erases the entry of its id when it ends. -/
namespace Locus

open Transition Program

namespace ClientDataManager

theorem queues_shared {before after : Database} {op : Op} {reply : Reply}
    (effect : Effect before op reply after) (shared : Server.isEnrolment op = false) :
    after.manager.clientsQueue = before.manager.clientsQueue := by
  cases effect <;> first | rfl | cases shared

theorem queues_register {before after : Database} {key : Bytes} {queue : QueueRef} {id : Int16}
    (effect : Effect before (.registerClient key queue) (.id id) after) :
    after.manager.clientsQueue = before.manager.clientsQueue.insert id queue := by
  cases effect <;> rfl

theorem queues_unregister {before after : Database} {id : Int16} {reply : Reply}
    (effect : Effect before (.unregister id) reply after) :
    after.manager.clientsQueue = before.manager.clientsQueue.erase id := by
  cases effect
  rfl

/-- A call posts only to queues that are listed. -/
theorem posted_listed {before after : Database} {op : Op} {reply : Reply}
    (effect : Effect before op reply after) :
    ∃ added, after.posted = before.posted ++ added ∧
      ∀ queue ∈ added, ∃ id, before.manager.clientsQueue id = some queue := by
  have listed : ∀ ids, ∀ queue ∈ before.manager.queuesOf ids,
      ∃ id, before.manager.clientsQueue id = some queue := by
    intro ids queue member
    obtain ⟨id, _, found⟩ := List.mem_filterMap.mp member
    exact ⟨id, found⟩
  cases effect with
  | addFollower hereData thereData => exact ⟨_, rfl, listed _⟩
  | addPosition hereData => exact ⟨_, rfl, listed _⟩
  | setNameFree free hereData => exact ⟨_, rfl, listed _⟩
  | _ => exact ⟨[], (List.append_nil _).symm, by simp⟩

theorem distinctKeys_le_append (calls more : List (Op × Reply)) :
    distinctKeys calls ≤ distinctKeys (calls ++ more) := by
  apply Finset.card_le_card
  intro key member
  simp only [keysOf, List.filterMap_append, List.toFinset_append, Finset.mem_union]
  exact .inl member

end ClientDataManager

namespace Server

variable {Key : Type} {lib : CryptoLibrary Key}

/-- A registered session can be notified: its id has an entry. -/
def Notifiable (server : Server Key) : Prop :=
  ∀ queue client, server.sessions queue = some client → client.Registered →
    (server.database.manager.clientsQueue client.id).isSome

/-- A session ends while another one is registered with the same positive id. -/
def StrandsTwin (before : Server Key) (event : Event) : Prop :=
  ∃ queue acts client other twin, event = .destroy queue acts ∧
    before.sessions queue = some client ∧ 0 < client.id ∧ other ≠ queue ∧
    before.sessions other = some twin ∧ twin.Registered ∧ twin.id = client.id

/-- A session that is replaced by one with the same standing keeps everyone notifiable. -/
theorem Notifiable.replace {server : Server Key} {queue : QueueRef}
    {client after : ProtocolClient Key} {database : Database} (notifiable : Notifiable server)
    (alive : server.sessions queue = some client) (sameId : after.id = client.id)
    (registered : after.Registered → client.Registered)
    (queues : database.manager.clientsQueue = server.database.manager.clientsQueue) :
    Notifiable { database, sessions := server.sessions.modify queue fun _ => after } := by
  intro other found there standing
  change (database.manager.clientsQueue found.id).isSome
  rw [queues]
  rcases KeyMap.modify_eq_some there with ⟨rfl, rfl⟩ | ⟨_, there⟩
  · rw [sameId]
    exact notifiable other client alive (registered standing)
  · exact notifiable other found there standing

theorem notifiable_step {before after : Server Key} {event : Event}
    (notifiable : Notifiable before) (effect : Effect before event after)
    (steady : ¬ StrandsTwin before event) : Notifiable after := by
  cases effect with
  | create unused address stage id packets =>
      intro other found there registered
      rcases KeyMap.insert_eq_some unused there with ⟨rfl, rfl⟩ | ⟨_, there⟩
      · rw [ProtocolClient.Registered, stage] at registered
        cases registered
      · exact notifiable other found there registered
  | advance alive sameQueue sameId samePackets registered =>
      exact notifiable.replace alive sameId registered.mp rfl
  | @selfRegister queue client after key database acts alive unregistered registered called =>
      have queues := ClientDataManager.queues_register called
      intro other found there standing
      change (database.manager.clientsQueue found.id).isSome
      rw [queues]
      rcases KeyMap.modify_eq_some there with ⟨rfl, rfl⟩ | ⟨_, there⟩
      · rw [KeyMap.insert_self, Option.isSome_some]
      · obtain ⟨listed, entry⟩ := Option.isSome_iff_exists.mp
          (notifiable other found there standing)
        rw [KeyMap.insert_of_some _ _ entry, Option.isSome_some]
  | update alive registered posted named placed updated =>
      apply notifiable.replace alive updated.id (fun _ => registered)
      rw [ClientDataManager.queues_shared placed rfl, ClientDataManager.queues_shared named rfl]
      rfl
  | ignore alive unregistered posted =>
      exact notifiable.replace alive rfl (fun standing => standing) rfl
  | sendRemainingData alive packets sent calls sameQueue sameId sameStage =>
      exact notifiable.replace alive sameId (fun standing => sameStage.symm.trans standing) rfl
  | @unregister queue client database acts alive positive called calls =>
      intro other found there registered
      change (database.manager.clientsQueue found.id).isSome
      obtain ⟨apart, there⟩ := KeyMap.erase_eq_some there
      have unshared : found.id ≠ client.id := by
        intro same
        exact steady ⟨queue, acts, client, other, found, rfl, alive, positive, apart, there,
          registered, same⟩
      rw [ClientDataManager.queues_unregister called, KeyMap.erase_of_ne _ unshared]
      exact notifiable other found there registered
  | vanish alive unnumbered =>
      intro other found there registered
      exact notifiable other found (KeyMap.erase_eq_some there).2 registered
  | call shared called =>
      intro other found there registered
      simp only [ClientDataManager.queues_shared called shared]
      exact notifiable other found there registered
  | callThrows posting called manager refusal =>
      intro other found there registered
      simp only [manager, ClientDataManager.queues_posting called posting]
      exact notifiable other found there registered

theorem not_notifiable_of_strands {before after : Server Key} {event : Event}
    (effect : Effect before event after) (strands : StrandsTwin before event) :
    ¬ Notifiable after := by
  obtain ⟨queue, acts, client, other, twin, rfl, alive, positive, apart, there, registered,
    same⟩ := strands
  intro notifiable
  cases effect with
  | unregister alive' _ called =>
      rw [alive] at alive'
      cases alive'
      have left := notifiable other twin ((KeyMap.erase_of_ne _ apart).trans there) registered
      simp only [ClientDataManager.queues_unregister called, same, KeyMap.erase_self,
        Option.isSome_none, Bool.false_eq_true] at left
  | vanish alive' unnumbered =>
      rw [alive] at alive'
      cases alive'
      exact unnumbered positive

/-- Everyone stays notifiable in exactly the runs in which no session ends while
another one is registered with its id. -/
theorem notifiable_iff (events : List Event) :
    Always (Step lib) {} (fun _ _ after => Notifiable after) events ↔
      Always (Step lib) {} (fun before event _ => ¬ StrandsTwin before event) events := by
  refine always_iff (by simp [Notifiable]) ?_ ?_ events
  · intro past before event after run stepped notifiable steady
    exact notifiable_step notifiable (effect_of_step (consistent_run run) stepped) steady
  · intro past before event after run stepped strands
    exact not_notifiable_of_strands (effect_of_step (consistent_run run) stepped) strands

/-- A library that hides nothing and takes every text for a key. -/
def keyring : CryptoLibrary Bytes where
  load := fun bytes _ => (.ok (), bytes)
  validate := fun _ _ => true
  save := fun key => key
  fixedMaxPlaintextLength := fun _ => 1
  rsaEncrypt := fun _ _ text => .ok text
  rsaDecrypt := fun _ cipher => .ok cipher
  aesEncrypt := fun key text => .ok (key ++ text)
  aesDecrypt := fun key cipher => .ok (cipher.drop key.length)
  patience := 1

/-- A session as its constructor leaves it. -/
def newcomer (queue : QueueRef) : ProtocolClient Bytes :=
  (ProtocolClient.create keyring { publicKey := [], encryptor := [] } [] [7] queue).client

/-- A session whose client has sent its key and is about to be registered. -/
def tested (key : Bytes) (queue : QueueRef) : ProtocolClient Bytes :=
  { cryptoModule := {
      rsaServerCrypto := { publicKey := [], encryptor := [] }
      rsaSimpleCrypto := { publicKey := key, encryptor := key, publicKeyInitialized := true }
      aesKey := [7]
      algorithm := .AES }
    blockingQueue := queue
    stage := .TestKey }

/-- A session whose client has been registered. -/
def arrived (key : Bytes) (queue : QueueRef) (id : Int16) : ProtocolClient Bytes :=
  { tested key queue with stage := .StableCommunication, id }

/-- A connection is accepted, and its client registers. -/
def arrival (key : Bytes) (queue : QueueRef) (id : Int16) : List Event :=
  [.create queue, .advance queue, .selfRegister queue [.stage .StableCommunication,
    .called (.registerClient key queue) (some (.id id))]]

section Arrival

variable {server : Server Bytes} {key : Bytes} {queue : QueueRef} {id : Int16}
  {database : Database}

theorem openSession_tested (registered : ClientDataManager.Step server.database
      (.registerClient key queue, .id id) database) :
    ProtocolClient.openSession keyring (server.enter (tested key queue)) =
      .ok () { client := arrived key queue id, database, acts := [.stage .StableCommunication,
        .called (.registerClient key queue) (some (.id id))] } := by
  simp only [ProtocolClient.openSession, bind_run, ProtocolClient.setStage_run,
    ProtocolClient.selfRegister]
  generalize staged : ProtocolClient.logged _ _ = middle
  have saved : ProtocolClient.crypto (CryptoModule.getOuterRSAKey keyring) middle =
      .ok key middle := by
    subst staged
    rfl
  have called : ProtocolClient.manager
      (.registerClient key middle.client.blockingQueue) middle = _ :=
    ProtocolClient.manager_ok (by subst staged; exact registered)
  simp only [saved, get_run, called, ProtocolClient.edit_run]
  subst staged
  rfl

/-- A client arrives by steps that meet a condition. -/
theorem arrival_guarded {ok : Server Bytes → Event → Prop}
    (unused : server.sessions queue = none)
    (registered : ClientDataManager.Step server.database
      (.registerClient key queue, .id id) database)
    (first : ok server (.create queue))
    (second : ok { server with sessions := server.sessions.insert queue (newcomer queue) }
      (.advance queue))
    (third : ok { server with sessions := server.sessions.insert queue (tested key queue) }
      (.selfRegister queue [.stage .StableCommunication,
        .called (.registerClient key queue) (some (.id id))])) :
    Run (Guarded ok (Step keyring)) server (arrival key queue id)
      { database, sessions := server.sessions.insert queue (arrived key queue id) } := by
  have there : ∀ client, server.sessions.insert queue client queue = some client := by
    intro client
    rw [KeyMap.insert_self, unused, Option.getD_none]
  have replaced : ∀ client next, (server.sessions.insert queue client).modify queue
      (fun _ => next) = server.sessions.insert queue next :=
    fun client next => KeyMap.modify_insert client (fun _ => next) unused
  have created : Step keyring server (.create queue)
      { server with sessions := server.sessions.insert queue (newcomer queue) } := .create unused
  have advanced : Step keyring
      { server with sessions := server.sessions.insert queue (newcomer queue) } (.advance queue)
      { server with sessions := server.sessions.insert queue (tested key queue) } := by
    have unregistered : (tested key queue).Registered ↔ (newcomer queue).Registered := by
      simp [tested, newcomer, ProtocolClient.Registered, ProtocolClient.create_eq]
    rw [← replaced (newcomer queue) (tested key queue)]
    exact .advance (there _) rfl rfl rfl unregistered
  have opened : Step keyring
      { server with sessions := server.sessions.insert queue (tested key queue) } _ _ :=
    .selfRegister (there (tested key queue)) rfl (openSession_tested registered)
  rw [leave, replaced] at opened
  exact .cons ⟨first, created⟩ (.cons ⟨second, advanced⟩ (.cons ⟨third, opened⟩ .nil))

theorem arrival_run (unused : server.sessions queue = none)
    (registered : ClientDataManager.Step server.database
      (.registerClient key queue, .id id) database) :
    Run (Step keyring) server (arrival key queue id)
      { database, sessions := server.sessions.insert queue (arrived key queue id) } :=
  have arrives :=
    @arrival_guarded _ _ _ _ _ (fun _ _ => True) unused registered trivial trivial trivial
  arrives.of_guarded

end Arrival

/-- The end of a session with a positive id. -/
theorem Step.ended {lib : CryptoLibrary Key} {server : Server Key} {queue : QueueRef}
    {client : ProtocolClient Key} (alive : server.sessions queue = some client)
    (positive : client.id > 0) :
    Step lib server (.destroy queue [.called (.unregister client.id) (some .none)])
      { database := { server.database with
          manager := { server.database.manager with
            clientsQueue := server.database.manager.clientsQueue.erase client.id }
          posted := server.database.posted.filter (· ≠ queue) }
        sessions := server.sessions.erase queue } :=
  .destroy alive (ProtocolClient.destroy_run positive)

/-- A client comes back before its old session has ended. -/
def reconnection : List Event :=
  arrival [5] 0 1 ++ arrival [5] 1 1 ++ [.destroy 0 [.called (.unregister 1) (some .none)]]

theorem reconnection_run : ∃ server,
    Run (Step keyring) {} reconnection server ∧
    server.sessions 1 = some (arrived [5] 1 1) ∧
    server.database.manager.clientsQueue 1 = none := by
  have positive : (arrived [5] 0 1).id > 0 := by decide
  have run : Run (Step keyring) {} reconnection _ :=
    Run.append_iff.mpr ⟨_, Run.append_iff.mpr ⟨_, arrival_run rfl rfl, arrival_run rfl rfl⟩,
      .cons (.ended rfl positive) .nil⟩
  exact ⟨_, run, rfl, rfl⟩

/-- The end of the old session takes away the entry of the new one. -/
theorem reconnection_not_notifiable : ∃ server,
    Run (Step keyring) {} reconnection server ∧ ¬ Notifiable server := by
  obtain ⟨server, run, alive, gone⟩ := reconnection_run
  refine ⟨server, run, ?_⟩
  intro notifiable
  have left := notifiable 1 (arrived [5] 1 1) alive rfl
  rw [show (arrived [5] 1 1).id = 1 from rfl, gone] at left
  cases left

/-- Each entry names the queue of a living session that registered with its id. -/
def Owned (server : Server Key) : Prop :=
  ∀ id queue, server.database.manager.clientsQueue id = some queue →
    ∃ client, server.sessions queue = some client ∧ client.Registered ∧ client.id = id

/-- A session without a positive id ends while its entry is there. -/
def LeavesEntry (before : Server Key) (event : Event) : Prop :=
  ∃ queue acts client, event = .destroy queue acts ∧ before.sessions queue = some client ∧
    ¬ 0 < client.id ∧ before.database.manager.clientsQueue client.id = some queue

/-- The queue of an entry is not the queue of a session with another standing. -/
theorem Owned.elsewhere {server : Server Key} {queue other : QueueRef}
    {client : ProtocolClient Key} {id : Int16} (owned : Owned server)
    (entry : server.database.manager.clientsQueue id = some other)
    (alive : server.sessions queue = some client)
    (different : client.Registered → client.id ≠ id) : other ≠ queue := by
  intro here
  obtain ⟨owner, there, standing, same⟩ := owned id other entry
  rw [here, alive] at there
  cases there
  exact different standing same

theorem Owned.elsewhere_vanished {server : Server Key} {queue other : QueueRef}
    {client : ProtocolClient Key} {id : Int16} {acts : List Act} (owned : Owned server)
    (entry : server.database.manager.clientsQueue id = some other)
    (alive : server.sessions queue = some client) (unnumbered : ¬ 0 < client.id)
    (tidy : ¬ LeavesEntry server (.destroy queue acts)) : other ≠ queue := by
  intro here
  subst here
  refine owned.elsewhere entry alive ?_ rfl
  rintro _ rfl
  exact tidy ⟨other, acts, client, rfl, alive, unnumbered, entry⟩

theorem Owned.replace {server : Server Key} {queue : QueueRef}
    {client after : ProtocolClient Key} {database : Database} (owned : Owned server)
    (alive : server.sessions queue = some client) (sameId : after.id = client.id)
    (registered : client.Registered → after.Registered)
    (queues : database.manager.clientsQueue = server.database.manager.clientsQueue) :
    Owned { database, sessions := server.sessions.modify queue fun _ => after } := by
  intro id other entry
  change database.manager.clientsQueue id = some other at entry
  rw [queues] at entry
  obtain ⟨owner, there, standing, same⟩ := owned id other entry
  by_cases here : other = queue
  · subst here
    rw [alive] at there
    cases there
    exact ⟨after, KeyMap.modify_of_some _ alive, registered standing, sameId.trans same⟩
  · exact ⟨owner, (KeyMap.modify_of_ne _ _ here).trans there, standing, same⟩

theorem owned_step {before after : Server Key} {event : Event} (owned : Owned before)
    (effect : Effect before event after) (tidy : ¬ LeavesEntry before event) : Owned after := by
  cases effect with
  | create unused address stage id packets =>
      intro id other entry
      obtain ⟨owner, there, standing, same⟩ := owned id other entry
      exact ⟨owner, KeyMap.insert_of_some _ _ there, standing, same⟩
  | advance alive sameQueue sameId samePackets registered =>
      exact owned.replace alive sameId registered.mpr rfl
  | @selfRegister queue client after key database acts alive unregistered registered called =>
      intro id other entry
      simp only [ClientDataManager.queues_register called, KeyMap.insert_apply] at entry
      have earlier : before.database.manager.clientsQueue id = some other →
          ∃ owner, before.sessions.modify queue (fun _ => after) other = some owner ∧
            owner.Registered ∧ owner.id = id := by
        intro entry
        have apart := owned.elsewhere entry alive fun standing => absurd standing unregistered
        obtain ⟨owner, there, standing, same⟩ := owned id other entry
        exact ⟨owner, (KeyMap.modify_of_ne _ _ apart).trans there, standing, same⟩
      split at entry
      · rename_i own
        subst own
        cases present : before.database.manager.clientsQueue after.id with
        | none =>
            rw [present, Option.getD_none, Option.some.injEq] at entry
            subst entry
            exact ⟨after, KeyMap.modify_of_some _ alive, registered, rfl⟩
        | some listed =>
            rw [present, Option.getD_some] at entry
            exact earlier (present.trans entry)
      · exact earlier entry
  | @update queue client after turn names positions handed middle database acts alive registered
      posted named placed updated =>
      apply owned.replace alive updated.id (fun _ => updated.stage.trans registered)
      rw [ClientDataManager.queues_shared placed rfl, ClientDataManager.queues_shared named rfl]
      rfl
  | ignore alive unregistered posted =>
      exact owned.replace alive rfl (fun standing => standing) rfl
  | sendRemainingData alive packets sent calls sameQueue sameId sameStage =>
      exact owned.replace alive sameId (fun standing => sameStage.trans standing) rfl
  | @unregister queue client database acts alive positive called calls =>
      intro id other entry
      simp only [ClientDataManager.queues_unregister called] at entry
      obtain ⟨apart, entry⟩ := KeyMap.erase_eq_some entry
      have elsewhere := owned.elsewhere entry alive fun _ => Ne.symm apart
      obtain ⟨owner, there, standing, same⟩ := owned id other entry
      exact ⟨owner, (KeyMap.erase_of_ne _ elsewhere).trans there, standing, same⟩
  | @vanish queue client alive unnumbered =>
      intro id other entry
      have elsewhere := owned.elsewhere_vanished entry alive unnumbered tidy
      obtain ⟨owner, there, standing, same⟩ := owned id other entry
      exact ⟨owner, (KeyMap.erase_of_ne _ elsewhere).trans there, standing, same⟩
  | call shared called =>
      intro id other entry
      simp only [ClientDataManager.queues_shared called shared] at entry
      exact owned id other entry
  | callThrows posting called manager refusal =>
      intro id other entry
      simp only [manager, ClientDataManager.queues_posting called posting] at entry
      exact owned id other entry

/-- While the ids have not wrapped, a registered session has a positive one. -/
theorem Consistent.positive {events : List Event} {server : Server Key} {queue : QueueRef}
    {client : ProtocolClient Key} (consistent : Consistent events server)
    (few : distinctKeys events ≤ ClientDataManager.maxShort)
    (alive : server.sessions queue = some client) (registered : client.Registered) :
    0 < client.id := by
  obtain ⟨key, listed⟩ := consistent.listed queue client alive registered
  obtain ⟨database, run, same⟩ := consistent.reached
  rw [← same] at listed
  exact (ClientDataManager.unwrapped_run run few).positive key client.id listed

theorem owned_run {events : List Event} {server : Server Key}
    (run : Run (Step lib) {} events server) :
    distinctKeys events ≤ ClientDataManager.maxShort → Owned server := by
  refine holds_of_effects (fun events server =>
    distinctKeys events ≤ ClientDataManager.maxShort → Owned server) ?_ ?_ run
  · intro _ id queue entry
    cases entry
  · intro events before event after consistent held effect few
    have fewer : distinctKeys events ≤ ClientDataManager.maxShort := by
      refine Nat.le_trans ?_ few
      rw [distinctKeys, distinctKeys, calls_snoc]
      exact ClientDataManager.distinctKeys_le_append _ _
    apply owned_step (held fewer) effect
    rintro ⟨queue, acts, client, rfl, alive, unnumbered, entry⟩
    obtain ⟨owner, there, standing, _⟩ := held fewer client.id queue entry
    rw [alive] at there
    cases there
    exact unnumbered (consistent.positive fewer alive standing)

/-- The posts of a call that throws go to living sessions, too. -/
theorem Owned.throws {events : List Event} {server after : Server Key}
    {op : ClientDataManager.Op} {made : List QueueRef} (owned : Owned server)
    (consistent : Consistent events server) (step : Step lib server (.callThrows op made) after) :
    ∀ queue ∈ made, (server.sessions queue).isSome := by
  cases effect_of_step consistent step with
  | callThrows posting called manager refusal posts some_of posted =>
      intro queue member
      obtain ⟨added, whole, listed⟩ := ClientDataManager.posted_listed called
      have same := List.append_cancel_left (whole.symm.trans posts)
      obtain ⟨id, entry⟩ := listed queue (same ▸ some_of.subset member)
      obtain ⟨client, alive, _⟩ := owned id queue entry
      rw [alive, Option.isSome_some]

/-- With fewer than 32768 keys every entry is the queue of a living session that
registered with its id, and every post goes to a living session. -/
theorem targets_alive {events : List Event} {server : Server Key}
    (run : Run (Step lib) {} events server) (few : distinctKeys events < 32768) :
    (∀ id queue, server.database.manager.clientsQueue id = some queue →
      ∃ client, server.sessions queue = some client ∧ client.Registered ∧ client.id = id) ∧
    (∀ op reply database, ClientDataManager.Step server.database (op, reply) database →
      ∃ added, database.posted = server.database.posted ++ added ∧
        ∀ queue ∈ added, (server.sessions queue).isSome) ∧
    ∀ op made after, Step lib server (.callThrows op made) after →
      ∀ queue ∈ made, (server.sessions queue).isSome := by
  have owned : Owned server := owned_run run (Nat.le_of_lt_succ few)
  refine ⟨owned, ?_, fun op made after => owned.throws (consistent_run run)⟩
  intro op reply database stepped
  obtain ⟨added, whole, listed⟩ :=
    ClientDataManager.posted_listed (ClientDataManager.step_iff_effect.mp stepped)
  refine ⟨added, whole, ?_⟩
  intro queue member
  obtain ⟨id, entry⟩ := listed queue member
  obtain ⟨client, alive, _⟩ := owned id queue entry
  rw [alive, Option.isSome_some]

/-- Then another client comes, which may follow the first one. -/
def company : List Event := reconnection ++ arrival [6] 2 2

/-- Its entry is left, and the permission is posted there. -/
theorem targets_alive_company : ∃ server database,
    Run (Step keyring) {} company server ∧ server.database.manager.clientsQueue 2 = some 2 ∧
    (∃ client, server.sessions 2 = some client ∧ client.Registered ∧ client.id = 2) ∧
    ClientDataManager.Step server.database (.addFollower 1 2, .none) database ∧
    ∃ added, database.posted = server.database.posted ++ added ∧ 2 ∈ added ∧
      ∀ queue ∈ added, (server.sessions queue).isSome := by
  have positive : (arrived [5] 0 1).id > 0 := by decide
  have run : Run (Step keyring) {} company _ :=
    Run.append_iff.mpr ⟨_, Run.append_iff.mpr ⟨_, Run.append_iff.mpr ⟨_, arrival_run rfl rfl,
      arrival_run rfl rfl⟩, .cons (.ended rfl positive) .nil⟩, arrival_run rfl rfl⟩
  obtain ⟨entries, posts, -⟩ := targets_alive run (by decide)
  obtain ⟨added, posted, alive⟩ := posts (.addFollower 1 2) .none _ rfl
  have told : added = [2] := List.append_cancel_left posted.symm
  exact ⟨_, _, run, rfl, entries 2 2 rfl, rfl, added, posted, by rw [told]; decide, alive⟩

end Server

end Locus
