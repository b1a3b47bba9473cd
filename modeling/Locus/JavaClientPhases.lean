import Locus.JavaClient

set_option autoImplicit false

/- How far a client has come with its two changes of cipher. Its main thread changes the
ciphers only while the reader thread waits for `receiveNext`, and it changes the cipher of
the writer thread only after the writer has sent what it was given before. -/
namespace Locus.Java

/-- The settings of the ciphers, and the instructions that the main thread has put, as the
main thread knows them. -/
structure Account where
  isEncryptionOn : Bool
  cipherModule : CipherModule
  /-- How many instructions were put. -/
  puts : Nat
  /-- `sending` was set after the last one was put. -/
  started : Bool := true
  /-- The last one that was put has been sent. -/
  drained : Bool := true

namespace Account

/-- The account between two changes of cipher, after so many of them. -/
def rest (aesKey : Bytes) : Nat → Account
  | 0 => { isEncryptionOn := false, cipherModule := {}, puts := 0 }
  | 1 =>
      { isEncryptionOn := true
        cipherModule :=
          { clientCiphers := true
            serverCiphers := true
            state := some .CLIENT_PRIVATE_SERVER_PUBLIC }
        puts := 1 }
  | _ =>
      { isEncryptionOn := true
        cipherModule :=
          { clientCiphers := true
            serverCiphers := true
            sessionKey := some aesKey
            sessionCiphers := some aesKey
            state := some .SESSION }
        puts := 2 }

theorem rest_drained (aesKey : Bytes) {changes : Nat} (early : changes ≤ 2) :
    (rest aesKey changes).drained = true := by
  obtain rfl | rfl | rfl : changes = 0 ∨ changes = 1 ∨ changes = 2 := by omega
  all_goals rfl

theorem rest_puts (aesKey : Bytes) {changes : Nat} (early : changes ≤ 2) :
    (rest aesKey changes).puts = changes := by
  obtain rfl | rfl | rfl : changes = 0 ∨ changes = 1 ∨ changes = 2 := by omega
  all_goals rfl

/-- The account after a statement of the handshake. An instruction is put only when the one
before it has been sent. -/
def after (statement : Statement) (account : Account) : Option Account :=
  match statement with
  | .initializeClientCiphers =>
      some { account with cipherModule := { account.cipherModule with clientCiphers := true } }
  | .initializeServerCiphers =>
      some { account with cipherModule := { account.cipherModule with serverCiphers := true } }
  | .initializeSessionCiphers =>
      some { account with
        cipherModule := { account.cipherModule with
          sessionCiphers := account.cipherModule.sessionKey } }
  | .setSessionKey key =>
      some { account with cipherModule := { account.cipherModule with sessionKey := some key } }
  | .setEncryptionOn => some { account with isEncryptionOn := true }
  | .setState state =>
      some { account with cipherModule := { account.cipherModule with state := some state } }
  | .put _ =>
      if account.drained then
        some { account with puts := account.puts + 1, started := false, drained := false }
      else none
  | .startSending => some { account with started := true }
  | .awaitSent => if account.started then some { account with drained := true } else none
  | .sleep | .receiveNext => some account
  | .halt | .closeSocket | .crash => none

/-- What has not been sent yet will be encrypted for the server's private key. -/
def Fits (account : Account) : Prop :=
  account.drained = false → account.isEncryptionOn = true ∧
    account.cipherModule.serverCiphers = true ∧
    (account.cipherModule.state = some .SERVER_PUBLIC ∨
      account.cipherModule.state = some .CLIENT_PRIVATE_SERVER_PUBLIC)

/-- The statements lead from one account to another, and what is put on the way fits. The first
instruction is the public key, and `receiveNext` is set at the end. -/
def Leads (publicKey : Bytes) (final : Account) : List Statement → Account → Prop
  | [], account => account = final
  | statement :: todo, account =>
      account.Fits ∧ account.puts ≤ final.puts ∧
        (statement = .receiveNext → todo = []) ∧
        (∀ packet, statement = .put packet → account.puts = 0 →
          packet = { type := .PUBLIC_KEY, arg := publicKey }) ∧
        ∃ next, account.after statement = some next ∧ Leads publicKey final todo next

/-- The packet that makes a client change its ciphers once more. -/
def expected (aesKey : Bytes) : Nat → Packet
  | 0 => { type := .OPEN_ENCR }
  | _ => { type := .SYMMETRIC_KEY, arg := aesKey }

/-- The turn for that packet leads from one account to the next. -/
theorem leads_turn (java : Library) (aesKey : Bytes) {changes : Nat} (early : changes ≤ 1) :
    Leads java.publicKey (rest aesKey (changes + 1))
      (turn java (.packet (some (expected aesKey changes)))) (rest aesKey changes) := by
  obtain rfl | rfl : changes = 0 ∨ changes = 1 := by omega
  · simp [turn, handle, expected, goOn, Leads, Fits, after, rest]
  · simp [turn, handle, expected, goOn, Leads, Fits, after, rest]

end Account

namespace Client

/-- The packets that the writer thread has not sent yet, in order. -/
def pending (client : Client) : List Packet :=
  (match client.writer with
    | .holding packet => [packet]
    | _ => []) ++ client.sendInstructions

/-- The packets that the main thread has not taken yet. -/
def packets (client : Client) : List (Option Packet) :=
  client.childMessages.filterMap fun message =>
    match message with
    | .packet packet => some packet
    | .error => none

/-- The reader thread cannot go on before the main thread sets `receiveNext`. -/
def Shut (client : Client) : Prop :=
  match client.reader with
  | .put | .ended => True
  | .looping | .await => client.receiveNext = false
  | _ => False

/-- The reader thread has no frame. -/
def Idle (client : Client) : Prop :=
  match client.reader with
  | .arrived _ _ | .received _ => False
  | _ => True

/-- The reader thread uses the messenger that the client has settled on. -/
def Listens (client : Client) : Prop :=
  ∀ isEncryptionOn, client.reader = .reading isEncryptionOn →
    isEncryptionOn = client.isEncryptionOn

/-- A statement of `stop()`, or behind the `switch`. -/
def winding : Statement → Bool
  | .halt | .closeSocket | .sleep | .receiveNext => true
  | _ => false

/-- The main thread waits for a message, or it is about to stop. -/
structure Winds (client : Client) : Prop where
  statements : ∀ statement ∈ client.todo, winding statement
  stops : client.running = true → client.todo = [] ∨ client.todo.head? = some .halt

/-- The client is where an account puts it, after the writer thread has sent so many frames. -/
structure Follows (publicKey : Bytes) (client : Client) (sent : Nat) (account : Account) :
    Prop where
  isEncryptionOn : client.isEncryptionOn = account.isEncryptionOn
  cipherModule : client.cipherModule = account.cipherModule
  total : sent + client.pending.length ≤ account.puts
  near : account.puts ≤ sent + 1
  drained : account.drained = true → sent = account.puts
  started : account.started = true → sent < account.puts → client.sending = true
  first : sent = 0 → ∀ packet ∈ client.pending,
    packet = { type := .PUBLIC_KEY, arg := publicKey }

/-- Where the packet is that the client waits for to change its ciphers. -/
inductive Load (aesKey : Bytes) (changes : Nat) (client : Client) : Prop
  | arrived (frame : Bytes)
      (reader : client.reader = .arrived (Account.rest aesKey changes).isEncryptionOn frame)
      (empty : client.packets = [])
  | received (reader : client.reader = .received (some (Account.expected aesKey changes)))
      (empty : client.packets = [])
  | queued (packets : client.packets = [some (Account.expected aesKey changes)])
      (idle : client.Idle) (shut : client.Shut ∨ client.running = false)
  /-- The reader thread failed, and the packet will never be handled. -/
  | lost (empty : client.packets = []) (idle : client.Idle)

/-- A statement that leaves the ciphers alone. -/
def plain : Statement → Bool
  | .put _ | .sleep | .receiveNext | .halt | .closeSocket | .crash => true
  | _ => false

/-- A client that has come through all changes of cipher. -/
structure Done (aesKey : Bytes) (client : Client) : Prop where
  isEncryptionOn : client.isEncryptionOn = true
  cipherModule : client.cipherModule = (Account.rest aesKey 2).cipherModule
  todo : ∀ statement ∈ client.todo, plain statement
  packets : ∀ packet ∈ client.packets, Benign packet
  received : ∀ packet, client.reader = .received packet → Benign packet
  reading : ∀ isEncryptionOn, client.reader = .reading isEncryptionOn → isEncryptionOn = true
  arrived : ∀ isEncryptionOn frame, client.reader = .arrived isEncryptionOn frame →
    isEncryptionOn = true

/-- How far a client has come that has taken and sent so many frames. -/
inductive Phase (publicKey aesKey : Bytes) (fetched sent : Nat) (client : Client) : Prop
  /-- It waits for the next frame. -/
  | resting (changes : Nat) (early : changes ≤ 2) (taken : fetched = changes)
      (follows : client.Follows publicKey sent (Account.rest aesKey changes)) (winds : client.Winds)
      (empty : client.packets = []) (idle : client.Idle) (listens : client.Listens)
  /-- It has taken a frame that makes it change its ciphers, and has not changed them. -/
  | behind (changes : Nat) (early : changes ≤ 1) (taken : fetched = changes + 1)
      (follows : client.Follows publicKey sent (Account.rest aesKey changes)) (winds : client.Winds)
      (load : Load aesKey changes client)
  /-- Its main thread is changing the ciphers. -/
  | handling (changes : Nat) (account : Account) (early : changes ≤ 1)
      (taken : fetched = changes + 1) (follows : client.Follows publicKey sent account)
      (leads : Account.Leads publicKey (Account.rest aesKey (changes + 1)) client.todo account)
      (busy : client.todo ≠ []) (empty : client.packets = []) (shut : client.Shut)
  /-- Its main thread has stopped, or is about to. -/
  | stopped (account : Account) (early : fetched ≤ 2)
      (follows : client.Follows publicKey sent account) (fits : account.Fits)
      (puts : account.puts ≤ fetched) (shut : client.Shut)
      (statements : ∀ statement ∈ client.todo, statement = .halt ∨ statement = .closeSocket)
      (stops : client.running = true → client.todo.head? = some .halt)
  | settled (late : 3 ≤ fetched) (sends : 2 ≤ sent) (done : client.Done aesKey)

section Steps

variable {java : Library} {publicKey aesKey : Bytes} {fetched sent : Nat} {client after : Client}

/-- What the threads know of each other stays while these fields do. -/
theorem Follows.of_same {account : Account} (follows : client.Follows publicKey sent account)
    (isEncryptionOn : after.isEncryptionOn = client.isEncryptionOn)
    (cipherModule : after.cipherModule = client.cipherModule)
    (pending : after.pending.Sublist client.pending)
    (sending : after.sending = client.sending) : after.Follows publicKey sent account := by
  have total := follows.total
  have shorter := pending.length_le
  refine ⟨isEncryptionOn.trans follows.isEncryptionOn,
    cipherModule.trans follows.cipherModule, by omega, follows.near, follows.drained, ?_, ?_⟩
  · intro started waits
    rw [sending]
    exact follows.started started waits
  · intro none_sent packet member
    exact follows.first none_sent packet (pending.subset member)

/-- What a statement leaves as it is. -/
structure Executed (statement : Statement) (client after : Client) : Prop where
  reader : after.reader = client.reader
  childMessages : after.childMessages = client.childMessages
  writer : after.writer = client.writer
  receiveNext : statement ≠ .receiveNext → after.receiveNext = client.receiveNext
  running : statement ≠ .halt → after.running = client.running
  halted : statement = .halt → after.running = false
  ciphers : plain statement → after.isEncryptionOn = client.isEncryptionOn ∧
    after.cipherModule = client.cipherModule
  instructions : winding statement → after.sendInstructions = client.sendInstructions ∧
    after.sending = client.sending

theorem execute_executed {statement : Statement}
    (ran : client.execute statement = some after) : Executed statement client after := by
  cases statement with
  | initializeSessionCiphers =>
      simp only [execute] at ran
      split at ran
      · split at ran
        · cases ran
          constructor <;> simp [plain, winding]
        · cases ran
      · cases ran
  | setSessionKey key | awaitSent =>
      simp only [execute] at ran
      split at ran
      · cases ran
      · cases ran
        constructor <;> simp [plain, winding]
  | crash => cases ran
  | _ =>
      cases ran
      constructor <;> simp [plain, winding]

/-- A statement of the handshake takes a client from where one account puts it to where the
next one does. -/
theorem execute_follows {statement : Statement} {account next : Account}
    (follows : client.Follows publicKey sent account) (step : account.after statement = some next)
    (answers : ∀ packet, statement = .put packet → account.puts = 0 →
      packet = { type := .PUBLIC_KEY, arg := publicKey })
    (ran : client.execute statement = some after) : after.Follows publicKey sent next := by
  obtain ⟨isEncryptionOn, cipherModule, total, near, drained, started, first⟩ := follows
  cases statement with
  | initializeClientCiphers | initializeServerCiphers | setEncryptionOn | setState state =>
      cases ran
      cases step
      exact ⟨by simp [isEncryptionOn], by simp [cipherModule], total, near, drained, started,
        first⟩
  | initializeSessionCiphers =>
      cases step
      simp only [execute] at ran
      split at ran
      · rename_i key known
        split at ran
        · cases ran
          rw [cipherModule] at known
          exact ⟨isEncryptionOn, by simp [cipherModule, known], total, near, drained, started,
        first⟩
        · cases ran
      · cases ran
  | setSessionKey key =>
      cases step
      simp only [execute] at ran
      split at ran
      · cases ran
      · cases ran
        exact ⟨isEncryptionOn, by simp [cipherModule], total, near, drained, started,
        first⟩
  | put packet =>
      cases ran
      simp only [Account.after] at step
      split at step
      · rename_i sentAll
        cases step
        have level := drained sentAll
        have longer : ({ client with
            sendInstructions := client.sendInstructions ++ [packet] } : Client).pending.length =
            client.pending.length + 1 := by
          simp [pending]
          omega
        refine ⟨isEncryptionOn, cipherModule, ?_, ?_, by simp, by simp, ?_⟩
        · rw [longer]
          dsimp only
          omega
        · dsimp only
          omega
        · intro none_sent other member
          have split : other ∈ client.pending ∨ other = packet := by
            simpa [pending, or_assoc] using member
          rcases split with earlier | rfl
          · exact first none_sent other earlier
          · exact answers other rfl (by omega)
      · cases step
  | startSending =>
      cases ran
      cases step
      exact ⟨isEncryptionOn, cipherModule, total, near, drained, fun _ _ => rfl, first⟩
  | awaitSent =>
      simp only [execute] at ran
      simp only [Account.after] at step
      split at ran
      · cases ran
      · rename_i still
        cases ran
        split at step
        · rename_i begun
          cases step
          refine ⟨isEncryptionOn, cipherModule, total, near, ?_, started, first⟩
          intro _
          dsimp only
          have all : ¬ sent < account.puts := fun waits => still (started begun waits)
          omega
        · cases step
  | sleep | receiveNext =>
      cases ran
      cases step
      exact ⟨isEncryptionOn, cipherModule, total, near, drained, started,
        first⟩
  | halt | closeSocket | crash => cases step

/-- What a main thread that changes the ciphers has put. -/
theorem bound_of_leads {changes : Nat} {account : Account} {todo : List Statement}
    (early : changes ≤ 1) (busy : todo ≠ [])
    (leads : Account.Leads publicKey (Account.rest aesKey (changes + 1)) todo account) :
    account.Fits ∧ account.puts ≤ changes + 1 := by
  cases todo with
  | nil => exact absurd rfl busy
  | cons statement rest =>
      obtain ⟨fits, bound, _⟩ := leads
      rw [Account.rest_puts aesKey (by omega)] at bound
      exact ⟨fits, bound⟩

theorem Shut.of_same (shut : client.Shut) (reader : after.reader = client.reader)
    (receiveNext : after.receiveNext = client.receiveNext) : after.Shut := by
  unfold Shut at shut ⊢
  rw [reader, receiveNext]
  exact shut

theorem Idle.of_same (idle : client.Idle) (reader : after.reader = client.reader) :
    after.Idle := by
  unfold Idle at idle ⊢
  rw [reader]
  exact idle

theorem Shut.idle (shut : client.Shut) : client.Idle := by
  unfold Shut at shut
  unfold Idle
  cases reader : client.reader <;> rw [reader] at shut <;> first | exact shut | trivial

theorem Shut.listens (shut : client.Shut) : client.Listens := by
  intro isEncryptionOn reading
  unfold Shut at shut
  rw [reading] at shut
  exact absurd shut id

theorem Executed.packets {statement : Statement} (executed : Executed statement client after) :
    after.packets = client.packets := by
  rw [Client.packets, Client.packets, executed.childMessages]

/-- A client that winds up and has a statement left does not run after it. -/
theorem Winds.halts {statement : Statement} {todo : List Statement} (winds : client.Winds)
    (next : client.todo = statement :: todo) (executed : Executed statement client after) :
    after.running = false := by
  by_cases halts : statement = .halt
  · exact executed.halted halts
  · rw [executed.running halts]
    by_contra runs
    rcases winds.stops (Bool.eq_true_of_not_eq_false runs) with nothing | first
    · rw [next] at nothing
      cases nothing
    · rw [next] at first
      cases first
      exact halts rfl

/-- A statement of a client that winds up. -/
theorem Winds.execute {statement : Statement} {todo : List Statement} (winds : client.Winds)
    (next : client.todo = statement :: todo) (executed : Executed statement client after) :
    ({ after with todo } : Client).Winds ∧
      ∀ account, client.Follows publicKey sent account →
        ({ after with todo } : Client).Follows publicKey sent account := by
  have kind : winding statement = true :=
    winds.statements statement (next ▸ List.mem_cons_self)
  have plain_kind : plain statement = true := by
    cases statement <;> first | rfl | cases kind
  obtain ⟨isEncryptionOn, cipherModule⟩ := executed.ciphers plain_kind
  obtain ⟨sendInstructions, sending⟩ := executed.instructions kind
  refine ⟨⟨?_, ?_⟩, ?_⟩
  · intro other member
    exact winds.statements other (next ▸ List.mem_cons_of_mem _ member)
  · intro running
    have halted : after.running = false := winds.halts next executed
    rw [halted] at running
    cases running
  · intro account follows
    refine follows.of_same isEncryptionOn cipherModule ?_ sending
    simp only [pending, executed.writer, sendInstructions]
    exact .refl _

/-- The main thread executes its next statement. -/
theorem Phase.execute {statement : Statement} {todo : List Statement}
    (phase : Phase publicKey aesKey fetched sent client)
    (next : client.todo = statement :: todo) (ran : client.execute statement = some after) :
    Phase publicKey aesKey fetched sent { after with todo } := by
  have executed := execute_executed ran
  have packets : ({ after with todo } : Client).packets = client.packets := executed.packets
  have reader : ({ after with todo } : Client).reader = client.reader := executed.reader
  cases phase with
  | resting changes early taken follows winds empty idle listens =>
      obtain ⟨winds', follows'⟩ := @Winds.execute _ sent _ _ _ _ winds next executed
      have settings := (follows' _ follows).isEncryptionOn.trans follows.isEncryptionOn.symm
      refine .resting changes early taken (follows' _ follows) winds' (packets.trans empty)
        (idle.of_same reader) ?_
      intro isEncryptionOn reading
      rw [settings]
      exact listens isEncryptionOn (reader.symm.trans reading)
  | behind changes early taken follows winds load =>
      obtain ⟨winds', follows'⟩ := @Winds.execute _ sent _ _ _ _ winds next executed
      refine .behind changes early taken (follows' _ follows) winds' ?_
      cases load with
      | arrived frame arrived empty =>
          exact .arrived frame (reader.trans arrived) (packets.trans empty)
      | received received empty => exact .received (reader.trans received) (packets.trans empty)
      | queued queue idle shut =>
          have halted : after.running = false := winds.halts next executed
          exact .queued (packets.trans queue) (idle.of_same reader) (.inr halted)
      | lost empty idle => exact .lost (packets.trans empty) (idle.of_same reader)
  | handling changes account early taken follows leads busy empty shut =>
      rw [next] at leads
      obtain ⟨fits, bound, last, first, account', step, leads'⟩ := leads
      have follows' : ({ after with todo } : Client).Follows publicKey sent account' :=
        (execute_follows follows step first ran).of_same rfl rfl (.refl _) rfl
      cases todo with
      | nil =>
          have final : account' = Account.rest aesKey (changes + 1) := leads'
          refine .resting (changes + 1) (by omega) taken (final ▸ follows') ⟨by simp, by simp⟩
            (packets.trans empty) (shut.idle.of_same reader) ?_
          intro isEncryptionOn reading
          exact absurd shut (by simp [Shut, reader.symm.trans reading])
      | cons second others =>
          have grants : statement ≠ .receiveNext := by
            intro granted
            cases last granted
          exact .handling changes account' early taken follows' leads' (by simp)
            (packets.trans empty) (shut.of_same reader (executed.receiveNext grants))
  | stopped account early follows fits puts shut statements stops =>
      have kind : statement = .halt ∨ statement = .closeSocket :=
        statements statement (next ▸ List.mem_cons_self)
      have winds : client.Winds := by
        refine ⟨?_, fun running => .inr (stops running)⟩
        intro other member
        rcases statements other member with rfl | rfl <;> rfl
      have grants : statement ≠ .receiveNext := by
        rcases kind with rfl | rfl <;> decide
      obtain ⟨winds', follows'⟩ := @Winds.execute _ sent _ _ _ _ winds next executed
      refine .stopped account early (follows' _ follows) fits puts
        (shut.of_same reader (executed.receiveNext grants)) ?_ ?_
      · intro other member
        exact statements other (next ▸ List.mem_cons_of_mem _ member)
      · intro running
        have halted : after.running = false := winds.halts next executed
        rw [halted] at running
        cases running
  | settled late sends done =>
      have kind : plain statement = true := done.todo statement (next ▸ List.mem_cons_self)
      obtain ⟨isEncryptionOn, cipherModule⟩ := executed.ciphers kind
      refine .settled late sends ⟨isEncryptionOn.trans done.isEncryptionOn,
        cipherModule.trans done.cipherModule, ?_, ?_, ?_, ?_, ?_⟩
      · intro other member
        exact done.todo other (next ▸ List.mem_cons_of_mem _ member)
      · rw [packets]
        exact done.packets
      · rw [reader]
        exact done.received
      · rw [reader]
        exact done.reading
      · rw [reader]
        exact done.arrived

/-- A turn for a packet that starts no change of cipher leaves the ciphers alone. -/
theorem turn_plain {message : Message} (java : Library)
    (benign : ∀ packet, message = .packet packet → Benign packet) :
    ∀ statement ∈ turn java message, plain statement := by
  cases message with
  | error => simp [turn, stop, goOn, plain]
  | packet packet =>
      cases packet with
      | none => simp [turn, plain]
      | some packet =>
          obtain ⟨fresh, other⟩ := benign _ rfl packet rfl
          intro statement member
          rw [turn, List.mem_append] at member
          rcases member with handled | behind
          · unfold handle at handled
            split at handled <;> simp_all [stop, plain]
            all_goals rcases handled with rfl | rfl <;> rfl
          · simp only [goOn, List.mem_cons, List.not_mem_nil, or_false] at behind
            rcases behind with rfl | rfl <;> rfl

section Packets

variable {childMessages : List Message} (todo : List Statement)

theorem packets_error (next : client.childMessages = .error :: childMessages) :
    ({ client with childMessages, todo } : Client).packets = client.packets := by
  simp [packets, next]

theorem packets_packet {packet : Option Packet}
    (next : client.childMessages = .packet packet :: childMessages) :
    client.packets = packet :: ({ client with childMessages, todo } : Client).packets := by
  simp [packets, next]

end Packets

/-- The main thread takes a message. -/
theorem Phase.takes {message : Message} {childMessages : List Message}
    (phase : Phase java.publicKey aesKey fetched sent client) (waits : client.todo = [])
    (running : client.running = true) (next : client.childMessages = message :: childMessages) :
    Phase java.publicKey aesKey fetched sent
      { client with childMessages, todo := turn java message } := by
  have winds : ({ client with childMessages, todo := turn java .error } : Client).Winds :=
    ⟨by simp [turn, stop, goOn, winding], fun _ => .inr rfl⟩
  cases phase with
  | resting changes early taken follows _ empty idle listens =>
      cases message with
      | packet packet =>
          rw [packets_packet [] next] at empty
          cases empty
      | error =>
          exact .resting changes early taken (follows.of_same rfl rfl (.refl _) rfl) winds
            ((packets_error _ next).trans empty) idle listens
  | behind changes early taken follows _ load =>
      cases message with
      | error =>
          have left : ({ client with childMessages, todo := turn java .error } : Client).packets =
              client.packets := packets_error _ next
          refine .behind changes early taken (follows.of_same rfl rfl (.refl _) rfl) winds ?_
          cases load with
          | arrived frame arrived empty => exact .arrived frame arrived (left.trans empty)
          | received received empty => exact .received received (left.trans empty)
          | queued queue idle shut => exact .queued (left.trans queue) idle shut
          | lost empty idle => exact .lost (left.trans empty) idle
      | packet packet =>
          have queue := packets_packet (turn java (.packet packet)) next
          cases load with
          | arrived frame arrived empty => cases queue.symm.trans empty
          | received received empty => cases queue.symm.trans empty
          | lost empty idle => cases queue.symm.trans empty
          | queued expected idle shut =>
              have shut' : client.Shut := by
                rcases shut with shut | still
                · exact shut
                · rw [running] at still
                  cases still
              obtain ⟨rfl, left⟩ := List.cons.inj (queue.symm.trans expected)
              have leads := Account.leads_turn java aesKey early
              refine .handling changes _ early taken (follows.of_same rfl rfl (.refl _) rfl)
                leads ?_ left shut'
              simp [turn, goOn]
  | handling changes account early taken follows leads busy empty shut => exact absurd waits busy
  | stopped account early follows fits puts shut statements stops =>
      have first := stops running
      rw [waits] at first
      cases first
  | settled late sends done =>
      refine .settled late sends ⟨done.isEncryptionOn, done.cipherModule, ?_, ?_, done.received,
        done.reading, done.arrived⟩
      · apply turn_plain java
        rintro packet rfl
        apply done.packets packet
        rw [packets_packet [] next]
        exact List.mem_cons_self
      · intro packet member
        apply done.packets packet
        cases message with
        | error => rwa [packets_error _ next] at member
        | packet first =>
            rw [packets_packet _ next]
            exact List.mem_cons_of_mem _ member

theorem main_phase (phase : Phase java.publicKey aesKey fetched sent client)
    (ran : client.main java = some after) :
    Phase java.publicKey aesKey fetched sent after := by
  cases todo : client.todo with
  | cons statement rest =>
      simp only [main, todo, Option.map_eq_some_iff] at ran
      obtain ⟨middle, executed, rfl⟩ := ran
      exact phase.execute todo executed
  | nil =>
      cases running : client.running with
      | false => simp [main, todo, running] at ran
      | true =>
          cases messages : client.childMessages with
          | nil => simp [main, todo, running, messages] at ran
          | cons message childMessages =>
              simp only [main, todo, running, messages, Option.some.injEq] at ran
              subst ran
              have taken := phase.takes todo running messages
              rw [running] at taken
              exact taken

/-- The main thread leaves what it was doing and stops. -/
theorem Phase.stop {interrupted : Bool}
    (phase : Phase publicKey aesKey fetched sent client) :
    Phase publicKey aesKey fetched sent { client with interrupted, todo := Java.stop } := by
  have winds : ({ client with interrupted, todo := Java.stop } : Client).Winds :=
    ⟨by simp [Java.stop, winding], fun _ => .inr rfl⟩
  cases phase with
  | resting changes early taken follows _ empty idle listens =>
      exact .resting changes early taken (follows.of_same rfl rfl (.refl _) rfl) winds empty
        idle listens
  | behind changes early taken follows _ load =>
      refine .behind changes early taken (follows.of_same rfl rfl (.refl _) rfl) winds ?_
      cases load with
      | arrived frame arrived empty => exact .arrived frame arrived empty
      | received received empty => exact .received received empty
      | queued queue idle shut => exact .queued queue idle shut
      | lost empty idle => exact .lost empty idle
  | handling changes account early taken follows leads busy empty shut =>
      have sound := bound_of_leads early busy leads
      refine .stopped account (by omega) (follows.of_same rfl rfl (.refl _) rfl) sound.1
        (by omega) shut ?_ fun _ => rfl
      simp [Java.stop]
  | stopped account early follows fits puts shut statements stops =>
      refine .stopped account early (follows.of_same rfl rfl (.refl _) rfl) fits puts shut ?_
        fun _ => rfl
      simp [Java.stop]
  | settled late sends done =>
      refine .settled late sends ⟨done.isEncryptionOn, done.cipherModule, ?_, done.packets,
        done.received, done.reading, done.arrived⟩
      simp [Java.stop, plain]

theorem mainThrows_phase (phase : Phase publicKey aesKey fetched sent client)
    (ran : client.mainThrows = some after) : Phase publicKey aesKey fetched sent after := by
  cases todo : client.todo with
  | nil => simp [mainThrows, todo] at ran
  | cons statement rest =>
      simp only [mainThrows, todo, Option.ite_none_right_eq_some, Option.some.injEq] at ran
      obtain ⟨_, rfl⟩ := ran
      exact phase.stop

theorem mainInterrupted_phase
    (phase : Phase publicKey aesKey fetched sent client)
    (ran : client.mainInterrupted = some after) : Phase publicKey aesKey fetched sent after := by
  simp only [mainInterrupted, Option.ite_none_right_eq_some, Option.some.injEq] at ran
  obtain ⟨_, rfl⟩ := ran
  exact phase.stop

/-- What the steps of the reader and of the writer have in common. -/
structure Beside (client after : Client) : Prop where
  isEncryptionOn : after.isEncryptionOn = client.isEncryptionOn
  cipherModule : after.cipherModule = client.cipherModule
  pending : after.pending.Sublist client.pending
  sending : after.sending = client.sending
  todo : after.todo = client.todo
  running : after.running = client.running
  packets : after.packets = client.packets

theorem Beside.winds (beside : Beside client after) (winds : client.Winds) : after.Winds := by
  constructor
  · rw [beside.todo]
    exact winds.statements
  · rw [beside.todo, beside.running]
    exact winds.stops

theorem Beside.follows {account : Account} (beside : Beside client after)
    (follows : client.Follows publicKey sent account) : after.Follows publicKey sent account :=
  follows.of_same beside.isEncryptionOn beside.cipherModule beside.pending beside.sending

/-- A step of the reader thread after which it has no frame. One that it had is lost. -/
theorem Phase.idles (phase : Phase publicKey aesKey fetched sent client)
    (beside : Beside client after) (idle : after.Idle) (listens : after.Listens)
    (shut : client.Shut → after.Shut) : Phase publicKey aesKey fetched sent after := by
  cases phase with
  | resting changes early taken follows winds empty _ _ =>
      exact .resting changes early taken (beside.follows follows) (beside.winds winds)
        (beside.packets.trans empty) idle listens
  | behind changes early taken follows winds load =>
      refine .behind changes early taken (beside.follows follows) (beside.winds winds) ?_
      cases load with
      | arrived frame arrived empty => exact .lost (beside.packets.trans empty) idle
      | received received empty => exact .lost (beside.packets.trans empty) idle
      | queued queue _ waits =>
          exact .queued (beside.packets.trans queue) idle (waits.imp shut beside.running.trans)
      | lost empty _ => exact .lost (beside.packets.trans empty) idle
  | handling changes account early taken follows leads busy empty waits =>
      exact .handling changes account early taken (beside.follows follows) (beside.todo ▸ leads)
        (beside.todo ▸ busy) (beside.packets.trans empty) (shut waits)
  | stopped account early follows fits puts waits statements stops =>
      refine .stopped account early (beside.follows follows) fits puts (shut waits)
        (beside.todo ▸ statements) ?_
      rw [beside.todo, beside.running]
      exact stops
  | settled late sends done =>
      refine .settled late sends ⟨beside.isEncryptionOn.trans done.isEncryptionOn,
        beside.cipherModule.trans done.cipherModule, beside.todo ▸ done.todo,
        beside.packets ▸ done.packets, ?_, ?_, ?_⟩
      · intro packet received
        exact absurd idle (by simp [Idle, received])
      · intro isEncryptionOn reading
        exact (listens isEncryptionOn reading).trans
          (beside.isEncryptionOn.trans done.isEncryptionOn)
      · intro isEncryptionOn frame arrived
        exact absurd idle (by simp [Idle, arrived])

theorem report_beside (client : Client) (reader : Reader) :
    Beside client { client.report with reader } :=
  ⟨rfl, rfl, .refl _, rfl, rfl, rfl, by simp [packets, report]⟩

theorem readerFails_phase (phase : Phase publicKey aesKey fetched sent client)
    (ran : client.readerFails = some after) : Phase publicKey aesKey fetched sent after := by
  have fails : after = { client.report with reader := .looping } := by
    unfold readerFails at ran
    split at ran <;> first | exact (Option.some.inj ran).symm | cases ran
  have placed : client.reader ≠ .put ∧ client.reader ≠ .ended := by
    constructor <;> intro reader <;> simp [readerFails, reader] at ran
  subst fails
  apply phase.idles (report_beside client .looping) trivial (by simp [Listens])
  intro shut
  unfold Shut at shut
  split at shut
  · rename_i reader
    exact absurd reader placed.1
  · rename_i reader
    exact absurd reader placed.2
  · exact shut
  · exact shut
  · cases shut

/-- The reader thread takes a step for which it needs no frame. -/
theorem read_phase (phase : Phase publicKey aesKey fetched sent client)
    (ran : client.read = some after) : Phase publicKey aesKey fetched sent after := by
  cases reader : client.reader with
  | reading isEncryptionOn | arrived isEncryptionOn frame | ended => simp [read, reader] at ran
  | looping =>
      simp only [read, reader, Option.some.injEq] at ran
      subst ran
      by_cases running : client.running = true
      · rw [if_pos running]
        refine phase.idles ⟨rfl, rfl, .refl _, rfl, rfl, rfl, rfl⟩ trivial
          (by simp [Listens]) ?_
        intro shut
        simp only [Shut, reader] at shut
        exact shut
      · rw [if_neg running]
        exact phase.idles ⟨rfl, rfl, .refl _, rfl, rfl, rfl, rfl⟩ trivial
          (by simp [Listens]) fun _ => trivial
  | await =>
      simp only [read, reader, Option.ite_none_right_eq_some, Option.some.injEq] at ran
      obtain ⟨granted, rfl⟩ := ran
      refine phase.idles ⟨rfl, rfl, .refl _, rfl, rfl, rfl, rfl⟩ trivial (by simp [Listens])
        ?_
      intro shut
      simp [Shut, reader, granted] at shut
  | called =>
      simp only [read, reader, Option.some.injEq] at ran
      subst ran
      refine phase.idles ⟨rfl, rfl, .refl _, rfl, rfl, rfl, rfl⟩ trivial ?_ ?_
      · intro isEncryptionOn reading
        exact (Reader.reading.inj reading).symm
      · intro shut
        simp [Shut, reader] at shut
  | put =>
      simp only [read, reader, Option.some.injEq] at ran
      subst ran
      exact phase.idles ⟨rfl, rfl, .refl _, rfl, rfl, rfl, rfl⟩ trivial (by simp [Listens])
        fun _ => rfl
  | received packet =>
      simp only [read, reader, Option.some.injEq] at ran
      subst ran
      have packets : ({ client with
          childMessages := client.childMessages ++ [.packet packet]
          reader := .put } : Client).packets = client.packets ++ [packet] := by
        simp [Client.packets]
      cases phase with
      | resting changes early taken follows winds empty idle listens =>
          exact absurd idle (by simp [Idle, reader])
      | behind changes early taken follows winds load =>
          refine .behind changes early taken (follows.of_same rfl rfl (.refl _) rfl)
            ⟨winds.statements, winds.stops⟩ ?_
          cases load with
          | arrived frame arrived empty => cases reader.symm.trans arrived
          | received received empty =>
              cases reader.symm.trans received
              refine .queued ?_ trivial (.inl trivial)
              rw [packets, empty, List.nil_append]
          | queued queue idle shut => exact absurd idle (by simp [Idle, reader])
          | lost empty idle => exact absurd idle (by simp [Idle, reader])
      | handling changes account early taken follows leads busy empty shut =>
          exact absurd shut (by simp [Shut, reader])
      | stopped account early follows fits puts shut statements stops =>
          exact absurd shut (by simp [Shut, reader])
      | settled late sends done =>
          refine .settled late sends ⟨done.isEncryptionOn, done.cipherModule, done.todo, ?_,
            by simp, by simp, by simp⟩
          intro other member
          rw [packets, List.mem_append] at member
          rcases member with earlier | last
          · exact done.packets other earlier
          · rw [List.mem_singleton.mp last]
            exact done.received packet reader

/-- A step of the writer thread that sends nothing. -/
theorem Phase.writes (phase : Phase publicKey aesKey fetched sent client)
    (beside : Beside client after) (reader : after.reader = client.reader)
    (receiveNext : after.receiveNext = client.receiveNext) :
    Phase publicKey aesKey fetched sent after := by
  cases phase with
  | resting changes early taken follows winds empty idle listens =>
      refine .resting changes early taken (beside.follows follows) (beside.winds winds)
        (beside.packets.trans empty) (idle.of_same reader) ?_
      intro isEncryptionOn reading
      rw [beside.isEncryptionOn]
      exact listens isEncryptionOn (reader.symm.trans reading)
  | behind changes early taken follows winds load =>
      refine .behind changes early taken (beside.follows follows) (beside.winds winds) ?_
      cases load with
      | arrived frame arrived empty =>
          exact .arrived frame (reader.trans arrived) (beside.packets.trans empty)
      | received received empty =>
          exact .received (reader.trans received) (beside.packets.trans empty)
      | queued queue idle shut =>
          exact .queued (beside.packets.trans queue) (idle.of_same reader)
            (shut.imp (fun shut => shut.of_same reader receiveNext) beside.running.trans)
      | lost empty idle => exact .lost (beside.packets.trans empty) (idle.of_same reader)
  | handling changes account early taken follows leads busy empty shut =>
      exact .handling changes account early taken (beside.follows follows) (beside.todo ▸ leads)
        (beside.todo ▸ busy) (beside.packets.trans empty) (shut.of_same reader receiveNext)
  | stopped account early follows fits puts shut statements stops =>
      refine .stopped account early (beside.follows follows) fits puts
        (shut.of_same reader receiveNext) (beside.todo ▸ statements) ?_
      rw [beside.todo, beside.running]
      exact stops
  | settled late sends done =>
      exact .settled late sends ⟨beside.isEncryptionOn.trans done.isEncryptionOn,
        beside.cipherModule.trans done.cipherModule, beside.todo ▸ done.todo,
        beside.packets ▸ done.packets, reader ▸ done.received, reader ▸ done.reading,
        reader ▸ done.arrived⟩

theorem take_phase (phase : Phase publicKey aesKey fetched sent client)
    (ran : client.take = some after) : Phase publicKey aesKey fetched sent after := by
  unfold take at ran
  split at ran
  · rename_i packet sendInstructions writer waiting
    simp only [Option.ite_none_right_eq_some, Option.some.injEq] at ran
    obtain ⟨_, rfl⟩ := ran
    refine phase.writes ⟨rfl, rfl, ?_, rfl, rfl, rfl, rfl⟩ rfl rfl
    simp [pending, writer, waiting]
  · cases ran

theorem writerFails_phase {caught : Bool}
    (phase : Phase publicKey aesKey fetched sent client)
    (ran : client.writerFails caught = some after) :
    Phase publicKey aesKey fetched sent after := by
  have packets : ({ client.report with writer := .looping } : Client).packets =
      client.packets := by simp [Client.packets, report]
  unfold writerFails at ran
  split at ran
  · cases ran
    exact phase.writes ⟨rfl, rfl, by simp [pending, report], rfl, rfl, rfl, packets⟩ rfl rfl
  · cases ran
    exact phase.writes ⟨rfl, rfl, by simp [pending, report], rfl, rfl, rfl, packets⟩ rfl rfl
  · cases ran
    exact phase.writes ⟨rfl, rfl, by simp [pending], rfl, rfl, rfl, rfl⟩ rfl rfl
  · cases ran
  · cases ran

/-- A client at rest after its second change of cipher is through. -/
theorem Winds.done (winds : client.Winds) (empty : client.packets = []) (idle : client.Idle)
    (listens : client.Listens) (follows : client.Follows publicKey sent (Account.rest aesKey 2)) :
    client.Done aesKey := by
  refine ⟨follows.isEncryptionOn, follows.cipherModule, ?_, by simp [empty], ?_, ?_, ?_⟩
  · intro statement member
    have kind := winds.statements statement member
    cases statement <;> first | rfl | cases kind
  · intro packet received
    exact absurd idle (by simp [Idle, received])
  · intro isEncryptionOn reading
    exact (listens isEncryptionOn reading).trans follows.isEncryptionOn
  · intro isEncryptionOn frame arrived
    exact absurd idle (by simp [Idle, arrived])

/-- At rest the writer thread has sent all that was put. -/
theorem Follows.rests {changes : Nat} (early : changes ≤ 2)
    (follows : client.Follows publicKey sent (Account.rest aesKey changes)) :
    sent = changes ∧ client.pending = [] := by
  have all := follows.drained (Account.rest_drained aesKey early)
  have total := follows.total
  rw [Account.rest_puts aesKey early] at all total
  exact ⟨all, List.eq_nil_of_length_eq_zero (by omega)⟩

theorem Done.fetch {frame : Bytes} (done : client.Done aesKey)
    (ran : client.fetch frame = some after) : after.Done aesKey := by
  cases reader : client.reader with
  | reading isEncryptionOn =>
      simp only [Client.fetch, reader] at ran
      split at ran
      · cases ran
      · split at ran
        · cases ran
          refine ⟨done.isEncryptionOn, done.cipherModule, done.todo, done.packets, by simp,
            by simp, ?_⟩
          intro other frame arrived
          cases arrived
          exact done.reading _ reader
        · cases ran
          have beside := report_beside client .looping
          exact ⟨done.isEncryptionOn, done.cipherModule, done.todo,
            beside.packets ▸ done.packets, by simp, by simp, by simp⟩
  | _ => simp [Client.fetch, reader] at ran

/-- A frame comes in. The server answers, so there is none for a client that is behind. -/
theorem fetch_phase {frame : Bytes}
    (phase : Phase publicKey aesKey fetched sent client)
    (answered : fetched ≤ 2 → fetched ≤ sent) (ran : client.fetch frame = some after) :
    Phase publicKey aesKey (fetched + 1) sent after := by
  cases phase with
  | settled late sends done => exact .settled (by omega) sends (done.fetch ran)
  | behind changes early taken follows winds load =>
      obtain ⟨level, _⟩ := follows.rests (by omega)
      have more := answered (by omega)
      omega
  | resting changes early taken follows winds empty idle listens =>
      obtain ⟨level, _⟩ := follows.rests early
      by_cases through : changes = 2
      · subst through
        exact .settled (by omega) (by omega) ((winds.done empty idle listens follows).fetch ran)
      · cases reader : client.reader with
        | reading isEncryptionOn =>
            have on := listens isEncryptionOn reader
            simp only [fetch, reader] at ran
            split at ran
            · cases ran
            · split at ran
              · cases ran
                refine .behind changes (by omega) (by omega)
                  (follows.of_same rfl rfl (.refl _) rfl) ⟨winds.statements, winds.stops⟩
                  (.arrived frame ?_ empty)
                rw [on, follows.isEncryptionOn]
              · cases ran
                have beside := report_beside client .looping
                exact .behind changes (by omega) (by omega) (beside.follows follows)
                  (beside.winds winds) (.lost (beside.packets.trans empty) trivial)
        | _ => simp [fetch, reader] at ran
  | handling changes account early taken follows leads busy empty shut =>
      unfold Shut at shut
      cases reader : client.reader <;> simp [fetch, reader] at ran
      simp [reader] at shut
  | stopped account early follows fits puts shut statements stops =>
      unfold Shut at shut
      cases reader : client.reader <;> simp [fetch, reader] at ran
      simp [reader] at shut

/-- The reader thread has deciphered a frame and found what the server put in. -/
theorem decipher_phase (phase : Phase publicKey aesKey fetched sent client)
    (heard : ∀ isEncryptionOn frame packet, client.reader = .arrived isEncryptionOn frame →
      LayerManager.receive java isEncryptionOn client.cipherModule frame = .ok packet →
      (fetched ≤ 2 → packet = some (Account.expected aesKey (fetched - 1))) ∧
        (3 ≤ fetched → Benign packet))
    (ran : client.decipher java = some after) :
    Phase publicKey aesKey fetched sent after := by
  cases reader : client.reader with
  | arrived isEncryptionOn frame =>
      simp only [decipher, reader] at ran
      cases outcome : LayerManager.receive java isEncryptionOn client.cipherModule frame with
      | error exception =>
          rw [outcome] at ran
          cases ran
          apply phase.idles (report_beside client .looping) trivial (by simp [Listens])
          intro shut
          simp [Shut, reader] at shut
      | ok packet =>
          rw [outcome] at ran
          cases ran
          obtain ⟨wanted, benign⟩ := heard _ _ _ reader outcome
          cases phase with
          | resting changes early taken follows winds empty idle listens =>
              exact absurd idle (by simp [Idle, reader])
          | behind changes early taken follows winds load =>
              refine .behind changes early taken (follows.of_same rfl rfl (.refl _) rfl)
                ⟨winds.statements, winds.stops⟩ ?_
              cases load with
              | arrived frame arrived empty =>
                  refine .received ?_ empty
                  rw [wanted (by omega), taken, Nat.add_sub_cancel]
              | received received empty => cases reader.symm.trans received
              | queued queue idle shut => exact absurd idle (by simp [Idle, reader])
              | lost empty idle => exact absurd idle (by simp [Idle, reader])
          | handling changes account early taken follows leads busy empty shut =>
              exact absurd shut (by simp [Shut, reader])
          | stopped account early follows fits puts shut statements stops =>
              exact absurd shut (by simp [Shut, reader])
          | settled late sends done =>
              refine .settled late sends ⟨done.isEncryptionOn, done.cipherModule, done.todo,
                done.packets, ?_, by simp, by simp⟩
              intro other received
              cases received
              exact benign late
  | _ => simp [decipher, reader] at ran

/-- The writer thread has sent the packet that it held. -/
theorem Follows.written {packet : Packet} {account : Account}
    (follows : client.Follows publicKey sent account) (writer : client.writer = .holding packet) :
    account.drained = false ∧ client.written.Follows publicKey (sent + 1) account := by
  have longer : client.pending.length = client.written.pending.length + 1 := by
    simp [pending, writer, Client.written]
  have total := follows.total
  have near := follows.near
  have unsent : account.drained = false := by
    by_contra drained
    have all := follows.drained (by simpa using drained)
    omega
  refine ⟨unsent, follows.isEncryptionOn, follows.cipherModule, by omega, by omega, ?_, ?_,
    by simp⟩
  · intro drained
    rw [unsent] at drained
    cases drained
  · intro _ waits
    omega

theorem written_phase {packet : Packet}
    (phase : Phase publicKey aesKey fetched sent client)
    (writer : client.writer = .holding packet) :
    Phase publicKey aesKey fetched (sent + 1) client.written := by
  cases phase with
  | resting changes early taken follows winds empty idle listens =>
      obtain ⟨_, nothing⟩ := follows.rests early
      simp [pending, writer] at nothing
  | behind changes early taken follows winds load =>
      obtain ⟨_, nothing⟩ := follows.rests (by omega)
      simp [pending, writer] at nothing
  | handling changes account early taken follows leads busy empty shut =>
      exact .handling changes account early taken (follows.written writer).2 leads busy empty shut
  | stopped account early follows fits puts shut statements stops =>
      exact .stopped account early (follows.written writer).2 fits puts shut statements stops
  | settled late sends done =>
      exact .settled late (by omega) ⟨done.isEncryptionOn, done.cipherModule, done.todo,
        done.packets, done.received, done.reading, done.arrived⟩

theorem encryptor_of_fits {account : Account} (fits : account.Fits)
    (unsent : account.drained = false) (Key : Type) :
    account.cipherModule.encryptor Key = some .serverPublic := by
  obtain ⟨_, ciphers, state | state⟩ := fits unsent
  · simp [CipherModule.encryptor, state, ciphers]
  · simp [CipherModule.encryptor, state, ciphers]

/-- A client sends no more frames than it has taken, until its ciphers are settled. -/
theorem Phase.sent_le (phase : Phase publicKey aesKey fetched sent client) (early : fetched ≤ 2) :
    sent ≤ fetched := by
  cases phase with
  | resting changes few taken follows winds empty idle listens =>
      have level := (follows.rests few).1
      omega
  | behind changes few taken follows winds load =>
      have level := (follows.rests (by omega)).1
      omega
  | handling changes account few taken follows leads busy empty shut =>
      have bound := (bound_of_leads few busy leads).2
      have total := follows.total
      omega
  | stopped account few follows fits puts shut statements stops =>
      have total := follows.total
      omega
  | settled late sends done => omega

/-- The cipher for the packet that the writer thread holds. The first packet is the public
key. -/
theorem Phase.sealing (phase : Phase publicKey aesKey fetched sent client) {packet : Packet}
    (writer : client.writer = .holding packet) :
    client.isEncryptionOn = true ∧
      (sent < 2 ∧ (∀ Key : Type, client.cipherModule.encryptor Key = some .serverPublic) ∧
          (sent = 0 → packet = { type := .PUBLIC_KEY, arg := publicKey }) ∨
        2 ≤ sent ∧ client.cipherModule = (Account.rest aesKey 2).cipherModule) := by
  have held : packet ∈ client.pending := by simp [pending, writer]
  have fitting : ∀ account, client.Follows publicKey sent account → account.Fits →
      account.puts ≤ 2 → client.isEncryptionOn = true ∧
        (sent < 2 ∧ (∀ Key : Type, client.cipherModule.encryptor Key = some .serverPublic) ∧
          (sent = 0 → packet = { type := .PUBLIC_KEY, arg := publicKey }) ∨
        2 ≤ sent ∧ client.cipherModule = (Account.rest aesKey 2).cipherModule) := by
    intro account follows fits bound
    have unsent := (follows.written writer).1
    have total := (follows.written writer).2.total
    refine ⟨follows.isEncryptionOn.trans (fits unsent).1, .inl ⟨by omega, ?_, ?_⟩⟩
    · intro Key
      rw [follows.cipherModule]
      exact encryptor_of_fits fits unsent Key
    · intro none_sent
      exact follows.first none_sent packet held
  cases phase with
  | resting changes few taken follows winds empty idle listens =>
      rw [(follows.rests few).2] at held
      cases held
  | behind changes few taken follows winds load =>
      rw [(follows.rests (by omega)).2] at held
      cases held
  | handling changes account few taken follows leads busy empty shut =>
      obtain ⟨fits, bound⟩ := bound_of_leads few busy leads
      exact fitting account follows fits (by omega)
  | stopped account few follows fits puts shut statements stops =>
      exact fitting account follows fits (by omega)
  | settled late sends done => exact ⟨done.isEncryptionOn, .inr ⟨sends, done.cipherModule⟩⟩

/-- The ciphers for the frame that has come in. -/
theorem Phase.opening (phase : Phase publicKey aesKey fetched sent client) {isEncryptionOn : Bool}
    {frame : Bytes} (reader : client.reader = .arrived isEncryptionOn frame) :
    ∃ changes, (changes ≤ 1 ∧ fetched = changes + 1 ∨ changes = 2 ∧ 3 ≤ fetched) ∧
      isEncryptionOn = (Account.rest aesKey changes).isEncryptionOn ∧
      client.cipherModule = (Account.rest aesKey changes).cipherModule := by
  cases phase with
  | resting changes few taken follows winds empty idle listens =>
      exact absurd idle (by simp [Idle, reader])
  | behind changes few taken follows winds load =>
      cases load with
      | arrived frame' arrived empty =>
          cases reader.symm.trans arrived
          exact ⟨changes, .inl ⟨few, taken⟩, rfl, follows.cipherModule⟩
      | received received empty => cases reader.symm.trans received
      | queued queue idle shut => exact absurd idle (by simp [Idle, reader])
      | lost empty idle => exact absurd idle (by simp [Idle, reader])
  | handling changes account few taken follows leads busy empty shut =>
      exact absurd shut (by simp [Shut, reader])
  | stopped account few follows fits puts shut statements stops =>
      exact absurd shut (by simp [Shut, reader])
  | settled late sends done =>
      exact ⟨2, .inr ⟨rfl, late⟩, done.arrived _ _ reader, done.cipherModule⟩

/-- The frame that the reader thread has came in before. -/
def HasCome (client after : Client) : Prop :=
  ∀ isEncryptionOn frame, after.reader = .arrived isEncryptionOn frame →
    client.reader = .arrived isEncryptionOn frame

theorem main_come (ran : client.main java = some after) : HasCome client after := by
  intro isEncryptionOn frame came
  unfold main at ran
  split at ran
  · obtain ⟨middle, executed, rfl⟩ := Option.map_eq_some_iff.mp ran
    rw [← (execute_executed executed).reader]
    exact came
  · split at ran
    · cases ran
      exact came
    · cases ran

theorem mainThrows_come (ran : client.mainThrows = some after) : HasCome client after := by
  intro isEncryptionOn frame came
  unfold mainThrows at ran
  split at ran
  · split at ran
    · cases ran
      exact came
    · cases ran
  · cases ran

theorem mainInterrupted_come (ran : client.mainInterrupted = some after) :
    HasCome client after := by
  intro isEncryptionOn frame came
  simp only [mainInterrupted, Option.ite_none_right_eq_some, Option.some.injEq] at ran
  obtain ⟨_, rfl⟩ := ran
  exact came

theorem read_come (ran : client.read = some after) : HasCome client after := by
  intro isEncryptionOn frame came
  unfold read at ran
  split at ran
  · cases ran
    dsimp only at came
    split at came <;> cases came
  · split at ran
    · cases ran
      cases came
    · cases ran
  all_goals cases ran
  all_goals cases came

theorem readerFails_come (ran : client.readerFails = some after) : HasCome client after := by
  intro isEncryptionOn frame came
  unfold readerFails at ran
  split at ran
  · cases ran
  · cases ran
  · cases ran
    cases came

theorem take_come (ran : client.take = some after) : HasCome client after := by
  intro isEncryptionOn frame came
  unfold take at ran
  split at ran
  · split at ran
    · cases ran
      exact came
    · cases ran
  · cases ran

theorem writerFails_come {caught : Bool} (ran : client.writerFails caught = some after) :
    HasCome client after := by
  intro isEncryptionOn frame came
  unfold writerFails at ran
  split at ran <;> first | (cases ran; exact came) | cases ran

end Steps

end Client

end Locus.Java
