import Locus.Service

set_option autoImplicit false

/- What the handlers of a session do not notice: the frames that they do not read, and what the
session has done before. -/
namespace Locus

open Program

theorem catching_commutes {σ : Type} {map : σ → σ} {body handler : EStateM Fault σ Unit}
    (commutes : Commutes map body) (handles : Commutes map handler) :
    Commutes map (catching body handler) := by
  intro state
  rw [catching, catching, commutes state]
  cases body state with
  | ok value after => rfl
  | error fault after =>
      cases fault with
      | exception what => exact handles after
      | undefinedBehaviour | nonTermination => rfl

namespace Service

open ProtocolClient
open ClientDataManager (Op Reply)

variable {Key : Type}

/-- A session after some more acts, with other frames to read. -/
def shifted (earlier : List Act) (frames : List Bytes → List Bytes) (s : Session Key) :
    Session Key :=
  { s with inbound := frames s.inbound, acts := earlier ++ s.acts }

section Shifted

variable {earlier : List Act} {frames : List Bytes → List Bytes} {α : Type}

theorem goesOn_onState {map : Session Key → Session Key}
    {result : EStateM.Result Fault (Session Key) α} :
    Server.GoesOn (onState map result) ↔ Server.GoesOn result := by
  cases result with
  | ok value after => exact .rfl
  | error fault after => cases fault <;> exact .rfl

theorem act_commutes (entry : Act) :
    Commutes (shifted earlier frames) (act entry : SessionM Key Unit) := by
  refine .modify fun s => ?_
  simp only [shifted, List.append_assoc]

theorem edit_commutes (change : ProtocolClient Key → ProtocolClient Key) :
    Commutes (shifted earlier frames) (edit change) := .modify fun _ => rfl

theorem crypto_commutes (call : CryptoM Key α) :
    Commutes (shifted earlier frames) (crypto call) := .zoom (fun _ => rfl) fun _ _ => rfl

theorem setStage_commutes (stage : Stage) :
    Commutes (shifted earlier frames) (setStage stage : SessionM Key Unit) :=
  .bind (edit_commutes _) fun _ => act_commutes _

theorem manager_commutes (op : Op) :
    Commutes (shifted earlier frames) (manager op : SessionM Key Reply) := by
  intro s
  simp only [manager, shifted]
  cases ClientDataManager.run op s.database <;> simp only [onState, shifted, List.append_assoc]

theorem sendPacket_commutes (lib : CryptoLibrary Key) (packet : Packet) :
    Commutes (shifted earlier frames) (sendPacket lib packet) := by
  refine .bind (.ofExcept _) fun popped => .bind (crypto_commutes _) fun frame => ?_
  exact .get_bind (fun _ => rfl) fun _ => act_commutes _

theorem sendRemainingData_commutes (lib : CryptoLibrary Key) :
    Commutes (shifted earlier frames) (sendRemainingData lib) := by
  refine .get_bind (fun _ => rfl) fun s => ?_
  cases s.client.remainingPackets with
  | nil => exact .pure ()
  | cons packet rest => exact .bind (sendPacket_commutes lib packet) fun _ => edit_commutes _

theorem update_commutes (lib : CryptoLibrary Key) (turn : Turn) :
    Commutes (shifted earlier frames) (update lib turn) := by
  refine .get_bind (fun _ => rfl) fun s => ?_
  split
  · refine .get_bind (fun _ => rfl) fun _ => .bind (manager_commutes _) fun names => ?_
    refine .bind (edit_commutes _) fun _ => .get_bind (fun _ => rfl) fun _ => ?_
    refine .bind (manager_commutes _) fun positions => .bind (edit_commutes _) fun _ => ?_
    exact sendRemainingData_commutes lib
  · exact sendRemainingData_commutes lib

end Shifted

section Resumed

variable {earlier : List Act}

/-- A session that has done something before. -/
def resumed (earlier : List Act) : Session Key → Session Key := shifted earlier fun frames => frames

theorem takeFrame_commutes :
    Commutes (resumed earlier) (takeFrame : SessionM Key Bytes) := by
  intro s
  rw [takeFrame_run, takeFrame_run]
  simp only [onState, resumed, shifted, taken, List.append_assoc]

theorem recvPacket_commutes (lib : CryptoLibrary Key) :
    Commutes (resumed earlier) (recvPacket lib) := by
  refine .bind (.bind takeFrame_commutes fun bytes => crypto_commutes _) fun bytes => ?_
  exact .bind (.ofExcept _) fun packet => .bind (act_commutes _) fun _ => .pure packet

theorem setPublicKey_commutes (lib : CryptoLibrary Key) :
    Commutes (resumed earlier) (setPublicKey lib) := by
  refine catching_commutes (.bind (crypto_commutes _) fun _ => ?_) (act_commutes _)
  refine .bind (recvPacket_commutes lib) fun packet => ?_
  split
  · refine .bind (.ofExcept _) fun popped => .bind (crypto_commutes _) fun _ => ?_
    refine .bind (act_commutes _) fun _ => .bind (crypto_commutes _) fun _ => ?_
    refine .bind (crypto_commutes _) fun symmetricKey => ?_
    exact .bind (sendPacket_commutes lib _) fun _ => setStage_commutes _
  · exact act_commutes _

theorem setSymmetricKey_commutes (lib : CryptoLibrary Key) :
    Commutes (resumed earlier) (setSymmetricKey lib) := by
  refine catching_commutes (.bind (crypto_commutes _) fun _ => ?_) (act_commutes _)
  refine .bind (recvPacket_commutes lib) fun packet => ?_
  split
  · refine .bind (crypto_commutes _) fun symmetricKey => .bind (.ofExcept _) fun returned => ?_
    dsimp only
    split
    · exact act_commutes _
    · refine .bind (crypto_commutes _) fun _ => ?_
      exact .bind (sendPacket_commutes lib _) fun _ => setStage_commutes _
  · exact act_commutes _

theorem selfRegister_commutes (lib : CryptoLibrary Key) :
    Commutes (resumed earlier) (selfRegister lib) := by
  refine .bind (crypto_commutes _) fun key => .get_bind (fun _ => rfl) fun s => ?_
  exact .bind (manager_commutes _) fun reply => edit_commutes _

theorem testKey_commutes (lib : CryptoLibrary Key) :
    Commutes (resumed earlier) (testKey lib) := by
  refine catching_commutes (.bind (crypto_commutes _) fun _ => ?_) (act_commutes _)
  refine .bind (recvPacket_commutes lib) fun packet => ?_
  split
  · refine .bind (sendPacket_commutes lib _) fun _ => .bind (setStage_commutes _) fun _ => ?_
    exact selfRegister_commutes lib
  · exact act_commutes _

theorem setName_commutes (lib : CryptoLibrary Key) (packet : Packet) :
    Commutes (resumed earlier) (setName lib packet) := by
  refine .bind (.ofExcept _) fun popped => .get_bind (fun _ => rfl) fun s => ?_
  refine .bind (manager_commutes _) fun res => ?_
  split <;> exact sendPacket_commutes lib _

theorem callNamed_commutes (call : Int16 → Int16 → Op) (packet : Packet) :
    Commutes (resumed earlier) (callNamed call packet : SessionM Key Unit) := by
  refine .bind (.ofExcept _) fun popped => .bind (manager_commutes _) fun found => ?_
  dsimp only
  split
  · refine .get_bind (fun _ => rfl) fun s => .bind (manager_commutes _) fun _ => .pure ()
  · exact .pure ()

theorem myLocation_commutes (turn : Turn) (packet : Packet) :
    Commutes (resumed earlier) (myLocation turn packet : SessionM Key Unit) := by
  unfold myLocation
  split
  · exact act_commutes _
  · refine .bind (.ofExcept _) fun latitude => .bind (.ofExcept _) fun longitude => ?_
    refine .bind (.ofExcept _) fun deltaTime => .get_bind (fun _ => rfl) fun s => ?_
    exact .bind (manager_commutes _) fun _ => .pure ()

theorem stableCommunication_commutes (lib : CryptoLibrary Key) (turn : Turn) :
    Commutes (resumed earlier) (stableCommunication lib turn) := by
  refine catching_commutes (.bind (recvPacket_commutes lib) fun packet => ?_) (act_commutes _)
  cases packet.type with
  | CLOSE => exact act_commutes _
  | SET_NAME => exact setName_commutes lib packet
  | ADD_FOLLOWER | REMOVE_FOLLOWER | REMOVE_FOLLOWED => exact callNamed_commutes _ packet
  | MY_LOCATION => exact myLocation_commutes turn packet
  | _ => exact .pure ()

/-- What a session does with a message does not depend on what it has done before. -/
theorem recv_commutes (lib : CryptoLibrary Key) (turn : Turn) :
    Commutes (resumed earlier) (recv lib turn) := by
  unfold recv
  cases turn.message with
  | Close => exact act_commutes _
  | PacketSend => exact sendRemainingData_commutes lib
  | Update => exact update_commutes lib turn
  | PacketReceive =>
      refine .get_bind (fun _ => rfl) fun s => ?_
      cases s.client.stage with
      | SetPublicKey => exact setPublicKey_commutes lib
      | SetSymmetricKey => exact setSymmetricKey_commutes lib
      | TestKey =>
          exact .bind (testKey_commutes lib) fun _ => stableCommunication_commutes lib turn
      | StableCommunication => exact stableCommunication_commutes lib turn
      | Exit => exact .pure ()
  | _ => exact .pure ()

end Resumed

end Service

end Locus
