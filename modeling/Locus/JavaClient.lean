import Locus.CipherModule

set_option autoImplicit false

/- The client's Client: its main loop, its reader thread and its writer thread. A thread
takes one step at a time, and each sees at once what the others wrote. -/
namespace Locus.Java

/-- `Message`; the packet may be null. -/
inductive Message where
  | packet (packet : Option Packet)
  | error
  deriving DecidableEq, Repr

/-- A statement of the main loop. -/
inductive Statement where
  | initializeClientCiphers
  | initializeServerCiphers
  | initializeSessionCiphers
  | setSessionKey (key : Bytes)
  | setEncryptionOn
  | setState (state : CipherModule.State)
  | put (packet : Packet)
  /-- `sending = true`. -/
  | startSending
  /-- `while (sending) sendingLock.wait()`. -/
  | awaitSent
  | sleep
  /-- `receiveNext = true`. -/
  | receiveNext
  /-- `running = false`. -/
  | halt
  | closeSocket
  /-- An exception that nothing catches. -/
  | crash
  deriving DecidableEq, Repr

/-- `stop()`. -/
def stop : List Statement := [.halt, .closeSocket]

/-- The statements behind the `switch`. -/
def goOn : List Statement := [.sleep, .receiveNext]

/-- What the `switch` does with a packet. `NEW_FOLLOWED` has no `break`. -/
def handle (java : Library) (packet : Packet) : List Statement :=
  match packet.type with
  | .OPEN | .OPEN_PROT | .LOCATION | .ACK_ERR | .ACK_OK => []
  | .ALIVE => [.put { type := .ACK_OK }]
  | .OPEN_ENCR =>
      [.initializeClientCiphers, .initializeServerCiphers, .setEncryptionOn,
        .setState .SERVER_PUBLIC, .put { type := .PUBLIC_KEY, arg := java.publicKey },
        .startSending, .awaitSent, .setState .CLIENT_PRIVATE_SERVER_PUBLIC]
  | .CLOSE => stop
  | .SYMMETRIC_KEY =>
      [.setSessionKey packet.arg, .put packet, .startSending, .awaitSent, .setState .SESSION,
        .initializeSessionCiphers]
  | .TEST_KEY => [.put { type := .TEST_KEY, arg := packet.arg }]
  | .SET_NAME | .ADD_FOLLOWER | .NEW_FOLLOWED | .REMOVE_FOLLOWED | .REMOVE_FOLLOWER
  | .MY_LOCATION => [.put packet]
  | .PUBLIC_KEY | .UNDEFINED => []

/-- One turn of the main loop, for the message it took. -/
def turn (java : Library) : Message → List Statement
  | .packet (some packet) => handle java packet ++ goOn
  | .packet none => [.crash]
  | .error => stop ++ goOn

/-- Where the reader thread stands. -/
inductive Reader where
  | looping
  /-- In front of `while (!receiveNext)`. -/
  | await
  | called
  /-- In `input.read`, of the messenger that `isEncryptionOn` chose. -/
  | reading (isEncryptionOn : Bool)
  /-- A frame has come in. -/
  | arrived (isEncryptionOn : Bool) (frame : Bytes)
  | received (packet : Option Packet)
  /-- The message is put, and `receiveNext = false` comes next. -/
  | put
  | ended
  deriving DecidableEq, Repr

/-- Where the writer thread stands. -/
inductive Writer where
  | looping
  /-- It took this packet, and waits for `sendingLock`. -/
  | holding (packet : Packet)
  | ended
  deriving DecidableEq, Repr

structure Client where
  cipherModule : CipherModule := {}
  isEncryptionOn : Bool := false
  childMessages : List Message := []
  sendInstructions : List Packet := []
  running : Bool := true
  sending : Bool := false
  receiveNext : Bool := true
  closed : Bool := false
  /-- What the main thread has left of its turn. -/
  todo : List Statement := []
  /-- The main thread was interrupted. -/
  interrupted : Bool := false
  reader : Reader := .looping
  writer : Writer := .looping

namespace Client

/-- The keys that AES takes. -/
def isKeyLength (length : Nat) : Bool := length = 16 || length = 24 || length = 32

/-- A statement that comes through. One that does not is waiting, or its thread is dead. -/
def execute (statement : Statement) (client : Client) : Option Client :=
  match statement with
  | .initializeClientCiphers =>
      some { client with cipherModule := { client.cipherModule with clientCiphers := true } }
  | .initializeServerCiphers =>
      some { client with cipherModule := { client.cipherModule with serverCiphers := true } }
  | .initializeSessionCiphers =>
      match client.cipherModule.sessionKey with
      | some key =>
          if isKeyLength key.length then
            some { client with
              cipherModule := { client.cipherModule with sessionCiphers := some key } }
          else none
      | none => none
  | .setSessionKey key =>
      if key = [] then none
      else some { client with cipherModule := { client.cipherModule with sessionKey := some key } }
  | .setEncryptionOn => some { client with isEncryptionOn := true }
  | .setState state =>
      some { client with cipherModule := { client.cipherModule with state := some state } }
  | .put packet => some { client with sendInstructions := client.sendInstructions ++ [packet] }
  | .startSending => some { client with sending := true }
  | .awaitSent => if client.sending then none else some client
  | .sleep => some client
  | .receiveNext => some { client with receiveNext := true }
  | .halt => some { client with running := false }
  | .closeSocket => some { client with closed := true }
  | .crash => none

/-- The main thread takes a message, or executes its next statement. -/
def main (java : Library) (client : Client) : Option Client :=
  match client.todo with
  | statement :: todo => (client.execute statement).map fun client => { client with todo }
  | [] =>
      match client.running, client.childMessages with
      | true, message :: childMessages =>
          some { client with childMessages, todo := turn java message }
      | _, _ => none

/-- A statement that may throw an exception that the main loop catches. -/
def mayThrow : Statement → Bool
  | .initializeClientCiphers | .initializeServerCiphers | .initializeSessionCiphers => true
  | _ => false

/-- A statement that an interrupt ends. -/
def mayWait : Statement → Bool
  | .put _ | .awaitSent | .sleep => true
  | _ => false

/-- The main loop catches an exception, and stops. -/
def mainThrows (client : Client) : Option Client :=
  match client.todo with
  | statement :: _ =>
      if mayThrow statement then some { client with todo := stop } else none
  | [] => none

/-- The main thread waits, or is about to, and finds that it was interrupted. -/
def mainInterrupted (client : Client) : Option Client :=
  if client.interrupted && (match client.todo with
    | statement :: _ => mayWait statement
    | [] => client.running) then
    some { client with interrupted := false, todo := stop }
  else none

/-- The steps of the reader thread that need no frame. -/
def read (client : Client) : Option Client :=
  match client.reader with
  | .looping => some { client with reader := if client.running then .await else .ended }
  | .await => if client.receiveNext then some { client with reader := .called } else none
  | .called => some { client with reader := .reading client.isEncryptionOn }
  | .received packet =>
      some { client with
        childMessages := client.childMessages ++ [.packet packet]
        reader := .put }
  | .put => some { client with receiveNext := false, reader := .looping }
  | .reading _ | .arrived _ _ | .ended => none

/-- What the reader and the writer do with an exception that they catch. -/
def report (client : Client) : Client :=
  { client with childMessages := client.childMessages ++ [.error], interrupted := true }

/-- An exception of the reader thread, which may be interrupted wherever it waits, and whose
socket may fail. -/
def readerFails (client : Client) : Option Client :=
  match client.reader with
  | .put | .ended => none
  | _ => some { client.report with reader := .looping }

/-- A frame comes in. One that is too long for the array is an exception. -/
def fetch (frame : Bytes) (client : Client) : Option Client :=
  match client.reader with
  | .reading isEncryptionOn =>
      if client.closed then none
      else if frame.length ≤ capacity then
        some { client with reader := .arrived isEncryptionOn frame }
      else some { client.report with reader := .looping }
  | _ => none

/-- `receive` goes on with the frame that came in. -/
def decipher (java : Library) (client : Client) : Option Client :=
  match client.reader with
  | .arrived isEncryptionOn frame =>
      match LayerManager.receive java isEncryptionOn client.cipherModule frame with
      | .ok packet => some { client with reader := .received packet }
      | .error _ => some { client.report with reader := .looping }
  | _ => none

/-- The cipher that `receive` applies to the frame that came in. -/
def opening (client : Client) : Option Opening :=
  match client.reader with
  | .arrived isEncryptionOn _ => LayerManager.opening isEncryptionOn client.cipherModule
  | _ => none

/-- The writer thread takes an instruction. -/
def take (client : Client) : Option Client :=
  match client.writer, client.sendInstructions with
  | .looping, packet :: sendInstructions =>
      if client.running then
        some { client with sendInstructions, writer := .holding packet }
      else none
  | _, _ => none

/-- The frame of the packet that the writer holds. -/
def sent (java : Library) (draw : Nat) (client : Client) : Except Exception Bytes :=
  match client.writer with
  | .holding packet =>
      LayerManager.send java client.isEncryptionOn client.cipherModule draw packet
  | _ => .error .checked

/-- The cipher that `send` applies to the packet that the writer holds. -/
def sealing (Key : Type) (client : Client) : Option (Seal Key) :=
  LayerManager.sealing Key client.isEncryptionOn client.cipherModule

/-- The block under `sendingLock`, which came through. -/
def written (client : Client) : Client :=
  { client with sending := false, writer := .looping }

/-- An exception of the writer thread: an interrupt, or a failure of the socket. One of the
messenger's that is not caught ends the thread. -/
def writerFails (caught : Bool) (client : Client) : Option Client :=
  match client.writer, caught with
  | .looping, true | .holding _, true => some { client.report with writer := .looping }
  | .holding _, false => some { client with writer := .ended }
  | .looping, false | .ended, _ => none

end Client

end Locus.Java
