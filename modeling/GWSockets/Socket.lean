import GWSockets.Base
import GWSockets.BlockingQueue
import Mathlib.Algebra.Group.Nat.Defs

namespace GWSockets

def isTokenChar (c : UInt8) : Bool :=
  (0x30 ≤ c && c ≤ 0x39) || (0x41 ≤ c && c ≤ 0x5A) || (0x61 ≤ c && c ≤ 0x7A) ||
    (ascii "!#$%&'*+-.^_|~").contains c || c == 0x60

def isText (c : UInt8) : Bool := c == 0x09 || (0x20 ≤ c && c != 0x7F)

def isToken (str : Bytes) : Bool := !str.isEmpty && str.all isTokenChar

def isFieldValue (str : Bytes) : Bool := str.all isText

def isCookieValue (str : Bytes) : Bool :=
  str.all (fun c => 0x21 ≤ c && c ≤ 0x7E && c != 0x22 && c != 0x2C && c != 0x3B && c != 0x5C)

abbrev Fields := List (Bytes × Bytes)

def assign (m : Fields) (key value : Bytes) : Fields :=
  if m.any (fun p => p.1 == key) then m.map (fun p => if p.1 == key then (key, value) else p)
  else m ++ [(key, value)]

def cookieLoop : Bool → Fields → Bytes
  | _, [] => []
  | first, (key, value) :: rest =>
      (if first then [] else ascii "; ") ++ key ++ ascii "=" ++ value ++ cookieLoop false rest

def decorator (cookies headers : Fields) : Fields :=
  (if cookies.isEmpty then [] else [(ascii "Cookie", cookieLoop true cookies)]) ++ headers

inductive SocketClass where
  | webSocket
  | sslWebSocket (shouldVerifyCertificate : Bool)
deriving DecidableEq, Repr

structure Stream where
  id : Nat
  generation : Nat
  clientEnable : Bool
  clientNoContextTakeover : Bool
  verifyCallback : Bool
deriving DecidableEq, Repr

inductive OperationKind where
  | resolve (host service : Bytes)
  | connect
  | sslHandshake (host path : Bytes)
  | handshake (host path : Bytes) (fields : Fields)
  | read
  | write (message : Bytes) (binary : Bool)
  | close
deriving DecidableEq, Repr

structure Operation where
  kind : OperationKind
  generation : Nat
  stream : Option Stream
  received : Bytes := []
deriving DecidableEq, Repr

inductive Event where
  | opened (discarded : List (Bytes × Bool))
  | written (message : Bytes) (binary : Bool)
  | cleared (discarded : List (Bytes × Bool))
  | closed (discarded : List (Bytes × Bool))
  | put (message : GWSocketMessageIn)
  | started (op : Operation)
  | completed (op : Operation) (ec : ErrorCode)
  | verified (stream : Option Stream) (error : X509Error) (accepted : Bool)
deriving DecidableEq, Repr

abbrev Log := List (Nat × Event)

structure GWSocket where
  kind : SocketClass
  path : Bytes
  host : Bytes
  port : Nat
  state : SocketState := .disconnected
  perMessageDeflate : Bool := false
  disableContextTakeover : Bool := false
  writing : Bool := false
  messageToWrite : Bytes := []
  -- The unsigned int of the source is this count modulo 2 ^ 32.
  generation : Nat := 0
  cookies : Fields := []
  headers : Fields := []
  readBuffer : Bytes := []
  writeQueue : List GWSocketMessageOut := []
  messageQueue : BlockingQueue GWSocketMessageIn := {}
  ws : Option Stream := none
deriving DecidableEq, Repr

structure World extends GWSocket where
  pending : List Operation := []
  streams : Nat := 0
  fault : Bool := false
  log : Log := []
deriving DecidableEq, Repr

structure Outcome where
  weakFails : Bool := false
  sslParametersSet : Bool := true
  closeReason : Bytes := []
deriving DecidableEq, Repr

def outbound (queue : List GWSocketMessageOut) : List (Bytes × Bool) :=
  queue.filterMap (fun m => if m.type = .message then some (m.message, m.binary) else none)

namespace World

def emit (w : World) (e : Event) : World := { w with log := w.log ++ [(w.generation, e)] }

def put (w : World) (m : GWSocketMessageIn) : World :=
  let w := { w with messageQueue := w.messageQueue.put m }
  w.emit (.put m)

-- A null stream pointer is dereferenced here when ws is none.
def start (w : World) (kind : OperationKind) : World :=
  let op : Operation := { kind := kind, generation := w.generation, stream := w.ws }
  let w := { w with pending := op :: w.pending, fault := w.fault || w.ws.isNone }
  w.emit (.started op)

def guardGeneration (expected : Nat) (handler : World → World) (w : World) : World :=
  if w.generation % 2 ^ 32 = expected % 2 ^ 32 then handler w else w

def emplaceBack (w : World) (m : GWSocketMessageOut) : World :=
  { w with writeQueue := w.writeQueue ++ [m] }

def clearQueue (w : World) : World := { w with writeQueue := [] }

-- The operations that resolver.cancel() and closeSocket() abort stay outstanding: their handlers
-- are still delivered later.
def doClose (w : World) (disconnectReason : Bytes) : World :=
  let w := { w with generation := w.generation + 1 }
  let w := (w.emit (.closed (outbound w.writeQueue))).clearQueue
  let w := { w with state := .disconnected, writing := false }
  w.put ⟨.disconnected, disconnectReason⟩

def setDisconnectingCAS (w : World) : Bool × World :=
  if w.state = .disconnected ∨ w.state = .disconnecting then (false, w)
  else (true, { w with state := .disconnecting })

def closeNow (w : World) (disconnectReason : Bytes := ascii "No reason specified") :
    Bool × World :=
  match w.setDisconnectingCAS with
  | (false, w) => (false, w)
  | (true, w) => (true, w.doClose disconnectReason)

def errorConnection (w : World) (errorMessage : Bytes) : Bool × World :=
  match w.setDisconnectingCAS with
  | (false, w) => (false, w)
  | (true, w) => (true, (w.put ⟨.error, errorMessage⟩).doClose errorMessage)

def onDisconnected (w : World) (ec : ErrorCode) : World := w.doClose ec.message

def asyncRead (w : World) : World := w.start .read

def asyncWrite (w : World) (message : Bytes) (isBinary : Bool) : World :=
  let w := { w with messageToWrite := message }
  w.start (.write message isBinary)

def asyncCloseSocket (w : World) : World := w.start .close

def checkWriting (w : World) (o : Outcome) : World :=
  if (w.state = .connected ∨ w.state = .disconnectRequested) ∧ ¬ w.writing then
    match w.writeQueue with
    | [] => w
    | message :: rest =>
      let w := { w with writing := true, writeQueue := rest }
      match message.type with
      | .message => w.asyncWrite message.message message.binary
      | .disconnect =>
        if w.state = .disconnectRequested ∧ ¬ o.weakFails then
          let w := { w with state := .disconnecting }
          w.asyncCloseSocket
        else (w.closeNow).2
  else w

def close (w : World) (o : Outcome) : Bool × World :=
  if w.state = .disconnected ∨ w.state = .disconnecting ∨ w.state = .disconnectRequested then
    (false, w)
  else
    let expected := w.state
    let w := { w with state := .disconnectRequested }
    let w := w.emplaceBack { type := .disconnect }
    (true, if expected ≠ .connecting then w.checkWriting o else w)

def write (w : World) (message : Bytes) (binary : Bool) (o : Outcome) : World :=
  let w := w.emplaceBack { type := .message, message := message, binary := binary }
  (w.emit (.written message binary)).checkWriting o

def onWrite (w : World) (ec : ErrorCode) (o : Outcome) : World :=
  if ¬ ec.failed then
    let w := { w with writing := false }
    w.checkWriting o
  else if isConnectionClosedError ec then
    (w.closeNow (ascii "Connection closed by remote host")).2
  else (w.errorConnection ec.message).2

def getCloseReason (w : World) (o : Outcome) : Bytes :=
  match w.ws with
  | some _ => o.closeReason
  | none => []

def onRead (w : World) (ec : ErrorCode) (o : Outcome) : World :=
  if ¬ ec.failed then
    let w := w.put ⟨.message, w.readBuffer⟩
    let w := { w with readBuffer := [] }
    w.asyncRead
  else if isConnectionClosedError ec then
    let closeReason := w.getCloseReason o
    (w.closeNow (if closeReason.isEmpty then ascii "No reason specified" else closeReason)).2
  else (w.errorConnection ec.message).2

def handshakeCompleted (w : World) (ec : ErrorCode) (o : Outcome) : World :=
  if ¬ ec.failed then
    if w.state = .connecting then
      let w := { w with state := .connected }
      let w := w.put ⟨.connected, ascii "Connected"⟩
      w.asyncRead.checkWriting o
    else (w.closeNow).2
  else (w.errorConnection (ascii "Connection failed: " ++ ec.message)).2

def resetWS (w : World) : World :=
  { w with
    ws := some ⟨w.streams, w.generation, w.perMessageDeflate, w.disableContextTakeover, false⟩
    streams := w.streams + 1 }

def setVerifyCallback (w : World) : World :=
  { w with ws := w.ws.map (fun stream => { stream with verifyCallback := true }) }

def asyncConnect (w : World) (o : Outcome) : World :=
  let w := w.resetWS
  match w.kind with
  | .webSocket => w.start .connect
  | .sslWebSocket shouldVerifyCertificate =>
    let w := if shouldVerifyCertificate then w.setVerifyCallback else w
    if ¬ o.sslParametersSet then (w.errorConnection (ascii "Error setting SSL parameters")).2
    else w.start .connect

def asyncHandshake (w : World) (host path : Bytes) : World :=
  match w.kind with
  | .webSocket => w.start (.handshake host path (decorator w.cookies w.headers))
  | .sslWebSocket _ => w.start (.sslHandshake host path)

def sslHandshakeComplete (w : World) (ec : ErrorCode) (host path : Bytes) (o : Outcome) : World :=
  if ¬ ec.failed then w.start (.handshake host path (decorator w.cookies w.headers))
  else w.handshakeCompleted ec o

def hostWithPort (w : World) : Bytes :=
  if w.port ≠ 80 then w.host ++ ascii ":" ++ decimal w.port else w.host

def socketConnected (w : World) (ec : ErrorCode) : World :=
  if ¬ ec.failed then w.asyncHandshake w.hostWithPort w.path
  else (w.errorConnection (ascii "Connection failed: " ++ ec.message)).2

def hostResolvedStep (w : World) (ec : ErrorCode) (o : Outcome) : World :=
  if ¬ ec.failed then w.asyncConnect o
  else (w.errorConnection (ascii "[Resolver] " ++ ec.message)).2

def asyncResolve (w : World) : World :=
  let op : Operation :=
    { kind := .resolve w.host (decimal w.port), generation := w.generation, stream := none }
  let w := { w with pending := op :: w.pending }
  w.emit (.started op)

def openSocket (w : World) (shouldClearQueue : Bool) : World :=
  if w.state = .disconnected then
    let discarded := if shouldClearQueue then outbound w.writeQueue else []
    let w := { w with state := .connecting }
    let w := if shouldClearQueue then w.clearQueue else w
    let w := { w with generation := w.generation + 1 }
    (w.emit (.opened discarded)).asyncResolve
  else w

def verifyCertificate (w : World) (error : X509Error) : Bool × World :=
  match error.report with
  | none => (true, w)
  | some message => (false, (w.errorConnection message).2)

def setCookie (w : World) (key value : Bytes) : Bool × World :=
  if !isToken key || !isCookieValue value then (false, w)
  else if w.state ≠ .disconnected then (false, w)
  else (true, { w with cookies := assign w.cookies key value })

def setHeader (w : World) (key value : Bytes) : Bool × World :=
  if !isToken key || !isFieldValue value then (false, w)
  else if w.state ≠ .disconnected then (false, w)
  else (true, { w with headers := assign w.headers key value })

def setPerMessageDeflate (w : World) (value : Bool) : World := { w with perMessageDeflate := value }

def setDisableContextTakeover (w : World) (value : Bool) : World :=
  { w with disableContextTakeover := value }

end World
end GWSockets
