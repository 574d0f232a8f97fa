import GWSockets.Library.Machine
import GWSockets.Socket

namespace GWSockets

inductive Action where
  | openSocket (shouldClearQueue : Bool)
  | write (message : Bytes) (binary : Bool)
  | clearQueue
  | close
  | closeNow (disconnectReason : Bytes)
  | setCookie (key value : Bytes)
  | setHeader (key value : Bytes)
  | setPerMessageDeflate (value : Bool)
  | setDisableContextTakeover (value : Bool)
  | takeMessages
  | receive (op : Operation) (bytes : Bytes)
  | complete (op : Operation) (ec : ErrorCode)
  | verify (error : X509Error)
deriving DecidableEq, Repr

structure Step where
  action : Action
  outcome : Outcome := {}
deriving DecidableEq, Repr

def Step.completion : Step → Option (Operation × ErrorCode)
  | ⟨.complete op ec, _⟩ => some (op, ec)
  | _ => none

namespace World

def new (kind : SocketClass) (host : Bytes) (port : Nat) (path : Bytes) : World :=
  { kind := kind, host := host, port := port, path := path }

def invoke (w : World) (op : Operation) (ec : ErrorCode) (o : Outcome) : World :=
  match op.kind with
  | .resolve _ _ => w.hostResolvedStep ec o
  | .connect => w.socketConnected ec
  | .sslHandshake host path => w.sslHandshakeComplete ec host path o
  | .handshake _ _ _ => w.handshakeCompleted ec o
  | .read => w.onRead ec o
  | .write _ _ => w.onWrite ec o
  | .close => w.onDisconnected ec

def finish (w : World) (op : Operation) (ec : ErrorCode) : World :=
  let w := { w with pending := w.pending.erase op }
  w.emit (.completed op ec)

def complete (w : World) (op : Operation) (ec : ErrorCode) (o : Outcome) : World :=
  if op ∈ w.pending then
    guardGeneration op.generation (fun w => w.invoke op ec o) (w.finish op ec)
  else w

-- A read appends what arrives to readBuffer, as long as its stream has not been deleted.
def receive (w : World) (op : Operation) (bytes : Bytes) : World :=
  if op ∈ w.pending ∧ op.kind = .read ∧ op.stream.isSome ∧ op.stream = w.ws then
    { w with
      pending := { op with received := op.received ++ bytes } :: w.pending.erase op
      readBuffer := w.readBuffer ++ bytes }
  else w

def verify (w : World) (error : X509Error) : World :=
  match w.ws with
  | some stream =>
    if stream.verifyCallback then
      let w := w.emit (.verified (some stream) error (w.verifyCertificate error).1)
      (w.verifyCertificate error).2
    else w
  | none => w

def step (w : World) (s : Step) : World :=
  if w.fault then w else
  match s.action with
  | .openSocket shouldClearQueue => w.openSocket shouldClearQueue
  | .write message binary => w.write message binary s.outcome
  | .clearQueue => (w.emit (.cleared (outbound w.writeQueue))).clearQueue
  | .close => (w.close s.outcome).2
  | .closeNow disconnectReason => (w.closeNow disconnectReason).2
  | .setCookie key value => (w.setCookie key value).2
  | .setHeader key value => (w.setHeader key value).2
  | .setPerMessageDeflate value => w.setPerMessageDeflate value
  | .setDisableContextTakeover value => w.setDisableContextTakeover value
  | .takeMessages => { w with messageQueue := w.messageQueue.clear.2 }
  | .receive op bytes => w.receive op bytes
  | .complete op ec => w.complete op ec s.outcome
  | .verify error => w.verify error

abbrev run (w : World) (ls : List Step) : World := Machine.run step w ls

theorem run_cons (w : World) (s : Step) (ls : List Step) : w.run (s :: ls) = (w.step s).run ls :=
  rfl

def plainStream (id generation : Nat) : Stream := ⟨id, generation, false, false, false⟩

def plainConnect (id generation : Nat) : List Step :=
  [.resolve [] (decimal 80), .connect, .handshake [] [] []].map fun kind =>
    let stream := if kind = .resolve [] (decimal 80) then none
      else some (plainStream id generation)
    ⟨.complete ⟨kind, generation, stream, []⟩ ⟨.success, []⟩, {}⟩

section fields

variable (w : World) (e : Event) (m : GWSocketMessageIn) (kind : OperationKind) (reason : Bytes)
  (op : Operation) (ec : ErrorCode) (n : GWSocketMessageOut)

@[simp] theorem emit_toGWSocket : (w.emit e).toGWSocket = w.toGWSocket := rfl
@[simp] theorem emit_pending : (w.emit e).pending = w.pending := rfl
@[simp] theorem emit_fault : (w.emit e).fault = w.fault := rfl
@[simp] theorem emit_log : (w.emit e).log = w.log ++ [(w.generation, e)] := rfl

@[simp] theorem put_toGWSocket : (w.put m).toGWSocket =
    { w.toGWSocket with messageQueue := w.messageQueue.put m } := rfl
@[simp] theorem put_pending : (w.put m).pending = w.pending := rfl
@[simp] theorem put_fault : (w.put m).fault = w.fault := rfl
@[simp] theorem put_log : (w.put m).log = w.log ++ [(w.generation, .put m)] := rfl

@[simp] theorem start_toGWSocket : (w.start kind).toGWSocket = w.toGWSocket := rfl
@[simp] theorem start_pending : (w.start kind).pending =
    { kind := kind, generation := w.generation, stream := w.ws } :: w.pending := rfl
@[simp] theorem start_log : (w.start kind).log = w.log ++ [(w.generation,
    .started { kind := kind, generation := w.generation, stream := w.ws })] := rfl

@[simp] theorem finish_toGWSocket : (w.finish op ec).toGWSocket = w.toGWSocket := rfl
@[simp] theorem finish_pending : (w.finish op ec).pending = w.pending.erase op := rfl
@[simp] theorem finish_log : (w.finish op ec).log =
    w.log ++ [(w.generation, .completed op ec)] := rfl

@[simp] theorem emplaceBack_writeQueue :
    (w.emplaceBack n).writeQueue = w.writeQueue ++ [n] := rfl

@[simp] theorem doClose_toGWSocket : (w.doClose reason).toGWSocket =
    { w.toGWSocket with
      generation := w.generation + 1
      writeQueue := []
      state := .disconnected
      writing := false
      messageQueue := w.messageQueue.put ⟨.disconnected, reason⟩ } := rfl
@[simp] theorem doClose_pending : (w.doClose reason).pending = w.pending := rfl
@[simp] theorem doClose_fault : (w.doClose reason).fault = w.fault := rfl
@[simp] theorem doClose_log : (w.doClose reason).log = w.log ++
    [(w.generation + 1, .closed (outbound w.writeQueue)),
      (w.generation + 1, .put ⟨.disconnected, reason⟩)] := by
  simp [doClose, put, emit, clearQueue]

end fields

end World
end GWSockets
