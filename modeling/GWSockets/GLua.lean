import GWSockets.Step
import Mathlib.Data.List.AList
import Mathlib.Data.Finset.Basic
import Mathlib.Data.Finset.SDiff
import Mathlib.Data.Finset.Filter
import Mathlib.Data.Finset.Sort
import Mathlib.Logic.Function.Basic

namespace GWSockets

abbrev SocketId := Nat

inductive LuaValue where
  | nil
  | boolean (value : Bool)
  | number (text : Bytes)
  | string (bytes : Bytes)
  | function
  | socketTable (socket : SocketId)
  | globals
  | other
deriving DecidableEq, Repr

def LuaValue.isFunction : LuaValue → Bool
  | .function => true
  | _ => false

-- none is the NULL that GetString returns for every other type.
def LuaValue.getString : LuaValue → Option Bytes
  | .string bytes => some bytes
  | .number text => some text
  | _ => none

def cString (bytes : Bytes) : Bytes := bytes.takeWhile (· != 0)

inductive LuaCallback where
  | onError
  | onConnected
  | onMessage
  | onDisconnected
deriving DecidableEq, Repr

def GWSMessageInType.callback : GWSMessageInType → LuaCallback
  | .error => .onError
  | .connected => .onConnected
  | .message => .onMessage
  | .disconnected => .onDisconnected

structure Dispatch where
  table : SocketId
  callback : LuaCallback
  self : LuaValue
  argument : LuaValue
  called : Bool
deriving DecidableEq, Repr

inductive Crash where
  | nullStream
  | deletedSocket
deriving DecidableEq, Repr

inductive LuaMethod where
  | socketOpen (shouldClearQueue : Bool) (reference : Nat)
  | socketWrite (message : Bytes) (isBinary : Bool) (o : Outcome)
  | socketClose (o : Outcome)
  | socketCloseNow
  | socketClearQueue
  | socketSetCookie (key value : Bytes)
  | socketSetHeader (key value : Bytes)
  | socketSetMessageCompression (value : Bool)
  | socketSetDisableContextTakeover (value : Bool)
deriving DecidableEq, Repr

inductive LuaCall where
  | createWebSocket (kind : SocketClass) (host : Bytes) (port : Nat) (path : Bytes)
  | method (socket : SocketId) (m : LuaMethod)
  | socketGCFunction (socket : SocketId)
deriving DecidableEq, Repr

inductive ReferenceEvent where
  | created (reference : Nat)
  | freed (reference : Nat)
deriving DecidableEq, Repr

abbrev Entry := Σ _ : SocketId, Nat

structure GLua where
  sockets : SocketId → World := fun _ => .new .webSocket [] 0 []
  created : Nat := 0
  allSockets : Finset SocketId := ∅
  gcedSockets : Finset SocketId := ∅
  socketTableReferences : AList (fun _ : SocketId => Nat) := ∅
  registry : AList (fun _ : Nat => SocketId) := ∅
  references : List ReferenceEvent := []
  moduleOpen : Bool := true
  deleted : Multiset SocketId := 0
  dispatched : List Dispatch := []
  errors : List Bytes := []
  aborted : Bool := false
  crash : Option Crash := none

namespace GLua

def state (g : GLua) (i : SocketId) : SocketState := (g.sockets i).state

def act (g : GLua) (i : SocketId) (s : Step) : GLua :=
  if i ∈ g.allSockets then
    let w := (g.sockets i).step s
    { g with
      sockets := Function.update g.sockets i w
      crash := if w.fault then some .nullStream else g.crash }
  else { g with crash := some .deletedSocket }

def createWebSocket (g : GLua) (kind : SocketClass) (host : Bytes) (port : Nat) (path : Bytes) :
    GLua :=
  { g with
    sockets := Function.update g.sockets g.created (.new kind host port path)
    created := g.created + 1
    allSockets := insert g.created g.allSockets }

-- Lua picks any number that is not in use.
def referenceCreate (g : GLua) (choice : Nat) (table : SocketId) : Nat × GLua :=
  let n := if choice ∈ g.registry then g.registry.keys.foldr max 0 + 1 else choice
  (n, { g with registry := g.registry.insert n table, references := g.references ++ [.created n] })

def referenceFree (g : GLua) (reference : Nat) : GLua :=
  { g with
    registry := g.registry.erase reference
    references := g.references ++ [.freed reference] }

def keepReference (g : GLua) (i : SocketId) (choice : Nat) : GLua :=
  let (n, g) := g.referenceCreate choice i
  { g with socketTableReferences := g.socketTableReferences.insert i n }

def socketOpen (g : GLua) (i : SocketId) (shouldClearQueue : Bool) (reference : Nat) :
    Except Bytes GLua :=
  if g.state i ≠ .disconnected then
    .error (ascii "Cannot open socket that is already connected")
  else
    let g := if i ∈ g.socketTableReferences then g else g.keepReference i reference
    .ok (g.act i ⟨.openSocket shouldClearQueue, {}⟩)

def whileDisconnected (g : GLua) (i : SocketId) (error : String) (body : Except Bytes GLua) :
    Except Bytes GLua :=
  if g.state i ≠ .disconnected then .error (ascii error) else body

def socketSetCookie (g : GLua) (i : SocketId) (key value : Bytes) : Except Bytes GLua :=
  g.whileDisconnected i "Cannot set a cookie for an already connected websocket" <|
    if ((g.sockets i).setCookie (cString key) (cString value)).1 then
      .ok (g.act i ⟨.setCookie (cString key) (cString value), {}⟩)
    else .error (ascii "Invalid cookie name or value")

def socketSetHeader (g : GLua) (i : SocketId) (key value : Bytes) : Except Bytes GLua :=
  g.whileDisconnected i "Cannot set header for an already connected websocket" <|
    if ((g.sockets i).setHeader (cString key) (cString value)).1 then
      .ok (g.act i ⟨.setHeader (cString key) (cString value), {}⟩)
    else .error (ascii "Invalid header name or value")

def socketSetMessageCompression (g : GLua) (i : SocketId) (value : Bool) : Except Bytes GLua :=
  g.whileDisconnected i "Cannot set message compression for an already connected websocket" <|
    .ok (g.act i ⟨.setPerMessageDeflate value, {}⟩)

def socketSetDisableContextTakeover (g : GLua) (i : SocketId) (value : Bool) : Except Bytes GLua :=
  g.whileDisconnected i "Cannot set compression takeover for an already connected websocket" <|
    .ok (g.act i ⟨.setDisableContextTakeover value, {}⟩)

def collect (g : GLua) (i : SocketId) : GLua :=
  { g with
    socketTableReferences := g.socketTableReferences.erase i
    gcedSockets := insert i g.gcedSockets }

def socketGCFunction (g : GLua) (i : SocketId) : GLua :=
  if ¬ g.moduleOpen then g
  else (g.collect i).act i ⟨.closeNow (ascii "No reason specified"), {}⟩

def method (g : GLua) (i : SocketId) : LuaMethod → Except Bytes GLua
  | .socketOpen shouldClearQueue reference => g.socketOpen i shouldClearQueue reference
  | .socketWrite message isBinary o => .ok (g.act i ⟨.write message isBinary, o⟩)
  | .socketClose o => .ok (g.act i ⟨.close, o⟩)
  | .socketCloseNow => .ok (g.act i ⟨.closeNow (ascii "No reason specified"), {}⟩)
  | .socketClearQueue => .ok (g.act i ⟨.clearQueue, {}⟩)
  | .socketSetCookie key value => g.socketSetCookie i key value
  | .socketSetHeader key value => g.socketSetHeader i key value
  | .socketSetMessageCompression value => g.socketSetMessageCompression i value
  | .socketSetDisableContextTakeover value => g.socketSetDisableContextTakeover i value

-- Lua code holds no socket that has been collected, and the collector takes no table that the
-- registry still refers to.
def Callable (g : GLua) (i : SocketId) : Prop := i ∈ g.allSockets ∧ i ∉ g.gcedSockets

instance (g : GLua) (i : SocketId) : Decidable (g.Callable i) :=
  inferInstanceAs (Decidable (_ ∧ _))

def call (g : GLua) (c : LuaCall) : GLua :=
  if g.crash.isSome then g else
  match c with
  | .createWebSocket kind host port path => g.createWebSocket kind host port path
  | .method i m =>
    if g.Callable i then
      match g.method i m with
      | .ok g' => g'
      | .error _ => g
    else g
  | .socketGCFunction i =>
    if g.Callable i ∧ i ∉ g.socketTableReferences then g.socketGCFunction i else g

end GLua

def Action.handler : Action → Bool
  | .receive _ _ | .complete _ _ | .verify _ => true
  | _ => false

namespace GLua

-- A handler that runs after its socket was deleted reads the freed socket in guardGeneration.
def deliver (g : GLua) (h : SocketId × Step) : GLua :=
  if g.crash.isSome ∨ h.2.action.handler = false then g
  else if h.1 ∈ g.allSockets then g.act h.1 h.2
  else if ∃ c ∈ h.2.completion, c.1 ∈ (g.sockets h.1).pending then
    { g with crash := some .deletedSocket }
  else g

def poll (g : GLua) (handlers : List (SocketId × Step)) : GLua := handlers.foldl deliver g

def finished (g : GLua) : Finset SocketId :=
  g.gcedSockets.filter (fun i => g.state i = .disconnected)

def deleteCollected (g : GLua) : GLua :=
  { g with
    allSockets := g.allSockets \ g.finished
    gcedSockets := g.gcedSockets \ g.finished
    deleted := g.deleted + g.finished.val }

end GLua

structure Response where
  fields : SocketId → LuaCallback → LuaValue
  calls : List LuaCall := []
  error : Option LuaValue := none
  errorNoHalt : Bool := true

structure Tick where
  poll : List (SocketId × Step) := []
  order : List Entry := []
  respond : Nat → Response

-- The head of the list is the top of the Lua stack.
structure Think where
  lua : GLua
  stack : List LuaValue := []
  served : Nat := 0
  halted : Bool := false

namespace Think

def push (t : Think) (value : LuaValue) : Think := { t with stack := value :: t.stack }

def pop (t : Think) (n : Nat) : Think := { t with stack := t.stack.drop n }

def top (t : Think) : Nat := t.stack.length

def fromTop (t : Think) (k : Nat) : LuaValue := t.stack.getD (k - 1) .nil

def fromBottom (t : Think) (k : Nat) : LuaValue := t.stack.reverse.getD (k - 1) .nil

def running (t : Think) : Bool := !t.halted && t.lua.crash.isNone

def abort (t : Think) : Think := { t with halted := true, lua := { t.lua with aborted := true } }

def execute (t : Think) (calls : List LuaCall) : Think :=
  { t with lua := calls.foldl GLua.call t.lua }

def referencePush (t : Think) (reference : Nat) : Think :=
  t.push ((t.lua.registry.lookup reference).elim .nil .socketTable)

def report (t : Think) (str : Bytes) : Think :=
  { t with stack := t.stack.drop 3, lua := { t.lua with errors := t.lua.errors ++ [str] } }

def throwErrorNoHalt (t : Think) (r : Response) (str : Bytes) : Think :=
  let t := t.push .globals
  let t := t.push (if r.errorNoHalt then .function else .nil)
  if ¬ (t.fromTop 1).isFunction then t.pop 2
  else
    let t := t.push (.string str)
    let t := t.push (.string (ascii "\n"))
    (t.report str).pop 1

-- The calls of a response are those of the callback's body and of Lua's own error hooks.
def pcall (t : Think) (r : Response) (numArgs : Nat) : Think :=
  let t := (t.pop (numArgs + 1)).execute r.calls
  if t.lua.crash.isSome then t else
  match r.error with
  | none => t
  | some error =>
    let t := t.push error
    match (t.fromTop 1).getString with
    -- std::string cannot be made from NULL: the exception leaves webSocketThink.
    | none => t.abort
    | some err => (t.throwErrorNoHalt r (cString err)).pop 1

def note (t : Think) (d : Dispatch) : Think :=
  { t with lua := { t.lua with dispatched := t.lua.dispatched ++ [d] } }

def dispatch (t : Think) (r : Response) (tableIndex : Nat) (message : GWSocketMessageIn) : Think :=
  match t.fromTop 1 with
  | .socketTable i =>
    let t := t.push (r.fields i message.type.callback)
    let t := t.push (t.fromBottom tableIndex)
    let t := t.push (.string message.message)
    let called := (t.fromTop 3).isFunction
    let t := t.note ⟨i, message.type.callback, t.fromTop 2, t.fromTop 1, called⟩
    if called then t.pcall r 2 else t.pop 3
  -- Indexing any other value raises a Lua error.
  | _ => t.abort

def dispatchNext (respond : Nat → Response) (tableIndex : Nat) (t : Think)
    (message : GWSocketMessageIn) : Think :=
  if t.running then
    { t.dispatch (respond t.served) tableIndex message with served := t.served + 1 }
  else t

def visit (respond : Nat → Response) (t : Think) (entry : Entry) : Think :=
  if ¬ t.running then t else
  let socket := entry.1
  let tableReference := entry.2
  let messages := (t.lua.sockets socket).messageQueue.clear.1
  let t := { t with lua := t.lua.act socket ⟨.takeMessages, {}⟩ }
  if messages = [] ∧ t.lua.state socket ≠ .disconnected then t
  else
    let t := t.referencePush tableReference
    let tableIndex := t.top
    let t := messages.foldl (dispatchNext respond tableIndex) t
    if ¬ t.running then t else
    let t := t.pop 1
    if t.lua.state socket = .disconnected ∧ messages = [] then
      let g := t.lua.referenceFree tableReference
      { t with lua :=
          { g with socketTableReferences := g.socketTableReferences.erase socket } }
    else t

end Think

namespace GLua

-- The order in which the unordered map is copied is any order.
def entries (g : GLua) (t : Tick) : List Entry :=
  if t.order.Perm g.socketTableReferences.entries then t.order
  else g.socketTableReferences.entries

def reach (g : GLua) (t : Tick) (visited : List Entry) : Think :=
  visited.foldl (Think.visit t.respond) { lua := g }

def webSocketThink (g : GLua) (t : Tick) : GLua :=
  let g := g.poll t.poll
  if g.crash.isSome then g else
  let g := g.deleteCollected
  (g.reach t (g.entries t)).lua

end GLua

structure Shutdown where
  closing : List SocketId := []
  outcome : SocketId → Outcome := fun _ => {}
  handlers : List (SocketId × Step) := []
  deleting : List SocketId := []

namespace GLua

def closingOrder (g : GLua) (s : Shutdown) : List SocketId :=
  if s.closing.Perm g.socketTableReferences.keys then s.closing
  else g.socketTableReferences.keys

def deletingOrder (g : GLua) (s : Shutdown) : List SocketId :=
  if s.deleting.Perm g.allSockets.sort then s.deleting else g.allSockets.sort

def closeReferenced (s : Shutdown) (g : GLua) (i : SocketId) : GLua :=
  if g.crash.isSome then g else g.act i ⟨.close, s.outcome i⟩

def destroy (g : GLua) (i : SocketId) : GLua :=
  if g.crash.isSome then g else
  let g := g.act i ⟨.closeNow (ascii "No reason specified"), {}⟩
  { g with deleted := i ::ₘ g.deleted }

def clearSockets (g : GLua) : GLua :=
  { g with allSockets := ∅, socketTableReferences := ∅, gcedSockets := ∅ }

-- The handlers are those that run_for finds ready within its second.
def moduleClose (g : GLua) (s : Shutdown) : GLua :=
  let g := { g with moduleOpen := false }
  let g := (g.closingOrder s).foldl (closeReferenced s) g
  let g := g.poll s.handlers
  let g := (g.deletingOrder s).foldl destroy g
  if g.crash.isSome then g else g.clearSockets

end GLua

inductive GLuaStep where
  | call (c : LuaCall)
  | think (t : Tick)

namespace GLua

def step (g : GLua) (s : GLuaStep) : GLua :=
  if g.crash.isSome then g else
  match s with
  | .call c => g.call c
  | .think t => g.webSocketThink t

abbrev run (g : GLua) (ls : List GLuaStep) : GLua := Machine.run step g ls

end GLua
end GWSockets
