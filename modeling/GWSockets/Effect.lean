import GWSockets.Step

namespace GWSockets

def OperationKind.connecting : OperationKind → Bool
  | .resolve _ _ | .connect | .sslHandshake _ _ | .handshake _ _ _ => true
  | _ => false

def OperationKind.isHandshake : OperationKind → Bool
  | .handshake _ _ _ => true
  | _ => false

def OperationKind.isWrite : OperationKind → Bool
  | .write _ _ => true
  | _ => false

def SocketState.closable : SocketState → Bool
  | .disconnected | .disconnecting => false
  | _ => true

namespace World

def freshStream (w : World) : Stream :=
  ⟨w.streams, w.generation, w.perMessageDeflate, w.disableContextTakeover,
    w.kind == .sslWebSocket true⟩

def renew (w : World) : World := { w with ws := some w.freshStream, streams := w.streams + 1 }

def request (w : World) : World :=
  { w with state := .disconnectRequested }.emplaceBack { type := .disconnect }

def enqueue (w : World) (message : Bytes) (binary : Bool) : World :=
  (w.emplaceBack { type := .message, message := message, binary := binary }).emit
    (.written message binary)

def establish (w : World) : World :=
  ({ w with state := .connected }.put ⟨.connected, ascii "Connected"⟩).asyncRead

def deliver (w : World) : World :=
  { w.put ⟨.message, w.readBuffer⟩ with readBuffer := [] }.asyncRead

def release (w : World) : World := { w with writing := false }

def forget (w : World) : World := (w.emit (.cleared (outbound w.writeQueue))).clearQueue

def extend (w : World) (op : Operation) (bytes : Bytes) : World :=
  { w with
    pending := { op with received := op.received ++ bytes } :: w.pending.erase op
    readBuffer := w.readBuffer ++ bytes }

def live (w : World) (op : Operation) : Prop := w.generation % 2 ^ 32 = op.generation % 2 ^ 32

instance (w : World) (op : Operation) : Decidable (w.live op) := inferInstanceAs (Decidable (_ = _))

@[simp] theorem renew_toGWSocket (w : World) :
    w.renew.toGWSocket = { w.toGWSocket with ws := some w.freshStream } := rfl
@[simp] theorem renew_pending (w : World) : w.renew.pending = w.pending := rfl
@[simp] theorem renew_log (w : World) : w.renew.log = w.log := rfl

@[simp] theorem request_toGWSocket (w : World) : w.request.toGWSocket =
    { w.toGWSocket with
      state := .disconnectRequested
      writeQueue := w.writeQueue ++ [{ type := .disconnect }] } := rfl
@[simp] theorem request_pending (w : World) : w.request.pending = w.pending := rfl
@[simp] theorem request_log (w : World) : w.request.log = w.log := rfl

@[simp] theorem enqueue_toGWSocket (w : World) (message : Bytes) (binary : Bool) :
    (w.enqueue message binary).toGWSocket =
    { w.toGWSocket with writeQueue :=
        w.writeQueue ++ [{ type := .message, message := message, binary := binary }] } := rfl
@[simp] theorem enqueue_pending (w : World) (message : Bytes) (binary : Bool) :
    (w.enqueue message binary).pending = w.pending := rfl
@[simp] theorem enqueue_log (w : World) (message : Bytes) (binary : Bool) :
    (w.enqueue message binary).log = w.log ++ [(w.generation, .written message binary)] := rfl

@[simp] theorem establish_toGWSocket (w : World) : w.establish.toGWSocket =
    { w.toGWSocket with
      state := .connected
      messageQueue := w.messageQueue.put ⟨.connected, ascii "Connected"⟩ } := rfl
@[simp] theorem establish_pending (w : World) : w.establish.pending =
    ⟨.read, w.generation, w.ws, []⟩ :: w.pending := rfl
@[simp] theorem establish_log (w : World) : w.establish.log = w.log ++
    [(w.generation, .put ⟨.connected, ascii "Connected"⟩),
      (w.generation, .started ⟨.read, w.generation, w.ws, []⟩)] := by
  simp [establish, asyncRead]

@[simp] theorem deliver_toGWSocket (w : World) : w.deliver.toGWSocket =
    { w.toGWSocket with
      messageQueue := w.messageQueue.put ⟨.message, w.readBuffer⟩
      readBuffer := [] } := rfl
@[simp] theorem deliver_pending (w : World) : w.deliver.pending =
    ⟨.read, w.generation, w.ws, []⟩ :: w.pending := rfl
@[simp] theorem deliver_log (w : World) : w.deliver.log = w.log ++
    [(w.generation, .put ⟨.message, w.readBuffer⟩),
      (w.generation, .started ⟨.read, w.generation, w.ws, []⟩)] := by
  simp [deliver, asyncRead]

@[simp] theorem release_toGWSocket (w : World) :
    w.release.toGWSocket = { w.toGWSocket with writing := false } := rfl
@[simp] theorem release_pending (w : World) : w.release.pending = w.pending := rfl
@[simp] theorem release_log (w : World) : w.release.log = w.log := rfl

@[simp] theorem forget_toGWSocket (w : World) :
    w.forget.toGWSocket = { w.toGWSocket with writeQueue := [] } := rfl
@[simp] theorem forget_pending (w : World) : w.forget.pending = w.pending := rfl
@[simp] theorem forget_log (w : World) :
    w.forget.log = w.log ++ [(w.generation, .cleared (outbound w.writeQueue))] := rfl

section openSocket

variable {w : World} (clear : Bool) (h : w.state = .disconnected)
include h

theorem openSocket_toGWSocket : (w.openSocket clear).toGWSocket =
    { w.toGWSocket with
      state := .connecting
      generation := w.generation + 1
      writeQueue := if clear then [] else w.writeQueue } := by
  cases clear <;> simp [openSocket, h, asyncResolve, emit, clearQueue]

theorem openSocket_pending : (w.openSocket clear).pending =
    ⟨.resolve w.host (decimal w.port), w.generation + 1, none, []⟩ :: w.pending := by
  cases clear <;> simp [openSocket, h, asyncResolve, emit, clearQueue]

theorem openSocket_log : (w.openSocket clear).log = w.log ++
    [(w.generation + 1, .opened (if clear then outbound w.writeQueue else [])),
      (w.generation + 1,
        .started ⟨.resolve w.host (decimal w.port), w.generation + 1, none, []⟩)] := by
  cases clear <;> simp [openSocket, h, asyncResolve, emit, clearQueue]

theorem openSocket_generation : (w.openSocket clear).generation = w.generation + 1 := by
  rw [openSocket_toGWSocket clear h]

theorem openSocket_state : (w.openSocket clear).state = .connecting := by
  rw [openSocket_toGWSocket clear h]

theorem openSocket_writeQueue :
    (w.openSocket clear).writeQueue = if clear then [] else w.writeQueue := by
  rw [openSocket_toGWSocket clear h]

end openSocket

theorem closeNow_snd (w : World) (reason : Bytes) :
    (w.closeNow reason).2 = if w.state.closable then w.doClose reason else w := by
  cases hs : w.state <;> simp [closeNow, setDisconnectingCAS, SocketState.closable, hs] <;> rfl

theorem errorConnection_snd (w : World) (message : Bytes) :
    (w.errorConnection message).2 =
      if w.state.closable then (w.put ⟨.error, message⟩).doClose message else w := by
  cases hs : w.state <;>
    simp [errorConnection, setDisconnectingCAS, SocketState.closable, hs] <;> rfl

inductive Checked (w : World) (o : Outcome) : World → Prop where
  | idle (h : ¬ ((w.state = .connected ∨ w.state = .disconnectRequested) ∧ w.writing = false ∧
      w.writeQueue ≠ [])) : Checked w o w
  | next (m : GWSocketMessageOut) (rest : List GWSocketMessageOut)
      (hstate : w.state = .connected ∨ w.state = .disconnectRequested)
      (hwriting : w.writing = false) (hqueue : w.writeQueue = m :: rest)
      (htype : m.type = .message) :
      Checked w o ({ w with writing := true, writeQueue := rest }.asyncWrite m.message m.binary)
  | marker (m : GWSocketMessageOut) (rest : List GWSocketMessageOut)
      (hstate : w.state = .disconnectRequested) (hwriting : w.writing = false)
      (hqueue : w.writeQueue = m :: rest) (htype : m.type = .disconnect)
      (hweak : o.weakFails = false) :
      Checked w o { w with
        writing := true, writeQueue := rest, state := .disconnecting }.asyncCloseSocket
  | abandoned (m : GWSocketMessageOut) (rest : List GWSocketMessageOut)
      (hstate : w.state = .connected ∨ w.state = .disconnectRequested)
      (hwriting : w.writing = false) (hqueue : w.writeQueue = m :: rest)
      (htype : m.type = .disconnect) (hcas : w.state = .connected ∨ o.weakFails = true) :
      Checked w o ({ w with writing := true, writeQueue := rest }.doClose
        (ascii "No reason specified"))

theorem checkWriting_checked (w : World) (o : Outcome) : Checked w o (w.checkWriting o) := by
  unfold checkWriting
  by_cases hg : (w.state = .connected ∨ w.state = .disconnectRequested) ∧ ¬ w.writing = true
  · rw [if_pos hg]
    have hw : w.writing = false := by simpa using hg.2
    cases hq : w.writeQueue with
    | nil => exact .idle (by simp [hq])
    | cons m rest =>
      cases ht : m.type with
      | message => simpa [ht] using Checked.next m rest hg.1 hw hq ht
      | disconnect =>
        by_cases hc : w.state = .disconnectRequested ∧ o.weakFails = false
        · simpa [ht, hc.1, hc.2] using Checked.marker m rest hc.1 hw hq ht hc.2
        · have hcas : w.state = .connected ∨ o.weakFails = true := by
            rcases hg.1 with h | h
            · exact .inl h
            · exact .inr (by simpa [h] using hc)
          have hopen : w.state.closable = true := by
            rcases hg.1 with h | h <;> simp [h, SocketState.closable]
          simpa [ht, hc, closeNow_snd, hopen] using
            Checked.abandoned m rest hg.1 hw hq ht hcas
  · rw [if_neg hg]
    exact .idle (fun h => hg ⟨h.1, by simp [h.2.1]⟩)

theorem checkWriting_blocked {w : World} (hc : w.state ≠ .connected)
    (hr : w.state ≠ .disconnectRequested) (o : Outcome) : w.checkWriting o = w := by
  simp [checkWriting, hc, hr]

theorem asyncConnect_eq (w : World) (o : Outcome) :
    w.asyncConnect o = w.renew.start .connect ∨ o.sslParametersSet = false ∧
      w.asyncConnect o = (w.renew.errorConnection (ascii "Error setting SSL parameters")).2 := by
  unfold asyncConnect
  cases hk : w.kind with
  | webSocket =>
    left
    have hv : (SocketClass.webSocket == .sslWebSocket true) = false := rfl
    simp [resetWS, renew, freshStream, hk, hv]
  | sslWebSocket verify =>
    have hr : (if verify then w.resetWS.setVerifyCallback else w.resetWS) = w.renew := by
      cases verify <;> simp [resetWS, setVerifyCallback, renew, freshStream, hk]
    have hw : w.resetWS.kind = .sslWebSocket verify := hk
    simp only [hw, hr]
    by_cases ho : o.sslParametersSet = true
    · left
      simp [ho]
    · right
      simp [ho]

def Settled (w : World) (op : Operation) (ec : ErrorCode) (w₁ : World) : Prop :=
  w₁ = w.finish op ec ∨
    (∃ host service, op.kind = .resolve host service) ∧ w₁ = (w.finish op ec).renew

inductive Effect (w : World) : Step → World → Prop where
  | idle (s : Step) : Effect w s w
  | configured (s : Step) (cookies headers : Fields) (deflate takeover : Bool) :
      Effect w s { w with
        cookies := cookies, headers := headers
        perMessageDeflate := deflate, disableContextTakeover := takeover }
  | opened (clear : Bool) (o : Outcome) (hstate : w.state = .disconnected) :
      Effect w ⟨.openSocket clear, o⟩ (w.openSocket clear)
  | written (message : Bytes) (binary : Bool) (o : Outcome) :
      Effect w ⟨.write message binary, o⟩ ((w.enqueue message binary).checkWriting o)
  | cleared (o : Outcome) : Effect w ⟨.clearQueue, o⟩ w.forget
  | requested (o : Outcome) (hstate : w.state = .connecting) : Effect w ⟨.close, o⟩ w.request
  | requestedConnected (o : Outcome) (hstate : w.state = .connected) :
      Effect w ⟨.close, o⟩ (w.request.checkWriting o)
  | closedNow (reason : Bytes) (o : Outcome) (hstate : w.state.closable) :
      Effect w ⟨.closeNow reason, o⟩ (w.doClose reason)
  | taken (o : Outcome) :
      Effect w ⟨.takeMessages, o⟩ { w with messageQueue := w.messageQueue.clear.2 }
  | received (op : Operation) (bytes : Bytes) (o : Outcome) (hmem : op ∈ w.pending)
      (hkind : op.kind = .read) (hsome : op.stream.isSome) (hstream : op.stream = w.ws) :
      Effect w ⟨.receive op bytes, o⟩ (w.extend op bytes)
  | verified (error : X509Error) (o : Outcome) (accepted : Bool)
      (hnone : error = .ok ∨ w.state.closable = false) :
      Effect w ⟨.verify error, o⟩ (w.emit (.verified w.ws error accepted))
  | rejected (error : X509Error) (o : Outcome) (message : Bytes) (hok : error ≠ .ok)
      (hstate : w.state.closable) :
      Effect w ⟨.verify error, o⟩
        (((w.emit (.verified w.ws error false)).put ⟨.error, message⟩).doClose message)
  | stale (op : Operation) (ec : ErrorCode) (o : Outcome) (hmem : op ∈ w.pending)
      (hlive : ¬ w.live op) : Effect w ⟨.complete op ec, o⟩ (w.finish op ec)
  | dropped (op : Operation) (ec : ErrorCode) (o : Outcome) (w₁ : World) (hmem : op ∈ w.pending)
      (hlive : w.live op) (hkind : op.kind ≠ .close)
      (hcause : ec.failed = true ∨ op.kind.connecting = true) (hstate : w.state.closable = false)
      (hw : w.Settled op ec w₁) : Effect w ⟨.complete op ec, o⟩ w₁
  | shut (op : Operation) (ec : ErrorCode) (o : Outcome) (reason : Bytes) (hmem : op ∈ w.pending)
      (hlive : w.live op)
      (hcause : ec.failed = true ∨ op.kind.isHandshake = true ∨ op.kind = .close)
      (hstate : op.kind = .close ∨ w.state.closable) :
      Effect w ⟨.complete op ec, o⟩ ((w.finish op ec).doClose reason)
  | failed (op : Operation) (ec : ErrorCode) (o : Outcome) (w₁ : World) (message : Bytes)
      (hmem : op ∈ w.pending) (hlive : w.live op) (hkind : op.kind ≠ .close)
      (hcause : ec.failed = true ∨ op.kind.connecting = true) (hstate : w.state.closable)
      (hw : w.Settled op ec w₁) :
      Effect w ⟨.complete op ec, o⟩ ((w₁.put ⟨.error, message⟩).doClose message)
  | advanced (op : Operation) (ec : ErrorCode) (o : Outcome) (w₁ : World) (kind : OperationKind)
      (hmem : op ∈ w.pending) (hlive : w.live op) (hec : ec.failed = false)
      (hop : op.kind.connecting = true) (hlast : op.kind.isHandshake = false)
      (hkind : kind.connecting = true)
      (hw : w₁ = (w.finish op ec).renew ∨
        (∀ host service, op.kind ≠ .resolve host service) ∧ w₁ = w.finish op ec) :
      Effect w ⟨.complete op ec, o⟩ (w₁.start kind)
  | connected (op : Operation) (ec : ErrorCode) (o : Outcome) (hmem : op ∈ w.pending)
      (hlive : w.live op) (hec : ec.failed = false) (hkind : op.kind.isHandshake = true)
      (hstate : w.state = .connecting) :
      Effect w ⟨.complete op ec, o⟩ ((w.finish op ec).establish.checkWriting o)
  | message (op : Operation) (ec : ErrorCode) (o : Outcome) (hmem : op ∈ w.pending)
      (hlive : w.live op) (hec : ec.failed = false) (hkind : op.kind = .read) :
      Effect w ⟨.complete op ec, o⟩ (w.finish op ec).deliver
  | drained (op : Operation) (ec : ErrorCode) (o : Outcome) (hmem : op ∈ w.pending)
      (hlive : w.live op) (hec : ec.failed = false) (hkind : op.kind.isWrite = true) :
      Effect w ⟨.complete op ec, o⟩ ((w.finish op ec).release.checkWriting o)

theorem Settled.state {w w₁ : World} {op : Operation} {ec : ErrorCode} (h : w.Settled op ec w₁) :
    w₁.state = w.state := by
  rcases h with rfl | ⟨-, rfl⟩ <;> rfl

section complete

variable {w w₁ : World} {op : Operation} {ec : ErrorCode} {o : Outcome}

theorem error_effect (message : Bytes) (hmem : op ∈ w.pending) (hlive : w.live op)
    (hkind : op.kind ≠ .close) (hcause : ec.failed = true ∨ op.kind.connecting = true)
    (hw : w.Settled op ec w₁) :
    Effect w ⟨.complete op ec, o⟩ (w₁.errorConnection message).2 := by
  rw [errorConnection_snd, hw.state]
  cases hs : w.state.closable with
  | true => exact .failed op ec o w₁ message hmem hlive hkind hcause hs hw
  | false => exact .dropped op ec o w₁ hmem hlive hkind hcause hs hw

theorem close_effect (reason : Bytes) (hmem : op ∈ w.pending) (hlive : w.live op)
    (hkind : op.kind ≠ .close) (hcause : ec.failed = true ∨ op.kind.isHandshake = true) :
    Effect w ⟨.complete op ec, o⟩ ((w.finish op ec).closeNow reason).2 := by
  rw [closeNow_snd, finish_toGWSocket]
  cases hs : w.state.closable with
  | true => exact .shut op ec o reason hmem hlive (hcause.imp id .inl) (.inr hs)
  | false =>
    refine .dropped op ec o _ hmem hlive hkind (hcause.imp id ?_) hs (.inl rfl)
    intro hh
    cases hk : op.kind <;> simp_all [OperationKind.isHandshake, OperationKind.connecting]

theorem resolve_effect {host service : Bytes} (hmem : op ∈ w.pending) (hlive : w.live op)
    (hkind : op.kind = .resolve host service) :
    Effect w ⟨.complete op ec, o⟩ ((w.finish op ec).hostResolvedStep ec o) := by
  have hne : op.kind ≠ .close := by simp [hkind]
  have hc : op.kind.connecting = true := by simp [hkind, OperationKind.connecting]
  unfold hostResolvedStep
  cases hec : ec.failed with
  | true =>
    simpa [hec] using error_effect _ hmem hlive hne (.inl hec) (.inl rfl)
  | false =>
    simp only [Bool.false_eq_true, not_false_eq_true, if_true]
    rcases asyncConnect_eq (w.finish op ec) o with h | ⟨-, h⟩
    · rw [h]
      exact .advanced op ec o _ _ hmem hlive hec hc (by simp [hkind, OperationKind.isHandshake])
        rfl (.inl rfl)
    · rw [h]
      exact error_effect _ hmem hlive hne (.inr hc) (.inr ⟨⟨host, service, hkind⟩, rfl⟩)

theorem connect_effect (hmem : op ∈ w.pending) (hlive : w.live op) (hkind : op.kind = .connect) :
    Effect w ⟨.complete op ec, o⟩ ((w.finish op ec).socketConnected ec) := by
  have hc : op.kind.connecting = true := by simp [hkind, OperationKind.connecting]
  unfold socketConnected asyncHandshake
  cases hec : ec.failed with
  | true => simpa [hec] using error_effect _ hmem hlive (by simp [hkind]) (.inl hec) (.inl rfl)
  | false =>
    simp only [Bool.false_eq_true, not_false_eq_true, if_true]
    split <;> exact .advanced op ec o _ _ hmem hlive hec hc
      (by simp [hkind, OperationKind.isHandshake]) rfl (.inr ⟨by simp [hkind], rfl⟩)

theorem handshake_effect (hmem : op ∈ w.pending) (hlive : w.live op)
    (hkind : op.kind.isHandshake = true ∨ ec.failed = true ∧ op.kind.connecting = true) :
    Effect w ⟨.complete op ec, o⟩ ((w.finish op ec).handshakeCompleted ec o) := by
  have hne : op.kind ≠ .close := by
    intro h
    simp [h, OperationKind.isHandshake, OperationKind.connecting] at hkind
  unfold handshakeCompleted
  cases hec : ec.failed with
  | true => simpa [hec] using error_effect _ hmem hlive hne (.inl hec) (.inl rfl)
  | false =>
    have hh : op.kind.isHandshake = true := by simpa [hec] using hkind
    simp only [Bool.false_eq_true, not_false_eq_true, if_true]
    by_cases hs : w.state = .connecting
    · rw [if_pos (by simpa using hs)]
      exact .connected op ec o hmem hlive hec hh hs
    · rw [if_neg (by simpa using hs)]
      exact close_effect _ hmem hlive hne (.inr hh)

theorem sslHandshake_effect {host path : Bytes} (hmem : op ∈ w.pending) (hlive : w.live op)
    (hkind : op.kind = .sslHandshake host path) :
    Effect w ⟨.complete op ec, o⟩ ((w.finish op ec).sslHandshakeComplete ec host path o) := by
  have hc : op.kind.connecting = true := by simp [hkind, OperationKind.connecting]
  unfold sslHandshakeComplete
  cases hec : ec.failed with
  | true =>
    simpa [hec] using handshake_effect (o := o) hmem hlive (.inr ⟨hec, hc⟩)
  | false =>
    simp only [Bool.false_eq_true, not_false_eq_true, if_true]
    exact .advanced op ec o _ _ hmem hlive hec hc (by simp [hkind, OperationKind.isHandshake])
      rfl (.inr ⟨by simp [hkind], rfl⟩)

theorem read_effect (hmem : op ∈ w.pending) (hlive : w.live op) (hkind : op.kind = .read) :
    Effect w ⟨.complete op ec, o⟩ ((w.finish op ec).onRead ec o) := by
  have hne : op.kind ≠ .close := by simp [hkind]
  unfold onRead
  cases hec : ec.failed with
  | true =>
    simp only [not_true_eq_false, if_false]
    split
    · exact close_effect _ hmem hlive hne (.inl hec)
    · exact error_effect _ hmem hlive hne (.inl hec) (.inl rfl)
  | false => exact .message op ec o hmem hlive hec hkind

theorem write_effect (hmem : op ∈ w.pending) (hlive : w.live op)
    (hkind : op.kind.isWrite = true) :
    Effect w ⟨.complete op ec, o⟩ ((w.finish op ec).onWrite ec o) := by
  have hne : op.kind ≠ .close := by
    intro h
    simp [h, OperationKind.isWrite] at hkind
  unfold onWrite
  cases hec : ec.failed with
  | true =>
    simp only [not_true_eq_false, if_false]
    split
    · exact close_effect _ hmem hlive hne (.inl hec)
    · exact error_effect _ hmem hlive hne (.inl hec) (.inl rfl)
  | false => exact .drained op ec o hmem hlive hec hkind

theorem complete_effect (w : World) (op : Operation) (ec : ErrorCode) (o : Outcome) :
    Effect w ⟨.complete op ec, o⟩ (w.complete op ec o) := by
  unfold complete
  by_cases hmem : op ∈ w.pending
  · rw [if_pos hmem]
    unfold guardGeneration
    by_cases hlive : w.live op
    · rw [if_pos (by simpa [live] using hlive)]
      cases hk : op.kind with
      | resolve host service => simpa [invoke, hk] using resolve_effect hmem hlive hk
      | connect => simpa [invoke, hk] using connect_effect (o := o) hmem hlive hk
      | sslHandshake host path => simpa [invoke, hk] using sslHandshake_effect hmem hlive hk
      | handshake host path fields =>
        have hh : op.kind.isHandshake = true := by simp [hk, OperationKind.isHandshake]
        simpa [invoke, hk] using handshake_effect hmem hlive (.inl hh)
      | read => simpa [invoke, hk] using read_effect hmem hlive hk
      | write message binary =>
        have hw : op.kind.isWrite = true := by simp [hk, OperationKind.isWrite]
        simpa [invoke, hk] using write_effect hmem hlive hw
      | close =>
        simpa [invoke, hk, onDisconnected] using
          Effect.shut op ec o ec.message hmem hlive (.inr (.inr hk)) (.inl hk)
    · rw [if_neg (by simpa [live] using hlive)]
      exact .stale op ec o hmem hlive
  · rw [if_neg hmem]
    exact .idle _

end complete

theorem verify_effect (w : World) (error : X509Error) (o : Outcome) :
    Effect w ⟨.verify error, o⟩ (w.verify error) := by
  unfold verify
  split
  · rename_i stream hws
    split
    · unfold verifyCertificate
      cases hr : error.report with
      | none =>
        rw [← hws]
        exact .verified error o _ (.inl ((report_none_iff error).mp hr))
      | some message =>
        have hok : error ≠ .ok := fun h => by simp [h, X509Error.report] at hr
        rw [errorConnection_snd, ← hws]
        cases hs : w.state.closable with
        | true => simpa [hs] using Effect.rejected error o message hok hs
        | false => simpa [hs] using Effect.verified error o false (.inr hs)
    · exact .idle _
  · exact .idle _

theorem setCookie_effect (w : World) (s : Step) (key value : Bytes) :
    Effect w s (w.setCookie key value).2 := by
  unfold setCookie
  split
  · exact .idle _
  · split
    · exact .idle _
    · exact .configured _ _ w.headers w.perMessageDeflate w.disableContextTakeover

theorem setHeader_effect (w : World) (s : Step) (key value : Bytes) :
    Effect w s (w.setHeader key value).2 := by
  unfold setHeader
  split
  · exact .idle _
  · split
    · exact .idle _
    · exact .configured _ w.cookies _ w.perMessageDeflate w.disableContextTakeover

theorem close_api_effect (w : World) (o : Outcome) : Effect w ⟨.close, o⟩ (w.close o).2 := by
  cases hs : w.state with
  | connecting => simpa [close, request, hs] using Effect.requested o hs
  | connected => simpa [close, request, hs] using Effect.requestedConnected o hs
  | _ => simpa [close, hs] using Effect.idle _

theorem receive_effect (w : World) (op : Operation) (bytes : Bytes) (o : Outcome) :
    Effect w ⟨.receive op bytes, o⟩ (w.receive op bytes) := by
  unfold receive
  split
  · rename_i h
    exact .received op bytes o h.1 h.2.1 h.2.2.1 h.2.2.2
  · exact .idle _

theorem step_effect (w : World) (s : Step) : Effect w s (w.step s) := by
  obtain ⟨action, o⟩ := s
  unfold step
  by_cases hf : w.fault = true
  · rw [if_pos hf]
    exact .idle _
  · rw [if_neg hf]
    cases action with
    | openSocket clear =>
      by_cases hs : w.state = .disconnected
      · exact .opened clear o hs
      · simpa [openSocket, hs] using Effect.idle _
    | write message binary => exact .written message binary o
    | clearQueue => exact .cleared o
    | close => exact close_api_effect w o
    | closeNow reason =>
      simp only [closeNow_snd]
      cases hs : w.state.closable with
      | true => exact .closedNow reason o hs
      | false => exact .idle _
    | setCookie key value => exact setCookie_effect w _ key value
    | setHeader key value => exact setHeader_effect w _ key value
    | setPerMessageDeflate value =>
      exact .configured _ w.cookies w.headers value w.disableContextTakeover
    | setDisableContextTakeover value =>
      exact .configured _ w.cookies w.headers w.perMessageDeflate value
    | takeMessages => exact .taken o
    | receive op bytes => exact receive_effect w op bytes o
    | complete op ec => exact complete_effect w op ec o
    | verify error => exact verify_effect w error o

end World
end GWSockets
