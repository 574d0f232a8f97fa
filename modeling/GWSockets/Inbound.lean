import GWSockets.Handshake

namespace GWSockets

def OperationKind.grounded : OperationKind → Bool
  | .connect | .sslHandshake _ _ | .handshake _ _ _ | .read => true
  | _ => false

def Event.inMessage : Event → Option Bytes
  | .put message => if message.type = .message then some message.message else none
  | _ => none

def Event.readCompleted (generation : Nat) : Event → Option Bytes
  | .completed op ec =>
      if op.kind = .read ∧ ec.failed = false ∧ op.generation = generation ∧
          op.stream.map Stream.generation = some generation then some op.received
      else none
  | _ => none

def Log.inMessages (log : Log) : List (Nat × Bytes) :=
  log.filterMap (fun e => e.2.inMessage.map (fun bytes => (e.1, bytes)))

def Log.readsCompleted (log : Log) : List (Nat × Bytes) :=
  log.filterMap (fun e => (e.2.readCompleted e.1).map (fun bytes => (e.1, bytes)))

@[simp] theorem inMessages_append (xs ys : Log) :
    Log.inMessages (xs ++ ys) = xs.inMessages ++ ys.inMessages := List.filterMap_append ..

@[simp] theorem readsCompleted_append (xs ys : Log) :
    Log.readsCompleted (xs ++ ys) = xs.readsCompleted ++ ys.readsCompleted :=
  List.filterMap_append ..

def Event.unread : Event → Bool
  | .put message => message.type != .message
  | .completed _ _ => false
  | _ => true

theorem inMessages_unread {log : Log} (h : ∀ e ∈ log, e.2.unread = true) : log.inMessages = [] := by
  refine List.filterMap_eq_nil_iff.mpr (fun e he => ?_)
  have hu := h e he
  cases hk : e.2 <;> simp_all [Event.unread, Event.inMessage]

theorem readsCompleted_unread {log : Log} (h : ∀ e ∈ log, e.2.unread = true) :
    log.readsCompleted = [] := by
  refine List.filterMap_eq_nil_iff.mpr (fun e he => ?_)
  have hu := h e he
  cases hk : e.2 <;> simp_all [Event.unread, Event.readCompleted]

namespace World

structure Buffered (w : World) : Prop where
  matched : w.log.inMessages = w.log.readsCompleted
  buffer : ∀ op ∈ w.pending, op.generation = w.generation → op.kind = .read →
    w.readBuffer = op.received
  reads : ∀ op ∈ w.pending, op.kind = .read → op.stream.map Stream.generation = some op.generation
  fresh : w.Busy OperationKind.grounded → w.ws.map Stream.generation = some w.generation

def CleanStart (w : World) (s : Step) : Prop :=
  ∀ c ∈ s.completion, c.1 ∈ w.pending → w.live c.1 → c.1.kind.isHandshake = true →
    c.2.failed = false → w.state = .connecting → w.readBuffer = []

instance (w : World) (s : Step) : Decidable (w.CleanStart s) :=
  inferInstanceAs (Decidable (∀ c ∈ s.completion, _))

theorem buffered_new (kind : SocketClass) (host : Bytes) (port : Nat) (path : Bytes) :
    (new kind host port path).Buffered := by
  refine ⟨rfl, by simp [new], by simp [new], ?_⟩
  rintro ⟨op, h, -⟩
  simp [new] at h

theorem buffered_same {w v : World} {added : Log} (h : w.Buffered)
    (hlog : v.log = w.log ++ added) (hadded : ∀ e ∈ added, e.2.unread = true)
    (hg : v.generation = w.generation) (hws : v.ws = w.ws) (hb : v.readBuffer = w.readBuffer)
    (hp : ∀ op ∈ v.pending, op.kind.grounded = true → op ∈ w.pending) : v.Buffered := by
  refine ⟨?_, ?_, ?_, ?_⟩
  · rw [hlog, inMessages_append, readsCompleted_append, inMessages_unread hadded,
      readsCompleted_unread hadded, h.matched]
  · intro op hm hgen hk
    rw [hb]
    exact h.buffer op (hp op hm (by simp [hk, OperationKind.grounded])) (hgen.trans hg) hk
  · intro op hm hk
    exact h.reads op (hp op hm (by simp [hk, OperationKind.grounded])) hk
  · rintro ⟨op, hm, hgen, hk⟩
    rw [hws, hg]
    exact h.fresh ⟨op, hp op hm hk, hgen.trans hg, hk⟩

theorem buffered_fresh {w v : World} {added : Log} (h : w.Buffered)
    (hpast : w.Past) (hlog : v.log = w.log ++ added) (hadded : ∀ e ∈ added, e.2.unread = true)
    (hg : w.generation < v.generation)
    (hp : ∀ op ∈ v.pending, op.kind.grounded = true → op ∈ w.pending) : v.Buffered := by
  have hold : ∀ op ∈ v.pending, op.kind.grounded = true → op.generation ≠ v.generation :=
    fun op hm hk => Nat.ne_of_lt (Nat.lt_of_le_of_lt (hpast op (hp op hm hk)) hg)
  refine ⟨?_, ?_, ?_, ?_⟩
  · rw [hlog, inMessages_append, readsCompleted_append, inMessages_unread hadded,
      readsCompleted_unread hadded, h.matched]
  · intro op hm hgen hk
    exact absurd hgen (hold op hm (by simp [hk, OperationKind.grounded]))
  · intro op hm hk
    exact h.reads op (hp op hm (by simp [hk, OperationKind.grounded])) hk
  · rintro ⟨op, hm, hgen, hk⟩
    exact absurd hgen (hold op hm hk)

theorem buffered_doClose {w : World} (h : w.Buffered)
    (hpast : w.Past) (reason : Bytes) : (w.doClose reason).Buffered :=
  buffered_fresh h hpast (doClose_log w reason) (by simp [Event.unread]) (Nat.lt_succ_self _)
    (fun _ hm _ => hm)

theorem buffered_opened {w : World} (h : w.Buffered)
    (hpast : w.Past) (clear : Bool)
    (hs : w.state = .disconnected) : (w.openSocket clear).Buffered := by
  refine buffered_fresh h hpast (openSocket_log clear hs) (by simp [Event.unread])
    (by rw [openSocket_generation clear hs]; exact Nat.lt_succ_self _) ?_
  intro op hm hk
  rw [openSocket_pending clear hs] at hm
  rcases List.mem_cons.mp hm with rfl | hm
  · simp [OperationKind.grounded] at hk
  · exact hm

theorem buffered_start {w : World} {kind : OperationKind} (h : w.Buffered)
    (hk : kind.grounded = false) : (w.start kind).Buffered := by
  refine buffered_same h (start_log w kind) (by simp [Event.unread]) rfl rfl rfl ?_
  intro op hm hg
  rcases List.mem_cons.mp hm with rfl | hm
  · simp [hk] at hg
  · exact hm

theorem buffered_checkWriting {w : World} (h : w.Buffered)
    (hpast : w.Past) (o : Outcome) : (w.checkWriting o).Buffered := by
  have hc := checkWriting_checked w o
  generalize w.checkWriting o = w' at hc
  cases hc with
  | idle => exact h
  | next m rest =>
    refine buffered_start (w := { w with
      writing := true, writeQueue := rest, messageToWrite := m.message }) ?_ rfl
    exact ⟨h.matched, h.buffer, h.reads, h.fresh⟩
  | marker m rest =>
    refine buffered_start (w := { w with
      writing := true, writeQueue := rest, state := .disconnecting }) ?_ rfl
    exact ⟨h.matched, h.buffer, h.reads, h.fresh⟩
  | abandoned m rest =>
    refine buffered_doClose (w := { w with writing := true, writeQueue := rest }) ?_ hpast _
    exact ⟨h.matched, h.buffer, h.reads, h.fresh⟩

section completions

variable {w w₁ : World} {op : Operation} {ec : ErrorCode}

theorem buffered_finish (h : w.Buffered)
    (hquiet : op.kind ≠ .read ∨ ec.failed = true ∨ op.generation ≠ w.generation) :
    (w.finish op ec).Buffered := by
  have hnone : Log.readsCompleted [(w.generation, .completed op ec)] = [] := by
    simp only [Log.readsCompleted, List.filterMap_cons, List.filterMap_nil, Event.readCompleted]
    rw [if_neg]
    · rfl
    · rintro ⟨hk, hec, hg, -⟩
      rcases hquiet with hq | hq | hq
      · exact hq hk
      · simp [hec] at hq
      · exact hq hg
  refine ⟨?_, fun x hm => h.buffer x (List.mem_of_mem_erase hm),
    fun x hm => h.reads x (List.mem_of_mem_erase hm), fun hb => h.fresh (busy_finish hb)⟩
  rw [finish_log, inMessages_append, readsCompleted_append, hnone, h.matched]
  rfl

theorem no_read_pending (h : w.outstanding OperationKind.isRead = 0) :
    ∀ x ∈ w.pending, x.generation = w.generation → x.kind ≠ .read := by
  intro x hm hg hk
  have hread := not_of_outstanding h hm hg
  simp [hk, OperationKind.isRead] at hread

theorem buffered_renew (h : w.Buffered) : w.renew.Buffered :=
  ⟨h.matched, h.buffer, h.reads, fun _ => rfl⟩

theorem buffered_settled (h : w.Buffered) (hw : w.Settled op ec w₁)
    (hquiet : op.kind ≠ .read ∨ ec.failed = true ∨ op.generation ≠ w.generation) :
    w₁.Buffered := by
  rcases hw with rfl | ⟨-, rfl⟩
  · exact buffered_finish h hquiet
  · exact buffered_renew (buffered_finish h hquiet)

theorem buffered_put (h : w.Buffered) {m : GWSocketMessageIn} (hm : m.type ≠ .message) :
    (w.put m).Buffered :=
  buffered_same h (put_log w m) (by simpa [Event.unread] using hm) rfl rfl rfl (fun _ hx _ => hx)

theorem buffered_verified (h : w.Buffered) (error : X509Error) (accepted : Bool) :
    (w.emit (.verified w.ws error accepted)).Buffered :=
  buffered_same h (emit_log w _) (by simp [Event.unread]) rfl rfl rfl (fun _ hm _ => hm)

theorem buffered_connecting {kind : OperationKind} (h : w.Buffered) (hk : kind.connecting = true)
    (hws : w.ws.map Stream.generation = some w.generation) : (w.start kind).Buffered := by
  have hread : kind ≠ .read := fun hr => by simp [hr, OperationKind.connecting] at hk
  refine ⟨?_, ?_, ?_, fun _ => hws⟩
  · rw [start_log, inMessages_append, readsCompleted_append, h.matched]
    rfl
  · intro op hm hg hr
    rcases List.mem_cons.mp hm with rfl | hm
    · exact absurd hr hread
    · exact h.buffer op hm hg hr
  · intro op hm hr
    rcases List.mem_cons.mp hm with rfl | hm
    · exact absurd hr hread
    · exact h.reads op hm hr

theorem buffered_advanced (h : w.Buffered) (hmem : op ∈ w.pending)
    (hg : op.generation = w.generation) (hop : op.kind.connecting = true) {kind : OperationKind}
    (hkind : kind.connecting = true)
    (hw : w₁ = (w.finish op ec).renew ∨
      (∀ host service, op.kind ≠ .resolve host service) ∧ w₁ = w.finish op ec) :
    (w₁.start kind).Buffered := by
  have hf : (w.finish op ec).Buffered := by
    refine buffered_finish h (.inl (fun hr => ?_))
    simp [hr, OperationKind.connecting] at hop
  rcases hw with rfl | ⟨hk, rfl⟩
  · exact buffered_connecting (buffered_renew hf) hkind rfl
  · refine buffered_connecting hf hkind (h.fresh ⟨op, hmem, hg, ?_⟩)
    cases hc : op.kind <;> simp_all [OperationKind.grounded, OperationKind.connecting]

theorem buffered_establish (h : w.Buffered) (hempty : w.readBuffer = [])
    (hnone : w.outstanding OperationKind.isRead = 0)
    (hws : w.ws.map Stream.generation = some w.generation) : w.establish.Buffered := by
  refine ⟨?_, ?_, ?_, fun _ => hws⟩
  · rw [establish_log, inMessages_append, readsCompleted_append, h.matched]
    rfl
  · intro op hm hg hr
    rcases List.mem_cons.mp hm with rfl | hm
    · exact hempty
    · exact absurd hr (no_read_pending hnone op hm hg)
  · intro op hm hr
    rcases List.mem_cons.mp hm with rfl | hm
    · exact hws
    · exact h.reads op hm hr

theorem buffered_message (h : w.Buffered) (ha : w.Accounted) (hmem : op ∈ w.pending)
    (hg : op.generation = w.generation) (hk : op.kind = .read) (hec : ec.failed = false) :
    (w.finish op ec).deliver.Buffered := by
  have hws := h.fresh ⟨op, hmem, hg, by simp [hk, OperationKind.grounded]⟩
  have hrec : Log.readsCompleted [(w.generation, .completed op ec)] =
      [(w.generation, op.received)] := by
    have hstream := h.reads op hmem hk
    rw [hg] at hstream
    simp only [Log.readsCompleted, List.filterMap_cons, List.filterMap_nil, Event.readCompleted]
    rw [if_pos ⟨hk, hec, hg, hstream⟩]
    rfl
  have hnone : (w.finish op ec).outstanding OperationKind.isRead = 0 := by
    have hcount := outstanding_finish ec OperationKind.isRead hmem hg
    have hle := reading_le_one ha
    simp only [hk, OperationKind.isRead, if_true] at hcount
    omega
  refine ⟨?_, ?_, ?_, fun _ => hws⟩
  · rw [deliver_log, finish_log, inMessages_append, readsCompleted_append, inMessages_append,
      readsCompleted_append, hrec, h.matched, ← h.buffer op hmem hg hk]
    simp [Log.inMessages, Log.readsCompleted, Event.inMessage, Event.readCompleted]
  · intro x hm hgx hr
    rcases List.mem_cons.mp hm with rfl | hm
    · rfl
    · exact absurd hr (no_read_pending hnone x hm hgx)
  · intro x hm hr
    rcases List.mem_cons.mp hm with rfl | hm
    · exact hws
    · exact h.reads x (List.mem_of_mem_erase hm) hr

end completions

-- The bytes go to the one read of the current generation: a read of an earlier attempt holds a
-- stream of that attempt, which resetWS has replaced before the current one starts reading.
theorem buffered_extend {w : World} {op : Operation} (h : w.Buffered) (ha : w.Accounted)
    (bytes : Bytes) (hmem : op ∈ w.pending) (hk : op.kind = .read) (hstream : op.stream = w.ws) :
    (w.extend op bytes).Buffered := by
  have hself := h.reads op hmem hk
  refine ⟨h.matched, ?_, ?_, fun hb => h.fresh (busy_extend hmem hb)⟩
  · intro x hm hgx hkx
    rcases List.mem_cons.mp hm with rfl | hm
    · exact congrArg (· ++ bytes) (h.buffer op hmem hgx hk)
    · have hgen : op.generation = w.generation := by
        have hws := h.fresh ⟨x, List.mem_of_mem_erase hm, hgx,
          by simp [hkx, OperationKind.grounded]⟩
        rw [← hstream, hself] at hws
        exact Option.some.inj hws
      have hcount := Bag.countP_erase_add (current w.generation OperationKind.isRead) hmem
      have hle := reading_le_one ha
      have hcur : current w.generation OperationKind.isRead x = true := by
        simp only [current, hkx, OperationKind.isRead, Bool.and_true, beq_iff_eq]
        exact hgx
      have hpos : 0 < (w.pending.erase op).countP (current w.generation OperationKind.isRead) :=
        List.countP_pos_iff.mpr ⟨x, hm, hcur⟩
      simp only [current, hgen, hk, OperationKind.isRead, beq_self_eq_true, Bool.and_self,
        if_true] at hcount
      rw [outstanding, ← hcount] at hle
      omega
  · intro x hm hkx
    rcases List.mem_cons.mp hm with rfl | hm
    · exact hself
    · exact h.reads x (List.mem_of_mem_erase hm) hkx

theorem not_read_of_connecting {k : OperationKind} (h : k.connecting = true) : k ≠ .read := by
  rintro rfl
  simp [OperationKind.connecting] at h

theorem buffered_step {w : World} (h : w.Buffered) (ha : w.Accounted) (s : Step)
    (hu : w.Unaliased s) (hc : w.CleanStart s) : (w.step s).Buffered := by
  have he := step_effect w s
  generalize w.step s = w' at he
  cases he with
  | idle => exact h
  | configured => exact ⟨h.matched, h.buffer, h.reads, h.fresh⟩
  | opened clear o hs => exact buffered_opened h ha.past clear hs
  | written message binary o =>
    refine buffered_checkWriting (w := w.enqueue message binary) ?_ ha.past o
    exact buffered_same h (enqueue_log ..) (by simp [Event.unread]) rfl rfl rfl (fun _ hm _ => hm)
  | cleared =>
    exact buffered_same h (forget_log w) (by simp [Event.unread]) rfl rfl rfl (fun _ hm _ => hm)
  | requested => exact ⟨h.matched, h.buffer, h.reads, h.fresh⟩
  | requestedConnected o =>
    refine buffered_checkWriting (w := w.request) ?_ ha.past o
    exact ⟨h.matched, h.buffer, h.reads, h.fresh⟩
  | closedNow reason => exact buffered_doClose h ha.past reason
  | taken => exact ⟨h.matched, h.buffer, h.reads, h.fresh⟩
  | received op bytes o hmem hkind hsome hstream =>
    exact buffered_extend h ha bytes hmem hkind hstream
  | verified error o accepted => exact buffered_verified h error accepted
  | rejected error o message =>
    have hv := buffered_verified h error false
    exact buffered_doClose (buffered_put hv (by simp)) ha.past message
  | stale op ec o hmem hlive =>
    exact buffered_finish h (.inr (.inr (fun hg => hlive (by rw [live, hg]))))
  | dropped op ec o w₁ hmem hlive hkind hcause hstate hw =>
    refine buffered_settled h hw ?_
    exact hcause.elim (fun hf => .inr (.inl hf)) (fun hk => .inl (not_read_of_connecting hk))
  | shut op ec o reason hmem hlive hcause =>
    refine buffered_doClose (buffered_finish h ?_) (past_finish ha op ec) reason
    rcases hcause with hf | hk | hk
    · exact .inr (.inl hf)
    · exact .inl (not_read_of_connecting (handshake_connecting hk))
    · exact .inl (by simp [hk])
  | failed op ec o w₁ message hmem hlive hkind hcause hs hw =>
    refine buffered_doClose (buffered_put (buffered_settled h hw ?_) (by simp))
      (fun x hx => settled_past ha hw x hx) message
    exact hcause.elim (fun hf => .inr (.inl hf)) (fun hk => .inl (not_read_of_connecting hk))
  | advanced op ec o w₁ kind hmem hlive hec hop hlast hkind hw =>
    exact buffered_advanced h hmem (hu (op, ec) rfl hmem hlive) hop hkind hw
  | connected op ec o hmem hlive hec hkind hs =>
    have hg := hu (op, ec) rfl hmem hlive
    have hconn := handshake_connecting hkind
    have hshape := ha.shape
    rw [hs] at hshape
    have hnone : (w.finish op ec).outstanding OperationKind.isRead = 0 := by
      have hle := outstanding_finish_le (w := w) op ec OperationKind.isRead
      have hzero := hshape.2.2.1
      omega
    have hf : (w.finish op ec).Buffered := buffered_finish h (.inl (not_read_of_connecting hconn))
    have hws : w.ws.map Stream.generation = some w.generation := by
      refine h.fresh ⟨op, hmem, hg, ?_⟩
      cases hk : op.kind <;> simp_all [OperationKind.isHandshake, OperationKind.grounded]
    have hempty := hc (op, ec) rfl hmem hlive hkind hec hs
    have hacc : (w.finish op ec).establish.Accounted := accounted_connected ha hmem hg hconn hs
    exact buffered_checkWriting (buffered_establish hf hempty hnone hws) hacc.past o
  | message op ec o hmem hlive hec hkind =>
    exact buffered_message h ha hmem (hu (op, ec) rfl hmem hlive) hkind hec
  | drained op ec o hmem hlive hec hkind =>
    have hf : (w.finish op ec).Buffered := by
      refine buffered_finish h (.inl (fun hr => ?_))
      simp [hr, OperationKind.isWrite] at hkind
    refine buffered_checkWriting (w := (w.finish op ec).release) ?_ (past_finish ha op ec) o
    exact ⟨hf.matched, hf.buffer, hf.reads, hf.fresh⟩

theorem buffered_run {w : World} (h : w.Buffered) (ha : w.Accounted) {ls : List Step}
    (hu : Machine.Along step Unaliased w ls) (hc : Machine.Along step CleanStart w ls) :
    (w.run ls).Buffered :=
  (Machine.run_invariant (I := fun v => v.Buffered ∧ v.Accounted)
    (fun _ s hv hok => ⟨buffered_step hv.1 hv.2 s hok.1 hok.2, accounted_step hv.2 s hok.1⟩)
    ⟨h, ha⟩ (hu.and hc)).1

theorem inbound_messages_exact (kind : SocketClass) (host : Bytes) (port : Nat) (path : Bytes)
    (ls : List Step) (hu : Machine.Along step Unaliased (new kind host port path) ls)
    (hc : Machine.Along step CleanStart (new kind host port path) ls) :
    let w := (new kind host port path).run ls
    w.log.inMessages = w.log.readsCompleted :=
  (buffered_run (buffered_new ..) (accounted_new ..) hu hc).matched

def plainRead (id generation : Nat) (received : Bytes) : Operation :=
  ⟨.read, generation, some (plainStream id generation), received⟩

def receivedRun : List Step :=
  ⟨.openSocket true, {}⟩ :: plainConnect 0 1 ++
    [⟨.receive (plainRead 0 1 []) [1], {}⟩, ⟨.receive (plainRead 0 1 [1]) [2], {}⟩,
      ⟨.complete (plainRead 0 1 [1, 2]) ⟨.success, []⟩, {}⟩]

def partialRun : List Step :=
  ⟨.openSocket true, {}⟩ :: plainConnect 0 1 ++
    [⟨.receive (plainRead 0 1 []) [1], {}⟩, ⟨.closeNow [], {}⟩, ⟨.openSocket true, {}⟩] ++
    plainConnect 1 3 ++ [⟨.receive (plainRead 1 3 []) [2], {}⟩,
      ⟨.complete (plainRead 1 3 [2]) ⟨.success, []⟩, {}⟩]

theorem inbound_messages_exact_received :
    let w := (new .webSocket [] 80 []).run receivedRun
    w.log.inMessages = [(1, [1, 2])] ∧ w.log.inMessages = w.log.readsCompleted := by
  refine ⟨by decide +kernel, inbound_messages_exact .webSocket [] 80 [] receivedRun ?_ ?_⟩
  · decide +kernel
  · decide +kernel

theorem partial_message_delivered :
    let w := (new .webSocket [] 80 []).run partialRun
    w.log.inMessages = [(3, [1, 2])] ∧ w.log.readsCompleted = [(3, [2])] := by
  decide +kernel

end World
end GWSockets
