import GWSockets.Library.Trace
import GWSockets.History

namespace GWSockets

def OperationKind.usesStream : OperationKind → Bool
  | .resolve _ _ => false
  | _ => true

def OperationKind.transfers (k : OperationKind) : Bool := !k.connecting

def Event.transfers : Event → Bool
  | .started op => op.kind.transfers
  | _ => false

def Event.completes : Event → Bool
  | .completed _ _ => true
  | _ => false

def Log.Handshook (log : Log) (generation : Nat) : Prop :=
  ∃ op ec, (generation, .completed op ec) ∈ log ∧ op.kind.isHandshake = true ∧
    ec.failed = false ∧ op.generation = generation

def Log.Transferable (before : Log) (e : Nat × Event) : Prop :=
  ∀ op, e.2 = .started op → op.kind.transfers = true →
    before.Handshook e.1 ∧ op.generation = e.1 ∧
      ∃ stream, op.stream = some stream ∧ stream.generation = e.1

theorem Log.Handshook.append {log : Log} {g : Nat} (h : log.Handshook g) (added : Log) :
    Log.Handshook (log ++ added) g := by
  obtain ⟨op, ec, hm, hrest⟩ := h
  exact ⟨op, ec, List.mem_append_left _ hm, hrest⟩

theorem handshook_left {log added : Log} {g : Nat} (h : Log.Handshook (log ++ added) g)
    (ha : ∀ e ∈ added, e.2.completes = false) : log.Handshook g := by
  obtain ⟨op, ec, hm, hrest⟩ := h
  rcases List.mem_append.mp hm with hm | hm
  · exact ⟨op, ec, hm, hrest⟩
  · exact absurd (ha _ hm) (by simp [Event.completes])

theorem transferable_of_quiet {before : Log} {e : Nat × Event} (h : e.2.transfers = false) :
    before.Transferable e := by
  intro op he hk
  simp [he, Event.transfers, hk] at h

namespace World

def Busy (w : World) (p : OperationKind → Bool) : Prop :=
  ∃ op ∈ w.pending, op.generation = w.generation ∧ p op.kind = true

structure Ready (w : World) : Prop where
  causal : Trace.Causal Log.Transferable w.log
  stamps : ∀ e ∈ w.log, e.1 ≤ w.generation
  handshook : w.state = .connected ∨ w.Busy OperationKind.transfers →
    w.log.Handshook w.generation
  stream : w.Busy OperationKind.usesStream ∨ w.log.Handshook w.generation →
    ∃ stream, w.ws = some stream ∧ stream.generation = w.generation

def MarkerAbandoned (w : World) (o : Outcome) : Prop :=
  o.weakFails = true ∧ ∃ m rest, w.writeQueue = m :: rest ∧ m.type = .disconnect

def HandshakeFirst (w : World) (s : Step) : Prop :=
  ∀ message binary, s.action = .write message binary → w.fault = false →
    w.state = .disconnectRequested →
    w.log.Handshook w.generation ∨ w.MarkerAbandoned s.outcome

theorem ready_new (kind : SocketClass) (host : Bytes) (port : Nat) (path : Bytes) :
    (new kind host port path).Ready := by
  refine ⟨Trace.causal_nil, by simp [new], ?_, ?_⟩
  · rintro (h | ⟨op, h, -⟩) <;> simp [new] at h
  · rintro (⟨op, h, -⟩ | ⟨op, ec, h, -⟩) <;> simp [new] at h

theorem ready_same {w v : World} {added : Log} (h : w.Ready) (hlog : v.log = w.log ++ added)
    (hadded : ∀ e ∈ added, e.1 ≤ w.generation ∧ e.2.transfers = false ∧ e.2.completes = false)
    (hg : v.generation = w.generation) (hws : v.ws = w.ws)
    (hs : v.state = .connected → w.state = .connected)
    (hp : ∀ p, v.Busy p → w.Busy p) : v.Ready := by
  have hback : v.log.Handshook v.generation → w.log.Handshook w.generation := by
    rw [hlog, hg]
    exact fun hh => handshook_left hh (fun e he => (hadded e he).2.2)
  refine ⟨?_, ?_, ?_, ?_⟩
  · rw [hlog]
    exact h.causal.append (fun before e he => transferable_of_quiet (hadded e he).2.1)
  · intro e he
    rw [hlog] at he
    rw [hg]
    exact (List.mem_append.mp he).elim (h.stamps e) (fun he => (hadded e he).1)
  · intro hc
    rw [hlog, hg]
    exact (h.handshook (hc.imp hs (hp _))).append added
  · intro hc
    rw [hws, hg]
    exact h.stream (hc.imp (hp _) hback)

theorem ready_fresh {w : World} {added : Log} {g : Nat} (h : w.Ready) (hg : w.generation < g)
    {v : World} (hlog : v.log = w.log ++ added)
    (hadded : ∀ e ∈ added, e.1 ≤ g ∧ e.2.transfers = false ∧ e.2.completes = false)
    (hv : v.generation = g) (hs : v.state ≠ .connected)
    (hp : ¬ v.Busy OperationKind.usesStream) : v.Ready := by
  have hnone : ¬ v.log.Handshook v.generation := by
    rw [hlog, hv]
    intro hh
    obtain ⟨op, ec, hm, -⟩ := handshook_left hh (fun e he => (hadded e he).2.2)
    exact absurd (h.stamps _ hm) (Nat.not_le_of_lt hg)
  refine ⟨?_, ?_, ?_, ?_⟩
  · rw [hlog]
    exact h.causal.append (fun before e he => transferable_of_quiet (hadded e he).2.1)
  · intro e he
    rw [hlog] at he
    rw [hv]
    exact (List.mem_append.mp he).elim
      (fun he => Nat.le_of_lt (Nat.lt_of_le_of_lt (h.stamps e he) hg))
      (fun he => (hadded e he).1)
  · rintro (hc | ⟨op, hm, hgen, hk⟩)
    · exact absurd hc hs
    · refine absurd ⟨op, hm, hgen, ?_⟩ hp
      cases hkind : op.kind <;>
        simp_all [OperationKind.usesStream, OperationKind.transfers, OperationKind.connecting]
  · exact fun hc => absurd hc (not_or.mpr ⟨hp, hnone⟩)

theorem not_busy_doClose {w : World} (h : w.Past)
    (reason : Bytes) (p : OperationKind → Bool) : ¬ (w.doClose reason).Busy p := by
  rintro ⟨op, hm, hg, -⟩
  have hle := h op hm
  simp only [doClose_toGWSocket] at hg
  omega

theorem ready_doClose {w : World} (h : w.Ready)
    (hpast : w.Past) (reason : Bytes) : (w.doClose reason).Ready :=
  ready_fresh h (Nat.lt_succ_self _) (doClose_log w reason)
    (by simp [Event.transfers, Event.completes]) rfl (by simp) (not_busy_doClose hpast reason _)

theorem busy_start {w : World} {kind : OperationKind} {p : OperationKind → Bool}
    (h : (w.start kind).Busy p) : w.Busy p ∨ p kind = true := by
  obtain ⟨op, hm, hg, hk⟩ := h
  rcases List.mem_cons.mp hm with rfl | hm
  · exact .inr hk
  · exact .inl ⟨op, hm, hg, hk⟩

theorem ready_transfer {w : World} {kind : OperationKind} (h : w.Ready)
    (hh : w.log.Handshook w.generation) : (w.start kind).Ready := by
  have hstart : Log.Handshook (w.start kind).log w.generation := by
    rw [start_log]
    exact hh.append _
  have hstream := h.stream (.inr hh)
  refine ⟨?_, ?_, fun _ => hstart, fun _ => hstream⟩
  · rw [start_log]
    refine Trace.causal_snoc.mpr ⟨h.causal, ?_⟩
    intro op he hk
    obtain rfl := Event.started.inj he
    exact ⟨hh, rfl, hstream⟩
  · intro e he
    rw [start_log] at he
    rcases List.mem_append.mp he with he | he
    · exact h.stamps e he
    · exact List.mem_singleton.mp he ▸ Nat.le_refl _

theorem ready_connecting {w : World} {kind : OperationKind} (h : w.Ready)
    (hk : kind.connecting = true)
    (hws : ∃ stream, w.ws = some stream ∧ stream.generation = w.generation) :
    (w.start kind).Ready := by
  have hback : (w.start kind).log.Handshook w.generation → w.log.Handshook w.generation := by
    rw [start_log]
    exact fun hh => handshook_left hh (by simp [Event.completes])
  refine ⟨?_, ?_, ?_, fun _ => hws⟩
  · rw [start_log]
    exact h.causal.append
      (by simp [transferable_of_quiet, Event.transfers, OperationKind.transfers, hk])
  · intro e he
    rw [start_log] at he
    rcases List.mem_append.mp he with he | he
    · exact h.stamps e he
    · exact List.mem_singleton.mp he ▸ Nat.le_refl _
  · intro hc
    rw [start_log]
    refine (h.handshook ?_).append _
    refine hc.imp id (fun hb => (busy_start hb).resolve_right ?_)
    simp [OperationKind.transfers, hk]

theorem ready_checkWriting {w : World} (h : w.Ready)
    (hpast : w.Past) {o : Outcome} (hh : w.state = .disconnectRequested →
      w.log.Handshook w.generation ∨ w.MarkerAbandoned o) : (w.checkWriting o).Ready := by
  have hc := checkWriting_checked w o
  generalize w.checkWriting o = w' at hc
  cases hc with
  | idle => exact h
  | next m rest hs hw hq ht =>
    have hhs : w.log.Handshook w.generation := by
      rcases hs with hs | hs
      · exact h.handshook (.inl hs)
      · refine (hh hs).resolve_right ?_
        rintro ⟨-, m', rest', hq', ht'⟩
        obtain rfl := List.head_eq_of_cons_eq (hq.symm.trans hq')
        simp [ht] at ht'
    refine ready_transfer (w := { w with
      writing := true, writeQueue := rest, messageToWrite := m.message }) ?_ hhs
    exact ⟨h.causal, h.stamps, h.handshook, h.stream⟩
  | marker m rest hs hw hq ht hweak =>
    have hhs := (hh hs).resolve_right (fun hm => by simp [MarkerAbandoned, hweak] at hm)
    refine ready_transfer (w := { w with
      writing := true, writeQueue := rest, state := .disconnecting }) ?_ hhs
    exact ⟨h.causal, h.stamps, fun hc => h.handshook (hc.imp (by simp) id), h.stream⟩
  | abandoned m rest hs =>
    refine ready_doClose (w := { w with writing := true, writeQueue := rest }) ?_ hpast _
    exact ⟨h.causal, h.stamps, h.handshook, h.stream⟩

theorem ready_opened {w : World} (h : w.Ready)
    (hpast : w.Past) (clear : Bool)
    (hs : w.state = .disconnected) : (w.openSocket clear).Ready := by
  refine ready_fresh h (Nat.lt_succ_self _) (openSocket_log clear hs) ?_
    (openSocket_generation clear hs) (by simp [openSocket_state clear hs]) ?_
  · simp [Event.transfers, Event.completes, OperationKind.transfers, OperationKind.connecting]
  · rintro ⟨op, hm, hg, hk⟩
    rw [openSocket_pending clear hs] at hm
    rw [openSocket_generation clear hs] at hg
    rcases List.mem_cons.mp hm with rfl | hm
    · simp [OperationKind.usesStream] at hk
    · have hle := hpast op hm
      omega

section completions

variable {w w₁ : World} {op : Operation} {ec : ErrorCode}

theorem busy_finish {p : OperationKind → Bool} (h : (w.finish op ec).Busy p) : w.Busy p := by
  obtain ⟨x, hm, hrest⟩ := h
  exact ⟨x, List.mem_of_mem_erase hm, hrest⟩

theorem handshake_usesStream {k : OperationKind} (h : k.isHandshake = true) :
    k.usesStream = true := by
  cases k <;> simp_all [OperationKind.isHandshake, OperationKind.usesStream]

theorem write_usesStream {k : OperationKind} (h : k.isWrite = true) : k.usesStream = true := by
  cases k <;> simp_all [OperationKind.isWrite, OperationKind.usesStream]

theorem usesStream_of_ne_resolve {k : OperationKind}
    (h : ∀ host service, k ≠ .resolve host service) : k.usesStream = true := by
  cases k with
  | resolve host service => exact absurd rfl (h host service)
  | _ => rfl

theorem ready_finish (h : w.Ready) (hmem : op ∈ w.pending) (ec : ErrorCode) :
    (w.finish op ec).Ready := by
  refine ⟨?_, ?_, ?_, ?_⟩
  · rw [finish_log]
    refine h.causal.append (fun before e he => ?_)
    exact List.mem_singleton.mp he ▸ transferable_of_quiet rfl
  · intro e he
    rw [finish_log] at he
    rcases List.mem_append.mp he with he | he
    · exact h.stamps e he
    · exact List.mem_singleton.mp he ▸ Nat.le_refl _
  · intro hc
    rw [finish_log]
    exact (h.handshook (hc.imp id busy_finish)).append _
  · rintro (hb | ⟨hop, hec, hm, hk, hok, hg⟩)
    · exact h.stream (.inl (busy_finish hb))
    · rw [finish_log] at hm
      rcases List.mem_append.mp hm with hm | hm
      · exact h.stream (.inr ⟨hop, hec, hm, hk, hok, hg⟩)
      · simp only [List.mem_singleton, Prod.mk.injEq, Event.completed.injEq] at hm
        obtain ⟨-, rfl, rfl⟩ := hm
        exact h.stream (.inl ⟨hop, hmem, hg, handshake_usesStream hk⟩)

theorem ready_renew (h : w.Ready) : w.renew.Ready :=
  ⟨h.causal, h.stamps, h.handshook, fun _ => ⟨w.freshStream, rfl, rfl⟩⟩

theorem ready_settled (h : w.Ready) (hmem : op ∈ w.pending) (hw : w.Settled op ec w₁) :
    w₁.Ready := by
  rcases hw with rfl | ⟨-, rfl⟩
  · exact ready_finish h hmem ec
  · exact ready_renew (ready_finish h hmem ec)

theorem ready_put (h : w.Ready) (m : GWSocketMessageIn) : (w.put m).Ready :=
  ready_same h (put_log w m) (by simp [Event.transfers, Event.completes]) rfl rfl id
    (fun _ hb => hb)

theorem ready_verified (h : w.Ready) (error : X509Error) (accepted : Bool) :
    (w.emit (.verified w.ws error accepted)).Ready :=
  ready_same h (emit_log w _) (by simp [Event.transfers, Event.completes]) rfl rfl id
    (fun _ hb => hb)

theorem handshook_transfer (h : w.Ready) (hmem : op ∈ w.pending)
    (hg : op.generation = w.generation) (hk : op.kind.transfers = true) :
    w.log.Handshook w.generation := h.handshook (.inr ⟨op, hmem, hg, hk⟩)

theorem handshook_finish (hg : op.generation = w.generation) (hk : op.kind.isHandshake = true)
    (hec : ec.failed = false) : (w.finish op ec).log.Handshook w.generation :=
  ⟨op, ec, by rw [finish_log]; simp, hk, hec, hg⟩

theorem ready_advanced (h : w.Ready) (hmem : op ∈ w.pending) (hg : op.generation = w.generation)
    {kind : OperationKind} (hkind : kind.connecting = true)
    (hw : w₁ = (w.finish op ec).renew ∨
      (∀ host service, op.kind ≠ .resolve host service) ∧ w₁ = w.finish op ec) :
    (w₁.start kind).Ready := by
  rcases hw with rfl | ⟨hk, rfl⟩
  · exact ready_connecting (ready_renew (ready_finish h hmem ec)) hkind ⟨_, rfl, rfl⟩
  · refine ready_connecting (ready_finish h hmem ec) hkind (h.stream (.inl ⟨op, hmem, hg, ?_⟩))
    exact usesStream_of_ne_resolve hk

theorem ready_connected (h : w.Ready) (hh : w.log.Handshook w.generation) : w.establish.Ready := by
  refine ready_transfer (w := { w with state := .connected }.put ⟨.connected, ascii "Connected"⟩)
    (ready_put ?_ _) ?_
  · exact ⟨h.causal, h.stamps, fun _ => hh, h.stream⟩
  · rw [put_log]
    exact Log.Handshook.append hh _

theorem ready_message (h : w.Ready) (hh : w.log.Handshook w.generation) : w.deliver.Ready := by
  have hput := ready_put h ⟨.message, w.readBuffer⟩
  refine ready_transfer (w := { w.put ⟨.message, w.readBuffer⟩ with readBuffer := [] }) ?_ ?_
  · exact ⟨hput.causal, hput.stamps, hput.handshook, hput.stream⟩
  · show (w.put _).log.Handshook w.generation
    rw [put_log]
    exact hh.append _

end completions

theorem busy_extend {w : World} {op : Operation} {bytes : Bytes} (hmem : op ∈ w.pending)
    {p : OperationKind → Bool} (h : (w.extend op bytes).Busy p) : w.Busy p := by
  obtain ⟨x, hm, hrest⟩ := h
  rcases List.mem_cons.mp hm with rfl | hm
  · exact ⟨op, hmem, hrest⟩
  · exact ⟨x, List.mem_of_mem_erase hm, hrest⟩

theorem ready_step {w : World} (h : w.Ready) (ha : w.Accounted) (s : Step) (hu : w.Unaliased s)
    (hc : w.HandshakeFirst s) : (w.step s).Ready := by
  by_cases hf : w.fault = true
  · simpa [step, hf] using h
  · have he := step_effect w s
    generalize w.step s = w' at he
    cases he with
    | idle => exact h
    | configured => exact ⟨h.causal, h.stamps, h.handshook, h.stream⟩
    | opened clear o hs => exact ready_opened h ha.past clear hs
    | written message binary o =>
      have hw : (w.enqueue message binary).Ready :=
        ready_same h (enqueue_log ..) (by simp [Event.transfers, Event.completes]) rfl rfl id
          (fun _ hb => hb)
      refine ready_checkWriting hw ?_ (fun hs => ?_)
      · exact ha.past
      · refine (hc message binary rfl (by simpa using hf) hs).imp (fun hh => hh.append _) ?_
        rintro ⟨hweak, m, rest, hq, ht⟩
        exact ⟨hweak, m, _, congrArg (· ++ _) hq, ht⟩
    | cleared =>
      exact ready_same h (forget_log w) (by simp [Event.transfers, Event.completes]) rfl rfl id
        (fun _ hb => hb)
    | requested o hs =>
      exact ready_same h (List.append_nil _).symm (by simp) rfl rfl (by simp) (fun _ hb => hb)
    | requestedConnected o hs =>
      have hr : w.request.Ready :=
        ready_same h (List.append_nil _).symm (by simp) rfl rfl (by simp) (fun _ hb => hb)
      exact ready_checkWriting hr ha.past (fun _ => .inl (h.handshook (.inl hs)))
    | closedNow reason => exact ready_doClose h ha.past reason
    | taken => exact ⟨h.causal, h.stamps, h.handshook, h.stream⟩
    | received op bytes o hmem =>
      exact ready_same h (List.append_nil _).symm (by simp) rfl rfl id
        (fun _ hb => busy_extend hmem hb)
    | verified error o accepted => exact ready_verified h error accepted
    | rejected error o message =>
      have hv := ready_verified h error false
      exact ready_doClose (ready_put hv _) ha.past message
    | stale op ec o hmem => exact ready_finish h hmem ec
    | dropped op ec o w₁ hmem hlive hkind hcause hstate hw => exact ready_settled h hmem hw
    | shut op ec o reason hmem =>
      exact ready_doClose (ready_finish h hmem ec) (past_finish ha op ec) reason
    | failed op ec o w₁ message hmem hlive hkind hcause hs hw =>
      exact ready_doClose (ready_put (ready_settled h hmem hw) _)
        (fun x hx => settled_past ha hw x hx) message
    | advanced op ec o w₁ kind hmem hlive hec hop hlast hkind hw =>
      exact ready_advanced h hmem (hu (op, ec) rfl hmem hlive) hkind hw
    | connected op ec o hmem hlive hec hkind hs =>
      have hg := hu (op, ec) rfl hmem hlive
      have hh : (w.finish op ec).log.Handshook w.generation := handshook_finish hg hkind hec
      have hacc : (w.finish op ec).establish.Accounted :=
        accounted_connected ha hmem hg (handshake_connecting hkind) hs
      refine ready_checkWriting (ready_connected (ready_finish h hmem ec) hh) hacc.past ?_
      simp
    | message op ec o hmem hlive hec hkind =>
      have hh := handshook_transfer h hmem (hu (op, ec) rfl hmem hlive)
        (by simp [OperationKind.transfers, hkind, OperationKind.connecting])
      exact ready_message (ready_finish h hmem ec) (by rw [finish_log]; exact hh.append _)
    | drained op ec o hmem hlive hec hkind =>
      have hh := handshook_transfer h hmem (hu (op, ec) rfl hmem hlive)
        (by simp [OperationKind.transfers, (write_only hkind).1])
      have hr := ready_finish h hmem ec
      refine ready_checkWriting (w := (w.finish op ec).release) ?_ (past_finish ha op ec) ?_
      · exact ⟨hr.causal, hr.stamps, hr.handshook, hr.stream⟩
      · intro hs
        rw [release_log, finish_log]
        exact .inl (hh.append _)

theorem idle_before_handshake {w : World} (h : w.Ready) (ha : w.Accounted)
    (hs : w.state = .disconnectRequested) (hh : ¬ w.log.Handshook w.generation) :
    w.writing = false := by
  by_contra hw
  have hshape := ha.shape
  rw [hs] at hshape
  have hpos : 0 < w.outstanding OperationKind.isWrite := by
    rw [hshape.2.1, eq_true_of_ne_false hw]
    decide
  obtain ⟨op, hm, hop⟩ := List.countP_pos_iff.mp hpos
  simp only [current, Bool.and_eq_true, beq_iff_eq] at hop
  refine hh (h.handshook (.inr ⟨op, hm, hop.1, ?_⟩))
  simp [OperationKind.transfers, (write_only hop.2).1]

-- A write that reaches checkWriting before the handshake starts a transfer on no stream or on the
-- stream of an earlier attempt.
theorem early_write {w : World} (h : w.Ready) (ha : w.Accounted) {message : Bytes} {binary : Bool}
    {o : Outcome} (hf : w.fault = false) (hs : w.state = .disconnectRequested)
    (hh : ¬ w.log.Handshook w.generation) (hm : ¬ w.MarkerAbandoned o) :
    ¬ Trace.Causal Log.Transferable (w.step ⟨.write message binary, o⟩).log := by
  have hstep : w.step ⟨.write message binary, o⟩ = (w.enqueue message binary).checkWriting o := by
    simp [step, hf, write, enqueue]
  have hback : ¬ (w.enqueue message binary).log.Handshook w.generation := by
    rw [enqueue_log]
    exact fun hc => hh (handshook_left hc (by simp [Event.completes]))
  have hw : w.writing = false := idle_before_handshake h ha hs hh
  rw [hstep]
  have hc := checkWriting_checked (w.enqueue message binary) o
  generalize (w.enqueue message binary).checkWriting o = w' at hc
  intro hcausal
  cases hc with
  | idle hidle => exact hidle ⟨.inr hs, hw, by simp⟩
  | next m rest hs' hw' hq ht =>
    exact hback ((Trace.causal_snoc.mp hcausal).2 _ rfl rfl).1
  | marker m rest hs' hw' hq ht =>
    exact hback ((Trace.causal_snoc.mp hcausal).2 _ rfl rfl).1
  | abandoned m rest hs' hw' hq ht hcas =>
    have hweak : o.weakFails = true := hcas.resolve_left (by simp [hs])
    refine hm ⟨hweak, ?_⟩
    cases hqueue : w.writeQueue with
    | nil =>
      simp only [enqueue_toGWSocket, hqueue, List.nil_append, List.cons.injEq] at hq
      rw [← hq.1] at ht
      cases ht
    | cons x xs =>
      simp only [enqueue_toGWSocket, hqueue, List.cons_append, List.cons.injEq] at hq
      exact ⟨x, xs, rfl, hq.1 ▸ ht⟩

theorem causal_along {w : World} (h : w.Ready) (ha : w.Accounted) {ls : List Step}
    (hu : Machine.Along step Unaliased w ls) :
    Trace.Causal Log.Transferable (w.run ls).log ↔ Machine.Along step HandshakeFirst w ls := by
  induction ls generalizing w with
  | nil => simp [Machine.Along, h.causal]
  | cons s ls ih =>
    by_cases hc : w.HandshakeFirst s
    · rw [run_cons, Machine.Along,
        ih (ready_step h ha s hu.1 hc) (accounted_step ha s hu.1) hu.2]
      simp [hc]
    · simp only [Machine.Along, hc, false_and, iff_false]
      intro hcausal
      obtain ⟨action, o⟩ := s
      simp only [HandshakeFirst, not_forall] at hc
      obtain ⟨message, binary, rfl, hf, hs, hn⟩ := hc
      obtain ⟨hh, hm⟩ := not_or.mp hn
      obtain ⟨added, he⟩ := extends_run (w.step ⟨.write message binary, o⟩) ls
      rw [run_cons, he.log] at hcausal
      exact early_write h ha hf hs hh hm hcausal.left

theorem transfers_after_handshake (kind : SocketClass) (host : Bytes) (port : Nat) (path : Bytes)
    (ls : List Step) (hu : Machine.Along step Unaliased (new kind host port path) ls) :
    Trace.Causal Log.Transferable ((new kind host port path).run ls).log ↔
      Machine.Along step HandshakeFirst (new kind host port path) ls :=
  causal_along (ready_new ..) (accounted_new ..) hu

def closedWhileConnectingRun : List Step :=
  [⟨.openSocket true, {}⟩, ⟨.close, {}⟩, ⟨.write [1] false, {}⟩]

theorem transfers_after_handshake_connected :
    Trace.Causal Log.Transferable ((new .webSocket [] 80 []).run
      (⟨.openSocket true, {}⟩ :: plainConnect 0 1)).log :=
  (transfers_after_handshake .webSocket [] 80 [] (⟨.openSocket true, {}⟩ :: plainConnect 0 1)
    (along_unaliased (accounted_new ..) (lt_of_eq_of_lt (b := 1) (by decide +kernel)
      (by decide)))).mpr (by simp [Machine.Along, HandshakeFirst, plainConnect])

theorem write_before_handshake :
    ((new .webSocket [] 80 []).run closedWhileConnectingRun).fault = true ∧
    ¬ Trace.Causal Log.Transferable
      ((new .webSocket [] 80 []).run closedWhileConnectingRun).log := by
  refine ⟨by decide +kernel, fun h => ?_⟩
  obtain ⟨⟨op, ec, hm, -⟩, -⟩ := h
    [(1, .opened []), (1, .started ⟨.resolve [] (decimal 80), 1, none, []⟩),
      (1, .written [1] false)] (1, .started ⟨.close, 1, none, []⟩) [] (by decide +kernel) _ rfl rfl
  simp at hm

end World
end GWSockets
