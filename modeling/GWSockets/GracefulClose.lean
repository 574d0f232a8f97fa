import GWSockets.Handshake
import GWSockets.Marker

namespace GWSockets

def Closing (g : Nat) (e : Nat × Event) : Prop :=
  (e.1 = g ∧ ∃ op, e.2 = .started op ∧ op.kind = .close) ∨ e.1 = g + 1 ∧ ∃ d, e.2 = .closed d

def writeCompleted (g : Nat) : Nat × Event → Bool
  | (h, .completed op ec) => h == g && op.generation == g && op.kind.isWrite && !ec.failed
  | _ => false

def Log.writesCompleted (g : Nat) (log : Log) : Nat := log.countP (writeCompleted g)

structure Calm (g : Nat) (e : Nat × Event) : Prop where
  handed : e.2.handed = none
  closing : ¬ Closing g e
  completed : writeCompleted g e = false

abbrev DueFirst (g : Nat) (due : List (Bytes × Bool)) (before : Log) (e : Nat × Event) : Prop :=
  Closing g e → due <+: (Log.during g before).handed

structure Drained (g : Nat) (due : List (Bytes × Bool)) (added : Log) : Prop where
  first : Trace.Causal (DueFirst g due) added
  done : due <+: (Log.during g added).handed

theorem handed_prefix_append (g : Nat) (xs ys : Log) :
    (Log.during g xs).handed <+: (Log.during g (xs ++ ys)).handed := by
  rw [during_append, handed_append]
  exact List.prefix_append _ _

theorem Drained.append {g : Nat} {due : List (Bytes × Bool)} {added : Log}
    (h : Drained g due added) (new : Log) : Drained g due (added ++ new) := by
  induction new generalizing added with
  | nil => simpa using h
  | cons e new ih =>
    rw [← List.singleton_append, ← List.append_assoc]
    exact ih ⟨Trace.causal_snoc.mpr ⟨h.first, fun _ => h.done⟩,
      h.done.trans (handed_prefix_append g added [e])⟩

theorem calm_handed {g : Nat} {added new : Log} (h : ∀ e ∈ new, Calm g e) :
    (Log.during g (added ++ new)).handed = (Log.during g added).handed :=
  handed_during_quiet (fun e he => (h e he).handed)

theorem calm_completed {g : Nat} {added new : Log} (h : ∀ e ∈ new, Calm g e) :
    Log.writesCompleted g (added ++ new) = added.writesCompleted g := by
  have hz : new.countP (writeCompleted g) = 0 :=
    List.countP_eq_zero.mpr (fun e he => by simp [(h e he).completed])
  rw [Log.writesCompleted, List.countP_append, hz]
  rfl

theorem unclosed_first {g : Nat} {due : List (Bytes × Bool)} {log : Log}
    (h : ∀ e ∈ log, ¬ Closing g e) : Trace.Causal (DueFirst g due) log := by
  rintro before e later rfl
  exact fun hc => absurd hc (h e (by simp))

namespace World

def Disturbs (w : World) (s : Step) : Prop :=
  (∃ reason, s.action = .closeNow reason) ∨ s.action = .clearQueue ∨
    (∃ error, s.action = .verify error ∧ error ≠ .ok) ∨
    (∃ c ∈ s.completion, c.1 ∈ w.pending ∧ c.1.generation = w.generation ∧ c.2.failed = true) ∨
    s.outcome.weakFails = true

def Undisturbed (g : Nat) (w : World) (s : Step) : Prop := w.generation = g → ¬ w.Disturbs s

structure Delivering (g : Nat) (due : List (Bytes × Bool)) (v : World) (added : Log) : Prop where
  first : Trace.Causal (DueFirst g due) added
  served : due.take (added.writesCompleted g) <+: (Log.during g added).handed
  progress : v.generation = g → due <+: (Log.during g added).handed ∨
    ∃ op ∈ v.pending, op.generation = g ∧ op.kind.isWrite = true

structure Draining (g : Nat) (due : List (Bytes × Bool)) (v : World) (added : Log) : Prop where
  accounted : v.Accounted
  generation : v.generation = g
  state : v.state = .disconnectRequested
  writing : v.writing = true
  settled : v.outstanding OperationKind.connecting = 0
  queue : ∃ rest m later, v.writeQueue = rest ++ m :: later ∧ m.type = .disconnect ∧
    (∀ x ∈ rest, x.type = .message) ∧ (Log.during g added).handed ++ outbound rest = due
  served : added.writesCompleted g ≤ (Log.during g added).handed.length
  unclosed : ∀ e ∈ added, ¬ Closing g e

theorem Draining.delivering {g : Nat} {due : List (Bytes × Bool)} {v : World} {added : Log}
    (h : Draining g due v added) : Delivering g due v added := by
  obtain ⟨rest, m, later, -, -, -, hdue⟩ := h.queue
  refine ⟨unclosed_first h.unclosed, ?_, fun _ => .inr ?_⟩
  · rw [← hdue, List.take_append_of_le_length h.served]
    exact List.take_prefix _ _
  · have hshape := h.accounted.shape
    rw [h.state, h.writing] at hshape
    have hpos : 0 < v.outstanding OperationKind.isWrite := by
      rw [hshape.2.1]
      decide
    obtain ⟨op, hm, hop⟩ := List.countP_pos_iff.mp hpos
    simp only [current, Bool.and_eq_true, beq_iff_eq] at hop
    exact ⟨op, hm, hop.1.trans h.generation, hop.2⟩

theorem delivering_of_drained {g : Nat} {due : List (Bytes × Bool)} {added : Log}
    (h : Drained g due added) (v : World) : Delivering g due v added :=
  ⟨h.first, (List.take_prefix _ _).trans h.done, fun _ => .inl h.done⟩

theorem draining_same {g : Nat} {due : List (Bytes × Bool)} {v v' : World} {added new : Log}
    (h : Draining g due v added) (hnew : ∀ e ∈ new, Calm g e)
    (hg : v'.generation = v.generation) (hs : v'.state = v.state) (hw : v'.writing = v.writing)
    (hq : ∃ more, v'.writeQueue = v.writeQueue ++ more) (ha : v'.Accounted)
    (hc : v'.outstanding OperationKind.connecting ≤ v.outstanding OperationKind.connecting) :
    Draining g due v' (added ++ new) := by
  obtain ⟨rest, m, later, hqueue, hm, hrest, hdue⟩ := h.queue
  obtain ⟨more, hmore⟩ := hq
  have hsettled := h.settled
  refine ⟨ha, hg.trans h.generation, hs.trans h.state, hw.trans h.writing, by omega,
    ⟨rest, m, later ++ more, by simp [hmore, hqueue], hm, hrest, ?_⟩, ?_, ?_⟩
  · rw [calm_handed hnew]
    exact hdue
  · rw [calm_handed hnew, calm_completed hnew]
    exact h.served
  · intro e he
    exact (List.mem_append.mp he).elim (h.unclosed e) (fun he => (hnew e he).closing)

theorem checkWriting_writing {w : World} (h : w.writing = true) (o : Outcome) :
    w.checkWriting o = w := by
  simp [checkWriting, h]

section served

variable {g : Nat} {due : List (Bytes × Bool)} {v : World} {added : Log} {op : Operation}
  {ec : ErrorCode} {m : GWSocketMessageOut} {later : List GWSocketMessageOut}

theorem draining_next (h : Draining g due v added) (hgen : op.generation = v.generation)
    (hec : ec.failed = false) (hkind : op.kind.isWrite = true) (hq : v.writeQueue = m :: later)
    (ht : m.type = .message)
    (ha : ({ (v.finish op ec).release with writing := true, writeQueue := later }.asyncWrite
      m.message m.binary).Accounted) :
    Draining g due ({ (v.finish op ec).release with
        writing := true, writeQueue := later }.asyncWrite m.message m.binary)
      (added ++ [(v.generation, .completed op ec),
        (v.generation, .started ⟨.write m.message m.binary, v.generation, v.ws, []⟩)]) := by
  obtain ⟨rest, d, behind, hqueue, hd, hrest, hdue⟩ := h.queue
  obtain ⟨rest₀, rfl, rfl⟩ := queue_message (hqueue.symm.trans hq) hd ht
  have hhanded : (Log.during g (added ++ [(v.generation, .completed op ec),
      (v.generation, .started ⟨.write m.message m.binary, v.generation, v.ws, []⟩)])).handed =
      (Log.during g added).handed ++ [(m.message, m.binary)] := by
    simp [Log.during, Log.handed, Event.handed, h.generation]
  refine ⟨ha, h.generation, h.state, rfl, ?_, ⟨rest₀, d, behind, rfl, hd,
    fun x hx => hrest x (by simp [hx]), ?_⟩, ?_, ?_⟩
  · have hle := outstanding_finish_le (w := v) op ec OperationKind.connecting
    have hz := h.settled
    rw [asyncWrite, outstanding_start]
    simp only [OperationKind.connecting, Bool.false_eq_true, if_false, Nat.add_zero]
    exact Nat.eq_zero_of_le_zero (hz ▸ hle)
  · rw [hhanded, ← hdue, outbound_cons_message ht, List.append_assoc]
    rfl
  · rw [hhanded, List.length_append, Log.writesCompleted, List.countP_append]
    refine Nat.add_le_add h.served ?_
    simp only [List.countP_cons, List.countP_nil, writeCompleted, Bool.false_eq_true, if_false]
    simp [hgen, h.generation, hkind, hec]
  · intro e he
    simp only [List.mem_append, List.mem_cons, List.not_mem_nil, or_false] at he
    rcases he with he | rfl | rfl
    · exact h.unclosed e he
    · simp [Closing]
    · simp [Closing]

theorem drained_marker (h : Draining g due v added) (hq : v.writeQueue = m :: later)
    (ht : m.type = .disconnect) : Drained g due (added ++ [(v.generation, .completed op ec)]) := by
  obtain ⟨rest, d, behind, hqueue, hd, hrest, hdue⟩ := h.queue
  obtain rfl := queue_disconnect (hqueue.symm.trans hq) hrest ht
  have hdone : due <+: (Log.during g added).handed := by
    rw [← hdue]
    simp [outbound]
  refine ⟨unclosed_first ?_, hdone.trans (handed_prefix_append g added _)⟩
  intro e he
  rcases List.mem_append.mp he with he | he
  · exact h.unclosed e he
  · rw [List.mem_singleton.mp he]
    simp [Closing]

theorem draining_drained {o : Outcome} (h : Draining g due v added)
    (hgen : op.generation = v.generation) (hec : ec.failed = false)
    (hkind : op.kind.isWrite = true) (hweak : o.weakFails = false)
    (ha : ((v.finish op ec).release.checkWriting o).Accounted) :
    ∃ new, ((v.finish op ec).release.checkWriting o).log = v.log ++ new ∧
      (Draining g due ((v.finish op ec).release.checkWriting o) (added ++ new) ∨
        Drained g due (added ++ new)) := by
  have hc := checkWriting_checked (v.finish op ec).release o
  generalize (v.finish op ec).release.checkWriting o = w' at hc ha
  cases hc with
  | idle hidle =>
    obtain ⟨rest, d, behind, hqueue, -⟩ := h.queue
    refine absurd ⟨.inr h.state, rfl, ?_⟩ hidle
    show v.writeQueue ≠ []
    simp [hqueue]
  | next m later hs hw hq ht =>
    exact ⟨[(v.generation, .completed op ec), (v.generation, .started
      ⟨.write m.message m.binary, v.generation, v.ws, []⟩)], by simp [asyncWrite],
      .inl (draining_next h hgen hec hkind hq ht ha)⟩
  | marker m later hs hw hq ht =>
    refine ⟨[(v.generation, .completed op ec), (v.generation, .started
      ⟨.close, v.generation, v.ws, []⟩)], by simp [asyncCloseSocket], .inr ?_⟩
    rw [← List.singleton_append, ← List.append_assoc]
    exact (drained_marker h hq ht).append _
  | abandoned m later hs hw hq ht hcas =>
    have hst : v.state = .connected ∨ o.weakFails = true := hcas
    simp [h.state, hweak] at hst

end served

theorem calm_of_quiet {g h : Nat} {e : Event} (hq : e.quiet = true)
    (hc : writeCompleted g (h, e) = false) : Calm g (h, e) := by
  refine ⟨handed_of_quiet hq, ?_, hc⟩
  rintro (⟨-, op, rfl, hk⟩ | ⟨-, d, rfl⟩)
  · simp [Event.quiet, hk, OperationKind.isClose] at hq
  · simp [Event.quiet] at hq

theorem calm_stale {g n : Nat} {op : Operation} (h : op.generation ≠ g) (ec : ErrorCode) :
    Calm g (n, .completed op ec) :=
  calm_of_quiet rfl (by simp [writeCompleted, h])

theorem calm_read {g n : Nat} {op next : Operation} (hop : op.kind = .read)
    (hnext : next.kind = .read) (ec : ErrorCode) (m : GWSocketMessageIn) :
    ∀ e ∈ [(n, Event.completed op ec), (n, .put m), (n, .started next)], Calm g e := by
  intro e he
  simp only [List.mem_cons, List.not_mem_nil, or_false] at he
  rcases he with rfl | rfl | rfl
  · exact calm_of_quiet rfl (by simp [writeCompleted, hop, OperationKind.isWrite])
  · exact calm_of_quiet rfl rfl
  · refine calm_of_quiet ?_ rfl
    simp [Event.quiet, hnext, OperationKind.isClose, OperationKind.isWrite]

theorem draining_step {g : Nat} {due : List (Bytes × Bool)} {v : World} {added : Log}
    (h : Draining g due v added) (s : Step) (hu : v.Unaliased s) (hd : ¬ v.Disturbs s) :
    ∃ new, (v.step s).log = v.log ++ new ∧
      (Draining g due (v.step s) (added ++ new) ∨ Drained g due (added ++ new)) := by
  have ha := accounted_step h.accounted s hu
  have hshape := h.accounted.shape
  rw [h.state, h.settled] at hshape
  have hstate := h.state
  have hopen : v.state.closable = true := by simp [hstate, SocketState.closable]
  have hconn : ∀ op ∈ v.pending, op.generation = v.generation → op.kind.connecting = false :=
    fun _ hm hg => not_of_outstanding h.settled hm hg
  have hsame : ∀ {v' : World} {new : Log}, v'.log = v.log ++ new → (∀ e ∈ new, Calm g e) →
      v'.generation = v.generation → v'.state = v.state → v'.writing = v.writing →
      v'.writeQueue = v.writeQueue → v'.Accounted →
      v'.outstanding OperationKind.connecting ≤ v.outstanding OperationKind.connecting →
      ∃ new, v'.log = v.log ++ new ∧
        (Draining g due v' (added ++ new) ∨ Drained g due (added ++ new)) :=
    fun hlog hnew hg hs hw hq ha hc =>
      ⟨_, hlog, .inl (draining_same h hnew hg hs hw ⟨[], by rw [hq, List.append_nil]⟩ ha hc)⟩
  have he := step_effect v s
  generalize v.step s = w' at he ha
  cases he with
  | idle => exact hsame (List.append_nil _).symm (by simp) rfl rfl rfl rfl ha (Nat.le_refl _)
  | configured =>
    exact hsame (List.append_nil _).symm (by simp) rfl rfl rfl rfl ha (Nat.le_refl _)
  | opened clear o hs => simp [hstate] at hs
  | written message binary o =>
    rw [checkWriting_writing (w := v.enqueue message binary) h.writing] at ha ⊢
    refine ⟨_, enqueue_log v message binary, .inl ?_⟩
    refine draining_same h ?_ rfl rfl rfl ⟨_, rfl⟩ ha (Nat.le_refl _)
    simp only [List.mem_singleton, forall_eq]
    exact ⟨rfl, by simp [Closing], rfl⟩
  | cleared => exact absurd (.inr (.inl rfl)) hd
  | requested o hs => simp [hstate] at hs
  | requestedConnected o hs => simp [hstate] at hs
  | closedNow reason => exact absurd (.inl ⟨reason, rfl⟩) hd
  | taken =>
    exact hsame (List.append_nil _).symm (by simp) rfl rfl rfl rfl ha (Nat.le_refl _)
  | received op bytes o hmem =>
    exact hsame (List.append_nil _).symm (by simp) rfl rfl rfl rfl ha
      (Nat.le_of_eq (outstanding_extend bytes hmem _))
  | verified error o accepted =>
    refine hsame (emit_log v _) ?_ rfl rfl rfl rfl ha (Nat.le_refl _)
    simp only [List.mem_singleton, forall_eq]
    exact calm_of_quiet rfl rfl
  | rejected error o message hok => exact absurd (.inr (.inr (.inl ⟨error, rfl, hok⟩))) hd
  | stale op ec o hmem hlive =>
    refine hsame (finish_log v op ec) ?_ rfl rfl rfl rfl ha (outstanding_finish_le _ _ _)
    simp only [List.mem_singleton, forall_eq]
    refine calm_stale ?_ ec
    rintro rfl
    exact hlive (by rw [live, h.generation])
  | dropped op ec o w₁ hmem hlive hkind hcause hs hw => simp [hopen] at hs
  | shut op ec o reason hmem hlive hcause =>
    have hg := hu (op, ec) rfl hmem hlive
    rcases hcause with hf | hk | hk
    · exact absurd (.inr (.inr (.inr (.inl ⟨(op, ec), rfl, hmem, hg, hf⟩)))) hd
    · have hn := hconn op hmem hg
      simp [handshake_connecting hk] at hn
    · have hpos : 0 < v.outstanding OperationKind.isClose :=
        outstanding_pos hmem hg (by rw [hk]; rfl)
      simp [closing_state h.accounted hpos] at hstate
  | failed op ec o w₁ message hmem hlive hkind hcause =>
    have hg := hu (op, ec) rfl hmem hlive
    rcases hcause with hf | hk
    · exact absurd (.inr (.inr (.inr (.inl ⟨(op, ec), rfl, hmem, hg, hf⟩)))) hd
    · simp [hconn op hmem hg] at hk
  | advanced op ec o w₁ kind hmem hlive hec hop =>
    simp [hconn op hmem (hu (op, ec) rfl hmem hlive)] at hop
  | connected op ec o hmem hlive hec hkind hs => simp [hstate] at hs
  | message op ec o hmem hlive hec hkind =>
    have hlog : (v.finish op ec).deliver.log = v.log ++ [(v.generation, .completed op ec),
        (v.generation, .put ⟨.message, v.readBuffer⟩),
        (v.generation, .started ⟨.read, v.generation, v.ws, []⟩)] := by simp
    refine hsame hlog (calm_read hkind rfl ec _) rfl rfl rfl rfl ha ?_
    rw [outstanding_deliver]
    exact outstanding_finish_le _ _ _
  | drained op ec o hmem hlive hec hkind =>
    have hweak : o.weakFails = false := by
      by_contra hw
      exact hd (.inr (.inr (.inr (.inr (eq_true_of_ne_false hw)))))
    exact draining_drained h (hu (op, ec) rfl hmem hlive) hec hkind hweak ha

theorem draining_run {g : Nat} (hb : g < 2 ^ 32) {due : List (Bytes × Bool)} {v : World}
    {added : Log} (h : Draining g due v added ∨ Drained g due added) {later : List Step}
    (hl : Machine.Along step (Undisturbed g) v later) :
    ∃ new, (v.run later).log = v.log ++ new ∧
      (Draining g due (v.run later) (added ++ new) ∨ Drained g due (added ++ new)) := by
  induction later generalizing v added with
  | nil => exact ⟨[], (List.append_nil _).symm, by simpa using h⟩
  | cons s later ih =>
    have hstep : ∃ new, (v.step s).log = v.log ++ new ∧
        (Draining g due (v.step s) (added ++ new) ∨ Drained g due (added ++ new)) := by
      rcases h with h | h
      · have hu := unaliased_of_lt h.accounted (h.generation ▸ hb) s
        exact draining_step h s hu (hl.1 h.generation)
      · obtain ⟨new, he⟩ := extends_step v s
        exact ⟨new, he.log, .inr (h.append new)⟩
    obtain ⟨xs, hx, hd⟩ := hstep
    obtain ⟨ys, hy, hd'⟩ := ih hd hl.2
    refine ⟨xs ++ ys, by rw [run_cons, hy, hx, List.append_assoc], ?_⟩
    rw [← List.append_assoc]
    exact hd'

theorem close_connected {w : World} {o : Outcome} (hf : w.fault = false)
    (hs : w.state = .connected) : w.step ⟨.close, o⟩ = w.request.checkWriting o := by
  simp [step, hf, close, hs, request]

theorem close_connecting {w : World} {o : Outcome} (hf : w.fault = false)
    (hs : w.state = .connecting) : w.step ⟨.close, o⟩ = w.request := by
  simp [step, hf, close, hs, request]

theorem draining_close {w : World} {o : Outcome} (ha : w.Accounted) (hm : w.Marked 0)
    (hf : w.fault = false) (hs : w.state = .connected) (hweak : o.weakFails = false) :
    ∃ new, (w.step ⟨.close, o⟩).log = w.log ++ new ∧
      (Draining w.generation (outbound w.writeQueue) (w.step ⟨.close, o⟩) new ∨
        Drained w.generation (outbound w.writeQueue) new) := by
  have hshape := ha.shape
  rw [hs] at hshape
  have hz : w.request.outstanding OperationKind.connecting = 0 := hshape.1
  have hnone : markers w.writeQueue = 0 := hm.otherwise (by simp [hs])
  have hmessage : ∀ x ∈ w.writeQueue, x.type = .message := fun x hx => message_of_unmarked hnone hx
  have hacc := accounted_checkWriting (accounted_requested ha (.inr hs)) o
  rw [close_connected hf hs]
  have hc := checkWriting_checked w.request o
  generalize w.request.checkWriting o = w' at hc hacc
  cases hc with
  | idle hidle =>
    have hw : w.writing = true := by
      by_contra hw
      exact hidle ⟨.inr rfl, by simpa using hw, by simp⟩
    exact ⟨[], (List.append_nil _).symm, .inl ⟨hacc, rfl, rfl, hw, hz,
      ⟨w.writeQueue, _, [], rfl, rfl, hmessage, rfl⟩, Nat.le_refl _, by simp⟩⟩
  | next m' rest' hst hw hq ht =>
    obtain ⟨rest₀, hrest₀, rfl⟩ := queue_message (hq : w.writeQueue ++ _ = _) rfl ht
    refine ⟨[(w.generation, .started ⟨.write m'.message m'.binary, w.generation, w.ws, []⟩)], rfl,
      .inl ⟨hacc, rfl, rfl, rfl, ?_, ⟨rest₀, _, [], rfl, rfl, ?_, ?_⟩, Nat.zero_le _, ?_⟩⟩
    · rw [asyncWrite, outstanding_start]
      exact hz
    · exact fun x hx => hmessage x (hrest₀ ▸ List.mem_cons_of_mem _ hx)
    · rw [hrest₀, outbound_cons_message ht]
      simp [Log.during, Log.handed, Event.handed]
    · simp [Closing]
  | marker m' rest' hst hw hq ht =>
    have hnil := queue_disconnect (hq : w.writeQueue ++ _ = _) hmessage ht
    refine ⟨_, rfl, .inr ?_⟩
    rw [hnil]
    exact ⟨fun _ _ _ _ _ => List.nil_prefix, List.nil_prefix⟩
  | abandoned m' rest' hst hw hq ht hcas =>
    exact absurd hcas (by simp [hweak])

def Streamed (w : World) : Prop :=
  ∀ op ∈ w.pending, op.kind.connecting = true → op.kind.usesStream = true → w.ws.isSome = true

theorem streamed_start {w : World} {k : OperationKind} (h : w.Streamed)
    (hk : k.connecting = true → w.ws.isSome = true) : (w.start k).Streamed := by
  intro op hm hc hu
  rcases List.mem_cons.mp hm with rfl | hm
  · exact hk hc
  · exact h op hm hc hu

theorem streamed_finish {w : World} (h : w.Streamed) (op : Operation) (ec : ErrorCode) :
    (w.finish op ec).Streamed := fun x hx => h x (List.mem_of_mem_erase hx)

theorem streamed_doClose {w : World} (h : w.Streamed) (reason : Bytes) :
    (w.doClose reason).Streamed := h

theorem streamed_checkWriting {w : World} (h : w.Streamed) (o : Outcome) :
    (w.checkWriting o).Streamed := by
  have hc := checkWriting_checked w o
  generalize w.checkWriting o = w' at hc
  cases hc with
  | idle => exact h
  | next m rest =>
    exact streamed_start (w := { w with
      writing := true, writeQueue := rest, messageToWrite := m.message }) h
      (by simp [OperationKind.connecting])
  | marker m rest =>
    exact streamed_start (w := { w with
      writing := true, writeQueue := rest, state := .disconnecting }) h
      (by simp [OperationKind.connecting])
  | abandoned => exact h

theorem streamed_step {w : World} (h : w.Streamed) (s : Step) : (w.step s).Streamed := by
  have he := step_effect w s
  generalize w.step s = w' at he
  cases he with
  | opened clear o hs =>
    intro op hm hc hu
    rw [openSocket_pending clear hs] at hm
    rw [openSocket_toGWSocket clear hs]
    rcases List.mem_cons.mp hm with rfl | hm
    · simp [OperationKind.usesStream] at hu
    · exact h op hm hc hu
  | written message binary o => exact streamed_checkWriting (w := w.enqueue message binary) h o
  | requestedConnected o => exact streamed_checkWriting (w := w.request) h o
  | received op bytes o hmem =>
    intro x hm hc hu
    rcases List.mem_cons.mp hm with rfl | hm
    · exact h op hmem hc hu
    · exact h x (List.mem_of_mem_erase hm) hc hu
  | stale op ec => exact streamed_finish h op ec
  | dropped op ec o w₁ hmem hlive hkind hcause hstate hw =>
    rcases hw with rfl | ⟨-, rfl⟩
    · exact streamed_finish h op ec
    · exact fun _ _ _ _ => rfl
  | shut op ec o reason => exact streamed_doClose (streamed_finish h op ec) reason
  | failed op ec o w₁ message hmem hlive hkind hcause hstate hw =>
    refine streamed_doClose (w := w₁.put ⟨.error, message⟩) ?_ message
    rcases hw with rfl | ⟨-, rfl⟩
    · exact streamed_finish h op ec
    · exact fun _ _ _ _ => rfl
  | closedNow reason => exact streamed_doClose h reason
  | rejected error o message =>
    exact streamed_doClose (w := (w.emit (.verified w.ws error false)).put ⟨.error, message⟩)
      h message
  | advanced op ec o w₁ kind hmem hlive hec hop hlast hkind hw =>
    rcases hw with rfl | ⟨hk, rfl⟩
    · exact streamed_start (w := (w.finish op ec).renew) (fun _ _ _ _ => rfl) (fun _ => rfl)
    · refine streamed_start (streamed_finish h op ec) (fun _ => h op hmem hop ?_)
      exact usesStream_of_ne_resolve hk
  | connected op ec o =>
    refine streamed_checkWriting (w := (w.finish op ec).establish) ?_ o
    exact streamed_start (w := w.finish op ec) (k := .read) (streamed_finish h op ec)
      (by simp [OperationKind.connecting])
  | message op ec o =>
    exact streamed_start (w := w.finish op ec) (k := .read) (streamed_finish h op ec)
      (by simp [OperationKind.connecting])
  | drained op ec o =>
    exact streamed_checkWriting (w := (w.finish op ec).release) (streamed_finish h op ec) o
  | _ => exact h

theorem streamed_run {w : World} (h : w.Streamed) (ls : List Step) : (w.run ls).Streamed :=
  Machine.always_invariant (I := Streamed) (fun _ s hv => streamed_step hv s) h ls

end World

def OperationKind.remaining : OperationKind → Nat
  | .resolve _ _ => 3
  | .connect => 2
  | .sslHandshake _ _ => 1
  | _ => 0

namespace World

def succeeding (op : Operation) : Step := ⟨.complete op ⟨.success, []⟩, {}⟩

theorem succeeding_undisturbed (w : World) (g : Nat) (op : Operation) :
    w.Undisturbed g (succeeding op) := by
  rintro - (⟨reason, h⟩ | h | ⟨error, h, -⟩ | ⟨c, hc, -, -, hf⟩ | h)
  · simp [succeeding] at h
  · simp [succeeding] at h
  · simp [succeeding] at h
  · obtain rfl := Option.some.inj hc
    simp [ErrorCode.failed] at hf
  · simp [succeeding] at h

theorem step_succeeding {w : World} {op : Operation} (hf : w.fault = false)
    (hmem : op ∈ w.pending) (hg : op.generation = w.generation) :
    w.step (succeeding op) = (w.finish op ⟨.success, []⟩).invoke op ⟨.success, []⟩ {} := by
  simp [step, hf, succeeding, complete, hmem, guardGeneration, hg]

theorem asyncConnect_start (w : World) : w.asyncConnect {} = w.renew.start .connect := by
  rcases asyncConnect_eq w {} with h | ⟨h, -⟩
  · exact h
  · simp at h

structure Advanced (w : World) (op : Operation) (v : World) (kind : OperationKind) : Prop where
  step : w.step (succeeding op) = v.start kind
  same : v.toGWSocket = { w.toGWSocket with ws := v.ws }
  fault : v.fault = false
  stream : v.ws.isSome = true
  log : v.log = w.log ++ [(w.generation, .completed op ⟨.success, []⟩)]
  connecting : kind.connecting = true
  remaining : kind.remaining < op.kind.remaining

theorem chain_advances {w : World} {op : Operation} (hf : w.fault = false)
    (hmem : op ∈ w.pending) (hg : op.generation = w.generation) (hk : op.kind.connecting = true)
    (hlast : op.kind.isHandshake = false)
    (hws : op.kind.usesStream = true → w.ws.isSome = true) : ∃ v kind, Advanced w op v kind := by
  have hok : (⟨.success, []⟩ : ErrorCode).failed = false := rfl
  have hstep := step_succeeding hf hmem hg
  have hstay : op.kind.usesStream = true → ∀ kind, kind.connecting = true →
      kind.remaining < op.kind.remaining →
      w.step (succeeding op) = (w.finish op ⟨.success, []⟩).start kind →
      ∃ v kind, Advanced w op v kind :=
    fun hu kind hc hr hs => ⟨_, kind, hs, rfl, hf, hws hu, rfl, hc, hr⟩
  cases hkind : op.kind with
  | resolve host service =>
    refine ⟨(w.finish op ⟨.success, []⟩).renew, .connect, ?_, rfl, hf, rfl, rfl, rfl, ?_⟩
    · rw [hstep, invoke, hkind]
      simp only [hostResolvedStep, hok, Bool.false_eq_true, not_false_eq_true, if_true]
      exact asyncConnect_start _
    · simp [hkind, OperationKind.remaining]
  | connect =>
    rw [invoke, hkind] at hstep
    simp only [socketConnected, hok, Bool.false_eq_true, not_false_eq_true, if_true,
      asyncHandshake] at hstep
    split at hstep <;> exact hstay (by rw [hkind]; rfl) _ rfl
      (by simp [hkind, OperationKind.remaining]) hstep
  | sslHandshake host path =>
    rw [invoke, hkind] at hstep
    simp only [sslHandshakeComplete, hok, Bool.false_eq_true, not_false_eq_true,
      if_true] at hstep
    exact hstay (by rw [hkind]; rfl) _ rfl (by simp [hkind, OperationKind.remaining]) hstep
  | handshake host path fields => simp [hkind, OperationKind.isHandshake] at hlast
  | read => simp [hkind, OperationKind.connecting] at hk
  | write message binary => simp [hkind, OperationKind.connecting] at hk
  | close => simp [hkind, OperationKind.connecting] at hk

theorem handshake_closes {w : World} {op : Operation} (hf : w.fault = false)
    (hs : w.state = .disconnectRequested) (hmem : op ∈ w.pending)
    (hg : op.generation = w.generation) (hk : op.kind.isHandshake = true) :
    w.step (succeeding op) =
      (w.finish op ⟨.success, []⟩).doClose (ascii "No reason specified") := by
  have hok : (⟨.success, []⟩ : ErrorCode).failed = false := rfl
  rw [step_succeeding hf hmem hg]
  cases hkind : op.kind <;> simp only [hkind, OperationKind.isHandshake, Bool.false_eq_true] at hk
  simp [invoke, hkind, handshakeCompleted, hok, hs, closeNow_snd, SocketState.closable]

theorem handed_connecting {op : Operation} (h : op.kind.connecting = true) :
    (Event.started op).handed = none := by
  cases hk : op.kind <;> simp_all [Event.handed, OperationKind.connecting]

theorem chain_closes {n : Nat} {w : World} {op : Operation} (hn : op.kind.remaining = n)
    (hf : w.fault = false) (hs : w.state = .disconnectRequested) (hmem : op ∈ w.pending)
    (hg : op.generation = w.generation) (hk : op.kind.connecting = true)
    (hws : op.kind.usesStream = true → w.ws.isSome = true) :
    ∃ later, Machine.Along step (Undisturbed w.generation) w later ∧
      ∃ before e after, (w.run later).log = w.log ++ (before ++ e :: after) ∧
        Closing w.generation e ∧ (Log.during w.generation before).handed = [] := by
  induction n using Nat.strongRecOn generalizing w op with
  | ind n ih =>
    by_cases hlast : op.kind.isHandshake = true
    · refine ⟨[succeeding op], ⟨succeeding_undisturbed w _ op, trivial⟩,
        [(w.generation, .completed op ⟨.success, []⟩)],
        (w.generation + 1, .closed (outbound w.writeQueue)),
        [(w.generation + 1, .put ⟨.disconnected, ascii "No reason specified"⟩)], ?_,
        .inr ⟨rfl, _, rfl⟩, ?_⟩
      · show (w.step (succeeding op)).log = _
        rw [handshake_closes hf hs hmem hg hlast, doClose_log, finish_log, List.append_assoc]
        rfl
      · simp [Log.during, Log.handed, Event.handed]
    · obtain ⟨v, kind, hv⟩ := chain_advances hf hmem hg hk (by simpa using hlast) hws
      have hgen : v.generation = w.generation := by rw [hv.same]
      have hstate : v.state = .disconnectRequested := by rw [hv.same]; exact hs
      have hstream := hv.stream
      have hfault : (v.start kind).fault = false := by
        show (v.fault || v.ws.isNone) = false
        cases hsome : v.ws <;> simp [hsome, hv.fault] at hstream ⊢
      obtain ⟨later, hl, before, e, after, hlog, he, hh⟩ :=
        @ih kind.remaining (hn ▸ hv.remaining) (v.start kind) ⟨kind, v.generation, v.ws, []⟩ rfl
          hfault hstate (by simp) rfl hv.connecting (fun _ => hstream)
      have hstart : (v.start kind).generation = w.generation := hgen
      rw [hstart] at hl he hh
      refine ⟨succeeding op :: later, ⟨succeeding_undisturbed w _ op, hv.step ▸ hl⟩,
        [(w.generation, .completed op ⟨.success, []⟩),
          (w.generation, .started ⟨kind, v.generation, v.ws, []⟩)] ++ before, e, after, ?_, he, ?_⟩
      · rw [run_cons, hv.step, hlog, start_log, hv.log, hgen]
        simp
      · have hquiet : (Log.during w.generation [(w.generation, .completed op ⟨.success, []⟩),
            (w.generation, .started ⟨kind, v.generation, v.ws, []⟩)]).handed = [] := by
          refine List.filterMap_eq_nil_iff.mpr (fun x hx => ?_)
          have hx' := (List.mem_filter.mp hx).1
          simp only [List.mem_cons, List.not_mem_nil, or_false] at hx'
          rcases hx' with rfl | rfl
          · rfl
          · exact handed_connecting hv.connecting
        rw [during_append, handed_append, hquiet, hh]
        rfl

theorem close_delivers (kind : SocketClass) (host : Bytes) (port : Nat) (path : Bytes)
    (ls : List Step) (o : Outcome) (hb : ((new kind host port path).run ls).generation < 2 ^ 32)
    (hf : ((new kind host port path).run ls).fault = false) (hweak : o.weakFails = false)
    (hc : (((new kind host port path).run ls).close o).1 = true) :
    let w := (new kind host port path).run ls
    (∀ later, Machine.Along step (Undisturbed w.generation) (w.step ⟨.close, o⟩) later →
      ∃ added, ((w.step ⟨.close, o⟩).run later).log = w.log ++ added ∧
        Delivering w.generation (outbound w.writeQueue) ((w.step ⟨.close, o⟩).run later) added) ↔
      w.state = .connected ∨ outbound w.writeQueue = [] := by
  intro w
  have ha₀ := accounted_new kind host port path
  have ha : w.Accounted := accounted_run ha₀ (along_unaliased ha₀ hb)
  constructor
  · intro hall
    refine (close_accepted hc).symm.imp id (fun hs => ?_)
    have hshape := ha.shape
    rw [hs] at hshape
    have hpos : 0 < w.outstanding OperationKind.connecting := by
      rw [hshape.2.1]
      decide
    obtain ⟨op, hmem, hop⟩ := List.countP_pos_iff.mp hpos
    simp only [current, Bool.and_eq_true, beq_iff_eq] at hop
    have hstreamed : w.Streamed := streamed_run (by simp [Streamed, new]) ls
    obtain ⟨later, hl, before, e, after, hlog, he, hh⟩ := chain_closes (w := w.request) rfl hf rfl
      hmem hop.1 hop.2 (hstreamed op hmem hop.2)
    rw [close_connecting hf hs] at hall
    obtain ⟨added, hadded, hd⟩ := hall later hl
    obtain rfl := List.append_cancel_left (hlog.symm.trans hadded)
    have hdue := hd.first before e after rfl he
    rw [request_toGWSocket] at hh
    rw [hh] at hdue
    exact List.prefix_nil.mp hdue
  · intro hcond later hl
    have hstart : ∃ new, (w.step ⟨.close, o⟩).log = w.log ++ new ∧
        (Draining w.generation (outbound w.writeQueue) (w.step ⟨.close, o⟩) new ∨
          Drained w.generation (outbound w.writeQueue) new) := by
      rcases hcond with hs | hq
      · exact draining_close ha (marked_always (marked_new ..) ls) hf hs hweak
      · obtain ⟨new, he⟩ := extends_step w ⟨.close, o⟩
        refine ⟨new, he.log, .inr ?_⟩
        rw [hq]
        exact ⟨fun _ _ _ _ _ => List.nil_prefix, List.nil_prefix⟩
    obtain ⟨xs, hx, hd⟩ := hstart
    obtain ⟨ys, hy, hd'⟩ := draining_run hb hd hl
    refine ⟨xs ++ ys, by rw [hy, hx, List.append_assoc], ?_⟩
    exact hd'.elim Draining.delivering (fun h => delivering_of_drained h _)

def closedConnectedRun : List Step :=
  ⟨.openSocket true, {}⟩ :: plainConnect 0 1 ++ [⟨.write [1] false, {}⟩, ⟨.write [2] false, {}⟩]

theorem close_delivers_connected :
    let w := (new .webSocket [] 80 []).run closedConnectedRun
    outbound w.writeQueue = [([2], false)] ∧ ∀ later,
      Machine.Along step (Undisturbed w.generation) (w.step ⟨.close, {}⟩) later →
      ∃ added, ((w.step ⟨.close, {}⟩).run later).log = w.log ++ added ∧
        Delivering w.generation (outbound w.writeQueue) ((w.step ⟨.close, {}⟩).run later) added :=
  ⟨by decide +kernel, (close_delivers .webSocket [] 80 [] closedConnectedRun {}
    (lt_of_eq_of_lt (b := 1) (by decide +kernel) (by decide)) (by decide +kernel) rfl
    (by decide +kernel)).mpr (by decide +kernel)⟩

def closedEarlyRun : List Step := [⟨.openSocket true, {}⟩, ⟨.write [1] false, {}⟩]

theorem close_discards_queued :
    let w := (new .webSocket [] 80 []).run closedEarlyRun
    let v := (w.step ⟨.close, {}⟩).run (plainConnect 0 1)
    (w.close {}).1 = true ∧ outbound w.writeQueue = [([1], false)] ∧ v.log.handed = [] ∧
      v.state = .disconnected ∧ v.log.closed = [([1], false)] ∧
      v.log.puts = [⟨.disconnected, ascii "No reason specified"⟩] := by
  decide +kernel

end World
end GWSockets
