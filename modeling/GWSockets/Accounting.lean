import GWSockets.Effect
import Mathlib.Data.List.Count
import Mathlib.Data.List.Perm.Basic

namespace GWSockets

namespace Bag

variable {α : Type*} [BEq α]

theorem forall_mem_erase {P : α → Prop} {l : List α} (h : ∀ x ∈ l, P x) (a : α) :
    ∀ x ∈ l.erase a, P x :=
  fun x hx => h x (List.mem_of_mem_erase hx)

theorem countP_erase_add [LawfulBEq α] (p : α → Bool) {a : α} {l : List α} (h : a ∈ l) :
    (l.erase a).countP p + (if p a then 1 else 0) = l.countP p := by
  rw [(List.perm_cons_erase h).countP_eq p, List.countP_cons]

end Bag

def OperationKind.isRead : OperationKind → Bool
  | .read => true
  | _ => false

def OperationKind.isClose : OperationKind → Bool
  | .close => true
  | _ => false

def Shape : SocketState → Bool → Nat → Nat → Nat → Nat → Prop
  | .disconnected, writing, connects, reads, writes, closes =>
      writing = false ∧ connects = 0 ∧ reads = 0 ∧ writes = 0 ∧ closes = 0
  | .connecting, writing, connects, reads, writes, closes =>
      writing = false ∧ connects = 1 ∧ reads = 0 ∧ writes = 0 ∧ closes = 0
  | .connected, writing, connects, reads, writes, closes =>
      connects = 0 ∧ reads = 1 ∧ writes = writing.toNat ∧ closes = 0
  | .disconnectRequested, writing, connects, reads, writes, closes =>
      connects + reads = 1 ∧ writes = writing.toNat ∧ closes = 0
  | .disconnecting, writing, connects, reads, writes, closes =>
      writing = true ∧ connects + reads ≤ 1 ∧ writes = 0 ∧ closes = 1

def current (generation : Nat) (p : OperationKind → Bool) (op : Operation) : Bool :=
  op.generation == generation && p op.kind

theorem countP_current_past {l : List Operation} {g : Nat} (p : OperationKind → Bool)
    (h : ∀ op ∈ l, op.generation < g) : l.countP (current g p) = 0 := by
  rw [List.countP_eq_zero]
  intro op hop
  have := h op hop
  simp only [current, Bool.and_eq_true, beq_iff_eq, not_and]
  omega

namespace World

def outstanding (w : World) (p : OperationKind → Bool) : Nat :=
  w.pending.countP (current w.generation p)

abbrev Past (w : World) : Prop := ∀ op ∈ w.pending, op.generation ≤ w.generation

structure Accounted (w : World) : Prop where
  past : w.Past
  shape : Shape w.state w.writing (w.outstanding OperationKind.connecting)
    (w.outstanding OperationKind.isRead) (w.outstanding OperationKind.isWrite)
    (w.outstanding OperationKind.isClose)

def Unaliased (w : World) (s : Step) : Prop :=
  ∀ c ∈ s.completion, c.1 ∈ w.pending → w.live c.1 → c.1.generation = w.generation

instance (w : World) (s : Step) : Decidable (w.Unaliased s) :=
  inferInstanceAs (Decidable (∀ c ∈ s.completion, _))

theorem accounted_new (kind : SocketClass) (host : Bytes) (port : Nat) (path : Bytes) :
    (new kind host port path).Accounted :=
  ⟨by simp [Past, new], by simp [new, outstanding, Shape]⟩

theorem accounted_doClose {w : World} (h : w.Past)
    (reason : Bytes) : (w.doClose reason).Accounted := by
  have hlt : ∀ op ∈ (w.doClose reason).pending, op.generation < (w.doClose reason).generation :=
    fun op hop => Nat.lt_succ_of_le (h op hop)
  refine ⟨fun op hop => Nat.le_of_lt (hlt op hop), ?_⟩
  simp only [outstanding, countP_current_past _ hlt]
  simp [Shape]

theorem outstanding_start (w : World) (kind : OperationKind) (p : OperationKind → Bool) :
    (w.start kind).outstanding p = w.outstanding p + if p kind then 1 else 0 := by
  simp [outstanding, current, List.countP_cons]

theorem outstanding_finish {w : World} {op : Operation} (ec : ErrorCode)
    (p : OperationKind → Bool) (hmem : op ∈ w.pending) (hg : op.generation = w.generation) :
    (w.finish op ec).outstanding p + (if p op.kind then 1 else 0) = w.outstanding p := by
  simpa [outstanding, current, hg] using Bag.countP_erase_add (current w.generation p) hmem

theorem outstanding_finish_own {w : World} {op : Operation} (ec : ErrorCode)
    {p : OperationKind → Bool} (hp : p op.kind = true) (hmem : op ∈ w.pending)
    (hg : op.generation = w.generation) : (w.finish op ec).outstanding p + 1 = w.outstanding p := by
  simpa [hp] using outstanding_finish ec p hmem hg

theorem outstanding_finish_other {w : World} {op : Operation} (ec : ErrorCode)
    {p : OperationKind → Bool} (hp : p op.kind = false) (hmem : op ∈ w.pending)
    (hg : op.generation = w.generation) : (w.finish op ec).outstanding p = w.outstanding p := by
  simpa [hp] using outstanding_finish ec p hmem hg

theorem outstanding_finish_past {w : World} {op : Operation} (ec : ErrorCode)
    (p : OperationKind → Bool) (hmem : op ∈ w.pending) (hg : op.generation ≠ w.generation) :
    (w.finish op ec).outstanding p = w.outstanding p := by
  simpa [outstanding, current, hg] using Bag.countP_erase_add (current w.generation p) hmem

theorem outstanding_finish_le {w : World} (op : Operation) (ec : ErrorCode)
    (p : OperationKind → Bool) : (w.finish op ec).outstanding p ≤ w.outstanding p :=
  (List.erase_sublist ..).countP_le

theorem outstanding_pos {w : World} {op : Operation} {p : OperationKind → Bool}
    (hmem : op ∈ w.pending) (hg : op.generation = w.generation) (hp : p op.kind = true) :
    0 < w.outstanding p :=
  List.countP_pos_iff.mpr ⟨op, hmem, by simp [current, hg, hp]⟩

theorem not_of_outstanding {w : World} {op : Operation} {p : OperationKind → Bool}
    (hnone : w.outstanding p = 0) (hmem : op ∈ w.pending) (hg : op.generation = w.generation) :
    p op.kind = false := by
  by_contra hp
  have hpos := outstanding_pos hmem hg (eq_true_of_ne_false hp)
  omega

theorem outstanding_doClose {w : World} (h : w.Past)
    (reason : Bytes) (p : OperationKind → Bool) : (w.doClose reason).outstanding p = 0 :=
  countP_current_past p (fun op hop => Nat.lt_succ_of_le (h op hop))

theorem closing_state {w : World} (ha : w.Accounted)
    (hc : 0 < w.outstanding OperationKind.isClose) :
    w.state = .disconnecting := by
  have hs := ha.shape
  cases hst : w.state <;> simp only [hst, Shape] at hs ⊢ <;> omega

theorem reading_state {w : World} (ha : w.Accounted) (hr : 0 < w.outstanding OperationKind.isRead) :
    w.state ≠ .disconnected ∧ w.state ≠ .connecting := by
  have hs := ha.shape
  cases hst : w.state <;> simp only [hst, Shape] at hs <;> first | omega | simp

theorem reading_le_one {w : World} (ha : w.Accounted) :
    w.outstanding OperationKind.isRead ≤ 1 := by
  have hs := ha.shape
  cases hst : w.state <;> simp only [hst, Shape] at hs <;> omega

theorem closable_busy {w : World} (h : w.state.closable = true) : w.state ≠ .disconnected := by
  intro hs
  simp [hs, SocketState.closable] at h

theorem past_finish {w : World} (h : w.Accounted) (op : Operation) (ec : ErrorCode) :
    ∀ x ∈ (w.finish op ec).pending, x.generation ≤ w.generation :=
  Bag.forall_mem_erase h.past op

theorem past_start {w : World} (h : w.Past)
    (kind : OperationKind) : ∀ x ∈ (w.start kind).pending, x.generation ≤ w.generation := by
  intro x hx
  rcases List.mem_cons.mp hx with rfl | hx
  · exact Nat.le_refl _
  · exact h x hx

theorem past_doClose {w : World} (h : w.Past) (reason : Bytes) : (w.doClose reason).Past :=
  fun x hx => Nat.le_succ_of_le (h x hx)

theorem past_opened {w : World} (h : w.Past) (clear : Bool) (hs : w.state = .disconnected) :
    (w.openSocket clear).Past := by
  intro x hx
  rw [openSocket_pending clear hs] at hx
  rw [openSocket_generation clear hs]
  rcases List.mem_cons.mp hx with rfl | hx
  · exact Nat.le_refl _
  · exact Nat.le_succ_of_le (h x hx)

theorem past_extend {w : World} (h : w.Past) {op : Operation} (bytes : Bytes)
    (hmem : op ∈ w.pending) : (w.extend op bytes).Past := by
  intro x hx
  rcases List.mem_cons.mp hx with rfl | hx
  · exact h op hmem
  · exact h x (List.mem_of_mem_erase hx)

theorem accounted_checkWriting {w : World} (h : w.Accounted) (o : Outcome) :
    (w.checkWriting o).Accounted := by
  have hc := checkWriting_checked w o
  generalize w.checkWriting o = w' at hc
  cases hc with
  | idle => exact h
  | next m rest hstate hwriting =>
    refine ⟨past_start h.past _, ?_⟩
    have hs := h.shape
    simp only [asyncWrite, outstanding_start]
    rcases hstate with hstate | hstate <;>
      simpa [hstate, hwriting, Shape, OperationKind.connecting, OperationKind.isRead,
        OperationKind.isWrite, OperationKind.isClose, outstanding] using hs
  | marker m rest hstate hwriting =>
    refine ⟨past_start h.past _, ?_⟩
    have hs := h.shape
    simp only [asyncCloseSocket, outstanding_start]
    simp only [hstate, hwriting, Shape, Bool.toNat_false] at hs
    obtain ⟨h1, h2, h3⟩ := hs
    exact ⟨rfl, Nat.le_of_eq h1, h2, congrArg (· + 1) h3⟩
  | abandoned m rest =>
    refine accounted_doClose ?_ _
    exact h.past

theorem connecting_only {k : OperationKind} (h : k.connecting = true) :
    k.isRead = false ∧ k.isWrite = false ∧ k.isClose = false := by
  cases k <;> simp_all [OperationKind.connecting, OperationKind.isRead, OperationKind.isWrite,
    OperationKind.isClose]

theorem handshake_connecting {k : OperationKind} (h : k.isHandshake = true) :
    k.connecting = true := by
  cases k <;> simp_all [OperationKind.isHandshake, OperationKind.connecting]

theorem write_only {k : OperationKind} (h : k.isWrite = true) :
    k.connecting = false ∧ k.isRead = false ∧ k.isClose = false := by
  cases k <;> simp_all [OperationKind.connecting, OperationKind.isRead, OperationKind.isWrite,
    OperationKind.isClose]

section effects

variable {w w₁ : World} {op : Operation} {ec : ErrorCode}

theorem accounted_opened (h : w.Accounted) (clear : Bool) (hs : w.state = .disconnected) :
    (w.openSocket clear).Accounted := by
  have hlt : ∀ x ∈ w.pending, x.generation < w.generation + 1 :=
    fun x hx => Nat.lt_succ_of_le (h.past x hx)
  have hs' := h.shape
  rw [hs] at hs'
  constructor
  · exact past_opened h.past clear hs
  · simp only [outstanding, openSocket_toGWSocket clear hs, openSocket_pending clear hs,
      List.countP_cons, countP_current_past _ hlt]
    simp [Shape, current, hs'.1, OperationKind.connecting, OperationKind.isRead,
      OperationKind.isWrite, OperationKind.isClose]

theorem outstanding_extend (bytes : Bytes) (hmem : op ∈ w.pending) (p : OperationKind → Bool) :
    (w.extend op bytes).outstanding p = w.outstanding p := by
  rw [outstanding, extend, List.countP_cons, outstanding,
    ← Bag.countP_erase_add (current w.generation p) hmem]
  rfl

theorem accounted_extend (h : w.Accounted) (bytes : Bytes) (hmem : op ∈ w.pending) :
    (w.extend op bytes).Accounted := by
  refine ⟨past_extend h.past bytes hmem, ?_⟩
  simp only [outstanding_extend bytes hmem]
  exact h.shape

theorem accounted_stale (h : w.Accounted) (hmem : op ∈ w.pending)
    (hg : op.generation ≠ w.generation) :
    (w.finish op ec).Accounted := by
  refine ⟨past_finish h op ec, ?_⟩
  simp only [outstanding_finish_past ec _ hmem hg]
  exact h.shape

theorem settled_past (h : w.Accounted) (hw : w.Settled op ec w₁) : w₁.Past := by
  rcases hw with rfl | ⟨-, rfl⟩ <;> exact past_finish h op ec

theorem settled_outstanding (hw : w.Settled op ec w₁) (p : OperationKind → Bool) :
    w₁.outstanding p = (w.finish op ec).outstanding p := by
  rcases hw with rfl | ⟨-, rfl⟩ <;> rfl

theorem settled_writing (hw : w.Settled op ec w₁) : w₁.writing = w.writing := by
  rcases hw with rfl | ⟨-, rfl⟩ <;> rfl

theorem accounted_dropped (h : w.Accounted) (hmem : op ∈ w.pending)
    (hg : op.generation = w.generation) (hkind : op.kind ≠ .close)
    (hstate : w.state.closable = false) (hw : w.Settled op ec w₁) : w₁.Accounted := by
  refine ⟨settled_past h hw, ?_⟩
  have hs := h.shape
  have hc := outstanding_finish ec OperationKind.connecting hmem hg
  have hr := outstanding_finish ec OperationKind.isRead hmem hg
  have hwr := outstanding_finish ec OperationKind.isWrite hmem hg
  have hcl := outstanding_finish ec OperationKind.isClose hmem hg
  have hk : op.kind.isClose = false := by cases hk : op.kind <;> simp_all [OperationKind.isClose]
  simp only [settled_outstanding hw, settled_writing hw, hw.state]
  cases hst : w.state <;> simp only [hst, SocketState.closable, Shape] at hs hstate ⊢
  all_goals simp_all
  all_goals omega

theorem accounted_advanced (h : w.Accounted) (hmem : op ∈ w.pending)
    (hg : op.generation = w.generation) (hop : op.kind.connecting = true) {kind : OperationKind}
    (hkind : kind.connecting = true)
    (hw : w₁ = (w.finish op ec).renew ∨ w₁ = w.finish op ec) : (w₁.start kind).Accounted := by
  have hpast : w₁.Past := by
    rcases hw with rfl | rfl <;> exact past_finish h op ec
  have hout : ∀ p, w₁.outstanding p = (w.finish op ec).outstanding p := by
    rcases hw with rfl | rfl <;> intro p <;> rfl
  have hst : w₁.state = w.state ∧ w₁.writing = w.writing := by
    rcases hw with rfl | rfl <;> exact ⟨rfl, rfl⟩
  have hfin : ∀ p, p op.kind = p kind → (w₁.start kind).outstanding p = w.outstanding p := by
    intro p hp
    rw [outstanding_start, hout, ← hp, outstanding_finish ec p hmem hg]
  obtain ⟨r1, r2, r3⟩ := connecting_only hop
  obtain ⟨k1, k2, k3⟩ := connecting_only hkind
  refine ⟨past_start hpast kind, ?_⟩
  rw [hfin _ (hop.trans hkind.symm), hfin _ (r1.trans k1.symm), hfin _ (r2.trans k2.symm),
    hfin _ (r3.trans k3.symm)]
  simpa [hst] using h.shape

theorem outstanding_establish (p : OperationKind → Bool) :
    w.establish.outstanding p = w.outstanding p + if p .read then 1 else 0 :=
  outstanding_start _ _ p

theorem outstanding_deliver (p : OperationKind → Bool) :
    w.deliver.outstanding p = w.outstanding p + if p .read then 1 else 0 :=
  outstanding_start _ _ p

theorem accounted_connected (h : w.Accounted) (hmem : op ∈ w.pending)
    (hg : op.generation = w.generation) (hop : op.kind.connecting = true)
    (hs : w.state = .connecting) : (w.finish op ec).establish.Accounted := by
  obtain ⟨r1, r2, r3⟩ := connecting_only hop
  have hshape := h.shape
  rw [hs] at hshape
  obtain ⟨h1, h2, h3, h4, h5⟩ := hshape
  refine ⟨past_start (past_finish h op ec) _, ?_⟩
  have hc := outstanding_finish_own ec (p := OperationKind.connecting) hop hmem hg
  have hr := outstanding_finish_other ec (p := OperationKind.isRead) r1 hmem hg
  have hw := outstanding_finish_other ec (p := OperationKind.isWrite) r2 hmem hg
  have hcl := outstanding_finish_other ec (p := OperationKind.isClose) r3 hmem hg
  simp only [outstanding_establish, hr, hw, hcl]
  simp [Shape, h1, h3, h4, h5, OperationKind.connecting, OperationKind.isRead,
    OperationKind.isWrite, OperationKind.isClose]
  omega

theorem accounted_message (h : w.Accounted) (hmem : op ∈ w.pending)
    (hg : op.generation = w.generation) (hkind : op.kind = .read) :
    (w.finish op ec).deliver.Accounted := by
  refine ⟨past_start (past_finish h op ec) _, ?_⟩
  have hout : ∀ p, (w.finish op ec).deliver.outstanding p = w.outstanding p := by
    intro p
    rw [outstanding_deliver, ← hkind, outstanding_finish ec p hmem hg]
  simp only [hout]
  exact h.shape

theorem accounted_drained (h : w.Accounted) (hmem : op ∈ w.pending)
    (hg : op.generation = w.generation) (hkind : op.kind.isWrite = true) :
    (w.finish op ec).release.Accounted := by
  obtain ⟨r1, r2, r3⟩ := write_only hkind
  refine ⟨past_finish h op ec, ?_⟩
  have hs := h.shape
  have hc := outstanding_finish_other ec (p := OperationKind.connecting) r1 hmem hg
  have hr := outstanding_finish_other ec (p := OperationKind.isRead) r2 hmem hg
  have hw := outstanding_finish_own ec (p := OperationKind.isWrite) hkind hmem hg
  have hcl := outstanding_finish_other ec (p := OperationKind.isClose) r3 hmem hg
  show Shape w.state false ((w.finish op ec).outstanding _) ((w.finish op ec).outstanding _)
    ((w.finish op ec).outstanding _) ((w.finish op ec).outstanding _)
  rw [hc, hr, hcl]
  have hle := Bool.toNat_le w.writing
  cases hst : w.state <;> simp only [hst, Shape, Bool.toNat_false] at hs ⊢ <;> omega

theorem accounted_requested (h : w.Accounted)
    (hs : w.state = .connecting ∨ w.state = .connected) : w.request.Accounted := by
  have hshape := h.shape
  refine ⟨h.past, ?_⟩
  show Shape .disconnectRequested w.writing (w.outstanding _) (w.outstanding _) (w.outstanding _)
    (w.outstanding _)
  rcases hs with hs | hs
  · rw [hs] at hshape
    obtain ⟨h1, h2, h3, h4, h5⟩ := hshape
    simp [Shape, h1, h2, h3, h4, h5]
  · rw [hs] at hshape
    obtain ⟨h1, h2, h3, h4⟩ := hshape
    simp [Shape, h1, h2, h3, h4]

end effects

theorem accounted_step {w : World} (h : w.Accounted) (s : Step) (hu : w.Unaliased s) :
    (w.step s).Accounted := by
  have he := step_effect w s
  generalize w.step s = w' at he
  cases he with
  | idle => exact h
  | configured => exact ⟨h.past, h.shape⟩
  | opened clear o hs => exact accounted_opened h clear hs
  | written message binary o =>
    refine accounted_checkWriting ?_ o
    exact ⟨h.past, h.shape⟩
  | cleared => exact ⟨h.past, h.shape⟩
  | requested o hs => exact accounted_requested h (.inl hs)
  | requestedConnected o hs => exact accounted_checkWriting (accounted_requested h (.inr hs)) o
  | closedNow reason => exact accounted_doClose h.past reason
  | taken => exact ⟨h.past, h.shape⟩
  | received op bytes o hmem => exact accounted_extend h bytes hmem
  | verified => exact ⟨h.past, h.shape⟩
  | rejected error o message =>
    refine accounted_doClose ?_ message
    exact h.past
  | stale op ec o hmem hlive =>
    exact accounted_stale h hmem (fun hg => hlive (by rw [live, hg]))
  | dropped op ec o w₁ hmem hlive hkind hcause hstate hw =>
    exact accounted_dropped h hmem (hu (op, ec) rfl hmem hlive) hkind hstate hw
  | shut op ec o reason =>
    refine accounted_doClose ?_ reason
    exact past_finish h op ec
  | failed op ec o w₁ message hmem hlive hkind hcause hstate hw =>
    refine accounted_doClose ?_ message
    exact fun x hx => settled_past h hw x hx
  | advanced op ec o w₁ kind hmem hlive hec hop hlast hkind hw =>
    exact accounted_advanced h hmem (hu (op, ec) rfl hmem hlive) hop hkind (hw.imp id And.right)
  | connected op ec o hmem hlive hec hkind hstate =>
    exact accounted_checkWriting (accounted_connected h hmem (hu (op, ec) rfl hmem hlive)
      (handshake_connecting hkind) hstate) o
  | message op ec o hmem hlive hec hkind =>
    exact accounted_message h hmem (hu (op, ec) rfl hmem hlive) hkind
  | drained op ec o hmem hlive hec hkind =>
    exact accounted_checkWriting (accounted_drained h hmem (hu (op, ec) rfl hmem hlive) hkind) o

theorem past_checkWriting {w : World} (h : w.Past) (o : Outcome) : (w.checkWriting o).Past := by
  have hc := checkWriting_checked w o
  generalize w.checkWriting o = w' at hc
  cases hc with
  | idle => exact h
  | next m rest => exact past_start (w := { w with
      writing := true, writeQueue := rest, messageToWrite := m.message }) h _
  | marker m rest => exact past_start (w := { w with
      writing := true, writeQueue := rest, state := .disconnecting }) h _
  | abandoned m rest => exact past_doClose (w := { w with
      writing := true, writeQueue := rest }) h _

theorem past_step {w : World} (h : w.Past) (s : Step) : (w.step s).Past := by
  have hfin : ∀ op ec, (w.finish op ec).Past := fun op ec => Bag.forall_mem_erase h op
  have hset : ∀ op ec w₁, w.Settled op ec w₁ → w₁.Past := by
    rintro op ec w₁ (rfl | ⟨-, rfl⟩) <;> exact hfin op ec
  have he := step_effect w s
  generalize w.step s = w' at he
  cases he with
  | opened clear o hs => exact past_opened h clear hs
  | written message binary o => exact past_checkWriting (w := w.enqueue message binary) h o
  | requestedConnected o => exact past_checkWriting (w := w.request) h o
  | closedNow reason => exact past_doClose h reason
  | received op bytes o hmem => exact past_extend h bytes hmem
  | rejected error o message =>
    exact past_doClose (w := (w.emit (.verified w.ws error false)).put ⟨.error, message⟩) h message
  | stale op ec => exact hfin op ec
  | dropped op ec o w₁ hmem hlive hkind hcause hstate hw => exact hset op ec _ hw
  | shut op ec o reason => exact past_doClose (hfin op ec) reason
  | failed op ec o w₁ message hmem hlive hkind hcause hstate hw =>
    exact past_doClose (w := w₁.put ⟨.error, message⟩) (hset op ec w₁ hw) message
  | advanced op ec o w₁ kind hmem hlive hec hop hlast hkind hw =>
    refine past_start ?_ kind
    rcases hw with rfl | ⟨-, rfl⟩ <;> exact hfin op ec
  | connected op ec o =>
    exact past_checkWriting (w := (w.finish op ec).establish) (past_start (hfin op ec) _) o
  | message op ec => exact past_start (w := w.finish op ec) (hfin op ec) .read
  | drained op ec o => exact past_checkWriting (w := (w.finish op ec).release) (hfin op ec) o
  | _ => exact h

theorem past_run {w : World} (h : w.Past) (ls : List Step) : (w.run ls).Past :=
  Machine.always_invariant (I := Past)
    (fun _ s hv => past_step hv s) h ls

theorem accounted_run {w : World} (h : w.Accounted) {ls : List Step}
    (hu : Machine.Along step Unaliased w ls) : (w.run ls).Accounted :=
  Machine.run_invariant (I := Accounted) (fun _ s hv hok => accounted_step hv s hok) h hu

end World
end GWSockets
