import GWSockets.History

namespace GWSockets
namespace World

def Inert (w : World) (op : Operation) : Prop := ∀ ec o, w.complete op ec o = w.finish op ec

def CloseNowTerminates (w : World) (reason : Bytes) : Prop :=
  let w' := (w.closeNow reason).2
  (w.state = .disconnected → w' = w) ∧
    (w.state ≠ .disconnected →
      w'.state = .disconnected ∧ w'.writing = false ∧ w'.writeQueue = [] ∧
      w'.messageQueue.backingQueue = w.messageQueue.backingQueue ++ [⟨.disconnected, reason⟩] ∧
      ∀ op ∈ w.pending, w'.Inert op)

def Wrapped (w : World) : Prop :=
  ∃ op ∈ w.pending, (w.generation + 1) % 2 ^ 32 = op.generation % 2 ^ 32 ∧
    op.kind.isHandshake = false ∧ op.kind.isWrite = false

instance (w : World) : Decidable w.Wrapped := inferInstanceAs (Decidable (∃ op ∈ w.pending, _))

section handlers

variable {w : World} {op : Operation}

theorem complete_live (hmem : op ∈ w.pending) (hl : w.live op) (ec : ErrorCode) (o : Outcome) :
    w.complete op ec o = (w.finish op ec).invoke op ec o := by
  rw [complete, if_pos hmem, guardGeneration, if_pos (by simpa [live] using hl)]

theorem inert_of_not_live (hmem : op ∈ w.pending) (hl : ¬ w.live op) : w.Inert op := by
  intro ec o
  rw [complete, if_pos hmem, guardGeneration, if_neg (by simpa [live] using hl)]

theorem closeNow_disconnected (hs : w.state = .disconnected) (reason : Bytes) :
    (w.closeNow reason).2 = w := by
  simp [closeNow_snd, hs, SocketState.closable]

theorem errorConnection_disconnected (hs : w.state = .disconnected) (message : Bytes) :
    (w.errorConnection message).2 = w := by
  simp [errorConnection_snd, hs, SocketState.closable]

theorem inert_disconnected (hmem : op ∈ w.pending) (hs : w.state = .disconnected)
    (hw : w.writing = false) (hk : op.kind.isHandshake = true ∨ op.kind.isWrite = true) :
    w.Inert op := by
  intro ec o
  by_cases hl : w.live op
  · have hfin : (w.finish op ec).state = .disconnected := hs
    rw [complete_live hmem hl]
    cases hkind : op.kind <;> simp only [hkind, OperationKind.isHandshake,
      OperationKind.isWrite, Bool.false_eq_true, or_self] at hk
    · simp [invoke, hkind, handshakeCompleted, hs, closeNow_disconnected hfin,
        errorConnection_disconnected hfin]
    · have hrel : (w.finish op ec).release = w.finish op ec := by
        rw [release, ← hw]
        rfl
      simp only [invoke, hkind, onWrite, closeNow_disconnected hfin,
        errorConnection_disconnected hfin, ite_self, ite_eq_right_iff]
      intro hec
      show (w.finish op ec).release.checkWriting o = w.finish op ec
      rw [hrel]
      exact checkWriting_blocked (by simp [hs]) (by simp [hs]) o
  · exact inert_of_not_live hmem hl ec o

theorem asyncConnect_streams (hs : w.state = .disconnected) (o : Outcome) :
    (w.asyncConnect o).streams = w.streams + 1 := by
  rcases asyncConnect_eq w o with h | ⟨-, h⟩ <;> rw [h]
  · rfl
  · have hr : w.renew.state = .disconnected := hs
    rw [errorConnection_disconnected hr]
    rfl

theorem start_ne (w : World) (kind : OperationKind) : w.start kind ≠ w := by
  intro h
  have hlen := congrArg (fun v => v.pending.length) h
  simp at hlen

theorem not_inert_disconnected (hmem : op ∈ w.pending) (hs : w.state = .disconnected)
    (hl : w.live op) (hh : op.kind.isHandshake = false) (hw : op.kind.isWrite = false) :
    ¬ w.Inert op := by
  intro hin
  have h := hin ⟨.success, []⟩ {}
  rw [complete_live hmem hl] at h
  have hok : (⟨.success, []⟩ : ErrorCode).failed = false := rfl
  have hfin : (w.finish op ⟨.success, []⟩).state = .disconnected := hs
  cases hkind : op.kind with
  | resolve host service =>
    simp only [invoke, hkind, hostResolvedStep, hok, Bool.false_eq_true, not_false_eq_true,
      if_true] at h
    have hstreams := congrArg World.streams h
    rw [asyncConnect_streams hfin] at hstreams
    omega
  | connect =>
    simp only [invoke, hkind, socketConnected, hok, Bool.false_eq_true, not_false_eq_true,
      if_true, asyncHandshake] at h
    split at h <;> exact start_ne _ _ h
  | sslHandshake host path =>
    simp only [invoke, hkind, sslHandshakeComplete, hok, Bool.false_eq_true, not_false_eq_true,
      if_true] at h
    exact start_ne _ _ h
  | handshake host path fields => simp [hkind, OperationKind.isHandshake] at hh
  | read =>
    simp only [invoke, hkind, onRead, hok, Bool.false_eq_true, not_false_eq_true, if_true] at h
    have hlen := congrArg (fun v => v.log.length) h
    simp [asyncRead] at hlen
  | write message binary => simp [hkind, OperationKind.isWrite] at hw
  | close =>
    simp only [invoke, hkind, onDisconnected] at h
    have hgen := congrArg (fun v => v.generation) h
    simp at hgen

end handlers

theorem closeNow_terminates {w : World} (reason : Bytes) :
    w.CloseNowTerminates reason ↔
      w.state ≠ .disconnecting ∧ (w.state ≠ .disconnected → ¬ w.Wrapped) := by
  unfold CloseNowTerminates
  rw [closeNow_snd]
  cases hc : w.state.closable with
  | false =>
    have hs : w.state = .disconnected ∨ w.state = .disconnecting := by
      cases hst : w.state <;> simp [hst, SocketState.closable] at hc ⊢
    rcases hs with hs | hs <;> simp [hs]
  | true =>
    have hs : w.state ≠ .disconnecting := by
      intro hs
      simp [hs, SocketState.closable] at hc
    have hd := closable_busy hc
    have hlive : ∀ op : Operation, (w.doClose reason).live op ↔
        (w.generation + 1) % 2 ^ 32 = op.generation % 2 ^ 32 := fun _ => Iff.rfl
    simp only [if_true, hd, hs, ne_eq, not_false_eq_true, true_and, forall_const, false_implies]
    constructor
    · rintro ⟨-, -, -, -, hin⟩ ⟨op, hmem, hg, hh, hw⟩
      exact not_inert_disconnected (w := w.doClose reason) hmem rfl ((hlive op).mpr hg) hh hw
        (hin op hmem)
    · intro hwrap
      refine ⟨rfl, rfl, rfl, rfl, fun op hmem => ?_⟩
      by_cases hl : (w.doClose reason).live op
      · refine inert_disconnected hmem rfl rfl ?_
        by_contra hk
        simp only [not_or, Bool.not_eq_true] at hk
        exact hwrap ⟨op, hmem, (hlive op).mp hl, hk⟩
      · exact inert_of_not_live hmem hl

theorem inert_after {w v : World} {op : Operation} (hle : op.generation ≤ w.generation)
    (hlt : w.generation < v.generation) (hb : v.generation < op.generation + 2 ^ 32)
    (hmem : op ∈ v.pending) : v.Inert op := by
  refine inert_of_not_live hmem ?_
  rw [live]
  omega

theorem closeNow_terminates_iff (kind : SocketClass) (host : Bytes) (port : Nat) (path : Bytes)
    (ls : List Step) (reason : Bytes) :
    let w := (new kind host port path).run ls
    (w.CloseNowTerminates reason ↔
      w.state ≠ .disconnecting ∧ (w.state ≠ .disconnected → ¬ w.Wrapped)) ∧
    (w.state.closable = true → ∀ later, ∀ op ∈ w.pending,
      op ∈ ((w.closeNow reason).2.run later).pending →
      ((w.closeNow reason).2.run later).generation < op.generation + 2 ^ 32 →
      ((w.closeNow reason).2.run later).Inert op) := by
  intro w
  refine ⟨closeNow_terminates reason, fun hc later op hop hmem hb => ?_⟩
  have hpast : w.Past := past_run (by simp [Past, new]) ls
  have hle := generation_le_run (w.closeNow reason).2 later
  have hg : (w.closeNow reason).2.generation = w.generation + 1 := by
    rw [closeNow_snd, if_pos hc]
    rfl
  exact inert_after (hpast op hop) (by omega) hb hmem

def closingRun : List Step :=
  ⟨.openSocket true, {}⟩ :: plainConnect 0 1 ++ [⟨.close, {}⟩]

theorem closeNow_terminates_connected :
    ((new .webSocket [] 80 []).run (⟨.openSocket true, {}⟩ :: plainConnect 0 1)).CloseNowTerminates
      [7] :=
  (closeNow_terminates_iff .webSocket [] 80 [] (⟨.openSocket true, {}⟩ :: plainConnect 0 1)
    [7]).1.mpr (by decide +kernel)

theorem closeNow_ignored :
    let w := (new .webSocket [] 80 []).run closingRun
    w.state = .disconnecting ∧ w.closeNow [7] = (false, w) ∧ w.writing = true ∧
      ¬ w.CloseNowTerminates [7] := by
  refine ⟨by decide +kernel, by decide +kernel, by decide +kernel, fun h => ?_⟩
  have hs := (h.2 (by decide +kernel)).1
  revert hs
  decide +kernel

end World
end GWSockets
