import GWSockets.History

namespace GWSockets

theorem kind_cases (k : OperationKind) :
    ((if k.connecting = true then 1 else 0) + (if k.isRead = true then 1 else 0)) +
      ((if k.isWrite = true then 1 else 0) + (if k.isClose = true then 1 else 0)) = 1 := by
  cases k <;> rfl

theorem countP_kinds (g : Nat) (l : List Operation) :
    l.countP (current g (fun _ => true)) =
      (l.countP (current g OperationKind.connecting) + l.countP (current g OperationKind.isRead)) +
        (l.countP (current g OperationKind.isWrite) +
          l.countP (current g OperationKind.isClose)) := by
  induction l with
  | nil => rfl
  | cons op l ih =>
    have hk := kind_cases op.kind
    cases hg : op.generation == g with
    | false => simpa [List.countP_cons, current, hg] using ih
    | true =>
      simp only [List.countP_cons, current, hg, Bool.true_and, if_true, ih]
      omega

namespace World

structure Outstanding (w : World) : Prop where
  connects : w.outstanding OperationKind.connecting ≤ 1
  reads : w.outstanding OperationKind.isRead ≤ 1
  writing : w.writing = true ↔
    w.outstanding OperationKind.isWrite + w.outstanding OperationKind.isClose = 1
  exclusive : w.outstanding OperationKind.isWrite + w.outstanding OperationKind.isClose ≤ 1
  closing : 0 < w.outstanding OperationKind.isClose ↔ w.state = .disconnecting
  connected : w.state = .connected →
    w.outstanding OperationKind.isRead = 1 ∧ w.outstanding OperationKind.connecting = 0
  busy : w.state ≠ .disconnected → 0 < w.outstanding (fun _ => true)
  idle : w.state = .disconnected → w.outstanding (fun _ => true) = 0

theorem outstanding_kinds (w : World) : w.outstanding (fun _ => true) =
    (w.outstanding OperationKind.connecting + w.outstanding OperationKind.isRead) +
    (w.outstanding OperationKind.isWrite + w.outstanding OperationKind.isClose) :=
  countP_kinds w.generation w.pending

theorem Accounted.outstanding {w : World} (h : w.Accounted) : w.Outstanding := by
  have hs := h.shape
  have hall := w.outstanding_kinds
  have hw : w.writing.toNat = 1 ↔ w.writing = true := by cases w.writing <;> decide
  have hle := Bool.toNat_le w.writing
  cases hst : w.state <;> simp only [hst, Shape] at hs
  case disconnected =>
    obtain ⟨hf, h1, h2, h3, h4⟩ := hs
    constructor <;> simp_all
  case connecting =>
    obtain ⟨hf, h1, h2, h3, h4⟩ := hs
    constructor <;> simp_all
  case connected =>
    obtain ⟨h1, h2, h3, h4⟩ := hs
    exact ⟨by omega, by omega, by simp [h3, h4, hw], by omega, by simp [h4, hst],
      fun _ => ⟨h2, h1⟩, fun _ => by omega, by simp [hst]⟩
  case disconnectRequested =>
    obtain ⟨h1, h3, h4⟩ := hs
    exact ⟨by omega, by omega, by simp [h3, h4, hw], by omega, by simp [h4, hst], by simp [hst],
      fun _ => by omega, by simp [hst]⟩
  case disconnecting =>
    obtain ⟨h1, h2, h3, h4⟩ := hs
    exact ⟨by omega, by omega, by simp [h1, h3, h4], by omega, by simp [h4, hst], by simp [hst],
      fun _ => by omega, by simp [hst]⟩

theorem outstanding_accounted (kind : SocketClass) (host : Bytes) (port : Nat) (path : Bytes)
    (ls : List Step) (hb : ((new kind host port path).run ls).generation < 2 ^ 32) :
    ((new kind host port path).run ls).Outstanding :=
  (accounted_run (accounted_new ..) (along_unaliased (accounted_new ..) hb)).outstanding

theorem outstanding_accounted_connected :
    ((new .webSocket [] 80 []).run (⟨.openSocket true, {}⟩ :: plainConnect 0 1)).Outstanding :=
  outstanding_accounted .webSocket [] 80 [] (⟨.openSocket true, {}⟩ :: plainConnect 0 1)
    (lt_of_eq_of_lt (b := 1) (by decide +kernel) (by decide))

end World
end GWSockets
