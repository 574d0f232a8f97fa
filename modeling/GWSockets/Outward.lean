import GWSockets.History

namespace GWSockets

def Event.quiet : Event → Bool
  | .started op => !(op.kind.isWrite || op.kind.isClose)
  | .put _ | .completed _ _ | .verified _ _ _ => true
  | _ => false

def Event.discardedByClear : Event → Option (List (Bytes × Bool))
  | .cleared discarded | .opened discarded => some discarded
  | _ => none

def Event.discardedByClose : Event → Option (List (Bytes × Bool))
  | .closed discarded => some discarded
  | _ => none

theorem handed_of_quiet {e : Event} (h : e.quiet = true) : e.handed = none := by
  cases e with
  | started op => cases hk : op.kind <;> simp_all [Event.quiet, Event.handed, OperationKind.isWrite]
  | _ => rfl

theorem cleared_of_quiet {e : Event} (h : e.quiet = true) : e.discardedByClear = none := by
  cases e <;> simp_all [Event.quiet, Event.discardedByClear]

theorem closed_of_quiet {e : Event} (h : e.quiet = true) : e.discardedByClose = none := by
  cases e <;> simp_all [Event.quiet, Event.discardedByClose]

namespace World

structure Quiet (w w' : World) (added : Log) : Prop where
  log : w'.log = w.log ++ added
  quiet : ∀ e ∈ added, e.1 = w.generation ∧ e.2.quiet = true
  generation : w'.generation = w.generation
  queue : w'.writeQueue = w.writeQueue

theorem Quiet.refl (w : World) : Quiet w w [] := ⟨by simp, by simp, rfl, rfl⟩

theorem Quiet.trans {u v w : World} {xs ys : Log} (h : Quiet u v xs) (h' : Quiet v w ys) :
    Quiet u w (xs ++ ys) := by
  refine ⟨by rw [h'.log, h.log, List.append_assoc], ?_, h'.generation.trans h.generation,
    h'.queue.trans h.queue⟩
  intro e he
  rcases List.mem_append.mp he with he | he
  · exact h.quiet e he
  · exact h.generation ▸ h'.quiet e he

theorem quiet_finish (w : World) (op : Operation) (ec : ErrorCode) :
    Quiet w (w.finish op ec) [(w.generation, .completed op ec)] :=
  ⟨rfl, by simp [Event.quiet], rfl, rfl⟩

theorem quiet_settled {w w₁ : World} {op : Operation} {ec : ErrorCode} (h : w.Settled op ec w₁) :
    Quiet w w₁ [(w.generation, .completed op ec)] := by
  rcases h with rfl | ⟨-, rfl⟩ <;> exact ⟨rfl, by simp [Event.quiet], rfl, rfl⟩

theorem quiet_put (w : World) (m : GWSocketMessageIn) :
    Quiet w (w.put m) [(w.generation, .put m)] := ⟨rfl, by simp [Event.quiet], rfl, rfl⟩

theorem quiet_start (w : World) {kind : OperationKind} (h : kind.connecting = true) :
    Quiet w (w.start kind) [(w.generation, .started ⟨kind, w.generation, w.ws, []⟩)] := by
  obtain ⟨-, h2, h3⟩ := connecting_only h
  exact ⟨rfl, by simp [Event.quiet, h2, h3], rfl, rfl⟩

def Closes (w : World) (s : Step) : Prop :=
  (∃ reason, s.action = .closeNow reason) ∨ (∃ error, s.action = .verify error ∧ error ≠ .ok) ∨
    ∃ op ec, s.action = .complete op ec ∧ op ∈ w.pending ∧ w.live op ∧
      (ec.failed = true ∨ op.kind.connecting = true ∨ op.kind = .close)

inductive Outward (w : World) (s : Step) : World → Prop where
  | same (v : World) (added : Log) (hq : Quiet w v added) (hs : v.state = w.state)
      (hw : v.writing = w.writing) : Outward w s v
  | opened (clear : Bool) (ha : s.action = .openSocket clear) (hs : w.state = .disconnected) :
      Outward w s (w.openSocket clear)
  | written (message : Bytes) (binary : Bool) (ha : s.action = .write message binary) :
      Outward w s ((w.enqueue message binary).checkWriting s.outcome)
  | cleared (ha : s.action = .clearQueue) : Outward w s w.forget
  | requested (ha : s.action = .close) (hs : w.state = .connecting) : Outward w s w.request
  | requestedConnected (ha : s.action = .close) (hs : w.state = .connected) :
      Outward w s (w.request.checkWriting s.outcome)
  | closed (v : World) (added : Log) (reason : Bytes) (hq : Quiet w v added)
      (hcause : w.Closes s) : Outward w s (v.doClose reason)
  | connected (v : World) (added : Log) (hq : Quiet w v added) (hs : w.state = .connecting)
      (hv : v.state = .connected) (hw : v.writing = w.writing) :
      Outward w s (v.checkWriting s.outcome)
  | drained (v : World) (added : Log) (hq : Quiet w v added) (hs : v.state = w.state)
      (hw : v.writing = false) : Outward w s (v.checkWriting s.outcome)

theorem step_outward (w : World) (s : Step) : Outward w s (w.step s) := by
  have he := step_effect w s
  generalize w.step s = w' at he
  cases he with
  | idle => exact .same w [] (.refl w) rfl rfl
  | configured => exact .same _ [] ⟨(List.append_nil _).symm, by simp, rfl, rfl⟩ rfl rfl
  | opened clear o hs => exact .opened clear rfl hs
  | written message binary o => exact .written message binary rfl
  | cleared => exact .cleared rfl
  | requested o hs => exact .requested rfl hs
  | requestedConnected o hs => exact .requestedConnected rfl hs
  | closedNow reason => exact .closed w [] reason (.refl w) (.inl ⟨reason, rfl⟩)
  | taken => exact .same _ [] ⟨(List.append_nil _).symm, by simp, rfl, rfl⟩ rfl rfl
  | received => exact .same _ [] ⟨(List.append_nil _).symm, by simp, rfl, rfl⟩ rfl rfl
  | verified error o accepted =>
    exact .same _ [(w.generation, .verified w.ws error accepted)]
      ⟨rfl, by simp [Event.quiet], rfl, rfl⟩ rfl rfl
  | rejected error o message hok =>
    have hv : Quiet w (w.emit (.verified w.ws error false))
        [(w.generation, .verified w.ws error false)] := ⟨rfl, by simp [Event.quiet], rfl, rfl⟩
    exact .closed _ _ message (hv.trans (quiet_put _ _)) (.inr (.inl ⟨error, rfl, hok⟩))
  | stale op ec => exact .same _ _ (quiet_finish w op ec) rfl rfl
  | dropped op ec o w₁ hmem hlive hkind hcause hstate hw =>
    exact .same _ _ (quiet_settled hw) hw.state (settled_writing hw)
  | shut op ec o reason hmem hlive hcause =>
    refine .closed _ _ reason (quiet_finish w op ec) (.inr (.inr ⟨op, ec, rfl, hmem, hlive, ?_⟩))
    exact hcause.imp id (Or.imp handshake_connecting id)
  | failed op ec o w₁ message hmem hlive hkind hcause hstate hw =>
    refine .closed _ _ message ((quiet_settled hw).trans (quiet_put _ _))
      (.inr (.inr ⟨op, ec, rfl, hmem, hlive, ?_⟩))
    exact hcause.imp id .inl
  | advanced op ec o w₁ kind hmem hlive hec hop hlast hkind hw =>
    have hq : Quiet w w₁ [(w.generation, .completed op ec)] := by
      rcases hw with rfl | ⟨-, rfl⟩ <;> exact ⟨rfl, by simp [Event.quiet], rfl, rfl⟩
    have hs : w₁.state = w.state ∧ w₁.writing = w.writing := by
      rcases hw with rfl | ⟨-, rfl⟩ <;> exact ⟨rfl, rfl⟩
    exact .same _ _ (hq.trans (quiet_start w₁ hkind)) hs.1 hs.2
  | connected op ec o hmem hlive hec hkind hs =>
    refine .connected _ _ ((quiet_finish w op ec).trans ⟨establish_log _, ?_, rfl, rfl⟩) hs rfl rfl
    simp [Event.quiet, OperationKind.isWrite, OperationKind.isClose]
  | message op ec o =>
    refine .same _ _ ((quiet_finish w op ec).trans ⟨deliver_log _, ?_, rfl, rfl⟩) rfl rfl
    simp [Event.quiet, OperationKind.isWrite, OperationKind.isClose]
  | drained op ec o =>
    exact .drained (w.finish op ec).release _ ⟨rfl, by simp [Event.quiet], rfl, rfl⟩ rfl rfl

end World
end GWSockets
