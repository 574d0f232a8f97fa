import GWSockets.Alternation
import GWSockets.History

namespace GWSockets
namespace World

abbrev queued (w : World) : List GWSocketMessageIn := w.messageQueue.backingQueue

def Grows (w w' : World) : Prop :=
  ∃ new, w'.log.puts = w.log.puts ++ new ∧ w'.queued = w.queued ++ new

theorem Grows.refl (w : World) : Grows w w := ⟨[], by simp, by simp⟩

theorem Grows.trans {u v w : World} (h : Grows u v) (h' : Grows v w) : Grows u w := by
  obtain ⟨xs, hp, hq⟩ := h
  obtain ⟨ys, hp', hq'⟩ := h'
  exact ⟨xs ++ ys, by rw [hp', hp, List.append_assoc], by rw [hq', hq, List.append_assoc]⟩

theorem Grows.of_log {w w' : World} {added : Log} (hlog : w'.log = w.log ++ added)
    (hq : w'.queued = w.queued ++ Log.puts added) : Grows w w' :=
  ⟨Log.puts added, by rw [hlog, puts_append], hq⟩

theorem grows_put (w : World) (m : GWSocketMessageIn) : Grows w (w.put m) :=
  .of_log (put_log w m) rfl

theorem grows_start (w : World) (kind : OperationKind) : Grows w (w.start kind) :=
  .of_log (start_log w kind) (by simp [Log.puts, Event.isPut, queued])

theorem grows_finish (w : World) (op : Operation) (ec : ErrorCode) : Grows w (w.finish op ec) :=
  .of_log (finish_log w op ec) (by simp [Log.puts, Event.isPut, queued])

theorem grows_doClose (w : World) (reason : Bytes) : Grows w (w.doClose reason) :=
  .of_log (doClose_log w reason) (by simp [Log.puts, Event.isPut, queued])

theorem grows_settled {w w₁ : World} {op : Operation} {ec : ErrorCode} (h : w.Settled op ec w₁) :
    Grows w w₁ := by
  rcases h with rfl | ⟨-, rfl⟩ <;> exact grows_finish w op ec

theorem grows_checkWriting (w : World) (o : Outcome) : Grows w (w.checkWriting o) := by
  have hc := checkWriting_checked w o
  generalize w.checkWriting o = w' at hc
  cases hc with
  | idle => exact .refl w
  | next m rest => exact .of_log rfl (by simp [Log.puts, Event.isPut, queued, asyncWrite])
  | marker m rest => exact .of_log rfl (by simp [Log.puts, Event.isPut, queued, asyncCloseSocket])
  | abandoned m rest => exact .of_log (doClose_log _ _) (by simp [Log.puts, Event.isPut, queued])

theorem grows_step (w : World) (s : Step) (ha : s.action ≠ .takeMessages) :
    Grows w (w.step s) := by
  have he := step_effect w s
  generalize w.step s = w' at he
  cases he with
  | idle => exact .refl w
  | configured => exact .of_log (List.append_nil _).symm (List.append_nil _).symm
  | opened clear o hs =>
    refine .of_log (openSocket_log clear hs) ?_
    simp [openSocket_toGWSocket clear hs, Log.puts, Event.isPut, queued]
  | written message binary o =>
    refine Grows.trans ?_ (grows_checkWriting _ o)
    exact .of_log (enqueue_log w message binary) (by simp [Log.puts, Event.isPut, queued])
  | cleared => exact .of_log (forget_log w) (by simp [Log.puts, Event.isPut, queued])
  | requested => exact .of_log (List.append_nil _).symm (List.append_nil _).symm
  | requestedConnected o =>
    refine Grows.trans ?_ (grows_checkWriting _ o)
    exact .of_log (List.append_nil _).symm (List.append_nil _).symm
  | closedNow reason => exact grows_doClose w reason
  | taken => exact absurd rfl ha
  | received => exact .of_log (List.append_nil _).symm (List.append_nil _).symm
  | verified error o accepted =>
    exact .of_log (emit_log w _) (by simp [Log.puts, Event.isPut, queued])
  | rejected error o message =>
    refine Grows.trans ?_ (grows_doClose _ message)
    refine Grows.trans ?_ (grows_put _ _)
    exact .of_log (emit_log w _) (by simp [Log.puts, Event.isPut, queued])
  | stale op ec => exact grows_finish w op ec
  | dropped op ec o w₁ hmem hlive hkind hcause hstate hw => exact grows_settled hw
  | shut op ec o reason => exact (grows_finish w op ec).trans (grows_doClose _ reason)
  | failed op ec o w₁ message hmem hlive hkind hcause hstate hw =>
    exact ((grows_settled hw).trans (grows_put _ _)).trans (grows_doClose _ message)
  | advanced op ec o w₁ kind hmem hlive hec hop hlast hkind hw =>
    refine Grows.trans ?_ (grows_start w₁ kind)
    rcases hw with rfl | ⟨-, rfl⟩ <;> exact grows_finish w op ec
  | connected op ec o =>
    refine Grows.trans ?_ (grows_checkWriting _ o)
    refine (grows_finish w op ec).trans ?_
    exact .of_log (establish_log _) (by simp [Log.puts, Event.isPut, queued])
  | message op ec o =>
    refine (grows_finish w op ec).trans ?_
    exact .of_log (deliver_log _) (by simp [Log.puts, Event.isPut, queued])
  | drained op ec o =>
    refine Grows.trans ?_ (grows_checkWriting _ o)
    exact grows_finish w op ec

theorem Accounted.idle {w : World} (h : w.Accounted) (hs : w.state = .disconnected) :
    ∀ op ∈ w.pending, op.generation ≠ w.generation := by
  intro op hop hg
  have hc := h.shape
  rw [hs] at hc
  obtain ⟨-, h1, h2, h3, h4⟩ := hc
  have hpos : ∀ p, p op.kind = true → 0 < w.outstanding p :=
    fun p hp => outstanding_pos hop hg hp
  cases hk : op.kind with
  | read => have := hpos OperationKind.isRead (by rw [hk]; rfl); omega
  | write => have := hpos OperationKind.isWrite (by rw [hk]; rfl); omega
  | close => have := hpos OperationKind.isClose (by rw [hk]; rfl); omega
  | _ => have := hpos OperationKind.connecting (by rw [hk]; rfl); omega

theorem disconnected_step {w : World} (h : w.Alternating) (hs : w.state = .disconnected) (s : Step)
    (ha : ∀ clear, s.action ≠ .openSocket clear) (ht : s.action ≠ .takeMessages) :
    (w.step s).state = .disconnected ∧ (w.step s).queued = w.queued := by
  have hb : ∀ {v : World} (o : Outcome), v.state = .disconnected → v.checkWriting o = v :=
    fun o hv => checkWriting_blocked (by simp [hv]) (by simp [hv]) o
  have hn : ¬ w.state.closable = true := fun hc => closable_busy hc hs
  have hlate : ∀ op, op ∈ w.pending → ¬ w.live op := fun op hmem hl => h.live_busy hmem hl hs
  have he := step_effect w s
  generalize w.step s = w' at he
  cases he with
  | idle | configured | received | verified | stale | cleared => exact ⟨hs, rfl⟩
  | opened clear => exact absurd rfl (ha clear)
  | written message binary o => rw [hb (v := w.enqueue message binary) o hs]; exact ⟨hs, rfl⟩
  | requested o hstate | requestedConnected o hstate => rw [hs] at hstate; cases hstate
  | closedNow reason o hstate | rejected error o message hok hstate => exact absurd hstate hn
  | taken => exact absurd rfl ht
  | dropped op ec o w₁ hmem hlive | shut op ec o reason hmem hlive
  | failed op ec o w₁ message hmem hlive | advanced op ec o w₁ kind hmem hlive
  | connected op ec o hmem hlive | message op ec o hmem hlive | drained op ec o hmem hlive =>
    exact absurd hlive (hlate op hmem)

def Tame (w : World) : Prop := w.generation < 2 ^ 32 → w.Accounted

theorem tame_step {w : World} (h : w.Tame) (s : Step) : (w.step s).Tame := by
  intro hb
  have hw := Nat.lt_of_le_of_lt (generation_le_run w [s]) hb
  exact accounted_step (h hw) s (unaliased_of_lt (h hw) hw s)

end World
end GWSockets
