import GWSockets.Accounting

namespace GWSockets

def Event.handed : Event → Option (Bytes × Bool)
  | .started op =>
      match op.kind with
      | .write message binary => some (message, binary)
      | _ => none
  | _ => none

def Event.isWritten : Event → Option (Bytes × Bool)
  | .written message binary => some (message, binary)
  | _ => none

def Event.isPut : Event → Option GWSocketMessageIn
  | .put message => some message
  | _ => none

def Event.isOpened : Event → Bool
  | .opened _ => true
  | _ => false

def Log.during (generation : Nat) (log : Log) : Log := log.filter (fun e => e.1 == generation)

def Log.after (generation : Nat) (log : Log) : Log := log.filter (fun e => generation < e.1)

def Log.handed (log : Log) : List (Bytes × Bool) := log.filterMap (fun e => e.2.handed)

def Log.written (log : Log) : List (Bytes × Bool) := log.filterMap (fun e => e.2.isWritten)

def Log.puts (log : Log) : List GWSocketMessageIn := log.filterMap (fun e => e.2.isPut)

section append

variable (xs ys : Log) (g : Nat)

@[simp] theorem during_append :
    Log.during g (xs ++ ys) = Log.during g xs ++ Log.during g ys := List.filter_append ..

@[simp] theorem after_append :
    Log.after g (xs ++ ys) = Log.after g xs ++ Log.after g ys := List.filter_append ..

@[simp] theorem handed_append : Log.handed (xs ++ ys) = Log.handed xs ++ Log.handed ys :=
  List.filterMap_append ..

@[simp] theorem written_append : Log.written (xs ++ ys) = Log.written xs ++ Log.written ys :=
  List.filterMap_append ..

@[simp] theorem puts_append : Log.puts (xs ++ ys) = Log.puts xs ++ Log.puts ys :=
  List.filterMap_append ..

theorem during_none {g : Nat} {log : Log} (h : ∀ e ∈ log, e.1 ≠ g) : Log.during g log = [] := by
  rw [Log.during, List.filter_eq_nil_iff]
  intro e he
  simpa using h e he

theorem after_none {g : Nat} {log : Log} (h : ∀ e ∈ log, e.1 ≤ g) : Log.after g log = [] := by
  rw [Log.after, List.filter_eq_nil_iff]
  intro e he
  simpa using h e he

theorem after_all {g : Nat} {log : Log} (h : ∀ e ∈ log, g < e.1) : Log.after g log = log := by
  rw [Log.after, List.filter_eq_self]
  intro e he
  simpa using h e he

end append

@[simp] theorem outbound_append (xs ys : List GWSocketMessageOut) :
    outbound (xs ++ ys) = outbound xs ++ outbound ys := List.filterMap_append ..

theorem outbound_cons_message {m : GWSocketMessageOut} (h : m.type = .message)
    (rest : List GWSocketMessageOut) :
    outbound (m :: rest) = (m.message, m.binary) :: outbound rest := by
  simp [outbound, h]

theorem outbound_cons_disconnect {m : GWSocketMessageOut} (h : m.type = .disconnect)
    (rest : List GWSocketMessageOut) : outbound (m :: rest) = outbound rest := by
  simp [outbound, h]

namespace World

structure Extends (w w' : World) (added : Log) : Prop where
  log : w'.log = w.log ++ added
  stamped : ∀ e ∈ added, w.generation ≤ e.1 ∧ e.1 ≤ w'.generation
  generation : w.generation ≤ w'.generation

theorem Extends.refl (w : World) : Extends w w [] := ⟨by simp, by simp, Nat.le_refl _⟩

theorem Extends.trans {u v w : World} {xs ys : Log} (h : Extends u v xs) (h' : Extends v w ys) :
    Extends u w (xs ++ ys) := by
  refine ⟨by rw [h'.log, h.log, List.append_assoc], ?_, Nat.le_trans h.generation h'.generation⟩
  intro e he
  rcases List.mem_append.mp he with he | he
  · exact ⟨(h.stamped e he).1, Nat.le_trans (h.stamped e he).2 h'.generation⟩
  · exact ⟨Nat.le_trans h.generation (h'.stamped e he).1, (h'.stamped e he).2⟩

theorem extends_doClose (w : World) (reason : Bytes) :
    ∃ added, Extends w (w.doClose reason) added :=
  ⟨_, doClose_log w reason, by simp, Nat.le_succ _⟩

theorem extends_checkWriting (w : World) (o : Outcome) :
    ∃ added, Extends w (w.checkWriting o) added := by
  have hc := checkWriting_checked w o
  generalize w.checkWriting o = w' at hc
  cases hc with
  | idle => exact ⟨_, .refl w⟩
  | next m rest => exact ⟨_, rfl, by simp [asyncWrite], Nat.le_refl _⟩
  | marker m rest => exact ⟨_, rfl, by simp [asyncCloseSocket], Nat.le_refl _⟩
  | abandoned m rest => exact ⟨_, doClose_log _ _, by simp, Nat.le_succ _⟩

theorem extends_of_log {w w' : World} {added : Log} (hlog : w'.log = w.log ++ added)
    (hg : w'.generation = w.generation) (hs : ∀ e ∈ added, e.1 = w.generation) :
    ∃ added, Extends w w' added :=
  ⟨added, hlog, fun e he => by simp [hs e he, hg], by simp [hg]⟩

theorem Extends.then_doClose {w v : World} (h : ∃ added, Extends w v added) (reason : Bytes) :
    ∃ added, Extends w (v.doClose reason) added := by
  obtain ⟨xs, h⟩ := h
  obtain ⟨ys, h'⟩ := extends_doClose v reason
  exact ⟨_, h.trans h'⟩

theorem Extends.then_checkWriting {w v : World} (h : ∃ added, Extends w v added) (o : Outcome) :
    ∃ added, Extends w (v.checkWriting o) added := by
  obtain ⟨xs, h⟩ := h
  obtain ⟨ys, h'⟩ := extends_checkWriting v o
  exact ⟨_, h.trans h'⟩

theorem extends_finish (w : World) (op : Operation) (ec : ErrorCode) :
    ∃ added, Extends w (w.finish op ec) added :=
  extends_of_log (finish_log w op ec) rfl (by simp)

theorem extends_settled {w w₁ : World} {op : Operation} {ec : ErrorCode}
    (h : w.Settled op ec w₁) : ∃ added, Extends w w₁ added := by
  rcases h with rfl | ⟨-, rfl⟩ <;> exact extends_of_log (finish_log w op ec) rfl (by simp)

theorem extends_step (w : World) (s : Step) : ∃ added, Extends w (w.step s) added := by
  have he := step_effect w s
  generalize w.step s = w' at he
  cases he with
  | idle => exact ⟨_, .refl w⟩
  | configured => exact extends_of_log (List.append_nil _).symm rfl (by simp)
  | opened clear o hs =>
    exact ⟨_, openSocket_log clear hs, by simp [openSocket_generation clear hs],
      by simp [openSocket_generation clear hs]⟩
  | written message binary o =>
    exact Extends.then_checkWriting (extends_of_log (enqueue_log w message binary) rfl (by simp)) o
  | cleared => exact extends_of_log (forget_log w) rfl (by simp)
  | requested => exact extends_of_log (List.append_nil _).symm rfl (by simp)
  | requestedConnected o =>
    refine Extends.then_checkWriting ?_ o
    exact extends_of_log (List.append_nil _).symm rfl (by simp)
  | closedNow reason => exact extends_doClose w reason
  | taken => exact extends_of_log (List.append_nil _).symm rfl (by simp)
  | received => exact extends_of_log (List.append_nil _).symm rfl (by simp)
  | verified error o accepted => exact extends_of_log (emit_log w _) rfl (by simp)
  | rejected error o message =>
    refine Extends.then_doClose ?_ message
    obtain ⟨xs, h⟩ := extends_of_log (emit_log w (.verified w.ws error false)) rfl (by simp)
    exact ⟨_, h.trans ⟨put_log _ _, by simp, Nat.le_refl _⟩⟩
  | stale op ec => exact extends_finish w op ec
  | dropped op ec o w₁ hmem hlive hkind hcause hstate hw => exact extends_settled hw
  | shut op ec o reason => exact Extends.then_doClose (extends_finish w op ec) reason
  | failed op ec o w₁ message hmem hlive hkind hcause hstate hw =>
    refine Extends.then_doClose ?_ message
    obtain ⟨xs, h⟩ := extends_settled hw
    exact ⟨_, h.trans ⟨put_log _ _, by simp, Nat.le_refl _⟩⟩
  | advanced op ec o w₁ kind hmem hlive hec hop hlast hkind hw =>
    have h : ∃ added, Extends w w₁ added := by
      rcases hw with rfl | ⟨-, rfl⟩ <;> exact extends_of_log (finish_log w op ec) rfl (by simp)
    obtain ⟨xs, h⟩ := h
    exact ⟨_, h.trans ⟨start_log w₁ kind, by simp, Nat.le_refl _⟩⟩
  | connected op ec o =>
    refine Extends.then_checkWriting ?_ o
    obtain ⟨xs, h⟩ := extends_finish w op ec
    exact ⟨_, h.trans ⟨establish_log _, by simp, Nat.le_refl _⟩⟩
  | message op ec o =>
    obtain ⟨xs, h⟩ := extends_finish w op ec
    exact ⟨_, h.trans ⟨deliver_log _, by simp, Nat.le_refl _⟩⟩
  | drained op ec o =>
    refine Extends.then_checkWriting ?_ o
    exact extends_of_log (finish_log w op ec) rfl (by simp)

theorem extends_run (w : World) (ls : List Step) : ∃ added, Extends w (w.run ls) added := by
  refine Machine.run_related (R := fun v u => ∃ added, Extends v u added) (fun v => ⟨_, .refl v⟩)
    ?_ extends_step w ls
  rintro u v x ⟨xs, h⟩ ⟨ys, h'⟩
  exact ⟨_, h.trans h'⟩

theorem generation_le_run (w : World) (ls : List Step) : w.generation ≤ (w.run ls).generation := by
  obtain ⟨_, h⟩ := extends_run w ls
  exact h.generation

theorem unaliased_of_lt {w : World} (h : w.Accounted) (hb : w.generation < 2 ^ 32) (s : Step) :
    w.Unaliased s := by
  rintro ⟨op, ec⟩ - hmem hlive
  have hle := h.past op hmem
  rw [live, Nat.mod_eq_of_lt hb, Nat.mod_eq_of_lt (Nat.lt_of_le_of_lt hle hb)] at hlive
  exact hlive.symm

theorem along_unaliased {w : World} (h : w.Accounted) {ls : List Step}
    (hb : (w.run ls).generation < 2 ^ 32) : Machine.Along step Unaliased w ls := by
  induction ls generalizing w with
  | nil => trivial
  | cons s ls ih =>
    have hu := unaliased_of_lt h (Nat.lt_of_le_of_lt (generation_le_run w (s :: ls)) hb) s
    exact ⟨hu, ih (accounted_step h s hu) hb⟩

end World
end GWSockets
