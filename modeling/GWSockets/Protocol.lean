import Mathlib.Data.List.Induction
import GWSockets.History

namespace GWSockets

structure Cut where
  earlier : List (List GWSMessageInType) := []
  current : List GWSMessageInType := []
deriving DecidableEq, Repr

def Cut.next (c : Cut) : Event → Cut
  | .opened _ => ⟨c.earlier ++ [c.current], []⟩
  | .put message => { c with current := c.current ++ [message.type] }
  | _ => c

def Cut.words (c : Cut) : List (List GWSMessageInType) := c.earlier ++ [c.current]

def Log.cut (log : Log) : Cut := log.foldl (fun c e => c.next e.2) {}

def Log.opens (log : Log) : Nat := log.countP (fun e => e.2.isOpened)

def Log.disconnects (log : Log) : Nat := log.puts.countP (fun m => m.type == .disconnected)

def Event.silent : Event → Bool
  | .opened _ | .put _ => false
  | _ => true

def Opening (u : List GWSMessageInType) : Prop :=
  u = [] ∨ ∃ n, u = .connected :: List.replicate n .message

def Finished (u : List GWSMessageInType) : Prop :=
  ∃ v e, Opening v ∧ (e = [] ∨ e = [.error]) ∧ u = v ++ e ++ [.disconnected]

def Running (u : List GWSMessageInType) : Prop :=
  .disconnected ∉ u ∧ ∃ v, Finished v ∧ u <+: v ∧ u ≠ v

def Answered (u : List GWSMessageInType) : Prop :=
  ∀ pre post, u = pre ++ .error :: post → ∃ rest, post = .disconnected :: rest

section words

theorem opening_message {u : List GWSMessageInType} (h : Opening u) (hu : u ≠ []) :
    Opening (u ++ [.message]) := by
  rcases h with rfl | ⟨n, rfl⟩
  · exact absurd rfl hu
  · exact .inr ⟨n + 1, by simp [List.replicate_succ']⟩

theorem opening_mem {u : List GWSMessageInType} (h : Opening u) :
    ∀ t ∈ u, t = .connected ∨ t = .message := by
  rcases h with rfl | ⟨n, rfl⟩
  · simp
  · intro t ht
    rcases List.mem_cons.mp ht with rfl | ht
    · exact .inl rfl
    · exact .inr (List.eq_of_mem_replicate ht)

theorem opening_running {u : List GWSMessageInType} (h : Opening u) : Running u := by
  refine ⟨fun hd => by simpa using opening_mem h _ hd, u ++ [.disconnected],
    ⟨u, [], h, .inl rfl, by simp⟩, List.prefix_append _ _, by simp⟩

theorem opening_disconnects {u : List GWSMessageInType} (h : Opening u) :
    u.countP (· == .disconnected) = 0 := by
  rw [List.countP_eq_zero]
  intro t ht
  rcases opening_mem h t ht with rfl | rfl <;> decide

theorem finished_disconnects {u : List GWSMessageInType} (h : Finished u) :
    u.countP (· == .disconnected) = 1 := by
  obtain ⟨v, e, hv, he, rfl⟩ := h
  have hz := opening_disconnects hv
  rcases he with rfl | rfl <;> simp [List.countP_append, hz]

theorem answered_append {u v : List GWSMessageInType} (hu : Answered u) (hv : Answered v) :
    Answered (u ++ v) := by
  intro pre post h
  rcases List.append_eq_append_iff.mp h with ⟨rest, rfl, hr⟩ | ⟨rest, rfl, hr⟩
  · exact hv rest post hr
  · cases rest with
    | nil => exact hv [] post hr.symm
    | cons t rest =>
      simp only [List.cons_append, List.cons.injEq] at hr
      obtain ⟨rfl, rfl⟩ := hr
      obtain ⟨rest', hrest⟩ := hu pre rest rfl
      exact ⟨rest' ++ v, by simp [hrest]⟩

theorem answered_of_mem {u : List GWSMessageInType} (h : .error ∉ u) : Answered u := by
  rintro pre post rfl
  simp at h

theorem answered_opening {u : List GWSMessageInType} (h : Opening u) : Answered u :=
  answered_of_mem (fun he => by simpa using opening_mem h _ he)

theorem answered_finished {u : List GWSMessageInType} (h : Finished u) : Answered u := by
  obtain ⟨v, e, hv, he, rfl⟩ := h
  rw [List.append_assoc]
  refine answered_append (answered_opening hv) ?_
  rcases he with rfl | rfl
  · exact answered_of_mem (by simp)
  · intro pre post hp
    cases pre with
    | nil => exact ⟨[], by simpa using hp.symm⟩
    | cons t pre => simp [List.cons_eq_append_iff] at hp

theorem answered_flatten {us : List (List GWSMessageInType)} (h : ∀ u ∈ us, Answered u) :
    Answered us.flatten := by
  induction us with
  | nil => exact answered_of_mem (by simp)
  | cons u us ih =>
    rw [List.flatten_cons]
    exact answered_append (h u (by simp)) (ih (fun v hv => h v (by simp [hv])))

end words

section cut

theorem cut_append (xs ys : Log) :
    Log.cut (xs ++ ys) = ys.foldl (fun c e => c.next e.2) xs.cut := List.foldl_append ..

theorem cut_silent {xs ys : Log} (h : ∀ e ∈ ys, e.2.silent = true) :
    Log.cut (xs ++ ys) = xs.cut := by
  rw [cut_append]
  generalize xs.cut = c
  induction ys with
  | nil => rfl
  | cons e ys ih =>
    have hn : c.next e.2 = c := by
      have he := h e (by simp)
      cases hk : e.2 <;> simp_all [Event.silent, Cut.next]
    rw [List.foldl_cons, hn]
    exact ih (fun x hx => h x (by simp [hx]))

theorem cut_puts (log : Log) : log.cut.words.flatten = log.puts.map GWSocketMessageIn.type := by
  induction log using List.reverseRecOn with
  | nil => rfl
  | append_singleton log e ih =>
    rw [cut_append, puts_append, List.map_append, ← ih]
    rcases e with ⟨g, e⟩
    cases e <;> simp [Cut.next, Cut.words, Log.puts, Event.isPut]

theorem cut_opens (log : Log) : log.cut.earlier.length = log.opens := by
  induction log using List.reverseRecOn with
  | nil => rfl
  | append_singleton log e ih =>
    rw [cut_append, Log.opens, List.countP_append, ← Log.opens, ← ih]
    rcases e with ⟨g, e⟩
    cases e <;> simp [Cut.next, Event.isOpened]

theorem words_next {c : Cut} {n : Nat} {u : List GWSMessageInType} (h : c.words[n]? = some u)
    (e : Event) : ∃ v, (c.next e).words[n]? = some (u ++ v) := by
  cases e with
  | opened discarded =>
    refine ⟨[], ?_⟩
    obtain ⟨hn, -⟩ := List.getElem?_eq_some_iff.mp h
    rw [List.append_nil, ← h]
    exact List.getElem?_append_left hn
  | put message =>
    rcases Nat.lt_or_ge n c.earlier.length with hn | hn
    · refine ⟨[], ?_⟩
      rw [List.append_nil, ← h]
      exact (List.getElem?_append_left hn).trans (List.getElem?_append_left hn).symm
    · refine ⟨[message.type], ?_⟩
      rw [Cut.words, List.getElem?_append_right hn, List.getElem?_singleton] at h
      split at h
      · next hz =>
        obtain rfl := Option.some.inj h
        show (c.earlier ++ [c.current ++ [message.type]])[n]? = _
        rw [List.getElem?_append_right hn, hz]
        rfl
      · cases h
  | _ => exact ⟨[], by simpa [Cut.next] using h⟩

theorem words_grow (xs : Log) {n : Nat} {u : List GWSMessageInType}
    (h : xs.cut.words[n]? = some u) (ys : Log) :
    ∃ v, (Log.cut (xs ++ ys)).words[n]? = some (u ++ v) := by
  induction ys using List.reverseRecOn with
  | nil => exact ⟨[], by simpa using h⟩
  | append_singleton ys e ih =>
    obtain ⟨v, hv⟩ := ih
    obtain ⟨v', hv'⟩ := words_next hv e.2
    refine ⟨v ++ v', ?_⟩
    rw [← List.append_assoc, cut_append, ← List.append_assoc]
    exact hv'

end cut

namespace World

def Underway (c : Cut) : Prop := ∃ past, c.earlier = [] :: past ∧ ∀ u ∈ past, Finished u

structure Conforms (w : World) : Prop where
  idle : w.state = .disconnected → w.log.cut = {} ∨ Underway w.log.cut ∧ Finished w.log.cut.current
  busy : w.state ≠ .disconnected → Underway w.log.cut ∧ Opening w.log.cut.current
  fresh : w.state = .connecting → w.log.cut.current = []
  reading : 0 < w.outstanding OperationKind.isRead → w.log.cut.current ≠ []

theorem conforms_new (kind : SocketClass) (host : Bytes) (port : Nat) (path : Bytes) :
    (new kind host port path).Conforms :=
  ⟨fun _ => .inl rfl, by simp [new], by simp [new], by simp [new, outstanding]⟩

theorem conforms_same {w v : World} {added : Log} (h : w.Conforms)
    (hlog : v.log = w.log ++ added) (hsilent : ∀ e ∈ added, e.2.silent = true)
    (hidle : v.state = .disconnected ↔ w.state = .disconnected)
    (hfresh : v.state = .connecting → w.state = .connecting)
    (hread : v.outstanding OperationKind.isRead ≤ w.outstanding OperationKind.isRead) :
    v.Conforms := by
  have hc : v.log.cut = w.log.cut := by rw [hlog, cut_silent hsilent]
  refine ⟨fun hs => ?_, fun hs => ?_, fun hs => ?_, fun hr => ?_⟩
  · exact hc ▸ h.idle (hidle.mp hs)
  · exact hc ▸ h.busy (fun hw => hs (hidle.mpr hw))
  · exact hc ▸ h.fresh (hfresh hs)
  · exact hc ▸ h.reading (Nat.lt_of_lt_of_le hr hread)

theorem conforms_ended {w v : World} {e : List GWSMessageInType}
    (hu : Underway w.log.cut) (ho : Opening w.log.cut.current) (he : e = [] ∨ e = [.error])
    (hcut : v.log.cut = { w.log.cut with current := w.log.cut.current ++ e })
    (hpast : v.Past) (reason : Bytes) : (v.doClose reason).Conforms := by
  have hc : (v.doClose reason).log.cut =
      { w.log.cut with current := w.log.cut.current ++ e ++ [.disconnected] } := by
    rw [doClose_log, cut_append, hcut]
    rfl
  refine ⟨fun _ => ?_, by simp, by simp, ?_⟩
  · rw [hc]
    exact .inr ⟨hu, w.log.cut.current, e, ho, he, rfl⟩
  · rw [outstanding_doClose hpast]
    simp

theorem conforms_doClose {w : World} (h : w.Conforms) (hs : w.state ≠ .disconnected)
    (hpast : w.Past) (reason : Bytes) : (w.doClose reason).Conforms :=
  conforms_ended (h.busy hs).1 (h.busy hs).2 (.inl rfl) (by simp) hpast reason

theorem conforms_failed {w : World} (h : w.Conforms) (hs : w.state ≠ .disconnected)
    (hpast : w.Past) (message : Bytes) : ((w.put ⟨.error, message⟩).doClose message).Conforms :=
  conforms_ended (v := w.put ⟨.error, message⟩) (h.busy hs).1 (h.busy hs).2 (.inr rfl)
    (by rw [put_log, cut_append]; rfl) hpast message

theorem conforms_checkWriting {w : World} (h : w.Conforms)
    (hpast : w.Past) (o : Outcome) : (w.checkWriting o).Conforms := by
  have hc := checkWriting_checked w o
  generalize w.checkWriting o = w' at hc
  cases hc with
  | idle => exact h
  | next m rest hs hw hq ht =>
    refine conforms_same h rfl (by simp [Event.silent]) Iff.rfl id ?_
    rw [asyncWrite, outstanding_start]
    exact Nat.le_refl _
  | marker m rest hs hw hq ht =>
    refine conforms_same h rfl (by simp [Event.silent]) ?_ (by simp [asyncCloseSocket]) ?_
    · simp [asyncCloseSocket, hs]
    · rw [asyncCloseSocket, outstanding_start]
      exact Nat.le_refl _
  | abandoned m rest hs =>
    refine conforms_doClose (w := { w with writing := true, writeQueue := rest }) ?_ ?_ hpast _
    · exact ⟨h.idle, h.busy, h.fresh, h.reading⟩
    · show w.state ≠ .disconnected
      rcases hs with hs | hs <;> simp [hs]

theorem conforms_request {w : World} (h : w.Conforms)
    (hs : w.state = .connecting ∨ w.state = .connected) : w.request.Conforms := by
  refine conforms_same h (List.append_nil _).symm (by simp) ?_ (by simp) (Nat.le_refl _)
  rcases hs with hs | hs <;> simp [hs]

theorem conforms_opened {w : World} (h : w.Conforms) (ha : w.Accounted) (clear : Bool)
    (hs : w.state = .disconnected) : (w.openSocket clear).Conforms := by
  have hc : (w.openSocket clear).log.cut = ⟨w.log.cut.words, []⟩ := by
    rw [openSocket_log clear hs, cut_append]
    rfl
  have hst := openSocket_state clear hs
  have hr : (w.openSocket clear).outstanding OperationKind.isRead = 0 := by
    have hshape := (accounted_opened ha clear hs).shape
    rw [hst] at hshape
    exact hshape.2.2.1
  refine ⟨by simp [hst], fun _ => ?_, fun _ => by rw [hc], by simp [hr]⟩
  rw [hc]
  refine ⟨?_, .inl rfl⟩
  rcases h.idle hs with hn | ⟨⟨past, hp, hf⟩, hcur⟩
  · exact ⟨[], by rw [hn]; rfl, by simp⟩
  · refine ⟨past ++ [w.log.cut.current], by simp [Cut.words, hp], ?_⟩
    intro u hu
    rcases List.mem_append.mp hu with hu | hu
    · exact hf u hu
    · exact List.mem_singleton.mp hu ▸ hcur

section completions

variable {w w₁ : World} {op : Operation} {ec : ErrorCode}

theorem conforms_finish (h : w.Conforms) (op : Operation) (ec : ErrorCode) :
    (w.finish op ec).Conforms :=
  conforms_same h (finish_log w op ec) (by simp [Event.silent]) Iff.rfl id
    (outstanding_finish_le op ec _)

theorem conforms_settled (h : w.Conforms) (hw : w.Settled op ec w₁) : w₁.Conforms := by
  have hf := conforms_finish h op ec
  rcases hw with rfl | ⟨-, rfl⟩
  · exact hf
  · exact ⟨hf.idle, hf.busy, hf.fresh, hf.reading⟩

theorem conforms_started (h : w.Conforms) {kind : OperationKind} (hk : kind.isRead = false) :
    (w.start kind).Conforms := by
  refine conforms_same h (start_log w kind) (by simp [Event.silent]) Iff.rfl id ?_
  simp [outstanding_start, hk]

theorem conforms_connected (h : w.Conforms) (hs : w.state = .connecting) :
    w.establish.Conforms := by
  have hb := h.busy (by simp [hs])
  have hc : w.establish.log.cut = { w.log.cut with current := [.connected] } := by
    rw [establish_log, cut_append]
    simp [Cut.next, h.fresh hs]
  refine ⟨by simp, fun _ => ?_, by simp, fun _ => ?_⟩
  · rw [hc]
    exact ⟨hb.1, .inr ⟨0, rfl⟩⟩
  · rw [hc]
    exact List.cons_ne_nil _ _

theorem conforms_message (h : w.Conforms) (hs : w.state ≠ .disconnected)
    (hf : w.state ≠ .connecting) (hcur : w.log.cut.current ≠ []) : w.deliver.Conforms := by
  have hb := h.busy hs
  have hc : w.deliver.log.cut = { w.log.cut with current := w.log.cut.current ++ [.message] } := by
    rw [deliver_log, cut_append]
    rfl
  refine ⟨fun hd => absurd hd hs, fun _ => ?_, fun hd => absurd hd hf, fun _ => ?_⟩
  · rw [hc]
    exact ⟨hb.1, opening_message hb.2 hcur⟩
  · rw [hc]
    simp

end completions

theorem conforms_step {w : World} (h : w.Conforms) (ha : w.Accounted) (s : Step)
    (hu : w.Unaliased s) : (w.step s).Conforms := by
  have he := step_effect w s
  generalize w.step s = w' at he
  cases he with
  | idle => exact h
  | configured => exact ⟨h.idle, h.busy, h.fresh, h.reading⟩
  | opened clear o hs => exact conforms_opened h ha clear hs
  | written message binary o =>
    refine conforms_checkWriting (conforms_same h (enqueue_log ..) (by simp [Event.silent]) Iff.rfl
      id (Nat.le_refl _)) ?_ o
    exact ha.past
  | cleared =>
    exact conforms_same h (forget_log w) (by simp [Event.silent]) Iff.rfl id (Nat.le_refl _)
  | requested o hs => exact conforms_request h (.inl hs)
  | requestedConnected o hs =>
    refine conforms_checkWriting (w := w.request) ?_ ?_ o
    · exact conforms_request h (.inr hs)
    · exact ha.past
  | closedNow reason o hs => exact conforms_doClose h (closable_busy hs) ha.past reason
  | taken => exact ⟨h.idle, h.busy, h.fresh, h.reading⟩
  | received op bytes o hmem =>
    exact conforms_same h (List.append_nil _).symm (by simp) Iff.rfl id
      (Nat.le_of_eq (outstanding_extend bytes hmem _))
  | verified error o accepted =>
    exact conforms_same h (emit_log w _) (by simp [Event.silent]) Iff.rfl id (Nat.le_refl _)
  | rejected error o message hok hs =>
    refine conforms_failed (w := w.emit (.verified w.ws error false)) ?_ (closable_busy hs) ?_ _
    · exact conforms_same h (emit_log w _) (by simp [Event.silent]) Iff.rfl id (Nat.le_refl _)
    · exact ha.past
  | stale op ec => exact conforms_finish h op ec
  | dropped op ec o w₁ hmem hlive hkind hcause hstate hw => exact conforms_settled h hw
  | shut op ec o reason hmem hlive hcause hs =>
    refine conforms_doClose (conforms_finish h op ec) ?_ (past_finish ha op ec) reason
    rcases hs with hk | hs
    · have hpos : 0 < w.outstanding OperationKind.isClose :=
        outstanding_pos hmem (hu (op, ec) rfl hmem hlive) (by rw [hk]; rfl)
      show w.state ≠ .disconnected
      simp [closing_state ha hpos]
    · exact closable_busy hs
  | failed op ec o w₁ message hmem hlive hkind hcause hs hw =>
    refine conforms_failed (conforms_settled h hw) ?_ (settled_past ha hw) message
    rw [hw.state]
    exact closable_busy hs
  | advanced op ec o w₁ kind hmem hlive hec hop hlast hkind hw =>
    have hf := conforms_finish h op ec
    have h₁ : w₁.Conforms := by
      rcases hw with rfl | ⟨-, rfl⟩
      · exact ⟨hf.idle, hf.busy, hf.fresh, hf.reading⟩
      · exact hf
    exact conforms_started h₁ (connecting_only hkind).1
  | connected op ec o hmem hlive hec hkind hs =>
    refine conforms_checkWriting (conforms_connected (conforms_finish h op ec) hs) ?_ o
    exact (accounted_connected ha hmem (hu (op, ec) rfl hmem hlive)
      (handshake_connecting hkind) hs).past
  | message op ec o hmem hlive hec hkind =>
    have hpos : 0 < w.outstanding OperationKind.isRead :=
      outstanding_pos hmem (hu (op, ec) rfl hmem hlive) (by rw [hkind]; rfl)
    obtain ⟨hs, hf⟩ := reading_state ha hpos
    refine conforms_message (conforms_finish h op ec) hs hf ?_
    rw [finish_log, cut_silent (by simp [Event.silent])]
    exact h.reading hpos
  | drained op ec o hmem hlive hec hkind =>
    have hf := conforms_finish h op ec
    refine conforms_checkWriting (w := (w.finish op ec).release) ?_ (past_finish ha op ec) o
    exact ⟨hf.idle, hf.busy, hf.fresh, hf.reading⟩

theorem conforms_run {w : World} (h : w.Conforms) (ha : w.Accounted) {ls : List Step}
    (hu : Machine.Along step Unaliased w ls) : (w.run ls).Conforms :=
  (Machine.run_invariant (I := fun v => v.Conforms ∧ v.Accounted)
    (fun _ s hv hok => ⟨conforms_step hv.1 hv.2 s hok, accounted_step hv.2 s hok⟩) ⟨h, ha⟩ hu).1

theorem countP_flatten_finished {us : List (List GWSMessageInType)} (h : ∀ u ∈ us, Finished u) :
    us.flatten.countP (· == .disconnected) = us.length := by
  induction us with
  | nil => rfl
  | cons u us ih =>
    rw [List.flatten_cons, List.countP_append, finished_disconnects (h u (by simp)),
      ih (fun v hv => h v (by simp [hv])), List.length_cons, Nat.add_comm]

theorem disconnects_cut (log : Log) :
    log.disconnects = log.cut.words.flatten.countP (· == .disconnected) := by
  rw [cut_puts, Log.disconnects, List.countP_map]
  rfl

theorem conforms_counts {w : World} (h : w.Conforms) :
    w.log.disconnects = w.log.opens ↔ w.state = .disconnected := by
  rw [disconnects_cut, ← cut_opens]
  constructor
  · intro hcount
    by_contra hs
    obtain ⟨⟨past, hp, hf⟩, ho⟩ := h.busy hs
    simp [Cut.words, hp, countP_flatten_finished hf, opening_disconnects ho] at hcount
  · intro hs
    rcases h.idle hs with hn | ⟨⟨past, hp, hf⟩, hc⟩
    · simp [hn, Cut.words]
    · simp [Cut.words, hp, countP_flatten_finished hf, finished_disconnects hc]

theorem conforms_words {w : World} (h : w.Conforms) :
    ∃ past, w.log.cut.words = [] :: past ∧
      ((∀ u ∈ past, Finished u) ∧ w.state = .disconnected ∨
        ∃ us u, past = us ++ [u] ∧ (∀ v ∈ us, Finished v) ∧ Opening u ∧
          w.state ≠ .disconnected) := by
  by_cases hs : w.state = .disconnected
  · rcases h.idle hs with hn | ⟨⟨past, hp, hf⟩, hc⟩
    · exact ⟨[], by simp [hn, Cut.words], .inl ⟨by simp, hs⟩⟩
    · refine ⟨past ++ [w.log.cut.current], by simp [Cut.words, hp], .inl ⟨?_, hs⟩⟩
      intro u hu
      rcases List.mem_append.mp hu with hu | hu
      · exact hf u hu
      · exact List.mem_singleton.mp hu ▸ hc
  · obtain ⟨⟨past, hp, hf⟩, ho⟩ := h.busy hs
    exact ⟨past ++ [w.log.cut.current], by simp [Cut.words, hp],
      .inr ⟨past, _, rfl, hf, ho, hs⟩⟩

theorem conforms_answered {w : World} (h : w.Conforms) :
    Answered (w.log.puts.map GWSocketMessageIn.type) := by
  rw [← cut_puts]
  apply answered_flatten
  obtain ⟨past, hw, ⟨hf, -⟩ | ⟨us, u, rfl, hf, ho, -⟩⟩ := conforms_words h
  · rw [hw]
    intro u hu
    rcases List.mem_cons.mp hu with rfl | hu
    · exact answered_of_mem (by simp)
    · exact answered_finished (hf u hu)
  · rw [hw]
    intro v hv
    simp only [List.mem_cons, List.mem_append, List.not_mem_nil, or_false] at hv
    rcases hv with rfl | hv | rfl
    · exact answered_of_mem (by simp)
    · exact answered_finished (hf v hv)
    · exact answered_opening ho

theorem event_protocol (kind : SocketClass) (host : Bytes) (port : Nat) (path : Bytes)
    (ls : List Step) (hb : ((new kind host port path).run ls).generation < 2 ^ 32) :
    let w := (new kind host port path).run ls
    let words := w.log.cut.words
    (words.flatten = w.log.puts.map GWSocketMessageIn.type ∧ words.length = w.log.opens + 1) ∧
    words.head? = some [] ∧ (∀ u ∈ words.tail.dropLast, Finished u) ∧
    (w.state = .disconnected → ∀ u ∈ words.tail, Finished u) ∧
    (w.state ≠ .disconnected → ∃ u, words.tail.getLast? = some u ∧ Running u) ∧
    (w.log.disconnects = w.log.opens ↔ w.state = .disconnected) ∧
    Answered (w.log.puts.map GWSocketMessageIn.type) := by
  intro w words
  have ha := accounted_new kind host port path
  have h : w.Conforms := conforms_run (conforms_new ..) ha (along_unaliased ha hb)
  have hlen : words.length = w.log.opens + 1 := by
    rw [← cut_opens]
    exact List.length_append
  refine ⟨⟨cut_puts _, hlen⟩, ?_⟩
  obtain ⟨past, hw, hcase⟩ := conforms_words h
  have hwords : words = [] :: past := hw
  rw [hwords]
  refine ⟨rfl, ?_, ?_, ?_, conforms_counts h, conforms_answered h⟩
  · rcases hcase with ⟨hf, -⟩ | ⟨us, u, rfl, hf, -, -⟩
    · exact fun u hu => hf u (List.dropLast_subset _ hu)
    · simpa using hf
  · rintro hs
    rcases hcase with ⟨hf, -⟩ | ⟨us, u, -, -, -, hn⟩
    · exact hf
    · exact absurd hs hn
  · intro hs
    rcases hcase with ⟨-, hd⟩ | ⟨us, u, rfl, -, ho, -⟩
    · exact absurd hd hs
    · exact ⟨u, by simp, opening_running ho⟩

def reopenedRun : List Step :=
  ⟨.openSocket true, {}⟩ :: plainConnect 0 1 ++ [⟨.closeNow [7], {}⟩, ⟨.openSocket true, {}⟩]

theorem event_protocol_reopened :
    let w := (new .webSocket [] 80 []).run reopenedRun
    w.log.cut.words = [[], [.connected, .disconnected], []] ∧
      (w.log.disconnects = w.log.opens ↔ w.state = .disconnected) :=
  ⟨by decide +kernel, (event_protocol .webSocket [] 80 [] reopenedRun
    (lt_of_eq_of_lt (b := 3) (by decide +kernel) (by decide))).2.2.2.2.2.1⟩

end World
end GWSockets
