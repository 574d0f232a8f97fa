import GWSockets.Outbound

namespace GWSockets

def markers (queue : List GWSocketMessageOut) : Nat := queue.countP (fun m => m.type == .disconnect)

theorem markers_pos_iff (queue : List GWSocketMessageOut) :
    0 < markers queue ↔ ∃ m ∈ queue, m.type = .disconnect := by
  simp [markers, List.countP_pos_iff]

theorem markers_cons (m : GWSocketMessageOut) (rest : List GWSocketMessageOut) :
    markers (m :: rest) = markers rest + if m.type = .disconnect then 1 else 0 := by
  simp [markers, List.countP_cons]

theorem message_of_unmarked {queue : List GWSocketMessageOut} (h : markers queue = 0)
    {m : GWSocketMessageOut} (hm : m ∈ queue) : m.type = .message := by
  cases ht : m.type with
  | message => rfl
  | disconnect =>
    have hpos := (markers_pos_iff queue).mpr ⟨m, hm, ht⟩
    omega

theorem handed_during_quiet {g : Nat} {xs ys : Log} (h : ∀ e ∈ ys, e.2.handed = none) :
    (Log.during g (xs ++ ys)).handed = (Log.during g xs).handed := by
  rw [during_append, handed_append]
  have hy : (Log.during g ys).handed = [] := by
    rw [Log.handed, List.filterMap_eq_nil_iff]
    intro e he
    exact h e (List.mem_filter.mp he).1
  rw [hy, List.append_nil]

namespace World

def CloseRemembered (w : World) : Prop :=
  (w.state = .disconnectRequested ↔ ∃ m ∈ w.writeQueue, m.type = .disconnect) ∧
    (w.state = .disconnectRequested → markers w.writeQueue = 1)

def KeepsRequest (w : World) (s : Step) : Prop :=
  s.action = .clearQueue → w.fault = false → w.state ≠ .disconnectRequested

structure Marked (low : Nat) (w : World) : Prop where
  requested : w.state = .disconnectRequested → low ≤ markers w.writeQueue ∧ markers w.writeQueue ≤ 1
  otherwise : w.state ≠ .disconnectRequested → markers w.writeQueue = 0

theorem marked_iff (w : World) : w.Marked 1 ↔ w.CloseRemembered := by
  have hpos := markers_pos_iff w.writeQueue
  unfold CloseRemembered
  rw [← hpos]
  constructor
  · intro h
    refine ⟨⟨fun hs => (h.requested hs).1, fun hm => ?_⟩, fun hs => ?_⟩
    · by_contra hs
      simp [h.otherwise hs] at hm
    · exact Nat.le_antisymm (h.requested hs).2 (h.requested hs).1
  · rintro ⟨hiff, hone⟩
    refine ⟨fun hs => by simp [hone hs], fun hs => ?_⟩
    by_contra hm
    exact hs (hiff.mpr (Nat.pos_of_ne_zero hm))

section marked

variable {low : Nat} {w v : World}

theorem marked_of_idle (hs : w.state ≠ .disconnectRequested) (hm : markers w.writeQueue = 0) :
    w.Marked low :=
  ⟨fun h => absurd h hs, fun _ => hm⟩

theorem marked_same (h : w.Marked low) (hs : v.state = w.state)
    (hm : markers v.writeQueue = markers w.writeQueue) : v.Marked low :=
  ⟨fun hr => hm ▸ h.requested (hs ▸ hr), fun hr => hm ▸ h.otherwise (hs ▸ hr)⟩

theorem marked_doClose (w : World) (reason : Bytes) : (w.doClose reason).Marked low :=
  marked_of_idle (by simp) (by simp [markers])

theorem marked_checkWriting (h : w.Marked low) (o : Outcome) : (w.checkWriting o).Marked low := by
  have hc := checkWriting_checked w o
  generalize w.checkWriting o = w' at hc
  cases hc with
  | idle => exact h
  | next m rest hs hw hq ht =>
    refine marked_same h rfl ?_
    rw [hq, markers_cons, if_neg (by simp [ht])]
    rfl
  | marker m rest hs hw hq ht =>
    have hm := (h.requested hs).2
    rw [hq, markers_cons, if_pos ht] at hm
    refine marked_of_idle (by simp [asyncCloseSocket]) ?_
    show markers rest = 0
    omega
  | abandoned => exact marked_doClose _ _

theorem marked_request (h : w.Marked low) (hlow : low ≤ 1)
    (hs : w.state = .connecting ∨ w.state = .connected) : w.request.Marked low := by
  have hm : markers w.writeQueue = 0 := by
    apply h.otherwise
    rcases hs with hs | hs <;> simp [hs]
  have hr : markers w.request.writeQueue = 1 := by
    simp only [markers] at hm
    simp [markers, hm]
  refine ⟨fun _ => ?_, fun hn => absurd rfl hn⟩
  rw [hr]
  exact ⟨hlow, Nat.le_refl 1⟩

theorem marked_enqueue (h : w.Marked low) (message : Bytes) (binary : Bool) :
    (w.enqueue message binary).Marked low := marked_same h rfl (by simp [markers])

theorem marked_opened (h : w.Marked low) (clear : Bool) (hs : w.state = .disconnected) :
    (w.openSocket clear).Marked low := by
  have hm := h.otherwise (by simp [hs])
  have hq := openSocket_writeQueue clear hs
  refine marked_of_idle ?_ ?_
  · simp [openSocket_state clear hs]
  · cases clear
    · exact hq ▸ hm
    · rw [hq]
      rfl

theorem marked_step (h : w.Marked low) (hlow : low ≤ 1) (s : Step)
    (hk : low = 0 ∨ w.KeepsRequest s) : (w.step s).Marked low := by
  by_cases hf : w.fault = true
  · simpa [step, hf] using h
  · have he := step_outward w s
    generalize w.step s = w' at he
    cases he with
    | same v added hq hs hw => exact marked_same h hs (by rw [hq.queue])
    | opened clear ha hs => exact marked_opened h clear hs
    | written message binary ha => exact marked_checkWriting (marked_enqueue h message binary) _
    | cleared ha =>
      refine ⟨fun hs => ?_, fun _ => rfl⟩
      obtain rfl := hk.resolve_right (fun hn => hn ha (by simpa using hf) hs)
      exact ⟨Nat.zero_le _, Nat.zero_le _⟩
    | requested ha hs => exact marked_request h hlow (.inl hs)
    | requestedConnected ha hs => exact marked_checkWriting (marked_request h hlow (.inr hs)) _
    | closed v added reason hq hcause => exact marked_doClose v reason
    | connected v added hq hs hv hw =>
      have hm := h.otherwise (by simp [hs])
      exact marked_checkWriting (marked_of_idle (by simp [hv]) (hq.queue ▸ hm)) _
    | drained v added hq hs hw => exact marked_checkWriting (marked_same h hs (by rw [hq.queue])) _

theorem marked_new (kind : SocketClass) (host : Bytes) (port : Nat) (path : Bytes) :
    (new kind host port path).Marked low :=
  marked_of_idle (by simp [new]) (by simp [new, markers])

theorem marked_run (h : w.Marked 1) {ls : List Step} (hk : Machine.Along step KeepsRequest w ls) :
    (w.run ls).Marked 1 :=
  Machine.run_invariant (I := Marked 1)
    (fun _ s hv hok => marked_step hv (Nat.le_refl 1) s (.inr hok)) h hk

theorem marked_always (h : w.Marked 0) (ls : List Step) : (w.run ls).Marked 0 :=
  Machine.always_invariant (I := Marked 0)
    (fun _ s hv => marked_step hv (Nat.zero_le 1) s (.inl rfl)) h ls

end marked

theorem forget_forgets {w : World} (hs : w.state = .disconnectRequested) :
    ¬ w.forget.CloseRemembered := by simp [CloseRemembered, hs]

structure Requested (g : Nat) (due : List (Bytes × Bool)) (w : World) : Prop where
  generation : w.generation = g
  state : w.state = .disconnectRequested
  current : Log.after g w.log = []
  queue : ∃ rest m later, w.writeQueue = rest ++ m :: later ∧ m.type = .disconnect ∧
    (∀ x ∈ rest, x.type = .message) ∧ (Log.during g w.log).handed ++ outbound rest = due

structure Ended (g : Nat) (due : List (Bytes × Bool)) (w : World) : Prop where
  closed : g < w.generation ∧ ((Log.after g w.log).handed ++ outbound w.writeQueue).Sublist
      (Log.after g w.log).written ∨
    w.generation = g ∧ w.state = .disconnecting ∧ Log.after g w.log = []
  handed : (Log.during g w.log).handed <+: due

theorem queue_message {rest rest' later : List GWSocketMessageOut} {m m' : GWSocketMessageOut}
    (h : rest ++ m :: later = m' :: rest') (hm : m.type = .disconnect) (hm' : m'.type = .message) :
    ∃ rest₀, rest = m' :: rest₀ ∧ rest' = rest₀ ++ m :: later := by
  cases rest with
  | nil =>
    simp only [List.nil_append, List.cons.injEq] at h
    rw [h.1, hm'] at hm
    cases hm
  | cons x rest₀ =>
    simp only [List.cons_append, List.cons.injEq] at h
    exact ⟨rest₀, by rw [h.1], h.2.symm⟩

theorem queue_disconnect {rest rest' later : List GWSocketMessageOut} {m m' : GWSocketMessageOut}
    (h : rest ++ m :: later = m' :: rest') (hrest : ∀ x ∈ rest, x.type = .message)
    (hm' : m'.type = .disconnect) : rest = [] := by
  cases rest with
  | nil => rfl
  | cons x rest₀ =>
    simp only [List.cons_append, List.cons.injEq] at h
    have hx := hrest x (by simp)
    rw [h.1, hm'] at hx
    cases hx

theorem handed_during_doClose (w : World) (reason : Bytes) (g : Nat) :
    (Log.during g (w.doClose reason).log).handed = (Log.during g w.log).handed := by
  rw [doClose_log]
  exact handed_during_quiet (by simp [Event.handed])

theorem handed_during_of_quiet {w v : World} {added : Log} (hq : Quiet w v added) (g : Nat) :
    (Log.during g v.log).handed = (Log.during g w.log).handed := by
  rw [hq.log]
  exact handed_during_quiet (fun e he => handed_of_quiet (hq.quiet e he).2)

theorem after_of_quiet {g : Nat} {w v : World} {added : Log} (hq : Quiet w v added)
    (hg : w.generation = g) (h : Log.after g w.log = []) : Log.after g v.log = [] := by
  rw [hq.log, after_append, h, List.nil_append]
  exact after_none (fun e he => Nat.le_of_eq ((hq.quiet e he).1.trans hg))

theorem ended_doClose {g : Nat} {due : List (Bytes × Bool)} {w : World} (hg : w.generation = g)
    (hcurrent : Log.after g w.log = []) (hdue : (Log.during g w.log).handed <+: due)
    (reason : Bytes) : Ended g due (w.doClose reason) := by
  refine ⟨.inl ⟨by simp [hg], ?_⟩, ?_⟩
  · rw [doClose_log, after_append, hcurrent]
    simp [Log.after, hg, Log.handed, Event.handed, outbound]
  · rw [handed_during_doClose]
    exact hdue

theorem requested_checkWriting {g : Nat} {due : List (Bytes × Bool)} {w : World}
    (h : Requested g due w) (o : Outcome) :
    Requested g due (w.checkWriting o) ∨ Ended g due (w.checkWriting o) := by
  obtain ⟨rest, m, later, hqueue, hm, hrest, hdue⟩ := h.queue
  have hc := checkWriting_checked w o
  generalize w.checkWriting o = w' at hc
  cases hc with
  | idle => exact .inl h
  | next m' rest' hs hw hq ht =>
    obtain ⟨rest₀, rfl, rfl⟩ := queue_message (hqueue.symm.trans hq) hm ht
    refine .inl ⟨h.generation, h.state, ?_, rest₀, m, later, rfl, hm,
      fun x hx => hrest x (by simp [hx]), ?_⟩
    · rw [asyncWrite, start_log, after_append, h.current]
      exact after_none (by simp [h.generation])
    · rw [← hdue, outbound_cons_message ht]
      simp [asyncWrite, Log.during, Log.handed, Event.handed, h.generation]
  | marker m' rest' hs hw hq ht hweak =>
    obtain rfl := queue_disconnect (hqueue.symm.trans hq) hrest ht
    refine .inr ⟨.inr ⟨h.generation, rfl, ?_⟩, ?_⟩
    · rw [asyncCloseSocket, start_log, after_append, h.current]
      exact after_none (by simp [h.generation])
    · rw [← hdue, asyncCloseSocket, start_log, handed_during_quiet (by simp [Event.handed])]
      exact List.prefix_append _ _
  | abandoned m' rest' hs hw hq ht hcas =>
    obtain rfl := queue_disconnect (hqueue.symm.trans hq) hrest ht
    refine .inr (ended_doClose ?_ ?_ ?_ _)
    · exact h.generation
    · exact h.current
    · exact hdue ▸ List.prefix_append _ _

theorem requested_handed {g : Nat} {due : List (Bytes × Bool)} {w : World}
    (h : Requested g due w) : (Log.during g w.log).handed <+: due := by
  obtain ⟨rest, m, later, -, -, -, hdue⟩ := h.queue
  exact hdue ▸ List.prefix_append _ _

theorem requested_quiet {g : Nat} {due : List (Bytes × Bool)} {w v : World} {added : Log}
    (h : Requested g due w) (hq : Quiet w v added) (hs : v.state = w.state) :
    Requested g due v :=
  ⟨hq.generation.trans h.generation, hs.trans h.state,
    after_of_quiet hq h.generation h.current, by
    rw [hq.queue, handed_during_of_quiet hq]
    exact h.queue⟩

theorem requested_enqueue {g : Nat} {due : List (Bytes × Bool)} {w : World}
    (h : Requested g due w) (message : Bytes) (binary : Bool) :
    Requested g due (w.enqueue message binary) := by
  obtain ⟨rest, m, later, hqueue, hm, hrest, hdue⟩ := h.queue
  refine ⟨h.generation, h.state, ?_, rest, m, later ++ [⟨.message, message, binary⟩], ?_, hm,
    hrest, ?_⟩
  · rw [enqueue_log, after_append, h.current]
    exact after_none (by simp [h.generation])
  · simp [hqueue]
  · rw [enqueue_log, handed_during_quiet (by simp [Event.handed])]
    exact hdue

theorem requested_step {g : Nat} {due : List (Bytes × Bool)} {w : World} (h : Requested g due w)
    (s : Step) (hk : w.KeepsRequest s) :
    Requested g due (w.step s) ∨ Ended g due (w.step s) := by
  by_cases hf : w.fault = true
  · left
    simpa [step, hf] using h
  · have hstate := h.state
    have he := step_outward w s
    generalize w.step s = w' at he
    cases he with
    | same v added hq hs hw => exact .inl (requested_quiet h hq hs)
    | opened clear ha hs => simp [hstate] at hs
    | written message binary ha => exact requested_checkWriting (requested_enqueue h _ _) _
    | cleared ha => exact absurd hstate (hk ha (by simpa using hf))
    | requested ha hs => simp [hstate] at hs
    | requestedConnected ha hs => simp [hstate] at hs
    | closed v added reason hq hcause =>
      refine .inr (ended_doClose (hq.generation.trans h.generation)
        (after_of_quiet hq h.generation h.current) ?_ reason)
      rw [handed_during_of_quiet hq]
      exact requested_handed h
    | connected v added hq hs hv hw => simp [hstate] at hs
    | drained v added hq hs hw => exact requested_checkWriting (requested_quiet h hq hs) _

theorem ended_of_later {g : Nat} {due : List (Bytes × Bool)} {w w' : World} {added : Log}
    (hg : g < w.generation) (hdue : (Log.during g w.log).handed <+: due)
    (hlater : ((Log.after g w.log).handed ++ outbound w.writeQueue).Sublist
      (Log.after g w.log).written)
    (he : Extends w w' added) (ht : Tracks w w' added) : Ended g due w' := by
  have hstamp : ∀ e ∈ added, g < e.1 := fun e hm => Nat.lt_of_lt_of_le hg (he.stamped e hm).1
  refine ⟨.inl ⟨Nat.lt_of_lt_of_le hg he.generation, ?_⟩, ?_⟩
  · rw [he.log, after_append, after_all hstamp, handed_append, written_append, List.append_assoc]
    refine (List.Sublist.append_left ht.sublist _).trans ?_
    rw [← List.append_assoc]
    exact hlater.append_right _
  · have hnone : Log.during g added = [] := during_none (fun e hm => Nat.ne_of_gt (hstamp e hm))
    rw [he.log, during_append, hnone, List.append_nil]
    exact hdue

theorem ended_step {g : Nat} {due : List (Bytes × Bool)} {w : World} (h : Ended g due w)
    (s : Step) : Ended g due (w.step s) := by
  rcases h.closed with ⟨hg, hlater⟩ | ⟨hg, hstate, hcurrent⟩
  · obtain ⟨added, he⟩ := extends_step w s
    obtain ⟨added', ht⟩ := tracks_step w s
    obtain rfl : added = added' := List.append_cancel_left (he.log.symm.trans ht.log)
    exact ended_of_later hg h.handed hlater he ht
  · have he := step_outward w s
    generalize w.step s = w' at he
    cases he with
    | same v added hq hs hw =>
      refine ⟨.inr ⟨hq.generation.trans hg, hs.trans hstate, after_of_quiet hq hg hcurrent⟩, ?_⟩
      rw [handed_during_of_quiet hq]
      exact h.handed
    | opened clear ha hs => simp [hstate] at hs
    | written message binary ha =>
      rw [checkWriting_blocked (by simp [hstate]) (by simp [hstate])]
      refine ⟨.inr ⟨hg, hstate, ?_⟩, ?_⟩
      · rw [enqueue_log, after_append, hcurrent]
        exact after_none (by simp [hg])
      · rw [enqueue_log, handed_during_quiet (by simp [Event.handed])]
        exact h.handed
    | cleared ha =>
      refine ⟨.inr ⟨hg, hstate, ?_⟩, ?_⟩
      · rw [forget_log, after_append, hcurrent]
        exact after_none (by simp [hg])
      · rw [forget_log, handed_during_quiet (by simp [Event.handed])]
        exact h.handed
    | requested ha hs => simp [hstate] at hs
    | requestedConnected ha hs => simp [hstate] at hs
    | closed v added reason hq hcause =>
      refine ended_doClose (hq.generation.trans hg) (after_of_quiet hq hg hcurrent) ?_ reason
      rw [handed_during_of_quiet hq]
      exact h.handed
    | connected v added hq hs hv hw => simp [hstate] at hs
    | drained v added hq hs hw =>
      rw [checkWriting_blocked (by simp [hs, hstate]) (by simp [hs, hstate])]
      refine ⟨.inr ⟨hq.generation.trans hg, hs.trans hstate, after_of_quiet hq hg hcurrent⟩, ?_⟩
      rw [handed_during_of_quiet hq]
      exact h.handed

theorem closing_run {g : Nat} {due : List (Bytes × Bool)} {w : World}
    (h : Requested g due w ∨ Ended g due w) {ls : List Step}
    (hk : Machine.Along step KeepsRequest w ls) :
    Requested g due (w.run ls) ∨ Ended g due (w.run ls) :=
  Machine.run_invariant (I := fun v => Requested g due v ∨ Ended g due v)
    (fun _ s hv hok => hv.elim (fun hr => requested_step hr s hok)
      (fun he => .inr (ended_step he s))) h hk

theorem closing_later {g : Nat} {due : List (Bytes × Bool)} {w : World}
    (h : Requested g due w ∨ Ended g due w) :
    (Log.during g w.log).handed <+: due ∧
      (Log.after g w.log).handed.Sublist (Log.after g w.log).written := by
  rcases h with h | h
  · exact ⟨requested_handed h, by simp [h.current, Log.handed]⟩
  · refine ⟨h.handed, ?_⟩
    rcases h.closed with ⟨-, hs⟩ | ⟨-, -, hc⟩
    · exact (List.sublist_append_left _ _).trans hs
    · simp [hc, Log.handed]

theorem close_accepted {w : World} {o : Outcome} (h : (w.close o).1 = true) :
    w.state = .connecting ∨ w.state = .connected := by
  cases hs : w.state <;> simp [close, hs] at h ⊢

theorem requested_request {w : World} {low : Nat} (h : w.Marked low)
    (hc : Log.after w.generation w.log = [])
    (hs : w.state = .connecting ∨ w.state = .connected) :
    Requested w.generation ((Log.during w.generation w.log).handed ++ outbound w.writeQueue)
      w.request := by
  refine ⟨rfl, rfl, hc, w.writeQueue, { type := .disconnect }, [], rfl, rfl, ?_, rfl⟩
  have hm : markers w.writeQueue = 0 := by
    apply h.otherwise
    rcases hs with hs | hs <;> simp [hs]
  exact fun x hx => message_of_unmarked hm hx

theorem closing_close {w : World} {low : Nat} (h : w.Marked low) (hf : w.fault = false)
    (hcurrent : Log.after w.generation w.log = []) {o : Outcome} (hc : (w.close o).1 = true) :
    let due := (Log.during w.generation w.log).handed ++ outbound w.writeQueue
    Requested w.generation due (w.step ⟨.close, o⟩) ∨
      Ended w.generation due (w.step ⟨.close, o⟩) := by
  intro due
  have hs := close_accepted hc
  have hr := requested_request h hcurrent hs
  rcases hs with hs | hs
  · left
    have he : w.step ⟨.close, o⟩ = w.request := by simp [step, hf, close, hs, request]
    rw [he]
    exact hr
  · have he : w.step ⟨.close, o⟩ = w.request.checkWriting o := by
      simp [step, hf, close, hs, request]
    rw [he]
    exact requested_checkWriting hr o

theorem after_run (kind : SocketClass) (host : Bytes) (port : Nat) (path : Bytes)
    (ls : List Step) : let w := (new kind host port path).run ls
    Log.after w.generation w.log = [] := by
  intro w
  obtain ⟨added, h⟩ := extends_run (new kind host port path) ls
  refine after_none (fun e he => (h.stamped e ?_).2)
  have hlog : w.log = added := h.log
  exact hlog ▸ he

theorem remembered_along {w : World} (h : w.Marked 1) (ls : List Step) :
    (∀ xs, xs <+: ls → (w.run xs).CloseRemembered) ↔ Machine.Along step KeepsRequest w ls := by
  induction ls generalizing w with
  | nil => simp [Machine.Along, (marked_iff w).mp h]
  | cons s ls ih =>
    constructor
    · intro hall
      have hk : w.KeepsRequest s := by
        intro ha hf hs
        have hstep : w.step s = w.forget := by simp [step, hf, ha, forget]
        have hone : (w.step s).CloseRemembered := hall [s] (by simp)
        rw [hstep] at hone
        exact forget_forgets hs hone
      have hstep := marked_step h (Nat.le_refl 1) s (.inr hk)
      refine ⟨hk, (ih hstep).mp (fun xs hx => hall (s :: xs) ?_)⟩
      simpa using hx
    · rintro ⟨hk, hrest⟩ xs hx
      cases xs with
      | nil => exact (marked_iff w).mp h
      | cons x xs =>
        obtain ⟨rfl, hxs⟩ := List.cons_prefix_cons.mp hx
        exact (ih (marked_step h (Nat.le_refl 1) x (.inr hk))).mpr hrest xs hxs

theorem close_remembered (kind : SocketClass) (host : Bytes) (port : Nat) (path : Bytes)
    (ls : List Step) :
    let w₀ := new kind host port path
    ((∀ xs, xs <+: ls → (w₀.run xs).CloseRemembered) ↔ Machine.Along step KeepsRequest w₀ ls) ∧
    (Machine.Along step KeepsRequest w₀ ls → ∀ xs o ys, ls = xs ++ ⟨.close, o⟩ :: ys →
      let w := w₀.run xs
      w.fault = false → (w.close o).1 = true →
        (Log.during w.generation (w₀.run ls).log).handed <+:
          (Log.during w.generation w.log).handed ++ outbound w.writeQueue ∧
        (Log.after w.generation (w₀.run ls).log).handed.Sublist
          (Log.after w.generation (w₀.run ls).log).written) := by
  intro w₀
  have h₀ : w₀.Marked 1 := marked_new kind host port path
  refine ⟨remembered_along h₀ ls, ?_⟩
  rintro hk xs o ys rfl w hf hc
  obtain ⟨hkx, -, hky⟩ := Machine.along_append.mp hk
  have hclose := closing_close (marked_run h₀ hkx) hf (after_run kind host port path xs) hc
  have hrun : w₀.run (xs ++ ⟨.close, o⟩ :: ys) = (w.step ⟨.close, o⟩).run ys :=
    Machine.run_append step w₀ xs _
  rw [hrun]
  exact closing_later (closing_run hclose hky)

theorem close_remembered_queued :
    let w₀ := new .webSocket [] 80 []
    let w := w₀.run [⟨.openSocket true, {}⟩, ⟨.write [1] false, {}⟩]
    let ls : List Step := [⟨.openSocket true, {}⟩, ⟨.write [1] false, {}⟩, ⟨.close, {}⟩,
      ⟨.write [2] false, {}⟩]
    (w.close {}).1 = true ∧ outbound w.writeQueue = [([1], false)] ∧
      (Log.during w.generation (w₀.run ls).log).handed <+: [([1], false)] :=
  ⟨by decide +kernel, by decide,
    ((close_remembered .webSocket [] 80 [] [⟨.openSocket true, {}⟩, ⟨.write [1] false, {}⟩,
      ⟨.close, {}⟩, ⟨.write [2] false, {}⟩]).2 (by simp [Machine.Along, KeepsRequest])
      [⟨.openSocket true, {}⟩, ⟨.write [1] false, {}⟩] {} [⟨.write [2] false, {}⟩] rfl (by decide)
      (by decide +kernel)).1⟩

theorem clearQueue_forgets_close :
    let w := (new .webSocket [] 80 []).run
      (⟨.openSocket true, {}⟩ :: plainConnect 0 1 ++ [⟨.write [1] false, {}⟩, ⟨.close, {}⟩])
    let v := w.run [⟨.clearQueue, {}⟩, ⟨.write [2] true, {}⟩,
      ⟨.complete ⟨.write [1] false, 1, some (plainStream 0 1), []⟩ ⟨.success, []⟩, {}⟩]
    w.state = .disconnectRequested ∧ (w.step ⟨.clearQueue, {}⟩).state = .disconnectRequested ∧
      (w.step ⟨.clearQueue, {}⟩).writeQueue = [] ∧
      (w.log.written = [([1], false)] ∧ v.log.handed = [([1], false), ([2], true)]) ∧
      v.generation = w.generation := by
  decide +kernel

end World
end GWSockets
