import GWSockets.Library.Fifo
import GWSockets.Outward

namespace GWSockets

inductive Discard where
  | cleared
  | closed
deriving DecidableEq, Repr

abbrev OutboundOp := Fifo.Op (Bytes × Bool) Discard

abbrev OutboundLedger := Fifo.Ledger (Bytes × Bool) Discard

def Event.outboundOp : Event → Option OutboundOp
  | .written message binary => some (.push (message, binary))
  | .started op =>
      match op.kind with
      | .write message binary => some (.take (message, binary))
      | _ => none
  | .opened [] => none
  | .opened discarded | .cleared discarded => some (.drop .cleared discarded)
  | .closed discarded => some (.drop .closed discarded)
  | _ => none

def Log.outboundOps (log : Log) : List OutboundOp := log.filterMap (fun e => e.2.outboundOp)

def Log.cleared (log : Log) : List (Bytes × Bool) :=
  log.flatMap (fun e => e.2.discardedByClear.getD [])

def Log.closed (log : Log) : List (Bytes × Bool) :=
  log.flatMap (fun e => e.2.discardedByClose.getD [])

@[simp] theorem outboundOps_append (xs ys : Log) :
    Log.outboundOps (xs ++ ys) = Log.outboundOps xs ++ Log.outboundOps ys :=
  List.filterMap_append ..

@[simp] theorem cleared_append (xs ys : Log) :
    Log.cleared (xs ++ ys) = Log.cleared xs ++ Log.cleared ys := by simp [Log.cleared]

@[simp] theorem closed_append (xs ys : Log) :
    Log.closed (xs ++ ys) = Log.closed xs ++ Log.closed ys := by simp [Log.closed]

theorem outboundOp_of_quiet {e : Event} (h : e.quiet = true) : e.outboundOp = none := by
  cases e with
  | started op =>
    cases hk : op.kind <;> simp_all [Event.quiet, Event.outboundOp, OperationKind.isWrite]
  | opened => simp [Event.quiet] at h
  | _ => simp_all [Event.quiet, Event.outboundOp]

theorem outboundOps_of_quiet {log : Log} (h : ∀ e ∈ log, e.2.quiet = true) :
    log.outboundOps = [] :=
  List.filterMap_eq_nil_iff.mpr (fun e he => outboundOp_of_quiet (h e he))

theorem cleared_of_quiet_log {log : Log} (h : ∀ e ∈ log, e.2.quiet = true) : log.cleared = [] := by
  rw [Log.cleared, List.flatMap_eq_nil_iff]
  intro e he
  rw [cleared_of_quiet (h e he)]
  rfl

theorem closed_of_quiet_log {log : Log} (h : ∀ e ∈ log, e.2.quiet = true) : log.closed = [] := by
  rw [Log.closed, List.flatMap_eq_nil_iff]
  intro e he
  rw [closed_of_quiet (h e he)]
  rfl

theorem pushed_outboundOps (log : Log) : Fifo.pushed log.outboundOps = log.written := by
  rw [Fifo.pushed, Log.outboundOps, List.filterMap_filterMap, Log.written]
  congr 1
  funext e
  rcases e with ⟨g, e⟩
  cases e with
  | started op => cases hk : op.kind <;> simp [Event.outboundOp, Event.isWritten, hk]
  | opened discarded => cases discarded <;> rfl
  | _ => rfl

theorem takenBy_outboundOps (log : Log) : Fifo.takenBy log.outboundOps = log.handed := by
  rw [Fifo.takenBy, Log.outboundOps, List.filterMap_filterMap, Log.handed]
  congr 1
  funext e
  rcases e with ⟨g, e⟩
  cases e with
  | started op => cases hk : op.kind <;> simp [Event.outboundOp, Event.handed, hk]
  | opened discarded => cases discarded <;> rfl
  | _ => rfl

theorem droppedBy_single (cause : Discard) (e : Nat × Event) :
    Fifo.droppedBy cause (Log.outboundOps [e]) =
      if cause = .cleared then Log.cleared [e] else Log.closed [e] := by
  rcases e with ⟨g, e⟩
  cases cause <;> cases e with
  | started op =>
    cases hk : op.kind <;> simp [Log.outboundOps, Event.outboundOp, Fifo.droppedBy, hk, Log.cleared,
      Log.closed, Event.discardedByClear, Event.discardedByClose]
  | opened discarded => cases discarded <;> simp [Log.outboundOps, Event.outboundOp, Fifo.droppedBy,
      Log.cleared, Log.closed, Event.discardedByClear, Event.discardedByClose]
  | _ => simp [Log.outboundOps, Event.outboundOp, Fifo.droppedBy, Log.cleared, Log.closed,
      Event.discardedByClear, Event.discardedByClose]

theorem droppedBy_outboundOps (cause : Discard) (log : Log) :
    Fifo.droppedBy cause log.outboundOps =
      if cause = .cleared then log.cleared else log.closed := by
  induction log with
  | nil => cases cause <;> rfl
  | cons e log ih =>
    have hsplit : Log.outboundOps (e :: log) = Log.outboundOps [e] ++ Log.outboundOps log :=
      outboundOps_append [e] log
    rw [hsplit, Fifo.droppedBy_append, ih, droppedBy_single]
    cases cause <;> simp [Log.cleared, Log.closed]

namespace World

structure Tracks (w w' : World) (added : Log) : Prop where
  log : w'.log = w.log ++ added
  replay : ∀ L : OutboundLedger, L.waiting = outbound w.writeQueue →
    ∃ L', L.replay added.outboundOps = some L' ∧ L'.waiting = outbound w'.writeQueue

theorem Tracks.refl (w : World) : Tracks w w [] := ⟨by simp, fun L hL => ⟨L, rfl, hL⟩⟩

theorem Tracks.trans {u v w : World} {xs ys : Log} (h : Tracks u v xs) (h' : Tracks v w ys) :
    Tracks u w (xs ++ ys) := by
  refine ⟨by rw [h'.log, h.log, List.append_assoc], ?_⟩
  intro L hL
  obtain ⟨L₁, hr₁, hw₁⟩ := h.replay L hL
  obtain ⟨L₂, hr₂, hw₂⟩ := h'.replay L₁ hw₁
  refine ⟨L₂, ?_, hw₂⟩
  rw [outboundOps_append, Fifo.Ledger.replay_append, hr₁]
  exact hr₂

theorem Tracks.of_silent {w v : World} {added : Log} (hlog : v.log = w.log ++ added)
    (hops : added.outboundOps = []) (hq : outbound v.writeQueue = outbound w.writeQueue) :
    Tracks w v added :=
  ⟨hlog, fun L hL => ⟨L, by rw [hops, Fifo.Ledger.replay_nil], hL.trans hq.symm⟩⟩

theorem tracks_quiet {w v : World} {added : Log} (h : Quiet w v added) : Tracks w v added :=
  .of_silent h.log (outboundOps_of_quiet (fun e he => (h.quiet e he).2)) (by rw [h.queue])

theorem tracks_take {w v : World} {op : Operation} {m : GWSocketMessageOut}
    {rest : List GWSocketMessageOut} (hlog : v.log = w.log ++ [(w.generation, .started op)])
    (hkind : op.kind = .write m.message m.binary) (hq : w.writeQueue = m :: rest)
    (ht : m.type = .message) (hrest : v.writeQueue = rest) :
    Tracks w v [(w.generation, .started op)] := by
  refine ⟨hlog, fun L hL => ?_⟩
  rw [hq, outbound_cons_message ht] at hL
  exact ⟨⟨L.settled ++ [((m.message, m.binary), .taken)], outbound rest⟩,
    by simp [Log.outboundOps, Event.outboundOp, hkind, Fifo.Ledger.replay, Fifo.Ledger.apply, hL],
    by rw [hrest]⟩

theorem tracks_drop {w v : World} {added : Log} (cause : Discard) (hlog : v.log = w.log ++ added)
    (hops : added.outboundOps = [.drop cause (outbound w.writeQueue)]) (hq : v.writeQueue = []) :
    Tracks w v added := by
  refine ⟨hlog, fun L hL => ?_⟩
  exact ⟨⟨L.settled ++ (outbound w.writeQueue).map (fun a => (a, .dropped cause)), []⟩,
    by simp [hops, Fifo.Ledger.replay, Fifo.Ledger.apply, hL], by simp [hq, outbound]⟩

theorem tracks_doClose (w : World) (reason : Bytes) :
    Tracks w (w.doClose reason) [(w.generation + 1, .closed (outbound w.writeQueue)),
      (w.generation + 1, .put ⟨.disconnected, reason⟩)] :=
  tracks_drop .closed (doClose_log w reason) rfl rfl

theorem tracks_checkWriting (w : World) (o : Outcome) :
    ∃ added, Tracks w (w.checkWriting o) added := by
  have hc := checkWriting_checked w o
  generalize w.checkWriting o = w' at hc
  cases hc with
  | idle => exact ⟨_, .refl w⟩
  | next m rest hs hw hq ht => exact ⟨_, tracks_take rfl rfl hq ht rfl⟩
  | marker m rest hs hw hq ht =>
    exact ⟨_, .of_silent rfl rfl (by rw [hq, outbound_cons_disconnect ht]; rfl)⟩
  | abandoned m rest hs hw hq ht =>
    have hd : Tracks w { w with writing := true, writeQueue := rest } [] :=
      .of_silent (List.append_nil _).symm rfl (by rw [hq, outbound_cons_disconnect ht])
    exact ⟨_, hd.trans (tracks_doClose _ _)⟩

theorem tracks_enqueue (w : World) (message : Bytes) (binary : Bool) :
    Tracks w (w.enqueue message binary) [(w.generation, .written message binary)] := by
  refine ⟨rfl, fun L hL => ⟨{ L with waiting := L.waiting ++ [(message, binary)] }, rfl, ?_⟩⟩
  simp [hL, outbound]

theorem tracks_opened {w : World} (clear : Bool) (hs : w.state = .disconnected) :
    ∃ added, Tracks w (w.openSocket clear) added := by
  have hq := openSocket_writeQueue clear hs
  have hlog := openSocket_log clear hs
  cases clear with
  | false => exact ⟨_, .of_silent hlog rfl (by rw [hq]; rfl)⟩
  | true =>
    cases hout : outbound w.writeQueue with
    | nil =>
      refine ⟨_, .of_silent hlog (by simp [hout, Log.outboundOps, Event.outboundOp]) ?_⟩
      rw [hq, hout]
      rfl
    | cons m rest =>
      exact ⟨_, tracks_drop .cleared hlog
        (by simp [hout, Log.outboundOps, Event.outboundOp]) (by simpa using hq)⟩

theorem Tracks.then_checkWriting {w v : World} {xs : Log} (h : Tracks w v xs) (o : Outcome) :
    ∃ added, Tracks w (v.checkWriting o) added := by
  obtain ⟨ys, h'⟩ := tracks_checkWriting v o
  exact ⟨_, h.trans h'⟩

theorem tracks_request (w : World) : Tracks w w.request [] :=
  .of_silent (List.append_nil _).symm rfl (by simp [outbound])

theorem tracks_step (w : World) (s : Step) : ∃ added, Tracks w (w.step s) added := by
  have he := step_outward w s
  generalize w.step s = w' at he
  cases he with
  | same v added hq => exact ⟨_, tracks_quiet hq⟩
  | opened clear ha hs => exact tracks_opened clear hs
  | written message binary => exact (tracks_enqueue w message binary).then_checkWriting _
  | cleared => exact ⟨_, tracks_drop .cleared (forget_log w) rfl rfl⟩
  | requested => exact ⟨_, tracks_request w⟩
  | requestedConnected => exact (tracks_request w).then_checkWriting _
  | closed v added reason hq => exact ⟨_, (tracks_quiet hq).trans (tracks_doClose v reason)⟩
  | connected v added hq => exact (tracks_quiet hq).then_checkWriting _
  | drained v added hq => exact (tracks_quiet hq).then_checkWriting _

theorem tracks_run (w : World) (ls : List Step) : ∃ added, Tracks w (w.run ls) added := by
  refine Machine.run_related (R := fun v u => ∃ added, Tracks v u added) (fun v => ⟨_, .refl v⟩)
    ?_ tracks_step w ls
  rintro u v x ⟨xs, h⟩ ⟨ys, h'⟩
  exact ⟨_, h.trans h'⟩

structure Balanced (L : OutboundLedger) (carried : List (Bytes × Bool)) (log : Log)
    (queued : List (Bytes × Bool)) : Prop where
  offered : L.offered = carried ++ log.written
  handed : L.ended .taken = log.handed
  queued : L.waiting = queued
  cleared : L.ended (.dropped .cleared) = log.cleared
  closed : L.ended (.dropped .closed) = log.closed

theorem Tracks.ledger {w w' : World} {added : Log} (h : Tracks w w' added) :
    ∃ L, Balanced L (outbound w.writeQueue) added (outbound w'.writeQueue) := by
  obtain ⟨L, hr, hw⟩ := h.replay (Fifo.Ledger.opening (outbound w.writeQueue)) rfl
  refine ⟨L, ?_, ?_, hw, ?_, ?_⟩
  · rw [Fifo.Ledger.replay_offered hr, pushed_outboundOps]
    rfl
  · rw [Fifo.Ledger.replay_taken hr, takenBy_outboundOps]
    rfl
  · rw [Fifo.Ledger.replay_dropped _ hr, droppedBy_outboundOps]
    rfl
  · rw [Fifo.Ledger.replay_dropped _ hr, droppedBy_outboundOps]
    rfl

theorem Tracks.sublist {w w' : World} {added : Log} (h : Tracks w w' added) :
    (added.handed ++ outbound w'.writeQueue).Sublist (outbound w.writeQueue ++ added.written) := by
  obtain ⟨L, hL⟩ := h.ledger
  rw [← hL.offered, ← hL.handed, ← hL.queued]
  exact L.taken_waiting_sublist

theorem Tracks.undropped {w w' : World} {added : Log} (h : Tracks w w' added)
    (hcleared : added.cleared = []) (hclosed : added.closed = []) :
    added.handed ++ outbound w'.writeQueue = outbound w.writeQueue ++ added.written := by
  obtain ⟨L, hL⟩ := h.ledger
  rw [← hL.offered, ← hL.handed, ← hL.queued]
  apply Fifo.Ledger.taken_waiting_eq
  rintro (_ | _)
  · rw [hL.cleared, hcleared]
  · rw [hL.closed, hclosed]

structure Kept (w w' : World) (added : Log) : Prop where
  tracks : Tracks w w' added
  cleared : added.cleared = []
  closed : added.closed = []

theorem Kept.trans {u v w : World} {xs ys : Log} (h : Kept u v xs) (h' : Kept v w ys) :
    Kept u w (xs ++ ys) :=
  ⟨h.tracks.trans h'.tracks, by rw [cleared_append, h.cleared, h'.cleared]; rfl,
    by rw [closed_append, h.closed, h'.closed]; rfl⟩

theorem kept_quiet {w v : World} {added : Log} (h : Quiet w v added) : Kept w v added :=
  ⟨tracks_quiet h, cleared_of_quiet_log (fun e he => (h.quiet e he).2),
    closed_of_quiet_log (fun e he => (h.quiet e he).2)⟩

theorem kept_checkWriting {w : World} {o : Outcome}
    (hg : (w.checkWriting o).generation = w.generation) :
    ∃ added, Kept w (w.checkWriting o) added := by
  have hc := checkWriting_checked w o
  generalize w.checkWriting o = w' at hc hg
  cases hc with
  | idle => exact ⟨_, .refl w, rfl, rfl⟩
  | next m rest hs hw hq ht => exact ⟨_, tracks_take rfl rfl hq ht rfl, rfl, rfl⟩
  | marker m rest hs hw hq ht =>
    exact ⟨_, .of_silent rfl rfl (by rw [hq, outbound_cons_disconnect ht]; rfl), rfl, rfl⟩
  | abandoned m rest => simp at hg

theorem Kept.then_checkWriting {w v : World} {xs : Log} (h : Kept w v xs) {o : Outcome}
    (hg : (v.checkWriting o).generation = v.generation) :
    ∃ added, Kept w (v.checkWriting o) added := by
  obtain ⟨ys, h'⟩ := kept_checkWriting hg
  exact ⟨_, h.trans h'⟩

theorem kept_step {w : World} {s : Step} (hg : (w.step s).generation = w.generation)
    (ha : s.action ≠ .clearQueue) : ∃ added, Kept w (w.step s) added := by
  have he := step_outward w s
  generalize w.step s = w' at he hg
  cases he with
  | same v added hq => exact ⟨_, kept_quiet hq⟩
  | opened clear ha hs => simp [openSocket_generation clear hs] at hg
  | written message binary =>
    exact Kept.then_checkWriting ⟨tracks_enqueue w message binary, rfl, rfl⟩ hg
  | cleared hc => exact absurd hc ha
  | requested => exact ⟨_, tracks_request w, rfl, rfl⟩
  | requestedConnected => exact Kept.then_checkWriting ⟨tracks_request w, rfl, rfl⟩ hg
  | closed v added reason hq => simp [hq.generation] at hg
  | connected v added hq =>
    exact (kept_quiet hq).then_checkWriting (hg.trans hq.generation.symm)
  | drained v added hq => exact (kept_quiet hq).then_checkWriting (hg.trans hq.generation.symm)

theorem kept_run {w : World} {ls : List Step} (hg : (w.run ls).generation = w.generation)
    (ha : ∀ s ∈ ls, s.action ≠ .clearQueue) : ∃ added, Kept w (w.run ls) added := by
  induction ls generalizing w with
  | nil => exact ⟨_, .refl w, rfl, rfl⟩
  | cons s ls ih =>
    have hle := generation_le_run w [s]
    have hge := generation_le_run (w.step s) ls
    have hs : (w.step s).generation = w.generation :=
      Nat.le_antisymm (Nat.le_trans hge (Nat.le_of_eq hg)) hle
    obtain ⟨xs, h⟩ := kept_step hs (ha s (by simp))
    obtain ⟨ys, h'⟩ := ih (hg.trans hs.symm) (fun t ht => ha t (by simp [ht]))
    exact ⟨_, h.trans h'⟩

theorem outbound_accounted (kind : SocketClass) (host : Bytes) (port : Nat) (path : Bytes)
    (ls : List Step) :
    let w := (new kind host port path).run ls
    (∃ L, Balanced L [] w.log (outbound w.writeQueue)) ∧
    (w.log.handed ++ outbound w.writeQueue).Sublist w.log.written ∧
    (w.state = .disconnected → (w.openSocket false).writeQueue = w.writeQueue ∧
      ∀ later, ∃ added, ((w.openSocket false).run later).log = (w.openSocket false).log ++ added ∧
        (∃ L, Balanced L (outbound w.writeQueue) added
          (outbound ((w.openSocket false).run later).writeQueue)) ∧
        (((w.openSocket false).run later).generation = (w.openSocket false).generation →
          (∀ s ∈ later, s.action ≠ .clearQueue) →
          added.handed ++ outbound ((w.openSocket false).run later).writeQueue =
            outbound w.writeQueue ++ added.written)) := by
  intro w
  have hnew : ∃ added, Tracks (new kind host port path) w added ∧ w.log = added := by
    obtain ⟨added, h⟩ := tracks_run (new kind host port path) ls
    exact ⟨added, h, h.log⟩
  obtain ⟨added, h, rfl⟩ := hnew
  refine ⟨h.ledger, h.sublist, fun hs => ?_⟩
  have hq : (w.openSocket false).writeQueue = w.writeQueue := openSocket_writeQueue false hs
  refine ⟨hq, fun later => ?_⟩
  obtain ⟨xs, hx⟩ := tracks_run (w.openSocket false) later
  refine ⟨xs, hx.log, hq ▸ hx.ledger, fun hg ha => ?_⟩
  obtain ⟨ys, hy⟩ := kept_run hg ha
  obtain rfl : xs = ys := List.append_cancel_left (hx.log.symm.trans hy.tracks.log)
  rw [← hq]
  exact hx.undropped hy.cleared hy.closed

theorem outbound_accounted_carried :
    let w := (new .webSocket [] 80 []).run [⟨.write [1] false, {}⟩]
    let v := (w.openSocket false).run (⟨.write [3] true, {}⟩ :: plainConnect 0 1)
    v.log.handed = [([1], false)] ∧ outbound v.writeQueue = [([3], true)] ∧
      (w.openSocket false).writeQueue = w.writeQueue :=
  ⟨by decide +kernel, by decide,
    ((outbound_accounted .webSocket [] 80 [] [⟨.write [1] false, {}⟩]).2.2 (by decide +kernel)).1⟩

theorem carried_message_discarded :
    let w := (new .webSocket [] 80 []).run [⟨.write [1] false, {}⟩]
    let later : List Step :=
      [⟨.complete ⟨.resolve [] (decimal 80), 1, none, []⟩ ⟨.other 1, []⟩, {}⟩,
        ⟨.openSocket false, {}⟩, ⟨.write [3] false, {}⟩] ++ plainConnect 0 3
    w.state = .disconnected ∧ outbound w.writeQueue = [([1], false)] ∧
      (∀ s ∈ later, s.action ≠ .clearQueue) ∧
      ((w.openSocket false).run later).log.handed = [([3], false)] := by
  decide +kernel

end World
end GWSockets
