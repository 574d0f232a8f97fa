import GWSockets.Fault
import GWSockets.Library.Trace
import GWSockets.Lifetime

namespace GWSockets

def held (n : Nat) (log : List ReferenceEvent) : Bool :=
  log.foldl (fun held e => match e with
    | .created m => if m = n then true else held
    | .freed m => if m = n then false else held) false

def ReferenceEvent.Allowed (before : List ReferenceEvent) : ReferenceEvent → Prop
  | .created n => held n before = false
  | .freed n => held n before = true

section references

variable (n : Nat) (log : List ReferenceEvent)

theorem held_created (m : Nat) :
    held n (log ++ [.created m]) = if m = n then true else held n log := by
  simp [held, List.foldl_append]

theorem held_freed (m : Nat) :
    held n (log ++ [.freed m]) = if m = n then false else held n log := by
  simp [held, List.foldl_append]

variable {n log}

theorem held_append {added : List ReferenceEvent} (h : held n (log ++ added) = true) :
    .created n ∈ added ∨ held n log = true := by
  induction added using List.reverseRecOn with
  | nil => exact .inr (by simpa using h)
  | append_singleton added e ih =>
    rw [← List.append_assoc] at h
    cases e with
    | created m =>
      rw [held_created] at h
      split at h
      · next hm => exact .inl (by simp [hm])
      · exact (ih h).imp (List.mem_append_left _) id
    | freed m =>
      rw [held_freed] at h
      split at h
      · cases h
      · exact (ih h).imp (List.mem_append_left _) id

theorem freed_after_created (h : Trace.Causal ReferenceEvent.Allowed log)
    {before after : List ReferenceEvent} (hlog : log = before ++ .freed n :: after) :
    .created n ∈ before := by
  have hb : held n ([] ++ before) = true := h before (.freed n) after hlog
  exact (held_append hb).resolve_right (by simp [held])

theorem freed_once (h : Trace.Causal ReferenceEvent.Allowed log)
    {before between after : List ReferenceEvent}
    (hlog : log = before ++ .freed n :: (between ++ .freed n :: after)) :
    .created n ∈ between := by
  have hsplit : log = (before ++ [.freed n] ++ between) ++ .freed n :: after := by simp [hlog]
  have hb : held n (before ++ [.freed n] ++ between) = true := h _ _ _ hsplit
  refine (held_append hb).resolve_right ?_
  simp [held_freed]

end references

namespace GLua

structure Balanced (g : GLua) : Prop where
  paired : Trace.Causal ReferenceEvent.Allowed g.references
  live : ∀ n, held n g.references = true ↔ n ∈ g.registry
  once : g.deleted.Nodup

namespace Balanced

variable {g g' : GLua}

theorem init : Balanced {} := ⟨Trace.causal_nil, by simp [held], by simp⟩

theorem same (h : Balanced g) (hr : g'.references = g.references) (hl : g'.registry = g.registry)
    (hd : g'.deleted = g.deleted) : Balanced g' :=
  ⟨hr ▸ h.paired, hr ▸ hl ▸ h.live, hd ▸ h.once⟩

theorem keep (h : Balanced g) {i : SocketId} {n : Nat} (hn : n ∉ g.registry) :
    Balanced (g.keep i n) := by
  have hfree : held n g.references = false := by
    rw [← Bool.not_eq_true, h.live n]
    exact hn
  refine ⟨Trace.causal_snoc.mpr ⟨h.paired, hfree⟩, fun m => ?_, h.once⟩
  have hl := h.live m
  simp only [GLua.keep, held_created, AList.mem_insert]
  split
  · next hm => simp [hm]
  · next hm => simp [hl, Ne.symm hm]

theorem release (h : Balanced g) (hr : Registered g) {i : SocketId} {n : Nat}
    (hl : g.socketTableReferences.lookup i = some n) : Balanced (g.release i n) := by
  have hlive : held n g.references = true := by
    rw [h.live n]
    exact AList.lookup_isSome.mp (by simp [hr.held i n hl])
  refine ⟨Trace.causal_snoc.mpr ⟨h.paired, hlive⟩, fun m => ?_, h.once⟩
  have hm := h.live m
  simp only [GLua.release, held_freed, AList.mem_erase]
  split
  · next hmn => simp [hmn]
  · next hmn => simp [hm, Ne.symm hmn]

theorem move (h : Balanced g) (hr : Registered g) (hm : Move g g') : Balanced g' := by
  cases hm with
  | stirred g' hs =>
    cases hs with
    | touched g' ht =>
      cases ht with
      | kept i n hi hni hn => exact h.keep hn
      | acted | opened => exact h.same (by simp) (by simp) (by simp)
      | created | collected | freed => exact h.same rfl rfl rfl
    | noted => exact h.same rfl rfl rfl
  | taken i => exact h.same (by simp) (by simp) (by simp)
  | lost => exact h.same rfl rfl rfl
  | released i n hl => exact h.release hr hl

theorem moves (h : Balanced g) (hr : Registered g) (hm : Moves g g') : Balanced g' := by
  induction hm with
  | refl => exact h
  | tail hms hm ih => exact ih.move (hr.moves hms) hm

theorem deleteCollected (h : Balanced g) (hr : Registered g) : Balanced g.deleteCollected := by
  refine ⟨h.paired, h.live, Multiset.nodup_add.mpr ⟨h.once, g.finished.nodup, ?_⟩⟩
  rw [Multiset.disjoint_left]
  intro i hi hf
  exact hr.gone i hi (hr.gced i (Finset.mem_filter.mp hf).1)

theorem step (h : Balanced g) (hr : Registered g) (s : GLuaStep) : Balanced (g.step s) := by
  have hs := step_stepped g s
  generalize g.step s = g' at hs
  cases hs with
  | dead => exact h
  | called c => exact h.moves hr (call_touches g c).stirs.moves
  | broken t => exact h.moves hr (poll_moves g t)
  | thought t hc hp g' he hm =>
    subst he
    have hpr := hr.moves (poll_moves g t)
    exact ((h.moves hr (poll_moves g t)).deleteCollected hpr).moves hpr.deleteCollected hm

end Balanced

theorem balanced_run (ls : List GLuaStep) : Balanced (run {} ls) := by
  induction ls using List.reverseRecOn with
  | nil => exact .init
  | append_singleton ls s ih =>
    rw [run, Machine.run_append]
    exact ih.step (registered_run ls) s

structure Sound (g : GLua) : Prop where
  plugged : ∀ i, (g.sockets i).Plugged
  faultless : g.crash = none → ∀ i, (g.sockets i).fault = false

namespace Sound

variable {g g' : GLua}

theorem init : Sound {} := ⟨fun _ => World.plugged_new .webSocket [] 0 [], fun _ _ => rfl⟩

theorem act_crash {i : SocketId} {s : Step} (hi : i ∈ g.allSockets) :
    (g.act i s).crash = if ((g.sockets i).step s).fault then some .nullStream else g.crash := by
  simp [GLua.act, hi]

theorem act (h : Sound g) {i : SocketId} (hi : i ∈ g.allSockets) (s : Step) :
    Sound (g.act i s) := by
  refine ⟨fun j => ?_, fun hc j => ?_⟩
  · by_cases hj : j = i
    · subst hj
      rw [act_sockets_self hi]
      exact World.plugged_step (h.plugged j) s
    · rw [act_sockets_ne hj]
      exact h.plugged j
  · by_cases hj : j = i
    · subst hj
      rw [act_sockets_self hi]
      rw [act_crash hi] at hc
      cases hf : ((g.sockets j).step s).fault with
      | false => rfl
      | true => simp [hf] at hc
    · rw [act_sockets_ne hj]
      exact h.faultless (act_crash_none hc).2 j

theorem create (h : Sound g) (kind : SocketClass) (host : Bytes) (port : Nat) (path : Bytes) :
    Sound (g.createWebSocket kind host port path) := by
  refine ⟨fun j => ?_, fun hc j => ?_⟩ <;> by_cases hj : j = g.created
  · subst hj
    simpa [createWebSocket] using World.plugged_new kind host port path
  · simpa [createWebSocket, hj] using h.plugged j
  · subst hj
    simp [createWebSocket, World.new]
  · simpa [createWebSocket, hj] using h.faultless hc j

theorem move (h : Sound g) (hm : Move g g') : Sound g' := by
  have hcrash : ∀ c, Sound (g.fail c) := fun c => ⟨h.plugged, fun hc => by cases hc⟩
  cases hm with
  | stirred g' hs =>
    cases hs with
    | touched g' ht =>
      cases ht with
      | created kind host port path => exact h.create kind host port path
      | acted i s hi => exact h.act hi s
      | opened i clear hi => exact h.act hi.1 _
      | kept | collected => exact ⟨h.plugged, h.faultless⟩
      | freed => exact hcrash _
    | noted => exact ⟨h.plugged, h.faultless⟩
  | taken i hi => exact h.act hi _
  | lost => exact hcrash _
  | released => exact ⟨h.plugged, h.faultless⟩

theorem moves (h : Sound g) (hm : Moves g g') : Sound g' :=
  Machine.closure_invariant (I := Sound) (fun _ _ => move) h hm

theorem deleteCollected (h : Sound g) : Sound g.deleteCollected := ⟨h.plugged, h.faultless⟩

theorem step (h : Sound g) (s : GLuaStep) : Sound (g.step s) := by
  have hs := step_stepped g s
  generalize g.step s = g' at hs
  cases hs with
  | dead => exact h
  | called c => exact h.moves (call_touches g c).stirs.moves
  | broken t => exact h.moves (poll_moves g t)
  | thought t hc hp g' he hm =>
    subst he
    exact (h.moves (poll_moves g t)).deleteCollected.moves hm

theorem act_alive (h : Sound g) {i : SocketId} {s : Step} (hi : i ∈ g.allSockets)
    (hwrite : ∀ m b, s.action ≠ .write m b) (hc : g.crash = none) : (g.act i s).crash = none := by
  have hf := World.step_faultless (h.plugged i) s hwrite (h.faultless hc i)
  simp [act_crash hi, hf, hc]

end Sound

theorem sound_run (ls : List GLuaStep) : Sound (run {} ls) :=
  Machine.always_invariant (fun _ s h => h.step s) .init ls

section destroy

variable {g : GLua}

structure Ruined (g g' : GLua) (gone : List SocketId) : Prop where
  created : g'.created = g.created
  allSockets : g'.allSockets = g.allSockets
  references : g'.references = g.references
  moduleOpen : g'.moduleOpen = g.moduleOpen
  deleted : g'.deleted = gone + g.deleted

theorem act_moduleOpen (g : GLua) (i : SocketId) (s : Step) :
    (g.act i s).moduleOpen = g.moduleOpen := by
  unfold act
  split <;> rfl

theorem destroy_running (hc : g.crash = none) (i : SocketId) : g.destroy i =
    { g.act i ⟨.closeNow (ascii "No reason specified"), {}⟩ with
      deleted := i ::ₘ (g.act i ⟨.closeNow (ascii "No reason specified"), {}⟩).deleted } := by
  simp [destroy, hc]

theorem destroy_ruined (hc : g.crash = none) (i : SocketId) : Ruined g (g.destroy i) [i] := by
  rw [destroy_running hc]
  exact ⟨by simp, by simp, by simp, by simp [act_moduleOpen], by simp⟩

theorem destroy_crashed (hc : g.crash.isSome) (i : SocketId) : g.destroy i = g := by
  simp [destroy, hc]

theorem destroys_crashed (hc : g.crash.isSome) (order : List SocketId) :
    order.foldl destroy g = g := by
  induction order with
  | nil => rfl
  | cons i order ih => rw [List.foldl_cons, destroy_crashed hc, ih]

theorem destroy_alive (h : Sound g) {i : SocketId} (hi : i ∈ g.allSockets) (hc : g.crash = none) :
    Sound (g.destroy i) ∧ (g.destroy i).crash = none := by
  have ha := h.act hi ⟨.closeNow (ascii "No reason specified"), {}⟩
  rw [destroy_running hc]
  exact ⟨⟨ha.plugged, ha.faultless⟩, h.act_alive hi (by simp) hc⟩

theorem destroys_ruined {order : List SocketId} (h : Sound g) (hi : ∀ i ∈ order, i ∈ g.allSockets)
    (hc : g.crash = none) :
    Ruined g (order.foldl destroy g) order ∧ (order.foldl destroy g).crash = none := by
  induction order generalizing g with
  | nil => exact ⟨⟨rfl, rfl, rfl, rfl, by simp⟩, hc⟩
  | cons i order ih =>
    have h1 := destroy_ruined hc i
    obtain ⟨hs, hn⟩ := destroy_alive h (hi i (by simp)) hc
    obtain ⟨h2, hend⟩ := ih hs
      (fun j hj => h1.allSockets ▸ hi j (List.mem_cons_of_mem i hj)) hn
    refine ⟨⟨h2.created.trans h1.created, h2.allSockets.trans h1.allSockets,
      h2.references.trans h1.references, h2.moduleOpen.trans h1.moduleOpen, ?_⟩, hend⟩
    rw [List.foldl_cons, h2.deleted, h1.deleted, ← add_assoc, add_comm (order : Multiset SocketId)]
    rfl

end destroy

def SparesDeleted (g : GLua) (handlers : List (SocketId × Step)) : Prop :=
  ∀ x ∈ handlers, x.1 ∈ g.deleted → ∀ c ∈ x.2.completion, c.1 ∉ (g.sockets x.1).pending

instance (g : GLua) (handlers : List (SocketId × Step)) : Decidable (g.SparesDeleted handlers) :=
  inferInstanceAs (Decidable (∀ x ∈ handlers, _ → _))

theorem completion_handler {s : Step} (h : s.action.handler = false) : s.completion = none := by
  obtain ⟨a, o⟩ := s
  cases a with
  | complete => cases h
  | _ => rfl

theorem Moves.spares {g g' : GLua} (hr : Registered g) (h : Moves g g')
    {handlers : List (SocketId × Step)} :
    g'.SparesDeleted handlers ↔ g.SparesDeleted handlers := by
  obtain ⟨hd, hs⟩ := h.gone hr
  refine forall_congr' fun x => forall_congr' fun _ => ?_
  rw [hd]
  exact forall_congr' fun hx => by rw [hs x.1 hx]

section closing

variable {g : GLua} (s : Shutdown)

theorem closeReferenced_moves {i : SocketId} (hi : i ∈ g.allSockets) :
    Moves g (closeReferenced s g i) := by
  unfold closeReferenced
  split
  · exact .refl
  · exact (acted hi (by simp) (by simp)).stirs.moves

theorem closeReferenced_allSockets (i : SocketId) :
    (closeReferenced s g i).allSockets = g.allSockets := by
  unfold closeReferenced
  split <;> simp

theorem closings_allSockets (order : List SocketId) :
    (order.foldl (closeReferenced s) g).allSockets = g.allSockets := by
  induction order generalizing g with
  | nil => rfl
  | cons i order ih => exact ih.trans (closeReferenced_allSockets s i)

theorem closings_moves {order : List SocketId} (hi : ∀ i ∈ order, i ∈ g.allSockets) :
    Moves g (order.foldl (closeReferenced s) g) := by
  induction order generalizing g with
  | nil => exact .refl
  | cons i order ih =>
    refine (closeReferenced_moves s (hi i (by simp))).trans (ih fun j hj => ?_)
    rw [closeReferenced_allSockets]
    exact hi j (List.mem_cons_of_mem i hj)

theorem closings_alive {order : List SocketId} (h : Sound g)
    (hi : ∀ i ∈ order, i ∈ g.allSockets) (hc : g.crash = none) :
    (order.foldl (closeReferenced s) g).crash = none := by
  induction order generalizing g with
  | nil => exact hc
  | cons i order ih =>
    have hmem := hi i (by simp)
    have hstep : closeReferenced s g i = g.act i ⟨.close, s.outcome i⟩ := by
      simp [closeReferenced, hc]
    rw [List.foldl_cons, hstep]
    refine ih (h.act hmem _) (fun j hj => ?_) (h.act_alive hmem (by simp) hc)
    simpa using hi j (List.mem_cons_of_mem i hj)

theorem mem_closingOrder {i : SocketId} (hi : i ∈ g.closingOrder s) :
    i ∈ g.socketTableReferences := by
  unfold closingOrder at hi
  split at hi
  · next hp => exact AList.mem_keys.mpr (hp.mem_iff.mp hi)
  · exact AList.mem_keys.mpr hi

theorem deletingOrder_perm : (g.deletingOrder s).Perm g.allSockets.sort := by
  unfold deletingOrder
  split
  · assumption
  · exact .refl _

theorem mem_deletingOrder {i : SocketId} : i ∈ g.deletingOrder s ↔ i ∈ g.allSockets :=
  (deletingOrder_perm s).mem_iff.trans (Finset.mem_sort _)

theorem deletingOrder_nodup : (g.deletingOrder s).Nodup :=
  (deletingOrder_perm s).nodup_iff.mpr (Finset.sort_nodup _ _)

theorem deliver_alive (h : Sound g) (hr : Registered g) (hc : g.crash = none)
    (x : SocketId × Step) : (g.deliver x).crash = none ↔
      (x.1 ∈ g.deleted → ∀ c ∈ x.2.completion, c.1 ∉ (g.sockets x.1).pending) := by
  unfold deliver
  split
  · next hx =>
    have hh : x.2.action.handler = false := hx.resolve_left (by simp [hc])
    simp [completion_handler hh, hc]
  next hx =>
  rw [not_or] at hx
  split
  · next hi =>
    refine iff_of_true (h.act_alive hi (fun m b hm => ?_) hc) fun hd => absurd hi (hr.gone _ hd)
    simp [hm, Action.handler] at hx
  next hi =>
  split
  · next hp =>
    obtain ⟨c, hcomp, hp⟩ := hp
    refine iff_of_false (by simp) fun hall => ?_
    by_cases hd : x.1 ∈ g.deleted
    · exact hall hd c hcomp hp
    · rw [unknown_pending hr hi hd] at hp
      cases hp
  · next hp => exact iff_of_true hc fun _ c hcomp hop => hp ⟨c, hcomp, hop⟩

theorem poll_alive (h : Sound g) (hr : Registered g) (hc : g.crash = none)
    (handlers : List (SocketId × Step)) :
    (g.poll handlers).crash = none ↔ g.SparesDeleted handlers := by
  induction handlers generalizing g with
  | nil => exact iff_of_true hc (by simp [SparesDeleted])
  | cons x handlers ih =>
    have hm := (deliver_touches g x).stirs.moves
    have hx := deliver_alive h hr hc x
    change ((g.deliver x).poll handlers).crash = none ↔ _
    rw [SparesDeleted, List.forall_mem_cons, ← hx]
    constructor
    · intro hend
      have hd := (poll_touches (g.deliver x) handlers).stirs.moves.alive hend
      exact ⟨hd, (hm.spares hr).mp ((ih (h.moves hm) (hr.moves hm) hd).mp hend)⟩
    · rintro ⟨hd, hs⟩
      exact (ih (h.moves hm) (hr.moves hm) hd).mpr ((hm.spares hr).mpr hs)

theorem deliver_allSockets (x : SocketId × Step) : (g.deliver x).allSockets = g.allSockets := by
  unfold deliver
  split
  · rfl
  split
  · exact act_allSockets ..
  split <;> rfl

theorem poll_allSockets (handlers : List (SocketId × Step)) :
    (g.poll handlers).allSockets = g.allSockets := by
  unfold poll
  induction handlers generalizing g with
  | nil => rfl
  | cons x handlers ih => exact ih.trans (deliver_allSockets x)

theorem move_moduleOpen {g' : GLua} (h : Move g g') : g'.moduleOpen = g.moduleOpen := by
  cases h with
  | stirred g' h =>
    cases h with
    | touched g' h => cases h <;> first | rfl | exact act_moduleOpen ..
    | noted => rfl
  | taken => exact act_moduleOpen ..
  | lost | released => rfl

theorem Moves.moduleOpen {g' : GLua} (h : Moves g g') : g'.moduleOpen = g.moduleOpen := by
  induction h with
  | refl => rfl
  | tail _ hm ih => exact (move_moduleOpen hm).trans ih

end closing

section moduleClose

variable {g : GLua} (s : Shutdown)

def shutting (g : GLua) : GLua := { g with moduleOpen := false }

def drainedHandlers (g : GLua) (s : Shutdown) : GLua :=
  ((g.shutting.closingOrder s).foldl (closeReferenced s) g.shutting).poll s.handlers

def ruins (g : GLua) (s : Shutdown) : GLua :=
  ((g.drainedHandlers s).deletingOrder s).foldl destroy (g.drainedHandlers s)

theorem moduleClose_eq (g : GLua) (s : Shutdown) : g.moduleClose s =
    if (g.ruins s).crash.isSome then g.ruins s else (g.ruins s).clearSockets := rfl

theorem Registered.shutting (h : Registered g) : Registered g.shutting :=
  ⟨h.gced, h.referenced, h.held, h.known, h.gone, h.blank⟩

theorem Balanced.shutting (h : Balanced g) : Balanced g.shutting := ⟨h.paired, h.live, h.once⟩

theorem Sound.shutting (h : Sound g) : Sound g.shutting := ⟨h.plugged, h.faultless⟩

theorem closing_members (h : Registered g) :
    ∀ i ∈ g.shutting.closingOrder s, i ∈ g.shutting.allSockets :=
  fun _ hi => (h.shutting.referenced _ (mem_closingOrder s hi)).1

theorem drainedHandlers_moves (h : Registered g) : Moves g.shutting (g.drainedHandlers s) :=
  (closings_moves s (closing_members s h)).trans (poll_touches _ s.handlers).stirs.moves

theorem drainedHandlers_allSockets : (g.drainedHandlers s).allSockets = g.allSockets :=
  (poll_allSockets s.handlers).trans (closings_allSockets s _)

theorem drainedHandlers_alive (hs : Sound g) (h : Registered g) :
    (g.drainedHandlers s).crash = none ↔ g.crash = none ∧ g.SparesDeleted s.handlers := by
  have hm := closings_moves s (closing_members s h)
  cases hc : g.crash with
  | some c =>
    refine iff_of_false (fun hn => ?_) (by simp)
    have ha : g.crash = none := (drainedHandlers_moves s h).alive hn
    simp [hc] at ha
  | none =>
    have ha := closings_alive s hs.shutting (closing_members s h) hc
    exact (poll_alive (hs.shutting.moves hm) (h.shutting.moves hm) ha s.handlers).trans
      ((hm.spares h.shutting).trans (and_iff_right rfl).symm)

inductive Closed (g : GLua) (s : Shutdown) : GLua → Prop where
  | crashed (r : GLua) (hr : r = g.drainedHandlers s) (hc : r.crash.isSome) : Closed g s r
  | finished (r d : GLua) (hr : r = g.drainedHandlers s) (ha : r.crash = none)
      (hd : Ruined r d (r.deletingOrder s)) (hc : d.crash = none) : Closed g s d.clearSockets

theorem moduleClose_closed (hs : Sound g) (h : Registered g) : Closed g s (g.moduleClose s) := by
  rw [moduleClose_eq]
  cases hc : (g.drainedHandlers s).crash with
  | some c =>
    have hsome : (g.drainedHandlers s).crash.isSome := by simp [hc]
    have hr : g.ruins s = g.drainedHandlers s := destroys_crashed hsome _
    rw [hr, if_pos hsome]
    exact .crashed _ rfl hsome
  | none =>
    obtain ⟨hd, hend⟩ : Ruined (g.drainedHandlers s) (g.ruins s) _ ∧ (g.ruins s).crash = none :=
      destroys_ruined (hs.shutting.moves (drainedHandlers_moves s h))
        (fun i hi => (mem_deletingOrder s).mp hi) hc
    rw [if_neg (by simp [hend])]
    exact .finished _ _ rfl hc hd hend

theorem ruined_known {r d : GLua} (hr : Registered r) (hd : Ruined r d (r.deletingOrder s))
    (i : SocketId) : i ∈ d.deleted ↔ i < d.created := by
  rw [hd.deleted, hd.created, Multiset.mem_add, Multiset.mem_coe, mem_deletingOrder]
  exact hr.known i

theorem ruined_nodup {r d : GLua} (hr : Registered r) (hb : Balanced r)
    (hd : Ruined r d (r.deletingOrder s)) : d.deleted.Nodup := by
  rw [hd.deleted]
  refine Multiset.nodup_add.mpr ⟨Multiset.coe_nodup.mpr (deletingOrder_nodup s), hb.once, ?_⟩
  rw [Multiset.disjoint_right]
  intro i hm hdel
  exact hr.gone i hm ((mem_deletingOrder s).mp (Multiset.mem_coe.mp hdel))

theorem deleted_once_iff (hr : Registered g) (hb : Balanced g) :
    (∀ i < g.created, g.deleted.count i = 1) ↔ g.allSockets = ∅ := by
  constructor
  · intro hall
    refine Finset.eq_empty_of_forall_notMem fun i hi => ?_
    have hone := hall i ((hr.known i).mp (.inl hi))
    exact hr.gone i (Multiset.count_pos.mp (by omega)) hi
  · intro hempty i hi
    refine Multiset.count_eq_one_of_mem hb.once (((hr.known i).mpr hi).resolve_left ?_)
    simp [hempty]

end moduleClose

structure RegistryInvariant (g : GLua) : Prop where
  referenced : ∀ i ∈ g.socketTableReferences, i ∈ g.allSockets
  gced : ∀ i ∈ g.gcedSockets, i ∈ g.allSockets
  disjoint : ∀ i ∈ g.socketTableReferences, i ∉ g.gcedSockets
  live : ∀ i n, g.socketTableReferences.lookup i = some n → g.registry.lookup n = some i
  distinct : ∀ i j n, g.socketTableReferences.lookup i = some n →
    g.socketTableReferences.lookup j = some n → i = j
  busy : ∀ i ∈ g.allSockets, g.state i ≠ .disconnected ∨ (g.sockets i).queued ≠ [] →
    i ∈ g.socketTableReferences ∨ i ∈ g.gcedSockets

structure FreedOnce (log : List ReferenceEvent) : Prop where
  created : ∀ n before after, log = before ++ .freed n :: after → .created n ∈ before
  once : ∀ n before between after,
    log = before ++ .freed n :: (between ++ .freed n :: after) → .created n ∈ between

theorem Registered.invariant {g : GLua} (h : Registered g) (ha : Anchored g) :
    RegistryInvariant g := by
  refine ⟨fun i hi => (h.referenced i hi).1, h.gced, fun i hi => (h.referenced i hi).2, h.held,
    fun i j n hi hj => ?_, fun i hi hb => ?_⟩
  · exact Option.some.inj ((h.held i n hi).symm.trans (h.held j n hj))
  · by_cases hg : i ∈ g.gcedSockets
    · exact .inr hg
    · exact .inl (ha.busy i ⟨hi, hg⟩ hb)

theorem Balanced.freed_once {g : GLua} (h : Balanced g) : FreedOnce g.references :=
  ⟨fun _ _ _ hlog => freed_after_created h.paired hlog,
    fun _ _ _ _ hlog => GWSockets.freed_once h.paired hlog⟩

theorem registry_invariant (ls : List GLuaStep) (s : Shutdown) :
    let g := run {} ls
    let c := g.moduleClose s
    RegistryInvariant g ∧ (FreedOnce g.references ∧ FreedOnce c.references) ∧
    (g.deleted.Nodup ∧ c.deleted.Nodup ∧ ∀ i ∈ c.deleted, i < c.created) ∧
    ((∀ i < c.created, c.deleted.count i = 1) ↔
      (g.crash = none ∧ g.SparesDeleted s.handlers) ∨ g.allSockets = ∅) ∧
    (c.crash = none ↔ g.crash = none ∧ g.SparesDeleted s.handlers) ∧
    ∀ i, c.socketGCFunction i = c := by
  intro g c
  have hr : Registered g := registered_run ls
  have hb : Balanced g := balanced_run ls
  have hinv := hr.invariant (anchored_run ls)
  have hm := drainedHandlers_moves s hr
  have hrd := hr.shutting.moves hm
  have hbd := hb.shutting.moves hr.shutting hm
  have hopen : (g.drainedHandlers s).moduleOpen = false := hm.moduleOpen
  have halive := drainedHandlers_alive s (sound_run ls) hr
  have hc : Closed g s c := moduleClose_closed s (sound_run ls) hr
  clear_value c
  cases hc with
  | crashed r hr' hcrash =>
    subst hr'
    have hsome : (g.drainedHandlers s).crash ≠ none := Option.isSome_iff_ne_none.mp hcrash
    have hnot := mt halive.mpr hsome
    refine ⟨hinv, ⟨hb.freed_once, hbd.freed_once⟩,
      ⟨hb.once, hbd.once, fun i hi => (hrd.known i).mp (.inr hi)⟩, ?_,
      iff_of_false hsome hnot, fun i => by simp [socketGCFunction, hopen]⟩
    rw [deleted_once_iff hrd hbd, drainedHandlers_allSockets]
    exact (or_iff_right hnot).symm
  | finished r d hr' ha hd hnone =>
    subst hr'
    have hknown := ruined_known s hrd hd
    have hnodup := ruined_nodup s hrd hbd hd
    have hcond := halive.mp ha
    refine ⟨hinv, ⟨hb.freed_once, hd.references ▸ hbd.freed_once⟩,
      ⟨hb.once, hnodup, fun i hi => (hknown i).mp hi⟩, iff_of_true (fun i hi => ?_) (.inl hcond),
      iff_of_true hnone hcond, fun i => ?_⟩
    · exact Multiset.count_eq_one_of_mem hnodup ((hknown i).mpr hi)
    · simp [socketGCFunction, clearSockets, hd.moduleOpen, hopen]

theorem abandoned_lookup_stops_close :
    let g := run {} (abandonedRun [] ++ [.call (.createWebSocket .webSocket [] 80 []),
      .call (.method 1 (.socketOpen true 2))])
    let c := g.moduleClose { handlers := cancelledLookup }
    g.crash = none ∧ 1 ∈ g.allSockets ∧ c.crash = some .deletedSocket ∧
      1 < c.created ∧ c.deleted.count 1 = 0 := by
  decide +kernel

end GLua
end GWSockets
