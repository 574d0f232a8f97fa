import GWSockets.Dispatch
import GWSockets.ModuleClose

namespace GWSockets
namespace GLua

def Retired (g : GLua) : Prop :=
  ∀ i ∈ g.gcedSockets, g.state i = .disconnected ∧ (g.sockets i).queued = []

namespace Retired

variable {g g' : GLua}

theorem init : Retired {} := by simp [Retired]

theorem act (h : Retired g) (ha : Anchored g) {i : SocketId} {s : Step}
    (ho : ∀ clear, s.action = .openSocket clear → i ∉ g.gcedSockets) : Retired (g.act i s) := by
  intro j hj
  rw [act_gcedSockets] at hj
  obtain ⟨hs, hq⟩ := h j hj
  by_cases hij : j = i
  · subst hij
    by_cases hi : j ∈ g.allSockets
    · rw [state, act_sockets_self hi]
      by_cases ht : s.action = .takeMessages
      · obtain ⟨a, o⟩ := s
        obtain rfl := ht
        have hstep := Anchored.taken_step (g.sockets j) o hq
        exact ⟨hstep.1.trans hs, hstep.2⟩
      · have hstep := World.disconnected_step (ha.alternating j) hs s
          (fun clear hc => ho clear hc hj) ht
        exact ⟨hstep.1, hstep.2.trans hq⟩
    · simpa [GLua.act, hi, state] using h j hj
  · rw [state, act_sockets_ne hij]
    exact ⟨hs, hq⟩

theorem move (h : Retired g) (hr : Registered g) (ha : Anchored g) (hm : Move g g') :
    Retired g' := by
  cases hm with
  | stirred g' hs =>
    cases hs with
    | touched g' ht =>
      cases ht with
      | created kind host port path =>
        intro j hj
        have hlt : j ≠ g.created := Nat.ne_of_lt ((hr.known j).mp (.inl (hr.gced j hj)))
        simpa [createWebSocket, state, hlt] using h j hj
      | acted i s hi ho => exact h.act ha (fun clear hc => absurd hc (ho clear))
      | opened i clear hi => exact h.act ha (fun _ _ => hi.2)
      | collected i hi hn =>
        intro j hj
        rcases Finset.mem_insert.mp hj with rfl | hj
        · exact ha.idle hi hn
        · exact h j hj
      | kept | freed => exact h
    | noted => exact h
  | taken i => exact h.act ha (by simp)
  | lost | released => exact h

theorem moves (h : Retired g) (hr : Registered g) (ha : Anchored g) (hm : Moves g g') :
    Retired g' := by
  induction hm with
  | refl => exact h
  | tail hms hm ih => exact ih.move (hr.moves hms) (ha.moves hms) hm

theorem finished (h : Retired g) : g.finished = g.gcedSockets :=
  Finset.filter_true_of_mem (fun i hi => (h i hi).1)

theorem deleteCollected (h : Retired g) : Retired g.deleteCollected := by
  intro i hi
  exact h i (Finset.mem_sdiff.mp hi).1

theorem step (h : Retired g) (hr : Registered g) (ha : Anchored g) (s : GLuaStep) :
    Retired (g.step s) := by
  have hs := step_stepped g s
  generalize g.step s = g' at hs
  cases hs with
  | dead => exact h
  | called c => exact h.moves hr ha (call_touches g c).stirs.moves
  | broken t => exact h.moves hr ha (poll_moves g t)
  | thought t hc hp g' he hm =>
    subst he
    have hpoll := h.moves hr ha (poll_moves g t)
    exact hpoll.deleteCollected.moves (hr.moves (poll_moves g t)).deleteCollected
      (ha.moves (poll_moves g t)).deleteCollected hm

end Retired

theorem retired_run (ls : List GLuaStep) : Retired (run {} ls) := by
  induction ls using List.reverseRecOn with
  | nil => exact .init
  | append_singleton ls s ih =>
    rw [run, Machine.run_append]
    exact ih.step (registered_run ls) (anchored_run ls) s

section collected

variable {g g' : GLua}

theorem move_gced (h : Move g g') : g.gcedSockets ⊆ g'.gcedSockets := by
  cases h with
  | stirred g' h =>
    cases h with
    | touched g' h =>
      cases h with
      | collected i => exact Finset.subset_insert i _
      | _ => simp [createWebSocket, keep, fail]
    | noted => exact subset_rfl
  | taken => simp
  | lost | released => exact subset_rfl

theorem Moves.gced (h : Moves g g') : g.gcedSockets ⊆ g'.gcedSockets := by
  induction h with
  | refl => exact subset_rfl
  | tail _ hm ih => exact ih.trans (move_gced hm)

theorem closeNow_idle {i : SocketId} (hi : i ∈ g.allSockets) (hs : g.state i = .disconnected)
    (reason : Bytes) : (g.act i ⟨.closeNow reason, {}⟩).sockets = g.sockets := by
  have hidle : (g.sockets i).step ⟨.closeNow reason, {}⟩ = g.sockets i := by
    unfold World.step
    split
    · rfl
    · exact (World.closeNow_snd _ _).trans (if_neg (by simp [show (g.sockets i).state = _ from hs,
        SocketState.closable]))
  rw [act_sockets hi, hidle, Function.update_eq_self]

end collected

theorem collected_deleted (ls : List GLuaStep) :
    (∀ i, (run {} ls).Callable i → i ∉ (run {} ls).socketTableReferences →
      ((run {} ls).socketGCFunction i).sockets = (run {} ls).sockets) ∧
    ∀ i ∈ (run {} ls).gcedSockets,
      (run {} ls).state i = .disconnected ∧ ((run {} ls).sockets i).queued = [] ∧
        ∀ t : Tick, ((run {} ls).step (.think t)).crash = none →
          i ∈ ((run {} ls).step (.think t)).deleted := by
  have hr := registered_run ls
  have ha := anchored_run ls
  have hret := retired_run ls
  refine ⟨fun i hi hn => ?_, fun i hi => ⟨(hret i hi).1, (hret i hi).2, fun t hc => ?_⟩⟩
  · unfold socketGCFunction
    split
    · rfl
    · exact closeNow_idle (g := (run {} ls).collect i) hi.1 (ha.idle hi hn).1 _
  · have hp := poll_moves (run {} ls) t
    have hreg := (hr.moves hp).deleteCollected
    have hdel : i ∈ ((run {} ls).poll t.poll).deleteCollected.deleted := by
      refine Multiset.mem_add.mpr (.inr ?_)
      rw [(hret.moves hr ha hp).finished]
      exact Finset.mem_val.mpr (hp.gced hi)
    rw [step_think hc]
    have hm : Moves ((run {} ls).poll t.poll).deleteCollected
        (((run {} ls).poll t.poll).deleteCollected.reach t
          (((run {} ls).poll t.poll).deleteCollected.entries t)).lua :=
      Think.visits_moves (t := { lua := _ }) (entries_listed _ t)
    exact (hm.gone hreg).1.symm ▸ hdel

end GLua

structure Tick.Quiet (t : Tick) : Prop where
  poll : t.poll = []
  calls : ∀ k, (t.respond k).calls = []
  reportable : t.Reportable

namespace GLua

def Noted (g g' : GLua) : Prop := ∃ dispatched errors aborted,
  g' = { g with dispatched := dispatched, errors := errors, aborted := aborted }

theorem Noted.refl (g : GLua) : Noted g g := ⟨_, _, _, rfl⟩

theorem Noted.trans {g u v : GLua} (h : Noted g u) (h' : Noted u v) : Noted g v := by
  obtain ⟨_, _, _, rfl⟩ := h
  obtain ⟨d, e, a, rfl⟩ := h'
  exact ⟨d, e, a, rfl⟩

structure Quieted (g g' : GLua) (visited : List SocketId) : Prop where
  state : ∀ i, g'.state i = g.state i
  queued : ∀ i, (g'.sockets i).queued = if i ∈ visited then [] else (g.sockets i).queued
  references : ∀ i, i ∈ g'.socketTableReferences ↔ i ∈ g.socketTableReferences ∧
    ¬ (i ∈ visited ∧ (g.sockets i).queued = [] ∧ g.state i = .disconnected)

namespace Quieted

variable {g u v : GLua} {xs ys : List SocketId}

theorem refl (g : GLua) : Quieted g g [] := ⟨fun _ => rfl, fun _ => by simp, fun _ => by simp⟩

theorem trans (h : Quieted g u xs) (h' : Quieted u v ys) (hd : xs.Disjoint ys) :
    Quieted g v (xs ++ ys) := by
  refine ⟨fun i => (h'.state i).trans (h.state i), fun i => ?_, fun i => ?_⟩
  · rw [h'.queued, h.queued]
    by_cases hy : i ∈ ys <;> simp [hy]
  · rw [h'.references, h.references, h.state, h.queued]
    by_cases hx : i ∈ xs
    · have hy : i ∉ ys := fun hy => hd hx hy
      simp [hx, hy]
    · simp [hx]

end Quieted

theorem taken_state (g : GLua) (i j : SocketId) :
    (g.act i ⟨.takeMessages, {}⟩).state j = g.state j := by
  by_cases hj : j = i
  · subst hj
    by_cases hi : j ∈ g.allSockets
    · rw [state, act_sockets_self hi, World.step]
      split <;> rfl
    · simp [act, hi, state]
  · rw [state, act_sockets_ne hj]
    rfl

end GLua

namespace Think

variable {t : Think} {respond : Nat → Response} {e : Entry}

theorem pcall_noted {r : Response} (hr : r.calls = []) (t : Think) (n : Nat) :
    GLua.Noted t.lua (t.pcall r n).lua := by
  unfold pcall
  rw [hr]
  dsimp only [execute, List.foldl_nil]
  split
  · exact .refl _
  cases r.error with
  | none => exact .refl _
  | some error =>
    dsimp only
    split
    · exact ⟨_, _, _, rfl⟩
    · rw [throwErrorNoHalt_eq]
      split <;> exact ⟨_, _, _, rfl⟩

theorem dispatch_noted {r : Response} (hr : r.calls = []) (t : Think) (tableIndex : Nat)
    (m : GWSocketMessageIn) : GLua.Noted t.lua (t.dispatch r tableIndex m).lua := by
  unfold dispatch
  split
  · dsimp only
    generalize hu : ((t.push _).push _).push (.string m.message) = u
    have hl : u.lua = t.lua := by rw [← hu]; rfl
    rw [← hl]
    split
    · exact GLua.Noted.trans ⟨_, _, _, rfl⟩ (pcall_noted hr (u.note _) 2)
    · exact ⟨_, _, _, rfl⟩
  · exact ⟨_, _, _, rfl⟩

theorem dispatches_noted (hr : ∀ k, (respond k).calls = []) (t : Think) (tableIndex : Nat)
    (messages : List GWSocketMessageIn) :
    GLua.Noted t.lua (messages.foldl (dispatchNext respond tableIndex) t).lua := by
  induction messages generalizing t with
  | nil => exact .refl _
  | cons m messages ih =>
    refine GLua.Noted.trans ?_ (ih _)
    unfold dispatchNext
    split
    · exact dispatch_noted (hr _) t tableIndex m
    · exact .refl _

theorem drained_noted (hr : ∀ k, (respond k).calls = []) :
    GLua.Noted (t.lua.act e.1 ⟨.takeMessages, {}⟩) (drained respond t e).lua :=
  dispatches_noted hr ({ t with lua := t.lua.act e.1 ⟨.takeMessages, {}⟩ }.referencePush e.2) _ _

theorem taken_quieted {g' : GLua} (hc : (t.lua.act e.1 ⟨.takeMessages, {}⟩).crash = none)
    (hn : GLua.Noted (t.lua.act e.1 ⟨.takeMessages, {}⟩) g')
    (hb : (t.lua.sockets e.1).queued ≠ [] ∨ t.lua.state e.1 ≠ .disconnected) :
    GLua.Quieted t.lua g' [e.1] := by
  obtain ⟨_, _, _, rfl⟩ := hn
  refine ⟨GLua.taken_state _ _, fun i => ?_, fun i => ?_⟩
  · by_cases hi : i = e.1
    · subst hi
      simpa using (taken hc).2
    · simp [hi]
  · rw [GLua.act_socketTableReferences, List.mem_singleton]
    refine (and_iff_left ?_).symm
    rintro ⟨rfl, hq, hs⟩
    exact hb.elim (absurd hq) (absurd hs)

theorem visit_quieted (hq : ∀ k, (respond k).calls = []) (hr : ∀ k, (respond k).Reportable)
    (h : t.Going) (hs : t.lua.Sound) (hc : t.lua.crash = none)
    (hl : t.lua.socketTableReferences.lookup e.1 = some e.2) :
    GLua.Quieted t.lua (visit respond t e).lua [e.1] ∧ (visit respond t e).lua.crash = none := by
  have hmem : e.1 ∈ t.lua.socketTableReferences := AList.lookup_isSome.mp (by simp [hl])
  have hrun : t.running = true := by simp [running, h.halted, hc]
  have htake : (t.lua.act e.1 ⟨.takeMessages, {}⟩).crash = none :=
    hs.act_alive (h.exact.registered.referenced e.1 hmem).1 (by simp) hc
  have hnoted : GLua.Noted (t.lua.act e.1 ⟨.takeMessages, {}⟩) (drained respond t e).lua :=
    drained_noted hq
  have hstate : (drained respond t e).lua.state e.1 = t.lua.state e.1 := by
    obtain ⟨_, _, _, heq⟩ := hnoted
    rw [heq]
    exact GLua.taken_state t.lua e.1 e.1
  have hdc : (drained respond t e).lua.crash = none := by
    obtain ⟨_, _, _, heq⟩ := hnoted
    rw [heq]
    exact htake
  have hserved := drained_served hr h.exact.registered h.toIdle hl hdc
  have hv := visit_visited respond t e
  generalize visit respond t e = t' at hv
  cases hv with
  | skipped hn => simp [hrun] at hn
  | silent _ _ hn =>
    rw [GLua.taken_state] at hn
    exact ⟨taken_quieted htake (.refl _) (.inr hn), htake⟩
  | broken _ hd => simp [running, hdc, hserved.halted, h.halted] at hd
  | served _ hd hb =>
    rw [hstate] at hb
    exact ⟨taken_quieted htake hnoted hb, hdc⟩
  | released _ hd hempty hn =>
    rw [hstate] at hn
    refine ⟨?_, hdc⟩
    obtain ⟨_, _, _, heq⟩ := hnoted
    rw [heq]
    refine ⟨GLua.taken_state _ _, fun i => ?_, fun i => ?_⟩
    · by_cases hi : i = e.1
      · subst hi
        simpa [GLua.release] using (taken htake).2
      · simp [GLua.release, hi]
    · simp only [GLua.release, AList.mem_erase, GLua.act_socketTableReferences,
        List.mem_singleton]
      constructor
      · rintro ⟨hne, hi⟩
        exact ⟨hi, fun hcase => hne hcase.1⟩
      · rintro ⟨hi, hcase⟩
        exact ⟨fun heq => hcase ⟨heq, heq ▸ hempty, heq ▸ hn⟩, hi⟩

theorem visits_quieted {es : List Entry} (hq : ∀ k, (respond k).calls = [])
    (hr : ∀ k, (respond k).Reportable) (h : t.Going) (hs : t.lua.Sound) (hc : t.lua.crash = none)
    (hl : Listed t.lua es) :
    GLua.Quieted t.lua (es.foldl (visit respond) t).lua (es.map Sigma.fst) ∧
      (es.foldl (visit respond) t).lua.crash = none := by
  induction es generalizing t with
  | nil => exact ⟨.refl _, hc⟩
  | cons e es ih =>
    have hle := hl.2 e (List.mem_cons_self ..)
    obtain ⟨hquiet, halive⟩ := visit_quieted hq hr h hs hc hle
    obtain ⟨hrest, hend⟩ := ih (visit_going hr h hle halive) (hs.moves (visit_moves hle)) halive
      hl.visit
    refine ⟨hquiet.trans hrest ?_, hend⟩
    intro i hi hi'
    rw [List.mem_singleton] at hi
    exact (List.nodup_cons.mp hl.1).1 (hi ▸ hi')

end Think

namespace GLua

theorem tick_quieted {g : GLua} (h : Exact g) (hs : Sound g) (hc : g.crash = none) {t : Tick}
    (hq : t.Quiet) : ∃ visited, (∀ i, i ∈ visited ↔ i ∈ g.socketTableReferences) ∧
      Quieted g (g.step (.think t)) visited ∧ (g.step (.think t)).crash = none := by
  have hpoll : g.poll t.poll = g := by rw [hq.poll]; rfl
  have hstep : g.step (.think t) =
      (g.deleteCollected.reach t (g.deleteCollected.entries t)).lua := by
    simp [step, webSocketThink, hpoll, hc]
  obtain ⟨hquiet, halive⟩ := Think.visits_quieted (t := { lua := g.deleteCollected }) hq.calls
    hq.reportable ⟨⟨rfl, rfl⟩, h.deleteCollected⟩ hs.deleteCollected hc
    (entries_listed g.deleteCollected t)
  refine ⟨(g.deleteCollected.entries t).map Sigma.fst, fun i => ?_, ?_, ?_⟩
  · have hperm := (entries_perm g.deleteCollected t).map Sigma.fst
    exact hperm.mem_iff.trans AList.mem_keys.symm
  · rw [hstep]
    exact ⟨hquiet.state, hquiet.queued, hquiet.references⟩
  · rw [hstep]
    exact halive

-- The first tick hands over what is queued, the second gives up the references of what is over.
theorem quiet_ticks_release (ls : List GLuaStep) (hr : ∀ s ∈ ls, s.Reportable)
    (hc : (run {} ls).crash = none) (first second : Tick) (hfirst : first.Quiet)
    (hsecond : second.Quiet) :
    let g := run {} (ls ++ [.think first, .think second])
    g.crash = none ∧ (∀ i, g.state i = (run {} ls).state i) ∧
      (∀ i, g.Callable i → (g.sockets i).queued = []) ∧
      ∀ i, i ∈ g.socketTableReferences ↔ g.Callable i ∧ g.state i ≠ .disconnected := by
  intro g
  have hex := exact_run .init hr hc
  have hsound := sound_run ls
  obtain ⟨vs, hvs, hq, hc'⟩ := tick_quieted hex hsound hc hfirst
  have hex' := exact_step hex (s := .think first) hfirst.reportable hc'
  obtain ⟨vs', hvs', hq', hc''⟩ := tick_quieted hex' (hsound.step _) hc' hsecond
  have hg : g = ((run {} ls).step (.think first)).step (.think second) :=
    Machine.run_append step {} ls _
  rw [← hg] at hq' hc''
  have hanch : Anchored g := anchored_run _
  have href : ∀ i ∈ g.socketTableReferences, i ∈ vs' ∧ (g.sockets i).queued = [] := by
    intro i hi
    have hi' := (hvs' i).mpr ((hq'.references i).mp hi).1
    exact ⟨hi', by rw [hq'.queued, if_pos hi']⟩
  refine ⟨hc'', fun i => (hq'.state i).trans (hq.state i), fun i hi => ?_, fun i => ?_⟩
  · by_cases hi' : i ∈ g.socketTableReferences
    · exact (href i hi').2
    · exact (hanch.idle hi hi').2
  · constructor
    · intro hi
      refine ⟨(registered_run _).referenced i hi, fun hs => ?_⟩
      obtain ⟨hmem, hlive⟩ := (hq'.references i).mp hi
      refine hlive ⟨(href i hi).1, ?_, (hq'.state i).symm.trans hs⟩
      rw [hq.queued, if_pos ((hvs i).mpr ((hq.references i).mp hmem).1)]
    · rintro ⟨hi, hs⟩
      exact hanch.busy i hi (.inl hs)

theorem quiet_ticks_release_failed :
    let ls := failedLookupRun (.string (ascii "callback failed"))
    0 ∈ (run {} ls).socketTableReferences ∧
      ∀ i, i ∈ (run {} (ls ++ [.think (quietTick []), .think (quietTick [])])).socketTableReferences
        ↔ (run {} (ls ++ [.think (quietTick []), .think (quietTick [])])).Callable i ∧
          (run {} (ls ++ [.think (quietTick []), .think (quietTick [])])).state i ≠
            .disconnected := by
  have hquiet : (quietTick []).Quiet := ⟨rfl, fun _ => rfl, fun _ => by
    simp [quietTick, Response.Reportable]⟩
  refine ⟨by decide +kernel, ?_⟩
  exact (quiet_ticks_release (failedLookupRun (.string (ascii "callback failed")))
    (by simp [failedLookupRun, GLuaStep.Reportable, Tick.Reportable, Response.Reportable,
      LuaValue.getString])
    (by decide +kernel) (quietTick []) (quietTick []) hquiet hquiet).2.2.2

end GLua
end GWSockets
