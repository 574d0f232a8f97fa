import GWSockets.Registry

namespace GWSockets
namespace GLua

theorem touch_alive {g g' : GLua} (h : Touch g g') (hc : g'.crash = none) : g.crash = none := by
  cases h with
  | created | kept | collected => exact hc
  | acted | opened => exact (act_crash_none hc).2
  | freed => cases hc

theorem move_alive {g g' : GLua} (h : Move g g') (hc : g'.crash = none) : g.crash = none := by
  cases h with
  | stirred g' h =>
    cases h with
    | touched g' h => exact touch_alive h hc
    | noted => exact hc
  | taken => exact (act_crash_none hc).2
  | lost => cases hc
  | released => exact hc

theorem Moves.alive {g g' : GLua} (h : Moves g g') (hc : g'.crash = none) : g.crash = none := by
  induction h with
  | refl => exact hc
  | tail _ hm ih => exact ih (move_alive hm hc)

theorem touch_lookup {g g' : GLua} (h : Touch g g') {i : SocketId} {n : Nat}
    (hl : g.socketTableReferences.lookup i = some n) :
    g'.socketTableReferences.lookup i = some n := by
  have hne : ∀ {j}, j ∉ g.socketTableReferences → i ≠ j := by
    rintro j hj rfl
    exact hj (AList.lookup_isSome.mp (by simp [hl]))
  cases h with
  | created | freed => exact hl
  | acted | opened => simpa using hl
  | kept j m hj hr => exact (AList.lookup_insert_ne (hne hr)).trans hl
  | collected j hj hr => exact (AList.lookup_erase_ne (hne hr)).trans hl

theorem Stirs.lookup {g g' : GLua} (h : Stirs g g') {i : SocketId} {n : Nat}
    (hl : g.socketTableReferences.lookup i = some n) :
    g'.socketTableReferences.lookup i = some n := by
  refine Machine.closure_invariant
    (I := fun v => v.socketTableReferences.lookup i = some n) ?_ hl h
  intro u v hu hs
  cases hs with
  | touched v ht => exact touch_lookup ht hu
  | noted => exact hu

theorem act_grows {g : GLua} {i : SocketId} {s : Step} (ht : s.action ≠ .takeMessages)
    (j : SocketId) : (g.sockets j).Grows ((g.act i s).sockets j) := by
  by_cases hi : i ∈ g.allSockets
  · by_cases hj : j = i
    · subst hj
      rw [act_sockets_self hi]
      exact World.grows_step _ s ht
    · rw [act_sockets_ne hj]
      exact .refl _
  · simpa [act, hi] using World.Grows.refl _

theorem touch_grows {g g' : GLua} (hr : Registered g) (h : Touch g g') (j : SocketId) :
    (g.sockets j).Grows (g'.sockets j) := by
  cases h with
  | created kind host port path =>
    by_cases hj : j = g.created
    · subst hj
      rw [hr.blank g.created (Nat.le_refl _)]
      exact ⟨[], by simp [createWebSocket, World.new], by simp [createWebSocket, World.new]⟩
    · simpa [createWebSocket, hj] using World.Grows.refl _
  | acted i s hi ho ht => exact act_grows ht j
  | opened => exact act_grows (by simp) j
  | kept | collected | freed => exact .refl _

theorem Stirs.grows {g g' : GLua} (hr : Registered g) (h : Stirs g g') (j : SocketId) :
    (g.sockets j).Grows (g'.sockets j) := by
  induction h with
  | refl => exact .refl _
  | tail hs h1 ih =>
    cases h1 with
    | touched g' ht => exact ih.trans (touch_grows (hr.stirs hs) ht j)
    | noted => exact ih

theorem Touches.silent {g g' : GLua} (h : Touches g g') :
    g'.dispatched = g.dispatched ∧ g'.aborted = g.aborted := by
  induction h with
  | refl => exact ⟨rfl, rfl⟩
  | tail _ ht ih =>
    refine ih.imp (Eq.trans ?_) (Eq.trans ?_) <;>
      cases ht <;> simp [createWebSocket, keep, collect, fail]

structure Anchored (g : GLua) : Prop where
  tame : ∀ i, (g.sockets i).Tame
  alternating : ∀ i, (g.sockets i).Alternating
  busy : ∀ i, g.Callable i → g.state i ≠ .disconnected ∨ (g.sockets i).queued ≠ [] →
    i ∈ g.socketTableReferences

namespace Anchored

variable {g g' : GLua}

theorem init : Anchored {} :=
  ⟨fun _ _ => World.accounted_new .webSocket [] 0 [],
    fun _ => World.alternating_new .webSocket [] 0 [], fun i hi => by simp [Callable] at hi⟩

theorem idle (h : Anchored g) {i : SocketId} (hi : g.Callable i)
    (hr : i ∉ g.socketTableReferences) :
    (g.sockets i).state = .disconnected ∧ (g.sockets i).queued = [] := by
  by_contra hn
  rw [not_and_or] at hn
  exact hr (h.busy i hi hn)

theorem taken_step (w : World) (o : Outcome) (hq : w.queued = []) :
    (w.step ⟨.takeMessages, o⟩).state = w.state ∧ (w.step ⟨.takeMessages, o⟩).queued = [] := by
  unfold World.step
  split
  · exact ⟨rfl, hq⟩
  · exact ⟨rfl, rfl⟩

theorem act (h : Anchored g) {i : SocketId} (hi : i ∈ g.allSockets) (s : Step)
    (ho : ∀ clear, s.action = .openSocket clear → i ∈ g.socketTableReferences) :
    Anchored (g.act i s) := by
  refine ⟨fun j => ?_, fun j => ?_, fun j hc hbusy => ?_⟩
  · by_cases hj : j = i
    · subst hj
      rw [act_sockets_self hi]
      exact World.tame_step (h.tame j) s
    · rw [act_sockets_ne hj]
      exact h.tame j
  · by_cases hj : j = i
    · subst hj
      rw [act_sockets_self hi]
      exact World.alternating_step (h.alternating j) s
    · rw [act_sockets_ne hj]
      exact h.alternating j
  · rw [act_socketTableReferences]
    replace hc : g.Callable j := by simpa [Callable] using hc
    by_cases hj : j = i
    · subst hj
      rw [state, act_sockets_self hi] at hbusy
      by_contra hr
      obtain ⟨hs, hq⟩ := h.idle hc hr
      by_cases ht : s.action = .takeMessages
      · obtain ⟨a, o⟩ := s
        obtain rfl := ht
        have := taken_step (g.sockets j) o hq
        simp [this, hs] at hbusy
      · have := World.disconnected_step (h.alternating j) hs s
          (fun clear hcl => hr (ho clear hcl)) ht
        simp [this, hq] at hbusy
    · rw [state, act_sockets_ne hj] at hbusy
      exact h.busy j hc hbusy

theorem create (h : Anchored g) (kind : SocketClass) (host : Bytes) (port : Nat) (path : Bytes) :
    Anchored (g.createWebSocket kind host port path) := by
  have hne : ∀ {j}, j ≠ g.created →
      (g.createWebSocket kind host port path).sockets j = g.sockets j :=
    fun hj => Function.update_of_ne hj ..
  have hnew : (g.createWebSocket kind host port path).sockets g.created =
      .new kind host port path := Function.update_self ..
  refine ⟨fun j => ?_, fun j => ?_, fun j hc hbusy => ?_⟩
  · by_cases hj : j = g.created
    · subst hj
      exact hnew ▸ fun _ => World.accounted_new kind host port path
    · exact hne hj ▸ h.tame j
  · by_cases hj : j = g.created
    · subst hj
      exact hnew ▸ World.alternating_new kind host port path
    · exact hne hj ▸ h.alternating j
  · by_cases hj : j = g.created
    · subst hj
      rw [state, hnew] at hbusy
      simp [World.new] at hbusy
    · rw [state, hne hj] at hbusy
      obtain ⟨ha, hg⟩ := hc
      exact h.busy j ⟨(Finset.mem_insert.mp ha).resolve_left hj, hg⟩ hbusy

theorem touch (h : Anchored g) (ht : Touch g g') : Anchored g' := by
  cases ht with
  | created kind host port path => exact h.create kind host port path
  | acted i s hi ho => exact h.act hi s (fun clear hc => absurd hc (ho clear))
  | kept i n =>
    exact ⟨h.tame, h.alternating,
      fun j hc hbusy => (AList.mem_insert _).mpr (.inr (h.busy j hc hbusy))⟩
  | opened i clear hi hr => exact h.act hi.1 _ (fun _ _ => hr)
  | collected i hi hr =>
    refine ⟨h.tame, h.alternating, ?_⟩
    intro j hc hbusy
    obtain ⟨ha, hg⟩ := hc
    obtain ⟨hji, hg⟩ := not_or.mp (fun hm => hg (Finset.mem_insert.mpr hm))
    exact AList.mem_erase.mpr ⟨hji, h.busy j ⟨ha, hg⟩ hbusy⟩
  | freed => exact ⟨h.tame, h.alternating, h.busy⟩

theorem move (h : Anchored g) (hm : Move g g') : Anchored g' := by
  cases hm with
  | stirred g' hs =>
    cases hs with
    | touched g' ht => exact h.touch ht
    | noted => exact ⟨h.tame, h.alternating, h.busy⟩
  | taken i hi => exact h.act hi _ (by simp)
  | lost => exact ⟨h.tame, h.alternating, h.busy⟩
  | released i n hl hs hq =>
    refine ⟨h.tame, h.alternating, ?_⟩
    intro j hc hbusy
    refine AList.mem_erase.mpr ⟨?_, h.busy j hc hbusy⟩
    rintro rfl
    exact hbusy.elim (absurd hs) (absurd hq)

theorem moves (h : Anchored g) (hm : Moves g g') : Anchored g' :=
  Machine.closure_invariant (I := Anchored) (fun _ _ => move) h hm

theorem deleteCollected (h : Anchored g) : Anchored g.deleteCollected := by
  refine ⟨h.tame, h.alternating, ?_⟩
  intro i hc hbusy
  obtain ⟨ha, hg⟩ := hc
  obtain ⟨ha, hn⟩ := Finset.mem_sdiff.mp ha
  exact h.busy i ⟨ha, fun hm => hg (Finset.mem_sdiff.mpr ⟨hm, hn⟩)⟩ hbusy

end Anchored
end GLua
end GWSockets
