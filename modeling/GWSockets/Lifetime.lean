import GWSockets.Visit

namespace GWSockets
namespace GLua

def Outlived (g : GLua) : Prop := ∀ i ∈ g.deleted, (g.sockets i).pending = []

def PollDelivers (g : GLua) : GLuaStep → Prop
  | .call _ => True
  | .think t => (g.poll t.poll).crash = none → ∀ i ∈ (g.poll t.poll).finished,
      ∀ op ∈ ((g.poll t.poll).sockets i).pending,
        op.generation = ((g.poll t.poll).sockets i).generation

instance (g : GLua) : ∀ s, Decidable (PollDelivers g s)
  | .call _ => .isTrue trivial
  | .think t => inferInstanceAs (Decidable ((g.poll t.poll).crash = none → _))

section move

variable {g g' : GLua}

theorem move_deleted (h : Move g g') : g'.deleted = g.deleted := by
  cases h with
  | stirred g' h =>
    cases h with
    | touched g' h => cases h <;> simp [createWebSocket, keep, collect, fail]
    | noted => rfl
  | taken => simp
  | lost | released => rfl

theorem act_sockets_gone {i j : SocketId} (s : Step) (hj : j ∈ g.allSockets)
    (hi : i ∉ g.allSockets) : (g.act j s).sockets i = g.sockets i :=
  act_sockets_ne (fun hij => hi (hij ▸ hj))

theorem move_gone (hr : Registered g) (h : Move g g') {i : SocketId} (hi : i ∈ g.deleted) :
    g'.sockets i = g.sockets i := by
  have hn := hr.gone i hi
  cases h with
  | stirred g' h =>
    cases h with
    | touched g' h =>
      cases h with
      | created kind host port path =>
        exact Function.update_of_ne (Nat.ne_of_lt ((hr.known i).mp (.inr hi))) ..
      | acted j s hj => exact act_sockets_gone s hj hn
      | opened j clear hj => exact act_sockets_gone _ hj.1 hn
      | kept | collected | freed => rfl
    | noted => rfl
  | taken j hj => exact act_sockets_gone _ hj hn
  | lost | released => rfl

theorem Moves.gone (hr : Registered g) (h : Moves g g') :
    g'.deleted = g.deleted ∧ ∀ i ∈ g.deleted, g'.sockets i = g.sockets i := by
  induction h with
  | refl => exact ⟨rfl, fun _ _ => rfl⟩
  | tail hms hm ih =>
    obtain ⟨hd, hs⟩ := ih
    refine ⟨(move_deleted hm).trans hd, ?_⟩
    intro i hi
    exact (move_gone (hr.moves hms) hm (hd ▸ hi)).trans (hs i hi)

theorem Moves.outlived (hr : Registered g) (h : Moves g g') : Outlived g' ↔ Outlived g := by
  obtain ⟨hd, hs⟩ := h.gone hr
  refine forall_congr' fun i => ?_
  rw [hd]
  exact forall_congr' fun hi => by rw [hs i hi]

theorem act_generation (i : SocketId) (s : Step) (j : SocketId) :
    (g.sockets j).generation ≤ ((g.act i s).sockets j).generation := by
  by_cases hi : i ∈ g.allSockets
  · by_cases hj : j = i
    · subst hj
      rw [act_sockets_self hi]
      exact World.generation_le_run _ [s]
    · rw [act_sockets_ne hj]
  · simp [act, hi]

theorem move_generation (hr : Registered g) (h : Move g g') (i : SocketId) :
    (g.sockets i).generation ≤ (g'.sockets i).generation := by
  cases h with
  | stirred g' h =>
    cases h with
    | touched g' h =>
      cases h with
      | created kind host port path =>
        by_cases hi : i = g.created
        · subst hi
          rw [hr.blank g.created (Nat.le_refl _)]
          exact Nat.zero_le _
        · simp [createWebSocket, hi]
      | acted j s => exact act_generation j s i
      | opened j clear => exact act_generation j _ i
      | kept | collected | freed => exact Nat.le_refl _
    | noted => exact Nat.le_refl _
  | taken j => exact act_generation j _ i
  | lost | released => exact Nat.le_refl _

theorem Moves.generation (hr : Registered g) (h : Moves g g') (i : SocketId) :
    (g.sockets i).generation ≤ (g'.sockets i).generation := by
  induction h with
  | refl => exact Nat.le_refl _
  | tail hms hm ih => exact Nat.le_trans ih (move_generation (hr.moves hms) hm i)

theorem act_intact {i : SocketId} {s : Step} (hi : i ∈ g.allSockets)
    (hc : g.crash ≠ some .deletedSocket) : (g.act i s).crash ≠ some .deletedSocket := by
  simp only [act, hi, if_true]
  split
  · simp
  · exact hc

theorem unknown_pending (hr : Registered g) {i : SocketId} (hi : i ∉ g.allSockets)
    (hd : i ∉ g.deleted) : (g.sockets i).pending = [] := by
  have hlt : ¬ i < g.created := fun hlt => ((hr.known i).mpr hlt).elim hi hd
  rw [hr.blank i (Nat.not_lt.mp hlt)]
  rfl

theorem gone_pending (hr : Registered g) (ho : Outlived g) {i : SocketId}
    (hi : i ∉ g.allSockets) : (g.sockets i).pending = [] := by
  by_cases hd : i ∈ g.deleted
  · exact ho i hd
  · exact unknown_pending hr hi hd

theorem move_intact (hr : Registered g) (ho : Outlived g) (h : Move g g')
    (hc : g.crash ≠ some .deletedSocket) : g'.crash ≠ some .deletedSocket := by
  cases h with
  | stirred g' h =>
    cases h with
    | touched g' h =>
      cases h with
      | created | kept | collected => exact hc
      | acted j s hj => exact act_intact hj hc
      | opened j clear hj => exact act_intact hj.1 hc
      | freed j op hj hop =>
        rw [gone_pending hr ho hj] at hop
        cases hop
    | noted => exact hc
  | taken j hj => exact act_intact hj hc
  | lost j hj hjr => exact absurd (hr.referenced j hjr).1 hj
  | released => exact hc

theorem Moves.intact (hr : Registered g) (ho : Outlived g) (h : Moves g g')
    (hc : g.crash ≠ some .deletedSocket) : g'.crash ≠ some .deletedSocket := by
  induction h with
  | refl => exact hc
  | tail hms hm ih => exact move_intact (hr.moves hms) ((Moves.outlived hr hms).mpr ho) hm ih

end move

theorem deleteCollected_outlived {g : GLua} : Outlived g.deleteCollected ↔
    Outlived g ∧ ∀ i ∈ g.finished, (g.sockets i).pending = [] := by
  constructor
  · intro h
    exact ⟨fun i hi => h i (Multiset.mem_add.mpr (.inl hi)),
      fun i hi => h i (Multiset.mem_add.mpr (.inr hi))⟩
  · rintro ⟨h, hf⟩ i hi
    rcases Multiset.mem_add.mp hi with hi | hi
    · exact h i hi
    · exact hf i hi

theorem finished_pending {g : GLua} (h : Anchored g) {i : SocketId} (hi : i ∈ g.finished)
    (hb : (g.sockets i).generation < 2 ^ 32) : (g.sockets i).pending = [] ↔
      ∀ op ∈ (g.sockets i).pending, op.generation = (g.sockets i).generation := by
  have hidle := (h.tame i hb).idle (Finset.mem_filter.mp hi).2
  constructor
  · intro hp
    simp [hp]
  · intro hp
    exact List.eq_nil_iff_forall_not_mem.mpr (fun op hop => hidle op hop (hp op hop))

section step

variable {g : GLua} {s : GLuaStep}

theorem poll_moves (g : GLua) (t : Tick) : Moves g (g.poll t.poll) :=
  (poll_touches g t.poll).stirs.moves

theorem step_outlived (hr : Registered g) (ha : Anchored g)
    (hb : ∀ i, ((g.step s).sockets i).generation < 2 ^ 32) :
    Outlived (g.step s) ↔ Outlived g ∧ PollDelivers g s := by
  have hs := step_stepped g s
  generalize g.step s = g' at hs hb
  cases hs with
  | dead s h =>
    refine (and_iff_left ?_).symm
    cases s with
    | call c => trivial
    | think t =>
      intro hc
      simp [(poll_moves g t).alive hc] at h
  | called c => exact ((call_touches g c).stirs.moves.outlived hr).trans (and_iff_left trivial).symm
  | broken t h hp =>
    refine ((poll_moves g t).outlived hr).trans (and_iff_left ?_).symm
    intro hc
    simp [hc] at hp
  | thought t h hp g' he hm =>
    subst he
    have hpr := hr.moves (poll_moves g t)
    have hpa := ha.moves (poll_moves g t)
    have hpb : ∀ i, ((g.poll t.poll).sockets i).generation < 2 ^ 32 :=
      fun i => Nat.lt_of_le_of_lt (hm.generation hpr.deleteCollected i) (hb i)
    rw [hm.outlived hpr.deleteCollected, deleteCollected_outlived, (poll_moves g t).outlived hr]
    refine and_congr_right fun _ => ?_
    refine Iff.trans ?_ ⟨fun hd _ => hd, fun hd => hd hp⟩
    refine forall_congr' fun i => forall_congr' fun hi => ?_
    exact finished_pending hpa hi (hpb i)

theorem step_generation (hr : Registered g) (i : SocketId) :
    (g.sockets i).generation ≤ ((g.step s).sockets i).generation := by
  have hs := step_stepped g s
  generalize g.step s = g' at hs
  cases hs with
  | dead => exact Nat.le_refl _
  | called c => exact (call_touches g c).stirs.moves.generation hr i
  | broken t => exact (poll_moves g t).generation hr i
  | thought t h hp g' he hm =>
    subst he
    exact Nat.le_trans ((poll_moves g t).generation hr i)
      (hm.generation (hr.moves (poll_moves g t)).deleteCollected i)

theorem step_intact (hr : Registered g) (ho : Outlived g) (ho' : Outlived (g.step s))
    (hc : g.crash ≠ some .deletedSocket) : (g.step s).crash ≠ some .deletedSocket := by
  have hs := step_stepped g s
  generalize g.step s = g' at hs ho'
  cases hs with
  | dead => exact hc
  | called c => exact (call_touches g c).stirs.moves.intact hr ho hc
  | broken t => exact (poll_moves g t).intact hr ho hc
  | thought t h hp g' he hm =>
    subst he
    have hpr := (hr.moves (poll_moves g t)).deleteCollected
    have hpc : (g.poll t.poll).crash ≠ some .deletedSocket := (poll_moves g t).intact hr ho hc
    exact hm.intact hpr ((hm.outlived hpr).mp ho') hpc

end step

theorem outlived_run (ls : List GLuaStep) (hb : ∀ i, ((run {} ls).sockets i).generation < 2 ^ 32) :
    (Outlived (run {} ls) ↔ Machine.Along step PollDelivers {} ls) ∧
      (Outlived (run {} ls) → (run {} ls).crash ≠ some .deletedSocket) := by
  induction ls using List.reverseRecOn with
  | nil => exact ⟨⟨fun _ => trivial, fun _ i hi => by simp at hi⟩, fun _ => by simp⟩
  | append_singleton ls s ih =>
    have hr := registered_run ls
    have hsnoc : run {} (ls ++ [s]) = (run {} ls).step s := Machine.run_append step {} ls [s]
    rw [hsnoc] at hb ⊢
    obtain ⟨hiff, hcrash⟩ := ih (fun i => Nat.lt_of_le_of_lt (step_generation hr i) (hb i))
    have hstep := step_outlived hr (anchored_run ls) hb
    refine ⟨?_, ?_⟩
    · rw [hstep, hiff, Machine.along_append]
      exact and_congr_right fun _ => (and_iff_left trivial).symm
    · intro ho
      have hls := (hstep.mp ho).1
      exact step_intact hr hls ho (hcrash hls)

theorem deleted_after_handlers (ls : List GLuaStep)
    (hb : ∀ i < (run {} ls).created, ((run {} ls).sockets i).generation < 2 ^ 32) :
    ((∀ i ∈ (run {} ls).deleted, ((run {} ls).sockets i).pending = []) ↔
        Machine.Along step PollDelivers {} ls) ∧
      (Machine.Along step PollDelivers {} ls → (run {} ls).crash ≠ some .deletedSocket) := by
  have hall : ∀ i, ((run {} ls).sockets i).generation < 2 ^ 32 := by
    intro i
    rcases Nat.lt_or_ge i (run {} ls).created with hi | hi
    · exact hb i hi
    · rw [(registered_run ls).blank i hi]
      exact Nat.two_pow_pos 32
  obtain ⟨hiff, hcrash⟩ := outlived_run ls hall
  exact ⟨hiff, fun h => hcrash (hiff.mpr h)⟩

def cancelledLookup : List (SocketId × Step) :=
  [(0, ⟨.complete ⟨.resolve [] (decimal 80), 1, none, []⟩ ⟨.operationAborted, []⟩, {}⟩)]

def quietTick (handlers : List (SocketId × Step)) : Tick :=
  { poll := handlers, respond := fun _ => { fields := fun _ _ => .nil } }

-- The first tick after closeNow drains the queue, the second gives up the reference.
def abandonedRun (handlers : List (SocketId × Step)) : List GLuaStep :=
  [.call (.createWebSocket .webSocket [] 80 []), .call (.method 0 (.socketOpen true 1)),
    .call (.method 0 .socketCloseNow), .think (quietTick []), .think (quietTick []),
    .call (.socketGCFunction 0), .think (quietTick handlers)]

theorem deleted_after_handlers_delivered :
    ((run {} (abandonedRun cancelledLookup)).sockets 0).pending = [] :=
  (deleted_after_handlers (abandonedRun cancelledLookup) (by decide +kernel)).1.mpr
    (by decide +kernel) 0 (by decide +kernel)

theorem cancelled_lookup_outlives_socket :
    0 ∈ (run {} (abandonedRun [])).deleted ∧
      ((run {} (abandonedRun [])).sockets 0).pending ≠ [] ∧
      (run {} (abandonedRun [] ++ [.think (quietTick cancelledLookup)])).crash =
        some .deletedSocket := by
  decide +kernel

end GLua
end GWSockets
