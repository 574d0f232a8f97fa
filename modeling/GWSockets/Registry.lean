import GWSockets.Delivery
import GWSockets.GLua
import Mathlib.Data.List.MinMax

namespace GWSockets
namespace GLua

section act

variable (g : GLua) (i : SocketId) (s : Step)

@[simp] theorem act_created : (g.act i s).created = g.created := by unfold act; split <;> rfl
@[simp] theorem act_allSockets : (g.act i s).allSockets = g.allSockets := by
  unfold act; split <;> rfl
@[simp] theorem act_gcedSockets : (g.act i s).gcedSockets = g.gcedSockets := by
  unfold act; split <;> rfl
@[simp] theorem act_socketTableReferences :
    (g.act i s).socketTableReferences = g.socketTableReferences := by unfold act; split <;> rfl
@[simp] theorem act_registry : (g.act i s).registry = g.registry := by unfold act; split <;> rfl
@[simp] theorem act_references : (g.act i s).references = g.references := by
  unfold act; split <;> rfl
@[simp] theorem act_deleted : (g.act i s).deleted = g.deleted := by unfold act; split <;> rfl
@[simp] theorem act_dispatched : (g.act i s).dispatched = g.dispatched := by
  unfold act; split <;> rfl
@[simp] theorem act_aborted : (g.act i s).aborted = g.aborted := by unfold act; split <;> rfl

variable {g i s}

theorem act_sockets (hi : i ∈ g.allSockets) :
    (g.act i s).sockets = Function.update g.sockets i ((g.sockets i).step s) := by
  simp [act, hi]

@[simp] theorem act_sockets_ne {j : SocketId} (hj : j ≠ i) :
    (g.act i s).sockets j = g.sockets j := by
  unfold act; split <;> simp [hj]

theorem act_sockets_self (hi : i ∈ g.allSockets) :
    (g.act i s).sockets i = (g.sockets i).step s := by
  simp [act_sockets hi]

theorem act_crash_none (h : (g.act i s).crash = none) : i ∈ g.allSockets ∧ g.crash = none := by
  unfold act at h
  split at h
  · next hi =>
    refine ⟨hi, ?_⟩
    revert h
    dsimp only
    split <;> simp
  · cases h

end act

def keep (g : GLua) (i : SocketId) (n : Nat) : GLua :=
  { g with
    registry := g.registry.insert n i
    references := g.references ++ [.created n]
    socketTableReferences := g.socketTableReferences.insert i n }

def release (g : GLua) (i : SocketId) (n : Nat) : GLua :=
  { g with
    registry := g.registry.erase n
    references := g.references ++ [.freed n]
    socketTableReferences := g.socketTableReferences.erase i }

def fail (g : GLua) (c : Crash) : GLua := { g with crash := some c }

theorem keepReference_eq (g : GLua) (i : SocketId) (choice : Nat) :
    ∃ n, n ∉ g.registry ∧ g.keepReference i choice = g.keep i n := by
  by_cases hc : choice ∈ g.registry
  · refine ⟨g.registry.keys.foldr max 0 + 1, ?_, by simp [keepReference, referenceCreate, hc, keep]⟩
    intro hm
    have hle := List.le_max_of_le' 0 (AList.mem_keys.mp hm) (Nat.le_refl _)
    exact Nat.not_succ_le_self _ hle
  · exact ⟨choice, hc, by simp [keepReference, referenceCreate, hc, keep]⟩

inductive Touch (g : GLua) : GLua → Prop where
  | created (kind : SocketClass) (host : Bytes) (port : Nat) (path : Bytes) :
      Touch g (g.createWebSocket kind host port path)
  | acted (i : SocketId) (s : Step) (hi : i ∈ g.allSockets)
      (ho : ∀ clear, s.action ≠ .openSocket clear) (ht : s.action ≠ .takeMessages) :
      Touch g (g.act i s)
  | kept (i : SocketId) (n : Nat) (hi : g.Callable i) (hr : i ∉ g.socketTableReferences)
      (hn : n ∉ g.registry) : Touch g (g.keep i n)
  | opened (i : SocketId) (clear : Bool) (hi : g.Callable i) (hr : i ∈ g.socketTableReferences) :
      Touch g (g.act i ⟨.openSocket clear, {}⟩)
  | collected (i : SocketId) (hi : g.Callable i) (hr : i ∉ g.socketTableReferences) :
      Touch g (g.collect i)
  | freed (i : SocketId) (op : Operation) (hi : i ∉ g.allSockets)
      (hop : op ∈ (g.sockets i).pending) : Touch g (g.fail .deletedSocket)

abbrev Touches : GLua → GLua → Prop := Relation.ReflTransGen Touch

inductive Stir (g : GLua) : GLua → Prop where
  | touched (g' : GLua) (h : Touch g g') : Stir g g'
  | noted (dispatched : List Dispatch) (errors : List Bytes) (aborted : Bool) :
      Stir g { g with dispatched := dispatched, errors := errors, aborted := aborted }

abbrev Stirs : GLua → GLua → Prop := Relation.ReflTransGen Stir

inductive Move (g : GLua) : GLua → Prop where
  | stirred (g' : GLua) (h : Stir g g') : Move g g'
  | taken (i : SocketId) (hi : i ∈ g.allSockets) : Move g (g.act i ⟨.takeMessages, {}⟩)
  | lost (i : SocketId) (hi : i ∉ g.allSockets) (hr : i ∈ g.socketTableReferences) :
      Move g (g.fail .deletedSocket)
  | released (i : SocketId) (n : Nat) (hl : g.socketTableReferences.lookup i = some n)
      (hs : g.state i = .disconnected) (hq : (g.sockets i).queued = []) : Move g (g.release i n)

abbrev Moves : GLua → GLua → Prop := Relation.ReflTransGen Move

theorem Touches.stirs {g g' : GLua} (h : Touches g g') : Stirs g g' :=
  Relation.ReflTransGen.mono (fun _ b hb => .touched b hb) _ _ h

theorem Stirs.moves {g g' : GLua} (h : Stirs g g') : Moves g g' :=
  Relation.ReflTransGen.mono (fun _ b hb => .stirred b hb) _ _ h

section calls

variable {g g' : GLua} {i : SocketId}

theorem acted (hi : i ∈ g.allSockets) {s : Step} (ho : ∀ clear, s.action ≠ .openSocket clear)
    (ht : s.action ≠ .takeMessages) : Touches g (g.act i s) :=
  .single (.acted i s hi ho ht)

theorem whileDisconnected_ok {error : String} {body : Except Bytes GLua}
    (h : g.whileDisconnected i error body = .ok g') :
    g.state i = .disconnected ∧ body = .ok g' := by
  unfold whileDisconnected at h
  split at h
  · cases h
  · next hs => exact ⟨by simpa using hs, h⟩

theorem socketOpen_touches {clear : Bool} {n : Nat} (hi : g.Callable i)
    (h : g.socketOpen i clear n = .ok g') : Touches g g' := by
  unfold socketOpen at h
  split at h
  · cases h
  obtain rfl := Except.ok.inj h
  by_cases hr : i ∈ g.socketTableReferences
  · simp only [hr, if_true]
    exact .single (.opened i clear hi hr)
  · simp only [hr, if_false]
    obtain ⟨m, hm, he⟩ := keepReference_eq g i n
    rw [he]
    refine .head (.kept i m hi hr hm) (.single (.opened i clear hi ?_))
    simp [keep]

theorem method_touches {m : LuaMethod} (hi : g.Callable i) (h : g.method i m = .ok g') :
    Touches g g' := by
  cases m with
  | socketOpen clear n => exact socketOpen_touches hi h
  | socketSetCookie key value | socketSetHeader key value =>
    obtain ⟨-, hb⟩ := whileDisconnected_ok h
    split at hb
    · obtain rfl := Except.ok.inj hb
      exact acted hi.1 (by simp) (by simp)
    · cases hb
  | socketSetMessageCompression value | socketSetDisableContextTakeover value =>
    obtain ⟨-, hb⟩ := whileDisconnected_ok h
    obtain rfl := Except.ok.inj hb
    exact acted hi.1 (by simp) (by simp)
  | _ =>
    obtain rfl := Except.ok.inj h
    exact acted hi.1 (by simp) (by simp)

theorem socketGCFunction_touches (hi : g.Callable i) (hr : i ∉ g.socketTableReferences) :
    Touches g (g.socketGCFunction i) := by
  unfold socketGCFunction
  split
  · exact .refl
  · exact .head (.collected i hi hr) (acted (g := g.collect i) hi.1 (by simp) (by simp))

theorem call_touches (g : GLua) (c : LuaCall) : Touches g (g.call c) := by
  unfold call
  split
  · exact .refl
  cases c with
  | createWebSocket kind host port path => exact .single (.created kind host port path)
  | method i m =>
    dsimp only
    split
    · next hi =>
      cases h : g.method i m with
      | ok g' => exact method_touches hi h
      | error e => exact .refl
    · exact .refl
  | socketGCFunction i =>
    dsimp only
    split
    · next h => exact socketGCFunction_touches h.1 h.2
    · exact .refl

theorem calls_touches (g : GLua) (calls : List LuaCall) : Touches g (calls.foldl call g) := by
  induction calls generalizing g with
  | nil => exact .refl
  | cons c calls ih => exact (call_touches g c).trans (ih _)

theorem deliver_touches (g : GLua) (h : SocketId × Step) : Touches g (g.deliver h) := by
  unfold deliver
  split
  · exact .refl
  next hh =>
  simp only [not_or] at hh
  have ho : (∀ clear, h.2.action ≠ .openSocket clear) ∧ h.2.action ≠ .takeMessages := by
    cases ha : h.2.action <;> simp_all [Action.handler]
  split
  · next hi => exact acted hi ho.1 ho.2
  next hi =>
  split
  · next hp =>
    obtain ⟨⟨op, ec⟩, -, hop⟩ := hp
    exact .single (.freed h.1 op hi hop)
  · exact .refl

theorem poll_touches (g : GLua) (handlers : List (SocketId × Step)) :
    Touches g (g.poll handlers) := by
  unfold poll
  induction handlers generalizing g with
  | nil => exact .refl
  | cons h handlers ih => exact (deliver_touches g h).trans (ih _)

end calls

structure Registered (g : GLua) : Prop where
  gced : ∀ i ∈ g.gcedSockets, i ∈ g.allSockets
  referenced : ∀ i ∈ g.socketTableReferences, g.Callable i
  held : ∀ i n, g.socketTableReferences.lookup i = some n → g.registry.lookup n = some i
  known : ∀ i, i ∈ g.allSockets ∨ i ∈ g.deleted ↔ i < g.created
  gone : ∀ i ∈ g.deleted, i ∉ g.allSockets
  blank : ∀ i, g.created ≤ i → g.sockets i = .new .webSocket [] 0 []

namespace Registered

variable {g g' : GLua}

theorem init : Registered {} :=
  ⟨by simp, by simp, by simp, by simp, by simp, fun _ _ => rfl⟩

theorem act (h : Registered g) (i : SocketId) (s : Step) : Registered (g.act i s) := by
  refine ⟨by simpa using h.gced, by simpa [Callable] using h.referenced, by simpa using h.held,
    by simpa using h.known, by simpa using h.gone, ?_⟩
  intro j hj
  rw [act_created] at hj
  by_cases hji : j = i
  · subst hji
    have hn : j ∉ g.allSockets := fun hm => Nat.not_lt.mpr hj ((h.known j).mp (.inl hm))
    simpa [GLua.act, hn] using h.blank j hj
  · simpa [hji] using h.blank j hj

theorem keep (h : Registered g) {i : SocketId} {n : Nat} (hi : g.Callable i)
    (hn : n ∉ g.registry) : Registered (g.keep i n) := by
  refine ⟨h.gced, ?_, ?_, h.known, h.gone, h.blank⟩
  · intro j hj
    rcases (AList.mem_insert _).mp hj with rfl | hj
    · exact hi
    · exact h.referenced j hj
  · intro j m hm
    simp only [GLua.keep] at hm ⊢
    by_cases hji : j = i
    · subst hji
      rw [AList.lookup_insert] at hm
      obtain rfl := Option.some.inj hm
      exact AList.lookup_insert _
    · rw [AList.lookup_insert_ne hji] at hm
      have hl := h.held j m hm
      have hmn : m ≠ n := by
        rintro rfl
        exact hn (AList.lookup_isSome.mp (by simp [hl]))
      rw [AList.lookup_insert_ne hmn, hl]

theorem collect (h : Registered g) {i : SocketId} (hi : g.Callable i)
    (hr : i ∉ g.socketTableReferences) : Registered (g.collect i) := by
  refine ⟨?_, ?_, ?_, h.known, h.gone, h.blank⟩
  · intro j hj
    rcases Finset.mem_insert.mp hj with rfl | hj
    · exact hi.1
    · exact h.gced j hj
  · intro j hj
    obtain ⟨hji, hj⟩ := AList.mem_erase.mp hj
    obtain ⟨h1, h2⟩ := h.referenced j hj
    exact ⟨h1, by simp [GLua.collect, hji, h2]⟩
  · intro j m hm
    have hji : j ≠ i := by
      rintro rfl
      rw [GLua.collect, AList.lookup_erase] at hm
      cases hm
    rw [GLua.collect, AList.lookup_erase_ne hji] at hm
    exact h.held j m hm

theorem create (h : Registered g) (kind : SocketClass) (host : Bytes) (port : Nat) (path : Bytes) :
    Registered (g.createWebSocket kind host port path) := by
  have hlt : ∀ j, j ∈ g.allSockets ∨ j ∈ g.deleted → j ≠ g.created :=
    fun j hj => Nat.ne_of_lt ((h.known j).mp hj)
  refine ⟨fun j hj => Finset.mem_insert_of_mem (h.gced j hj), ?_, h.held, ?_, ?_, ?_⟩
  · intro j hj
    obtain ⟨h1, h2⟩ := h.referenced j hj
    exact ⟨Finset.mem_insert_of_mem h1, h2⟩
  · intro j
    have hk := h.known j
    simp only [createWebSocket, Finset.mem_insert]
    rw [or_assoc, hk]
    exact (Nat.lt_succ_iff_lt_or_eq.trans Or.comm).symm
  · intro j hj hm
    rcases Finset.mem_insert.mp hm with hc | hm
    · exact hlt j (.inr hj) hc
    · exact h.gone j hj hm
  · intro j hj
    have hj : g.created < j := hj
    rw [← h.blank j (Nat.le_of_lt hj)]
    exact Function.update_of_ne (Nat.ne_of_gt hj) ..

theorem release (h : Registered g) {i : SocketId} {n : Nat}
    (hl : g.socketTableReferences.lookup i = some n) : Registered (g.release i n) := by
  refine ⟨h.gced, ?_, ?_, h.known, h.gone, h.blank⟩
  · intro j hj
    exact h.referenced j (AList.mem_erase.mp hj).2
  · intro j m hm
    have hji : j ≠ i := by
      rintro rfl
      rw [GLua.release, AList.lookup_erase] at hm
      cases hm
    rw [GLua.release, AList.lookup_erase_ne hji] at hm
    have hj := h.held j m hm
    have hmn : m ≠ n := by
      rintro rfl
      exact hji (Option.some.inj (hj.symm.trans (h.held i m hl)))
    rw [GLua.release, AList.lookup_erase_ne hmn]
    exact hj

theorem touch (h : Registered g) (ht : Touch g g') : Registered g' := by
  cases ht with
  | created kind host port path => exact h.create kind host port path
  | acted i s => exact h.act i s
  | kept i n hi hr hn => exact h.keep hi hn
  | opened i clear => exact h.act i _
  | collected i hi hr => exact h.collect hi hr
  | freed => exact ⟨h.gced, h.referenced, h.held, h.known, h.gone, h.blank⟩

theorem stir (h : Registered g) (hm : Stir g g') : Registered g' := by
  cases hm with
  | touched g' ht => exact h.touch ht
  | noted => exact ⟨h.gced, h.referenced, h.held, h.known, h.gone, h.blank⟩

theorem stirs (h : Registered g) (hm : Stirs g g') : Registered g' :=
  Machine.closure_invariant (I := Registered) (fun _ _ => stir) h hm

theorem move (h : Registered g) (hm : Move g g') : Registered g' := by
  cases hm with
  | stirred g' hs => exact h.stir hs
  | taken i => exact h.act i _
  | lost => exact ⟨h.gced, h.referenced, h.held, h.known, h.gone, h.blank⟩
  | released i n hl => exact h.release hl

theorem moves (h : Registered g) (hm : Moves g g') : Registered g' :=
  Machine.closure_invariant (I := Registered) (fun _ _ => move) h hm

theorem deleteCollected (h : Registered g) : Registered g.deleteCollected := by
  have hf : ∀ {i}, i ∈ g.finished → i ∈ g.allSockets :=
    fun hi => h.gced _ (Finset.mem_filter.mp hi).1
  refine ⟨?_, ?_, h.held, ?_, ?_, h.blank⟩
  · intro i hi
    obtain ⟨hg, hn⟩ := Finset.mem_sdiff.mp hi
    exact Finset.mem_sdiff.mpr ⟨h.gced i hg, hn⟩
  · intro i hi
    obtain ⟨ha, hg⟩ := h.referenced i hi
    refine ⟨Finset.mem_sdiff.mpr ⟨ha, fun hn => hg (Finset.mem_filter.mp hn).1⟩, ?_⟩
    exact fun hn => hg (Finset.mem_sdiff.mp hn).1
  · intro i
    rw [← show _ ↔ i < g.deleteCollected.created from h.known i]
    by_cases hi : i ∈ g.finished
    · simp [GLua.deleteCollected, hi, hf hi]
    · simp [GLua.deleteCollected, hi]
  · intro i hi
    rcases Multiset.mem_add.mp hi with hi | hi
    · exact fun hn => h.gone i hi (Finset.mem_sdiff.mp hn).1
    · exact fun hn => (Finset.mem_sdiff.mp hn).2 hi

end Registered

end GLua
end GWSockets
