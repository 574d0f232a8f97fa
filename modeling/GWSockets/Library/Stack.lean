import Mathlib.Data.List.Induction
import Mathlib.Data.List.Infix

namespace Stack

variable {α : Type*}

inductive Move where
  | push
  | pop
  | skip
deriving DecidableEq

section run

variable (move : α → Move)

def apply (stack : List α) (x : α) : List α :=
  match move x with
  | .push => stack ++ [x]
  | .pop => stack.dropLast
  | .skip => stack

def pushes (l : List α) : Nat := l.countP (fun x => move x == .push)

def pops (l : List α) : Nat := l.countP (fun x => move x == .pop)

def Kept (l : List α) : Prop := ∀ p, p <+: l → pops move p ≤ pushes move p

variable {move}

theorem kept_concat {l : List α} {x : α} : Kept move (l ++ [x]) ↔
    Kept move l ∧ pops move (l ++ [x]) ≤ pushes move (l ++ [x]) := by
  constructor
  · intro h
    exact ⟨fun p hp => h p (hp.trans (List.prefix_append l [x])), h _ List.prefix_rfl⟩
  · rintro ⟨hl, hx⟩ p hp
    rcases List.prefix_concat_iff.mp hp with rfl | hp
    · exact hx
    · exact hl p hp

theorem survives {stack ys l : List α} {x : α}
    (h : ∀ p, p <+: l → pops move p ≤ ys.length + pushes move p) :
    ∃ ys', l.foldl (apply move) (stack ++ x :: ys) = stack ++ x :: ys' := by
  induction l generalizing ys with
  | nil => exact ⟨ys, rfl⟩
  | cons y l ih =>
    have hstep : ∀ p, p <+: l → pops move (y :: p) ≤ ys.length + pushes move (y :: p) :=
      fun p hp => h (y :: p) (List.cons_prefix_cons.mpr ⟨rfl, hp⟩)
    rw [List.foldl_cons]
    cases hy : move y with
    | push =>
      have happly : apply move (stack ++ x :: ys) y = stack ++ x :: (ys ++ [y]) := by
        simp [apply, hy]
      rw [happly]
      refine ih fun p hp => ?_
      have hcount : pops move p ≤ ys.length + (pushes move p + 1) := by
        simpa [pops, pushes, hy] using hstep p hp
      rw [List.length_append, List.length_singleton]
      omega
    | pop =>
      have hcount : ∀ p, p <+: l → pops move p + 1 ≤ ys.length + pushes move p := by
        intro p hp
        simpa [pops, pushes, hy] using hstep p hp
      rcases List.eq_nil_or_concat' ys with rfl | ⟨ys, z, rfl⟩
      · have hnone := hcount [] List.nil_prefix
        simp [pops, pushes] at hnone
      · have happly : apply move (stack ++ x :: (ys ++ [z])) y = stack ++ x :: ys := by
          have hassoc : stack ++ x :: (ys ++ [z]) = stack ++ x :: ys ++ [z] := by simp
          simp only [apply, hy, hassoc, List.dropLast_concat]
        rw [happly]
        refine ih fun p hp => ?_
        have hlow := hcount p hp
        rw [List.length_append, List.length_singleton] at hlow
        omega
    | skip =>
      have happly : apply move (stack ++ x :: ys) y = stack ++ x :: ys := by simp [apply, hy]
      rw [happly]
      refine ih fun p hp => ?_
      simpa [pops, pushes, hy] using hstep p hp

variable (move) in
def Buried (l : List α) (x : α) (depth : Nat) : Prop :=
  ∃ before after, l = before ++ x :: after ∧ move x = .push ∧ Kept move after ∧
    depth + pops move after = pushes move after

theorem Buried.concat {l : List α} {x y : α} {depth depth' : Nat} (h : Buried move l x depth)
    (hdepth : depth' + pops move [y] = depth + pushes move [y]) :
    Buried move (l ++ [y]) x depth' := by
  obtain ⟨before, after, rfl, hpush, hkept, hafter⟩ := h
  have hpops : pops move (after ++ [y]) = pops move after + pops move [y] := List.countP_append ..
  have hpushes : pushes move (after ++ [y]) = pushes move after + pushes move [y] :=
    List.countP_append ..
  refine ⟨before, after ++ [y], by simp, hpush, kept_concat.mpr ⟨hkept, ?_⟩, ?_⟩
  · omega
  · omega

theorem buried_of_foldl {stack ys l : List α} {x : α}
    (h : l.foldl (apply move) [] = stack ++ x :: ys) : Buried move l x ys.length := by
  induction l using List.reverseRecOn generalizing stack ys with
  | nil => simp at h
  | append_singleton l y ih =>
    rw [List.foldl_concat] at h
    cases hy : move y with
    | push =>
      rw [apply, hy] at h
      rcases List.eq_nil_or_concat' ys with rfl | ⟨ys, z, rfl⟩
      · obtain ⟨-, rfl⟩ := List.append_singleton_inj.mp h
        have hkept : Kept move ([] : List α) := fun p hp => by
          rw [List.prefix_nil.mp hp]
          exact Nat.le_refl _
        exact ⟨l, [], rfl, hy, hkept, rfl⟩
      · have hassoc : stack ++ x :: (ys ++ [z]) = stack ++ x :: ys ++ [z] := by simp
        obtain ⟨hl, -⟩ := List.append_singleton_inj.mp (h.trans hassoc)
        exact (ih hl).concat (by simp [pops, pushes, hy])
    | pop =>
      rw [apply, hy] at h
      rcases List.eq_nil_or_concat' (l.foldl (apply move) []) with hnil | ⟨rest, z, hl⟩
      · simp [hnil] at h
      · dsimp only at h
        rw [hl, List.dropLast_concat] at h
        have hassoc : l.foldl (apply move) [] = stack ++ x :: (ys ++ [z]) := by
          simp [hl, h]
        exact (ih hassoc).concat (by simp [pops, pushes, hy])
    | skip =>
      rw [apply, hy] at h
      exact (ih h).concat (by simp [pops, pushes, hy])

theorem mem_foldl_iff {l : List α} {x : α} : x ∈ l.foldl (apply move) [] ↔
    move x = .push ∧ ∃ before after, l = before ++ x :: after ∧ Kept move after := by
  constructor
  · intro h
    obtain ⟨stack, ys, hsplit⟩ := List.append_of_mem h
    obtain ⟨before, after, hl, hpush, hkept, -⟩ := buried_of_foldl hsplit
    exact ⟨hpush, before, after, hl, hkept⟩
  · rintro ⟨hpush, before, after, rfl, hkept⟩
    have hx : apply move (before.foldl (apply move) []) x =
        before.foldl (apply move) [] ++ [x] := by
      simp [apply, hpush]
    have hdepth : ∀ p, p <+: after → pops move p ≤ ([] : List α).length + pushes move p :=
      fun p hp => by simpa using hkept p hp
    obtain ⟨ys, hys⟩ := @survives _ move (before.foldl (apply move) []) [] after x hdepth
    rw [List.foldl_append, List.foldl_cons, hx, hys]
    simp

end run

end Stack
