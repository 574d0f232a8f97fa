import Mathlib.Data.List.Basic

namespace Trace

variable {E : Type*} {P : List E → E → Prop} {log added : List E}

def Causal (P : List E → E → Prop) (log : List E) : Prop :=
  ∀ before e later, log = before ++ e :: later → P before e

theorem causal_nil : Causal P [] := by
  intro before e later h
  simp at h

theorem causal_snoc {e : E} : Causal P (log ++ [e]) ↔ Causal P log ∧ P log e := by
  constructor
  · refine fun h => ⟨fun before x later hsplit => ?_, h log e [] rfl⟩
    exact h before x (later ++ [e]) (by simp [hsplit])
  · rintro ⟨h, he⟩ before x later hsplit
    rcases List.eq_nil_or_concat' later with rfl | ⟨later, y, rfl⟩
    · obtain ⟨rfl, hx⟩ := List.append_inj' hsplit rfl
      obtain rfl := List.singleton_inj.mp hx
      exact he
    · have hsplit' : log ++ [e] = (before ++ x :: later) ++ [y] := by simpa using hsplit
      exact h before x later (List.append_inj' hsplit' rfl).1

theorem Causal.append (h : Causal P log) (ha : ∀ before, ∀ e ∈ added, P before e) :
    Causal P (log ++ added) := by
  induction added generalizing log with
  | nil => simpa using h
  | cons e added ih =>
    rw [← List.singleton_append, ← List.append_assoc]
    exact ih (causal_snoc.mpr ⟨h, ha log e (by simp)⟩)
      (fun before x hx => ha before x (by simp [hx]))

theorem Causal.left (h : Causal P (log ++ added)) : Causal P log :=
  fun before e later hsplit => h before e (later ++ added) (by simp [hsplit])

end Trace
