import Mathlib.Data.List.DropRight
import Mathlib.Data.List.GetD
import Mathlib.Data.List.Lex
import Mathlib.Data.Nat.Basic
import Mathlib.Order.Compare
import Mathlib.Order.PiLex
import Mathlib.Order.RelClasses

namespace Padded

variable {α : Type*} (z : α)

def extended (l : List α) : Lex (ℕ → α) := toLex (fun i => l.getD i z)

variable {z} {a b : List α} {n : ℕ}

theorem extended_rightpad : extended z (a.rightpad n z) = extended z a := by
  funext i
  show (a ++ List.replicate (n - a.length) z).getD i z = a.getD i z
  rcases lt_or_ge i a.length with hi | hi
  · rw [List.getD_append _ _ _ _ hi]
  · rw [List.getD_append_right _ _ _ _ hi, List.getD_eq_default _ _ hi,
      List.getD_eq_getElem?_getD, List.getElem?_getD_replicate_default_eq]

theorem extended_concat : extended z (a ++ [z]) = extended z a := by
  have h : a ++ [z] = a.rightpad (a.length + 1) z := by simp [List.rightpad]
  rw [h, extended_rightpad]

theorem extended_eq_iff_of_length (h : a.length = b.length) :
    extended z a = extended z b ↔ a = b := by
  constructor
  · intro heq
    refine List.ext_getElem h fun i ha hb => ?_
    have hi : a.getD i z = b.getD i z := congrFun heq i
    rwa [List.getD_eq_getElem _ _ ha, List.getD_eq_getElem _ _ hb] at hi
  · rintro rfl
    rfl

section trimmed

variable [DecidableEq α]

def trimmed (z : α) (l : List α) : List α := l.rdropWhile (fun x => x = z)

theorem extended_trimmed : extended z (trimmed z a) = extended z a := by
  induction a using List.reverseRecOn with
  | nil => rfl
  | append_singleton a x ih =>
    by_cases h : x = z
    · subst h
      rw [trimmed, List.rdropWhile_concat_pos _ _ _ (by simp), extended_concat]
      exact ih
    · rw [trimmed, List.rdropWhile_concat_neg _ _ _ (by simpa using h)]

theorem trimmed_concat_ne {init : List α} {x : α} (h : trimmed z a = init ++ [x]) : x ≠ z := by
  have hne : a.rdropWhile (fun x => x = z) ≠ [] := by
    rw [← trimmed, h]
    exact List.concat_ne_nil x init
  have hlast : (a.rdropWhile (fun x => x = z)).getLast hne = x := by
    simp only [show a.rdropWhile (fun x => x = z) = init ++ [x] from h, List.getLast_concat]
  simpa [hlast] using List.rdropWhile_last_not _ a hne

theorem length_trimmed_le (h : extended z a = extended z b) :
    (trimmed z a).length ≤ (trimmed z b).length := by
  rcases List.eq_nil_or_concat' (trimmed z a) with hnil | ⟨init, x, hinit⟩
  · rw [hnil]
    exact Nat.zero_le _
  · by_contra hshort
    have hend : (trimmed z b).length ≤ init.length := by
      rw [hinit, List.length_append, List.length_singleton] at hshort
      omega
    have hi : (trimmed z a).getD init.length z = (trimmed z b).getD init.length z :=
      congrFun ((extended_trimmed.trans h).trans extended_trimmed.symm) init.length
    have hx : (init ++ [x]).getD init.length z = x := by
      simp
    rw [hinit, hx, List.getD_eq_default _ _ hend] at hi
    exact trimmed_concat_ne hinit hi

theorem extended_eq_iff : extended z a = extended z b ↔ trimmed z a = trimmed z b := by
  constructor
  · intro h
    have hlength := le_antisymm (length_trimmed_le h) (length_trimmed_le h.symm)
    rwa [← extended_eq_iff_of_length hlength, extended_trimmed, extended_trimmed]
  · intro h
    rw [← extended_trimmed, h, extended_trimmed]

end trimmed

section order

variable [LinearOrder α]

theorem extended_lt_of_lt (h : a.length = b.length) (hlt : a < b) :
    extended z a < extended z b := by
  rcases List.lt_iff_exists.mp hlt with ⟨-, hshort⟩ | ⟨i, ha, hb, heq, hi⟩
  · exact absurd h hshort.ne
  · refine ⟨i, fun j hj => ?_, ?_⟩
    · show a.getD j z = b.getD j z
      rw [List.getD_eq_getElem _ _ (hj.trans ha), List.getD_eq_getElem _ _ (hj.trans hb)]
      exact heq j hj
    · show a.getD i z < b.getD i z
      rwa [List.getD_eq_getElem _ _ ha, List.getD_eq_getElem _ _ hb]

def comparison (z : α) (a b : List α) : Ordering :=
  cmp (a.rightpad (max a.length b.length) z) (b.rightpad (max a.length b.length) z)

theorem compares_extended {o : Ordering} (h : a.length = b.length) (hcompares : o.Compares a b) :
    o.Compares (extended z a) (extended z b) := by
  cases o with
  | lt => exact extended_lt_of_lt h hcompares
  | eq => exact congrArg (extended z) hcompares
  | gt => exact extended_lt_of_lt h.symm hcompares

theorem comparison_compares : (comparison z a b).Compares (extended z a) (extended z b) := by
  have hlength : (a.rightpad (max a.length b.length) z).length =
      (b.rightpad (max a.length b.length) z).length := by
    simp [List.rightpad]
  have h := compares_extended (z := z) hlength (cmp_compares _ _)
  rw [extended_rightpad, extended_rightpad] at h
  rw [comparison]
  convert h
  rfl

theorem comparison_congr {a' b' : List α} (ha : extended z a = extended z a')
    (hb : extended z b = extended z b') : comparison z a b = comparison z a' b' := by
  have h := comparison_compares (z := z) (a := a) (b := b)
  rw [ha, hb] at h
  exact h.inj comparison_compares

theorem comparison_swap : (comparison z a b).swap = comparison z b a := by
  rw [comparison, cmp_swap, max_comm, comparison]

theorem comparison_eq_eq_iff : comparison z a b = .eq ↔ trimmed z a = trimmed z b :=
  comparison_compares.eq_eq.trans extended_eq_iff

theorem comparison_ne_gt_iff : comparison z a b ≠ .gt ↔ extended z a ≤ extended z b :=
  comparison_compares.ne_gt

theorem comparison_trans {c : List α} (hab : comparison z a b ≠ .gt)
    (hbc : comparison z b c ≠ .gt) : comparison z a c ≠ .gt := by
  rw [comparison_ne_gt_iff] at *
  exact hab.trans hbc

section scan

variable {f g : ℕ → α}

def scan (f g : ℕ → α) : List ℕ → Ordering
  | [] => .eq
  | i :: is => if f i ≠ g i then (if f i < g i then .lt else .gt) else scan f g is

theorem scan_range' {start count : ℕ} (hbefore : ∀ i < start, f i = g i)
    (hafter : ∀ i, start + count ≤ i → f i = g i) :
    (scan f g (List.range' start count)).Compares (toLex f) (toLex g) := by
  induction count generalizing start with
  | zero =>
    refine congrArg toLex (funext fun i => ?_)
    rcases lt_or_ge i start with hi | hi
    · exact hbefore i hi
    · exact hafter i hi
  | succ count ih =>
    rw [List.range'_succ, scan]
    by_cases heq : f start = g start
    · rw [if_neg (not_not.mpr heq)]
      refine ih (fun i hi => ?_) (fun i hi => hafter i (by omega))
      rcases Nat.lt_succ_iff_lt_or_eq.mp hi with hi | rfl
      · exact hbefore i hi
      · exact heq
    · rw [if_pos heq]
      by_cases hlt : f start < g start
      · rw [if_pos hlt]
        exact ⟨start, hbefore, hlt⟩
      · rw [if_neg hlt]
        exact ⟨start, fun i hi => (hbefore i hi).symm,
          lt_of_le_of_ne (not_lt.mp hlt) (Ne.symm heq)⟩

theorem scan_getD : scan (fun i => a.getD i z) (fun i => b.getD i z)
    (List.range (max a.length b.length)) = comparison z a b := by
  refine Ordering.Compares.inj ?_ (comparison_compares (z := z))
  rw [List.range_eq_range']
  refine scan_range' (fun i hi => absurd hi (Nat.not_lt_zero i)) (fun i hi => ?_)
  rw [List.getD_eq_default _ _ (by omega), List.getD_eq_default _ _ (by omega)]

end scan

end order

end Padded
