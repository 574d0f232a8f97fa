import Mathlib.Data.List.DropRight

namespace Delimited

variable {α : Type*}

theorem eq_append_cons_of_mem_last {c : α} {l : List α} (h : c ∈ l) :
    ∃ before last, l = before ++ c :: last ∧ c ∉ last := by
  obtain ⟨last, before, hsplit, hlast⟩ := List.eq_append_cons_of_mem (List.mem_reverse.mpr h)
  refine ⟨before.reverse, last.reverse, ?_, by simpa using hlast⟩
  simpa using congrArg List.reverse hsplit

section span

variable {p : α → Bool} {l rest : List α}

theorem takeWhile_left (hl : ∀ x ∈ l, p x = true) (hrest : ∀ x ∈ rest.head?, p x = false) :
    (l ++ rest).takeWhile p = l := by
  rw [List.takeWhile_append_of_pos hl]
  cases rest with
  | nil => simp
  | cons x rest => simp [hrest x rfl]

theorem dropWhile_right (hl : ∀ x ∈ l, p x = true) (hrest : ∀ x ∈ rest.head?, p x = false) :
    (l ++ rest).dropWhile p = rest := by
  rw [List.dropWhile_append_of_pos hl]
  cases rest with
  | nil => rfl
  | cons x rest => simp [hrest x rfl]

end span

section equality

variable [DecidableEq α]

def split (a b : α) : List α → List (List α)
  | [] => [[]]
  | [x] => [[x]]
  | x :: y :: rest =>
      if x = a ∧ y = b then [] :: split a b rest
      else (split a b (y :: rest)).modifyHead (x :: ·)

def cutAt (c : α) (l : List α) : List α × List α :=
  (l.takeWhile (· != c), (l.dropWhile (· != c)).drop 1)

section split

variable {a b : α}

theorem split_ne_nil {l : List α} : split a b l ≠ [] := by
  induction l using split.induct a b with
  | case1 => exact List.cons_ne_nil _ _
  | case2 x => exact List.cons_ne_nil _ _
  | case3 x y rest h ih =>
    rw [split, if_pos h]
    exact List.cons_ne_nil _ _
  | case4 x y rest h ih =>
    rw [split, if_neg h]
    simpa using ih

theorem split_of_not_mem {l : List α} (h : a ∉ l) : split a b l = [l] := by
  induction l with
  | nil => rfl
  | cons x l ih =>
    obtain ⟨hx, hl⟩ : a ≠ x ∧ a ∉ l := by simpa using h
    cases l with
    | nil => rfl
    | cons y l =>
      rw [split, if_neg (fun hc => hx hc.1.symm), ih hl]
      rfl

theorem split_append {l : List α} (h : a ∉ l) (rest : List α) :
    split a b (l ++ a :: b :: rest) = l :: split a b rest := by
  induction l with
  | nil => rw [List.nil_append, split, if_pos ⟨rfl, rfl⟩]
  | cons x l ih =>
    obtain ⟨hx, hl⟩ : a ≠ x ∧ a ∉ l := by simpa using h
    have hne : ∀ y, ¬ (x = a ∧ y = b) := fun y hc => hx hc.1.symm
    cases l with
    | nil =>
      have hnil := ih hl
      rw [List.nil_append] at hnil
      rw [List.singleton_append, split, if_neg (hne a), hnil]
      rfl
    | cons y l =>
      rw [List.cons_append, List.cons_append, split, if_neg (hne y), ← List.cons_append, ih hl]
      rfl

theorem split_lines {ls : List (List α)} (h : ∀ l ∈ ls, a ∉ l) :
    split a b (ls.flatMap (fun l => l ++ [a, b])) = ls ++ [[]] := by
  induction ls with
  | nil => rfl
  | cons l ls ih =>
    rw [List.flatMap_cons, List.append_assoc]
    show split a b (l ++ a :: b :: ls.flatMap (fun l => l ++ [a, b])) = _
    rw [split_append (h l (by simp)), ih (fun x hx => h x (by simp [hx]))]
    rfl

theorem split_joined {l : List α} {ls : List (List α)} (hl : a ∉ l) (h : ∀ x ∈ ls, a ∉ x) :
    split a b (l ++ ls.flatMap (fun x => a :: b :: x)) = l :: ls := by
  induction ls generalizing l with
  | nil => rw [List.flatMap_nil, List.append_nil, split_of_not_mem hl]
  | cons x ls ih =>
    rw [List.flatMap_cons, List.cons_append, List.cons_append, split_append hl,
      ih (h x (by simp)) (fun y hy => h y (by simp [hy]))]

end split

section splitOn

variable {c : α}

theorem splitOn_append {l rest last : List α} {init : List (List α)} (hrest : c ∉ rest)
    (h : l.splitOn c = init ++ [last]) : (l ++ rest).splitOn c = init ++ [last ++ rest] := by
  by_cases hc : c ∈ l
  · obtain ⟨before, tail, rfl, htail⟩ := eq_append_cons_of_mem_last hc
    have hend : c ∉ tail ++ rest := by simp [htail, hrest]
    rw [List.splitOn_append_cons_self, List.splitOn_eq_singleton htail] at h
    obtain ⟨rfl, hlast⟩ := List.append_inj' h rfl
    obtain rfl := List.singleton_inj.mp hlast
    rw [List.append_assoc, List.cons_append, List.splitOn_append_cons_self,
      List.splitOn_eq_singleton hend]
  · rw [List.splitOn_eq_singleton hc] at h
    obtain ⟨rfl, hlast⟩ := List.append_inj' (h.symm.trans (List.nil_append _).symm) rfl
    obtain rfl := List.singleton_inj.mp hlast
    rw [List.splitOn_eq_singleton (by simp [hc, hrest])]
    rfl

theorem mem_of_mem_splitOn {l w : List α} (h : w ∈ l.splitOn c) : ∀ x ∈ w, x ∈ l ∧ x ≠ c := by
  induction l generalizing w with
  | nil =>
    obtain rfl : w = [] := by simpa using h
    simp
  | cons y l ih =>
    rw [List.splitOn_cons_eq_if_modifyHead] at h
    have hkeep : ∀ v ∈ l.splitOn c, ∀ x ∈ v, x ∈ y :: l ∧ x ≠ c := fun v hv x hx =>
      ⟨List.mem_cons_of_mem y (ih hv x hx).1, (ih hv x hx).2⟩
    split at h
    · rcases List.mem_cons.mp h with rfl | h
      · simp
      · exact hkeep w h
    · next hy =>
      obtain ⟨v, vs, hsplit⟩ := List.exists_cons_of_ne_nil (List.splitOn_ne_nil c l)
      rw [hsplit] at h hkeep
      rcases List.mem_cons.mp h with rfl | h
      · intro x hx
        rcases List.mem_cons.mp hx with rfl | hx
        · exact ⟨List.mem_cons_self, by simpa using hy⟩
        · exact hkeep v List.mem_cons_self x hx
      · exact hkeep w (List.mem_cons_of_mem v h)

end splitOn

theorem cutAt_append {c : α} {k : List α} (h : c ∉ k) (v : List α) :
    cutAt c (k ++ c :: v) = (k, v) := by
  have hk : ∀ x ∈ k, (x != c) = true := by
    intro x hx
    rw [bne_iff_ne]
    rintro rfl
    exact h hx
  have hc : ∀ x ∈ (c :: v).head?, (x != c) = false := by simp
  rw [cutAt, takeWhile_left hk hc, dropWhile_right hk hc]
  rfl

theorem append_cons_inj {c : α} {a b x y : List α} (ha : c ∉ a) (hb : c ∉ b)
    (h : a ++ c :: x = b ++ c :: y) : a = b ∧ x = y := by
  have hcut := congrArg (cutAt c) h
  rwa [cutAt_append ha, cutAt_append hb, Prod.mk.injEq] at hcut

end equality

section strip

variable {blank : α → Bool}

def strip (blank : α → Bool) (l : List α) : List α := (l.dropWhile blank).rdropWhile blank

theorem strip_cons {x : α} (h : blank x = true) (l : List α) :
    strip blank (x :: l) = strip blank l := by
  rw [strip, List.dropWhile_cons_of_pos h, strip]

theorem strip_self {l : List α} (hh : ∀ x ∈ l.head?, blank x = false)
    (hl : ∀ x ∈ l.getLast?, blank x = false) : strip blank l = l := by
  have hdrop : l.dropWhile blank = l := by
    cases l with
    | nil => rfl
    | cons x l => exact List.dropWhile_cons_of_neg (by simp [hh x rfl])
  rw [strip, hdrop, List.rdropWhile_eq_self_iff]
  intro hne
  simp [hl _ (List.getLast?_eq_getLast_of_ne_nil hne)]

end strip

end Delimited
