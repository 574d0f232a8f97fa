import Mathlib.Logic.Relation
import Mathlib.Data.List.Induction
import Mathlib.Data.List.Infix

namespace Machine

variable {S L : Type*} (step : S → L → S)

def run (s : S) (ls : List L) : S := ls.foldl step s

def Along (ok : S → L → Prop) : S → List L → Prop
  | _, [] => True
  | s, l :: ls => ok s l ∧ Along ok (step s l) ls

instance instDecidableAlong (ok : S → L → Prop) [∀ s l, Decidable (ok s l)] :
    ∀ (s : S) (ls : List L), Decidable (Along step ok s ls)
  | _, [] => .isTrue trivial
  | s, l :: ls =>
      have := instDecidableAlong ok (step s l) ls
      inferInstanceAs (Decidable (ok s l ∧ Along step ok (step s l) ls))

def emitted {E : Type*} (f : S → L → Option E) : S → List L → List E
  | _, [] => []
  | s, l :: ls => (f s l).toList ++ emitted f (step s l) ls

@[simp] theorem run_nil (s : S) : run step s [] = s := rfl

@[simp] theorem run_cons (s : S) (l : L) (ls : List L) :
    run step s (l :: ls) = run step (step s l) ls := rfl

theorem run_append (s : S) (xs ys : List L) :
    run step s (xs ++ ys) = run step (run step s xs) ys := by
  simp [run, List.foldl_append]

variable {step}

theorem along_append {ok : S → L → Prop} {s : S} {xs ys : List L} :
    Along step ok s (xs ++ ys) ↔ Along step ok s xs ∧ Along step ok (run step s xs) ys := by
  induction xs generalizing s with
  | nil => simp [Along]
  | cons x xs ih => simp [Along, ih, and_assoc]

theorem Along.and {ok ok' : S → L → Prop} {s : S} {ls : List L}
    (h : Along step ok s ls) (h' : Along step ok' s ls) :
    Along step (fun t l => ok t l ∧ ok' t l) s ls := by
  induction ls generalizing s with
  | nil => trivial
  | cons l ls ih => exact ⟨⟨h.1, h'.1⟩, ih h.2 h'.2⟩

theorem run_invariant {I : S → Prop} {ok : S → L → Prop}
    (hstep : ∀ s l, I s → ok s l → I (step s l)) {s : S} {ls : List L}
    (hs : I s) (hok : Along step ok s ls) : I (run step s ls) := by
  induction ls generalizing s with
  | nil => exact hs
  | cons l ls ih => exact ih (hstep s l hs hok.1) hok.2

theorem always_invariant {I : S → Prop} (hstep : ∀ s l, I s → I (step s l)) {s : S}
    (hs : I s) (ls : List L) : I (run step s ls) := by
  induction ls generalizing s with
  | nil => exact hs
  | cons l ls ih => exact ih (hstep s l hs)

section emitted

variable {E V : Type*} {f : S → L → Option E}

theorem mem_emitted {s : S} {ls : List L} {e : E} (h : e ∈ emitted step f s ls) :
    ∃ s l, f s l = some e := by
  induction ls generalizing s with
  | nil => cases h
  | cons l ls ih =>
    rcases List.mem_append.mp h with h | h
    · exact ⟨s, l, Option.mem_toList.mp h⟩
    · exact ih h

theorem run_emitted {v : S → V} {apply : V → E → V}
    (h : ∀ s l, v (step s l) = (f s l).toList.foldl apply (v s)) (s : S) (ls : List L) :
    v (run step s ls) = (emitted step f s ls).foldl apply (v s) := by
  induction ls generalizing s with
  | nil => rfl
  | cons l ls ih => rw [run_cons, ih, h, emitted, List.foldl_append]

theorem prefix_emitted {s : S} {ls : List L} {es : List E} (h : es <+: emitted step f s ls) :
    ∃ before, before <+: ls ∧ emitted step f s before = es := by
  induction ls generalizing s es with
  | nil => exact ⟨[], List.prefix_rfl, (List.prefix_nil.mp h).symm⟩
  | cons l ls ih =>
    rw [emitted] at h
    cases hf : f s l with
    | none =>
      rw [hf] at h
      obtain ⟨before, hbefore, hes⟩ := ih h
      exact ⟨l :: before, List.cons_prefix_cons.mpr ⟨rfl, hbefore⟩, by simp [emitted, hf, hes]⟩
    | some e =>
      rw [hf] at h
      cases es with
      | nil => exact ⟨[], List.nil_prefix, rfl⟩
      | cons e' es =>
        obtain ⟨rfl, htail⟩ := List.cons_prefix_cons.mp h
        obtain ⟨before, hbefore, hes⟩ := ih htail
        exact ⟨l :: before, List.cons_prefix_cons.mpr ⟨rfl, hbefore⟩, by simp [emitted, hf, hes]⟩

theorem concat_prefix_emitted {s : S} {ls : List L} {es : List E} {e : E}
    (h : es ++ [e] <+: emitted step f s ls) :
    ∃ before l, before ++ [l] <+: ls ∧ emitted step f s before = es ∧
      f (run step s before) l = some e := by
  induction ls generalizing s es with
  | nil => simp [emitted] at h
  | cons l ls ih =>
    rw [emitted] at h
    cases hf : f s l with
    | none =>
      rw [hf] at h
      obtain ⟨before, m, hbefore, hes, hm⟩ := ih h
      exact ⟨l :: before, m, List.cons_prefix_cons.mpr ⟨rfl, hbefore⟩, by simp [emitted, hf, hes],
        hm⟩
    | some e' =>
      rw [hf] at h
      cases es with
      | nil =>
        obtain ⟨rfl, -⟩ := List.cons_prefix_cons.mp h
        exact ⟨[], l, List.cons_prefix_cons.mpr ⟨rfl, List.nil_prefix⟩, rfl, hf⟩
      | cons e'' es =>
        obtain ⟨rfl, htail⟩ := List.cons_prefix_cons.mp h
        obtain ⟨before, m, hbefore, hes, hm⟩ := ih htail
        exact ⟨l :: before, m, List.cons_prefix_cons.mpr ⟨rfl, hbefore⟩, by simp [emitted, hf, hes],
          hm⟩

end emitted

theorem run_related {R : S → S → Prop} (hrefl : ∀ s, R s s)
    (htrans : ∀ s t u, R s t → R t u → R s u) (hstep : ∀ s l, R s (step s l)) (s : S)
    (ls : List L) : R s (run step s ls) := by
  induction ls generalizing s with
  | nil => exact hrefl s
  | cons l ls ih => exact htrans _ _ _ (hstep s l) (ih (step s l))

section history

variable (step)

def Visits (p : S → Prop) (s : S) (ls : List L) : Prop :=
  ∃ before, before <+: ls ∧ p (run step s before)

def Takes (q : S → L → Prop) (s : S) (ls : List L) : Prop :=
  ∃ before l, before ++ [l] <+: ls ∧ q (run step s before) l

variable {step} {p : S → Prop} {q : S → L → Prop} {s : S} {ls : List L} {l : L}

theorem run_snoc : run step s (ls ++ [l]) = step (run step s ls) l := by
  rw [run_append, run_cons, run_nil]

theorem visits_nil : Visits step p s [] ↔ p s := by
  simp [Visits]

theorem takes_nil : ¬ Takes step q s [] := by
  rintro ⟨before, l, hbefore, -⟩
  simp at hbefore

theorem visits_snoc :
    Visits step p s (ls ++ [l]) ↔ Visits step p s ls ∨ p (step (run step s ls) l) := by
  constructor
  · rintro ⟨before, hbefore, hp⟩
    rcases List.prefix_concat_iff.mp hbefore with rfl | hbefore
    · rw [run_snoc] at hp
      exact .inr hp
    · exact .inl ⟨before, hbefore, hp⟩
  · rintro (⟨before, hbefore, hp⟩ | hp)
    · exact ⟨before, hbefore.trans (List.prefix_append ls [l]), hp⟩
    · exact ⟨ls ++ [l], List.prefix_rfl, run_snoc.symm ▸ hp⟩

theorem takes_snoc :
    Takes step q s (ls ++ [l]) ↔ Takes step q s ls ∨ q (run step s ls) l := by
  constructor
  · rintro ⟨before, x, hbefore, hq⟩
    rcases List.prefix_concat_iff.mp hbefore with heq | hbefore
    · obtain ⟨rfl, rfl⟩ := List.append_inj' heq rfl |>.imp_right List.singleton_inj.mp
      exact .inr hq
    · exact .inl ⟨before, x, hbefore, hq⟩
  · rintro (⟨before, x, hbefore, hq⟩ | hq)
    · exact ⟨before, x, hbefore.trans (List.prefix_append ls [l]), hq⟩
    · exact ⟨ls, l, List.prefix_rfl, hq⟩

instance instDecidableVisits [DecidablePred p] : Decidable (Visits step p s ls) :=
  decidable_of_iff (∃ before ∈ ls.inits, p (run step s before)) (by simp [Visits])

theorem unvisited_invariant {I : Prop → S → Prop} (hs : ¬ p s → I False s)
    (hstep : ∀ d t m, I d t → ¬ p (step t m) → I (d ∨ q t m) (step t m))
    (h : ¬ Visits step p s ls) : I (Takes step q s ls) (run step s ls) := by
  induction ls using List.reverseRecOn with
  | nil =>
    rw [visits_nil] at h
    rw [eq_false takes_nil]
    exact hs h
  | append_singleton ls m ih =>
    rw [visits_snoc, not_or] at h
    rw [takes_snoc, run_snoc]
    exact hstep _ _ m (ih h.1) h.2

theorem takes_invariant {I : Prop → S → Prop} (hs : I False s)
    (hstep : ∀ d t m, I d t → I (d ∨ q t m) (step t m)) :
    I (Takes step q s ls) (run step s ls) :=
  unvisited_invariant (fun _ => hs) (fun d t m h _ => hstep d t m h)
    (show ¬ Visits step (fun _ => False) s ls from fun ⟨_, _, h⟩ => h)

end history

theorem closure_invariant {R : S → S → Prop} {I : S → Prop} (hR : ∀ s t, I s → R s t → I t)
    {s t : S} (hs : I s) (h : Relation.ReflTransGen R s t) : I t := by
  induction h with
  | refl => exact hs
  | tail _ h ih => exact hR _ _ ih h

end Machine
