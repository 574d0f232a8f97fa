import Mathlib.Data.List.Basic

namespace Observed

variable {S A L O E : Type*}

def trace (step : S → L → Except E (O × S)) (view : S → A) : S → List L → List (Except E (O × A))
  | _, [] => []
  | s, l :: ls =>
      match step s l with
      | .ok (o, s') => .ok (o, view s') :: trace step view s' ls
      | .error e => [.error e]

def Regular (spec : A → L → Except E (O × A)) (ok : A → L → Prop) : A → List L → Prop
  | _, [] => True
  | a, l :: ls => ok a l ∧ ∀ o a', spec a l = .ok (o, a') → Regular spec ok a' ls

variable {step : S → L → Except E (O × S)} {spec : A → L → Except E (O × A)} {view : S → A}
  {ok : A → L → Prop}

theorem trace_eq_iff (h : ∀ s l, (step s l).map (Prod.map id view) = spec (view s) l ↔
    ok (view s) l) (s : S) (ls : List L) :
    trace step view s ls = trace spec id (view s) ls ↔ Regular spec ok (view s) ls := by
  induction ls generalizing s with
  | nil => simp [trace, Regular]
  | cons l ls ih =>
    rw [trace, trace, Regular, ← h]
    cases hstep : step s l with
    | error e =>
      cases hspec : spec (view s) l with
      | error e' => simp [Except.map]
      | ok b => simp [Except.map]
    | ok b =>
      obtain ⟨o, s'⟩ := b
      cases hspec : spec (view s) l with
      | error e' => simp [Except.map]
      | ok b' =>
        obtain ⟨o', a'⟩ := b'
        simp only [Except.map, Prod.map, id_eq, List.cons.injEq, Except.ok.injEq, Prod.mk.injEq,
          and_imp]
        constructor
        · rintro ⟨⟨rfl, rfl⟩, htail⟩
          refine ⟨⟨rfl, rfl⟩, ?_⟩
          rintro _ _ rfl rfl
          exact (ih s').mp htail
        · rintro ⟨⟨rfl, rfl⟩, hrest⟩
          exact ⟨⟨rfl, rfl⟩, (ih s').mpr (hrest _ _ rfl rfl)⟩

section total

variable {S' : Type*} {next : S → L → O × S} {next' : S' → L → O × S'} {R : S → S' → Prop}

end total

end Observed
