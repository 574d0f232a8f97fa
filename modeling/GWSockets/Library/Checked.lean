import Mathlib.Data.List.Basic

namespace Checked

variable {ε α β : Type*}

section bind

variable {x : Except ε α} {f : α → Except ε β}

theorem bind_ok {b : β} : x.bind f = .ok b ↔ ∃ a, x = .ok a ∧ f a = .ok b := by
  cases x with
  | error e => simp [Except.bind]
  | ok a => simp [Except.bind]

theorem bind_error {e : ε} :
    x.bind f = .error e ↔ x = .error e ∨ ∃ a, x = .ok a ∧ f a = .error e := by
  cases x with
  | error e => simp [Except.bind]
  | ok a => simp [Except.bind]

end bind

section map

variable {x : Except ε α} {f : α → β}

theorem map_ok {b : β} : x.map f = .ok b ↔ ∃ a, x = .ok a ∧ f a = b := by
  cases x with
  | error e => simp [Except.map]
  | ok a => simp [Except.map]

theorem map_error {e : ε} : x.map f = .error e ↔ x = .error e := by
  cases x with
  | error e => simp [Except.map]
  | ok a => simp [Except.map]

end map

theorem ite_ok {p : Prop} [Decidable p] {a b : α} {e : ε} :
    (if p then (.ok a : Except ε α) else .error e) = .ok b ↔ p ∧ a = b := by
  split <;> simp_all

def Decides (expected : ε → Prop) (p : Prop) (x : Except ε α) : Prop :=
  (p ∧ ∃ a, x = .ok a) ∨ (¬ p ∧ ∃ e, x = .error e ∧ expected e)

section decides

variable {expected : ε → Prop} {p q : Prop} {x : Except ε α}

theorem Decides.pure (a : α) : Decides expected True (.ok a : Except ε α) := .inl ⟨trivial, a, rfl⟩

theorem Decides.congr (hpq : p ↔ q) (h : Decides expected p x) : Decides expected q x := by
  rwa [Decides, ← hpq]

theorem Decides.bind {f : α → Except ε β} (h : Decides expected p x)
    (hf : ∀ a, x = .ok a → Decides expected q (f a)) : Decides expected (p ∧ q) (x.bind f) := by
  rcases h with ⟨hp, a, rfl⟩ | ⟨hp, e, rfl, he⟩
  · exact (hf a rfl).congr (by simp [hp])
  · exact .inr ⟨fun hpq => hp hpq.1, e, rfl, he⟩

theorem Decides.map {f : α → β} (h : Decides expected p x) : Decides expected p (x.map f) := by
  rcases h with ⟨hp, a, rfl⟩ | ⟨hp, e, rfl, he⟩
  · exact .inl ⟨hp, f a, rfl⟩
  · exact .inr ⟨hp, e, rfl, he⟩

theorem Decides.ok (h : Decides expected p x) (hp : p) : ∃ a, x = .ok a := by
  rcases h with ⟨-, ha⟩ | ⟨hn, -⟩
  · exact ha
  · exact absurd hp hn

theorem Decides.error (h : Decides expected p x) (hp : ¬ p) : ∃ e, x = .error e ∧ expected e := by
  rcases h with ⟨hn, -⟩ | ⟨-, he⟩
  · exact absurd hn hp
  · exact he

end decides

end Checked
