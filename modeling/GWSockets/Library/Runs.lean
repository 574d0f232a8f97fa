import Mathlib.Data.List.Basic
import Mathlib.Order.Lattice

namespace Runs

variable {α : Type*} (p : α → Prop)

def At (xs : List α) (start len : ℕ) : Prop :=
  ∀ j, start ≤ j → j < start + len → ∃ x ∈ xs[j]?, p x

structure Longest (xs : List α) (start len : ℕ) : Prop where
  run : At p xs start len
  most : ∀ a k, At p xs a k → k ≤ len
  first : 0 < len → ∀ a, At p xs a len → start ≤ a

structure Scanned (seen : List α) (longest : ℕ × ℕ) (run : ℕ) : Prop where
  bound : run ≤ seen.length
  trailing : At p seen (seen.length - run) run
  maximal : ∀ a, a ≤ seen.length → At p seen a (seen.length - a) → seen.length - run ≤ a
  best : At p seen longest.1 longest.2
  before : 0 < longest.2 → longest.1 + longest.2 ≤ seen.length - run
  covered : ∀ a k, At p seen a k → a + k ≤ seen.length - run →
    k ≤ longest.2 ∧ (k = longest.2 → 0 < k → longest.1 ≤ a)

def close (i run : ℕ) (longest : ℕ × ℕ) : ℕ × ℕ :=
  if longest.2 < run then (i - run, run) else longest

variable {p} {xs seen : List α} {x : α} {a k start len run : ℕ} {longest : ℕ × ℕ}

theorem at_zero : At p xs a 0 := by
  intro j hj hlt
  omega

theorem At.bound (h : At p xs a k) (hk : 0 < k) : a + k ≤ xs.length := by
  obtain ⟨x, hx, -⟩ := h (a + k - 1) (by omega) (by omega)
  obtain ⟨hlt, -⟩ := List.getElem?_eq_some_iff.mp hx
  omega

theorem At.mono {b l : ℕ} (h : At p xs a k) (hb : a ≤ b) (hl : b + l ≤ a + k) : At p xs b l :=
  fun j hj hlt => h j (by omega) (by omega)

theorem At.join {b l : ℕ} (h : At p xs a k) (h' : At p xs b l)
    (hmeet : b ≤ a + k) : At p xs a (b + l - a) := by
  intro j hj hlt
  rcases lt_or_ge j (a + k) with hin | hout
  · exact h j hj hin
  · exact h' j (by omega) (by omega)

theorem at_map {β : Type*} {f : α → β} {q : β → Prop} (h : ∀ x, q (f x) ↔ p x) :
    At q (xs.map f) a k ↔ At p xs a k := by
  refine forall_congr' fun j => forall_congr' fun _ => forall_congr' fun _ => ?_
  rw [List.getElem?_map]
  cases xs[j]? <;> simp [h]

theorem longest_map {β : Type*} {f : α → β} {q : β → Prop} (h : ∀ x, q (f x) ↔ p x)
    (hlong : Longest q (xs.map f) start len) : Longest p xs start len :=
  ⟨(at_map h).mp hlong.run, fun a k hat => hlong.most a k ((at_map h).mpr hat),
    fun hpos a hat => hlong.first hpos a ((at_map h).mpr hat)⟩

theorem at_concat (hk : a + k ≤ xs.length) : At p (xs ++ [x]) a k ↔ At p xs a k := by
  refine forall_congr' fun j => forall_congr' fun hj => forall_congr' fun hlt => ?_
  rw [List.getElem?_append_left (by omega)]

theorem at_concat_last (hk : a + k = xs.length + 1) (hpos : 0 < k) :
    At p (xs ++ [x]) a k ↔ At p xs a (k - 1) ∧ p x := by
  constructor
  · intro h
    refine ⟨(at_concat (by omega)).mp (h.mono le_rfl (by omega)), ?_⟩
    obtain ⟨y, hy, hp⟩ := h xs.length (by omega) (by omega)
    rw [List.getElem?_concat_length, Option.mem_some_iff] at hy
    exact hy ▸ hp
  · rintro ⟨h, hp⟩ j hj hlt
    rcases lt_or_ge j xs.length with hin | hout
    · rw [List.getElem?_append_left hin]
      exact h j hj (by omega)
    · obtain rfl : j = xs.length := by omega
      exact ⟨x, by simp, hp⟩

theorem scanned_nil (i : ℕ) : Scanned p [] (i, 0) 0 where
  bound := le_rfl
  trailing := at_zero
  maximal := fun a ha _ => Nat.zero_le a
  best := at_zero
  before := fun h => absurd h (lt_irrefl 0)
  covered := by
    intro a k h _
    have hk : k = 0 := by
      by_contra hne
      have := h.bound (Nat.pos_of_ne_zero hne)
      simp only [List.length_nil] at this
      omega
    exact ⟨hk.le, fun _ hpos => absurd hpos (by omega)⟩

theorem Scanned.hit (h : Scanned p seen longest run) (hx : p x) :
    Scanned p (seen ++ [x]) longest (run + 1) := by
  have hbound := h.bound
  have hlen : (seen ++ [x]).length - (run + 1) = seen.length - run := by
    rw [List.length_append, List.length_singleton]
    omega
  refine ⟨by simpa using hbound, ?_, ?_, ?_, ?_, ?_⟩
  · rw [hlen, at_concat_last (by omega) (by omega)]
    exact ⟨h.trailing, hx⟩
  · intro a ha hat
    rw [hlen]
    rw [List.length_append, List.length_singleton] at ha hat
    rcases Nat.lt_or_ge seen.length a with hlt | hle
    · omega
    · rw [at_concat_last (by omega) (by omega)] at hat
      exact h.maximal a hle (by
        have heq : seen.length + 1 - a - 1 = seen.length - a := by omega
        exact heq ▸ hat.1)
  · rcases Nat.eq_zero_or_pos longest.2 with hzero | hpos
    · rw [hzero]
      exact at_zero
    · exact (at_concat (h.best.bound hpos)).mpr h.best
  · rw [hlen]
    exact h.before
  · intro a k hat hle
    rw [hlen] at hle
    exact h.covered a k ((at_concat (by omega)).mp hat) hle

theorem Scanned.closed (h : Scanned p seen longest run) :
    Longest p seen (close seen.length run longest).1 (close seen.length run longest).2 := by
  have hbound := h.bound
  have hsplit : ∀ a k, At p seen a k →
      (k ≤ longest.2 ∧ (k = longest.2 → 0 < k → longest.1 ≤ a)) ∨
        (0 < k ∧ seen.length - run ≤ a ∧ a + k ≤ seen.length) := by
    intro a k hat
    rcases Nat.eq_zero_or_pos k with rfl | hpos
    · exact .inl ⟨Nat.zero_le _, fun _ h0 => absurd h0 (lt_irrefl 0)⟩
    · have hin := hat.bound hpos
      rcases le_or_gt (a + k) (seen.length - run) with hle | hgt
      · exact .inl (h.covered a k hat hle)
      · refine .inr ⟨hpos, ?_, hin⟩
        rcases le_or_gt (seen.length - run) a with hle | hlt
        · exact hle
        · have hjoin := hat.join h.trailing hgt.le
          have heq : seen.length - run + run - a = seen.length - a := by omega
          exact h.maximal a (by omega) (heq ▸ hjoin)
  rw [close]
  split_ifs with hlt
  · refine ⟨h.trailing, ?_, ?_⟩
    · intro a k hat
      rcases hsplit a k hat with ⟨hle, -⟩ | ⟨hpos, hstart, hin⟩
      · exact hle.trans hlt.le
      · dsimp only
        omega
    · intro hpos a hat
      rcases hsplit a run hat with ⟨hle, -⟩ | ⟨-, hstart, -⟩
      · omega
      · exact hstart
  · refine ⟨h.best, ?_, ?_⟩
    · intro a k hat
      rcases hsplit a k hat with ⟨hle, -⟩ | ⟨hpos, hstart, hin⟩
      · exact hle
      · omega
    · intro hpos a hat
      rcases hsplit a longest.2 hat with ⟨-, hfirst⟩ | ⟨-, hstart, -⟩
      · exact hfirst rfl hpos
      · have := h.before hpos
        omega

theorem Scanned.miss (h : Scanned p seen longest run) (hx : ¬ p x) :
    Scanned p (seen ++ [x]) (close seen.length run longest) 0 := by
  have hclosed := h.closed
  have hkept : ∀ a k, At p (seen ++ [x]) a k → k = 0 ∨ At p seen a k ∧ a + k ≤ seen.length := by
    intro a k hat
    rcases Nat.eq_zero_or_pos k with rfl | hpos
    · exact .inl rfl
    · have hin := hat.bound hpos
      rw [List.length_append, List.length_singleton] at hin
      rcases Nat.lt_or_ge seen.length (a + k) with hlt | hle
      · rw [at_concat_last (by omega) hpos] at hat
        exact absurd hat.2 hx
      · exact .inr ⟨(at_concat hle).mp hat, hle⟩
  refine ⟨Nat.zero_le _, at_zero, ?_, ?_, ?_, ?_⟩
  · intro a ha hat
    rcases hkept a _ hat with hzero | ⟨-, hin⟩
    · omega
    · rw [List.length_append, List.length_singleton] at *
      omega
  · rcases Nat.eq_zero_or_pos (close seen.length run longest).2 with hzero | hpos
    · rw [hzero]
      exact at_zero
    · exact (at_concat (hclosed.run.bound hpos)).mpr hclosed.run
  · intro hpos
    have := hclosed.run.bound hpos
    rw [List.length_append, List.length_singleton]
    omega
  · intro a k hat _
    rcases hkept a k hat with rfl | ⟨hseen, -⟩
    · exact ⟨Nat.zero_le _, fun _ h0 => absurd h0 (lt_irrefl 0)⟩
    · refine ⟨hclosed.most a k hseen, ?_⟩
      rintro rfl hpos
      exact hclosed.first hpos a hseen

end Runs
