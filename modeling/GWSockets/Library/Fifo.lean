import Mathlib.Data.List.Basic

namespace Fifo

inductive Fate (K : Type*) where
  | taken
  | dropped (cause : K)
deriving DecidableEq, Repr

structure Ledger (α K : Type*) where
  settled : List (α × Fate K)
  waiting : List α

inductive Op (α K : Type*) where
  | push (a : α)
  | take (a : α)
  | drop (cause : K) (xs : List α)

variable {α K : Type*}

def pushed : List (Op α K) → List α :=
  List.filterMap fun | .push a => some a | _ => none

def takenBy : List (Op α K) → List α :=
  List.filterMap fun | .take a => some a | _ => none

def droppedBy [DecidableEq K] (cause : K) : List (Op α K) → List α :=
  List.flatMap fun | .drop k xs => if k = cause then xs else [] | _ => []

section append

variable (xs ys : List (Op α K))

theorem pushed_append : pushed (xs ++ ys) = pushed xs ++ pushed ys := List.filterMap_append ..

theorem takenBy_append : takenBy (xs ++ ys) = takenBy xs ++ takenBy ys := List.filterMap_append ..

theorem droppedBy_append [DecidableEq K] (cause : K) :
    droppedBy cause (xs ++ ys) = droppedBy cause xs ++ droppedBy cause ys := by
  simp [droppedBy, List.flatMap_append]

end append

namespace Ledger

def opening (waiting : List α) : Ledger α K := ⟨[], waiting⟩

def offered (L : Ledger α K) : List α := L.settled.map Prod.fst ++ L.waiting

inductive Applied (L : Ledger α K) : Op α K → Ledger α K → Prop where
  | push (a : α) : Applied L (.push a) { L with waiting := L.waiting ++ [a] }
  | take (a : α) (rest : List α) (h : L.waiting = a :: rest) :
      Applied L (.take a) ⟨L.settled ++ [(a, .taken)], rest⟩
  | drop (cause : K) : Applied L (.drop cause L.waiting)
      ⟨L.settled ++ L.waiting.map (fun a => (a, .dropped cause)), []⟩

theorem applied_offered {L L' : Ledger α K} {op : Op α K} (h : L.Applied op L') :
    L'.offered = L.offered ++ pushed [op] := by
  cases h with
  | push a => simp [offered, pushed]
  | take a rest hw => simp [offered, pushed, hw]
  | drop cause => simp [offered, pushed, Function.comp_def]

section fates

variable [DecidableEq K]

def ended (fate : Fate K) (L : Ledger α K) : List α :=
  L.settled.filterMap (fun e => if e.2 = fate then some e.1 else none)

theorem applied_taken {L L' : Ledger α K} {op : Op α K} (h : L.Applied op L') :
    L'.ended .taken = L.ended .taken ++ takenBy [op] := by
  cases h with
  | push a => simp [ended, takenBy]
  | take a rest hw => simp [ended, takenBy]
  | drop cause => simp [ended, takenBy, List.filterMap_map]

theorem applied_dropped (k : K) {L L' : Ledger α K} {op : Op α K} (h : L.Applied op L') :
    L'.ended (.dropped k) = L.ended (.dropped k) ++ droppedBy k [op] := by
  cases h with
  | push a => simp [ended, droppedBy]
  | take a rest hw => simp [ended, droppedBy]
  | drop cause => by_cases hk : cause = k <;> simp [ended, droppedBy, List.filterMap_map, hk]

theorem ended_sublist (fate : Fate K) (L : Ledger α K) :
    (L.ended fate).Sublist (L.settled.map Prod.fst) := by
  rw [ended]
  induction L.settled with
  | nil => exact .slnil
  | cons e settled ih =>
    by_cases he : e.2 = fate
    · simpa [he] using ih
    · simpa [he] using ih.cons e.1

theorem taken_waiting_sublist (L : Ledger α K) :
    (L.ended .taken ++ L.waiting).Sublist L.offered :=
  (L.ended_sublist .taken).append (List.Sublist.refl _)

theorem taken_waiting_eq {L : Ledger α K} (h : ∀ k, L.ended (.dropped k) = []) :
    L.ended .taken ++ L.waiting = L.offered := by
  have hall : ∀ e ∈ L.settled, e.2 = .taken := by
    intro e he
    cases hf : e.2 with
    | taken => rfl
    | dropped k =>
      have hk := List.filterMap_eq_nil_iff.mp (h k) e he
      simp [hf] at hk
  have hmap : L.ended .taken = L.settled.map Prod.fst := by
    rw [ended, ← List.filterMap_eq_map]
    apply List.filterMap_congr
    intro e he
    simp [hall e he]
  rw [hmap, offered]

end fates

variable [DecidableEq α]

def apply (L : Ledger α K) : Op α K → Option (Ledger α K)
  | .push a => some { L with waiting := L.waiting ++ [a] }
  | .take a =>
      match L.waiting with
      | [] => none
      | b :: rest => if a = b then some ⟨L.settled ++ [(a, .taken)], rest⟩ else none
  | .drop cause xs =>
      if xs = L.waiting then some ⟨L.settled ++ xs.map (fun a => (a, .dropped cause)), []⟩
      else none

theorem apply_applied {L L' : Ledger α K} {op : Op α K} (h : L.apply op = some L') :
    L.Applied op L' := by
  cases op with
  | push a =>
    obtain rfl := Option.some.inj h
    exact .push a
  | take a =>
    cases hw : L.waiting with
    | nil => simp [apply, hw] at h
    | cons b rest =>
      by_cases hab : a = b
      · simp only [apply, hw, hab, if_true, Option.some.injEq] at h
        obtain rfl := h
        exact hab ▸ .take b rest hw
      · simp [apply, hw, hab] at h
  | drop cause xs =>
    by_cases hx : xs = L.waiting
    · simp only [apply, if_pos hx, Option.some.injEq] at h
      obtain rfl := h
      exact hx ▸ .drop cause
    · simp [apply, hx] at h

def replay (L : Ledger α K) (ops : List (Op α K)) : Option (Ledger α K) := ops.foldlM apply L

@[simp] theorem replay_nil (L : Ledger α K) : L.replay [] = some L := rfl

theorem replay_cons (L : Ledger α K) (op : Op α K) (ops : List (Op α K)) :
    L.replay (op :: ops) = (L.apply op).bind (fun L' => L'.replay ops) := rfl

theorem replay_append (L : Ledger α K) (xs ys : List (Op α K)) :
    L.replay (xs ++ ys) = (L.replay xs).bind (fun L' => L'.replay ys) := by
  simp [replay, List.foldlM_append]

theorem replay_reading {view : Ledger α K → List α} {added : List (Op α K) → List α}
    (hnil : added [] = []) (hcons : ∀ op ops, added (op :: ops) = added [op] ++ added ops)
    (hstep : ∀ L L' op, Applied L op L' → view L' = view L ++ added [op])
    {L L' : Ledger α K} {ops : List (Op α K)} (h : L.replay ops = some L') :
    view L' = view L ++ added ops := by
  induction ops generalizing L with
  | nil =>
    obtain rfl := Option.some.inj h
    rw [hnil, List.append_nil]
  | cons op ops ih =>
    rw [replay_cons, Option.bind_eq_some_iff] at h
    obtain ⟨L₁, h₁, h₂⟩ := h
    rw [ih h₂, hstep L L₁ op (apply_applied h₁), hcons op ops, List.append_assoc]

section replayed

variable {L L' : Ledger α K} {ops : List (Op α K)}

theorem replay_offered (h : L.replay ops = some L') : L'.offered = L.offered ++ pushed ops :=
  replay_reading rfl (fun op ops => pushed_append [op] ops) (fun _ _ _ hs => applied_offered hs) h

theorem replay_taken [DecidableEq K] (h : L.replay ops = some L') :
    L'.ended .taken = L.ended .taken ++ takenBy ops :=
  replay_reading rfl (fun op ops => takenBy_append [op] ops) (fun _ _ _ hs => applied_taken hs) h

theorem replay_dropped [DecidableEq K] (k : K) (h : L.replay ops = some L') :
    L'.ended (.dropped k) = L.ended (.dropped k) ++ droppedBy k ops :=
  replay_reading rfl (fun op ops => droppedBy_append [op] ops k)
    (fun _ _ _ hs => applied_dropped k hs) h

end replayed

end Ledger
end Fifo
