import GWSockets.BlockingQueue
import GWSockets.Library.Delimited
import GWSockets.Library.Observed
import Mathlib.Data.List.TakeWhile

namespace GWSockets

inductive QueueCall (T : Type) where
  | put (elem : T)
  | take
  | removeIf (func : T → Bool)
  | remove (elem : T)
  | swapToFrontIf (func : T → Bool)
  | clear
  | size
  | empty

inductive QueueAnswer (T : Type) where
  | done
  | elem (x : T)
  | elems (l : List T)
  | bool (b : Bool)
  | number (n : Nat)
deriving DecidableEq, Repr

inductive QueueHalt where
  | waits
  | undefined
deriving DecidableEq, Repr

namespace BlockingQueue

variable {T : Type}

def call [BEq T] (moved : T → T) (q : BlockingQueue T) :
    QueueCall T → Except QueueHalt (QueueAnswer T × BlockingQueue T)
  | .put elem => .ok (.done, q.put elem)
  | .take =>
      match q.take with
      | some (front, q) => .ok (.elem front, q)
      | none => .error .waits
  | .removeIf func => .ok (.bool (q.removeIf func).1, (q.removeIf func).2)
  | .remove elem =>
      match q.remove moved elem with
      | some q => .ok (.done, q)
      | none => .error .undefined
  | .swapToFrontIf func => .ok (.done, (q.swapToFrontIf func).2)
  | .clear => .ok (.elems q.clear.1, q.clear.2)
  | .size => .ok (.number q.size, q)
  | .empty => .ok (.bool q.empty, q)

end BlockingQueue

namespace ListQueue

variable {T : Type}

def toFront (p : T → Bool) : List T → List T
  | [] => []
  | head :: rest =>
      if p head then head :: rest
      else
        match rest.dropWhile (fun x => !p x) with
        | x :: after => x :: (rest.takeWhile (fun x => !p x) ++ head :: after)
        | [] => head :: rest

def call [BEq T] (l : List T) : QueueCall T → Except QueueHalt (QueueAnswer T × List T)
  | .put elem => .ok (.done, l ++ [elem])
  | .take =>
      match l with
      | [] => .error .waits
      | front :: rest => .ok (.elem front, rest)
  | .removeIf func => .ok (.bool (l.any func), l.eraseP func)
  | .remove elem => .ok (.done, l.filter (fun x => !(x == elem)))
  | .swapToFrontIf func => .ok (.done, toFront func l)
  | .clear => .ok (.elems l, [])
  | .size => .ok (.number l.length, l)
  | .empty => .ok (.bool l.isEmpty, l)

def behaviour [BEq T] (l : List T) (calls : List (QueueCall T)) :
    List (Except QueueHalt (QueueAnswer T × List T)) :=
  Observed.trace call id l calls

def Lawful [BEq T] (l : List T) : QueueCall T → Prop
  | .removeIf func => ∀ x ∈ l.head?, func x = false
  | .remove elem => l.countP (· == elem) = 1
  | _ => True

end ListQueue

section search

variable {T : Type} {func : T → Bool}

inductive Search (func : T → Bool) : List T → Prop where
  | missing (l : List T) (h : ∀ x ∈ l, func x = false) : Search func l
  | found (before : List T) (x : T) (after : List T) (hbefore : ∀ y ∈ before, func y = false)
      (hx : func x = true) : Search func (before ++ x :: after)

theorem search_cases (func : T → Bool) (l : List T) : Search func l := by
  induction l with
  | nil => exact .missing [] (by simp)
  | cons y l ih =>
    cases hy : func y with
    | true => exact .found [] y l (by simp) hy
    | false =>
      cases ih with
      | missing _ h => exact .missing (y :: l) (List.forall_mem_cons.mpr ⟨hy, h⟩)
      | found before x after hbefore hx =>
        exact .found (y :: before) x after (List.forall_mem_cons.mpr ⟨hy, hbefore⟩) hx

variable {l before after : List T} {x : T}

theorem findIdx_found (hbefore : ∀ y ∈ before, func y = false) (hx : func x = true) :
    (before ++ x :: after).findIdx func = before.length := by
  rw [List.findIdx_append, List.findIdx_eq_length_of_false hbefore, if_neg (Nat.lt_irrefl _),
    List.findIdx_cons, hx, cond_true, Nat.zero_add]

theorem findIdx_inside {head : T} (hbefore : ∀ y ∈ head :: before, func y = false)
    (hx : func x = true) : (head :: before ++ x :: after).findIdx func ≠ 0 ∧
      (head :: before ++ x :: after).findIdx func ≠ (head :: before ++ x :: after).length := by
  rw [findIdx_found hbefore hx]
  exact ⟨Nat.succ_ne_zero _, by simp⟩

theorem any_found (hx : func x = true) : (before ++ x :: after).any func = true :=
  List.any_eq_true.mpr ⟨x, by simp, hx⟩

theorem any_missing (h : ∀ x ∈ l, func x = false) : l.any func = false := by
  simpa using h

theorem eraseP_found (hbefore : ∀ y ∈ before, func y = false) (hx : func x = true) :
    (before ++ x :: after).eraseP func = before ++ after := by
  rw [List.eraseP_append_right _ (fun y hy => by simp [hbefore y hy]), List.eraseP_cons_of_pos hx]

theorem toFront_missing (h : ∀ x ∈ l, func x = false) : ListQueue.toFront func l = l := by
  cases l with
  | nil => rfl
  | cons head rest =>
    obtain ⟨hhead, hrest⟩ := List.forall_mem_cons.mp h
    have hnone : rest.dropWhile (fun x => !func x) = [] :=
      List.dropWhile_eq_nil_iff.mpr (by simpa using hrest)
    simp [ListQueue.toFront, hhead, hnone]

theorem toFront_found {head : T} (hhead : func head = false)
    (hbefore : ∀ y ∈ before, func y = false) (hx : func x = true) :
    ListQueue.toFront func (head :: (before ++ x :: after)) = x :: (before ++ head :: after) := by
  have hall : ∀ y ∈ before, (!func y) = true := fun y hy => by simp [hbefore y hy]
  have hstop : ∀ y ∈ (x :: after).head?, (!func y) = false := by simp [hx]
  simp only [ListQueue.toFront, hhead, Delimited.dropWhile_right hall hstop,
    Delimited.takeWhile_left hall hstop]
  rfl

theorem iterSwap_front (head x : T) (before after : List T) :
    BlockingQueue.iterSwap (head :: (before ++ x :: after)) (before.length + 1) 0 =
      x :: (before ++ head :: after) := by
  simp [BlockingQueue.iterSwap]

end search

namespace BlockingQueue

variable {T : Type} {q : BlockingQueue T} {func : T → Bool}

open ListQueue

theorem removeIf_eq (h : ∀ x ∈ q.backingQueue.head?, func x = false) :
    q.removeIf func = (q.backingQueue.any func, ⟨q.backingQueue.eraseP func⟩) := by
  obtain ⟨l⟩ := q
  cases search_cases func l with
  | missing l hl =>
    simp [removeIf, size, List.findIdx_eq_length_of_false hl, any_missing hl,
      List.eraseP_of_forall_not (by simpa using hl)]
  | found before x after hbefore hx =>
    cases before with
    | nil =>
      rw [h x rfl] at hx
      cases hx
    | cons head before =>
      have herase : (head :: before ++ x :: after).eraseIdx (head :: before).length =
          head :: before ++ after := by
        rw [List.eraseIdx_append_of_length_le (Nat.le_refl _), Nat.sub_self]
        rfl
      rw [any_found hx, eraseP_found hbefore hx, removeIf, size,
        if_pos (findIdx_inside hbefore hx), findIdx_found hbefore hx, herase]

theorem removeIf_front (h : ¬ ∀ x ∈ q.backingQueue.head?, func x = false) :
    (q.removeIf func).1 = false ∧ q.backingQueue.any func = true := by
  obtain ⟨l⟩ := q
  cases l with
  | nil => simp at h
  | cons head rest =>
    have hhead : func head = true := by simpa using h
    simp [removeIf, hhead, List.findIdx_cons]

theorem swapToFrontIf_eq : (q.swapToFrontIf func).2.backingQueue = toFront func q.backingQueue := by
  obtain ⟨l⟩ := q
  cases search_cases func l with
  | missing l hl =>
    simp [swapToFrontIf, size, List.findIdx_eq_length_of_false hl, toFront_missing hl]
  | found before x after hbefore hx =>
    cases before with
    | nil => simp [swapToFrontIf, size, List.findIdx_cons, hx, toFront]
    | cons head before =>
      obtain ⟨hhead, hrest⟩ := List.forall_mem_cons.mp hbefore
      rw [swapToFrontIf, size, if_pos (findIdx_inside hbefore hx), findIdx_found hbefore hx,
        List.cons_append, toFront_found hhead hrest hx]
      exact iterSwap_front head x before after

section remove

variable [BEq T] {moved : T → T} {elem : T}

theorem stdRemove_eq (l : List T) : ∃ tail,
    stdRemove moved l elem = (l.filter (fun x => !(x == elem)) ++ tail,
      (l.filter (fun x => !(x == elem))).length) ∧
    tail.length = l.countP (· == elem) := by
  have hnot : (fun x : T => decide ¬(x == elem) = true) = (fun x => !(x == elem)) := by
    funext x
    simp
  have hcount := List.length_eq_countP_add_countP (· == elem) (l := l)
  rw [hnot] at hcount
  refine ⟨_, rfl, ?_⟩
  rw [List.length_map, List.length_drop, ← List.countP_eq_length_filter]
  omega

theorem remove_eq_some_iff : q.remove moved elem =
    some ⟨q.backingQueue.filter (fun x => !(x == elem))⟩ ↔
      q.backingQueue.countP (· == elem) = 1 := by
  obtain ⟨tail, hremove, hlength⟩ := @stdRemove_eq _ _ moved elem q.backingQueue
  rw [remove, hremove, ← hlength]
  cases tail with
  | nil => simp
  | cons x tail =>
    simp [List.eraseIdx_append_of_length_le]

end remove

theorem call_eq_iff [BEq T] (moved : T → T) (q : BlockingQueue T) (c : QueueCall T) :
    (q.call moved c).map (Prod.map id backingQueue) = ListQueue.call q.backingQueue c ↔
      Lawful q.backingQueue c := by
  cases c with
  | put elem => simp [call, ListQueue.call, Lawful, Except.map]
  | take =>
    obtain ⟨l⟩ := q
    cases l <;> simp [call, ListQueue.call, Lawful, take, Except.map]
  | removeIf func =>
    constructor
    · intro h
      by_contra hlawful
      obtain ⟨hcode, hlist⟩ := removeIf_front hlawful
      simp [call, ListQueue.call, Except.map, hcode, hlist] at h
    · intro hlawful
      simp [call, ListQueue.call, Except.map, removeIf_eq hlawful]
  | remove elem =>
    rw [Lawful, ← @remove_eq_some_iff _ q _ moved elem]
    cases hremove : q.remove moved elem with
    | none => simp [call, ListQueue.call, Except.map, hremove]
    | some q' =>
      obtain ⟨l⟩ := q'
      simp [call, ListQueue.call, Except.map, hremove]
  | swapToFrontIf func => simp [call, ListQueue.call, Lawful, Except.map, swapToFrontIf_eq]
  | clear => simp [call, ListQueue.call, Lawful, Except.map]
  | size => simp [call, ListQueue.call, Lawful, Except.map, size]
  | empty =>
    obtain ⟨l⟩ := q
    cases l <;> simp [call, ListQueue.call, Lawful, Except.map, empty, size]

def behaviour [BEq T] (moved : T → T) (q : BlockingQueue T) (calls : List (QueueCall T)) :
    List (Except QueueHalt (QueueAnswer T × List T)) :=
  Observed.trace (call moved) backingQueue q calls

theorem behaves_like_list_iff [BEq T] (moved : T → T) (q : BlockingQueue T)
    (calls : List (QueueCall T)) :
    q.behaviour moved calls = ListQueue.behaviour q.backingQueue calls ↔
      Observed.Regular ListQueue.call Lawful q.backingQueue calls :=
  Observed.trace_eq_iff (call_eq_iff moved) q calls

theorem behaves_unlike_list : ¬ (∀ calls : List (QueueCall Nat),
    (⟨[]⟩ : BlockingQueue Nat).behaviour id calls = ListQueue.behaviour [] calls) ∧
      (⟨[]⟩ : BlockingQueue Nat).behaviour id [.put 1, .removeIf (· == 1), .size] =
        [.ok (.done, [1]), .ok (.bool false, [1]), .ok (.number 1, [1])] ∧
      (⟨[]⟩ : BlockingQueue Nat).behaviour id [.put 1, .put 1, .put 2, .remove 1, .remove 3] =
        [.ok (.done, [1]), .ok (.done, [1, 1]), .ok (.done, [1, 1, 2]), .ok (.done, [2, 2]),
          .error .undefined] := by
  refine ⟨fun h => ?_, rfl, rfl⟩
  have hfront := h [.put 1, .removeIf (· == 1)]
  revert hfront
  simp [behaviour, ListQueue.behaviour, Observed.trace, call, ListQueue.call, put, removeIf, size]

end BlockingQueue

end GWSockets
