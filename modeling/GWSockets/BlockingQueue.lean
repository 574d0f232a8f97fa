import Mathlib.Data.List.Basic

namespace GWSockets

structure BlockingQueue (T : Type) where
  backingQueue : List T := []
deriving DecidableEq, Repr

namespace BlockingQueue

variable {T : Type}

def put (q : BlockingQueue T) (elem : T) : BlockingQueue T :=
  { q with backingQueue := q.backingQueue ++ [elem] }

def size (q : BlockingQueue T) : Nat := q.backingQueue.length

def empty (q : BlockingQueue T) : Bool := q.size == 0

def clear (q : BlockingQueue T) : List T × BlockingQueue T :=
  (q.backingQueue, { q with backingQueue := [] })

-- An iterator is its distance from begin(), the length of the queue being end().
def iterSwap (l : List T) (i j : Nat) : List T :=
  match l[i]?, l[j]? with
  | some x, some y => (l.set i y).set j x
  | _, _ => l

def swapToFrontIf (q : BlockingQueue T) (func : T → Bool) : Bool × BlockingQueue T :=
  let pos := q.backingQueue.findIdx func
  if pos ≠ 0 ∧ pos ≠ q.size then (true, { q with backingQueue := iterSwap q.backingQueue pos 0 })
  else (false, q)

def removeIf (q : BlockingQueue T) (func : T → Bool) : Bool × BlockingQueue T :=
  let pos := q.backingQueue.findIdx func
  if pos ≠ 0 ∧ pos ≠ q.size then (true, { q with backingQueue := q.backingQueue.eraseIdx pos })
  else (false, q)

-- std::remove: what is kept in front, then what stood behind the new end and, where it was kept,
-- has been moved from.
def stdRemove [BEq T] (moved : T → T) (l : List T) (elem : T) : List T × Nat :=
  let kept := l.filter (fun x => !(x == elem))
  (kept ++ (l.drop kept.length).map (fun x => if x == elem then x else moved x), kept.length)

-- none is the undefined behaviour of erasing end().
def remove [BEq T] (moved : T → T) (q : BlockingQueue T) (elem : T) : Option (BlockingQueue T) :=
  let (l, pos) := stdRemove moved q.backingQueue elem
  if pos < l.length then some { q with backingQueue := l.eraseIdx pos } else none

-- none is a call that waits for an element.
def take (q : BlockingQueue T) : Option (T × BlockingQueue T) :=
  match q.backingQueue with
  | [] => none
  | front :: rest => some (front, { q with backingQueue := rest })

@[simp] theorem put_backingQueue (q : BlockingQueue T) (elem : T) :
    (q.put elem).backingQueue = q.backingQueue ++ [elem] := rfl

@[simp] theorem clear_fst (q : BlockingQueue T) : q.clear.1 = q.backingQueue := rfl

@[simp] theorem clear_snd_backingQueue (q : BlockingQueue T) : q.clear.2.backingQueue = [] := rfl

end BlockingQueue
end GWSockets
