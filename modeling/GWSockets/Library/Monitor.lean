import GWSockets.Library.Machine
import Mathlib.Logic.Function.Basic
import Mathlib.Tactic.Simps.Basic

namespace Monitor

-- What a thread does next with the data of the recursive mutex it holds.
inductive Effect (ℓ σ ρ : Type*) where
  | go (l : ℓ) (s : σ)
  | lock (l : ℓ)
  | unlock (l : ℓ)
  | notifyAll (l : ℓ)
  | wait (l : ℓ)
  | done (r : ρ)
  | fault

def Effect.next {ℓ σ ρ : Type*} (s : σ) : Effect ℓ σ ρ → Option (ℓ × σ)
  | .go l s' => some (l, s')
  | .lock l | .unlock l | .notifyAll l => some (l, s)
  | .wait _ | .done _ | .fault => none

structure Program (C ℓ σ ρ : Type*) where
  start : C → ℓ
  step : ℓ → σ → Effect ℓ σ ρ

inductive Place (C ℓ : Type*) where
  | idle
  | entering (c : C) (l : ℓ)
  | inside (c : C) (l : ℓ)
  | asleep (c : C) (l : ℓ)
deriving DecidableEq

def Place.awake {C ℓ : Type*} : Place C ℓ → Place C ℓ
  | .asleep c l => .entering c l
  | p => p

structure State (T C ℓ σ ρ : Type*) where
  data : σ
  owner : Option T := none
  depth : Nat := 0
  place : T → Place C ℓ := fun _ => .idle
  returned : List (T × C × ρ) := []
  faulted : Bool := false

-- wake is a wakeup that no thread asked for.
inductive Move (T C : Type*) where
  | call (t : T) (c : C)
  | run (t : T)
  | wake (t : T)

variable {T C ℓ σ ρ : Type*}

namespace State

@[simps]
def acquire (m : State T C ℓ σ ρ) (t : T) : State T C ℓ σ ρ :=
  { m with owner := some t, depth := m.depth + 1 }

@[simps]
def release (m : State T C ℓ σ ρ) : State T C ℓ σ ρ :=
  { m with owner := if m.depth ≤ 1 then none else m.owner, depth := m.depth - 1 }

@[simps]
def notifyAll (m : State T C ℓ σ ρ) : State T C ℓ σ ρ :=
  { m with place := fun u => (m.place u).awake }

@[simps]
def write (m : State T C ℓ σ ρ) (s : σ) : State T C ℓ σ ρ := { m with data := s }

@[simps]
def note (m : State T C ℓ σ ρ) (t : T) (c : C) (r : ρ) : State T C ℓ σ ρ :=
  { m with returned := m.returned ++ [(t, c, r)] }

def Enabled (m : State T C ℓ σ ρ) (t : T) : Prop :=
  (∃ c l, m.place t = .inside c l) ∨
    (∃ c l, m.place t = .entering c l) ∧ (m.owner = none ∨ m.owner = some t)

end State

def Effect.Keeps (nest : ℓ → Nat) (n : Nat) : Effect ℓ σ ρ → Prop
  | .go l _ | .notifyAll l => nest l = n
  | .lock l => nest l = n + 1
  | .unlock l => nest l + 1 = n ∧ 1 ≤ nest l
  | .wait l => n = 1 ∧ nest l = 1
  | .done _ => n = 1
  | .fault => True

structure Nested (P : Program C ℓ σ ρ) (nest : ℓ → Nat) : Prop where
  start : ∀ c, nest (P.start c) = 1
  step : ∀ l s, (P.step l s).Keeps nest (nest l)

structure Held (nest : ℓ → Nat) (m : State T C ℓ σ ρ) : Prop where
  owner : ∀ t, m.owner = some t ↔ ∃ c l, m.place t = .inside c l
  depth : ∀ t c l, m.place t = .inside c l → m.depth = nest l ∧ 1 ≤ nest l
  free : m.owner = none → m.depth = 0
  outside : ∀ t c l, m.place t = .entering c l ∨ m.place t = .asleep c l → nest l = 1

namespace Held

variable {nest : ℓ → Nat} {m m' : State T C ℓ σ ρ} {t u : T} {c d : C} {l k : ℓ}

theorem init (s : σ) : Held nest ({ data := s } : State T C ℓ σ ρ) :=
  ⟨by simp, by simp, fun _ => rfl, by simp⟩

theorem inside_owner (h : Held nest m) (ht : m.place t = .inside c l) : m.owner = some t :=
  (h.owner t).mpr ⟨c, l, ht⟩

theorem exclusive (h : Held nest m) (ht : m.place t = .inside c l) (hu : m.place u = .inside d k) :
    u = t :=
  Option.some.inj ((h.inside_owner hu).symm.trans (h.inside_owner ht))

theorem awake (h : Held nest m) : Held nest m.notifyAll := by
  have hinside : ∀ {x d j}, (m.place x).awake = .inside d j ↔ m.place x = .inside d j := by
    intro x d j
    cases hx : m.place x <;> simp [Place.awake]
  refine ⟨fun x => ?_, fun x d j hx => h.depth x d j (hinside.mp hx), h.free, fun x d j hx => ?_⟩
  · simpa only [State.notifyAll_place, State.notifyAll_owner, hinside] using h.owner x
  · refine h.outside x d j ?_
    cases hp : m.place x <;> simp_all [Place.awake]

end Held

section serial

variable (P : Program C ℓ σ ρ)

def Inner (p p' : ℓ × σ) : Prop := (P.step p.1 p.2).next p.2 = some p'

abbrev Inners : ℓ × σ → ℓ × σ → Prop := Relation.ReflTransGen (Inner P)

inductive Entry : C → ℓ → Prop where
  | start (c : C) : Entry c (P.start c)
  | resumed {c : C} {l₀ l l' : ℓ} {s₀ s : σ} (h : Entry c l₀) (hi : Inners P (l₀, s₀) (l, s))
      (hw : P.step l s = .wait l') : Entry c l'

inductive Serial (s₀ : σ) : List (T × C × ρ) → σ → Prop where
  | nil : Serial s₀ [] s₀
  | waited {calls : List (T × C × ρ)} {c : C} {l₀ l l' : ℓ} {s s' : σ}
      (h : Serial s₀ calls s) (he : Entry P c l₀) (hi : Inners P (l₀, s) (l, s'))
      (hw : P.step l s' = .wait l') : Serial s₀ calls s'
  | returned {calls : List (T × C × ρ)} {t : T} {c : C} {l₀ l : ℓ} {s s' : σ} {r : ρ}
      (h : Serial s₀ calls s) (he : Entry P c l₀) (hi : Inners P (l₀, s) (l, s'))
      (hd : P.step l s' = .done r) : Serial s₀ (calls ++ [(t, c, r)]) s'

structure Serialized (s₀ : σ) (m : State T C ℓ σ ρ) : Prop where
  entry : ∀ t c l, m.place t = .entering c l ∨ m.place t = .asleep c l → Entry P c l
  free : m.owner = none → Serial P s₀ m.returned m.data
  held : ∀ t c l, m.place t = .inside c l → ∃ l₀ s, Entry P c l₀ ∧ Serial P s₀ m.returned s ∧
    Inners P (l₀, s) (l, m.data)

variable {P}

theorem Inner.of {l l' : ℓ} {s s' : σ} {e : Effect ℓ σ ρ} (h : P.step l s = e)
    (he : e.next s = some (l', s')) : Inner P (l, s) (l', s') := by
  rwa [Inner, h]

theorem Serialized.init (s₀ : σ) : Serialized P s₀ ({ data := s₀ } : State T C ℓ σ ρ) :=
  ⟨by simp, fun _ => .nil, by simp⟩

end serial

structure Outline (P : Program C ℓ σ ρ) (holds : C → σ → ℓ → σ → Prop) : Prop where
  start : ∀ c s, holds c s (P.start c) s
  inner : ∀ c s₀ l s l' s', holds c s₀ l s → Inner P (l, s) (l', s') → holds c s₀ l' s'
  wait : ∀ c s₀ l s l', holds c s₀ l s → P.step l s = .wait l' → ∀ s', holds c s' l' s'

namespace Outline

variable {P : Program C ℓ σ ρ} {holds : C → σ → ℓ → σ → Prop} {c : C} {l₀ l : ℓ} {s₀ s : σ}

theorem inners (h : Outline P holds) (h₀ : holds c s₀ l₀ s₀) (hi : Inners P (l₀, s₀) (l, s)) :
    holds c s₀ l s :=
  Machine.closure_invariant (I := fun p : ℓ × σ => holds c s₀ p.1 p.2)
    (fun p q hp hq => h.inner c s₀ p.1 p.2 q.1 q.2 hp hq) h₀ hi

theorem entry (h : Outline P holds) (he : Entry P c l₀) (s : σ) : holds c s l₀ s := by
  induction he generalizing s with
  | start => exact h.start _ s
  | resumed he hi hw ih => exact h.wait _ _ _ _ _ (h.inners (ih _) hi) hw s

theorem held (h : Outline P holds) {m : State T C ℓ σ ρ} (hm : Serialized P s₀ m) {t : T}
    (ht : m.place t = .inside c l) : ∃ s, Serial P s₀ m.returned s ∧ holds c s l m.data := by
  obtain ⟨l₀, s, he, hs, hi⟩ := hm.held t c l ht
  exact ⟨s, hs, h.inners (h.entry he s) hi⟩

theorem serial (h : Outline P holds) {I : List (T × C × ρ) → σ → Prop} (hnil : I [] s₀)
    (hwait : ∀ calls c s l s' l', I calls s → holds c s l s' → P.step l s' = .wait l' → I calls s')
    (hdone : ∀ calls t c s l s' r, I calls s → holds c s l s' → P.step l s' = .done r →
      I (calls ++ [(t, c, r)]) s') {calls : List (T × C × ρ)} (hs : Serial P s₀ calls s) :
    I calls s := by
  induction hs with
  | nil => exact hnil
  | waited hs he hi hw ih => exact hwait _ _ _ _ _ _ ih (h.inners (h.entry he _) hi) hw
  | returned hs he hi hd ih => exact hdone _ _ _ _ _ _ _ ih (h.inners (h.entry he _) hi) hd

end Outline

section waiting

structure Wakeful (P : Program C ℓ σ ρ) (holds : C → σ → ℓ → σ → Prop) (blocked : ℓ → σ → Prop)
    (owing : ℓ → Prop) : Prop where
  wait : ∀ c s₀ l s l', holds c s₀ l s → P.step l s = .wait l' → blocked l' s ∧ ¬ owing l
  go : ∀ c s₀ l s l' s', holds c s₀ l s → P.step l s = .go l' s' →
    (owing l → owing l') ∧ ∀ k, blocked k s → blocked k s' ∨ owing l'
  lock : ∀ l s l', P.step l s = .lock l' ∨ P.step l s = .unlock l' → owing l → owing l'
  done : ∀ l s r, P.step l s = .done r → ¬ owing l

def Woken (blocked : ℓ → σ → Prop) (owing : ℓ → Prop) (m : State T C ℓ σ ρ) : Prop :=
  ∀ t c l, m.place t = .asleep c l →
    blocked l m.data ∨ ∃ u d k, m.place u = .inside d k ∧ owing k

theorem Woken.init (blocked : ℓ → σ → Prop) (owing : ℓ → Prop) (s : σ) :
    Woken blocked owing ({ data := s } : State T C ℓ σ ρ) := by
  simp [Woken]

theorem Woken.blocked {nest : ℓ → Nat} {blocked : ℓ → σ → Prop} {owing : ℓ → Prop}
    {m : State T C ℓ σ ρ} (h : Woken blocked owing m) (hm : Held nest m) (ho : m.owner = none)
    {t : T} {c : C} {l : ℓ} (ht : m.place t = .asleep c l) : blocked l m.data := by
  refine (h t c l ht).resolve_right ?_
  rintro ⟨u, d, k, hu, -⟩
  simp [hm.inside_owner hu] at ho

theorem Woken.progress {nest : ℓ → Nat} {blocked : ℓ → σ → Prop} {owing : ℓ → Prop}
    {m : State T C ℓ σ ρ} (h : Woken blocked owing m) (hm : Held nest m) :
    (∃ t, m.Enabled t) ∨
      ∀ t, m.place t = .idle ∨ ∃ c l, m.place t = .asleep c l ∧ blocked l m.data := by
  by_cases hn : ∃ t, m.Enabled t
  · exact .inl hn
  · right
    intro t
    have hfree : m.owner = none := by
      by_contra ho
      obtain ⟨u, hu⟩ := Option.ne_none_iff_exists'.mp ho
      exact hn ⟨u, .inl ((hm.owner u).mp hu)⟩
    cases ht : m.place t with
    | idle => exact .inl rfl
    | entering c l => exact absurd ⟨t, .inr ⟨⟨c, l, ht⟩, .inl hfree⟩⟩ hn
    | inside c l => exact absurd ⟨t, .inl ⟨c, l, ht⟩⟩ hn
    | asleep c l => exact .inr ⟨c, l, rfl, h.blocked hm hfree ht⟩

end waiting

variable [DecidableEq T]

namespace State

@[simps data owner depth returned faulted]
def put (m : State T C ℓ σ ρ) (t : T) (p : Place C ℓ) : State T C ℓ σ ρ :=
  { m with place := Function.update m.place t p }

@[simp] theorem put_place_self (m : State T C ℓ σ ρ) (t : T) (p : Place C ℓ) :
    (m.put t p).place t = p := Function.update_self ..

theorem put_place_ne {m : State T C ℓ σ ρ} {t u : T} {p : Place C ℓ} (h : u ≠ t) :
    (m.put t p).place u = m.place u := Function.update_of_ne h ..

theorem put_self (m : State T C ℓ σ ρ) (t : T) : m.put t (m.place t) = m := by
  simp [put]

def advance (P : Program C ℓ σ ρ) (m : State T C ℓ σ ρ) (t : T) (c : C) (l : ℓ) :
    State T C ℓ σ ρ :=
  match P.step l m.data with
  | .go l' s => (m.write s).put t (.inside c l')
  | .lock l' => (m.acquire t).put t (.inside c l')
  | .unlock l' => m.release.put t (.inside c l')
  | .notifyAll l' => m.notifyAll.put t (.inside c l')
  | .wait l' => m.release.put t (.asleep c l')
  | .done r => (m.release.note t c r).put t .idle
  | .fault => { m with faulted := true }

def step (P : Program C ℓ σ ρ) (m : State T C ℓ σ ρ) (move : Move T C) : State T C ℓ σ ρ :=
  if m.faulted then m else
  match move with
  | .call t c =>
    match m.place t with
    | .idle => m.put t (.entering c (P.start c))
    | _ => m
  | .run t =>
    match m.place t with
    | .entering c l =>
      if m.owner = none ∨ m.owner = some t then (m.acquire t).put t (.inside c l) else m
    | .inside c l => m.advance P t c l
    | _ => m
  | .wake t => m.put t (m.place t).awake

abbrev run (P : Program C ℓ σ ρ) (m : State T C ℓ σ ρ) (moves : List (Move T C)) :
    State T C ℓ σ ρ := Machine.run (step P) m moves

inductive Stepped (P : Program C ℓ σ ρ) (m : State T C ℓ σ ρ) :
    Move T C → State T C ℓ σ ρ → Prop where
  | idle (move : Move T C) : Stepped P m move m
  | called (t : T) (c : C) (h : m.place t = .idle) :
      Stepped P m (.call t c) (m.put t (.entering c (P.start c)))
  | acquired (t : T) (c : C) (l : ℓ) (h : m.place t = .entering c l)
      (ho : m.owner = none ∨ m.owner = some t) :
      Stepped P m (.run t) ((m.acquire t).put t (.inside c l))
  | went (t : T) (c : C) (l l' : ℓ) (s : σ) (h : m.place t = .inside c l)
      (hs : P.step l m.data = .go l' s) :
      Stepped P m (.run t) ((m.write s).put t (.inside c l'))
  | locked (t : T) (c : C) (l l' : ℓ) (h : m.place t = .inside c l)
      (hs : P.step l m.data = .lock l') :
      Stepped P m (.run t) ((m.acquire t).put t (.inside c l'))
  | unlocked (t : T) (c : C) (l l' : ℓ) (h : m.place t = .inside c l)
      (hs : P.step l m.data = .unlock l') :
      Stepped P m (.run t) (m.release.put t (.inside c l'))
  | notified (t : T) (c : C) (l l' : ℓ) (h : m.place t = .inside c l)
      (hs : P.step l m.data = .notifyAll l') :
      Stepped P m (.run t) (m.notifyAll.put t (.inside c l'))
  | waited (t : T) (c : C) (l l' : ℓ) (h : m.place t = .inside c l)
      (hs : P.step l m.data = .wait l') :
      Stepped P m (.run t) (m.release.put t (.asleep c l'))
  | returned (t : T) (c : C) (l : ℓ) (r : ρ) (h : m.place t = .inside c l)
      (hs : P.step l m.data = .done r) :
      Stepped P m (.run t) ((m.release.note t c r).put t .idle)
  | faulted (t : T) (c : C) (l : ℓ) (h : m.place t = .inside c l)
      (hs : P.step l m.data = .fault) : Stepped P m (.run t) { m with faulted := true }
  | woken (t : T) (c : C) (l : ℓ) (h : m.place t = .asleep c l) :
      Stepped P m (.wake t) (m.put t (.entering c l))

theorem advance_stepped (P : Program C ℓ σ ρ) {m : State T C ℓ σ ρ} {t : T} {c : C} {l : ℓ}
    (h : m.place t = .inside c l) : Stepped P m (.run t) (m.advance P t c l) := by
  unfold advance
  cases hs : P.step l m.data with
  | go l' s => exact .went t c l l' s h hs
  | lock l' => exact .locked t c l l' h hs
  | unlock l' => exact .unlocked t c l l' h hs
  | notifyAll l' => exact .notified t c l l' h hs
  | wait l' => exact .waited t c l l' h hs
  | done r => exact .returned t c l r h hs
  | fault => exact .faulted t c l h hs

theorem step_stepped (P : Program C ℓ σ ρ) (m : State T C ℓ σ ρ) (move : Move T C) :
    Stepped P m move (m.step P move) := by
  unfold step
  split
  · exact .idle move
  cases move with
  | call t c =>
    cases h : m.place t with
    | idle => simpa [h] using Stepped.called t c h
    | _ => simpa [h] using Stepped.idle _
  | run t =>
    cases h : m.place t with
    | entering c l =>
      simp only [h]
      split
      · next ho => exact .acquired t c l h ho
      · exact .idle _
    | inside c l => simpa [h] using advance_stepped P h
    | _ => simpa [h] using Stepped.idle _
  | wake t =>
    cases h : m.place t with
    | asleep c l => simpa [h, Place.awake] using Stepped.woken t c l h
    | _ =>
      have hawake : (m.place t).awake = m.place t := by
        rw [h]
        rfl
      simp only [hawake, put_self]
      exact .idle _

theorem step_progress (P : Program C ℓ σ ρ) {m : State T C ℓ σ ρ} (hf : m.faulted = false)
    {t : T} {c : C} {l : ℓ} (h : m.place t = .inside c l) :
    m.step P (.run t) = m.advance P t c l := by
  simp [step, hf, h]

theorem step_put (P : Program C ℓ σ ρ) {m : State T C ℓ σ ρ} (hf : m.faulted = false) (t : T)
    (c : C) (l : ℓ) :
    (m.put t (.inside c l)).step P (.run t) = (m.put t (.inside c l)).advance P t c l :=
  step_progress (m := m.put t (.inside c l)) P hf (put_place_self m t _)

end State

namespace Held

variable {nest : ℓ → Nat} {P : Program C ℓ σ ρ} {m m' : State T C ℓ σ ρ} {t : T} {c : C}
  {l k : ℓ}

theorem stay (h : Held nest m) (ht : m.place t = .inside c l) (ho : m'.owner = some t)
    (hd : m'.depth = nest k) (hk : 1 ≤ nest k) (hp : m'.place = m.place) :
    Held nest (m'.put t (.inside c k)) := by
  have hother : ∀ {x}, x ≠ t → (m'.put t (.inside c k)).place x = m.place x := fun hx => by
    rw [State.put_place_ne hx, hp]
  refine ⟨fun x => ?_, fun x d j hx => ?_, fun hn => by simp [ho] at hn, fun x d j hx => ?_⟩
  · by_cases hxt : x = t
    · subst hxt
      simp [ho]
    · rw [hother hxt, ← h.owner x, h.inside_owner ht, State.put_owner, ho]
  · by_cases hxt : x = t
    · subst hxt
      rw [State.put_place_self] at hx
      obtain ⟨rfl, rfl⟩ := Place.inside.inj hx
      exact ⟨hd, hk⟩
    · exact absurd (h.exclusive ht (hother hxt ▸ hx)) hxt
  · by_cases hxt : x = t
    · subst hxt
      simp at hx
    · exact h.outside x d j (hother hxt ▸ hx)

theorem leave (h : Held nest m) {p : Place C ℓ} (hin : ∀ d j, p ≠ .inside d j)
    (hout : ∀ d j, p = .entering d j ∨ p = .asleep d j → nest j = 1) (hp : m'.place = m.place)
    (ho : m'.owner = m.owner ∧ m'.depth = m.depth ∧ (∀ d j, m.place t ≠ .inside d j) ∨
      m'.owner = none ∧ m'.depth = 0 ∧ m.owner = some t) : Held nest (m'.put t p) := by
  have hother : ∀ {x}, x ≠ t → (m'.put t p).place x = m.place x := fun hx => by
    rw [State.put_place_ne hx, hp]
  refine ⟨fun x => ?_, fun x d j hx => ?_, fun hn => ?_, fun x d j hx => ?_⟩
  · by_cases hxt : x = t
    · subst hxt
      have hno : ¬ m'.owner = some x := by
        rcases ho with ⟨ho, -, hn⟩ | ⟨ho, -⟩
        · rw [ho, h.owner x]
          rintro ⟨d, j, hd⟩
          exact hn d j hd
        · simp [ho]
      simp [hno, hin]
    · rw [hother hxt, ← h.owner x, State.put_owner]
      rcases ho with ⟨ho, -⟩ | ⟨ho, -, hm⟩
      · rw [ho]
      · simp [ho, hm, Ne.symm hxt]
  · by_cases hxt : x = t
    · subst hxt
      simp [hin] at hx
    · rw [hother hxt] at hx
      rcases ho with ⟨-, hd, -⟩ | ⟨-, -, hm⟩
      · rw [State.put_depth, hd]
        exact h.depth x d j hx
      · exact absurd (Option.some.inj ((h.inside_owner hx).symm.trans hm)) hxt
  · rcases ho with ⟨ho, hd, -⟩ | ⟨-, hd, -⟩
    · rw [State.put_depth, hd]
      exact h.free (ho ▸ hn)
    · exact hd
  · by_cases hxt : x = t
    · subst hxt
      rw [State.put_place_self] at hx
      exact hout d j hx
    · exact h.outside x d j (hother hxt ▸ hx)

theorem enter (h : Held nest m) (ht : m.place t = .entering c l)
    (ho : m.owner = none ∨ m.owner = some t) :
    m.owner = none ∧ Held nest ((m.acquire t).put t (.inside c l)) := by
  have hnone : m.owner = none := by
    refine ho.resolve_right (fun hs => ?_)
    obtain ⟨d, j, hd⟩ := (h.owner t).mp hs
    simp [ht] at hd
  have hl := h.outside t c l (.inl ht)
  have hfree : ∀ x d j, m.place x ≠ .inside d j := fun x d j hx => by
    simp [h.inside_owner hx] at hnone
  have hother : ∀ {x}, x ≠ t → ((m.acquire t).put t (.inside c l)).place x = m.place x :=
    fun hx => State.put_place_ne hx
  refine ⟨hnone, fun x => ?_, fun x d j hx => ?_, fun hn => by simp at hn, fun x d j hx => ?_⟩
  · by_cases hxt : x = t
    · subst hxt
      simp
    · simp [hother hxt, hfree, Ne.symm hxt]
  · by_cases hxt : x = t
    · subst hxt
      rw [State.put_place_self] at hx
      obtain ⟨rfl, rfl⟩ := Place.inside.inj hx
      simp [h.free hnone, hl]
    · exact absurd (hother hxt ▸ hx) (hfree x d j)
  · by_cases hxt : x = t
    · subst hxt
      simp at hx
    · exact h.outside x d j (hother hxt ▸ hx)

theorem step (hP : Nested P nest) (h : Held nest m) (move : Move T C) :
    Held nest (m.step P move) := by
  have hs := State.step_stepped P m move
  generalize m.step P move = m' at hs
  cases hs with
  | idle => exact h
  | called t c ht =>
    refine h.leave (by simp) ?_ rfl (.inl ⟨rfl, rfl, by simp [ht]⟩)
    rintro d j (hd | hd) <;> cases hd
    exact hP.start c
  | acquired t c l ht ho => exact (h.enter ht ho).2
  | went t c l l' s ht hgo =>
    have hk : nest l' = nest l := by simpa [hgo, Effect.Keeps] using hP.step l m.data
    obtain ⟨hd, h1⟩ := h.depth t c l ht
    exact h.stay ht (h.inside_owner ht) (hd.trans hk.symm) (hk ▸ h1) rfl
  | locked t c l l' ht hlock =>
    have hk : nest l' = nest l + 1 := by simpa [hlock, Effect.Keeps] using hP.step l m.data
    obtain ⟨hd, h1⟩ := h.depth t c l ht
    exact h.stay ht rfl (by simp [hd, hk]) (by omega) rfl
  | unlocked t c l l' ht hunlock =>
    have hk : nest l' + 1 = nest l ∧ 1 ≤ nest l' := by
      simpa [hunlock, Effect.Keeps] using hP.step l m.data
    obtain ⟨hd, h1⟩ := h.depth t c l ht
    have hdeep : ¬ m.depth ≤ 1 := by omega
    exact h.stay ht (by simp [hdeep, h.inside_owner ht]) (by simp; omega) hk.2 rfl
  | notified t c l l' ht hnotify =>
    have hk : nest l' = nest l := by simpa [hnotify, Effect.Keeps] using hP.step l m.data
    obtain ⟨hd, h1⟩ := h.depth t c l ht
    have ht' : m.notifyAll.place t = .inside c l := by simp [ht, Place.awake]
    exact h.awake.stay ht' (h.inside_owner ht) (hd.trans hk.symm) (hk ▸ h1) rfl
  | waited t c l l' ht hwait =>
    have hk : nest l = 1 ∧ nest l' = 1 := by simpa [hwait, Effect.Keeps] using hP.step l m.data
    obtain ⟨hd, -⟩ := h.depth t c l ht
    refine h.leave (by simp) ?_ rfl (.inr ⟨by simp [hd, hk], by simp [hd, hk], h.inside_owner ht⟩)
    rintro d j (hj | hj) <;> cases hj
    exact hk.2
  | returned t c l r ht hdone =>
    have hk : nest l = 1 := by simpa [hdone, Effect.Keeps] using hP.step l m.data
    obtain ⟨hd, -⟩ := h.depth t c l ht
    exact h.leave (by simp) (by simp) rfl
      (.inr ⟨by simp [hd, hk], by simp [hd, hk], h.inside_owner ht⟩)
  | faulted => exact ⟨h.owner, h.depth, h.free, h.outside⟩
  | woken t c l ht =>
    refine h.leave (by simp) ?_ rfl (.inl ⟨rfl, rfl, by simp [ht]⟩)
    rintro d j (hd | hd) <;> cases hd
    exact h.outside t c l (.inr ht)

theorem run (hP : Nested P nest) (s : σ) (moves : List (Move T C)) :
    Held nest (({ data := s } : State T C ℓ σ ρ).run P moves) :=
  Machine.always_invariant (fun _ move h => h.step hP move) (.init s) moves

end Held

namespace Serialized

variable {nest : ℓ → Nat} {P : Program C ℓ σ ρ} {s₀ : σ} {m n : State T C ℓ σ ρ} {t : T} {c : C}
  {l k : ℓ}

theorem stay (h : Serialized P s₀ m) (hm : Held nest m) (ht : m.place t = .inside c l)
    (hi : Inner P (l, m.data) (k, n.data)) (ho : n.owner ≠ none)
    (hr : n.returned = m.returned) (hp : ∀ x, n.place x = m.place x ∨
      n.place x = (m.place x).awake) : Serialized P s₀ (n.put t (.inside c k)) := by
  refine ⟨fun x d j hx => ?_, fun hn => absurd hn ho, fun x d j hx => ?_⟩
  · by_cases hxt : x = t
    · subst hxt
      simp at hx
    · rw [State.put_place_ne hxt] at hx
      refine h.entry x d j ?_
      rcases hp x with hp | hp <;> rw [hp] at hx
      · exact hx
      · cases hpl : m.place x <;> simp_all [Place.awake]
  · by_cases hxt : x = t
    · subst hxt
      rw [State.put_place_self] at hx
      obtain ⟨rfl, rfl⟩ := Place.inside.inj hx
      obtain ⟨l₀, s, he, hs, hl⟩ := h.held x c l ht
      exact ⟨l₀, s, he, hr ▸ hs, hl.tail hi⟩
    · rw [State.put_place_ne hxt] at hx
      refine absurd (hm.exclusive ht (u := x) (d := d) (k := j) ?_) hxt
      rcases hp x with hp | hp <;> rw [hp] at hx
      · exact hx
      · cases hpl : m.place x <;> simp_all [Place.awake]

theorem leave (h : Serialized P s₀ m) (hm : Held nest m) (ht : m.place t = .inside c l)
    {p : Place C ℓ} (hin : ∀ d j, p ≠ .inside d j)
    (hout : ∀ d j, p = .entering d j ∨ p = .asleep d j → Entry P d j)
    (hp : n.place = m.place) (hs : Serial P s₀ n.returned n.data) :
    Serialized P s₀ (n.put t p) := by
  refine ⟨fun x d j hx => ?_, fun _ => hs, fun x d j hx => ?_⟩
  · by_cases hxt : x = t
    · subst hxt
      rw [State.put_place_self] at hx
      exact hout d j hx
    · rw [State.put_place_ne hxt, hp] at hx
      exact h.entry x d j hx
  · by_cases hxt : x = t
    · subst hxt
      simp [hin] at hx
    · rw [State.put_place_ne hxt, hp] at hx
      exact absurd (hm.exclusive ht hx) hxt

theorem outside (h : Serialized P s₀ m) {p : Place C ℓ} (hin : ∀ d j, p ≠ .inside d j)
    (hout : ∀ d j, p = .entering d j ∨ p = .asleep d j → Entry P d j) :
    Serialized P s₀ (m.put t p) := by
  refine ⟨fun x d j hx => ?_, h.free, fun x d j hx => ?_⟩ <;> by_cases hxt : x = t
  · subst hxt
    rw [State.put_place_self] at hx
    exact hout d j hx
  · rw [State.put_place_ne hxt] at hx
    exact h.entry x d j hx
  · subst hxt
    simp [hin] at hx
  · rw [State.put_place_ne hxt] at hx
    exact h.held x d j hx

theorem enter (h : Serialized P s₀ m) (hm : Held nest m) (ht : m.place t = .entering c l)
    (ho : m.owner = none) : Serialized P s₀ ((m.acquire t).put t (.inside c l)) := by
  refine ⟨fun x d j hx => ?_, fun hn => by simp at hn, fun x d j hx => ?_⟩ <;>
    by_cases hxt : x = t
  · subst hxt
    simp at hx
  · rw [State.put_place_ne hxt] at hx
    exact h.entry x d j hx
  · subst hxt
    rw [State.put_place_self] at hx
    obtain ⟨rfl, rfl⟩ := Place.inside.inj hx
    exact ⟨l, m.data, h.entry x c l (.inl ht), h.free ho, .refl⟩
  · rw [State.put_place_ne hxt] at hx
    have hx : m.place x = .inside d j := hx
    simp [hm.inside_owner hx] at ho

theorem step (h : Serialized P s₀ m) (hm : Held nest m) (hP : Nested P nest) (move : Move T C) :
    Serialized P s₀ (m.step P move) := by
  have hs := State.step_stepped P m move
  generalize m.step P move = m' at hs
  have hdeep : ∀ {t c l}, m.place t = .inside c l → 1 < nest l →
      m.release.owner ≠ none := by
    intro t c l ht hl
    have hd := (hm.depth t c l ht).1
    have hdepth : ¬ m.depth ≤ 1 := by omega
    simp [hdepth, hm.inside_owner ht]
  cases hs with
  | idle => exact h
  | called t c ht =>
    refine h.outside (by simp) ?_
    rintro d j (hd | hd) <;> cases hd
    exact .start c
  | acquired t c l ht ho => exact h.enter hm ht (hm.enter ht ho).1
  | went t c l l' s ht hgo =>
    exact h.stay (n := m.write s) hm ht (.of hgo rfl) (by simp [hm.inside_owner ht]) rfl
      (fun _ => .inl rfl)
  | locked t c l l' ht hlock =>
    exact h.stay (n := m.acquire t) hm ht (.of hlock rfl) (by simp) rfl (fun _ => .inl rfl)
  | unlocked t c l l' ht hunlock =>
    have hk : nest l' + 1 = nest l ∧ 1 ≤ nest l' := by
      simpa [hunlock, Effect.Keeps] using hP.step l m.data
    exact h.stay (n := m.release) hm ht (.of hunlock rfl) (hdeep ht (by omega)) rfl
      (fun _ => .inl rfl)
  | notified t c l l' ht hnotify =>
    exact h.stay (n := m.notifyAll) hm ht (.of hnotify rfl) (by simp [hm.inside_owner ht]) rfl
      (fun _ => .inr rfl)
  | waited t c l l' ht hwait =>
    obtain ⟨l₀, s, he, hser, hi⟩ := h.held t c l ht
    refine h.leave (n := m.release) hm ht (by simp) ?_ rfl (hser.waited he hi hwait)
    rintro d j (hd | hd) <;> cases hd
    exact he.resumed hi hwait
  | returned t c l r ht hdone =>
    obtain ⟨l₀, s, he, hser, hi⟩ := h.held t c l ht
    exact h.leave (n := m.release.note t c r) hm ht (by simp) (by simp) rfl
      (hser.returned he hi hdone)
  | faulted => exact ⟨h.entry, h.free, h.held⟩
  | woken t c l ht =>
    refine h.outside (by simp) ?_
    rintro d j (hd | hd) <;> cases hd
    exact h.entry t c l (.inr ht)

theorem run (hP : Nested P nest) (s₀ : σ) (moves : List (Move T C)) :
    Serialized P s₀ (({ data := s₀ } : State T C ℓ σ ρ).run P moves) :=
  (Machine.always_invariant (I := fun m => Serialized P s₀ m ∧ Held nest m)
    (fun _ move h => ⟨h.1.step h.2 hP move, h.2.step hP move⟩) ⟨.init s₀, .init s₀⟩ moves).1

end Serialized

namespace Woken

variable {nest : ℓ → Nat} {P : Program C ℓ σ ρ} {holds : C → σ → ℓ → σ → Prop}
  {blocked : ℓ → σ → Prop} {owing : ℓ → Prop} {s₀ : σ} {m : State T C ℓ σ ρ}

theorem step (ho : Outline P holds) (hP : Wakeful P holds blocked owing) (h : Woken blocked owing m)
    (hm : Held nest m) (hser : Serialized P s₀ m) (move : Move T C) :
    Woken blocked owing (m.step P move) := by
  have hs := State.step_stepped P m move
  generalize m.step P move = m' at hs
  have hown : ∀ {t c l x d k}, m.place t = .inside c l → m.place x = .asleep d k →
      blocked k m.data ∨ owing l := by
    intro t c l x d k ht hx
    refine (h x d k hx).imp id ?_
    rintro ⟨u, e, j, hu, hj⟩
    obtain rfl := hm.exclusive ht hu
    obtain ⟨-, rfl⟩ := Place.inside.inj (ht.symm.trans hu)
    exact hj
  have hkeep : ∀ {t p}, (∀ c l, m.place t ≠ .inside c l) →
      (∀ d k, p = .asleep d k → m.place t = .asleep d k) → Woken blocked owing (m.put t p) := by
    intro t p hin hsame x d k hx
    have hx : m.place x = .asleep d k := by
      by_cases hxt : x = t
      · subst hxt
        rw [State.put_place_self] at hx
        exact hsame d k hx
      · rwa [State.put_place_ne hxt] at hx
    refine (h x d k hx).imp id ?_
    rintro ⟨u, e, j, hu, hj⟩
    have hut : u ≠ t := fun heq => hin e j (heq ▸ hu)
    exact ⟨u, e, j, by rw [State.put_place_ne hut, hu], hj⟩
  cases hs with
  | idle | faulted => exact h
  | called t c ht => exact hkeep (by simp [ht]) (by simp)
  | woken t c l ht => exact hkeep (by simp [ht]) (by simp)
  | acquired t c l ht hfree =>
    intro x d k hx
    by_cases hxt : x = t
    · subst hxt
      simp at hx
    · rw [State.put_place_ne hxt] at hx
      exact .inl (h.blocked hm (hm.enter ht hfree).1 hx)
  | went t c l l' s ht hgo =>
    intro x d k hx
    by_cases hxt : x = t
    · subst hxt
      simp at hx
    · rw [State.put_place_ne hxt] at hx
      obtain ⟨s₁, -, hat⟩ := ho.held hser ht
      obtain ⟨howes, hblocked⟩ := hP.go c s₁ l m.data l' s hat hgo
      have hcase : blocked k s ∨ owing l' :=
        (hown ht hx).elim (hblocked k) (fun hl => .inr (howes hl))
      exact hcase.imp id (fun hl => ⟨t, c, l', by simp, hl⟩)
  | locked t c l l' ht hlock | unlocked t c l l' ht hlock =>
    intro x d k hx
    by_cases hxt : x = t
    · subst hxt
      simp at hx
    · rw [State.put_place_ne hxt] at hx
      refine (hown ht hx).imp id (fun hl => ⟨t, c, l', by simp, ?_⟩)
      first
      | exact hP.lock l m.data l' (.inl hlock) hl
      | exact hP.lock l m.data l' (.inr hlock) hl
  | notified t c l l' ht hnotify =>
    intro x d k hx
    by_cases hxt : x = t
    · subst hxt
      simp at hx
    · rw [State.put_place_ne hxt, State.notifyAll_place] at hx
      cases hp : m.place x <;> simp [hp, Place.awake] at hx
  | waited t c l l' ht hwait =>
    obtain ⟨s, -, hat⟩ := ho.held hser ht
    obtain ⟨hblocked, hno⟩ := hP.wait c s l m.data l' hat hwait
    intro x d k hx
    by_cases hxt : x = t
    · subst hxt
      rw [State.put_place_self] at hx
      obtain ⟨rfl, rfl⟩ := Place.asleep.inj hx
      exact .inl hblocked
    · rw [State.put_place_ne hxt] at hx
      exact .inl ((hown ht hx).resolve_right hno)
  | returned t c l r ht hdone =>
    intro x d k hx
    by_cases hxt : x = t
    · subst hxt
      simp at hx
    · rw [State.put_place_ne hxt] at hx
      exact .inl ((hown ht hx).resolve_right (hP.done l m.data r hdone))

theorem run (hP : Nested P nest) (ho : Outline P holds) (hw : Wakeful P holds blocked owing) (s : σ)
    (moves : List (Move T C)) :
    Woken blocked owing (({ data := s } : State T C ℓ σ ρ).run P moves) :=
  (Machine.always_invariant
    (I := fun m => Woken blocked owing m ∧ Held nest m ∧ Serialized P s m)
    (fun _ move h => ⟨h.1.step ho hw h.2.1 h.2.2 move, h.2.1.step hP move,
      h.2.2.step h.2.1 hP move⟩)
    ⟨.init blocked owing s, .init s, .init s⟩ moves).1

end Woken

theorem gives_up {P : Program C ℓ σ ρ} {rank : ℓ → σ → Nat}
    (hrank : ∀ l s l' s', Inner P (l, s) (l', s') → rank l' s' < rank l s)
    {m : State T C ℓ σ ρ} {t : T} {c : C} {l : ℓ} (ht : m.place t = .inside c l)
    (hf : m.faulted = false) : ∃ n ≤ rank l m.data + 1,
      (m.run P (List.replicate n (.run t))).faulted = true ∨
        ∀ d k, (m.run P (List.replicate n (.run t))).place t ≠ .inside d k := by
  generalize hr : rank l m.data = r
  induction r using Nat.strong_induction_on generalizing m l with
  | _ r ih =>
  have hstep : m.step P (.run t) = m.advance P t c l := State.step_progress P hf ht
  have hgo : ∀ {l' : ℓ} {m' : State T C ℓ σ ρ}, m.step P (.run t) = m' →
      m'.place t = .inside c l' → m'.faulted = false → Inner P (l, m.data) (l', m'.data) →
      ∃ n ≤ r + 1, (m.run P (List.replicate n (.run t))).faulted = true ∨
        ∀ d k, (m.run P (List.replicate n (.run t))).place t ≠ .inside d k := by
    intro l' m' hm' hp hf' hi
    have hlt := hrank _ _ _ _ hi
    obtain ⟨n, hn, hend⟩ := ih (rank l' m'.data) (hr ▸ hlt) hp hf' rfl
    refine ⟨n + 1, by omega, ?_⟩
    rwa [List.replicate_succ, State.run, Machine.run_cons, hm']
  have hlast : ∀ {m' : State T C ℓ σ ρ}, m.step P (.run t) = m' →
      (m'.faulted = true ∨ ∀ d k, m'.place t ≠ .inside d k) →
      ∃ n ≤ r + 1, (m.run P (List.replicate n (.run t))).faulted = true ∨
        ∀ d k, (m.run P (List.replicate n (.run t))).place t ≠ .inside d k :=
    fun hm' hend => ⟨1, by omega, by simpa [State.run, hm'] using hend⟩
  rw [State.advance] at hstep
  cases hl : P.step l m.data <;> rw [hl] at hstep
  case go => exact hgo hstep (by simp) hf (.of hl rfl)
  case lock => exact hgo hstep (by simp) hf (.of hl rfl)
  case unlock => exact hgo hstep (by simp) hf (.of hl rfl)
  case notifyAll => exact hgo hstep (by simp) hf (.of hl rfl)
  case wait | done => exact hlast hstep (.inr (by simp))
  case fault => exact hlast hstep (.inl rfl)


section calls

variable {P : Program C ℓ σ ρ} {m : State T C ℓ σ ρ} {made : C → Prop}

structure Made (made : C → Prop) (m : State T C ℓ σ ρ) : Prop where
  place : ∀ t c l, m.place t = .entering c l ∨ m.place t = .inside c l ∨ m.place t = .asleep c l →
    made c
  returned : ∀ e ∈ m.returned, made e.2.1

theorem Made.put (h : Made made m) {m' : State T C ℓ σ ρ} {t : T} {p : Place C ℓ}
    (hr : ∀ e ∈ m'.returned, made e.2.1)
    (hp : ∀ x, m'.place x = m.place x ∨ m'.place x = (m.place x).awake)
    (ht : ∀ c l, p = .entering c l ∨ p = .inside c l ∨ p = .asleep c l → made c) :
    Made made (m'.put t p) := by
  refine ⟨fun x c l hx => ?_, hr⟩
  by_cases hxt : x = t
  · subst hxt
    rw [State.put_place_self] at hx
    exact ht c l hx
  · rw [State.put_place_ne hxt] at hx
    refine h.place x c l ?_
    rcases hp x with hp | hp <;> rw [hp] at hx
    · exact hx
    · cases hpl : m.place x <;> simp_all [Place.awake]

theorem Made.step (h : Made made m) {move : Move T C}
    (hmove : ∀ t c, move = .call t c → made c) : Made made (m.step P move) := by
  have hs := State.step_stepped P m move
  generalize m.step P move = m' at hs
  cases hs with
  | idle => exact h
  | called t c =>
    refine h.put h.returned (fun _ => .inl rfl) ?_
    rintro d j (hd | hd | hd) <;> cases hd
    exact hmove t c rfl
  | notified t c l l' ht =>
    refine h.put h.returned (fun _ => .inr rfl) ?_
    rintro d j (hd | hd | hd) <;> cases hd
    exact h.place t c l (.inr (.inl ht))
  | returned t c l r ht =>
    refine h.put ?_ (fun _ => .inl rfl) (by simp)
    simpa [or_imp, forall_and] using
      ⟨fun u d r hd => h.returned (u, d, r) hd, h.place t c l (.inr (.inl ht))⟩
  | faulted => exact ⟨h.place, h.returned⟩
  | acquired t c l ht | woken t c l ht =>
    refine h.put h.returned (fun _ => .inl rfl) ?_
    rintro d j (hd | hd | hd) <;> cases hd
    exact h.place t c l (by simp [ht])
  | went t c l l' s ht | locked t c l l' ht | unlocked t c l l' ht | waited t c l l' ht =>
    refine h.put h.returned (fun _ => .inl rfl) ?_
    rintro d j (hd | hd | hd) <;> cases hd
    exact h.place t c l (.inr (.inl ht))

theorem Made.run {s : σ} {moves : List (Move T C)}
    (hmoves : ∀ move ∈ moves, ∀ t c, move = .call t c → made c) :
    Made made (({ data := s } : State T C ℓ σ ρ).run P moves) := by
  induction moves using List.reverseRecOn with
  | nil => exact ⟨by simp, by simp⟩
  | append_singleton moves move ih =>
    rw [State.run, Machine.run_snoc]
    refine Made.step (ih (fun x hx => hmoves x (by simp [hx]))) (hmoves move (by simp))

theorem faulted_run (P : Program C ℓ σ ρ) (s : σ) (moves : List (Move T C))
    (hf : (({ data := s } : State T C ℓ σ ρ).run P moves).faulted = true) :
    ∃ t c l, (({ data := s } : State T C ℓ σ ρ).run P moves).place t = .inside c l ∧
      P.step l (({ data := s } : State T C ℓ σ ρ).run P moves).data = .fault := by
  refine Machine.always_invariant (I := fun m : State T C ℓ σ ρ => m.faulted = true →
    ∃ t c l, m.place t = .inside c l ∧ P.step l m.data = .fault) ?_ (by simp) moves hf
  intro m move h hm
  by_cases hf : m.faulted = true
  · have hsame : m.step P move = m := by
      unfold State.step
      exact if_pos hf
    rw [hsame]
    exact h hf
  · have hs := State.step_stepped P m move
    generalize m.step P move = m' at hs hm
    cases hs with
    | faulted t c l ht hl => exact ⟨t, c, l, ht, hl⟩
    | _ => exact absurd hm hf

end calls

end Monitor
