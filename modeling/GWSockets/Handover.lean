import GWSockets.Library.Monitor
import GWSockets.QueueLaw

namespace GWSockets

-- Where a thread stands in a method of BlockingQueue, between two steps that others can see.
inductive QueuePoint (T : Type) where
  | whole (c : QueueCall T)
  | pushing (elem : T)
  | notifying
  | testing
  | sizing
  | sized (n : Nat)
  | checking (n : Nat)
  | answering (r : QueueAnswer T)

def QueueCall.whole {T : Type} : QueueCall T → Bool
  | .put _ | .take => false
  | _ => true

def QueueCall.passing {T : Type} : QueueCall T → Bool
  | .put _ | .take | .clear | .size | .empty => true
  | _ => false

def QueueCall.puts {T : Type} : QueueCall T → List T
  | .put elem => [elem]
  | _ => []

def QueueAnswer.handed {T : Type} : QueueAnswer T → List T
  | .elem x => [x]
  | .elems l => l
  | _ => []

def QueuePoint.nest {T : Type} : QueuePoint T → Nat
  | .sizing | .sized _ => 2
  | _ => 1

def QueuePoint.rank {T : Type} : QueuePoint T → Nat
  | .testing => 4
  | .sizing => 3
  | .sized _ | .pushing _ => 2
  | .checking _ | .notifying | .whole _ => 1
  | .answering _ => 0

namespace BlockingQueue

open Monitor

variable {T : Type} [BEq T] (moved : T → T)

-- take() locks the mutex a second time when it calls size().
def program : Program (QueueCall T) (QueuePoint T) (BlockingQueue T) (QueueAnswer T) where
  start
    | .put elem => .pushing elem
    | .take => .testing
    | c => .whole c
  step
    | .whole c, q =>
        match q.call moved c with
        | .ok (r, q) => .go (.answering r) q
        | .error _ => .fault
    | .pushing elem, q => .go .notifying (q.put elem)
    | .notifying, _ => .notifyAll (.answering .done)
    | .testing, _ => .lock .sizing
    | .sizing, q => .go (.sized q.size) q
    | .sized n, _ => .unlock (.checking n)
    | .checking n, q =>
        if n = 0 then .wait .testing
        else
          match q.take with
          | some (front, q) => .go (.answering (.elem front)) q
          | none => .fault
    | .answering r, _ => .done r

def replay (q : BlockingQueue T) (calls : List (QueueCall T)) :
    Except QueueHalt (List (QueueAnswer T) × BlockingQueue T) :=
  calls.foldlM
    (fun p c => (p.2.call moved c).map (fun answer => (p.1 ++ [answer.1], answer.2))) ([], q)

inductive Reached : QueueCall T → BlockingQueue T → QueuePoint T → BlockingQueue T → Prop where
  | whole (c : QueueCall T) (q : BlockingQueue T) (h : c.whole = true) : Reached c q (.whole c) q
  | pushing (elem : T) (q : BlockingQueue T) : Reached (.put elem) q (.pushing elem) q
  | notifying (elem : T) (q : BlockingQueue T) : Reached (.put elem) q .notifying (q.put elem)
  | testing (q : BlockingQueue T) : Reached .take q .testing q
  | sizing (q : BlockingQueue T) : Reached .take q .sizing q
  | sized (q : BlockingQueue T) : Reached .take q (.sized q.size) q
  | checking (q : BlockingQueue T) : Reached .take q (.checking q.size) q
  | answering (c : QueueCall T) (q : BlockingQueue T) (r : QueueAnswer T) (q' : BlockingQueue T)
      (h : q.call moved c = .ok (r, q')) : Reached c q (.answering r) q'

theorem program_nested : Nested (program moved) QueuePoint.nest := by
  refine ⟨fun c => by cases c <;> rfl, fun point q => ?_⟩
  cases point with
  | whole c =>
    cases h : q.call moved c <;> simp [program, h, Effect.Keeps, QueuePoint.nest]
  | checking n =>
    by_cases hn : n = 0
    · simp [program, hn, Effect.Keeps, QueuePoint.nest]
    · cases h : q.take <;> simp [program, hn, h, Effect.Keeps, QueuePoint.nest]
  | _ => simp [program, Effect.Keeps, QueuePoint.nest]

theorem program_ranked (point : QueuePoint T) (q : BlockingQueue T) (point' : QueuePoint T)
    (q' : BlockingQueue T) (h : Inner (program moved) (point, q) (point', q')) :
    point'.rank < point.rank := by
  have hnext : ((program moved).step point q).next q = some (point', q') := h
  cases point with
  | whole c =>
    cases hcall : q.call moved c with
    | error e => simp [program, hcall, Effect.next] at hnext
    | ok p =>
      simp only [program, hcall, Effect.next, Option.some.injEq, Prod.mk.injEq] at hnext
      exact hnext.1 ▸ Nat.zero_lt_one
  | checking n =>
    by_cases hn : n = 0
    · simp [program, hn, Effect.next] at hnext
    · cases htake : q.take with
      | none => simp [program, hn, htake, Effect.next] at hnext
      | some p =>
        simp only [program, hn, htake, if_false, Effect.next, Option.some.injEq,
          Prod.mk.injEq] at hnext
        exact hnext.1 ▸ Nat.zero_lt_one
  | answering r => cases hnext
  | _ =>
    obtain ⟨rfl, rfl⟩ := Prod.mk.inj (Option.some.inj hnext)
    simp [QueuePoint.rank]

theorem program_inner {point point' : QueuePoint T} {q q' : BlockingQueue T}
    (h : Inner (program moved) (point, q) (point', q')) {c : QueueCall T} {q₀ : BlockingQueue T}
    (hr : Reached moved c q₀ point q) : Reached moved c q₀ point' q' := by
  have hnext : ((program moved).step point q).next q = some (point', q') := h
  cases hr with
  | whole c q hc =>
    cases hcall : q.call moved c with
    | error e => simp [program, hcall, Effect.next] at hnext
    | ok p =>
      obtain ⟨r, q₁⟩ := p
      simp only [program, hcall, Effect.next, Option.some.injEq, Prod.mk.injEq] at hnext
      obtain ⟨rfl, rfl⟩ := hnext
      exact .answering c q r q₁ hcall
  | pushing elem q =>
    obtain ⟨rfl, rfl⟩ := Prod.mk.inj (Option.some.inj hnext)
    exact .notifying elem q
  | notifying elem q =>
    obtain ⟨rfl, rfl⟩ := Prod.mk.inj (Option.some.inj hnext)
    exact .answering _ _ .done _ rfl
  | testing q =>
    obtain ⟨rfl, rfl⟩ := Prod.mk.inj (Option.some.inj hnext)
    exact .sizing q
  | sizing q =>
    obtain ⟨rfl, rfl⟩ := Prod.mk.inj (Option.some.inj hnext)
    exact .sized q
  | sized q =>
    obtain ⟨rfl, rfl⟩ := Prod.mk.inj (Option.some.inj hnext)
    exact .checking q
  | checking q =>
    by_cases hn : q.size = 0
    · simp [program, hn, Effect.next] at hnext
    · cases htake : q.take with
      | none => simp [program, hn, htake, Effect.next] at hnext
      | some p =>
        obtain ⟨front, q₁⟩ := p
        simp only [program, hn, htake, if_false, Effect.next, Option.some.injEq,
          Prod.mk.injEq] at hnext
        obtain ⟨rfl, rfl⟩ := hnext
        exact .answering .take q _ _ (by simp [call, htake])
  | answering c q r q₁ hcall => cases hnext

theorem program_waits {point point' : QueuePoint T} {q : BlockingQueue T} {c : QueueCall T}
    {q₀ : BlockingQueue T} (hr : Reached moved c q₀ point q)
    (h : (program moved).step point q = .wait point') :
    c = .take ∧ point' = .testing ∧ q = q₀ ∧ q.backingQueue = [] ∧ point = .checking 0 := by
  cases hr with
  | whole c q hc => cases hcall : q.call moved c <;> simp [program, hcall] at h
  | checking =>
    by_cases hn : q.size = 0
    · simp only [program, hn, if_true, Effect.wait.injEq] at h
      exact ⟨rfl, h.symm, rfl, List.length_eq_zero_iff.mp hn, by rw [hn]⟩
    · cases htake : q.take <;> simp [program, hn, htake] at h
  | _ => cases h

theorem program_outline : Outline (program moved) (Reached moved) := by
  refine ⟨fun c q => ?_, fun c q₀ l q l' q' hr h => program_inner moved h hr, ?_⟩
  · cases c with
    | put elem => exact .pushing elem q
    | take => exact .testing q
    | _ => exact .whole _ q rfl
  · intro c q₀ point q point' hr h q'
    obtain ⟨rfl, rfl, -⟩ := program_waits moved hr h
    exact .testing q'

theorem program_done {point : QueuePoint T} {q : BlockingQueue T} {c : QueueCall T}
    {q₀ : BlockingQueue T} {r : QueueAnswer T} (hr : Reached moved c q₀ point q)
    (h : (program moved).step point q = .done r) : q₀.call moved c = .ok (r, q) := by
  cases hr with
  | whole c q hc => cases hcall : q.call moved c <;> simp [program, hcall] at h
  | checking =>
    by_cases hn : q.size = 0
    · simp [program, hn] at h
    · cases htake : q.take <;> simp [program, hn, htake] at h
  | answering c q r q₁ hcall =>
    cases h
    exact hcall
  | _ => cases h

theorem program_faults {point : QueuePoint T} {q : BlockingQueue T} {c : QueueCall T}
    {q₀ : BlockingQueue T} (hr : Reached moved c q₀ point q)
    (h : (program moved).step point q = .fault) : ∃ elem, c = .remove elem := by
  cases hr with
  | whole c q hc =>
    cases c with
    | remove elem => exact ⟨elem, rfl⟩
    | put | take => cases hc
    | _ => simp [program, call] at h
  | checking =>
    obtain ⟨l⟩ := q
    cases l with
    | nil => simp [program, size] at h
    | cons x l => simp [program, size, take] at h
  | _ => cases h

def Starved (point : QueuePoint T) (q : BlockingQueue T) : Prop :=
  point = .testing ∧ q.backingQueue = []

def Owing (point : QueuePoint T) : Prop := point = .notifying

theorem starved_call {c : QueueCall T} {q q' : BlockingQueue T} {r : QueueAnswer T}
    (hc : c.whole = true) (hcall : q.call moved c = .ok (r, q')) (hq : q.backingQueue = []) :
    q'.backingQueue = [] := by
  obtain ⟨l⟩ := q
  obtain rfl : l = [] := hq
  cases c with
  | put | take => cases hc
  | remove elem => simp [call, remove, stdRemove] at hcall
  | removeIf func | swapToFrontIf func =>
    obtain ⟨-, rfl⟩ := Prod.mk.inj (Except.ok.inj hcall)
    simp [removeIf, swapToFrontIf, size]
  | _ =>
    obtain ⟨-, rfl⟩ := Prod.mk.inj (Except.ok.inj hcall)
    rfl

theorem starved_inner {point point' : QueuePoint T} {q q' q₀ : BlockingQueue T} {c : QueueCall T}
    (hr : Reached moved c q₀ point q) (h : (program moved).step point q = .go point' q')
    (hq : q.backingQueue = []) : q'.backingQueue = [] ∨ point' = .notifying := by
  cases hr with
  | whole c q hc =>
    cases hcall : q.call moved c with
    | error e => simp [program, hcall] at h
    | ok p =>
      obtain ⟨r, q₁⟩ := p
      simp only [program, hcall, Effect.go.injEq] at h
      obtain ⟨-, rfl⟩ := h
      exact .inl (starved_call moved hc hcall hq)
  | pushing =>
    cases h
    exact .inr rfl
  | sizing =>
    cases h
    exact .inl hq
  | checking =>
    have hn : q.size = 0 := List.length_eq_zero_iff.mpr hq
    simp [program, hn] at h
  | _ => cases h

theorem program_wakeful : Wakeful (program moved) (Reached moved) Starved Owing := by
  refine ⟨fun c q₀ point q point' hr h => ?_, fun c q₀ point q point' q' hr h => ⟨?_, ?_⟩, ?_, ?_⟩
  · obtain ⟨-, htesting, -, hq, rfl⟩ := program_waits moved hr h
    exact ⟨⟨htesting, hq⟩, by simp [Owing]⟩
  · rintro rfl
    cases h
  · exact fun _ hq => (starved_inner moved hr h hq.2).imp (fun hempty => ⟨hq.1, hempty⟩) id
  · rintro point q point' h rfl
    rcases h with h | h <;> cases h
  · rintro point q r h rfl
    cases h

theorem replay_snoc (q : BlockingQueue T) (calls : List (QueueCall T)) (c : QueueCall T)
    {answers : List (QueueAnswer T)} {r : QueueAnswer T} {q₁ q₂ : BlockingQueue T}
    (h : replay moved q calls = .ok (answers, q₁)) (hc : q₁.call moved c = .ok (r, q₂)) :
    replay moved q (calls ++ [c]) = .ok (answers ++ [r], q₂) := by
  unfold replay at h ⊢
  rw [List.foldlM_append, h]
  simp [hc, Except.map, Bind.bind, Except.bind, Pure.pure, Except.pure]

theorem call_passes {c : QueueCall T} {q q' : BlockingQueue T} {r : QueueAnswer T}
    (hc : c.passing = true) (hcall : q.call moved c = .ok (r, q')) :
    q.backingQueue ++ c.puts = r.handed ++ q'.backingQueue := by
  cases c with
  | put elem =>
    cases hcall
    rfl
  | take =>
    obtain ⟨l⟩ := q
    cases l with
    | nil => simp [call, take] at hcall
    | cons x l =>
      cases hcall
      simp [QueueCall.puts, QueueAnswer.handed]
  | removeIf | remove | swapToFrontIf => cases hc
  | clear | size | empty =>
    cases hcall
    simp [QueueCall.puts, QueueAnswer.handed]

section calls

variable {Thread : Type}

def Replayed (calls : List (Thread × QueueCall T × QueueAnswer T)) (q : BlockingQueue T) : Prop :=
  replay moved {} (calls.map (fun e => e.2.1)) = .ok (calls.map (fun e => e.2.2), q)

theorem serial_replayed {calls : List (Thread × QueueCall T × QueueAnswer T)}
    {q : BlockingQueue T} (h : Serial (program moved) {} calls q) : Replayed moved calls q := by
  refine (program_outline moved).serial (I := Replayed moved) rfl ?_ ?_ h
  · intro calls c q₀ point q point' hrep hr hw
    obtain ⟨-, -, rfl, -⟩ := program_waits moved hr hw
    exact hrep
  · intro calls t c q₀ point q r hrep hr hd
    unfold Replayed at hrep ⊢
    rw [List.map_append, List.map_append]
    exact replay_snoc moved _ _ c hrep (program_done moved hr hd)

def Passed (calls : List (Thread × QueueCall T × QueueAnswer T)) (q : BlockingQueue T) : Prop :=
  (∀ e ∈ calls, e.2.1.passing = true) → calls.flatMap (fun e => e.2.1.puts) =
    calls.flatMap (fun e => e.2.2.handed) ++ q.backingQueue

theorem serial_passed {calls : List (Thread × QueueCall T × QueueAnswer T)}
    {q : BlockingQueue T} (h : Serial (program moved) {} calls q) : Passed calls q := by
  refine (program_outline moved).serial (I := Passed) (fun _ => rfl) ?_ ?_ h
  · intro calls c q₀ point q point' hpass hr hw
    obtain ⟨-, -, rfl, -⟩ := program_waits moved hr hw
    exact hpass
  · intro calls t c q₀ point q r hpass hr hd hall
    have hcall := call_passes moved (hall (t, c, r) (by simp)) (program_done moved hr hd)
    have hbefore := hpass (fun e he => hall e (List.mem_append_left _ he))
    rw [List.flatMap_append, List.flatMap_append, hbefore, List.append_assoc, List.append_assoc]
    simpa using hcall

abbrev Threads (Thread T : Type) :=
  State Thread (QueueCall T) (QueuePoint T) (BlockingQueue T) (QueueAnswer T)

theorem held_serial {m : Threads Thread T} (hs : Serialized (program moved) {} m)
    (hh : Held QueuePoint.nest m) :
    ∃ q, Serial (program moved) {} m.returned q ∧ (m.owner = none → q = m.data) := by
  by_cases ho : m.owner = none
  · exact ⟨m.data, hs.free ho, fun _ => rfl⟩
  · obtain ⟨t, ht⟩ := Option.ne_none_iff_exists'.mp ho
    obtain ⟨c, l, hl⟩ := (hh.owner t).mp ht
    obtain ⟨q, hq, -⟩ := (program_outline moved).held hs hl
    exact ⟨q, hq, fun hn => absurd hn ho⟩

end calls

section run

variable {Thread : Type} [DecidableEq Thread]

theorem calls_serialize (moves : List (Move Thread (QueueCall T))) :
    let m := ({ data := {} } : Threads Thread T).run (program moved) moves
    (∃ q, replay moved {} (m.returned.map (fun e => e.2.1)) =
        .ok (m.returned.map (fun e => e.2.2), q) ∧ (m.owner = none → q = m.data)) ∧
      (m.faulted = true → ∃ t elem l, m.place t = .inside (.remove elem) l) := by
  intro m
  have hserial : Serialized (program moved) {} m :=
    Serialized.run (program_nested moved) {} moves
  have hheld : Held QueuePoint.nest m := Held.run (program_nested moved) {} moves
  refine ⟨?_, fun hf => ?_⟩
  · obtain ⟨q, hq, hfree⟩ := held_serial moved hserial hheld
    exact ⟨q, serial_replayed moved hq, hfree⟩
  · obtain ⟨t, c, l, hl, hstep⟩ := faulted_run (program moved) {} moves hf
    obtain ⟨q, -, hr⟩ := (program_outline moved).held hserial hl
    obtain ⟨elem, rfl⟩ := program_faults moved hr hstep
    exact ⟨t, elem, l, hl⟩

theorem handover_fifo (moves : List (Move Thread (QueueCall T)))
    (hpassing : ∀ move ∈ moves, ∀ t c, move = .call t c → c.passing = true) :
    let m := ({ data := {} } : Threads Thread T).run (program moved) moves
    m.faulted = false ∧ ∃ q, m.returned.flatMap (fun e => e.2.1.puts) =
      m.returned.flatMap (fun e => e.2.2.handed) ++ q.backingQueue ∧
        (m.owner = none → q = m.data) := by
  intro m
  have hserial : Serialized (program moved) {} m :=
    Serialized.run (program_nested moved) {} moves
  have hheld : Held QueuePoint.nest m := Held.run (program_nested moved) {} moves
  have hmade : Made (fun c : QueueCall T => c.passing = true) m := Made.run hpassing
  refine ⟨?_, ?_⟩
  · by_contra hf
    obtain ⟨t, elem, l, hl⟩ := (calls_serialize moved moves).2 (by simpa using hf)
    exact absurd (hmade.place t _ l (.inr (.inl hl))) (by simp [QueueCall.passing])
  · obtain ⟨q, hq, hfree⟩ := held_serial moved hserial hheld
    exact ⟨q, serial_passed moved hq hmade.returned, hfree⟩

theorem starved_of_asleep (moves : List (Move Thread (QueueCall T))) :
    Woken Starved Owing (({ data := {} } : Threads Thread T).run (program moved) moves) :=
  Woken.run (program_nested moved) (program_outline moved) (program_wakeful moved) {} moves

theorem entry_testing {c : QueueCall T} {point : QueuePoint T} (h : Entry (program moved) c point) :
    point = .testing ↔ c = .take := by
  cases h with
  | start => cases c <;> simp [program]
  | resumed he hi hw =>
    obtain ⟨hc, htesting, -⟩ := program_waits moved
      ((program_outline moved).inners ((program_outline moved).entry he _) hi) hw
    exact ⟨fun _ => hc, fun _ => htesting⟩

theorem take_served {m : Threads Thread T} (ho : m.owner = none) (hf : m.faulted = false)
    {t : Thread} (ht : m.place t = .entering .take .testing) {x : T} {rest : List T}
    (hq : m.data = ⟨x :: rest⟩) :
    (m.run (program moved) (List.replicate 6 (.run t))).returned =
      m.returned ++ [(t, .take, .elem x)] := by
  let entered := (m.acquire t).put t (.inside .take .testing)
  let locked := (entered.acquire t).put t (.inside .take .sizing)
  let sized := (locked.write locked.data).put t (.inside .take (.sized (rest.length + 1)))
  let unlocked := sized.release.put t (.inside .take (.checking (rest.length + 1)))
  let taken := (unlocked.write ⟨rest⟩).put t (.inside .take (.answering (.elem x)))
  have hentered : m.step (program moved) (.run t) = entered := by
    simp [State.step, hf, ht, ho, entered]
  have hlocked : entered.step (program moved) (.run t) = locked :=
    State.step_put (m := m.acquire t) (program moved) hf t _ _
  have hsized : locked.step (program moved) (.run t) = sized := by
    have hdata : locked.data = ⟨x :: rest⟩ := hq
    refine (State.step_put (m := entered.acquire t) (program moved) hf t _ _).trans ?_
    change locked.advance (program moved) t .take .sizing = sized
    simp [State.advance, program, hdata, size, sized]
  have hunlocked : sized.step (program moved) (.run t) = unlocked :=
    State.step_put (m := locked.write locked.data) (program moved) hf t _ _
  have htaken : unlocked.step (program moved) (.run t) = taken := by
    have hdata : unlocked.data = ⟨x :: rest⟩ := hq
    refine (State.step_put (m := sized.release) (program moved) hf t _ _).trans ?_
    change unlocked.advance (program moved) t .take (.checking (rest.length + 1)) = taken
    simp [State.advance, program, hdata, take, taken]
  have hdone : (taken.step (program moved) (.run t)).returned =
      m.returned ++ [(t, .take, .elem x)] :=
    congrArg State.returned (State.step_put (m := unlocked.write ⟨rest⟩) (program moved) hf t _ _)
  rw [← hdone, ← htaken, ← hunlocked, ← hsized, ← hlocked, ← hentered]
  rfl

-- Thread 0 finds the queue empty and waits until thread 1 has put an element.
def handoverMoves : List (Move Nat (QueueCall Nat)) :=
  .call 0 .take :: List.replicate 5 (.run 0) ++ .call 1 (.put 7) :: List.replicate 4 (.run 1) ++
    List.replicate 6 (.run 0)

theorem handover_fifo_waited :
    let m := ({ data := {} } : Threads Nat Nat).run (program id) handoverMoves
    m.returned.flatMap (fun e => e.2.2.handed) = [7] ∧ m.faulted = false :=
  ⟨rfl, (handover_fifo id handoverMoves (by
    simp [handoverMoves, List.replicate, QueueCall.passing])).1⟩

theorem takers_progress (moves : List (Move Thread (QueueCall T))) :
    let m := ({ data := {} } : Threads Thread T).run (program moved) moves
    ((∃ t, m.Enabled t) ∨ ∀ t, m.place t = .idle ∨
      m.place t = .asleep .take .testing ∧ m.data.backingQueue = []) ∧
    (m.faulted = false → ∀ t c l, m.place t = .inside c l → ∃ n ≤ 5,
      (m.run (program moved) (List.replicate n (.run t))).faulted = true ∨
        ∀ d k, (m.run (program moved) (List.replicate n (.run t))).place t ≠ .inside d k) ∧
    (m.faulted = false → m.owner = none → ∀ x rest, m.data.backingQueue = x :: rest → ∀ t l,
      m.place t ≠ .asleep .take l ∧ (m.place t = .entering .take l →
        (m.run (program moved) (List.replicate 6 (.run t))).returned =
          m.returned ++ [(t, .take, .elem x)])) := by
  intro m
  have hserial : Serialized (program moved) {} m :=
    Serialized.run (program_nested moved) {} moves
  have hheld : Held QueuePoint.nest m := Held.run (program_nested moved) {} moves
  have hwoken : Woken Starved Owing m := starved_of_asleep moved moves
  refine ⟨(hwoken.progress hheld).imp id ?_, fun hf t c l hl => ?_, ?_⟩
  · rintro hall t
    rcases hall t with hidle | ⟨c, l, hl, rfl, hempty⟩
    · exact .inl hidle
    · obtain rfl := (entry_testing moved (hserial.entry t c _ (.inr hl))).mp rfl
      exact .inr ⟨hl, hempty⟩
  · have hrank : l.rank ≤ 4 := by cases l <;> simp [QueuePoint.rank]
    obtain ⟨n, hn, hend⟩ := gives_up (program_ranked moved) hl hf
    exact ⟨n, by omega, hend⟩
  · intro hf ho x rest hq t l
    refine ⟨fun hl => ?_, fun hl => ?_⟩
    · have hempty := (hwoken.blocked hheld ho hl).2
      simp [hq] at hempty
    · obtain rfl := (entry_testing moved (hserial.entry t _ l (.inl hl))).mpr rfl
      exact take_served moved ho hf hl (congrArg BlockingQueue.mk hq)

end run

end BlockingQueue
end GWSockets
