import GWSockets.Anchored

namespace GWSockets

namespace Think

section stirs

variable (t : Think) (r : Response) (respond : Nat → Response)

theorem abort_stirs : GLua.Stirs t.lua t.abort.lua := .single (.noted _ _ _)

theorem note_stirs (d : Dispatch) : GLua.Stirs t.lua (t.note d).lua := .single (.noted _ _ _)

theorem throwErrorNoHalt_eq (str : Bytes) : t.throwErrorNoHalt r str =
    if r.errorNoHalt then { t with lua := { t.lua with errors := t.lua.errors ++ [str] } }
    else t := by
  unfold throwErrorNoHalt
  cases r.errorNoHalt <;> simp [push, pop, fromTop, report, LuaValue.isFunction]

theorem throwErrorNoHalt_stirs (str : Bytes) :
    GLua.Stirs t.lua (t.throwErrorNoHalt r str).lua := by
  rw [throwErrorNoHalt_eq]
  split
  · exact .single (.noted _ _ _)
  · exact .refl

theorem pcall_stirs (n : Nat) : GLua.Stirs t.lua (t.pcall r n).lua := by
  have hcalls : GLua.Stirs t.lua ((t.pop (n + 1)).execute r.calls).lua :=
    (GLua.calls_touches t.lua r.calls).stirs
  unfold pcall
  generalize (t.pop (n + 1)).execute r.calls = u at hcalls
  dsimp only
  split
  · exact hcalls
  cases r.error with
  | none => exact hcalls
  | some e =>
    dsimp only
    split
    · exact hcalls.trans (abort_stirs (u.push e))
    · exact hcalls.trans (throwErrorNoHalt_stirs (u.push e) r _)

theorem dispatch_stirs (tableIndex : Nat) (m : GWSocketMessageIn) :
    GLua.Stirs t.lua (t.dispatch r tableIndex m).lua := by
  unfold dispatch
  split
  · next i hi =>
    dsimp only
    generalize hu : ((t.push (r.fields i m.type.callback)).push _).push (.string m.message) = u
    have hl : u.lua = t.lua := by rw [← hu]; rfl
    rw [← hl]
    split
    · exact (note_stirs u _).trans (pcall_stirs (u.note _) r 2)
    · exact note_stirs u _
  · exact abort_stirs t

theorem dispatchNext_stirs (tableIndex : Nat) (m : GWSocketMessageIn) :
    GLua.Stirs t.lua (dispatchNext respond tableIndex t m).lua := by
  unfold dispatchNext
  split
  · exact dispatch_stirs t _ tableIndex m
  · exact .refl

theorem dispatches_stirs (tableIndex : Nat) (messages : List GWSocketMessageIn) :
    GLua.Stirs t.lua (messages.foldl (dispatchNext respond tableIndex) t).lua := by
  induction messages generalizing t with
  | nil => exact .refl
  | cons m messages ih => exact (dispatchNext_stirs t respond tableIndex m).trans (ih _)

end stirs

section visit

variable {t : Think} {respond : Nat → Response} {e : Entry}

theorem running_alive (h : t.running = true) : t.lua.crash = none := by
  simp only [running, Bool.and_eq_true, Option.isNone_iff_eq_none] at h
  exact h.2

def drained (respond : Nat → Response) (t : Think) (e : Entry) : Think :=
  (t.lua.sockets e.1).queued.foldl (dispatchNext respond (t.stack.length + 1))
    ({ t with lua := t.lua.act e.1 ⟨.takeMessages, {}⟩ }.referencePush e.2)

theorem drained_stirs : GLua.Stirs (t.lua.act e.1 ⟨.takeMessages, {}⟩) (drained respond t e).lua :=
  dispatches_stirs ({ t with lua := t.lua.act e.1 ⟨.takeMessages, {}⟩ }.referencePush e.2)
    respond _ _

inductive Visited (respond : Nat → Response) (t : Think) (e : Entry) : Think → Prop where
  | skipped (h : t.running = false) : Visited respond t e t
  | silent (h : t.running = true) (hq : (t.lua.sockets e.1).queued = [])
      (hs : (t.lua.act e.1 ⟨.takeMessages, {}⟩).state e.1 ≠ .disconnected) :
      Visited respond t e { t with lua := t.lua.act e.1 ⟨.takeMessages, {}⟩ }
  | broken (h : t.running = true) (hd : (drained respond t e).running = false) :
      Visited respond t e (drained respond t e)
  | served (h : t.running = true) (hd : (drained respond t e).running = true)
      (hb : (t.lua.sockets e.1).queued ≠ [] ∨
        (drained respond t e).lua.state e.1 ≠ .disconnected) :
      Visited respond t e ((drained respond t e).pop 1)
  | released (h : t.running = true) (hd : (drained respond t e).running = true)
      (hq : (t.lua.sockets e.1).queued = [])
      (hs : (drained respond t e).lua.state e.1 = .disconnected) :
      Visited respond t e { (drained respond t e).pop 1 with
        lua := (drained respond t e).lua.release e.1 e.2 }

theorem visit_visited (respond : Nat → Response) (t : Think) (e : Entry) :
    Visited respond t e (visit respond t e) := by
  unfold visit
  cases h : t.running with
  | false => exact .skipped h
  | true =>
    simp only [not_true_eq_false, if_false]
    split
    · next hq => exact .silent h hq.1 hq.2
    change Visited respond t e (if ¬ (drained respond t e).running = true then _ else _)
    cases hd : (drained respond t e).running with
    | false => exact .broken h hd
    | true =>
      simp only [not_true_eq_false, if_false]
      split
      · next hs => exact .released h hd hs.2 hs.1
      · next hs =>
        refine .served h hd ?_
        rw [not_and_or] at hs
        exact hs.symm

theorem take_moves (hl : t.lua.socketTableReferences.lookup e.1 = some e.2) :
    GLua.Moves t.lua (t.lua.act e.1 ⟨.takeMessages, {}⟩) := by
  by_cases hi : e.1 ∈ t.lua.allSockets
  · exact .single (.taken e.1 hi)
  · have hr : e.1 ∈ t.lua.socketTableReferences := AList.lookup_isSome.mp (by simp [hl])
    have hf : t.lua.act e.1 ⟨.takeMessages, {}⟩ = t.lua.fail .deletedSocket := if_neg hi
    rw [hf]
    exact .single (.lost e.1 hi hr)

theorem drained_moves (hl : t.lua.socketTableReferences.lookup e.1 = some e.2) :
    GLua.Moves t.lua (drained respond t e).lua :=
  (take_moves hl).trans drained_stirs.moves

theorem drained_lookup {j : SocketId} {n : Nat}
    (hl : t.lua.socketTableReferences.lookup j = some n) :
    (drained respond t e).lua.socketTableReferences.lookup j = some n :=
  GLua.Stirs.lookup drained_stirs (by simpa using hl)

theorem drained_empty (hq : (t.lua.sockets e.1).queued = [])
    (hd : (drained respond t e).running = true) :
    ((drained respond t e).lua.sockets e.1).queued = [] := by
  have hlua : (drained respond t e).lua = t.lua.act e.1 ⟨.takeMessages, {}⟩ := by
    rw [drained, hq]
    rfl
  have hc := running_alive hd
  rw [hlua] at hc ⊢
  rw [GLua.act_sockets_self (GLua.act_crash_none hc).1]
  exact (GLua.Anchored.taken_step _ _ hq).2

theorem visit_moves (hl : t.lua.socketTableReferences.lookup e.1 = some e.2) :
    GLua.Moves t.lua (visit respond t e).lua := by
  have hv := visit_visited respond t e
  generalize visit respond t e = t' at hv
  cases hv with
  | skipped => exact .refl
  | silent => exact take_moves hl
  | broken | served => exact drained_moves hl
  | released h hd hq hs =>
    exact (drained_moves hl).tail (.released e.1 e.2 (drained_lookup hl) hs (drained_empty hq hd))

theorem visit_lookup {j : SocketId} {n : Nat} (hj : j ≠ e.1)
    (hl : t.lua.socketTableReferences.lookup j = some n) :
    (visit respond t e).lua.socketTableReferences.lookup j = some n := by
  have hv := visit_visited respond t e
  generalize visit respond t e = t' at hv
  cases hv with
  | skipped => exact hl
  | silent => simpa using hl
  | broken | served => exact drained_lookup hl
  | released => exact (AList.lookup_erase_ne hj).trans (drained_lookup hl)

def Listed (g : GLua) (es : List Entry) : Prop :=
  (es.map Sigma.fst).Nodup ∧ ∀ e ∈ es, g.socketTableReferences.lookup e.1 = some e.2

theorem Listed.visit {es : List Entry} (h : Listed t.lua (e :: es)) :
    Listed (visit respond t e).lua es := by
  obtain ⟨hn, hl⟩ := h
  obtain ⟨hne, hn⟩ := List.nodup_cons.mp hn
  refine ⟨hn, fun x hx => visit_lookup ?_ (hl x (List.mem_cons_of_mem e hx))⟩
  rintro hxe
  exact hne (hxe ▸ List.mem_map_of_mem hx)

theorem visits_listed (pre es : List Entry) (h : Listed t.lua (pre ++ es)) :
    Listed (pre.foldl (Think.visit respond) t).lua es := by
  induction pre generalizing t with
  | nil => exact h
  | cons e pre ih => exact ih (Listed.visit h)

theorem visits_moves {es : List Entry} (h : Listed t.lua es) :
    GLua.Moves t.lua (es.foldl (Think.visit respond) t).lua := by
  induction es generalizing t with
  | nil => exact .refl
  | cons e es ih => exact (visit_moves (h.2 e (List.mem_cons_self ..))).trans (ih h.visit)

end visit
end Think

namespace GLua

theorem entries_perm (g : GLua) (t : Tick) :
    (g.entries t).Perm g.socketTableReferences.entries := by
  unfold entries
  split
  · assumption
  · exact .refl _

theorem mem_entries {g : GLua} {t : Tick} {e : Entry} :
    e ∈ g.entries t ↔ g.socketTableReferences.lookup e.1 = some e.2 :=
  (entries_perm g t).mem_iff.trans AList.mem_lookup_iff.symm

theorem entries_listed (g : GLua) (t : Tick) : Think.Listed g (g.entries t) := by
  refine ⟨?_, fun e he => mem_entries.mp he⟩
  exact ((entries_perm g t).map Sigma.fst).nodup_iff.mpr g.socketTableReferences.keys_nodup

inductive Stepped (g : GLua) : GLuaStep → GLua → Prop where
  | dead (s : GLuaStep) (h : g.crash.isSome) : Stepped g s g
  | called (c : LuaCall) (h : g.crash = none) : Stepped g (.call c) (g.call c)
  | broken (t : Tick) (h : g.crash = none) (hp : (g.poll t.poll).crash.isSome) :
      Stepped g (.think t) (g.poll t.poll)
  | thought (t : Tick) (h : g.crash = none) (hp : (g.poll t.poll).crash = none) (g' : GLua)
      (he : g' = (g.poll t.poll).deleteCollected) (hm : Moves g' (g'.reach t (g'.entries t)).lua) :
      Stepped g (.think t) (g'.reach t (g'.entries t)).lua

theorem step_stepped (g : GLua) (s : GLuaStep) : Stepped g s (g.step s) := by
  unfold step
  split
  · next hc => exact .dead s hc
  next hc =>
  have hc : g.crash = none := by simpa using hc
  cases s with
  | call c => exact .called c hc
  | think t =>
    dsimp only [webSocketThink]
    split
    · next hp => exact .broken t hc hp
    · next hp =>
      refine .thought t hc (by simpa using hp) _ rfl ?_
      exact Think.visits_moves (t := { lua := _ }) (entries_listed _ t)

theorem Registered.step {g : GLua} (h : Registered g) (s : GLuaStep) : Registered (g.step s) := by
  have hs := step_stepped g s
  generalize g.step s = g' at hs
  cases hs with
  | dead => exact h
  | called c => exact h.stirs (call_touches g c).stirs
  | broken t => exact h.stirs (poll_touches g t.poll).stirs
  | thought t hc hp g' he hm =>
    subst he
    exact ((h.stirs (poll_touches g t.poll).stirs).deleteCollected).moves hm

theorem Anchored.step {g : GLua} (h : Anchored g) (s : GLuaStep) : Anchored (g.step s) := by
  have hs := step_stepped g s
  generalize g.step s = g' at hs
  cases hs with
  | dead => exact h
  | called c => exact h.moves (call_touches g c).stirs.moves
  | broken t => exact h.moves (poll_touches g t.poll).stirs.moves
  | thought t hc hp g' he hm =>
    subst he
    exact ((h.moves (poll_touches g t.poll).stirs.moves).deleteCollected).moves hm

theorem registered_run (ls : List GLuaStep) : Registered (run {} ls) :=
  Machine.always_invariant (fun _ s h => h.step s) .init ls

theorem anchored_run (ls : List GLuaStep) : Anchored (run {} ls) :=
  Machine.always_invariant (fun _ s h => h.step s) .init ls

end GLua
end GWSockets
