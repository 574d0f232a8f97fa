import GWSockets.Visit

namespace GWSockets

def Response.Reportable (r : Response) : Prop := ∀ e ∈ r.error, e.getString.isSome

def Tick.Reportable (t : Tick) : Prop := ∀ k, (t.respond k).Reportable

def GLuaStep.Reportable : GLuaStep → Prop
  | .call _ => True
  | .think t => t.Reportable

def delivery (i : SocketId) (m : GWSocketMessageIn) (r : Response) : Dispatch :=
  ⟨i, m.type.callback, .socketTable i, .string m.message, (r.fields i m.type.callback).isFunction⟩

def deliveries (respond : Nat → Response) (i : SocketId) : Nat → List GWSocketMessageIn →
    List Dispatch
  | _, [] => []
  | k, m :: messages => delivery i m (respond k) :: deliveries respond i (k + 1) messages

def Dispatch.event (d : Dispatch) : LuaCallback × LuaValue × LuaValue :=
  (d.callback, d.self, d.argument)

def GWSocketMessageIn.event (i : SocketId) (m : GWSocketMessageIn) :
    LuaCallback × LuaValue × LuaValue :=
  (m.type.callback, .socketTable i, .string m.message)

def GLua.dispatchedTo (g : GLua) (i : SocketId) : List Dispatch :=
  g.dispatched.filter (fun d => d.table == i)

theorem deliveries_event (respond : Nat → Response) (i : SocketId) (k : Nat)
    (messages : List GWSocketMessageIn) :
    (deliveries respond i k messages).map Dispatch.event =
      messages.map (GWSocketMessageIn.event i) := by
  induction messages generalizing k with
  | nil => rfl
  | cons m messages ih => exact congrArg (m.event i :: ·) (ih (k + 1))

theorem deliveries_table (respond : Nat → Response) (i : SocketId) (k : Nat)
    (messages : List GWSocketMessageIn) : ∀ d ∈ deliveries respond i k messages, d.table = i := by
  induction messages generalizing k with
  | nil => simp [deliveries]
  | cons m messages ih => exact List.forall_mem_cons.mpr ⟨rfl, ih (k + 1)⟩

namespace Think

structure Served (t t' : Think) (ds : List Dispatch) : Prop where
  stack : t'.stack = t.stack
  halted : t'.halted = t.halted
  dispatched : t'.lua.dispatched = t.lua.dispatched ++ ds
  aborted : t'.lua.aborted = t.lua.aborted

theorem Served.refl (t : Think) : Served t t [] := ⟨rfl, rfl, by simp, rfl⟩

theorem Served.trans {t u v : Think} {xs ys : List Dispatch} (h : Served t u xs)
    (h' : Served u v ys) : Served t v (xs ++ ys) :=
  ⟨h'.stack.trans h.stack, h'.halted.trans h.halted,
    by rw [h'.dispatched, h.dispatched, List.append_assoc], h'.aborted.trans h.aborted⟩

theorem pcall_served {r : Response} (hr : r.Reportable) (t : Think) (n : Nat) :
    Served (t.pop (n + 1)) (t.pcall r n) [] := by
  have hs : Served (t.pop (n + 1)) ((t.pop (n + 1)).execute r.calls) [] := by
    obtain ⟨hd, ha⟩ := (GLua.calls_touches t.lua r.calls).silent
    exact ⟨rfl, rfl, by simpa [execute, pop] using hd, ha⟩
  unfold pcall
  generalize (t.pop (n + 1)).execute r.calls = u at hs
  dsimp only
  split
  · exact hs
  cases he : r.error with
  | none => exact hs
  | some e =>
    obtain ⟨err, herr⟩ := Option.isSome_iff_exists.mp (hr e he)
    have htop : ((u.push e).fromTop 1).getString = some err := herr
    simp only [htop, throwErrorNoHalt_eq]
    refine hs.trans ⟨?_, ?_, ?_, ?_⟩ <;> split <;> simp [pop, push]

theorem dispatch_served {r : Response} (hr : r.Reportable) {t : Think} {i : SocketId}
    (hs : t.stack = [.socketTable i]) (m : GWSocketMessageIn) :
    Served t (t.dispatch r 1 m) [delivery i m r] := by
  have htop : t.fromTop 1 = .socketTable i := by simp [fromTop, hs]
  unfold dispatch
  rw [htop]
  dsimp only
  generalize hu : ((t.push (r.fields i m.type.callback)).push _).push (.string m.message) = u
  have hu : u = { t with stack := [.string m.message, .socketTable i,
      r.fields i m.type.callback, .socketTable i] } := by
    rw [← hu]
    simp [push, fromBottom, hs]
  have hn : Served t ((u.note (delivery i m r)).pop 3) [delivery i m r] := by
    subst hu
    exact ⟨hs.symm, rfl, rfl, rfl⟩
  have hd : (⟨i, m.type.callback, u.fromTop 2, u.fromTop 1, (u.fromTop 3).isFunction⟩ : Dispatch) =
      delivery i m r := by
    subst hu
    rfl
  rw [hd]
  split
  · simpa using hn.trans (pcall_served hr (u.note (delivery i m r)) 2)
  · exact hn

theorem dispatches_served {respond : Nat → Response} (hr : ∀ k, (respond k).Reportable) {t : Think}
    {i : SocketId} (hs : t.stack = [.socketTable i]) (hh : t.halted = false)
    (messages : List GWSocketMessageIn)
    (hc : (messages.foldl (dispatchNext respond 1) t).lua.crash = none) :
    Served t (messages.foldl (dispatchNext respond 1) t)
      (deliveries respond i t.served messages) := by
  induction messages generalizing t with
  | nil => exact .refl t
  | cons m messages ih =>
    have ht := (dispatches_stirs t respond 1 (m :: messages)).moves.alive hc
    have hd := dispatch_served (hr t.served) hs m
    have hn : dispatchNext respond 1 t m =
        { t.dispatch (respond t.served) 1 m with served := t.served + 1 } := by
      simp [dispatchNext, running, hh, ht]
    have hd' : Served t { t.dispatch (respond t.served) 1 m with served := t.served + 1 }
      [delivery i m (respond t.served)] := ⟨hd.stack, hd.halted, hd.dispatched, hd.aborted⟩
    rw [List.foldl_cons, hn] at hc ⊢
    exact hd'.trans (ih (hd'.stack.trans hs) (hd'.halted.trans hh) hc)

theorem taken {g : GLua} {i : SocketId} (hc : (g.act i ⟨.takeMessages, {}⟩).crash = none) :
    ((g.act i ⟨.takeMessages, {}⟩).sockets i).log = (g.sockets i).log ∧
      ((g.act i ⟨.takeMessages, {}⟩).sockets i).queued = [] := by
  have hi := (GLua.act_crash_none hc).1
  rw [GLua.act_sockets_self hi]
  unfold World.step
  split
  · next hf => simp [GLua.act, hi, World.step, hf] at hc
  · exact ⟨rfl, rfl⟩

section visit

variable {t : Think} {respond : Nat → Response} {e : Entry}

structure Idle (t : Think) : Prop where
  stack : t.stack = []
  halted : t.halted = false

theorem drained_served (hr : ∀ k, (respond k).Reportable) (hg : t.lua.Registered) (ht : t.Idle)
    (hl : t.lua.socketTableReferences.lookup e.1 = some e.2)
    (hc : (drained respond t e).lua.crash = none) :
    Served { t with stack := [.socketTable e.1] } (drained respond t e)
      (deliveries respond e.1 t.served (t.lua.sockets e.1).queued) := by
  have hp : { t with lua := t.lua.act e.1 ⟨.takeMessages, {}⟩ }.referencePush e.2 =
      { t with
        lua := t.lua.act e.1 ⟨.takeMessages, {}⟩
        stack := [.socketTable e.1] } := by
    simp [referencePush, push, hg.held e.1 e.2 hl, ht.stack]
  unfold drained at hc ⊢
  rw [hp, ht.stack] at hc ⊢
  have hd := dispatches_served (t := { t with
    lua := t.lua.act e.1 ⟨.takeMessages, {}⟩, stack := [.socketTable e.1] }) hr rfl ht.halted _ hc
  exact ⟨hd.stack, hd.halted, hd.dispatched.trans (by simp), hd.aborted.trans (by simp)⟩

theorem visit_served (hr : ∀ k, (respond k).Reportable) (hg : t.lua.Registered) (ht : t.Idle)
    (hl : t.lua.socketTableReferences.lookup e.1 = some e.2)
    (hc : (visit respond t e).lua.crash = none) :
    Served t (visit respond t e)
      (deliveries respond e.1 t.served (t.lua.sockets e.1).queued) := by
  have hrun : t.running = true := by
    simp [running, ht.halted, (visit_moves hl).alive hc]
  have hv := visit_visited respond t e
  generalize visit respond t e = t' at hv hc
  have hd : ∀ {u : Think}, Served { t with stack := [.socketTable e.1] } u
      (deliveries respond e.1 t.served (t.lua.sockets e.1).queued) →
      Served t (u.pop 1) (deliveries respond e.1 t.served (t.lua.sockets e.1).queued) := by
    intro u hu
    exact ⟨by simp [pop, hu.stack, ht.stack], hu.halted, hu.dispatched, hu.aborted⟩
  cases hv with
  | skipped h => simp [hrun] at h
  | silent h hq hs =>
    rw [hq]
    exact ⟨rfl, rfl, by simp [deliveries], by simp⟩
  | broken h hd =>
    have hu := drained_served hr hg ht hl hc
    simp [running, hc, hu.halted, ht.halted] at hd
  | served h hb => exact hd (drained_served hr hg ht hl hc)
  | released h hb hq hs =>
    obtain ⟨h1, h2, h3, h4⟩ := hd (drained_served hr hg ht hl hc)
    exact ⟨h1, h2, h3, h4⟩

theorem visit_grows (hg : t.lua.Registered) (ht : t.running = true) (j : SocketId) :
    ((t.lua.act e.1 ⟨.takeMessages, {}⟩).sockets j).Grows
      ((visit respond t e).lua.sockets j) := by
  have hgrow : ((t.lua.act e.1 ⟨.takeMessages, {}⟩).sockets j).Grows
      ((drained respond t e).lua.sockets j) := GLua.Stirs.grows (hg.act _ _) drained_stirs j
  have hv := visit_visited respond t e
  generalize visit respond t e = t' at hv
  cases hv with
  | skipped h => simp [ht] at h
  | silent => exact .refl _
  | broken | served | released => exact hgrow

theorem taken_alive (ht : t.running = true) (hc : (visit respond t e).lua.crash = none) :
    (t.lua.act e.1 ⟨.takeMessages, {}⟩).crash = none := by
  have hv := visit_visited respond t e
  generalize visit respond t e = t' at hv hc
  cases hv with
  | skipped h => simp [ht] at h
  | silent => exact hc
  | broken | served | released => exact drained_stirs.moves.alive hc

end visit

end Think

namespace GLua

def Owed (g : GLua) : Prop := ∀ i,
  (g.sockets i).log.puts.map (GWSocketMessageIn.event i) =
    (g.dispatchedTo i).map Dispatch.event ++ (g.sockets i).queued.map (GWSocketMessageIn.event i)

theorem Owed.grow {g g' : GLua} (h : Owed g) (hg : ∀ i, (g.sockets i).Grows (g'.sockets i))
    (hd : g'.dispatched = g.dispatched) : Owed g' := by
  intro i
  obtain ⟨new, hp, hq⟩ := hg i
  have hto : g'.dispatchedTo i = g.dispatchedTo i := by rw [dispatchedTo, hd, dispatchedTo]
  rw [hp, hq, hto, List.map_append, List.map_append, h i, List.append_assoc]

theorem Touches.owed {g g' : GLua} (h : Touches g g') (hr : Registered g) (ho : Owed g) :
    Owed g' :=
  ho.grow (h.stirs.grows hr) h.silent.1

end GLua

namespace Think

variable {t : Think} {respond : Nat → Response} {e : Entry}

theorem Served.dispatchedTo {t' : Think} {ds : List Dispatch} (h : Served t t' ds) (i : SocketId) :
    t'.lua.dispatchedTo i = t.lua.dispatchedTo i ++ ds.filter (fun d => d.table == i) := by
  rw [GLua.dispatchedTo, h.dispatched, List.filter_append]
  rfl

theorem deliveries_self (i : SocketId) (k : Nat) (messages : List GWSocketMessageIn) :
    (deliveries respond i k messages).filter (fun d => d.table == i) =
      deliveries respond i k messages := by
  rw [List.filter_eq_self]
  intro d hd
  simp [deliveries_table respond i k messages d hd]

theorem deliveries_other {i j : SocketId} (hj : i ≠ j) (k : Nat)
    (messages : List GWSocketMessageIn) :
    (deliveries respond i k messages).filter (fun d => d.table == j) = [] := by
  rw [List.filter_eq_nil_iff]
  intro d hd
  simp [deliveries_table respond i k messages d hd, hj]

theorem visit_owed (hr : ∀ k, (respond k).Reportable) (hg : t.lua.Registered) (ht : t.Idle)
    (hl : t.lua.socketTableReferences.lookup e.1 = some e.2)
    (hc : (visit respond t e).lua.crash = none) (ho : t.lua.Owed) :
    (visit respond t e).lua.Owed := by
  have hcv := (visit_moves hl).alive hc
  have hrun : t.running = true := by simp [running, ht.halted, hcv]
  have hserved := visit_served hr hg ht hl hc
  intro i
  have hgrow : ((t.lua.act e.1 ⟨.takeMessages, {}⟩).sockets i).Grows
      ((visit respond t e).lua.sockets i) := visit_grows hg hrun i
  obtain ⟨new, hp, hq⟩ := hgrow
  rw [hp, hq, hserved.dispatchedTo]
  by_cases hi : i = e.1
  · subst hi
    obtain ⟨hlog, hempty⟩ := taken (taken_alive hrun hc)
    rw [hlog, hempty, deliveries_self]
    simp only [List.map_append, ho e.1, deliveries_event, List.nil_append]
  · rw [GLua.act_sockets_ne hi, deliveries_other (Ne.symm hi), List.append_nil]
    simp only [List.map_append, ho i, List.append_assoc]

end Think

namespace GLua

structure Exact (g : GLua) : Prop where
  registered : Registered g
  owed : Owed g
  completed : g.aborted = false

theorem Exact.init : Exact {} :=
  ⟨.init, fun i => by simp [dispatchedTo, World.new, Log.puts], rfl⟩

theorem Exact.touches {g g' : GLua} (h : Exact g) (ht : Touches g g') : Exact g' :=
  ⟨h.registered.stirs ht.stirs, ht.owed h.registered h.owed, ht.silent.2.trans h.completed⟩

theorem Exact.deleteCollected {g : GLua} (h : Exact g) : Exact g.deleteCollected :=
  ⟨h.registered.deleteCollected, h.owed, h.completed⟩

end GLua

namespace Think

variable {t : Think} {respond : Nat → Response}

structure Going (t : Think) : Prop extends t.Idle where
  exact : t.lua.Exact

theorem visit_going {e : Entry} (hr : ∀ k, (respond k).Reportable) (h : t.Going)
    (hl : t.lua.socketTableReferences.lookup e.1 = some e.2)
    (hc : (visit respond t e).lua.crash = none) : (visit respond t e).Going := by
  have hs := visit_served hr h.exact.registered h.toIdle hl hc
  refine ⟨⟨hs.stack.trans h.stack, hs.halted.trans h.halted⟩, ?_, ?_, ?_⟩
  · exact h.exact.registered.moves (visit_moves hl)
  · exact visit_owed hr h.exact.registered h.toIdle hl hc h.exact.owed
  · exact hs.aborted.trans h.exact.completed

theorem visits_going {es : List Entry} (hr : ∀ k, (respond k).Reportable) (h : t.Going)
    (hl : Listed t.lua es) (hc : (es.foldl (visit respond) t).lua.crash = none) :
    (es.foldl (visit respond) t).Going := by
  induction es generalizing t with
  | nil => exact h
  | cons e es ih =>
    have hce := (visits_moves hl.visit).alive hc
    exact ih (visit_going hr h (hl.2 e (List.mem_cons_self ..)) hce) hl.visit hc

theorem visits_others {es : List Entry} (hr : ∀ k, (respond k).Reportable) (h : t.Going)
    (hl : Listed t.lua es) (hc : (es.foldl (visit respond) t).lua.crash = none) {i : SocketId}
    (hi : i ∉ es.map Sigma.fst) :
    (es.foldl (visit respond) t).lua.dispatchedTo i = t.lua.dispatchedTo i := by
  induction es generalizing t with
  | nil => rfl
  | cons e es ih =>
    obtain ⟨hne, hi⟩ := not_or.mp (fun hm => hi (List.mem_cons.mpr hm))
    have hce := (visits_moves hl.visit).alive hc
    have hle := hl.2 e (List.mem_cons_self ..)
    have hs := visit_served hr h.exact.registered h.toIdle hle hce
    rw [List.foldl_cons, ih (visit_going hr h hle hce) hl.visit hc hi, hs.dispatchedTo,
      deliveries_other (Ne.symm hne), List.append_nil]

end Think

namespace GLua

theorem step_alive {g : GLua} {s : GLuaStep} (hc : (g.step s).crash = none) : g.crash = none := by
  have hs := step_stepped g s
  generalize g.step s = g' at hs hc
  cases hs with
  | dead => exact hc
  | called c h | broken t h | thought t h => exact h

theorem exact_step {g : GLua} (h : Exact g) {s : GLuaStep} (hr : s.Reportable)
    (hc : (g.step s).crash = none) : Exact (g.step s) := by
  have hs := step_stepped g s
  generalize g.step s = g' at hs hc
  cases hs with
  | dead => exact h
  | called c => exact h.touches (call_touches g c)
  | broken t => exact h.touches (poll_touches g t.poll)
  | thought t hg hp g' he hm =>
    subst he
    have hstart := (h.touches (poll_touches g t.poll)).deleteCollected
    exact (Think.visits_going hr ⟨⟨rfl, rfl⟩, hstart⟩ (entries_listed _ t) hc).exact

theorem exact_run {g : GLua} (h : Exact g) {ls : List GLuaStep} (hr : ∀ s ∈ ls, s.Reportable)
    (hc : (g.run ls).crash = none) : Exact (g.run ls) := by
  induction ls using List.reverseRecOn with
  | nil => exact h
  | append_singleton ls s ih =>
    rw [run, Machine.run_append] at hc ⊢
    have hls := ih (fun x hx => hr x (List.mem_append_left _ hx)) (step_alive hc)
    exact exact_step hls (hr s (by simp)) hc

theorem step_think {g : GLua} {t : Tick} (hc : (g.step (.think t)).crash = none) :
    g.step (.think t) = ((g.poll t.poll).deleteCollected.reach t
      ((g.poll t.poll).deleteCollected.entries t)).lua := by
  have hs := step_stepped g (.think t)
  generalize g.step (.think t) = g' at hs hc
  cases hs with
  | dead s h => simp [hc] at h
  | broken t h hp => simp [hc] at hp
  | thought t h hp g' he => subst he; rfl

section tick

variable {g : GLua} {t : Tick} {pre post : List Entry} {e : Entry}

theorem reach_going (h : Exact g) (hr : t.Reportable) (he : g.entries t = pre ++ e :: post)
    (hc : (g.reach t (g.entries t)).lua.crash = none) :
    (g.reach t pre).Going ∧ Think.Listed (g.reach t pre).lua (e :: post) := by
  have hl : Think.Listed g (pre ++ e :: post) := he ▸ entries_listed g t
  have hpost : Think.Listed (g.reach t pre).lua (e :: post) :=
    Think.visits_listed (t := { lua := g }) pre _ hl
  have hpre : Think.Listed g pre := by
    obtain ⟨hn, hlook⟩ := hl
    refine ⟨?_, fun x hx => hlook x (List.mem_append_left _ hx)⟩
    rw [List.map_append] at hn
    exact hn.of_append_left
  have hsplit : g.reach t (g.entries t) =
      (e :: post).foldl (Think.visit t.respond) (g.reach t pre) := by
    rw [he, reach, List.foldl_append]
    rfl
  rw [hsplit] at hc
  have hcp := (Think.visits_moves hpost).alive hc
  exact ⟨Think.visits_going (t := { lua := g }) hr ⟨⟨rfl, rfl⟩, h⟩ hpre hcp, hpost⟩

theorem reach_snoc : g.reach t (pre ++ [e]) = Think.visit t.respond (g.reach t pre) e := by
  rw [reach, List.foldl_append]
  rfl

theorem reach_served (h : Exact g) (hr : t.Reportable) (he : g.entries t = pre ++ e :: post)
    (hc : (g.reach t (g.entries t)).lua.crash = none) :
    (g.reach t (pre ++ [e])).lua.dispatched = (g.reach t pre).lua.dispatched ++
        deliveries t.respond e.1 (g.reach t pre).served ((g.reach t pre).lua.sockets e.1).queued ∧
      ((g.reach t (g.entries t)).lua.dispatchedTo e.1).map Dispatch.event =
        ((g.reach t pre).lua.sockets e.1).log.puts.map (GWSocketMessageIn.event e.1) := by
  obtain ⟨hgo, hl⟩ := reach_going h hr he hc
  have hle := hl.2 e (List.mem_cons_self ..)
  have hne : e.1 ∉ post.map Sigma.fst := (List.nodup_cons.mp hl.1).1
  have hsplit : g.reach t (g.entries t) =
      post.foldl (Think.visit t.respond) (Think.visit t.respond (g.reach t pre) e) := by
    rw [he, reach, List.foldl_append]
    rfl
  rw [hsplit] at hc ⊢
  have hce := (Think.visits_moves hl.visit).alive hc
  have hs := Think.visit_served hr hgo.exact.registered hgo.toIdle hle hce
  have hrest := Think.visits_others hr (Think.visit_going hr hgo hle hce) hl.visit hc hne
  refine ⟨by rw [reach_snoc]; exact hs.dispatched, ?_⟩
  rw [hrest, hs.dispatchedTo, Think.deliveries_self, List.map_append, deliveries_event,
    hgo.exact.owed e.1]

end tick

theorem events_dispatched_once (ls : List GLuaStep) (hr : ∀ s ∈ ls, s.Reportable)
    (hc : (run {} ls).crash = none) :
    ((run {} ls).aborted = false ∧ ∀ i,
      ((run {} ls).sockets i).log.puts.map (GWSocketMessageIn.event i) =
        ((run {} ls).dispatchedTo i).map Dispatch.event ++
          ((run {} ls).sockets i).queued.map (GWSocketMessageIn.event i)) ∧
    ∀ t : Tick, t.Reportable → ((run {} ls).step (.think t)).crash = none →
      let g := ((run {} ls).poll t.poll).deleteCollected
      (∀ i, g.Callable i → (g.sockets i).queued ≠ [] →
        ∃ reference, ⟨i, reference⟩ ∈ g.entries t) ∧
      ∀ pre e post, g.entries t = pre ++ e :: post →
        (g.reach t (pre ++ [e])).lua.dispatched = (g.reach t pre).lua.dispatched ++
          deliveries t.respond e.1 (g.reach t pre).served
            ((g.reach t pre).lua.sockets e.1).queued ∧
        (((run {} ls).step (.think t)).dispatchedTo e.1).map Dispatch.event =
          ((g.reach t pre).lua.sockets e.1).log.puts.map (GWSocketMessageIn.event e.1) := by
  have hex := exact_run .init hr hc
  refine ⟨⟨hex.completed, hex.owed⟩, ?_⟩
  intro t ht hct
  have hstart := (hex.touches (poll_touches _ t.poll)).deleteCollected
  have hanch := ((anchored_run ls).moves (poll_touches _ t.poll).stirs.moves).deleteCollected
  refine ⟨?_, ?_⟩
  · intro i hi hq
    have hm := hanch.busy i hi (.inr hq)
    obtain ⟨reference, hl⟩ := Option.isSome_iff_exists.mp (AList.lookup_isSome.mpr hm)
    exact ⟨reference, mem_entries.mpr hl⟩
  · intro pre e post he
    have hstep := step_think hct
    rw [hstep] at hct ⊢
    exact reach_served hstart ht he hct

def failedLookup : List (SocketId × Step) :=
  [(0, ⟨.complete ⟨.resolve [] (decimal 80), 1, none, []⟩ ⟨.other 1, []⟩, {}⟩)]

def failedLookupRun (error : LuaValue) : List GLuaStep :=
  [.call (.createWebSocket .webSocket [] 80 []), .call (.method 0 (.socketOpen true 1)),
    .think { poll := failedLookup
             respond := fun _ => { fields := fun _ _ => .function, error := some error } }]

theorem events_dispatched_once_string :
    (run {} (failedLookupRun (.string (ascii "callback failed")))).aborted = false :=
  (events_dispatched_once (failedLookupRun (.string (ascii "callback failed")))
    (by simp [failedLookupRun, GLuaStep.Reportable, Tick.Reportable, Response.Reportable,
      LuaValue.getString])
    (by decide +kernel)).1.1

-- The failed lookup puts onError and onDisconnected events; the first callback raises nil.
theorem raised_nil_drops_event :
    (run {} (failedLookupRun .nil)).crash = none ∧ (run {} (failedLookupRun .nil)).aborted = true ∧
      ((run {} (failedLookupRun .nil)).sockets 0).log.puts.map (GWSocketMessageIn.event 0) ≠
        ((run {} (failedLookupRun .nil)).dispatchedTo 0).map Dispatch.event ++
          ((run {} (failedLookupRun .nil)).sockets 0).queued.map (GWSocketMessageIn.event 0) := by
  decide +kernel

end GLua
end GWSockets
