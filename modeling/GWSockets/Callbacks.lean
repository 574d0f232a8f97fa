import GWSockets.Dispatch
import GWSockets.Outstanding
import GWSockets.Protocol

namespace GWSockets

inductive Phase where
  | waiting
  | established
  | failing
deriving DecidableEq, Repr

def Phase.next : Phase → LuaCallback → Option Phase
  | .waiting, .onConnected => some .established
  | .waiting, .onError => some .failing
  | .waiting, .onDisconnected => some .waiting
  | .established, .onMessage => some .established
  | .established, .onError => some .failing
  | .established, .onDisconnected => some .waiting
  | .failing, .onDisconnected => some .waiting
  | _, _ => none

def Phase.follow (p : Phase) (callbacks : List LuaCallback) : Option Phase :=
  callbacks.foldlM Phase.next p

def Phase.Agrees : Phase → SocketState → Prop
  | .waiting, s => s ≠ .connected
  | .established, s => s ≠ .disconnected ∧ s ≠ .connecting
  | .failing, _ => False

namespace Phase

theorem follow_append (p : Phase) (xs ys : List LuaCallback) :
    p.follow (xs ++ ys) = (p.follow xs).bind (fun q => q.follow ys) := List.foldlM_append

theorem follow_left {p q : Phase} {xs ys : List LuaCallback} (h : p.follow (xs ++ ys) = some q) :
    ∃ r, p.follow xs = some r := by
  rw [follow_append] at h
  obtain ⟨r, hr, -⟩ := Option.bind_eq_some_iff.mp h
  exact ⟨r, hr⟩

theorem follow_trans {p q : Phase} {xs : List LuaCallback} (h : p.follow xs = some q)
    (ys : List LuaCallback) : p.follow (xs ++ ys) = q.follow ys := by
  rw [follow_append, h, Option.bind_some]

theorem follow_messages (n : Nat) :
    Phase.established.follow (List.replicate n .onMessage) = some .established := by
  induction n with
  | zero => rfl
  | succ n ih => exact ih

theorem follow_opening {u : List GWSMessageInType} (h : Opening u) :
    Phase.waiting.follow (u.map GWSMessageInType.callback) =
      some (if u = [] then .waiting else .established) := by
  rcases h with rfl | ⟨n, rfl⟩
  · rfl
  · rw [List.map_cons, List.map_replicate, if_neg (List.cons_ne_nil _ _)]
    exact follow_messages n

theorem follow_ended (p : Phase) (hp : p ≠ .failing) {e : List GWSMessageInType}
    (he : e = [] ∨ e = [.error]) :
    p.follow ((e ++ [GWSMessageInType.disconnected]).map GWSMessageInType.callback) =
      some .waiting := by
  rcases he with rfl | rfl <;> cases p <;> first | rfl | exact absurd rfl hp

theorem follow_finished {u : List GWSMessageInType} (h : Finished u) :
    Phase.waiting.follow (u.map GWSMessageInType.callback) = some .waiting := by
  obtain ⟨v, e, hv, he, rfl⟩ := h
  rw [List.append_assoc, List.map_append, follow_trans (follow_opening hv)]
  refine follow_ended _ ?_ he
  split <;> simp

theorem follow_flatten {us : List (List GWSMessageInType)} (h : ∀ u ∈ us, Finished u) :
    Phase.waiting.follow (us.flatten.map GWSMessageInType.callback) = some .waiting := by
  induction us with
  | nil => rfl
  | cons u us ih =>
    obtain ⟨hu, hus⟩ := List.forall_mem_cons.mp h
    rw [List.flatten_cons, List.map_append, follow_trans (follow_finished hu)]
    exact ih hus

end Phase

namespace World

structure Orderly (w : World) : Prop where
  conforms : w.Conforms
  accounted : w.Accounted

theorem Orderly.current {w : World} (h : w.Orderly) (hs : w.state = .connected) :
    w.log.cut.current ≠ [] := by
  obtain ⟨hread, -⟩ := h.accounted.outstanding.connected hs
  exact h.conforms.reading (by omega)

theorem Orderly.follow {w : World} (h : w.Orderly) : ∃ p : Phase, p.Agrees w.state ∧
    Phase.waiting.follow (w.log.puts.map (fun m => m.type.callback)) = some p := by
  have hputs : w.log.puts.map (fun m => m.type.callback) =
      w.log.cut.words.flatten.map GWSMessageInType.callback := by
    rw [cut_puts, List.map_map]
    rfl
  rw [hputs]
  by_cases hs : w.state = .disconnected
  · refine ⟨.waiting, by simp [Phase.Agrees, hs], ?_⟩
    rcases h.conforms.idle hs with hn | ⟨⟨past, hp, hf⟩, hc⟩
    · rw [hn]
      rfl
    · rw [Cut.words, hp, List.cons_append, List.flatten_cons, List.nil_append]
      refine Phase.follow_flatten (fun u hu => ?_)
      rcases List.mem_append.mp hu with hu | hu
      · exact hf u hu
      · exact List.mem_singleton.mp hu ▸ hc
  · obtain ⟨⟨past, hp, hf⟩, ho⟩ := h.conforms.busy hs
    refine ⟨if w.log.cut.current = [] then .waiting else .established, ?_, ?_⟩
    · split
      · next hn => exact fun hc => h.current hc hn
      · next hn => exact ⟨hs, fun hc => hn (h.conforms.fresh hc)⟩
    · rw [Cut.words, hp, List.cons_append, List.flatten_cons, List.nil_append, List.flatten_append,
        List.map_append, Phase.follow_trans (Phase.follow_flatten hf), List.flatten_singleton]
      exact Phase.follow_opening ho

end World

namespace GLua

section sockets

variable {I : World → Prop} {g g' : GLua}

theorem sockets_act (hstep : ∀ w s, I w → I (w.step s)) (h : ∀ i, I (g.sockets i)) (i : SocketId)
    (s : Step) : ∀ j, I ((g.act i s).sockets j) := by
  intro j
  by_cases hi : i ∈ g.allSockets
  · by_cases hj : j = i
    · subst hj
      rw [act_sockets_self hi]
      exact hstep _ s (h j)
    · rw [act_sockets_ne hj]
      exact h j
  · simpa [act, hi] using h j

theorem sockets_move (hnew : ∀ kind host port path, I (.new kind host port path))
    (hstep : ∀ w s, I w → I (w.step s)) (h : ∀ i, I (g.sockets i)) (hm : Move g g') :
    ∀ i, I (g'.sockets i) := by
  cases hm with
  | stirred g' hs =>
    cases hs with
    | touched g' ht =>
      cases ht with
      | created kind host port path =>
        intro j
        by_cases hj : j = g.created
        · subst hj
          simpa [createWebSocket] using hnew kind host port path
        · simpa [createWebSocket, hj] using h j
      | acted i s | opened i => exact sockets_act hstep h i _
      | kept | collected | freed => exact h
    | noted => exact h
  | taken i => exact sockets_act hstep h i _
  | lost | released => exact h

theorem sockets_moves (hnew : ∀ kind host port path, I (.new kind host port path))
    (hstep : ∀ w s, I w → I (w.step s)) (h : ∀ i, I (g.sockets i)) (hm : Moves g g') :
    ∀ i, I (g'.sockets i) :=
  Machine.closure_invariant (I := fun v : GLua => ∀ i, I (v.sockets i))
    (fun _ _ hv hv' => sockets_move hnew hstep hv hv') h hm

theorem sockets_run (hnew : ∀ kind host port path, I (.new kind host port path))
    (hstep : ∀ w s, I w → I (w.step s)) (ls : List GLuaStep) (i : SocketId) :
    I ((run {} ls).sockets i) := by
  refine Machine.always_invariant (I := fun v : GLua => ∀ i, I (v.sockets i)) ?_
    (fun _ => hnew .webSocket [] 0 []) ls i
  intro g s h
  have hs := step_stepped g s
  generalize g.step s = g' at hs
  cases hs with
  | dead => exact h
  | called c => exact sockets_moves hnew hstep h (call_touches g c).stirs.moves
  | broken t => exact sockets_moves hnew hstep h (poll_touches g t.poll).stirs.moves
  | thought t hc hp g' he hm =>
    subst he
    have hpoll : ∀ i, I ((g.poll t.poll).sockets i) :=
      sockets_moves hnew hstep h (poll_touches g t.poll).stirs.moves
    exact sockets_moves (g := (g.poll t.poll).deleteCollected) hnew hstep hpoll hm

end sockets

theorem orderly_run (ls : List GLuaStep) (i : SocketId)
    (hb : ((run {} ls).sockets i).generation < 2 ^ 32) : ((run {} ls).sockets i).Orderly := by
  refine sockets_run (I := fun w => w.generation < 2 ^ 32 → w.Orderly) ?_ ?_ ls i hb
  · exact fun kind host port path _ => ⟨World.conforms_new .., World.accounted_new ..⟩
  · intro w s h hlt
    have hw := Nat.lt_of_le_of_lt (World.generation_le_run w [s]) hlt
    obtain ⟨hc, ha⟩ := h hw
    have hu := World.unaliased_of_lt ha hw s
    exact ⟨World.conforms_step hc ha s hu, World.accounted_step ha s hu⟩

def callbacks (g : GLua) (i : SocketId) : List LuaCallback :=
  (g.dispatchedTo i).map Dispatch.callback

theorem Owed.callbacks {g : GLua} (h : Owed g) (i : SocketId) :
    (g.sockets i).log.puts.map (fun m => m.type.callback) =
      g.callbacks i ++ (g.sockets i).queued.map (fun m => m.type.callback) := by
  have hi := congrArg (List.map Prod.fst) (h i)
  simpa [GLua.callbacks, Function.comp_def, GWSocketMessageIn.event, Dispatch.event] using hi

theorem callbacks_follow_protocol (ls : List GLuaStep) (hr : ∀ s ∈ ls, s.Reportable)
    (hc : (run {} ls).crash = none) (i : SocketId)
    (hb : ((run {} ls).sockets i).generation < 2 ^ 32) :
    ∃ p : Phase, Phase.waiting.follow ((run {} ls).callbacks i) = some p ∧
      (((run {} ls).sockets i).queued = [] → p.Agrees ((run {} ls).state i)) := by
  have howed := (exact_run .init hr hc).owed.callbacks i
  obtain ⟨p, hagrees, hp⟩ := (orderly_run ls i hb).follow
  rw [howed] at hp
  obtain ⟨r, hfollow⟩ := Phase.follow_left hp
  refine ⟨r, hfollow, fun hq => ?_⟩
  rw [hq, List.map_nil, List.append_nil, hfollow] at hp
  obtain rfl := Option.some.inj hp
  exact hagrees

theorem callbacks_follow_protocol_failed :
    (run {} (failedLookupRun (.string (ascii "callback failed")))).callbacks 0 =
        [.onError, .onDisconnected] ∧
      ∃ p : Phase, Phase.waiting.follow
        ((run {} (failedLookupRun (.string (ascii "callback failed")))).callbacks 0) = some p ∧
        (((run {} (failedLookupRun (.string (ascii "callback failed")))).sockets 0).queued = [] →
          p.Agrees ((run {} (failedLookupRun (.string (ascii "callback failed")))).state 0)) := by
  refine ⟨by decide +kernel, ?_⟩
  exact callbacks_follow_protocol (failedLookupRun (.string (ascii "callback failed")))
    (by simp [failedLookupRun, GLuaStep.Reportable, Tick.Reportable, Response.Reportable,
      LuaValue.getString])
    (by decide +kernel) 0 (lt_of_eq_of_lt (b := 2) (by decide +kernel) (by decide))

end GLua
end GWSockets
