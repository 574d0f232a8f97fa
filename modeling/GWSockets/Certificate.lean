import GWSockets.Isolation
import GWSockets.Protocol

namespace GWSockets

def Event.uses : Event → Bool
  | .put message => message.type == .connected
  | .started op => op.kind.isWrite
  | _ => false

theorem unused_put {e : Event} (h : e.uses = false) (m : GWSocketMessageIn) (he : e = .put m) :
    m.type ≠ .connected := by
  subst he
  simpa [Event.uses] using h

theorem unused_handed {e : Event} (h : e.uses = false) : e.handed = none := by
  cases e with
  | started op => cases hk : op.kind <;> simp_all [Event.uses, Event.handed, OperationKind.isWrite]
  | _ => rfl

namespace World

section streams

variable {w w₁ : World}

theorem checkWriting_stream (w : World) (o : Outcome) :
    (w.checkWriting o).kind = w.kind ∧ (w.checkWriting o).ws = w.ws := by
  have hc := checkWriting_checked w o
  generalize w.checkWriting o = w' at hc
  cases hc <;> exact ⟨rfl, rfl⟩

theorem settled_stream {w₁ : World} {op : Operation} {ec : ErrorCode} (hw : w.Settled op ec w₁) :
    w₁.kind = w.kind ∧ (w₁.ws = w.ws ∨ w₁.ws = some w.freshStream) := by
  rcases hw with rfl | ⟨-, rfl⟩
  · exact ⟨rfl, .inl rfl⟩
  · exact ⟨rfl, .inr rfl⟩

theorem step_stream (w : World) (s : Step) : (w.step s).kind = w.kind ∧
    ((w.step s).ws = w.ws ∨ (w.step s).ws = some w.freshStream) := by
  have hkeep : ∀ {v : World} (o : Outcome), v.kind = w.kind → v.ws = w.ws →
      (v.checkWriting o).kind = w.kind ∧
        ((v.checkWriting o).ws = w.ws ∨ (v.checkWriting o).ws = some w.freshStream) := by
    intro v o hk hws
    obtain ⟨h1, h2⟩ := checkWriting_stream v o
    exact ⟨h1.trans hk, .inl (h2.trans hws)⟩
  have he := step_effect w s
  generalize w.step s = w' at he
  cases he with
  | opened clear o hs => simp [openSocket_toGWSocket clear hs]
  | written message binary o => exact hkeep o rfl rfl
  | requestedConnected o => exact hkeep o rfl rfl
  | connected op ec o => exact hkeep (v := (w.finish op ec).establish) o rfl rfl
  | drained op ec o => exact hkeep (v := (w.finish op ec).release) o rfl rfl
  | dropped op ec o w₁ hmem hlive hkind hcause hstate hw => exact settled_stream hw
  | failed op ec o w₁ message hmem hlive hkind hcause hstate hw =>
    simpa using @settled_stream w w₁ op ec hw
  | advanced op ec o w₁ kind hmem hlive hec hop hlast hkind hw =>
    rcases hw with rfl | ⟨-, rfl⟩
    · exact ⟨rfl, .inr rfl⟩
    · exact ⟨rfl, .inl rfl⟩
  | closedNow | rejected | shut => simp
  | _ => exact ⟨rfl, .inl rfl⟩

end streams

structure Secured (w : World) : Prop where
  kind : w.kind = .sslWebSocket true
  stream : ∀ stream, w.ws = some stream →
    stream.verifyCallback = true ∧ stream.generation ≤ w.generation

theorem Secured.step {w : World} (h : w.Secured) (s : Step) : (w.step s).Secured := by
  obtain ⟨hk, hws⟩ := step_stream w s
  have hle := generation_le_run w [s]
  refine ⟨hk.trans h.kind, fun stream hstream => ?_⟩
  rcases hws with hws | hws <;> rw [hws] at hstream
  · obtain ⟨hv, hg⟩ := h.stream stream hstream
    exact ⟨hv, Nat.le_trans hg hle⟩
  · obtain rfl := Option.some.inj hstream
    exact ⟨by simp [freshStream, h.kind], hle⟩

theorem secured_run (host : Bytes) (port : Nat) (path : Bytes) (ls : List Step) :
    ((new (.sslWebSocket true) host port path).run ls).Secured :=
  Machine.always_invariant (fun _ s h => h.step s) ⟨rfl, by simp [new]⟩ ls

def Spent (w : World) (generation : Nat) : Prop :=
  generation ≤ w.generation ∧ (w.generation = generation → w.state.closable = false)

section spent

variable {w v : World} {g : Nat}

theorem Spent.not_connected (h : w.Spent g) : ¬ (w.state = .connected ∧ w.generation = g) := by
  rintro ⟨hs, hg⟩
  have hc := h.2 hg
  rw [hs] at hc
  cases hc

def Unused (w v : World) (g : Nat) : Prop :=
  ∃ added, v.log = w.log ++ added ∧ ∀ e ∈ added, e.1 = g → e.2.uses = false

theorem Unused.trans {u : World} (h : Unused w v g) (h' : Unused v u g) : Unused w u g := by
  obtain ⟨xs, hx, hxs⟩ := h
  obtain ⟨ys, hy, hys⟩ := h'
  refine ⟨xs ++ ys, by rw [hy, hx, List.append_assoc], fun e he => ?_⟩
  exact (List.mem_append.mp he).elim (hxs e) (hys e)

theorem unused_past (h : g < w.generation) {added : Log} (he : Extends w v added) :
    Unused w v g :=
  ⟨added, he.log, fun e hm hg => absurd (he.stamped e hm).1 (by omega)⟩

theorem unused_closing (hc : w.state.closable = false) (s : Step) :
    Unused w (w.step s) w.generation ∧
      ((w.step s).generation = w.generation → (w.step s).state.closable = false) := by
  have hn : ∀ {p : Prop}, w.state.closable = true → p := fun h => by simp [hc] at h
  have hb : ∀ {u : World} (o : Outcome), u.state = w.state → u.checkWriting o = u := by
    intro u o hu
    refine checkWriting_blocked ?_ ?_ o <;> rw [hu] <;> intro hs <;>
      simp [hs, SocketState.closable] at hc
  have hset : ∀ {u : World} {op : Operation} {ec : ErrorCode}, w.Settled op ec u →
      u.log = w.log ++ [(w.generation, .completed op ec)] := by
    rintro u op ec (rfl | ⟨-, rfl⟩) <;> rfl
  have he := step_effect w s
  generalize w.step s = w' at he
  cases he with
  | idle | configured | taken | received =>
    exact ⟨⟨[], (List.append_nil _).symm, by simp⟩, fun _ => hc⟩
  | opened clear o hs =>
    refine ⟨⟨_, openSocket_log clear hs, by simp⟩, fun hg => ?_⟩
    simp [openSocket_generation clear hs] at hg
  | written message binary o =>
    rw [hb (u := w.enqueue message binary) o rfl]
    exact ⟨⟨_, enqueue_log w message binary, by simp [Event.uses]⟩, fun _ => hc⟩
  | cleared => exact ⟨⟨_, forget_log w, by simp [Event.uses]⟩, fun _ => hc⟩
  | requested o hs | requestedConnected o hs => exact hn (by simp [hs, SocketState.closable])
  | closedNow reason o hs => exact hn hs
  | verified => exact ⟨⟨_, emit_log w _, by simp [Event.uses]⟩, fun _ => hc⟩
  | rejected error o message hok hs => exact hn hs
  | stale op ec => exact ⟨⟨_, finish_log w op ec, by simp [Event.uses]⟩, fun _ => hc⟩
  | dropped op ec o w₁ hmem hlive hkind hcause hstate hw =>
    exact ⟨⟨_, hset hw, by simp [Event.uses]⟩, fun _ => hw.state ▸ hc⟩
  | shut op ec o reason =>
    have hlog : ((w.finish op ec).doClose reason).log = w.log ++ _ :=
      (doClose_log (w.finish op ec) reason).trans (List.append_assoc w.log _ _)
    exact ⟨⟨_, hlog, by simp [Event.uses]⟩, fun hg => by simp at hg⟩
  | failed op ec o w₁ message hmem hlive hkind hcause hs => exact hn hs
  | advanced op ec o w₁ kind hmem hlive hec hop hlast hkind hw =>
    have hlog : w₁.log = w.log ++ [(w.generation, .completed op ec)] ∧ w₁.state = w.state := by
      rcases hw with rfl | ⟨-, rfl⟩ <;> exact ⟨rfl, rfl⟩
    refine ⟨⟨[(w.generation, .completed op ec),
      (w₁.generation, .started ⟨kind, w₁.generation, w₁.ws, []⟩)], ?_, ?_⟩, fun _ => hlog.2 ▸ hc⟩
    · rw [start_log, hlog.1, List.append_assoc]
      rfl
    · simp [Event.uses, (connecting_only hkind).2.1]
  | connected op ec o hmem hlive hec hkind hs => exact hn (by simp [hs, SocketState.closable])
  | message op ec o =>
    have hlog : (w.finish op ec).deliver.log = w.log ++ _ :=
      (deliver_log (w.finish op ec)).trans (List.append_assoc w.log _ _)
    exact ⟨⟨_, hlog, by simp [Event.uses, OperationKind.isWrite]⟩, fun _ => hc⟩
  | drained op ec o =>
    rw [hb (u := (w.finish op ec).release) o rfl]
    exact ⟨⟨_, finish_log w op ec, by simp [Event.uses]⟩, fun _ => hc⟩

theorem Spent.step (h : w.Spent g) (s : Step) : Unused w (w.step s) g ∧ (w.step s).Spent g := by
  have hle := generation_le_run w [s]
  rcases Nat.lt_or_eq_of_le h.1 with hlt | rfl
  · obtain ⟨added, he⟩ := extends_step w s
    have hlt' : g < (w.step s).generation := Nat.lt_of_lt_of_le hlt hle
    exact ⟨unused_past hlt he, Nat.le_of_lt hlt', fun hg => absurd hg (Nat.ne_of_gt hlt')⟩
  · obtain ⟨hu, hc⟩ := unused_closing (h.2 rfl) s
    exact ⟨hu, hle, hc⟩

theorem Spent.run (h : w.Spent g) (ls : List Step) :
    Unused w (w.run ls) g ∧ (w.run ls).Spent g := by
  induction ls generalizing w with
  | nil => exact ⟨⟨[], (List.append_nil _).symm, by simp⟩, h⟩
  | cons s ls ih =>
    obtain ⟨hu, hs⟩ := h.step s
    obtain ⟨hu', hs'⟩ := ih hs
    exact ⟨hu.trans hu', hs'⟩

end spent

section rejected

variable {w : World} {stream : Stream} {error : X509Error}

theorem verify_step (hf : w.fault = false) (hws : w.ws = some stream)
    (hv : stream.verifyCallback = true) (herror : error ≠ .ok) (o : Outcome) :
    ∃ message, w.step ⟨.verify error, o⟩ =
      if w.state.closable then
        ((w.emit (.verified (some stream) error false)).put ⟨.error, message⟩).doClose message
      else w.emit (.verified (some stream) error false) := by
  have hstep : w.step ⟨.verify error, o⟩ = w.verify error := by simp only [step, hf]; rfl
  rw [hstep]
  exact verify_rejects hws hv herror

theorem rejected_spent (hf : w.fault = false) (h : w.Secured) (hws : w.ws = some stream)
    (herror : error ≠ .ok) (o : Outcome) :
    (w.step ⟨.verify error, o⟩).Spent stream.generation := by
  obtain ⟨hv, hle⟩ := h.stream stream hws
  obtain ⟨message, he⟩ := verify_step hf hws hv herror o
  rw [he]
  cases hc : w.state.closable with
  | true => exact ⟨Nat.le_succ_of_le hle, fun _ => rfl⟩
  | false => exact ⟨hle, fun _ => hc⟩

theorem rejected_word (hf : w.fault = false) (hws : w.ws = some stream)
    (hv : stream.verifyCallback = true) (herror : error ≠ .ok) (o : Outcome) (h : w.Conforms)
    (hs : w.state = .connecting) :
    (w.step ⟨.verify error, o⟩).log.cut.words[w.log.opens]? = some [.error, .disconnected] := by
  obtain ⟨message, he⟩ := verify_step hf hws hv herror o
  have hcut : (w.step ⟨.verify error, o⟩).log.cut =
      ⟨w.log.cut.earlier, [.error, .disconnected]⟩ := by
    have hc : w.state.closable = true := by rw [hs]; rfl
    rw [he, if_pos hc, doClose_log, put_log, emit_log, cut_append, cut_append, cut_append]
    simp [Cut.next, h.fresh hs]
  rw [hcut, ← cut_opens]
  simp [Cut.words]

theorem finished_rejected {rest : List GWSMessageInType} (h : Finished (.error :: rest)) :
    rest = [.disconnected] := by
  obtain ⟨v, e, hv, he, hr⟩ := h
  rcases hv with rfl | ⟨n, rfl⟩
  · rcases he with rfl | rfl
    · simp at hr
    · simpa using hr
  · simp at hr

theorem Conforms.rejected (h : w.Conforms) {n : Nat} {rest : List GWSMessageInType}
    (hw : w.log.cut.words[n]? = some (.error :: rest)) : rest = [.disconnected] := by
  obtain ⟨past, hp, hcase⟩ := conforms_words h
  have hm := List.mem_of_getElem? hw
  rw [hp] at hm
  have hopening : ¬ Opening (.error :: rest) :=
    fun ho => by simpa using opening_mem ho .error (by simp)
  rcases List.mem_cons.mp hm with hnil | hm
  · cases hnil
  rcases hcase with ⟨hf, -⟩ | ⟨us, u, rfl, hf, ho, -⟩
  · exact finished_rejected (hf _ hm)
  · rcases List.mem_append.mp hm with hm | hm
    · exact finished_rejected (hf _ hm)
    · exact absurd (List.mem_singleton.mp hm ▸ ho) hopening

end rejected

theorem rejected_certificate_ends_attempt (host : Bytes) (port : Nat) (path : Bytes)
    (ls later : List Step) (error : X509Error) (o : Outcome) (stream : Stream)
    (hb : ((new (.sslWebSocket true) host port path).run
      (ls ++ ⟨.verify error, o⟩ :: later)).generation < 2 ^ 32)
    (hf : ((new (.sslWebSocket true) host port path).run ls).fault = false)
    (hws : ((new (.sslWebSocket true) host port path).run ls).ws = some stream) :
    let w := (new (.sslWebSocket true) host port path).run ls
    let v := (w.step ⟨.verify error, o⟩).run later
    (error ≠ .ok → w.generation = stream.generation → w.state = .connecting →
      v.log.cut.words[w.log.opens]? = some [.error, .disconnected]) ∧
    ((w.verifyCertificate error).1 = false →
      ¬ (v.state = .connected ∧ v.generation = stream.generation) ∧
      ∃ added, v.log = (w.step ⟨.verify error, o⟩).log ++ added ∧
        ∀ e ∈ added, e.1 = stream.generation →
          (∀ m, e.2 = .put m → m.type ≠ .connected) ∧ e.2.handed = none) := by
  intro w v
  have hsec : w.Secured := secured_run host port path ls
  have hv := (hsec.stream stream hws).1
  constructor
  · intro herror hg hs
    have ha := accounted_new (.sslWebSocket true) host port path
    have hall := along_unaliased ha hb
    have hrun : (new (.sslWebSocket true) host port path).run
        (ls ++ ⟨.verify error, o⟩ :: later) = v := Machine.run_append ..
    have hc : v.Conforms := hrun ▸ conforms_run (conforms_new ..) ha hall
    have hcw : w.Conforms := conforms_run (conforms_new ..) ha (Machine.along_append.mp hall).1
    have hword := rejected_word hf hws hv herror o hcw hs
    obtain ⟨added, he⟩ := extends_run (w.step ⟨.verify error, o⟩) later
    obtain ⟨rest, hrest⟩ := words_grow _ hword added
    have hlog : v.log = (w.step ⟨.verify error, o⟩).log ++ added := he.log
    rw [← hlog] at hrest
    obtain rfl : rest = [] := by simpa using hc.rejected hrest
    exact hrest
  · intro hr
    have herror : error ≠ .ok := by
      rintro rfl
      cases hr
    obtain ⟨⟨added, hlog, hadded⟩, hspent⟩ := (rejected_spent hf hsec hws herror o).run later
    refine ⟨hspent.not_connected, added, hlog, fun e he hg => ?_⟩
    have hu := hadded e he hg
    exact ⟨unused_put hu, unused_handed hu⟩

def tlsRun : List Step :=
  [⟨.openSocket true, {}⟩,
    ⟨.complete ⟨.resolve [] (decimal 443), 1, none, []⟩ ⟨.success, []⟩, {}⟩,
    ⟨.complete ⟨.connect, 1, some (sslStream 0 1), []⟩ ⟨.success, []⟩, {}⟩]

def handshakeSucceeds : List Step :=
  [⟨.complete ⟨.sslHandshake (ascii ":443") [], 1, some (sslStream 0 1), []⟩ ⟨.success, []⟩, {}⟩,
    ⟨.openSocket true, {}⟩]

theorem rejected_certificate_ends_handshake :
    let w := (new (.sslWebSocket true) [] 443 []).run tlsRun
    let v := (w.step ⟨.verify .certHasExpired, {}⟩).run handshakeSucceeds
    v.log.cut.words = [[], [.error, .disconnected], []] ∧
      v.log.cut.words[w.log.opens]? = some [.error, .disconnected] :=
  ⟨by decide +kernel, (rejected_certificate_ends_attempt [] 443 [] tlsRun handshakeSucceeds
    .certHasExpired {} (sslStream 0 1)
    (lt_of_eq_of_lt (b := 3) (by decide +kernel) (by decide)) (by decide +kernel)
    (by decide +kernel)).1 (by decide) (by decide +kernel) (by decide +kernel)⟩

end World
end GWSockets
