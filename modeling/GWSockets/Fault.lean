import GWSockets.Handshake

namespace GWSockets
namespace World

def Plugged (w : World) : Prop :=
  w.fault = false → w.state = .connected ∨ (∃ op ∈ w.pending, op.kind.usesStream = true) →
    w.ws.isSome = true

section plugged

variable {w v : World} {op : Operation} {ec : ErrorCode}

theorem plugged_new (kind : SocketClass) (host : Bytes) (port : Nat) (path : Bytes) :
    (new kind host port path).Plugged := by
  simp [Plugged, new]

theorem plugged_of_stream (h : w.ws.isSome = true) : w.Plugged := fun _ _ => h

theorem start_fault (w : World) (kind : OperationKind) :
    (w.start kind).fault = (w.fault || w.ws.isNone) := rfl

theorem plugged_start (w : World) (kind : OperationKind) : (w.start kind).Plugged := by
  intro hf _
  rw [start_fault, Bool.or_eq_false_iff] at hf
  simpa [Option.isNone_eq_false_iff] using hf.2

theorem start_faultless (kind : OperationKind) (h : w.ws.isSome = true) :
    (w.start kind).fault = w.fault := by
  rw [start_fault, Option.isNone_eq_false_iff.mpr h, Bool.or_false]

@[simp] theorem finish_fault (w : World) (op : Operation) (ec : ErrorCode) :
    (w.finish op ec).fault = w.fault := rfl

@[simp] theorem renew_fault (w : World) : w.renew.fault = w.fault := rfl

@[simp] theorem release_fault (w : World) : w.release.fault = w.fault := rfl

theorem establish_fault (w : World) : w.establish.fault = (w.fault || w.ws.isNone) := rfl

theorem deliver_fault (w : World) : w.deliver.fault = (w.fault || w.ws.isNone) := rfl

theorem plugged_mono (h : w.Plugged) (hf : v.fault = w.fault) (hws : v.ws = w.ws)
    (hs : v.state = .connected → w.state = .connected)
    (hp : ∀ op ∈ v.pending, op.kind.usesStream = true → ∃ x ∈ w.pending, x.kind.usesStream = true) :
    v.Plugged := by
  intro hv hb
  rw [hws]
  refine h (hf ▸ hv) ?_
  rcases hb with hb | ⟨op, hm, hk⟩
  · exact .inl (hs hb)
  · exact .inr (hp op hm hk)

theorem plugged_doClose (h : w.Plugged) (reason : Bytes) : (w.doClose reason).Plugged :=
  plugged_mono h rfl rfl (by simp) (fun op hm hk => ⟨op, hm, hk⟩)

theorem plugged_finish (h : w.Plugged) (op : Operation) (ec : ErrorCode) :
    (w.finish op ec).Plugged :=
  plugged_mono h rfl rfl id (fun x hm hk => ⟨x, List.mem_of_mem_erase hm, hk⟩)

theorem plugged_settled (h : w.Plugged) (hw : w.Settled op ec v) : v.Plugged := by
  rcases hw with rfl | ⟨-, rfl⟩
  · exact plugged_finish h op ec
  · exact plugged_of_stream rfl

theorem plugged_checkWriting (h : w.Plugged) (o : Outcome) : (w.checkWriting o).Plugged := by
  have hc := checkWriting_checked w o
  generalize w.checkWriting o = w' at hc
  cases hc with
  | idle => exact h
  | next | marker => exact plugged_start _ _
  | abandoned m rest =>
    refine plugged_doClose ?_ _
    exact fun hf hb => h hf hb

theorem checkWriting_faultless (h : w.ws.isSome = true) (o : Outcome) :
    (w.checkWriting o).fault = w.fault := by
  have hc := checkWriting_checked w o
  generalize w.checkWriting o = w' at hc
  cases hc with
  | idle => rfl
  | next m rest => exact start_faultless (w := { w with
      writing := true, writeQueue := rest, messageToWrite := m.message }) _ h
  | marker m rest => exact start_faultless (w := { w with
      writing := true, writeQueue := rest, state := .disconnecting }) _ h
  | abandoned => rfl

theorem plugged_step (h : w.Plugged) (s : Step) : (w.step s).Plugged := by
  have he := step_effect w s
  generalize w.step s = w' at he
  cases he with
  | opened clear o hs =>
    intro hf hb
    rw [openSocket_toGWSocket clear hs] at hb ⊢
    have hfault : (w.openSocket clear).fault = w.fault := by
      cases clear <;> simp [openSocket, hs, asyncResolve, emit, clearQueue]
    refine h (hfault ▸ hf) (.inr ?_)
    rcases hb with hb | ⟨op, hm, hk⟩
    · cases hb
    · rw [openSocket_pending clear hs] at hm
      rcases List.mem_cons.mp hm with rfl | hm
      · cases hk
      · exact ⟨op, hm, hk⟩
  | written message binary o => exact plugged_checkWriting (w := w.enqueue message binary) h o
  | requested =>
    refine plugged_mono h rfl rfl (by simp) (fun op hm hk => ⟨op, hm, hk⟩)
  | requestedConnected o =>
    refine plugged_checkWriting ?_ o
    exact plugged_mono h rfl rfl (by simp) (fun op hm hk => ⟨op, hm, hk⟩)
  | closedNow reason => exact plugged_doClose h reason
  | received op bytes o hmem =>
    refine plugged_mono h rfl rfl id (fun x hm hk => ?_)
    rcases List.mem_cons.mp hm with rfl | hm
    · exact ⟨op, hmem, hk⟩
    · exact ⟨x, List.mem_of_mem_erase hm, hk⟩
  | rejected error o message =>
    exact plugged_doClose (w := (w.emit (.verified w.ws error false)).put ⟨.error, message⟩)
      h message
  | stale op ec => exact plugged_finish h op ec
  | dropped op ec o w₁ hmem hlive hkind hcause hstate hw => exact plugged_settled h hw
  | shut op ec o reason => exact plugged_doClose (plugged_finish h op ec) reason
  | failed op ec o w₁ message hmem hlive hkind hcause hstate hw =>
    have hset : w₁.Plugged := plugged_settled h hw
    exact plugged_doClose (w := w₁.put ⟨.error, message⟩) hset message
  | advanced => exact plugged_start _ _
  | connected op ec o =>
    exact plugged_checkWriting (w := (w.finish op ec).establish) (plugged_start _ _) o
  | message => exact plugged_start _ _
  | drained op ec o =>
    exact plugged_checkWriting (w := (w.finish op ec).release) (plugged_finish h op ec) o
  | _ => exact h

theorem step_faultless (h : w.Plugged) (s : Step) (hwrite : ∀ m b, s.action ≠ .write m b)
    (hf : w.fault = false) : (w.step s).fault = false := by
  have hop : ∀ op ∈ w.pending, op.kind.usesStream = true → w.ws.isSome = true :=
    fun op hm hk => h hf (.inr ⟨op, hm, hk⟩)
  have he := step_effect w s
  generalize w.step s = w' at he
  cases he with
  | opened clear o hs => cases clear <;> simp [openSocket, hs, asyncResolve, emit, clearQueue, hf]
  | written message binary => exact absurd rfl (hwrite message binary)
  | requestedConnected o hs =>
    exact (checkWriting_faultless (w := w.request) (h hf (.inl hs)) o).trans hf
  | dropped op ec o w₁ hmem hlive hkind hcause hstate hw =>
    rcases hw with rfl | ⟨-, rfl⟩ <;> exact hf
  | failed op ec o w₁ message hmem hlive hkind hcause hstate hw =>
    rcases hw with rfl | ⟨-, rfl⟩ <;> simp [hf]
  | advanced op ec o w₁ kind hmem hlive hec hopc hlast hkind hw =>
    rcases hw with rfl | ⟨hne, rfl⟩
    · exact (start_faultless kind rfl).trans hf
    · exact (start_faultless kind (hop op hmem (usesStream_of_ne_resolve hne))).trans hf
  | connected op ec o hmem hlive hec hkind =>
    have hws : w.ws.isSome = true := hop op hmem (handshake_usesStream hkind)
    rw [checkWriting_faultless (w := (w.finish op ec).establish) hws o, establish_fault]
    simp [hf, hws]
  | message op ec o hmem hlive hec hkind =>
    have hws : w.ws.isSome = true := hop op hmem (by rw [hkind]; rfl)
    rw [deliver_fault]
    simp [hf, hws]
  | drained op ec o hmem hlive hec hkind =>
    have hws : w.ws.isSome = true := hop op hmem (write_usesStream hkind)
    have hrel : (w.finish op ec).release.ws.isSome = true := by simpa using hws
    rw [checkWriting_faultless hrel o, release_fault, finish_fault, hf]
  | closedNow | rejected | shut | stale => simp [hf]
  | idle | configured | cleared | requested | taken | received | verified => exact hf

end plugged

end World
end GWSockets
