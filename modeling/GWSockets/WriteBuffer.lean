import GWSockets.Outstanding

namespace GWSockets
namespace World

def Lent (w : World) : Prop := ∀ op ∈ w.pending, op.generation = w.generation →
  ∀ message binary, op.kind = .write message binary → w.messageToWrite = message

theorem lent_new (kind : SocketClass) (host : Bytes) (port : Nat) (path : Bytes) :
    (new kind host port path).Lent := by
  simp [Lent, new]

theorem lent_same {w v : World} (h : w.Lent) (hg : v.generation = w.generation)
    (hm : v.messageToWrite = w.messageToWrite)
    (hp : ∀ op ∈ v.pending, op.kind.isWrite = true → op ∈ w.pending) : v.Lent := by
  intro op hop hgen message binary hk
  rw [hm]
  exact h op (hp op hop (by simp [hk, OperationKind.isWrite])) (hgen.trans hg) message binary hk

theorem lent_past {v : World} (h : ∀ op ∈ v.pending, op.kind.isWrite = true →
    op.generation < v.generation) : v.Lent := by
  intro op hop hgen message binary hk
  have hlt := h op hop (by simp [hk, OperationKind.isWrite])
  exact absurd hgen (Nat.ne_of_lt hlt)

theorem lent_doClose {w : World} (h : w.Past) (reason : Bytes) : (w.doClose reason).Lent :=
  lent_past (fun op hop _ => Nat.lt_succ_of_le (h op hop))

theorem lent_start {w : World} (h : w.Lent) {kind : OperationKind} (hk : kind.isWrite = false) :
    (w.start kind).Lent := by
  refine lent_same h rfl rfl ?_
  intro op hop hw
  rcases List.mem_cons.mp hop with rfl | hop
  · simp [hk] at hw
  · exact hop

theorem no_write_pending {w : World} (ha : w.Accounted) (hw : w.writing = false) {op : Operation}
    (hop : op ∈ w.pending) (hg : op.generation = w.generation) : op.kind.isWrite = false := by
  have hle := ha.outstanding.exclusive
  have hone : ¬ w.outstanding OperationKind.isWrite + w.outstanding OperationKind.isClose = 1 :=
    fun h => by simp [ha.outstanding.writing.mpr h] at hw
  exact not_of_outstanding (by omega) hop hg

theorem lent_checkWriting {w : World} (h : w.Lent) (ha : w.Accounted) (o : Outcome) :
    (w.checkWriting o).Lent := by
  have hc := checkWriting_checked w o
  generalize w.checkWriting o = w' at hc
  cases hc with
  | idle => exact h
  | next m rest hstate hwriting =>
    intro op hop hg message binary hk
    rcases List.mem_cons.mp hop with rfl | hop
    · cases hk
      rfl
    · have hnone := no_write_pending ha hwriting hop hg
      simp [hk, OperationKind.isWrite] at hnone
  | marker m rest =>
    exact lent_start (w := { w with
      writing := true, writeQueue := rest, state := .disconnecting }) h rfl
  | abandoned m rest =>
    exact lent_doClose (w := { w with writing := true, writeQueue := rest }) ha.past _

theorem lent_finish {w : World} (h : w.Lent) (op : Operation) (ec : ErrorCode) :
    (w.finish op ec).Lent :=
  lent_same h rfl rfl (fun _ hx _ => List.mem_of_mem_erase hx)

theorem lent_step {w : World} (h : w.Lent) (ha : w.Accounted) (s : Step) (hu : w.Unaliased s) :
    (w.step s).Lent := by
  have he := step_effect w s
  generalize w.step s = w' at he
  cases he with
  | idle | configured | cleared | requested | taken | verified => exact h
  | opened clear o hs =>
    refine lent_past ?_
    intro op hop hw
    rw [openSocket_pending clear hs] at hop
    rw [openSocket_generation clear hs]
    rcases List.mem_cons.mp hop with rfl | hop
    · simp [OperationKind.isWrite] at hw
    · exact Nat.lt_succ_of_le (ha.past op hop)
  | written message binary o =>
    exact lent_checkWriting (w := w.enqueue message binary) h ⟨ha.past, ha.shape⟩ o
  | requestedConnected o hs =>
    exact lent_checkWriting (w := w.request) h (accounted_requested ha (.inr hs)) o
  | closedNow reason => exact lent_doClose ha.past reason
  | received op bytes o hmem hkind =>
    refine lent_same h rfl rfl ?_
    intro x hx hw
    rcases List.mem_cons.mp hx with rfl | hx
    · simp [hkind, OperationKind.isWrite] at hw
    · exact List.mem_of_mem_erase hx
  | rejected error o message =>
    exact lent_doClose
      (w := (w.emit (.verified w.ws error false)).put ⟨.error, message⟩) ha.past message
  | stale op ec => exact lent_finish h op ec
  | dropped op ec o w₁ hmem hlive hkind hcause hstate hw =>
    rcases hw with rfl | ⟨-, rfl⟩ <;> exact lent_finish h op ec
  | shut op ec o reason => exact lent_doClose (past_finish ha op ec) reason
  | failed op ec o w₁ message hmem hlive hkind hcause hstate hw =>
    have hpast : w₁.Past := settled_past ha hw
    exact lent_doClose (w := w₁.put ⟨.error, message⟩) hpast message
  | advanced op ec o w₁ kind hmem hlive hec hop hlast hkind hw =>
    refine lent_start ?_ (connecting_only hkind).2.1
    rcases hw with rfl | ⟨-, rfl⟩ <;> exact lent_finish h op ec
  | connected op ec o hmem hlive hec hkind hs =>
    have hacc : (w.finish op ec).establish.Accounted := accounted_connected ha hmem
      (hu (op, ec) rfl hmem hlive) (handshake_connecting hkind) hs
    exact lent_checkWriting (w := (w.finish op ec).establish)
      (lent_start (w := w.finish op ec) (lent_finish h op ec) rfl) hacc o
  | message op ec =>
    exact lent_start (w := w.finish op ec) (lent_finish h op ec) rfl
  | drained op ec o hmem hlive hec hkind =>
    have hacc : (w.finish op ec).release.Accounted :=
      accounted_drained ha hmem (hu (op, ec) rfl hmem hlive) hkind
    exact lent_checkWriting (w := (w.finish op ec).release) (lent_finish h op ec) hacc o

theorem checkWriting_messageToWrite {w : World} (h : w.writing = true) (o : Outcome) :
    (w.checkWriting o).messageToWrite = w.messageToWrite := by
  simp [checkWriting, h]

theorem writing_of_pending {w : World} (ha : w.Accounted) {op : Operation} (hop : op ∈ w.pending)
    (hg : op.generation = w.generation) (hk : op.kind.isWrite = true) : w.writing = true := by
  by_contra hw
  have hnone := no_write_pending ha (by simpa using hw) hop hg
  simp [hk] at hnone

theorem only_write {w : World} (ha : w.Accounted) {x op : Operation} (hx : x ∈ w.pending)
    (hop : op ∈ w.pending) (hgx : x.generation = w.generation) (hg : op.generation = w.generation)
    (hkx : x.kind.isWrite = true) (hk : op.kind.isWrite = true) : x = op := by
  by_contra hne
  have hrest : 0 < (w.finish x ⟨.success, []⟩).outstanding OperationKind.isWrite :=
    outstanding_pos ((List.mem_erase_of_ne (Ne.symm hne)).mpr hop) hg hk
  have hcount := outstanding_finish_own ⟨.success, []⟩ hkx hx hgx
  have hle := ha.outstanding.exclusive
  omega

theorem settled_messageToWrite {w w₁ : World} {op : Operation} {ec : ErrorCode}
    (h : w.Settled op ec w₁) : w₁.messageToWrite = w.messageToWrite := by
  rcases h with rfl | ⟨-, rfl⟩ <;> simp

theorem lent_until_completed {w : World} (ha : w.Accounted) {op : Operation}
    (hop : op ∈ w.pending) (hg : op.generation = w.generation) (hk : op.kind.isWrite = true)
    (s : Step) (hu : w.Unaliased s) :
    (w.step s).messageToWrite = w.messageToWrite ∨ s.completion.map Prod.fst = some op := by
  have hwriting := writing_of_pending ha hop hg hk
  have he := step_effect w s
  generalize w.step s = w' at he
  cases he with
  | opened clear o hs =>
    left
    rw [openSocket_toGWSocket clear hs]
  | written message binary o =>
    exact .inl (checkWriting_messageToWrite (w := w.enqueue message binary) hwriting o)
  | requestedConnected o => exact .inl (checkWriting_messageToWrite (w := w.request) hwriting o)
  | dropped x ec o w₁ hmem hlive hkind hcause hstate hw =>
    exact .inl (settled_messageToWrite hw)
  | failed x ec o w₁ message hmem hlive hkind hcause hstate hw =>
    exact .inl (by simpa using settled_messageToWrite hw)
  | advanced x ec o w₁ kind hmem hlive hec hopk hlast hkind hw =>
    left
    rcases hw with rfl | ⟨-, rfl⟩ <;> simp
  | connected x ec o hmem hlive hec hkind hs =>
    exact .inl (checkWriting_messageToWrite (w := (w.finish x ec).establish) hwriting o)
  | drained x ec o hmem hlive hec hkind =>
    right
    rw [only_write ha hmem hop (hu (x, ec) rfl hmem hlive) hg hkind hk]
    rfl
  | idle | configured | requested | taken | received => exact .inl rfl
  | _ => exact .inl (by simp)

-- boost::asio::buffer(messageToWrite) only refers to the string, which has to stay as it is until
-- the handler of the write runs.
theorem write_buffer_lent (kind : SocketClass) (host : Bytes) (port : Nat) (path : Bytes)
    (ls : List Step) (hb : ((new kind host port path).run ls).generation < 2 ^ 32) :
    let w := (new kind host port path).run ls
    ∀ op ∈ w.pending, op.generation = w.generation →
      ∀ message binary, op.kind = .write message binary →
        w.messageToWrite = message ∧ ∀ s, (w.step s).messageToWrite = message ∨
          s.completion.map Prod.fst = some op := by
  intro w op hop hg message binary hk
  have hinit := accounted_new kind host port path
  obtain ⟨hlent, hacc⟩ : w.Lent ∧ w.Accounted :=
    Machine.run_invariant (I := fun v => v.Lent ∧ v.Accounted)
      (fun v s hv hok => ⟨lent_step hv.1 hv.2 s hok, accounted_step hv.2 s hok⟩)
      ⟨lent_new kind host port path, hinit⟩ (along_unaliased hinit hb)
  have hmessage := hlent op hop hg message binary hk
  refine ⟨hmessage, fun s => ?_⟩
  rw [← hmessage]
  exact lent_until_completed hacc hop hg (by simp [hk, OperationKind.isWrite]) s
    (unaliased_of_lt hacc hb s)

def lentRun : List Step :=
  ⟨.openSocket true, {}⟩ :: plainConnect 0 1 ++
    [⟨.write [1] false, {}⟩, ⟨.write [2] false, {}⟩]

theorem write_buffer_lent_two :
    let w := (new .webSocket [] 80 []).run lentRun
    w.writeQueue.length = 1 ∧ w.messageToWrite = [1] := by
  refine ⟨by decide +kernel, ?_⟩
  exact (write_buffer_lent .webSocket [] 80 [] lentRun
    (lt_of_eq_of_lt (b := 1) (by decide +kernel) (by decide))
    ⟨.write [1] false, 1, some (plainStream 0 1), []⟩ (by decide +kernel) (by decide +kernel)
    [1] false rfl).1

end World
end GWSockets
