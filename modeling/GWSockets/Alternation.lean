import GWSockets.Accounting

namespace GWSockets
namespace World

def closes (w : World) : Nat := w.pending.countP (fun op => op.kind.isClose)

-- Every attempt starts at an odd generation and ends at an even one, however often the unsigned
-- int of the source wraps around.
structure Alternating (w : World) : Prop where
  parity : w.generation % 2 = if w.state = .disconnected then 0 else 1
  odd : ∀ op ∈ w.pending, op.generation % 2 = 1
  closing : w.closes ≤ if w.state = .disconnecting then 1 else 0

theorem alternating_new (kind : SocketClass) (host : Bytes) (port : Nat) (path : Bytes) :
    (new kind host port path).Alternating :=
  ⟨rfl, by simp [new], by simp [new, closes]⟩

section steps

variable {w v : World} {op : Operation} {ec : ErrorCode}

theorem Alternating.odd_generation (h : w.Alternating) (hs : w.state ≠ .disconnected) :
    w.generation % 2 = 1 := by
  simpa [hs] using h.parity

theorem Alternating.live_busy (h : w.Alternating) (hmem : op ∈ w.pending) (hl : w.live op) :
    w.state ≠ .disconnected := by
  intro hs
  have hp := h.parity
  have ho := h.odd op hmem
  rw [if_pos hs] at hp
  rw [live] at hl
  omega

theorem Alternating.not_closing (h : w.Alternating) (hs : w.state ≠ .disconnecting) :
    w.closes = 0 := by
  simpa [hs] using h.closing

theorem alternating_same (h : w.Alternating) (hg : v.generation = w.generation)
    (hs : v.state = w.state) (ho : ∀ x ∈ v.pending, x.generation % 2 = 1)
    (hc : v.closes ≤ w.closes) : v.Alternating := by
  refine ⟨?_, ho, Nat.le_trans hc ?_⟩
  · rw [hg, hs]
    exact h.parity
  · rw [hs]
    exact h.closing

theorem alternating_finish (h : w.Alternating) (op : Operation) (ec : ErrorCode) :
    (w.finish op ec).Alternating :=
  alternating_same h rfl rfl (Bag.forall_mem_erase h.odd op)
    ((List.erase_sublist ..).countP_le)

theorem alternating_settled (h : w.Alternating) (hw : w.Settled op ec v) : v.Alternating := by
  have hf := alternating_finish h op ec
  rcases hw with rfl | ⟨-, rfl⟩
  · exact hf
  · exact ⟨hf.parity, hf.odd, hf.closing⟩

theorem alternating_doClose (h : w.Alternating) (hs : w.state ≠ .disconnected)
    (hc : w.closes = 0) (reason : Bytes) : (w.doClose reason).Alternating := by
  have hp := h.odd_generation hs
  refine ⟨?_, h.odd, Nat.le_of_eq hc⟩
  show (w.generation + 1) % 2 = 0
  omega

theorem closes_start (w : World) (kind : OperationKind) :
    (w.start kind).closes = w.closes + if kind.isClose then 1 else 0 := by
  simp [closes, List.countP_cons]

theorem alternating_start (h : w.Alternating) (hs : w.state ≠ .disconnected)
    {kind : OperationKind} (hk : kind.isClose = false) : (w.start kind).Alternating := by
  refine alternating_same h rfl rfl ?_ ?_
  · intro x hx
    rcases List.mem_cons.mp hx with rfl | hx
    · exact h.odd_generation hs
    · exact h.odd x hx
  · simp [closes_start, hk]

theorem closable_states (h : w.state.closable = true) :
    w.state ≠ .disconnected ∧ w.state ≠ .disconnecting := by
  constructor <;> intro hs <;> simp [hs, SocketState.closable] at h

theorem alternating_shut (h : w.Alternating) (hs : w.state.closable = true) (reason : Bytes) :
    (w.doClose reason).Alternating :=
  alternating_doClose h (closable_states hs).1 (h.not_closing (closable_states hs).2) reason

theorem alternating_checkWriting (h : w.Alternating) (o : Outcome) :
    (w.checkWriting o).Alternating := by
  have hc := checkWriting_checked w o
  generalize w.checkWriting o = w' at hc
  have hopen : w.state = .connected ∨ w.state = .disconnectRequested → w.state.closable = true := by
    rintro (hs | hs) <;> rw [hs] <;> rfl
  cases hc with
  | idle => exact h
  | next m rest hs =>
    refine alternating_start (w := { w with
      writing := true, writeQueue := rest, messageToWrite := m.message }) ?_ ?_ rfl
    · exact ⟨h.parity, h.odd, h.closing⟩
    · exact (closable_states (hopen hs)).1
  | marker m rest hs =>
    have hodd : w.generation % 2 = 1 := h.odd_generation (by simp [hs])
    have hz : w.closes = 0 := h.not_closing (by simp [hs])
    refine ⟨hodd, ?_, ?_⟩
    · intro x hx
      rcases List.mem_cons.mp hx with rfl | hx
      · exact hodd
      · exact h.odd x hx
    · rw [asyncCloseSocket, closes_start]
      exact Nat.le_of_eq (congrArg (· + 1) hz)
  | abandoned m rest hs =>
    exact alternating_shut (w := { w with writing := true, writeQueue := rest })
      ⟨h.parity, h.odd, h.closing⟩ (hopen hs) _

theorem alternating_request (h : w.Alternating)
    (hs : w.state = .connecting ∨ w.state = .connected) : w.request.Alternating := by
  have hne : w.state ≠ .disconnected ∧ w.state ≠ .disconnecting := by
    rcases hs with hs | hs <;> simp [hs]
  exact ⟨h.odd_generation hne.1, h.odd, Nat.le_of_eq (h.not_closing hne.2)⟩

theorem alternating_opened (h : w.Alternating) (clear : Bool) (hs : w.state = .disconnected) :
    (w.openSocket clear).Alternating := by
  have hp := h.parity
  rw [if_pos hs] at hp
  have hg := openSocket_generation clear hs
  have hodd : (w.openSocket clear).generation % 2 = 1 := by omega
  refine ⟨?_, ?_, ?_⟩
  · rw [openSocket_state clear hs]
    exact hodd
  · intro x hx
    rw [openSocket_pending clear hs] at hx
    rcases List.mem_cons.mp hx with rfl | hx
    · exact hg ▸ hodd
    · exact h.odd x hx
  · rw [closes, openSocket_pending clear hs, List.countP_cons]
    exact Nat.le_trans (Nat.le_of_eq (h.not_closing (by simp [hs]))) (Nat.zero_le _)

theorem alternating_extend (h : w.Alternating) (bytes : Bytes) (hmem : op ∈ w.pending) :
    (w.extend op bytes).Alternating := by
  refine alternating_same h rfl rfl ?_ ?_
  · intro x hx
    rcases List.mem_cons.mp hx with rfl | hx
    · exact h.odd op hmem
    · exact h.odd x (List.mem_of_mem_erase hx)
  · refine Nat.le_of_eq ?_
    rw [closes, extend, List.countP_cons, closes,
      ← Bag.countP_erase_add (fun x => x.kind.isClose) hmem]

theorem closes_finish (h : w.Alternating) (hmem : op ∈ w.pending) (hk : op.kind = .close) :
    w.state = .disconnecting ∧ (w.finish op ec).closes = 0 := by
  have hcount := Bag.countP_erase_add (fun x => x.kind.isClose) hmem
  have hc := h.closing
  have hp : op.kind.isClose = true := by rw [hk]; rfl
  simp only [hp, if_true] at hcount
  have heq : (w.finish op ec).closes + 1 = w.closes := hcount
  by_cases hs : w.state = .disconnecting
  · rw [if_pos hs] at hc
    exact ⟨hs, by omega⟩
  · rw [if_neg hs] at hc
    omega

theorem alternating_establish (h : w.Alternating) (hs : w.state = .connecting) :
    w.establish.Alternating := by
  have hv : ({ w with state := .connected }.put ⟨.connected, ascii "Connected"⟩).Alternating :=
    ⟨h.odd_generation (by simp [hs]), h.odd, Nat.le_of_eq (h.not_closing (by simp [hs]))⟩
  exact alternating_start hv (by simp) rfl

theorem alternating_step (h : w.Alternating) (s : Step) : (w.step s).Alternating := by
  have he := step_effect w s
  generalize w.step s = w' at he
  cases he with
  | opened clear o hs => exact alternating_opened h clear hs
  | written message binary o =>
    exact alternating_checkWriting (w := w.enqueue message binary) ⟨h.parity, h.odd, h.closing⟩ o
  | requested o hs => exact alternating_request h (.inl hs)
  | requestedConnected o hs => exact alternating_checkWriting (alternating_request h (.inr hs)) o
  | closedNow reason o hs => exact alternating_shut h hs reason
  | received op bytes o hmem => exact alternating_extend h bytes hmem
  | rejected error o message hok hs =>
    exact alternating_shut (w := (w.emit (.verified w.ws error false)).put ⟨.error, message⟩)
      ⟨h.parity, h.odd, h.closing⟩ hs message
  | stale op ec => exact alternating_finish h op ec
  | dropped op ec o w₁ hmem hlive hkind hcause hs hw => exact alternating_settled h hw
  | shut op ec o reason hmem hlive hcause hs =>
    have hf := alternating_finish h op ec
    rcases hs with hk | hs
    · obtain ⟨hs, hz⟩ := closes_finish h hmem hk
      exact alternating_doClose hf (by simp [hs]) hz reason
    · exact alternating_shut hf hs reason
  | failed op ec o w₁ message hmem hlive hkind hcause hs hw =>
    have hset := alternating_settled h hw
    exact alternating_shut (w := w₁.put ⟨.error, message⟩)
      ⟨hset.parity, hset.odd, hset.closing⟩ (hw.state.symm ▸ hs) message
  | advanced op ec o w₁ kind hmem hlive hec hop hlast hkind hw =>
    have hset : w₁.Alternating ∧ w₁.state = w.state := by
      have hf := alternating_finish h op ec
      rcases hw with rfl | ⟨-, rfl⟩
      · exact ⟨⟨hf.parity, hf.odd, hf.closing⟩, rfl⟩
      · exact ⟨hf, rfl⟩
    refine alternating_start hset.1 ?_ (connecting_only hkind).2.2
    rw [hset.2]
    exact h.live_busy hmem hlive
  | connected op ec o hmem hlive hec hkind hs =>
    exact alternating_checkWriting (alternating_establish (alternating_finish h op ec) hs) o
  | message op ec o hmem hlive hec hkind =>
    have hf := alternating_finish h op ec
    exact alternating_start (w := { (w.finish op ec).put ⟨.message, w.readBuffer⟩ with
      readBuffer := [] }) ⟨hf.parity, hf.odd, hf.closing⟩ (h.live_busy hmem hlive) rfl
  | drained op ec o =>
    have hf := alternating_finish h op ec
    exact alternating_checkWriting (w := (w.finish op ec).release)
      ⟨hf.parity, hf.odd, hf.closing⟩ o
  | _ => exact ⟨h.parity, h.odd, h.closing⟩

end steps

end World
end GWSockets
