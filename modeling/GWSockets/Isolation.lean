import GWSockets.History

namespace GWSockets

inductive Callback where
  | completion (op : Operation) (ec : ErrorCode) (o : Outcome)
  | verification (error : X509Error)
deriving DecidableEq, Repr

structure Untouched (w w' : GWSocket) : Prop where
  state : w'.state = w.state
  generation : w'.generation = w.generation
  writing : w'.writing = w.writing
  writeQueue : w'.writeQueue = w.writeQueue
  readBuffer : w'.readBuffer = w.readBuffer
  messageQueue : w'.messageQueue = w.messageQueue

theorem Untouched.of_eq {w w' : GWSocket} (h : w' = w) : Untouched w w' := by
  subst h
  exact ⟨rfl, rfl, rfl, rfl, rfl, rfl⟩

namespace World

def fire (w : World) : Callback → World
  | .completion op ec o => w.complete op ec o
  | .verification error => w.verify error

def Late (w : World) : Callback → Prop
  | .completion op _ _ => op ∈ w.pending ∧ op.generation < w.generation
  | .verification _ => ∃ stream, w.ws = some stream ∧ stream.verifyCallback = true ∧
      stream.generation < w.generation

def Rejects (w : World) : Callback → Prop
  | .completion _ _ _ => False
  | .verification error => error ≠ .ok ∧ w.state.closable = true

theorem not_live_of_lt {w : World} {op : Operation} (h : op.generation < w.generation)
    (hb : w.generation < 2 ^ 32) : ¬ w.live op := by
  rw [live, Nat.mod_eq_of_lt hb, Nat.mod_eq_of_lt (Nat.lt_trans h hb)]
  exact Nat.ne_of_gt h

theorem complete_late {w : World} {op : Operation} (hmem : op ∈ w.pending) (hl : ¬ w.live op)
    (ec : ErrorCode) (o : Outcome) : w.complete op ec o = w.finish op ec := by
  rw [complete, if_pos hmem, guardGeneration, if_neg (by simpa [live] using hl)]

theorem verify_rejects {w : World} {stream : Stream} (hws : w.ws = some stream)
    (hv : stream.verifyCallback = true) {error : X509Error} (herror : error ≠ .ok) :
    ∃ message, w.verify error =
      if w.state.closable then
        ((w.emit (.verified (some stream) error false)).put ⟨.error, message⟩).doClose message
      else w.emit (.verified (some stream) error false) := by
  cases hr : error.report with
  | none => exact absurd ((report_none_iff error).mp hr) herror
  | some message =>
    refine ⟨message, ?_⟩
    simp only [verify, hws, hv, verifyCertificate, hr, errorConnection_snd]
    rfl

theorem verify_accepts {w : World} {error : X509Error}
    (h : error = .ok ∨ w.state.closable = false) :
    (w.verify error).toGWSocket = w.toGWSocket := by
  unfold verify
  split
  · split
    · rcases h with rfl | h
      · simp [verifyCertificate, X509Error.report]
      · cases hr : error.report <;> simp [verifyCertificate, hr, errorConnection_snd, h]
    · rfl
  · rfl

theorem fire_late {w : World} (hb : w.generation < 2 ^ 32) {cb : Callback} (hl : w.Late cb) :
    Untouched w.toGWSocket (w.fire cb).toGWSocket ↔ ¬ w.Rejects cb := by
  cases cb with
  | completion op ec o =>
    rw [fire, complete_late hl.1 (not_live_of_lt hl.2 hb)]
    simp [Rejects, Untouched.of_eq]
  | verification error =>
    obtain ⟨stream, hws, hv, -⟩ := hl
    constructor
    · rintro hu ⟨herror, hs⟩
      obtain ⟨message, he⟩ := verify_rejects hws hv herror
      have hgen := hu.generation
      simp [fire, he, hs] at hgen
    · intro hr
      refine .of_eq (verify_accepts ?_)
      by_contra hn
      exact hr ⟨fun h => hn (.inl h), by simpa using fun h => hn (.inr h)⟩

theorem late_callback_isolated (kind : SocketClass) (host : Bytes) (port : Nat) (path : Bytes)
    (ls : List Step) (hb : ((new kind host port path).run ls).generation < 2 ^ 32) (cb : Callback)
    (hl : ((new kind host port path).run ls).Late cb) :
    let w := (new kind host port path).run ls
    Untouched w.toGWSocket (w.fire cb).toGWSocket ↔ ¬ w.Rejects cb :=
  fire_late hb hl

def sslStream (id generation : Nat) : Stream := ⟨id, generation, false, false, true⟩

def abandonedTlsRun : List Step :=
  [⟨.openSocket true, {}⟩,
    ⟨.complete ⟨.resolve [] (decimal 443), 1, none, []⟩ ⟨.success, []⟩, {}⟩,
    ⟨.complete ⟨.connect, 1, some (sslStream 0 1), []⟩ ⟨.success, []⟩, {}⟩,
    ⟨.closeNow [], {}⟩, ⟨.openSocket true, {}⟩]

theorem late_callback_isolated_handshake :
    let w := (new (.sslWebSocket true) [] 443 []).run abandonedTlsRun
    let op : Operation := ⟨.sslHandshake (ascii ":443") [], 1, some (sslStream 0 1), []⟩
    Untouched w.toGWSocket (w.fire (.completion op ⟨.success, []⟩ {})).toGWSocket :=
  (late_callback_isolated (.sslWebSocket true) [] 443 [] abandonedTlsRun
    (lt_of_eq_of_lt (b := 3) (by decide +kernel) (by decide))
    (.completion ⟨.sslHandshake (ascii ":443") [], 1, some (sslStream 0 1), []⟩ ⟨.success, []⟩ {})
    (by constructor <;> decide +kernel)).mpr id

theorem late_verification_closes :
    let w := (new (.sslWebSocket true) [] 443 []).run abandonedTlsRun
    w.ws = some (sslStream 0 1) ∧ w.generation = 3 ∧ w.state = .connecting ∧
      (w.fire (.verification .selfSignedCertInChain)).generation = 4 ∧
      (w.fire (.verification .selfSignedCertInChain)).state = .disconnected := by
  decide +kernel

end World
end GWSockets
