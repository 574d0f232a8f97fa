import GWSockets.Settings

namespace GWSockets

namespace World

def Handshakes (w : World) (host target : Bytes) : Prop :=
  ∃ ls op fields, op ∈ (w.run ls).pending ∧ op.kind = .handshake host target fields

section new

variable {kind : SocketClass} {host path : Bytes} {port : Nat}

theorem addressed_new : (new kind host port path).Addressed := by
  intro op hop
  cases hop

def connectedStream (kind : SocketClass) : Stream :=
  ⟨0, 1, false, false, kind == .sslWebSocket true⟩

def connectRun (kind : SocketClass) (host : Bytes) (port : Nat) : List Step :=
  [⟨.openSocket false, {}⟩,
    ⟨.complete ⟨.resolve host (decimal port), 1, none, []⟩ ⟨.success, []⟩, {}⟩,
    ⟨.complete ⟨.connect, 1, some (connectedStream kind), []⟩ ⟨.success, []⟩, {}⟩]

def secureRun (verify : Bool) (host : Bytes) (port : Nat) (path : Bytes) : List Step :=
  connectRun (.sslWebSocket verify) host port ++
    [⟨.complete ⟨.sslHandshake (new (.sslWebSocket verify) host port path).hostWithPort path, 1,
      some (connectedStream (.sslWebSocket verify)), []⟩ ⟨.success, []⟩, {}⟩]

theorem handshakes_new : (new kind host port path).Handshakes
    (new kind host port path).hostWithPort path := by
  cases kind with
  | webSocket =>
    refine ⟨connectRun .webSocket host port, ?_⟩
    simp [connectRun, connectedStream, step, openSocket, new, asyncResolve, emit, complete,
      guardGeneration, finish, invoke, hostResolvedStep, asyncConnect, resetWS, start,
      socketConnected, asyncHandshake, ErrorCode.failed, hostWithPort]
  | sslWebSocket verify =>
    refine ⟨secureRun verify host port path, ?_⟩
    cases verify <;>
    simp [secureRun, connectRun, connectedStream, step, openSocket, new, asyncResolve, emit,
      complete, guardGeneration, finish, invoke, hostResolvedStep, asyncConnect, resetWS,
      setVerifyCallback, start, socketConnected, asyncHandshake, sslHandshakeComplete,
      ErrorCode.failed, hostWithPort]

theorem handshakes_new_iff {h target : Bytes} : (new kind host port path).Handshakes h target ↔
    h = (new kind host port path).hostWithPort ∧ target = path := by
  constructor
  · rintro ⟨ls, op, fields, hop, hkind⟩
    obtain ⟨haddress, haddressed⟩ := run_addressed (@addressed_new kind host path port) ls
    have hasked := haddressed op hop
    rw [hkind] at hasked
    simp only [address, Prod.mk.injEq] at haddress
    obtain ⟨-, hhost, hport, hpath⟩ := haddress
    rw [hostWithPort, hhost, hport] at hasked
    exact ⟨hasked.1, hasked.2.trans hpath⟩
  · rintro ⟨rfl, rfl⟩
    exact handshakes_new

end new

end World
end GWSockets
