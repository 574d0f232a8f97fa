import GWSockets.Socket
import GWSockets.Library.Machine

namespace GWSockets

open Machine

-- What another thread does to the state: handshakeCompleted, close, setDisconnectingCAS, doClose
-- and open.
def SocketState.canMove : SocketState → SocketState → Bool
  | .connecting, .connected => true
  | .connecting, .disconnectRequested => true
  | .connected, .disconnectRequested => true
  | .disconnecting, .disconnected => true
  | .disconnected, .connecting => true
  | .disconnected, .disconnecting => false
  | _, .disconnecting => true
  | _, _ => false

def SocketState.Closed (s : SocketState) : Prop := s = .disconnected ∨ s = .disconnecting

instance (s : SocketState) : Decidable s.Closed :=
  inferInstanceAs (Decidable (s = .disconnected ∨ s = .disconnecting))

-- The next access to the atomic state that the running call makes. The two loads of the condition
-- after a failed exchange are two accesses.
inductive Caller where
  | loading
  | exchanging (expected : SocketState)
  | recheckingConnected
  | recheckingConnecting
  | returned (result : Bool)
deriving DecidableEq, Repr

def Caller.Active : Caller → Prop
  | .returned _ => False
  | _ => True

instance : DecidablePred Caller.Active
  | .returned _ => .isFalse id
  | .loading | .exchanging _ | .recheckingConnected | .recheckingConnecting => .isTrue trivial

def Caller.Attempting : Caller → Prop
  | .loading | .returned _ => False
  | _ => True

structure Interleaved where
  state : SocketState
  caller : Caller := .loading
deriving DecidableEq, Repr

inductive Access where
  | own
  | other (next : SocketState)
deriving DecidableEq, Repr

namespace Interleaved

def setDisconnectingCAS (c : Interleaved) : Interleaved :=
  match c.caller with
  | .loading =>
      if c.state = .disconnected ∨ c.state = .disconnecting then
        { c with caller := .returned false }
      else { c with caller := .exchanging c.state }
  | .exchanging expected =>
      if c.state = expected then ⟨.disconnecting, .returned true⟩
      else { c with caller := .recheckingConnected }
  | .recheckingConnected =>
      if c.state = .connected then { c with caller := .loading }
      else { c with caller := .recheckingConnecting }
  | .recheckingConnecting =>
      if c.state = .connecting then { c with caller := .loading }
      else { c with caller := .returned false }
  | .returned _ => c

def step (c : Interleaved) : Access → Interleaved
  | .own => c.setDisconnectingCAS
  | .other next => if c.state.canMove next then { c with state := next } else c

def Ended (c : Interleaved) : Prop := c.caller.Active ∧ c.state.Closed

instance : DecidablePred Ended := fun c =>
  inferInstanceAs (Decidable (c.caller.Active ∧ c.state.Closed))

structure Exchanges (c : Interleaved) (a : Access) : Prop where
  own : a = .own
  expected : c.caller = .exchanging c.state
  before : ¬ c.state.Closed
  after : (c.step a).state = .disconnecting

structure Requests (c : Interleaved) (a : Access) : Prop where
  other : a = .other .disconnectRequested
  allowed : c.state.canMove .disconnectRequested = true
  attempting : c.caller.Attempting

end Interleaved

structure Faithful (s : SocketState) (as : List Access) : Prop where
  moved : (run Interleaved.step ⟨s, .loading⟩ as).caller = .returned true →
    Takes Interleaved.step Interleaved.Exchanges ⟨s, .loading⟩ as
  ended : (run Interleaved.step ⟨s, .loading⟩ as).caller = .returned false →
    Visits Interleaved.step Interleaved.Ended ⟨s, .loading⟩ as

def Harmless (s : SocketState) (as : List Access) : Prop :=
  Takes Interleaved.step Interleaved.Requests ⟨s, .loading⟩ as →
    Visits Interleaved.step Interleaved.Ended ⟨s, .loading⟩ as

namespace Interleaved

@[simp] theorem step_own (c : Interleaved) : c.step .own = c.setDisconnectingCAS := rfl

@[simp] theorem step_other_caller (c : Interleaved) (next : SocketState) :
    (c.step (.other next)).caller = c.caller := by
  rw [step]
  split <;> rfl

section exchange

def Won (won : Prop) (c : Interleaved) : Prop :=
  match c.caller with
  | .exchanging expected => ¬ expected.Closed
  | .returned true => won
  | _ => True

theorem won_imp {won won' : Prop} {c c' : Interleaved} (hcaller : c'.caller = c.caller)
    (himp : won → won') (h : Won won c) : Won won' c' := by
  obtain ⟨state, caller⟩ := c
  obtain ⟨state', caller'⟩ := c'
  obtain rfl : caller' = caller := hcaller
  cases caller' with
  | returned result =>
    cases result with
    | true => exact himp h
    | false => trivial
  | exchanging expected => exact h
  | loading => trivial
  | recheckingConnected => trivial
  | recheckingConnecting => trivial

theorem won_step (won : Prop) (c : Interleaved) (a : Access) (h : Won won c) :
    Won (won ∨ Exchanges c a) (c.step a) := by
  cases a with
  | other next => exact won_imp (step_other_caller c next) .inl h
  | own =>
    obtain ⟨state, caller⟩ := c
    cases caller with
    | loading =>
      by_cases hstate : state = .disconnected ∨ state = .disconnecting
      · simp [step, setDisconnectingCAS, hstate, Won]
      · simp [step, setDisconnectingCAS, hstate, Won, SocketState.Closed]
    | exchanging expected =>
      by_cases hstate : state = expected
      · subst hstate
        have hown : Exchanges ⟨state, .exchanging state⟩ .own :=
          ⟨rfl, rfl, h, by simp [step, setDisconnectingCAS]⟩
        simpa [step, setDisconnectingCAS, Won] using Or.inr hown
      · simp [step, setDisconnectingCAS, hstate, Won]
    | recheckingConnected =>
      by_cases hstate : state = .connected <;> simp [step, setDisconnectingCAS, hstate, Won]
    | recheckingConnecting =>
      by_cases hstate : state = .connecting <;> simp [step, setDisconnectingCAS, hstate, Won]
    | returned result => exact won_imp rfl .inl h

theorem moved (s : SocketState) (as : List Access)
    (h : (run step ⟨s, .loading⟩ as).caller = .returned true) :
    Takes step Exchanges ⟨s, .loading⟩ as := by
  have hwon : Won (Takes step Exchanges ⟨s, .loading⟩ as) (run step ⟨s, .loading⟩ as) :=
    takes_invariant trivial won_step
  rwa [Won, h] at hwon

end exchange

section request

theorem canMove_open : ∀ {s t : SocketState}, ¬ s.Closed → ¬ t.Closed → s.canMove t = true →
    s ≠ .disconnectRequested ∧ (t = .connected ∨ t = .disconnectRequested) := by
  rintro (_ | _ | _ | _ | _) (_ | _ | _ | _ | _) <;> decide

theorem canMove_trans : ∀ {s t u : SocketState}, ¬ s.Closed → ¬ t.Closed → ¬ u.Closed →
    s.canMove t = true → t.canMove u = true → s.canMove u = true := by
  rintro (_ | _ | _ | _ | _) (_ | _ | _ | _ | _) (_ | _ | _ | _ | _) <;> decide

theorem canMove_connected : ∀ {t : SocketState}, ¬ t.Closed →
    SocketState.connected.canMove t = true → t = .disconnectRequested := by
  rintro (_ | _ | _ | _ | _) <;> decide

theorem requests_iff {c : Interleaved} {next : SocketState} (hmove : c.state.canMove next = true)
    (hcaller : c.caller.Attempting) :
    Requests c (.other next) ↔ next = .disconnectRequested := by
  constructor
  · intro h
    exact Access.other.inj h.other
  · rintro rfl
    exact ⟨rfl, hmove, hcaller⟩

def Open (requested : Prop) (c : Interleaved) : Prop :=
  match c.caller with
  | .loading => ¬ requested ∧ ¬ c.state.Closed
  | .exchanging expected =>
      ¬ expected.Closed ∧ ¬ c.state.Closed ∧
        (c.state = expected ∨ expected.canMove c.state = true) ∧
        (requested ↔ c.state = .disconnectRequested ∧ expected ≠ .disconnectRequested)
  | .recheckingConnected =>
      (c.state = .connected ∨ c.state = .disconnectRequested) ∧
        (requested ↔ c.state = .disconnectRequested)
  | .recheckingConnecting => c.state = .disconnectRequested ∧ requested
  | .returned result => requested ↔ result = false

theorem open_own {requested : Prop} {c : Interleaved} (h : Open requested c) :
    Open requested c.setDisconnectingCAS := by
  obtain ⟨state, caller⟩ := c
  cases caller with
  | loading =>
    obtain ⟨hrequested, hstate⟩ := h
    have hload : ¬ (state = .disconnected ∨ state = .disconnecting) := hstate
    rw [setDisconnectingCAS, if_neg hload]
    exact ⟨hstate, hstate, .inl rfl, by simp [hrequested]⟩
  | exchanging expected =>
    obtain ⟨hexpected, hstate, hmove, hrequested⟩ := h
    by_cases heq : state = expected
    · subst heq
      simpa [setDisconnectingCAS, Open] using hrequested
    · obtain ⟨hfirst, hplace⟩ := canMove_open hexpected hstate (hmove.resolve_left heq)
      simpa [setDisconnectingCAS, heq, Open, hplace, hfirst] using hrequested
  | recheckingConnected =>
    obtain ⟨rfl | rfl, hrequested⟩ := h
    · simpa [setDisconnectingCAS, Open, SocketState.Closed] using hrequested
    · simpa [setDisconnectingCAS, Open] using hrequested
  | recheckingConnecting =>
    obtain ⟨rfl, hrequested⟩ := h
    simpa [setDisconnectingCAS, Open] using hrequested
  | returned result => exact h

theorem open_other {requested : Prop} {c : Interleaved} {next : SocketState}
    (h : Open requested c) (hended : ¬ Ended (c.step (.other next))) :
    Open (requested ∨ Requests c (.other next)) (c.step (.other next)) := by
  by_cases hmove : c.state.canMove next = true
  · obtain ⟨state, caller⟩ := c
    have hstep : step ⟨state, caller⟩ (.other next) = ⟨next, caller⟩ := if_pos hmove
    rw [hstep] at hended ⊢
    have hnext (hactive : caller.Active) : ¬ next.Closed := fun hn => hended ⟨hactive, hn⟩
    cases caller with
    | loading =>
      have hnone : ¬ Requests ⟨state, .loading⟩ (.other next) := fun hr => hr.attempting
      exact ⟨not_or.mpr ⟨h.1, hnone⟩, hnext trivial⟩
    | exchanging expected =>
      obtain ⟨hexpected, hstate, hplace, hrequested⟩ := h
      have hopen := hnext trivial
      have hfar : expected.canMove next = true := by
        rcases hplace with heq | hplace
        · exact (show state = expected from heq) ▸ hmove
        · exact canMove_trans hexpected hstate hopen hplace hmove
      have hbefore := (canMove_open hstate hopen hmove).1
      have hfirst := (canMove_open hexpected hopen hfar).1
      refine ⟨hexpected, hopen, .inr hfar, ?_⟩
      rw [requests_iff hmove trivial, hrequested]
      simp [hbefore, hfirst]
    | recheckingConnected =>
      obtain ⟨rfl | rfl, -⟩ := h
      · obtain rfl := canMove_connected (hnext trivial) hmove
        exact ⟨.inr rfl, by simp [requests_iff hmove trivial]⟩
      · exact absurd rfl (canMove_open (by decide) (hnext trivial) hmove).1
    | recheckingConnecting =>
      obtain ⟨rfl, -⟩ := h
      exact absurd rfl (canMove_open (by decide) (hnext trivial) hmove).1
    | returned result =>
      have hnone : ¬ Requests ⟨state, .returned result⟩ (.other next) := fun hr => hr.attempting
      simpa [Open, hnone] using h
  · have hnone : ¬ Requests c (.other next) := by
      intro hr
      obtain rfl := Access.other.inj hr.other
      exact hmove hr.allowed
    have hstep : c.step (.other next) = c := if_neg hmove
    rw [hstep]
    simpa [hnone] using h

theorem open_step (requested : Prop) (c : Interleaved) (a : Access) (h : Open requested c)
    (hended : ¬ Ended (c.step a)) : Open (requested ∨ Requests c a) (c.step a) := by
  cases a with
  | own =>
    have hnone : ¬ Requests c .own := fun hr => nomatch hr.other
    simpa only [hnone, or_false, step_own] using open_own h
  | other next => exact open_other h hended

theorem open_run {s : SocketState} {as : List Access}
    (h : ¬ Visits step Ended ⟨s, .loading⟩ as) :
    Open (Takes step Requests ⟨s, .loading⟩ as) (run step ⟨s, .loading⟩ as) :=
  unvisited_invariant (fun hs => ⟨id, fun hclosed => hs ⟨trivial, hclosed⟩⟩) open_step h

theorem requested_iff {s : SocketState} {as : List Access} {result : Bool}
    (hresult : (run step ⟨s, .loading⟩ as).caller = .returned result)
    (h : ¬ Visits step Ended ⟨s, .loading⟩ as) :
    Takes step Requests ⟨s, .loading⟩ as ↔ result = false := by
  have hopen := open_run h
  rwa [Open, hresult] at hopen

end request

theorem own_run (w : World) :
    run step ⟨w.state, .loading⟩ [.own, .own] =
      ⟨w.setDisconnectingCAS.2.state, .returned w.setDisconnectingCAS.1⟩ := by
  by_cases h : w.state = .disconnected ∨ w.state = .disconnecting
  · simp [step, setDisconnectingCAS, World.setDisconnectingCAS, h]
  · simp [step, setDisconnectingCAS, World.setDisconnectingCAS, h]

end Interleaved

theorem harmless_of_notMem {s : SocketState} {as : List Access}
    (h : Access.other .disconnectRequested ∉ as) : Harmless s as := by
  rintro ⟨before, a, hbefore, hrequests⟩
  obtain rfl := hrequests.other
  exact absurd (hbefore.subset (by simp)) h

theorem setDisconnectingCAS_faithful_iff {s : SocketState} {as : List Access} {result : Bool}
    (h : (run Interleaved.step ⟨s, .loading⟩ as).caller = .returned result) :
    Faithful s as ↔ Harmless s as := by
  constructor
  · intro hfaithful hrequests
    by_contra hvisits
    obtain rfl := (Interleaved.requested_iff h hvisits).mp hrequests
    exact hvisits (hfaithful.ended h)
  · intro hharmless
    refine ⟨Interleaved.moved s as, fun hfalse => ?_⟩
    by_contra hvisits
    exact hvisits (hharmless ((Interleaved.requested_iff hfalse hvisits).mpr rfl))

theorem setDisconnectingCAS_faithful_retried :
    Faithful .connecting [.own, .other .connected, .own, .own, .own, .own] :=
  (setDisconnectingCAS_faithful_iff
    (show _ = Caller.returned true by decide)).mpr (harmless_of_notMem (by decide))

theorem setDisconnectingCAS_swallows_close :
    ¬ Faithful .connecting [.own, .other .disconnectRequested, .own, .own, .own] :=
  fun h => absurd (h.ended (by decide)) (by decide)

end GWSockets
