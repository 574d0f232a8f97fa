import GWSockets.Closers

namespace GWSockets

open Machine

def Accessor.of : Caller → Accessor
  | .returned true => .disposing
  | .returned false => .idle
  | caller => .closing caller

def Accessor.Calling : Accessor → Prop
  | .closing _ => True
  | _ => False

instance : DecidablePred Accessor.Calling
  | .closing _ => .isTrue trivial
  | .idle | .opening | .starting | .requesting | .requestingFrom _ | .completing | .draining
  | .disposing | .storing => .isFalse id

theorem Accessor.of_eq {caller : Caller} (h : (Accessor.closing caller).Plausible) :
    Accessor.of caller = .closing caller := by
  cases caller with
  | returned result => exact h.elim
  | loading => rfl
  | exchanging expected => rfl
  | recheckingConnected => rfl
  | recheckingConnecting => rfl

theorem Accessor.calling_of {caller : Caller} (h : (Accessor.of caller).Calling) :
    Accessor.of caller = .closing caller := by
  cases caller with
  | returned result => cases result <;> exact h.elim
  | loading => rfl
  | exchanging expected => rfl
  | recheckingConnected => rfl
  | recheckingConnecting => rfl

theorem Accessor.returned_true {caller : Caller} (h : Accessor.of caller = .disposing) :
    caller = .returned true := by
  cases caller with
  | returned result => cases result <;> simp_all [Accessor.of]
  | loading => cases h
  | exchanging expected => cases h
  | recheckingConnected => cases h
  | recheckingConnecting => cases h

theorem Accessor.returned_false {caller : Caller} (h : Accessor.of caller = .idle) :
    caller = .returned false := by
  cases caller with
  | returned result => cases result <;> simp_all [Accessor.of]
  | loading => cases h
  | exchanging expected => cases h
  | recheckingConnected => cases h
  | recheckingConnecting => cases h

namespace Shared

variable {Thread : Type} [DecidableEq Thread]

def seen (t : Thread) (s : Shared Thread) : Turn Thread → Option Access
  | .access u weakFails =>
      if u = t then some .own
      else if (s.advance u weakFails).state = s.state then none
      else some (.other (s.advance u weakFails).state)
  | _ => none

structure Shows (t : Thread) (c : Interleaved) (s : Shared Thread) : Prop where
  state : s.state = c.state
  accessor : s.accessor t = .of c.caller

theorem advance_frame (s : Shared Thread) {t u : Thread} (hne : t ≠ u) (weakFails : Bool) :
    (s.advance u weakFails).accessor t = s.accessor t := by
  rw [advance]
  split
  case h_8 caller ht =>
    rw [setDisconnectingCAS]
    split <;> exact if_neg hne
  all_goals first
    | rfl
    | exact if_neg hne
    | split_ifs <;> exact if_neg hne

theorem shows_own {lua : Thread} {s : Shared Thread} (h : Exclusive lua s) {t : Thread}
    {caller : Caller} (ht : s.accessor t = .closing caller) :
    Shows t (Interleaved.setDisconnectingCAS ⟨s.state, caller⟩)
      (s.setDisconnectingCAS t caller) := by
  have hp := h.sound t
  rw [ht] at hp
  rw [setDisconnectingCAS]
  cases caller with
  | loading =>
    rw [Interleaved.setDisconnectingCAS]
    dsimp only
    split_ifs with hstate
    · exact ⟨rfl, if_pos rfl⟩
    · exact ⟨rfl, if_pos rfl⟩
  | exchanging expected =>
    rw [Interleaved.setDisconnectingCAS]
    dsimp only
    split_ifs with hstate
    · exact ⟨rfl, if_pos rfl⟩
    · exact ⟨rfl, if_pos rfl⟩
  | recheckingConnected =>
    rw [Interleaved.setDisconnectingCAS]
    dsimp only
    split_ifs with hstate
    · exact ⟨rfl, if_pos rfl⟩
    · exact ⟨rfl, if_pos rfl⟩
  | recheckingConnecting =>
    rw [Interleaved.setDisconnectingCAS]
    dsimp only
    split_ifs with hstate
    · exact ⟨rfl, if_pos rfl⟩
    · exact ⟨rfl, if_pos rfl⟩
  | returned result => exact hp.elim

theorem shows_other {lua : Thread} {s : Shared Thread} (h : Exclusive lua s) {t u : Thread}
    (hne : t ≠ u) (weakFails : Bool) {caller : Caller} (ht : s.accessor t = .closing caller) :
    Shows t (run Interleaved.step ⟨s.state, caller⟩ (seen t s (.access u weakFails)).toList)
      (s.advance u weakFails) := by
  have hframe : (s.advance u weakFails).accessor t = .of caller := by
    rw [advance_frame s hne, ht, Accessor.of_eq (ht ▸ h.sound t)]
  rw [seen, if_neg hne.symm]
  split_ifs with hstate
  · exact ⟨hstate, hframe⟩
  · rcases (turned_advance h u weakFails).moves h with ⟨hsame, -⟩ | ⟨⟨hmove, -⟩, -⟩
    · exact absurd hsame hstate
    · simp only [Option.toList_some, run_cons, run_nil, Interleaved.step, hmove, if_true]
      exact ⟨rfl, hframe⟩

theorem shows_step {lua : Thread} {s : Shared Thread} (h : Exclusive lua s) {t : Thread}
    {caller : Caller} (ht : s.accessor t = .closing caller) (turn : Turn Thread) :
    Shows t (run Interleaved.step ⟨s.state, caller⟩ (seen t s turn).toList)
      (s.step lua turn) := by
  have hstays : s.accessor t = .of caller := by
    rw [ht, Accessor.of_eq (ht ▸ h.sound t)]
  cases turn with
  | call u c =>
    rw [step.eq_def]
    dsimp only
    split_ifs with hidle
    · have hne : t ≠ u := by
        rintro rfl
        simp [ht] at hidle
      exact ⟨rfl, (if_neg hne).trans hstays⟩
    · exact ⟨rfl, hstays⟩
  | access u weakFails =>
    rcases eq_or_ne t u with rfl | hne
    · rw [seen, if_pos rfl, step, advance, ht]
      exact shows_own h ht
    · exact shows_other h hne weakFails ht
  | onDisconnected u expected =>
    rw [step.eq_def]
    dsimp only
    split_ifs with hidle
    · have hne : t ≠ u := by
        rintro rfl
        simp [ht] at hidle
      exact ⟨rfl, (if_neg hne).trans hstays⟩
    · exact ⟨rfl, hstays⟩

theorem shows_run {lua : Thread} {t : Thread} {turns : List (Turn Thread)} {s : Shared Thread}
    {caller : Caller} (h : Exclusive lua s) (ht : s.accessor t = .closing caller)
    (hcalling : Along (step lua) (fun s _ => (s.accessor t).Calling) s turns) :
    Shows t (run Interleaved.step ⟨s.state, caller⟩ (emitted (step lua) (seen t) s turns))
      (run (step lua) s turns) := by
  induction turns generalizing s caller with
  | nil => exact ⟨rfl, ht.trans (Accessor.of_eq (ht ▸ h.sound t)).symm⟩
  | cons turn turns ih =>
    obtain ⟨hstate, haccessor⟩ := shows_step h ht turn
    have hnext := (turned_step h turn).exclusive h
    rw [emitted, run_append, run_cons]
    cases turns with
    | nil => exact ⟨hstate, haccessor⟩
    | cons turn' turns =>
      have hin : ((s.step lua turn).accessor t).Calling := hcalling.2.1
      rw [haccessor] at hin
      rw [Accessor.calling_of hin] at haccessor
      have hrun := ih hnext haccessor hcalling.2
      rwa [hstate] at hrun

theorem seen_own {t : Thread} {s : Shared Thread} {turn : Turn Thread}
    (h : seen t s turn = some .own) : ∃ weakFails, turn = .access t weakFails := by
  cases turn with
  | call u c => cases h
  | access u weakFails =>
    rw [seen] at h
    split_ifs at h with hu
    · exact ⟨weakFails, hu ▸ rfl⟩
    · cases h
  | onDisconnected u expected => cases h

theorem seen_other {lua t : Thread} {s : Shared Thread} {turn : Turn Thread} {next : SocketState}
    (h : seen t s turn = some (.other next)) :
    s.state ≠ next ∧ (s.step lua turn).state = next := by
  cases turn with
  | call u c => cases h
  | access u weakFails =>
    rw [seen] at h
    split_ifs at h with hu hstate
    · cases h
    · obtain rfl := Access.other.inj (Option.some.inj h)
      exact ⟨Ne.symm hstate, rfl⟩
  | onDisconnected u expected => cases h

structure Requested (lua : Thread) (s : Shared Thread) (turn : Turn Thread) : Prop where
  before : ∃ expected, s.accessor lua = .requestingFrom expected
  after : (s.step lua turn).state = .disconnectRequested

structure Exchanged (lua t : Thread) (s : Shared Thread) (turn : Turn Thread) : Prop where
  own : ∃ weakFails, turn = .access t weakFails
  before : ¬ s.state.Closed
  after : (s.step lua turn).state = .disconnecting

theorem Turned.requested_of {lua : Thread} {s s' : Shared Thread} (h : Turned lua s s')
    (hbefore : s.state ≠ .disconnectRequested) (hafter : s'.state = .disconnectRequested) :
    ∃ expected, s.accessor lua = .requestingFrom expected := by
  cases h with
  | requested ht hstate => exact ht
  | none => exact absurd hafter hbefore
  | moved t a ht ha hstart hsound hlua => exact absurd hafter hbefore
  | started ht => exact absurd hafter hbefore
  | disposed t ht => exact absurd hafter hbefore
  | handled t ht hone hstate => exact absurd hafter hbefore
  | opened ht hstate => cases hafter
  | completed t ht hstate => cases hafter
  | drained t ht hstate => cases hafter
  | exchanged t ht hstate => cases hafter
  | stored t ht => cases hafter

section call

variable {lua t : Thread} {s : Shared Thread} {turns : List (Turn Thread)}

theorem exclusive_run (h : Exclusive lua s) (turns : List (Turn Thread)) :
    Exclusive lua (run (step lua) s turns) :=
  always_invariant (I := Exclusive lua) (fun _ turn hs => (turned_step hs turn).exclusive hs) h
    turns

theorem shows_before (h : Exclusive lua s) (ht : s.accessor t = .closing .loading)
    (hcalling : Along (step lua) (fun s _ => (s.accessor t).Calling) s turns)
    {before : List (Turn Thread)} (hbefore : before <+: turns) :
    Shows t (run Interleaved.step ⟨s.state, .loading⟩ (emitted (step lua) (seen t) s before))
      (run (step lua) s before) := by
  obtain ⟨after, rfl⟩ := hbefore
  exact shows_run h ht (along_append.mp hcalling).1

theorem exchanged_of (h : Exclusive lua s) (ht : s.accessor t = .closing .loading)
    (hcalling : Along (step lua) (fun s _ => (s.accessor t).Calling) s turns)
    (hend : (run (step lua) s turns).accessor t = .disposing) :
    Takes (step lua) (Exchanged lua t) s turns := by
  have hreturned := Accessor.returned_true ((shows_run h ht hcalling).accessor.symm.trans hend)
  obtain ⟨es, a, hes, hexchanges⟩ := Interleaved.moved _ _ hreturned
  obtain ⟨before, turn, hbefore, rfl, hseen⟩ := concat_prefix_emitted hes
  obtain ⟨hstate, haccessor⟩ :=
    shows_before h ht hcalling ((List.prefix_append before [turn]).trans hbefore)
  have hown : seen t (run (step lua) s before) turn = some .own := hexchanges.own ▸ hseen
  have hnow := exclusive_run h before
  have hplace : (run (step lua) s before).accessor t = .closing (.exchanging _) :=
    haccessor.trans (congrArg Accessor.of hexchanges.expected)
  have hafter := (shows_step hnow hplace turn).state
  refine ⟨before, turn, hbefore, seen_own hown, hstate ▸ hexchanges.before, hafter.trans ?_⟩
  rw [hown, hstate, Option.toList_some, run_cons, run_nil, Interleaved.step,
    Interleaved.setDisconnectingCAS]
  exact congrArg Interleaved.state (if_pos rfl)

theorem refused_of (h : Exclusive lua s) (ht : s.accessor t = .closing .loading)
    (hcalling : Along (step lua) (fun s _ => (s.accessor t).Calling) s turns)
    (hend : (run (step lua) s turns).accessor t = .idle) :
    Visits (step lua) (fun s => s.state.Closed) s turns ∨
      Takes (step lua) (Requested lua) s turns := by
  have hreturned := Accessor.returned_false ((shows_run h ht hcalling).accessor.symm.trans hend)
  by_cases hvisits : Visits Interleaved.step Interleaved.Ended ⟨s.state, .loading⟩
      (emitted (step lua) (seen t) s turns)
  · obtain ⟨es, hes, -, hclosed⟩ := hvisits
    obtain ⟨before, hbefore, rfl⟩ := prefix_emitted hes
    rw [← (shows_before h ht hcalling hbefore).state] at hclosed
    exact .inl ⟨before, hbefore, hclosed⟩
  · obtain ⟨es, a, hes, hrequests⟩ := (Interleaved.requested_iff hreturned hvisits).mpr rfl
    obtain ⟨before, turn, hbefore, rfl, hseen⟩ := concat_prefix_emitted hes
    obtain rfl := hrequests.other
    obtain ⟨hstate, hafter⟩ := @seen_other _ _ lua _ _ _ _ hseen
    have hturned := turned_step (exclusive_run h before) turn
    exact .inr ⟨before, turn, hbefore, hturned.requested_of hstate hafter, hafter⟩

end call

theorem closeNow_answered (lua t : Thread) (turns call : List (Turn Thread))
    (ht : (run (step lua) {} turns).accessor t = .closing .loading)
    (hcalling : Along (step lua) (fun s _ => (s.accessor t).Calling) (run (step lua) {} turns)
      call) :
    ((run (step lua) {} (turns ++ call)).accessor t = .disposing →
      Takes (step lua) (Exchanged lua t) (run (step lua) {} turns) call) ∧
    ((run (step lua) {} (turns ++ call)).accessor t = .idle →
      Visits (step lua) (fun s => s.state.Closed) (run (step lua) {} turns) call ∨
        Takes (step lua) (Requested lua) (run (step lua) {} turns) call) := by
  have h := (invariant_run lua turns).1
  rw [run_append]
  exact ⟨exchanged_of h ht hcalling, refused_of h ht hcalling⟩

theorem closeNow_answered_raced :
    let turns : List (Turn Bool) :=
      [.call true .openSocket, .access true false, .access true false, .call false .closeNow]
    let call : List (Turn Bool) :=
      [.access false false, .call true .closeNow, .access true false, .access true false,
        .access false false, .access false false, .access false false]
    Visits (step true) (fun s => s.state.Closed) (run (step true) {} turns) call ∨
      Takes (step true) (Requested true) (run (step true) {} turns) call :=
  (closeNow_answered true false
    [.call true .openSocket, .access true false, .access true false, .call false .closeNow]
    [.access false false, .call true .closeNow, .access true false, .access true false,
      .access false false, .access false false, .access false false] (by decide)
    (by decide)).2 (by decide)

end Shared
end GWSockets
