import GWSockets.Interleaving
import Mathlib.Data.List.Chain
import Mathlib.Tactic.Simps.Basic

namespace GWSockets

open Machine

-- The calls that write state. errorConnection makes the same accesses as closeNow.
inductive StateCall where
  | openSocket
  | close
  | handshakeCompleted
  | checkWriting
  | closeNow
deriving DecidableEq, Repr

-- The next access to state or generation of a thread that is in one of these calls. Disposing and
-- storing are the two of doClose.
inductive Accessor where
  | idle
  | opening
  | starting
  | requesting
  | requestingFrom (expected : SocketState)
  | completing
  | draining
  | closing (caller : Caller)
  | disposing
  | storing
deriving DecidableEq, Repr

-- What checkWriting, onRead and onWrite look at before they get there is left to the scheduler.
def StateCall.first : StateCall → Accessor
  | .openSocket => .opening
  | .close => .requesting
  | .handshakeCompleted => .completing
  | .checkWriting => .draining
  | .closeNow => .closing .loading

def StateCall.FromLua : StateCall → Prop
  | .openSocket | .close => True
  | _ => False

instance : DecidablePred StateCall.FromLua
  | .openSocket | .close => .isTrue trivial
  | .handshakeCompleted | .checkWriting | .closeNow => .isFalse id

structure Shared (Thread : Type) where
  state : SocketState := .disconnected
  generation : ℕ := 0
  accessor : Thread → Accessor := fun _ => .idle
  asyncCloses : List ℕ := []
  writes : List SocketState := []

inductive Turn (Thread : Type) where
  | call (t : Thread) (c : StateCall)
  | access (t : Thread) (weakFails : Bool)
  | onDisconnected (t : Thread) (expected : ℕ)
deriving DecidableEq

namespace Shared

variable {Thread : Type}

@[simps] def write (s : Shared Thread) (next : SocketState) : Shared Thread :=
  { s with state := next, writes := s.writes ++ [next] }

@[simps] def bump (s : Shared Thread) : Shared Thread := { s with generation := s.generation + 1 }

@[simps] def asyncClose (s : Shared Thread) : Shared Thread :=
  { s with asyncCloses := s.asyncCloses ++ [s.generation] }

@[simps] def handled (s : Shared Thread) (expected : ℕ) : Shared Thread :=
  { s with asyncCloses := s.asyncCloses.erase expected }

section step

variable [DecidableEq Thread] (lua : Thread)

@[simps] def put (s : Shared Thread) (t : Thread) (a : Accessor) : Shared Thread :=
  { s with accessor := fun u => if u = t then a else s.accessor u }

def setDisconnectingCAS (s : Shared Thread) (t : Thread) (caller : Caller) : Shared Thread :=
  match (Interleaved.setDisconnectingCAS ⟨s.state, caller⟩).caller with
  | .returned true => (s.write .disconnecting).put t .disposing
  | .returned false => s.put t .idle
  | next => s.put t (.closing next)

def advance (s : Shared Thread) (t : Thread) (weakFails : Bool) : Shared Thread :=
  match s.accessor t with
  | .idle => s
  | .opening =>
      if s.state = .disconnected then (s.write .connecting).put t .starting else s.put t .idle
  | .starting => s.bump.put t .idle
  | .requesting =>
      if s.state = .disconnected ∨ s.state = .disconnecting ∨ s.state = .disconnectRequested then
        s.put t .idle
      else s.put t (.requestingFrom s.state)
  | .requestingFrom expected =>
      if s.state = expected then (s.write .disconnectRequested).put t .idle else s.put t .idle
  | .completing =>
      if s.state = .connecting then (s.write .connected).put t .idle
      else s.put t (.closing .loading)
  | .draining =>
      if s.state = .disconnectRequested ∧ ¬ weakFails then
        (s.write .disconnecting).asyncClose.put t .idle
      else s.put t (.closing .loading)
  | .closing caller => s.setDisconnectingCAS t caller
  | .disposing => s.bump.put t .storing
  | .storing => (s.write .disconnected).put t .idle

-- Behind guardGeneration: doClose without an exchange.
def onDisconnected (s : Shared Thread) (t : Thread) (expected : ℕ) : Shared Thread :=
  (s.handled expected).put t
    (if s.generation % 2 ^ 32 = expected % 2 ^ 32 then .disposing else .idle)

def step (s : Shared Thread) : Turn Thread → Shared Thread
  | .call t c =>
      if s.accessor t = .idle ∧ (c.FromLua → t = lua) then s.put t c.first else s
  | .access t weakFails => s.advance t weakFails
  | .onDisconnected t expected =>
      if s.accessor t = .idle ∧ expected ∈ s.asyncCloses then s.onDisconnected t expected else s

@[grind =] theorem put_apply (s : Shared Thread) (t : Thread) (a : Accessor) (u : Thread) :
    (s.put t a).accessor u = if u = t then a else s.accessor u := rfl

end step

attribute [grind =] write_state write_generation write_accessor write_asyncCloses bump_state
  bump_generation bump_accessor bump_asyncCloses asyncClose_state asyncClose_generation
  asyncClose_accessor asyncClose_asyncCloses handled_state handled_generation handled_accessor
  handled_asyncCloses put_state put_generation put_asyncCloses

end Shared

@[grind =] def Accessor.Closes : Accessor → Prop
  | .disposing | .storing => True
  | _ => False

@[grind =] def Accessor.OnLua : Accessor → Prop
  | .opening | .starting | .requesting | .requestingFrom _ => True
  | _ => False

@[grind =] def Accessor.Plausible : Accessor → Prop
  | .requestingFrom expected => expected = .connecting ∨ expected = .connected
  | .closing (.exchanging expected) => ¬ expected.Closed
  | .closing (.returned _) => False
  | _ => True

inductive Closer (Thread : Type) where
  | thread (t : Thread)
  | handler (expected : ℕ)

namespace Shared

variable {Thread : Type}

def Closes (s : Shared Thread) : Closer Thread → Prop
  | .thread t => (s.accessor t).Closes
  | .handler expected => expected ∈ s.asyncCloses

structure Exclusive (lua : Thread) (s : Shared Thread) : Prop where
  sound : ∀ t, (s.accessor t).Plausible
  onLua : ∀ t, (s.accessor t).OnLua → t = lua
  starting : s.accessor lua = .starting → s.state ≠ .disconnectRequested ∧ s.asyncCloses = []
  closes : ∀ t, (s.accessor t).Closes → s.state = .disconnecting ∧ s.asyncCloses = []
  unique : ∀ t u, (s.accessor t).Closes → (s.accessor u).Closes → t = u
  asyncCloses : s.asyncCloses = [] ∨ s.asyncCloses = [s.generation] ∧ s.state = .disconnecting
  attended : s.state = .disconnecting → ∃ c, s.Closes c

structure Walked (s : Shared Thread) : Prop where
  chain : (SocketState.disconnected :: s.writes).IsChain (fun a b => a.canMove b = true ∧ a ≠ b)
  last : (SocketState.disconnected :: s.writes).getLast? = some s.state
  opened : s.writes.count .connecting =
    s.writes.count .disconnected + if s.state = .disconnected then 0 else 1
  closed : s.writes.count .disconnecting =
    s.writes.count .disconnected + if s.state = .disconnecting then 1 else 0

theorem Exclusive.init (lua : Thread) : Exclusive lua ({} : Shared Thread) :=
  ⟨fun _ => trivial, by simp [Accessor.OnLua], by simp, by simp [Accessor.Closes],
    by simp [Accessor.Closes], .inl rfl, by simp⟩

theorem Walked.init : Walked ({} : Shared Thread) := ⟨.singleton _, rfl, rfl, rfl⟩

theorem Walked.write {s : Shared Thread} (h : Walked s) {next : SocketState}
    (hmove : s.state.canMove next = true ∧ s.state ≠ next) : Walked (s.write next) := by
  have hopened := h.opened
  have hclosed := h.closed
  constructor
  · rw [write_writes, ← List.cons_append]
    refine h.chain.append (.singleton _) ?_
    intro a ha b hb
    rw [h.last, Option.mem_some_iff] at ha
    rw [List.head?_cons, Option.mem_some_iff] at hb
    rwa [← ha, ← hb]
  · rw [write_writes, ← List.cons_append, List.getLast?_concat, write_state]
  · rw [write_writes, List.count_append, List.count_append]
    revert hmove hopened
    cases s.state <;> cases next <;> simp [SocketState.canMove]
  · rw [write_writes, List.count_append, List.count_append]
    revert hmove hclosed
    cases s.state <;> cases next <;> simp [SocketState.canMove]

theorem Walked.congr {s s' : Shared Thread} (h : Walked s) (hstate : s'.state = s.state)
    (hwrites : s'.writes = s.writes) : Walked s' := by
  constructor
  · exact hwrites ▸ h.chain
  · exact hstate ▸ hwrites ▸ h.last
  · exact hstate ▸ hwrites ▸ h.opened
  · exact hstate ▸ hwrites ▸ h.closed

variable [DecidableEq Thread]

inductive Turned (lua : Thread) (s : Shared Thread) : Shared Thread → Prop where
  | none : Turned lua s s
  | moved (t : Thread) (a : Accessor) (ht : ¬ (s.accessor t).Closes) (ha : ¬ a.Closes)
      (hstart : s.accessor t ≠ .starting ∧ a ≠ .starting) (hsound : a.Plausible)
      (hlua : a.OnLua → t = lua) : Turned lua s (s.put t a)
  | opened (ht : s.accessor lua = .opening) (hstate : s.state = .disconnected) :
      Turned lua s ((s.write .connecting).put lua .starting)
  | started (ht : s.accessor lua = .starting) : Turned lua s (s.bump.put lua .idle)
  | requested (ht : ∃ expected, s.accessor lua = .requestingFrom expected)
      (hstate : s.state = .connecting ∨ s.state = .connected) :
      Turned lua s ((s.write .disconnectRequested).put lua .idle)
  | completed (t : Thread) (ht : s.accessor t = .completing) (hstate : s.state = .connecting) :
      Turned lua s ((s.write .connected).put t .idle)
  | drained (t : Thread) (ht : s.accessor t = .draining)
      (hstate : s.state = .disconnectRequested) :
      Turned lua s ((s.write .disconnecting).asyncClose.put t .idle)
  | exchanged (t : Thread) (ht : ∃ caller, s.accessor t = .closing caller)
      (hstate : ¬ s.state.Closed) : Turned lua s ((s.write .disconnecting).put t .disposing)
  | disposed (t : Thread) (ht : s.accessor t = .disposing) : Turned lua s (s.bump.put t .storing)
  | stored (t : Thread) (ht : s.accessor t = .storing) :
      Turned lua s ((s.write .disconnected).put t .idle)
  | handled (t : Thread) (ht : s.accessor t = .idle) (hclose : s.asyncCloses = [s.generation])
      (hstate : s.state = .disconnecting) :
      Turned lua s ((s.handled s.generation).put t .disposing)

theorem turned_closing {lua : Thread} {s : Shared Thread} (h : Exclusive lua s) (t : Thread)
    (caller : Caller) (ht : s.accessor t = .closing caller) :
    Turned lua s (s.setDisconnectingCAS t caller) := by
  have hp := h.sound t
  have hcloses : ¬ (s.accessor t).Closes := by simp [ht, Accessor.Closes]
  have hmoved : ∀ c, (Accessor.closing c).Plausible → Turned lua s (s.put t (.closing c)) :=
    fun c hc => .moved t _ hcloses id (by simp [ht]) hc nofun
  have hidle : Turned lua s (s.put t .idle) :=
    .moved t .idle hcloses id (by simp [ht]) trivial nofun
  rw [ht] at hp
  rw [setDisconnectingCAS]
  cases caller with
  | loading =>
    rw [Interleaved.setDisconnectingCAS]
    dsimp only
    split_ifs with hstate
    · exact hidle
    · exact hmoved _ hstate
  | exchanging expected =>
    rw [Interleaved.setDisconnectingCAS]
    dsimp only
    split_ifs with hstate
    · exact .exchanged t ⟨_, ht⟩ (hstate ▸ hp)
    · exact hmoved _ trivial
  | recheckingConnected =>
    rw [Interleaved.setDisconnectingCAS]
    dsimp only
    split_ifs with hstate
    · exact hmoved _ trivial
    · exact hmoved _ trivial
  | recheckingConnecting =>
    rw [Interleaved.setDisconnectingCAS]
    dsimp only
    split_ifs with hstate
    · exact hmoved _ trivial
    · exact hidle
  | returned result => exact hp.elim

theorem turned_advance {lua : Thread} {s : Shared Thread} (h : Exclusive lua s) (t : Thread)
    (weakFails : Bool) : Turned lua s (s.advance t weakFails) := by
  have hp := h.sound t
  have hlua := h.onLua t
  rw [advance]
  cases ht : s.accessor t with
  | idle => exact .none
  | opening =>
    rw [ht] at hlua
    obtain rfl := hlua trivial
    dsimp only
    split_ifs with hstate
    · exact .opened ht hstate
    · exact .moved t .idle (by simp [ht, Accessor.Closes]) id (by simp [ht]) trivial nofun
  | starting =>
    rw [ht] at hlua
    obtain rfl := hlua trivial
    exact .started ht
  | requesting =>
    rw [ht] at hlua
    obtain rfl := hlua trivial
    dsimp only
    split_ifs with hstate
    · exact .moved t .idle (by simp [ht, Accessor.Closes]) id (by simp [ht]) trivial nofun
    · refine .moved t _ (by simp [ht, Accessor.Closes]) id (by simp [ht]) ?_ (fun _ => rfl)
      revert hstate
      cases s.state <;> simp [Accessor.Plausible]
  | requestingFrom expected =>
    rw [ht] at hlua hp
    obtain rfl := hlua trivial
    dsimp only
    split_ifs with hstate
    · exact .requested ⟨expected, ht⟩ (hstate ▸ hp)
    · exact .moved t .idle (by simp [ht, Accessor.Closes]) id (by simp [ht]) trivial nofun
  | completing =>
    dsimp only
    split_ifs with hstate
    · exact .completed t ht hstate
    · exact .moved t _ (by simp [ht, Accessor.Closes]) id (by simp [ht]) trivial nofun
  | draining =>
    dsimp only
    split_ifs with hstate
    · exact .drained t ht hstate.1
    · exact .moved t _ (by simp [ht, Accessor.Closes]) id (by simp [ht]) trivial nofun
  | closing caller => exact turned_closing h t caller ht
  | disposing => exact .disposed t ht
  | storing => exact .stored t ht

theorem turned_step {lua : Thread} {s : Shared Thread} (h : Exclusive lua s) (turn : Turn Thread) :
    Turned lua s (s.step lua turn) := by
  rw [step.eq_def]
  cases turn with
  | call t c =>
    dsimp only
    split_ifs with hidle
    · obtain ⟨ht, hlua⟩ := hidle
      refine .moved t _ (by simp [ht, Accessor.Closes]) ?_ ?_ ?_ ?_
      all_goals cases c
      all_goals simp_all [StateCall.first, Accessor.Closes, Accessor.Plausible, Accessor.OnLua,
        StateCall.FromLua]
    · exact .none
  | access t weakFails => exact turned_advance h t weakFails
  | onDisconnected t expected =>
    dsimp only
    split_ifs with hidle
    · obtain ⟨ht, hmem⟩ := hidle
      rcases h.asyncCloses with hnil | ⟨hone, hstate⟩
      · simp [hnil] at hmem
      · obtain rfl : expected = s.generation := by simpa [hone] using hmem
        rw [onDisconnected, if_pos rfl]
        exact .handled t ht hone hstate
    · exact .none

theorem Turned.attended {lua : Thread} {s s' : Shared Thread} (hturned : Turned lua s s')
    (h : s.state = .disconnecting → ∃ c, s.Closes c) :
    s'.state = .disconnecting → ∃ c, s'.Closes c := by
  intro hstate'
  cases hturned with
  | none => exact h hstate'
  | moved t a ht ha hstart hsound hlua =>
    obtain ⟨c, hc⟩ := h hstate'
    refine ⟨c, ?_⟩
    cases c with
    | thread u =>
      have hne : u ≠ t := by
        rintro rfl
        exact ht hc
      simpa [Closes, hne] using hc
    | handler expected => exact hc
  | opened ht hstate => simp at hstate'
  | started ht =>
    obtain ⟨c, hc⟩ := h hstate'
    refine ⟨c, ?_⟩
    cases c with
    | thread u =>
      have hne : u ≠ lua := by
        rintro rfl
        rw [Closes, ht] at hc
        exact hc
      simpa [Closes, hne] using hc
    | handler expected => exact hc
  | requested ht hstate => simp at hstate'
  | completed t ht hstate => simp at hstate'
  | drained t ht hstate => exact ⟨.handler s.generation, by simp [Closes]⟩
  | exchanged t ht hstate => exact ⟨.thread t, by simp [Closes, Accessor.Closes]⟩
  | disposed t ht => exact ⟨.thread t, by simp [Closes, Accessor.Closes]⟩
  | stored t ht => simp at hstate'
  | handled t ht hclose hstate => exact ⟨.thread t, by simp [Closes, Accessor.Closes]⟩

theorem Turned.exclusive {lua : Thread} {s s' : Shared Thread} (hturned : Turned lua s s')
    (h : Exclusive lua s) : Exclusive lua s' := by
  have hattended := hturned.attended h.attended
  obtain ⟨hsound, honLua, hstarting, hcloses, hunique, hclose, hatt⟩ := h
  cases hturned with
  | none => exact ⟨hsound, honLua, hstarting, hcloses, hunique, hclose, hatt⟩
  | moved t a ht ha hstart hp hlua => refine ⟨?_, ?_, ?_, ?_, ?_, ?_, hattended⟩ <;> grind
  | opened ht hstate => refine ⟨?_, ?_, ?_, ?_, ?_, ?_, hattended⟩ <;> grind
  | started ht => refine ⟨?_, ?_, ?_, ?_, ?_, ?_, hattended⟩ <;> grind
  | requested ht hstate => refine ⟨?_, ?_, ?_, ?_, ?_, ?_, hattended⟩ <;> grind
  | completed t ht hstate => refine ⟨?_, ?_, ?_, ?_, ?_, ?_, hattended⟩ <;> grind
  | drained t ht hstate => refine ⟨?_, ?_, ?_, ?_, ?_, ?_, hattended⟩ <;> grind
  | exchanged t ht hstate =>
    refine ⟨?_, ?_, ?_, ?_, ?_, ?_, hattended⟩ <;> grind [SocketState.Closed]
  | disposed t ht => refine ⟨?_, ?_, ?_, ?_, ?_, ?_, hattended⟩ <;> grind
  | stored t ht => refine ⟨?_, ?_, ?_, ?_, ?_, ?_, hattended⟩ <;> grind
  | handled t ht hone hstate => refine ⟨?_, ?_, ?_, ?_, ?_, ?_, hattended⟩ <;> grind

theorem Turned.moves {lua : Thread} {s s' : Shared Thread} (hturned : Turned lua s s')
    (h : Exclusive lua s) : (s'.state = s.state ∧ s'.writes = s.writes) ∨
      (s.state.canMove s'.state = true ∧ s.state ≠ s'.state) ∧
        s'.writes = s.writes ++ [s'.state] := by
  cases hturned with
  | none => exact .inl ⟨rfl, rfl⟩
  | moved t a ht ha hstart hsound hlua => exact .inl ⟨rfl, rfl⟩
  | opened ht hstate => exact .inr ⟨by rw [hstate]; exact ⟨rfl, by simp⟩, rfl⟩
  | started ht => exact .inl ⟨rfl, rfl⟩
  | requested ht hstate =>
    refine .inr ⟨?_, rfl⟩
    rcases hstate with h | h <;> rw [h] <;> exact ⟨rfl, by simp⟩
  | completed t ht hstate => exact .inr ⟨by rw [hstate]; exact ⟨rfl, by simp⟩, rfl⟩
  | drained t ht hstate => exact .inr ⟨by rw [hstate]; exact ⟨rfl, by simp⟩, rfl⟩
  | exchanged t ht hstate =>
    refine .inr ⟨?_, rfl⟩
    rw [put_state, write_state]
    revert hstate
    cases s.state <;> simp [SocketState.Closed, SocketState.canMove]
  | disposed t ht => exact .inl ⟨rfl, rfl⟩
  | stored t ht =>
    refine .inr ⟨?_, rfl⟩
    rw [(h.closes t (by rw [ht]; trivial)).1]
    exact ⟨rfl, by simp⟩
  | handled t ht hone hstate => exact .inl ⟨rfl, rfl⟩

theorem Turned.walked {lua : Thread} {s s' : Shared Thread} (hturned : Turned lua s s')
    (h : Exclusive lua s) (hw : Walked s) : Walked s' := by
  rcases hturned.moves h with ⟨hstate, hwrites⟩ | ⟨hmove, hwrites⟩
  · exact hw.congr hstate hwrites
  · exact (hw.write hmove).congr rfl hwrites

variable (lua : Thread) (turns : List (Turn Thread))

theorem invariant_run : Exclusive lua (run (step lua) ({} : Shared Thread) turns) ∧
    Walked (run (step lua) ({} : Shared Thread) turns) := by
  refine always_invariant (I := fun s => Exclusive lua s ∧ Walked s) ?_
    ⟨Exclusive.init lua, Walked.init⟩ turns
  intro s turn h
  have hturned := turned_step h.1 turn
  exact ⟨hturned.exclusive h.1, hturned.walked h.1 h.2⟩

end Shared
end GWSockets
