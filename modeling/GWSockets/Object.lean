import GWSockets.Library.Machine
import GWSockets.Library.Observed
import GWSockets.Reparse
import GWSockets.Validity

namespace GWSockets

namespace Url

-- What a setter does: its argument is checked before anything is parsed, and where the members
-- stay as they are, the result is none.
structure Change where
  check : Option Failure
  apply : Parsed → Except BuildFailure (Option Parsed)

section setters

def refuse (reason : String) (s : Bytes) : Failure := .parseError (ascii reason ++ s ++ ascii "'")

def scheme (s : Bytes) : Change where
  check := if isScheme s then none else some (refuse "Invalid scheme '" s)
  apply p :=
    let o := toLower s
    .ok (if o ≠ p.scheme then
        some { p with scheme := o, port := if isDefaultPort o p.port then [] else p.port }
      else none)

def userInfo (s : Bytes) : Change where
  check := if 256 < s.length then
      some (refuse "User info is longer than 256 characters '" s)
    else none
  apply p := .ok (if p.user ≠ s then some { p with user := s } else none)

-- The -1 of an empty host is given to a uint8_t.
def hostValue (h : Bytes) (ipV : UInt8) : Except Failure (Bytes × UInt8) :=
  if h.isEmpty then .ok ([], 0xFF)
  else if isIPv4 h then
    if isValidIPv4 h then .ok (h, 4) else .error (refuse "Invalid IPv4 address '" h)
  else if ipV ≠ 0 ∧ ipV ≠ 4 ∧ ipV ≠ 6 then
    if isIPv6 h then .ok (h, ipV) else .error (refuse "Invalid IPvFuture address '" h)
  else if isIPv6 h then
    if isValidIPv6 h then (normalizeIPv6 h).map (·, 6)
    else .error (refuse "Invalid IPv6 address '" h)
  else if isRegName h then .ok (normalizeRegName h, 0)
  else .error (refuse "Invalid host '" h)

-- An int8_t is compared with a uint8_t as two ints.
def host (h : Bytes) (ipV : UInt8) : Change where
  check := if 253 < h.length then some (refuse "Host is longer than 253 characters '" h) else none
  apply p := do
    let (o, ipV) ← (hostValue h ipV).mapError .failure
    pure (if p.host ≠ o ∨ p.ipV ≠ ipV.toNat then
        some { p with host := o, ipV := ipV.toInt8.toInt }
      else none)

def port (s : Bytes) : Change where
  check := if isPort s then none else some (refuse "Invalid port '" s)
  apply p :=
    let o := if isDefaultPort p.scheme s then [] else s
    .ok (if p.port ≠ o then some { p with port := o } else none)

def path (s : Bytes) : Change where
  check := if 8000 < s.length then some (refuse "Path is longer than 8000 characters '" s) else none
  apply p :=
    let o := normalizePath s
    .ok (if p.path ≠ o then some { p with path := o } else none)

def fragment (s : Bytes) : Change where
  check := if 256 < s.length then
      some (refuse "Fragment is longer than 256 characters '" s)
    else none
  apply p := .ok (if p.fragment ≠ s then some { p with fragment := s } else none)

def setQuery (query : List (Bytes × Bytes)) : Change where
  check := none
  apply p := .ok (if query ≠ p.query then some { p with query := query } else none)

-- The reference to the whole query, with what is then written through it.
def editQuery (edit : List (Bytes × Bytes) → List (Bytes × Bytes)) : Change where
  check := none
  apply p := .ok (some { p with query := edit p.query })

def editEntry (i : Nat) (entry : Bytes × Bytes) : Change where
  check := none
  apply p :=
    if p.query.length ≤ i then
      .error (.indexError (ascii "Invalid Url query index (" ++ decimal i ++ ascii ")"))
    else .ok (some { p with query := p.query.set i entry })

def addQuery (entry : Bytes × Bytes) : Change where
  check := none
  apply p := .ok (some { p with query := p.query ++ [entry] })

inductive Setter where
  | scheme (s : Bytes)
  | userInfo (s : Bytes)
  | host (h : Bytes) (ipV : UInt8)
  | port (s : Bytes)
  | path (s : Bytes)
  | fragment (s : Bytes)
  | setQuery (query : List (Bytes × Bytes))
  | editQuery (edit : List (Bytes × Bytes) → List (Bytes × Bytes))
  | editEntry (i : Nat) (entry : Bytes × Bytes)
  | addQuery (entry : Bytes × Bytes)

def Setter.change : Setter → Change
  | .scheme s => Url.scheme s
  | .userInfo s => Url.userInfo s
  | .host h ipV => Url.host h ipV
  | .port s => Url.port s
  | .path s => Url.path s
  | .fragment s => Url.fragment s
  | .setQuery query => Url.setQuery query
  | .editQuery edit => Url.editQuery edit
  | .editEntry i entry => Url.editEntry i entry
  | .addQuery entry => Url.addQuery entry

end setters

structure Object where
  fields : Parsed := {}
  url : Bytes := []
  parse : Bool := true
  built : Bool := true
deriving DecidableEq, Repr

inductive Call where
  | clear
  | assignStr (urlStr : Bytes)
  | set (c : Setter)
  | fields
  | str

inductive Answer where
  | done
  | text (url : Bytes)
  | fields (p : Parsed)
deriving DecidableEq, Repr

namespace Object

def ofStr (urlStr : Bytes) : Object := { url := urlStr, parse := false, built := false }

def lazyParse (u : Object) : Except Failure Object :=
  if u.parse then .ok u
  else if u.url = [] then .ok {}
  else (parseUrl u.url).map fun p => { u with fields := p, parse := true, built := false }

def change (u : Object) (c : Change) : Except BuildFailure Answer × Object :=
  match c.check with
  | some e => (.error (.failure e), u)
  | none =>
      match u.lazyParse with
      | .error e => (.error (.failure e), u)
      | .ok u =>
          match c.apply u.fields with
          | .error e => (.error e, u)
          | .ok none => (.ok .done, u)
          | .ok (some p) => (.ok .done, { u with fields := p, built := false })

def readFields (u : Object) : Except BuildFailure Answer × Object :=
  match u.lazyParse with
  | .error e => (.error (.failure e), u)
  | .ok u => (.ok (.fields u.fields), u)

-- A text that was built is never taken for up to date.
def str (u : Object) : Except BuildFailure Answer × Object :=
  if u.built then (.ok (.text u.url), u)
  else
    match u.lazyParse with
    | .error e => (.error (.failure e), u)
    | .ok u =>
        match buildUrl u.fields with
        | .error e => (.error e, u)
        | .ok url => (.ok (.text url), { u with url := url, built := false })

def call (u : Object) : Call → Except BuildFailure Answer × Object
  | .clear => (.ok .done, {})
  | .assignStr urlStr => (.ok .done, { u with url := urlStr, parse := false, built := false })
  | .set c => u.change c.change
  | .fields => u.readFields
  | .str => u.str

def assign (u url : Object) : Object :=
  { parse := url.parse, built := url.built,
    fields := if url.parse then url.fields else u.fields,
    url := if !url.parse || url.built then url.url else u.url }

end Object

inductive Op where
  | call (i : Nat) (c : Call)
  | copy (i j : Nat)

def Object.next (m : Nat → Object) : Op → Except BuildFailure Answer × (Nat → Object)
  | .call i c => (((m i).call c).1, Function.update m i ((m i).call c).2)
  | .copy i j => (.ok .done, Function.update m i ((m i).assign (m j)))

-- The same with no text kept: a text is parsed when it is given, once, and is built when it is
-- asked for.
namespace Eager

def change (v : Except Failure Parsed) (c : Change) :
    Except BuildFailure Answer × Except Failure Parsed :=
  match c.check with
  | some e => (.error (.failure e), v)
  | none =>
      match v with
      | .error e => (.error (.failure e), v)
      | .ok p =>
          match c.apply p with
          | .error e => (.error e, v)
          | .ok q => (.ok .done, .ok (q.getD p))

def call (v : Except Failure Parsed) : Call → Except BuildFailure Answer × Except Failure Parsed
  | .clear => (.ok .done, .ok {})
  | .assignStr urlStr => (.ok .done, parseUrl urlStr)
  | .set c => change v c.change
  | .fields => ((v.mapError .failure).map .fields, v)
  | .str => ((((v.mapError .failure).bind buildUrl).map .text), v)

def next (m : Nat → Except Failure Parsed) :
    Op → Except BuildFailure Answer × (Nat → Except Failure Parsed)
  | .call i c => ((call (m i) c).1, Function.update m i (call (m i) c).2)
  | .copy i j => (.ok .done, Function.update m i (m j))

end Eager

namespace Object

variable {u url : Object}

def view (u : Object) : Except Failure Parsed := if u.parse then .ok u.fields else parseUrl u.url

structure Current (u : Object) : Prop where
  parse : u.built = true → u.parse = true
  text : u.built = true → buildUrl u.fields = .ok u.url

theorem current_default : Current {} := ⟨fun _ => rfl, fun _ => by decide⟩

theorem current_unbuilt (h : u.built = false) : Current u := by
  constructor
  · intro hb
    rw [h] at hb
    cases hb
  · intro hb
    rw [h] at hb
    cases hb

theorem view_parsed (h : u.parse = true) : view u = .ok u.fields := if_pos h

theorem lazyParse_view (hc : Current u) :
    (∃ u', u.lazyParse = .ok u' ∧ view u = .ok u'.fields ∧ u'.parse = true ∧ Current u') ∨
      ∃ e, u.lazyParse = .error e ∧ view u = .error e := by
  rw [lazyParse, view]
  cases hp : u.parse with
  | true => exact .inl ⟨u, rfl, rfl, hp, hc⟩
  | false =>
    by_cases hnil : u.url = []
    · exact .inl ⟨{}, if_pos hnil, by rw [hnil]; rfl, rfl, current_default⟩
    · rw [if_neg (by simp), if_neg hnil, if_neg (by simp)]
      cases hparse : parseUrl u.url with
      | error e => exact .inr ⟨e, rfl, rfl⟩
      | ok p => exact .inl ⟨_, rfl, rfl, rfl, current_unbuilt rfl⟩

theorem change_refines (hc : Current u) (c : Change) :
    (u.change c).1 = (Eager.change (view u) c).1 ∧
      view (u.change c).2 = (Eager.change (view u) c).2 ∧ Current (u.change c).2 := by
  rw [change, Eager.change.eq_def]
  cases c.check with
  | some e => exact ⟨rfl, rfl, hc⟩
  | none =>
    rcases lazyParse_view hc with ⟨u', hlazy, hview, hparse, hc'⟩ | ⟨e, hlazy, hview⟩
    · rw [hlazy, hview]
      dsimp only
      cases c.apply u'.fields with
      | error e => exact ⟨rfl, view_parsed hparse, hc'⟩
      | ok q =>
        cases q with
        | none => exact ⟨rfl, view_parsed hparse, hc'⟩
        | some p => exact ⟨rfl, view_parsed hparse, current_unbuilt rfl⟩
    · rw [hlazy, hview]
      exact ⟨rfl, rfl, hc⟩

theorem readFields_refines (hc : Current u) :
    u.readFields.1 = ((view u).mapError .failure).map .fields ∧
      view u.readFields.2 = view u ∧ Current u.readFields.2 := by
  rw [readFields]
  rcases lazyParse_view hc with ⟨u', hlazy, hview, hparse, hc'⟩ | ⟨e, hlazy, hview⟩
  · rw [hlazy, hview]
    exact ⟨rfl, view_parsed hparse, hc'⟩
  · rw [hlazy]
    exact ⟨by rw [hview]; rfl, rfl, hc⟩

theorem str_refines (hc : Current u) :
    u.str.1 = (((view u).mapError .failure).bind buildUrl).map .text ∧
      view u.str.2 = view u ∧ Current u.str.2 := by
  rw [str]
  cases hb : u.built with
  | true =>
    refine ⟨?_, rfl, hc⟩
    rw [view_parsed (hc.parse hb), Except.mapError, Except.bind, hc.text hb]
    rfl
  | false =>
    rw [if_neg (by simp)]
    rcases lazyParse_view hc with ⟨u', hlazy, hview, hparse, hc'⟩ | ⟨e, hlazy, hview⟩
    · rw [hlazy, hview, Except.mapError, Except.bind]
      dsimp only
      cases buildUrl u'.fields with
      | error e => exact ⟨rfl, view_parsed hparse, hc'⟩
      | ok url => exact ⟨rfl, view_parsed hparse, current_unbuilt rfl⟩
    · rw [hlazy]
      exact ⟨by rw [hview]; rfl, rfl, hc⟩

theorem call_refines (hc : Current u) (c : Call) :
    (u.call c).1 = (Eager.call (view u) c).1 ∧
      view (u.call c).2 = (Eager.call (view u) c).2 ∧ Current (u.call c).2 := by
  cases c with
  | clear => exact ⟨rfl, rfl, current_default⟩
  | assignStr urlStr => exact ⟨rfl, rfl, current_unbuilt rfl⟩
  | set c => exact change_refines hc c.change
  | fields => exact readFields_refines hc
  | str => exact str_refines hc

theorem assign_refines (hc : Current url) :
    view (u.assign url) = view url ∧ Current (u.assign url) := by
  cases hp : url.parse with
  | true =>
    have hview : view (u.assign url) = .ok url.fields := by simp [view, assign, hp]
    refine ⟨hview.trans (view_parsed hp).symm, fun _ => hp, fun hb => ?_⟩
    have hbuilt : url.built = true := hb
    simpa [assign, hp, hbuilt] using hc.text hbuilt
  | false =>
    have hbuilt : url.built = false := by
      cases hb : url.built with
      | false => rfl
      | true => exact absurd (hc.parse hb) (by simp [hp])
    exact ⟨by simp [view, assign, hp], current_unbuilt hbuilt⟩

def Refines (m : Nat → Object) (v : Nat → Except Failure Parsed) : Prop :=
  ∀ i, Current (m i) ∧ view (m i) = v i

theorem Refines.update {m : Nat → Object} {v : Nat → Except Failure Parsed} (h : Refines m v)
    (i : Nat) {w : Except Failure Parsed} (hc : Current u) (hview : view u = w) :
    Refines (Function.update m i u) (Function.update v i w) := by
  intro j
  by_cases hj : j = i
  · subst hj
    rw [Function.update_self, Function.update_self]
    exact ⟨hc, hview⟩
  · rw [Function.update_of_ne hj, Function.update_of_ne hj]
    exact h j

end Object

section settled

variable {p q : Parsed} {v : Except Failure Parsed} {m : Nat → Object}

theorem applied {x : Parsed} {c : Prop} [Decidable c]
    (h : (Except.ok (if c then some x else none) : Except BuildFailure _) = .ok (some q)) :
    x = q := by
  have hsome := Except.ok.inj h
  split at hsome
  · exact Option.some.inj hsome
  · cases hsome

theorem Settled.set_scheme {s : Bytes} (h : Settled p) (hs : isScheme s = true) : Settled
    { p with scheme := toLower s,
             port := if isDefaultPort (toLower s) p.port then [] else p.port } := by
  refine ⟨fun _ => isScheme_toLower hs, toLower_toLower s, fun hne => ?_, h.path⟩
  dsimp only at hne ⊢
  split at hne
  · exact absurd rfl hne
  · next hport =>
    rw [if_neg hport]
    exact h.port hne

theorem Settled.set_port {s : Bytes} (h : Settled p) (hs : isPort s = true) :
    Settled { p with port := if isDefaultPort p.scheme s then [] else s } := by
  refine ⟨h.scheme, h.lower, fun hne => ?_, h.path⟩
  dsimp only at hne ⊢
  split at hne
  · exact absurd rfl hne
  · next hport =>
    rw [if_neg hport]
    exact hs

theorem Setter.settled (c : Setter) (h : Settled p) (hcheck : c.change.check = none)
    (happly : c.change.apply p = .ok (some q)) : Settled q := by
  cases c with
  | scheme s =>
    rw [← applied happly]
    refine h.set_scheme ?_
    by_contra hs
    exact absurd ((if_neg hs).symm.trans hcheck) (by simp)
  | userInfo s =>
    rw [← applied happly]
    exact ⟨h.scheme, h.lower, h.port, h.path⟩
  | host o ipV =>
    obtain ⟨⟨o, n⟩, -, hset⟩ := Checked.bind_ok.mp happly
    rw [← applied hset]
    exact ⟨h.scheme, h.lower, h.port, h.path⟩
  | port s =>
    rw [← applied happly]
    refine h.set_port ?_
    by_contra hs
    exact absurd ((if_neg hs).symm.trans hcheck) (by simp)
  | path s =>
    rw [← applied happly]
    exact ⟨h.scheme, h.lower, h.port, normalizePath_idem s⟩
  | fragment s =>
    rw [← applied happly]
    exact ⟨h.scheme, h.lower, h.port, h.path⟩
  | setQuery query =>
    rw [← applied happly]
    exact ⟨h.scheme, h.lower, h.port, h.path⟩
  | editQuery edit =>
    obtain rfl := Option.some.inj (Except.ok.inj happly)
    exact ⟨h.scheme, h.lower, h.port, h.path⟩
  | editEntry i entry =>
    change (if p.query.length ≤ i then _ else _) = _ at happly
    split at happly
    · cases happly
    · obtain rfl := Option.some.inj (Except.ok.inj happly)
      exact ⟨h.scheme, h.lower, h.port, h.path⟩
  | addQuery entry =>
    obtain rfl := Option.some.inj (Except.ok.inj happly)
    exact ⟨h.scheme, h.lower, h.port, h.path⟩

theorem settled_default : Settled {} := ⟨by simp, rfl, by simp, rfl⟩

theorem Eager.call_settled (c : Call) (h : ∀ p, v = .ok p → Settled p) :
    ∀ p, (call v c).2 = .ok p → Settled p := by
  cases c with
  | clear =>
    rintro p ⟨⟩
    exact settled_default
  | assignStr urlStr =>
    intro p hparse
    exact (parseUrl_read hparse).toSettled
  | set c =>
    rw [call, change.eq_def]
    cases hcheck : c.change.check with
    | some e => exact h
    | none =>
      cases v with
      | error e => exact h
      | ok p =>
        dsimp only
        cases happly : c.change.apply p with
        | error e => exact h
        | ok o =>
          cases o with
          | none => exact h
          | some q =>
            rintro q ⟨⟩
            exact c.settled (h p rfl) hcheck happly
  | fields => exact h
  | str => exact h

end settled

namespace Object

variable {m : Nat → Object}

def reach (start : Nat → Option Bytes) (ops : List Op) : Nat → Object :=
  Machine.run (fun m op => (next m op).2) (fun i => (start i).elim {} ofStr) ops

def Sound (u : Object) : Prop := Current u ∧ ∀ p, view u = .ok p → Settled p

theorem sound_start (start : Option Bytes) : Sound (start.elim {} ofStr) := by
  cases start with
  | none =>
    refine ⟨current_default, ?_⟩
    rintro p ⟨⟩
    exact settled_default
  | some s => exact ⟨current_unbuilt rfl, fun p hparse => (parseUrl_read hparse).toSettled⟩

theorem next_sound (op : Op) (h : ∀ i, Sound (m i)) : ∀ i, Sound ((next m op).2 i) := by
  cases op with
  | call i c =>
    obtain ⟨-, hview, hc⟩ := call_refines (h i).1 c
    refine (Function.forall_update_iff m fun _ => Sound).mpr ⟨⟨hc, ?_⟩, fun k _ => h k⟩
    rw [hview]
    exact Eager.call_settled c (h i).2
  | copy i j =>
    obtain ⟨hview, hc⟩ := @assign_refines (m i) _ (h j).1
    refine (Function.forall_update_iff m fun _ => Sound).mpr ⟨⟨hc, ?_⟩, fun k _ => h k⟩
    rw [hview]
    exact (h j).2

theorem reach_sound (start : Nat → Option Bytes) (ops : List Op) (i : Nat) :
    Sound (reach start ops i) :=
  @Machine.always_invariant _ _ (fun m op => (next m op).2) (fun m => ∀ i, Sound (m i))
    (fun _ op h => next_sound op h) _ (fun i => sound_start (start i)) ops i

theorem readFields_ok (hc : Current u) {p : Parsed} :
    u.readFields.1 = .ok (.fields p) ↔ view u = .ok p := by
  rw [(readFields_refines hc).1]
  cases view u with
  | error e => simp [Except.mapError, Except.map]
  | ok q => simp [Except.mapError, Except.map]

theorem str_ok (hc : Current u) {p : Parsed} (hview : view u = .ok p) {s : Bytes} :
    u.str.1 = .ok (.text s) ↔ buildUrl p = .ok s := by
  rw [(str_refines hc).1, hview]
  show (buildUrl p).map Answer.text = _ ↔ _
  cases buildUrl p with
  | error e => simp [Except.map]
  | ok t => simp [Except.map]

theorem str_read_iff (start : Nat → Option Bytes) (ops : List Op) {i : Nat} {p : Parsed} {s : Bytes}
    (hfields : (reach start ops i).readFields.1 = .ok (.fields p))
    (hstr : (reach start ops i).str.1 = .ok (.text s)) (hlen : s.length ≤ 8000) :
    (ofStr s).readFields.1 = .ok (.fields { p with port := p.writtenPort }) ↔
      isChars p.user 0x05 = true ∧ (p.host ≠ [] → ReadBack p.ipV p.host) ∧
        (p.host = [] → p.ipV = -1) := by
  obtain ⟨hc, hsettled⟩ := reach_sound start ops i
  have hview := (readFields_ok hc).mp hfields
  obtain ⟨hb, rfl⟩ := buildUrl_ok.mp ((str_ok hc hview).mp hstr)
  rw [readFields_ok (current_unbuilt rfl)]
  refine (parseUrl_text_iff hb hlen).trans ⟨fun h => ⟨h.user, h.host, h.bare⟩, ?_⟩
  rintro ⟨huser, hhost, hbare⟩
  exact ⟨⟨hsettled p hview, huser⟩, hhost, hbare⟩

theorem str_read_set :
    (ofStr (ascii "http://h.org/b")).readFields.1 =
        .ok (.fields
          { scheme := ascii "http", host := ascii "h.org", ipV := 0, path := ascii "/b" }) ↔
      isChars [] 0x05 = true ∧ (ascii "h.org" ≠ [] → ReadBack 0 (ascii "h.org")) ∧
        (ascii "h.org" = [] → (0 : Int) = -1) :=
  @str_read_iff (fun _ => none)
    [.call 1 (.set (.port (ascii "80"))), .call 1 (.set (.host (ascii "H.org") 0)), .copy 0 1,
      .call 0 (.set (.path (ascii "/a/../b"))), .call 1 .clear,
      .call 0 (.set (.scheme (ascii "HTTP")))] 0
    { scheme := ascii "http", host := ascii "h.org", ipV := 0, path := ascii "/b" }
    (ascii "http://h.org/b") (by decide +kernel) (by decide +kernel) (by decide)

end Object

end Url
end GWSockets
