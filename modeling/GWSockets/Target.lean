import GWSockets.Creation
import GWSockets.Decorator
import GWSockets.Library.Stack
import GWSockets.Request

namespace GWSockets

namespace Url

open Stack (Move Kept)

section segments

def segmentMove (seg : Bytes) : Move :=
  if seg = [] ∨ seg = ascii "." then .skip else if seg = ascii ".." then .pop else .push

theorem pushElem_eq : pushElem = Stack.apply segmentMove := by
  funext elems elem
  rw [pushElem, Stack.apply, segmentMove]
  split
  · rfl
  · split <;> rfl

theorem mem_lastElem {elems : List Bytes} {elem x : Bytes} (hx : x ≠ []) :
    x ∈ lastElem elems elem ↔ x ∈ pushElem elems elem := by
  rw [lastElem, pushElem]
  by_cases hdot : elem = ascii "."
  · simp [hdot, hx]
  · by_cases hnil : elem = []
    · subst hnil
      simp [hx, ascii]
    · simp [hdot, hnil]

theorem mem_intercalate {sep c : UInt8} {elems : List Bytes} (hc : c ≠ sep) :
    c ∈ [sep].intercalate elems ↔ ∃ x ∈ elems, c ∈ x := by
  induction elems with
  | nil => simp
  | cons x elems ih =>
    cases elems with
    | nil => simp
    | cons y elems => simp [List.intercalate_cons_cons, ih, hc]

theorem mem_normalizePath {s : Bytes} {c : UInt8} (hc : c ≠ 0x2F) : c ∈ normalizePath s ↔
    ∃ x ∈ (s.splitOn 0x2F).foldl pushElem [], c ∈ x := by
  rw [normalizePath]
  split
  · next h =>
    rw [List.isEmpty_iff.mp h]
    simp [List.splitOn_nil, pushElem]
  · have hsplit : (s.splitOn 0x2F).foldl pushElem [] = pushElem
        ((s.splitOn 0x2F).dropLast.foldl pushElem []) ((s.splitOn 0x2F).getLastD []) := by
      obtain ⟨init, last, hl⟩ := (List.eq_nil_or_concat' (s.splitOn 0x2F)).resolve_left
        (List.splitOn_ne_nil _ _)
      rw [hl, List.foldl_concat, List.dropLast_concat]
      simp
    have hslash : c ∉ (if s.head? = some 0x2F then [0x2F] else []) := by
      split <;> simp [hc]
    rw [hsplit, List.mem_append, or_iff_right hslash, mem_intercalate hc]
    refine exists_congr fun x => and_congr_left fun hx => mem_lastElem ?_
    rintro rfl
    cases hx

end segments

def isUnsafe (c : UInt8) : Bool := c ≤ 0x20 || c == 0x7F || c == 0x23

namespace Reference

variable (r : Reference)

def SafePath : Prop := ∀ before seg after, (unescape r.path).splitOn 0x2F = before ++ seg :: after →
  Kept segmentMove after → ∀ c ∈ seg, isUnsafe c = false

theorem head_unescape : unescape r.path = [] ∨ (unescape r.path).head? = some 0x2F := by
  cases hp : r.path with
  | nil => exact .inl rfl
  | cons c path =>
    have hc : c = 0x2F := r.path_valid.2 c (by rw [hp]; rfl)
    subst hc
    rw [unescape, unescapeWith_plain (by decide)]
    exact .inr rfl

theorem head_target : r.target.head? = some 0x2F := by
  rw [target]
  rcases r.head_unescape with h | h
  · rw [h]
    rfl
  · have hne : (unescape r.path).isEmpty = false := by
      cases hs : unescape r.path with
      | nil =>
        rw [hs] at h
        cases h
      | cons c s => rfl
    simp [normalizePath, hne, h]

theorem mem_target {c : UInt8} (hc : c ≠ 0x2F) : c ∈ r.target ↔
    ∃ x ∈ ((unescape r.path).splitOn 0x2F).foldl pushElem [], c ∈ x := by
  rw [← mem_normalizePath hc, target]
  split
  · next h =>
    rw [List.isEmpty_iff.mp h]
    simp [ascii, hc]
  · exact Iff.rfl

theorem clean_iff : (∀ c ∈ r.target, isUnsafe c = false) ↔ r.SafePath := by
  have hslash : ∀ c, isUnsafe c = true → c ≠ 0x2F := by
    rintro c hc rfl
    cases hc
  have hmarks : ∀ seg, (∃ c ∈ seg, isUnsafe c = true) → segmentMove seg = .push := by
    rintro seg ⟨c, hc, hu⟩
    have hplain : ∀ s ∈ [[], ascii ".", ascii ".."], s.all (fun c => !isUnsafe c) = true := by
      decide
    have hother : seg ∉ [[], ascii ".", ascii ".."] := by
      intro h
      have hsafe := List.all_eq_true.mp (hplain seg h) c hc
      rw [hu] at hsafe
      cases hsafe
    simp only [List.mem_cons, List.not_mem_nil, or_false, not_or] at hother
    simp [segmentMove, hother]
  constructor
  · intro h before seg after hsplit hkept c hc
    by_contra hu
    have hmem : seg ∈ ((unescape r.path).splitOn 0x2F).foldl pushElem [] := by
      rw [pushElem_eq, Stack.mem_foldl_iff]
      exact ⟨hmarks seg ⟨c, hc, by simpa using hu⟩, before, after, hsplit, hkept⟩
    exact hu (h c ((r.mem_target (hslash c (by simpa using hu))).mpr ⟨seg, hmem, hc⟩))
  · intro h c hc
    by_contra hu
    obtain ⟨seg, hseg, hmem⟩ := (r.mem_target (hslash c (by simpa using hu))).mp hc
    rw [pushElem_eq, Stack.mem_foldl_iff] at hseg
    obtain ⟨-, before, after, hsplit, hkept⟩ := hseg
    exact hu (h before seg after hsplit hkept c hmem)

end Reference

end Url

section line

def requestLine (target : Bytes) : Bytes := ascii "GET " ++ target ++ ascii " HTTP/1.1"

structure SafeTarget (target : Bytes) : Prop where
  absolute : target.head? = some 0x2F
  clean : ∀ c ∈ target, Url.isUnsafe c = false
  read : ∀ rest, readLines (requestLine target ++ ascii "\r\n" ++ rest) =
    requestLine target :: readLines rest
  words : (requestLine target).splitOn 0x20 = [ascii "GET", target, ascii "HTTP/1.1"]

theorem safeTarget_of_clean {target : Bytes} (hhead : target.head? = some 0x2F)
    (hclean : ∀ c ∈ target, Url.isUnsafe c = false) : SafeTarget target := by
  have hno : ∀ c, Url.isUnsafe c = true → c ∉ target := by
    intro c hc hm
    rw [hclean c hm] at hc
    cases hc
  have hcr : 0x0D ∉ requestLine target := by
    have hmethod : (0x0D : UInt8) ∉ ascii "GET " := by decide
    have hversion : (0x0D : UInt8) ∉ ascii " HTTP/1.1" := by decide
    simp [requestLine, hmethod, hversion, hno 0x0D (by decide)]
  refine ⟨hhead, hclean, fun rest => ?_, ?_⟩
  · have hassoc : requestLine target ++ ascii "\r\n" ++ rest =
        requestLine target ++ 0x0D :: 0x0A :: rest := by simp [ascii]
    rw [readLines, hassoc, Delimited.split_append hcr,
      List.dropLast_cons_of_ne_nil Delimited.split_ne_nil]
    rfl
  · have hwords : requestLine target =
        [0x20].intercalate [ascii "GET", target, ascii "HTTP/1.1"] := by
      simp [requestLine, List.intercalate_cons_cons, ascii]
    rw [hwords]
    refine List.splitOn_intercalate _ (fun x hx => ?_) (List.cons_ne_nil _ _)
    simp only [List.mem_cons, List.not_mem_nil, or_false] at hx
    rcases hx with rfl | rfl | rfl
    · decide
    · exact hno 0x20 (by decide)
    · decide

end line

namespace Url

section target

def SafeUrl (url : Bytes) : Prop := ∀ r : Reference, r.spell = url → r.SafePath

variable {url : Bytes} {verify : Bool} {w : World}

theorem target_safe_iff (h : createWebSocketFromURL url verify = .ok w) :
    (∀ host target, w.Handshakes host target → SafeTarget target) ↔ SafeUrl url := by
  obtain ⟨-, -, hlen, -⟩ := create_ok h
  constructor
  · rintro hsafe r rfl
    obtain ⟨host, -, rfl, -⟩ := r.create_world hlen h
    exact r.clean_iff.mp (hsafe _ _ World.handshakes_new).clean
  · intro hsafe host target hask
    obtain ⟨r, rfl, -, -⟩ := create_ok h
    obtain ⟨_, -, rfl, -⟩ := r.create_world hlen h
    obtain ⟨-, rfl⟩ := World.handshakes_new_iff.mp hask
    exact safeTarget_of_clean r.head_target (r.clean_iff.mpr (hsafe r rfl))

theorem target_safe_climbed :
    (∀ host target, (World.new (.sslWebSocket true) (ascii "h") 443 (ascii "/b")).Handshakes
      host target → SafeTarget target) ↔ SafeUrl (ascii "wss://h/%0d%0a/../b") :=
  @target_safe_iff _ true _ (by decide +kernel)

theorem target_unsafe : ∃ w target,
    createWebSocketFromURL (ascii "ws://h/%20HTTP/1.1%0d%0aA:%0d%0aB:") true = .ok w ∧
      w.Handshakes (ascii "h") target ∧ ¬ SafeTarget target ∧
      readLines (requestLine target ++ ascii "\r\n") =
        [ascii "GET / HTTP/1.1", ascii "A:", ascii "B: HTTP/1.1"] := by
  have hcreate : createWebSocketFromURL (ascii "ws://h/%20HTTP/1.1%0d%0aA:%0d%0aB:") true =
      .ok (World.new .webSocket (ascii "h") 80 (ascii "/ HTTP/1.1\r\nA:\r\nB:")) := by
    decide +kernel
  refine ⟨_, _, hcreate, World.handshakes_new, fun hsafe => ?_, by decide +kernel⟩
  have hcr := hsafe.clean 0x0D (by decide)
  cases hcr

end target

section query

structure QueryRequested (query : Bytes) (w w' : World) : Prop where
  kind : w'.kind = w.kind
  host : w'.host = w.host
  port : w'.port = w.port
  target : ∀ host target, w.Handshakes host target →
    ∀ host' target', w'.Handshakes host' target' → target' = target ++ 0x3F :: query

theorem Reference.bare {r : Reference} (hmark : 0x3F ∉ r.spell) (hhash : 0x23 ∉ r.spell) :
    r.query = none ∧ r.fragment = none := by
  simp only [Reference.spell, Reference.resource, List.mem_append, not_or] at hmark hhash
  exact ⟨opened_none hmark.2.2.2.2.1, opened_none hhash.2.2.2.2.2⟩

theorem query_dropped {url query : Bytes} {verify : Bool} {w w' : World}
    (hurl : 0x3F ∉ url ∧ 0x23 ∉ url) (hquery : 0x23 ∉ query)
    (h : createWebSocketFromURL url verify = .ok w)
    (h' : createWebSocketFromURL (url ++ 0x3F :: query) verify = .ok w') :
    w' = w ∧ ¬ QueryRequested query w w' := by
  obtain ⟨r, rfl, hlen, -⟩ := create_ok h
  obtain ⟨-, -, hlen', -⟩ := create_ok h'
  obtain ⟨hq, hf⟩ := Reference.bare hurl.1 hurl.2
  let r' : Reference :=
    { r with query := some query, query_valid := by rintro t ⟨⟩; exact hquery }
  have hspell : r'.spell = r.spell ++ 0x3F :: query := by
    simp [r', Reference.spell, Reference.resource, hq, hf, opened]
  rw [← hspell] at h' hlen'
  obtain ⟨host, hhost, rfl, -⟩ := r.create_world hlen h
  obtain ⟨host', hhost', rfl, -⟩ := r'.create_world hlen' h'
  obtain rfl : host' = host := by
    have heq : Except.ok host' = Except.ok host := hhost'.symm.trans hhost
    exact Except.ok.inj heq
  have hsame : World.new (r'.kind verify) host' r'.portNumber r'.target =
      World.new (r.kind verify) host' r.portNumber r.target := rfl
  refine ⟨hsame, fun hr => ?_⟩
  have htarget := hr.target _ _ World.handshakes_new _ _ World.handshakes_new
  have hlength := congrArg List.length htarget
  rw [List.length_append, List.length_cons] at hlength
  have hle : r'.target.length = r.target.length := rfl
  omega

theorem query_dropped_socket : ∃ w w',
    createWebSocketFromURL (ascii "wss://h/a") true = .ok w ∧
      createWebSocketFromURL (ascii "wss://h/a" ++ 0x3F :: ascii "t=1") true = .ok w' ∧
      w' = w ∧ ¬ QueryRequested (ascii "t=1") w w' := by
  have hplain : createWebSocketFromURL (ascii "wss://h/a") true =
      .ok (World.new (.sslWebSocket true) (ascii "h") 443 (ascii "/a")) := by
    decide +kernel
  have hquery : createWebSocketFromURL (ascii "wss://h/a" ++ 0x3F :: ascii "t=1") true =
      .ok (World.new (.sslWebSocket true) (ascii "h") 443 (ascii "/a")) := by
    decide +kernel
  exact ⟨_, _, hplain, hquery, query_dropped (by decide) (by decide) hplain hquery⟩

theorem query_not_requested : ∃ w w',
    createWebSocketFromURL (ascii "ws://h/a") true = .ok w ∧
      createWebSocketFromURL (ascii "ws://h/a?t=1") true = .ok w' ∧
      ¬ QueryRequested (ascii "t=1") w w' := by
  have hplain : createWebSocketFromURL (ascii "ws://h/a") true =
      .ok (World.new .webSocket (ascii "h") 80 (ascii "/a")) := by
    decide +kernel
  have hquery : createWebSocketFromURL (ascii "ws://h/a?t=1") true =
      .ok (World.new .webSocket (ascii "h") 80 (ascii "/a")) := by
    decide +kernel
  refine ⟨_, _, hplain, hquery, fun h => ?_⟩
  have htarget := h.target _ _ World.handshakes_new _ _ World.handshakes_new
  revert htarget
  decide

end query

end Url
end GWSockets
