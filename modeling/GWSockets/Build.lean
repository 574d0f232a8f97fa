import GWSockets.Encode
import GWSockets.Grammar
import GWSockets.Path
import Mathlib.Algebra.Group.Int.Defs
import Mathlib.Algebra.Group.Nat.Defs

namespace GWSockets

namespace Url

inductive BuildFailure where
  | failure (f : Failure)
  | buildError (reason : Bytes)
  | indexError (what : Bytes)
deriving DecidableEq, Repr

section build

def encoded (x : Except Failure Bytes) : Except BuildFailure Bytes := x.mapError .failure

def unlessEmpty (s : Bytes) (f : Bytes → Except BuildFailure Bytes) : Except BuildFailure Bytes :=
  if s = [] then .ok [] else f s

-- An int is printed in hexadecimal as the unsigned number with the same bits.
def hostText (ipV : Int) (host : Bytes) : Bytes :=
  if ipV = 0 ∨ ipV = 4 then host
  else if ipV = 6 then 0x5B :: host ++ [0x5D]
  else ascii "[v" ++ hex (ipV % 2 ^ 32).toNat ++ 0x2E :: host ++ [0x5D]

def isDefaultPort (scheme port : Bytes) : Bool :=
  (scheme == ascii "http" && port == ascii "80") || (scheme == ascii "https" && port == ascii "443")

def buildHost (p : Parsed) : Except BuildFailure Bytes := do
  let user ← unlessEmpty p.user fun s => (encoded (encode s 0x05)).map (· ++ [0x40])
  let port := if p.port = [] ∨ isDefaultPort p.scheme p.port then [] else 0x3A :: p.port
  pure (ascii "//" ++ user ++ hostText p.ipV p.host ++ port)

def checkBare (p : Parsed) : Except BuildFailure Bytes :=
  if p.user ≠ [] then .error (.buildError (ascii "User info defined, but host is empty"))
  else if p.port ≠ [] then .error (.buildError (ascii "Port defined, but host is empty"))
  else if (findFirstOf p.path (ascii ":/")).2.head? = some 0x3A then
    .error (.buildError (ascii "The first segment of the relative path can't contain ':'"))
  else .ok []

def buildPath (p : Parsed) : Except BuildFailure Bytes :=
  unlessEmpty p.path fun s =>
    if s.head? ≠ some 0x2F ∧ p.host ≠ [] then
      .error (.buildError (ascii "Path must start with '/' when host is not empty"))
    else encoded (encode s 0x0F)

def buildEntry (reason : Bytes) (entry : Bytes × Bytes) : Except BuildFailure Bytes :=
  if entry.1 = [] then .error (.buildError reason)
  else do
    let key ← encoded (encodeQueryKey entry.1 0x1F)
    let val ← unlessEmpty entry.2 fun s => (encoded (encodeQueryVal s 0x1F)).map (0x3D :: ·)
    pure (key ++ val)

def buildEntries : List (Bytes × Bytes) → Except BuildFailure Bytes
  | [] => .ok []
  | entry :: query => do
      let text ← buildEntry (ascii "A query entry has no key") entry
      let rest ← buildEntries query
      pure (0x26 :: text ++ rest)

def buildQuery : List (Bytes × Bytes) → Except BuildFailure Bytes
  | [] => .ok []
  | entry :: query => do
      let text ← buildEntry (ascii "First query entry has no key") entry
      let rest ← buildEntries query
      pure (0x3F :: text ++ rest)

def buildUrl (p : Parsed) : Except BuildFailure Bytes := do
  let scheme := if p.scheme = [] then [] else p.scheme ++ [0x3A]
  let authority ← if p.host = [] then checkBare p else buildHost p
  let path ← buildPath p
  let query ← buildQuery p.query
  let fragment ← unlessEmpty p.fragment fun s => (encoded (encode s 0x1F)).map (0x23 :: ·)
  pure (scheme ++ authority ++ path ++ query ++ fragment)

end build

section text

def present (s : Bytes) : Option Bytes := if s = [] then none else some s

def entryText (entry : Bytes × Bytes) : Bytes :=
  Part.key.text entry.1 ++ opened 0x3D ((present entry.2).map Part.val.text)

def entriesText (query : List (Bytes × Bytes)) : Bytes :=
  query.flatMap (fun entry => 0x26 :: entryText entry)

def queryText : List (Bytes × Bytes) → Option Bytes
  | [] => none
  | entry :: query => some (entryText entry ++ entriesText query)

namespace Parsed

variable (p : Parsed)

def writtenPort : Bytes := if isDefaultPort p.scheme p.port then [] else p.port

def authorityText : Bytes :=
  if p.host = [] then []
  else ascii "//" ++ (closed 0x40 ((present p.user).map Part.user.text) ++
    (hostText p.ipV p.host ++ opened 0x3A (present p.writtenPort)))

def resourceText : Bytes :=
  Part.path.text p.path ++ (opened 0x3F (queryText p.query) ++
    opened 0x23 ((present p.fragment).map Part.fragment.text))

def text : Bytes := closed 0x3A (present p.scheme) ++ (p.authorityText ++ p.resourceText)

structure Buildable : Prop where
  user : Ascii p.user
  path : Ascii p.path
  query : ∀ entry ∈ p.query, entry.1 ≠ [] ∧ Ascii entry.1 ∧ Ascii entry.2
  fragment : Ascii p.fragment
  bare : p.host = [] → p.user = [] ∧ p.port = [] ∧
    (findFirstOf p.path (ascii ":/")).2.head? ≠ some 0x3A
  rooted : p.host ≠ [] → ∀ c ∈ p.path.head?, c = 0x2F

end Parsed

variable {p : Parsed} {s t reason : Bytes} {query : List (Bytes × Bytes)} {entry : Bytes × Bytes}

theorem encoded_ok {x : Except Failure Bytes} : encoded x = .ok t ↔ x = .ok t := by
  cases x with
  | error f => simp [encoded, Except.mapError]
  | ok a => simp [encoded, Except.mapError]

theorem encoded_part (part : Part) : encoded (part.encode s) = .ok t ↔
    Ascii s ∧ part.text s = t := by
  rw [encoded_ok, part.encode_eq, Checked.ite_ok]

theorem unlessEmpty_opened (part : Part) {c : UInt8} :
    unlessEmpty s (fun s => (encoded (part.encode s)).map (c :: ·)) = .ok t ↔
      Ascii s ∧ opened c ((present s).map part.text) = t := by
  rw [unlessEmpty, present]
  split
  · next hs => simp [hs, Ascii, opened]
  · rw [Checked.map_ok]
    simp only [encoded_part, and_assoc, exists_and_left, exists_eq_left']
    rfl

theorem unlessEmpty_closed (part : Part) {c : UInt8} :
    unlessEmpty s (fun s => (encoded (part.encode s)).map (· ++ [c])) = .ok t ↔
      Ascii s ∧ closed c ((present s).map part.text) = t := by
  rw [unlessEmpty, present]
  split
  · next hs => simp [hs, Ascii, closed]
  · rw [Checked.map_ok]
    simp only [encoded_part, and_assoc, exists_and_left, exists_eq_left']
    rfl

theorem buildEntry_ok : buildEntry reason entry = .ok t ↔
    (entry.1 ≠ [] ∧ Ascii entry.1 ∧ Ascii entry.2) ∧ entryText entry = t := by
  rw [buildEntry]
  by_cases hkey : entry.1 = []
  · simp [hkey]
  · rw [if_neg hkey]
    show (encoded (Part.key.encode entry.1)).bind (fun key =>
      (unlessEmpty entry.2 fun s => (encoded (Part.val.encode s)).map (0x3D :: ·)).bind
        fun val => .ok (key ++ val)) = _ ↔ _
    simp only [Checked.bind_ok, encoded_part, unlessEmpty_opened, Except.ok.injEq, and_assoc,
      exists_and_left, exists_eq_left', hkey, ne_eq, not_false_eq_true, true_and]
    rfl

theorem buildEntries_ok : buildEntries query = .ok t ↔
    (∀ entry ∈ query, entry.1 ≠ [] ∧ Ascii entry.1 ∧ Ascii entry.2) ∧ entriesText query = t := by
  induction query generalizing t with
  | nil => simp [buildEntries, entriesText]
  | cons entry query ih =>
    show ((buildEntry (ascii "A query entry has no key") entry).bind fun text =>
      (buildEntries query).bind fun rest => .ok (0x26 :: text ++ rest)) = _ ↔ _
    simp only [Checked.bind_ok, buildEntry_ok, ih, Except.ok.injEq, and_assoc, exists_and_left,
      exists_eq_left', List.forall_mem_cons]
    rfl

theorem buildQuery_ok : buildQuery query = .ok t ↔
    (∀ entry ∈ query, entry.1 ≠ [] ∧ Ascii entry.1 ∧ Ascii entry.2) ∧
      opened 0x3F (queryText query) = t := by
  cases query with
  | nil => simp [buildQuery, queryText, opened]
  | cons entry query =>
    show ((buildEntry (ascii "First query entry has no key") entry).bind fun text =>
      (buildEntries query).bind fun rest => .ok (0x3F :: text ++ rest)) = _ ↔ _
    simp only [Checked.bind_ok, buildEntry_ok, buildEntries_ok, Except.ok.injEq, and_assoc,
      exists_and_left, exists_eq_left', List.forall_mem_cons]
    rfl

theorem opened_port : (if p.port = [] ∨ isDefaultPort p.scheme p.port then [] else 0x3A :: p.port) =
    opened 0x3A (present p.writtenPort) := by
  rw [Parsed.writtenPort]
  cases isDefaultPort p.scheme p.port with
  | true => simp [present, opened]
  | false =>
    by_cases hport : p.port = []
    · simp [hport, present, opened]
    · simp [hport, present, opened]

theorem buildHost_ok : buildHost p = .ok t ↔ Ascii p.user ∧
    ascii "//" ++ (closed 0x40 ((present p.user).map Part.user.text) ++
      (hostText p.ipV p.host ++ opened 0x3A (present p.writtenPort))) = t := by
  show ((unlessEmpty p.user fun s => (encoded (Part.user.encode s)).map (· ++ [0x40])).bind
    fun user => .ok (ascii "//" ++ user ++ hostText p.ipV p.host ++
      if p.port = [] ∨ isDefaultPort p.scheme p.port then [] else 0x3A :: p.port)) = _ ↔ _
  simp only [Checked.bind_ok, unlessEmpty_closed, opened_port, Except.ok.injEq, and_assoc,
    exists_and_left, exists_eq_left', List.append_assoc]

theorem checkBare_ok : checkBare p = .ok t ↔ (p.user = [] ∧ p.port = [] ∧
    (findFirstOf p.path (ascii ":/")).2.head? ≠ some 0x3A) ∧ [] = t := by
  rw [checkBare]
  by_cases huser : p.user = []
  · by_cases hport : p.port = []
    · by_cases hcolon : (findFirstOf p.path (ascii ":/")).2.head? = some 0x3A
      · simp [huser, hport, hcolon]
      · simp [huser, hport, hcolon]
    · simp [huser, hport]
  · simp [huser]

theorem buildPath_ok : buildPath p = .ok t ↔ (Ascii p.path ∧
    (p.host ≠ [] → ∀ c ∈ p.path.head?, c = 0x2F)) ∧ Part.path.text p.path = t := by
  rw [buildPath, unlessEmpty]
  cases hpath : p.path with
  | nil => simp [Ascii, Part.text]
  | cons c path =>
    rw [if_neg (List.cons_ne_nil _ _)]
    by_cases hrooted : (c :: path).head? ≠ some 0x2F ∧ p.host ≠ []
    · rw [if_pos hrooted]
      refine iff_of_false (by simp) ?_
      rintro ⟨⟨-, h⟩, -⟩
      exact hrooted.1 (congrArg some (h hrooted.2 c rfl))
    · have hroot : p.host ≠ [] → ∀ x ∈ (c :: path).head?, x = 0x2F := by
        intro hhost x hx
        have hhead := not_not.mp fun h => hrooted ⟨h, hhost⟩
        rw [hhead] at hx
        exact (Option.some.inj hx).symm
      rw [if_neg hrooted]
      show encoded (Part.path.encode (c :: path)) = _ ↔ _
      rw [encoded_part, and_iff_left hroot]

theorem buildUrl_ok : buildUrl p = .ok s ↔ p.Buildable ∧ p.text = s := by
  have hall : buildUrl p = (if p.host = [] then checkBare p else buildHost p).bind fun authority =>
      (buildPath p).bind fun path => (buildQuery p.query).bind fun query =>
        (unlessEmpty p.fragment fun s => (encoded (Part.fragment.encode s)).map (0x23 :: ·)).bind
          fun fragment => .ok ((if p.scheme = [] then [] else p.scheme ++ [0x3A]) ++ authority ++
            path ++ query ++ fragment) := by
    rw [buildUrl]
    split <;> rfl
  have hscheme : (if p.scheme = [] then [] else p.scheme ++ [0x3A]) =
      closed 0x3A (present p.scheme) := by
    rw [present]
    split <;> rfl
  rw [hall, hscheme]
  simp only [Checked.bind_ok, buildPath_ok, buildQuery_ok, unlessEmpty_opened, Except.ok.injEq,
    and_assoc, exists_and_left, exists_eq_left']
  by_cases hhost : p.host = []
  · simp only [hhost, if_true, checkBare_ok, and_assoc, exists_and_left, exists_eq_left']
    have htext : p.text = closed 0x3A (present p.scheme) ++ [] ++ Part.path.text p.path ++
        opened 0x3F (queryText p.query) ++
          opened 0x23 ((present p.fragment).map Part.fragment.text) := by
      simp [Parsed.text, Parsed.authorityText, hhost, Parsed.resourceText]
    rw [← htext]
    constructor
    · rintro ⟨huser, hport, hcolon, hpath, -, hquery, hfragment, rfl⟩
      exact ⟨⟨by simp [huser, Ascii], hpath, hquery, hfragment,
        fun _ => ⟨huser, hport, hcolon⟩, fun h => absurd hhost h⟩, rfl⟩
    · rintro ⟨h, rfl⟩
      obtain ⟨huser, hport, hcolon⟩ := h.bare hhost
      exact ⟨huser, hport, hcolon, h.path, fun h => absurd rfl h, h.query, h.fragment, rfl⟩
  · simp only [hhost, if_false, buildHost_ok, and_assoc, exists_and_left, exists_eq_left']
    have htext : p.text = closed 0x3A (present p.scheme) ++ (ascii "//" ++
        (closed 0x40 ((present p.user).map Part.user.text) ++
          (hostText p.ipV p.host ++ opened 0x3A (present p.writtenPort)))) ++
        Part.path.text p.path ++ opened 0x3F (queryText p.query) ++
          opened 0x23 ((present p.fragment).map Part.fragment.text) := by
      simp [Parsed.text, Parsed.authorityText, hhost, Parsed.resourceText]
    rw [← htext]
    constructor
    · rintro ⟨huser, hpath, hrooted, hquery, hfragment, rfl⟩
      exact ⟨⟨huser, hpath, hquery, hfragment, fun h => absurd h hhost, hrooted⟩, rfl⟩
    · rintro ⟨h, rfl⟩
      exact ⟨h.user, h.path, h.rooted, h.query, h.fragment, rfl⟩

end text

end Url
end GWSockets
