import GWSockets.Reference

namespace GWSockets

namespace Url

section tail

variable {path tail : Bytes}

theorem head_tail (query fragment : Option Bytes) :
    ∀ c ∈ (opened 0x3F query ++ opened 0x23 fragment).head?, c ∈ ascii "?#" := by
  intro c hc
  cases query with
  | some q =>
    cases hc
    decide
  | none =>
    cases fragment with
    | some f =>
      cases hc
      decide
    | none => cases hc

theorem take_two_iff (htail : ∀ c ∈ tail.head?, c ∈ ascii "?#") :
    (path ++ tail).take 2 = ascii "//" ↔ path.take 2 = ascii "//" := by
  have hslash : (0x2F : UInt8) ∉ ascii "?#" := by decide
  rcases path with _ | ⟨x, _ | ⟨y, path⟩⟩
  · cases tail with
    | nil => rfl
    | cons c tail =>
      refine iff_of_false (fun h => ?_) (by decide)
      obtain ⟨rfl, -⟩ := List.cons.inj h
      exact hslash (htail _ rfl)
  · cases tail with
    | nil => rfl
    | cons c tail =>
      refine iff_of_false (fun h => ?_) fun h => ?_
      · obtain ⟨-, h⟩ := List.cons.inj h
        obtain ⟨rfl, -⟩ := List.cons.inj h
        exact hslash (htail _ rfl)
      · cases (List.cons.inj h).2
  · rfl

-- A path without a scheme before it is taken for one as soon as a colon comes in it before any
-- slash.
theorem colon_first_iff (hpath : isChars path 0x2F = true)
    (htail : ∀ c ∈ tail.head?, c ∈ ascii "?#") :
    (findFirstOf (path ++ tail) (ascii ":/?#")).2.head? = some 0x3A ↔
      (findFirstOf path (ascii ":/")).2.head? = some 0x3A := by
  have hmarks : ∀ c ∈ path, c ∉ ascii "?#" := by
    have hclass : ∀ c ∈ ascii "?#", isChar c 0x2F = false := forall_mem_bytes (by decide)
    exact fun c hc he => not_mem_isChars hpath (hclass c he) hc
  have hsplit : ∀ c, c ∈ ascii ":/?#" ↔ c ∈ ascii ":/" ∨ c ∈ ascii "?#" := by
    simp [ascii, or_assoc]
  rcases hfind : findFirstOf path (ascii ":/") with ⟨a, q⟩
  obtain ⟨rfl, ha, hq⟩ := findFirstOf_eq_iff.mp hfind
  have hnone : ∀ c ∈ a, c ∉ ascii ":/?#" := by
    intro c hc he
    rcases (hsplit c).mp he with he | he
    · exact ha c hc he
    · exact hmarks c (List.mem_append_left _ hc) he
  cases q with
  | nil =>
    have htail' : findFirstOf (a ++ [] ++ tail) (ascii ":/?#") = (a, tail) :=
      findFirstOf_eq_iff.mpr ⟨by simp, hnone, fun c hc => (hsplit c).mpr (.inr (htail c hc))⟩
    rw [htail']
    refine iff_of_false (fun h => ?_) (by simp)
    exact absurd (htail _ h) (by decide)
  | cons x q =>
    have hx : x ∈ ascii ":/?#" := (hsplit x).mpr (.inl (hq x rfl))
    rw [List.append_assoc, List.cons_append, findFirstOf_stop hnone hx]
    rfl

end tail

structure Bare where
  scheme : Option Bytes
  path : Bytes
  query : Option Bytes
  fragment : Option Bytes
  scheme_valid : ∀ t ∈ scheme, isScheme t = true
  path_valid : isChars path 0x2F = true
  path_unrooted : path.take 2 ≠ ascii "//"
  path_plain : scheme = none → (findFirstOf path (ascii ":/")).2.head? ≠ some 0x3A
  query_valid : ∀ t ∈ query, 0x23 ∉ t
  fragment_valid : ∀ t ∈ fragment, isChars t 0x3F = true

namespace Bare

variable (r : Bare)

def resource : Bytes := r.path ++ (opened 0x3F r.query ++ opened 0x23 r.fragment)

def spell : Bytes := closed 0x3A r.scheme ++ r.resource

def pieces : Pieces :=
  { scheme := r.scheme, path := some r.path, query := r.query, fragment := r.fragment }

theorem authorityPart_resource (url p : Bytes) :
    authorityPart url r.resource p = .ok ({}, r.resource) := by
  have htake : r.resource.take 2 ≠ ascii "//" := fun h =>
    r.path_unrooted ((take_two_iff (head_tail _ _)).mp h)
  rw [authorityPart, if_neg fun h => htake h.2]

theorem tailPart_resource (url : Bytes) :
    tailPart url r.resource { scheme := r.scheme } = .ok r.pieces :=
  tailPart_spell url rfl r.path_valid r.query_valid r.fragment_valid

theorem split_spell : split r.spell = .ok r.pieces := by
  cases hs : r.scheme with
  | none =>
    have hspell : r.spell = r.resource := by simp [spell, hs, closed]
    rcases hfind : findFirstOf r.spell (ascii ":/?#") with ⟨b, p⟩
    cases p with
    | nil =>
      obtain ⟨hb, hno, -⟩ := findFirstOf_eq_iff.mp hfind
      rw [List.append_nil] at hb
      have hquery : r.query = none := opened_none (c := 0x3F) fun h =>
        hno 0x3F (by simp [← hb, hspell, resource, h]) (by decide)
      have hfragment : r.fragment = none := opened_none (c := 0x23) fun h =>
        hno 0x23 (by simp [← hb, hspell, resource, h]) (by decide)
      have hpath : r.path = b := by
        rw [← hb, hspell, resource, hquery, hfragment]
        simp [opened]
      rw [split, hfind, ← hpath]
      simp [r.path_valid, pieces, hs, hquery, hfragment]
    | cons x p =>
      have hcolon : (x :: p).head? ≠ some 0x3A := by
        have hplain := mt (colon_first_iff r.path_valid (head_tail r.query r.fragment)).mp
          (r.path_plain hs)
        rw [hspell, resource] at hfind
        rwa [hfind] at hplain
      have hscheme : schemePart r.spell b (x :: p) = .ok (none, r.spell) :=
        if_neg hcolon
      rw [split_eq hfind (List.cons_ne_nil _ _), hscheme]
      show (authorityPart r.spell r.spell (x :: p)).bind _ = _
      rw [hspell, authorityPart_resource, ← r.tailPart_resource r.resource, hs]
      rfl
  | some t =>
    have ht := r.scheme_valid t hs
    have hspell : r.spell = t ++ 0x3A :: r.resource := by simp [spell, hs, closed]
    have hfind : findFirstOf r.spell (ascii ":/?#") = (t, 0x3A :: r.resource) := by
      rw [hspell]
      exact findFirstOf_stop (fun c hc he => Reference.not_mem_scheme ht he hc) (by decide)
    have hscheme : schemePart r.spell t (0x3A :: r.resource) = .ok (some t, r.resource) := by
      simp [schemePart, ht]
    rw [split_eq hfind (List.cons_ne_nil _ _), hscheme]
    show (authorityPart r.spell r.resource _).bind _ = _
    rw [authorityPart_resource, ← r.tailPart_resource r.spell, hs]
    rfl

end Bare

theorem authorityPart_bare {url b p rest : Bytes} {pieces : Pieces} (hhost : pieces.host = none)
    (h : authorityPart url b p = .ok (pieces, rest)) :
    pieces = {} ∧ rest = b ∧ ¬ (p.head? = some 0x2F ∧ b.take 2 = ascii "//") := by
  rcases authorityPart_ok h with ⟨rfl, rfl⟩ | ⟨a, rfl, -⟩
  · refine ⟨rfl, rfl, fun hslash => ?_⟩
    rw [authorityPart, if_pos hslash] at h
    rcases findFirstOf (rest.drop 2) (ascii "/?#") with ⟨a, tail⟩
    obtain ⟨user, -, h⟩ := Checked.bind_ok.mp h
    obtain ⟨host, -, h⟩ := Checked.bind_ok.mp h
    obtain ⟨port, -, h⟩ := Checked.bind_ok.mp h
    cases congrArg (fun r => r.1.host) (Except.ok.inj h)
  · cases hhost

theorem split_bare {url : Bytes} {pieces : Pieces} (h : split url = .ok pieces)
    (hhost : pieces.host = none) : ∃ r : Bare, r.spell = url ∧ r.pieces = pieces := by
  rcases hfind : findFirstOf url (ascii ":/?#") with ⟨b, p⟩
  cases p with
  | nil =>
    obtain ⟨hb, hno, -⟩ := findFirstOf_eq_iff.mp hfind
    rw [List.append_nil] at hb
    subst hb
    rw [split, hfind] at h
    simp only [if_true, Checked.ite_ok] at h
    obtain ⟨hpath, rfl⟩ := h
    have hslash : 0x2F ∉ url := fun hc => hno 0x2F hc (by decide)
    refine ⟨⟨none, url, none, none, by simp, hpath, fun htake => hslash ?_, fun _ hcolon => ?_,
      by simp, by simp⟩, by simp [Bare.spell, Bare.resource, closed, opened], rfl⟩
    · exact List.mem_of_mem_take (htake ▸ List.mem_cons_self : 0x2F ∈ url.take 2)
    · have hmem : 0x3A ∈ url := (List.dropWhile_suffix _).subset (List.mem_of_mem_head? hcolon)
      exact hno 0x3A hmem (by decide)
  | cons x p =>
    rw [split_eq hfind (List.cons_ne_nil _ _)] at h
    obtain ⟨⟨scheme, b1⟩, hs, h⟩ := Checked.bind_ok.mp h
    obtain ⟨⟨part, rest⟩, ha, ht⟩ := Checked.bind_ok.mp h
    dsimp only at ha ht
    obtain ⟨hurl, hscheme⟩ := schemePart_ok hfind hs
    obtain ⟨hpart, hfragment⟩ : part.host = none ∧ part.fragment = none := by
      rcases authorityPart_ok ha with ⟨rfl, -⟩ | ⟨a, rfl, -⟩
      · exact ⟨rfl, rfl⟩
      · obtain ⟨path, query, fragment, -, rfl, -⟩ := tailPart_ok rfl ht
        cases hhost
    obtain ⟨rfl, rfl, hauthority⟩ := authorityPart_bare hpart ha
    obtain ⟨path, query, fragment, hrest, rfl, hpath, hquery, hfragment⟩ := tailPart_ok rfl ht
    have htail := head_tail query fragment
    have hunrooted : path.take 2 ≠ ascii "//" := by
      intro htake
      have hdouble : rest.take 2 = ascii "//" := by rw [hrest, take_two_iff htail, htake]
      obtain ⟨tail, rfl⟩ : ∃ tail, rest = 0x2F :: tail := by
        rcases rest with _ | ⟨c, tail⟩
        · cases hdouble
        · obtain rfl : c = 0x2F := (List.cons.inj hdouble).1
          exact ⟨tail, rfl⟩
      have hfirst : ∀ q, 0x2F ∈ q → findFirstOf (0x2F :: tail) q = ([], 0x2F :: tail) :=
        fun q => findFirstOf_stop (a := []) (by simp)
      refine hauthority ⟨?_, hdouble⟩
      cases scheme with
      | some t =>
        rw [hfirst _ (by decide)]
        rfl
      | none =>
        have hbare : url = 0x2F :: tail := hurl
        rw [hbare, hfirst _ (by decide), Prod.mk.injEq] at hfind
        rw [← hfind.2]
        rfl
    have hplain : scheme = none → (findFirstOf path (ascii ":/")).2.head? ≠ some 0x3A := by
      rintro rfl hcolon
      have hbare : url = rest := hurl
      rw [← colon_first_iff hpath htail, ← hrest, ← hbare, hfind] at hcolon
      rw [schemePart, if_pos hcolon] at hs
      cases (Checked.ite_ok.mp hs).2
    refine ⟨⟨scheme, path, query, fragment, hscheme, hpath, hunrooted, hplain, hquery,
      hfragment⟩, ?_, rfl⟩
    rw [hurl, hrest]
    rfl

theorem exists_of_split {url : Bytes} {pieces : Pieces} (h : split url = .ok pieces) :
    (∃ r : Reference, r.spell = url ∧ r.pieces = pieces) ∨
      ∃ r : Bare, r.spell = url ∧ r.pieces = pieces := by
  rcases split_ok h with hr | ⟨hhost, -⟩
  · exact .inl hr
  · exact .inr (split_bare h hhost)

theorem split_iff {url : Bytes} {pieces : Pieces} : split url = .ok pieces ↔
    (∃ r : Reference, r.spell = url ∧ r.pieces = pieces) ∨
      ∃ r : Bare, r.spell = url ∧ r.pieces = pieces := by
  constructor
  · exact exists_of_split
  · rintro (⟨r, rfl, rfl⟩ | ⟨r, rfl, rfl⟩)
    · exact r.split_spell
    · exact r.split_spell

end Url
end GWSockets
