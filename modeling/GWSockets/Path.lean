import GWSockets.Library.Delimited
import GWSockets.Url

namespace GWSockets

namespace Url

def Solid (seg : Bytes) : Prop :=
  seg ≠ [] ∧ seg ≠ ascii "." ∧ seg ≠ ascii ".." ∧ 0x2F ∉ seg

def slashed (elems : List Bytes) : Bytes := [0x2F].intercalate elems

def location (s : Bytes) : List Bytes := (s.splitOn 0x2F).foldl pushElem []

def isDirectory (s : Bytes) : Bool :=
  (s.splitOn 0x2F).getLastD [] == [] || (s.splitOn 0x2F).getLastD [] == ascii "."

section segments

variable {elems pieces : List Bytes} {elem s : Bytes}

theorem pushElem_solid (h : ∀ x ∈ elems, Solid x) (hslash : 0x2F ∉ elem) :
    ∀ x ∈ pushElem elems elem, Solid x := by
  rw [pushElem]
  split_ifs with hskip hpop
  · exact h
  · exact fun x hx => h x (List.dropLast_subset _ hx)
  · intro x hx
    rcases List.mem_append.mp hx with hx | hx
    · exact h x hx
    · rw [List.mem_singleton] at hx
      subst hx
      rw [not_or] at hskip
      exact ⟨hskip.1, hskip.2, hpop, hslash⟩

theorem foldl_pushElem_solid (h : ∀ x ∈ elems, Solid x) (hpieces : ∀ x ∈ pieces, 0x2F ∉ x) :
    ∀ x ∈ pieces.foldl pushElem elems, Solid x := by
  induction pieces generalizing elems with
  | nil => exact h
  | cons p pieces ih =>
    obtain ⟨hp, hrest⟩ := List.forall_mem_cons.mp hpieces
    exact ih (pushElem_solid h hp) hrest

theorem foldl_pushElem_eq (h : ∀ x ∈ pieces, Solid x) :
    pieces.foldl pushElem elems = elems ++ pieces := by
  induction pieces generalizing elems with
  | nil => exact (List.append_nil elems).symm
  | cons p pieces ih =>
    obtain ⟨⟨hnil, hdot, hpop, -⟩, hrest⟩ := List.forall_mem_cons.mp h
    rw [List.foldl_cons, pushElem, if_neg (by simp [hnil, hdot]), if_neg hpop, ih hrest,
      List.append_assoc]
    rfl

theorem lastElem_eq : lastElem elems elem =
    pushElem elems elem ++ if elem == [] || elem == ascii "." then [[]] else [] := by
  rw [lastElem, pushElem]
  rcases eq_or_ne elem [] with rfl | hnil
  · simp [ascii]
  · rcases eq_or_ne elem (ascii ".") with rfl | hdot
    · simp
    · simp [hnil, hdot]

theorem location_solid (s : Bytes) : ∀ x ∈ location s, Solid x :=
  foldl_pushElem_solid (by simp) fun _ hx hmem =>
    (Delimited.mem_of_mem_splitOn hx _ hmem).2 rfl

theorem splitOn_slashed (h : ∀ x ∈ elems, 0x2F ∉ x) (hne : elems ≠ []) :
    (slashed elems).splitOn 0x2F = elems := List.splitOn_intercalate _ h hne

theorem splitOn_lead (b : Bool) (s : Bytes) :
    ((if b then [0x2F] else []) ++ s).splitOn 0x2F =
      (if b then [[]] else []) ++ s.splitOn 0x2F := by
  cases b with
  | false => rfl
  | true => exact List.splitOn_append_cons_self [] s

theorem head_slashed (h : ∀ x ∈ elems, Solid x) (b : Bool) :
    (slashed (elems ++ if b then [[]] else [])).head? ≠ some 0x2F := by
  cases elems with
  | nil => cases b <;> simp [slashed]
  | cons x elems =>
    obtain ⟨hnil, -, -, hslash⟩ := h x List.mem_cons_self
    obtain ⟨c, x, rfl⟩ := List.exists_cons_of_ne_nil hnil
    intro hc
    rw [slashed, List.cons_append] at hc
    rcases elems ++ (if b then [[]] else []) with _ | ⟨y, rest⟩
    · simp at hc
      simp [hc] at hslash
    · simp at hc
      simp [hc] at hslash

end segments

@[ext] structure Place where
  absolute : Bool
  names : List Bytes
  directory : Bool
  solid : ∀ x ∈ names, Solid x
  top : names = [] → directory = true

namespace Place

def spell (p : Place) : Bytes :=
  (if p.absolute then [0x2F] else []) ++ slashed (p.names ++ if p.directory then [[]] else [])

end Place

def place (s : Bytes) : Place where
  absolute := s.head? == some 0x2F
  names := location s
  directory := location s == [] || isDirectory s
  solid := location_solid s
  top h := by simp [h]

section place

theorem slashed_directory (names : List Bytes) (b : Bool) :
    slashed (names ++ if b then [[]] else []) =
      slashed (names ++ if names == [] || b then [[]] else []) := by
  cases names with
  | nil => cases b <;> rfl
  | cons x names => rfl

theorem normalizePath_eq (s : Bytes) : normalizePath s = (place s).spell := by
  cases s with
  | nil => decide
  | cons c s =>
    obtain ⟨init, last, hsplit⟩ := (List.eq_nil_or_concat' ((c :: s).splitOn 0x2F)).resolve_left
      (List.splitOn_ne_nil _ _)
    have helems : lastElem (init.foldl pushElem []) last =
        location (c :: s) ++ if isDirectory (c :: s) then [[]] else [] := by
      rw [lastElem_eq, location, isDirectory, hsplit, List.foldl_concat]
      simp
    have hspell : (place (c :: s)).spell = (if (c :: s).head? == some 0x2F then [0x2F] else []) ++
        slashed (location (c :: s) ++
          if location (c :: s) == [] || isDirectory (c :: s) then [[]] else []) := rfl
    rw [hspell, ← slashed_directory, ← helems, normalizePath, if_neg (by simp), hsplit]
    simp [slashed]

namespace Place

variable (p : Place)

def elems : List Bytes := p.names ++ if p.directory then [[]] else []

theorem splitOn_spell :
    p.spell.splitOn 0x2F = (if p.absolute then [[]] else []) ++ p.elems := by
  have hne : p.elems ≠ [] := by
    intro h
    obtain ⟨hnames, hdirectory⟩ := List.append_eq_nil_iff.mp h
    simp [p.top hnames] at hdirectory
  have hslash : ∀ x ∈ p.elems, 0x2F ∉ x := by
    intro x hx
    rcases List.mem_append.mp hx with hx | hx
    · exact (p.solid x hx).2.2.2
    · split at hx
      · simp [List.mem_singleton.mp hx]
      · cases hx
  rw [spell, splitOn_lead, ← elems, splitOn_slashed hslash hne]

theorem location_spell : location p.spell = p.names := by
  have hroot : (if p.absolute then [[]] else []).foldl pushElem [] = [] := by
    cases p.absolute <;> rfl
  rw [location, splitOn_spell, List.foldl_append, hroot, elems, List.foldl_append,
    foldl_pushElem_eq p.solid, List.nil_append]
  cases p.directory <;> simp [pushElem]

theorem isDirectory_spell : isDirectory p.spell = p.directory := by
  rw [isDirectory, splitOn_spell, elems]
  cases hd : p.directory with
  | true => simp
  | false =>
    obtain ⟨names, last, hnames⟩ := (List.eq_nil_or_concat' p.names).resolve_left
      fun h => by simp [p.top h] at hd
    obtain ⟨hnil, hdot, -⟩ := p.solid last (by simp [hnames])
    simp [hnames, hnil, hdot]

theorem head_spell : (p.spell.head? == some 0x2F) = p.absolute := by
  rw [spell]
  cases p.absolute with
  | true => simp
  | false => simpa using head_slashed p.solid p.directory

end Place

theorem place_spell (p : Place) : place p.spell = p := by
  ext1
  · exact p.head_spell
  · exact p.location_spell
  · show (location p.spell == [] || isDirectory p.spell) = _
    rw [p.location_spell, p.isDirectory_spell]
    cases hn : p.names with
    | nil => simp [p.top hn]
    | cons x names => simp

theorem take_two_normalizePath (s : Bytes) : (normalizePath s).take 2 ≠ ascii "//" := by
  have hhead := head_slashed (place s).solid (place s).directory
  rw [normalizePath_eq, Place.spell]
  revert hhead
  generalize slashed _ = text
  intro hhead h
  cases habs : (place s).absolute with
  | false =>
    rw [habs] at h
    have hfirst : text.head? = some 0x2F := by
      have hcongr := congrArg List.head? h
      rwa [List.head?_take, if_neg (by decide)] at hcongr
    exact hhead hfirst
  | true =>
    rw [habs] at h
    have hcons : (text.take 1).head? = some 0x2F := congrArg List.head? (List.cons.inj h).2
    rw [List.head?_take, if_neg (by decide)] at hcons
    exact hhead hcons

theorem normalizePath_idem (s : Bytes) : normalizePath (normalizePath s) = normalizePath s := by
  rw [normalizePath_eq s, normalizePath_eq, place_spell]

theorem normalizePath_canonical (s t : Bytes) :
    (normalizePath s = normalizePath t ↔ place s = place t) ∧
      place (normalizePath s) = place s ∧
        normalizePath (normalizePath s) = normalizePath s := by
  refine ⟨?_, ?_, normalizePath_idem s⟩
  · constructor
    · intro h
      rw [normalizePath_eq, normalizePath_eq] at h
      rw [← place_spell (place s), h, place_spell]
    · intro h
      rw [normalizePath_eq, normalizePath_eq, h]
  · rw [normalizePath_eq, place_spell]

end place

end Url
end GWSockets
