import GWSockets.Build
import GWSockets.Endpoint
import GWSockets.Fields

namespace GWSockets

namespace Url

section query

variable {url : Bytes} {s : Bytes} {what : Bytes}

theorem checkedQuery_text {part : Part} (hpart : part = .key ∨ part = .val) (h : Ascii s) :
    checkedQuery url what (part.text s) = .ok s := by
  rcases hpart with rfl | rfl
  · exact (if_pos (@Part.isChars_text .key s h |>.mpr (by simp))).trans (@Part.decode_text .key s h)
  · exact (if_pos (@Part.isChars_text .val s h |>.mpr (by simp))).trans (@Part.decode_text .val s h)

theorem key_plain (h : Ascii s) : ∀ c ∈ Part.key.text s, c ∉ ascii "=;&" := by
  have hends : ∀ c ∈ ascii "=;&", c ∈ Part.key.ends := forall_mem_bytes (by decide)
  exact fun c hc he => Part.not_mem_text h (hends c he) hc

theorem val_plain (h : Ascii s) : ∀ c ∈ Part.val.text s, c ∉ ascii ";&" := by
  have hends : ∀ c ∈ ascii ";&", c ∈ Part.val.ends := forall_mem_bytes (by decide)
  exact fun c hc he => Part.not_mem_text h (hends c he) hc

theorem queryLoop_text {entry : Bytes × Bytes} {query : List (Bytes × Bytes)}
    (h : ∀ e ∈ entry :: query, e.1 ≠ [] ∧ Ascii e.1 ∧ Ascii e.2) :
    queryLoop url (entryText entry ++ entriesText query) = .ok (entry :: query) := by
  induction query generalizing entry with
  | nil =>
    obtain ⟨key, val⟩ := entry
    obtain ⟨-, hkey, hval⟩ := h (key, val) List.mem_cons_self
    cases val with
    | nil =>
      have htext : entryText (key, []) ++ entriesText [] = Part.key.text key := by
        simp [entryText, entriesText, present, opened]
      rw [htext, queryLoop_last (key_plain hkey), checkedQuery_text (.inl rfl) hkey]
      rfl
    | cons c val =>
      have htext : entryText (key, c :: val) ++ entriesText [] =
          Part.key.text key ++ 0x3D :: Part.val.text (c :: val) := by
        simp [entryText, entriesText, present, opened]
      rw [htext, queryLoop_value_last (key_plain hkey) (val_plain hval),
        checkedQuery_text (.inl rfl) hkey, checkedQuery_text (.inr rfl) hval]
      rfl
  | cons next query ih =>
    obtain ⟨key, val⟩ := entry
    obtain ⟨⟨-, hkey, hval⟩, hrest⟩ := List.forall_mem_cons.mp h
    have hloop := ih hrest
    have hamp : (0x26 : UInt8) ∈ ascii ";&" := by decide
    cases val with
    | nil =>
      have htext : entryText (key, []) ++ entriesText (next :: query) =
          Part.key.text key ++ 0x26 :: (entryText next ++ entriesText query) := by
        simp [entryText, entriesText, present, opened]
      rw [htext, queryLoop_next (key_plain hkey) hamp, checkedQuery_text (.inl rfl) hkey, hloop]
      rfl
    | cons c val =>
      have htext : entryText (key, c :: val) ++ entriesText (next :: query) =
          Part.key.text key ++ 0x3D :: (Part.val.text (c :: val) ++
            0x26 :: (entryText next ++ entriesText query)) := by
        simp [entryText, entriesText, present, opened]
      rw [htext, queryLoop_value_next (key_plain hkey) (val_plain hval) hamp,
        checkedQuery_text (.inl rfl) hkey, checkedQuery_text (.inr rfl) hval, hloop]
      rfl

end query

section normalize

variable {p : Parsed} {url : Bytes}

def Parsed.pieces (p : Parsed) : Pieces :=
  { ipV := p.ipV, scheme := present p.scheme, user := (present p.user).map Part.user.text,
    host := present p.host, port := present p.writtenPort, path := some (Part.path.text p.path),
    query := queryText p.query, fragment := (present p.fragment).map Part.fragment.text }

theorem optional_decode (part : Part) {s : Bytes} (h : Ascii s) :
    optional [] part.decode ((present s).map part.text) = .ok s := by
  cases s with
  | nil => rfl
  | cons c s => exact Part.decode_text h

theorem optional_query (h : ∀ e ∈ p.query, e.1 ≠ [] ∧ Ascii e.1 ∧ Ascii e.2) :
    optional [] (fun query => if query = [] then pure [] else queryLoop url query)
      (queryText p.query) = .ok p.query := by
  cases hq : p.query with
  | nil => rfl
  | cons entry query =>
    rw [hq] at h
    have hne : entryText entry ++ entriesText query ≠ [] := by
      obtain ⟨hkey, hascii, -⟩ := h entry List.mem_cons_self
      intro hnil
      simp only [entryText, List.append_eq_nil_iff] at hnil
      exact hkey ((Part.text_eq_nil hascii).mp hnil.1.1)
    rw [queryText, optional, if_neg hne]
    exact queryLoop_text h

theorem mem_present {s t : Bytes} : t ∈ present s ↔ s ≠ [] ∧ s = t := by
  cases s with
  | nil => simp [present]
  | cons c s => simp [present]

theorem present_getD (s : Bytes) : (present s).getD [] = s := by
  cases s <;> rfl

theorem normalize_pieces (hb : p.Buildable) (hscheme : toLower p.scheme = p.scheme)
    (hpath : normalizePath p.path = p.path)
    (hhost : optional [] (normalizeHost p.ipV) (present p.host) = .ok p.host) :
    normalize url p.pieces = .ok { p with port := p.writtenPort } := by
  have htext : optional [] decode ((present p.user).map Part.user.text) = .ok p.user :=
    optional_decode .user hb.user
  have hdecode : decode (Part.path.text p.path) = .ok p.path := @Part.decode_text .path _ hb.path
  have hquery := @optional_query p url hb.query
  have hfragment : optional [] decode ((present p.fragment).map Part.fragment.text) =
      .ok p.fragment := optional_decode .fragment hb.fragment
  have hlower : ((present p.scheme).map normalizeScheme).getD [] = p.scheme := by
    rw [present]
    split
    · next hnil => rw [hnil]; rfl
    · exact hscheme
  show (optional [] decode ((present p.user).map Part.user.text)).bind _ = _
  rw [htext]
  show (optional [] (normalizeHost p.ipV) (present p.host)).bind _ = _
  rw [hhost]
  show ((decode (Part.path.text p.path)).map normalizePath).bind _ = _
  rw [hdecode, Except.map, hpath]
  show (optional [] _ (queryText p.query)).bind _ = _
  rw [hquery]
  show (optional [] decode ((present p.fragment).map Part.fragment.text)).bind _ = _
  rw [hfragment]
  show Except.ok (Parsed.mk _ _ _ _ ((present p.writtenPort).getD []) _ _ _) = _
  rw [present_getD]
  exact congrArg (fun scheme => Except.ok { p with scheme := scheme, port := p.writtenPort }) hlower

end normalize

def ReadBack (ipV : Int) (host : Bytes) : Prop :=
  if ipV = 0 then isRegName host = true ∧ isIPv4 host = false ∧ toLower host = host
  else if ipV = 4 then isIPv4 host = true
  else if ipV = 6 then isIPv6 host = true ∧ normalizeIPv6 host = .ok host
  else 0 ≤ ipV ∧ ipV < 16 ∧ isChars host 0x05 = true

namespace ReadBack

variable {ipV : Int} {host : Bytes}

theorem exists_host (h : ReadBack ipV host) : ∃ r : Host, r.ipV = ipV ∧ r.text = host ∧
    r.spell = hostText ipV host ∧ normalizeHost ipV host = .ok host := by
  rw [ReadBack] at h
  split_ifs at h with h0 h4 h6
  · obtain ⟨hname, hipv4, hlower⟩ := h
    have hv : (Host.name host hname).ipV = ipV := by simp [Host.ipV, hipv4, h0]
    refine ⟨.name host hname, hv, rfl, by simp [Host.spell, hostText, h0], ?_⟩
    have hnormal := (Host.name host hname).normalizeHost_eq
    rw [hv, h0] at hnormal
    rw [h0]
    exact hnormal.trans (congrArg Except.ok hlower)
  · have hname := isRegName_of_isIPv4 h
    have hv : (Host.name host hname).ipV = ipV := by simp [Host.ipV, h, h4]
    refine ⟨.name host hname, hv, rfl, by simp [Host.spell, hostText, h4], ?_⟩
    have hnormal := (Host.name host hname).normalizeHost_eq
    rw [hv, h4] at hnormal
    rw [h4]
    exact hnormal
  · obtain ⟨hipv6, hnormal⟩ := h
    refine ⟨.ipv6 host hipv6, h6.symm, rfl, by simp [Host.spell, hostText, h6], ?_⟩
    rw [h6]
    exact (Host.ipv6 host hipv6).normalizeHost_eq.trans hnormal
  · obtain ⟨hpos, hlt, hchars⟩ := h
    obtain ⟨n, rfl⟩ := Int.eq_ofNat_of_zero_le hpos
    have hn : n < 16 := by omega
    have hdigit := getHexDigit_digitChar hn
    have hmod : ((n : Int) % 2 ^ 32).toNat = n := by omega
    have hval : (UInt8.ofNat n).toNat = n := by
      rw [UInt8.toNat_ofNat']
      omega
    have hv : (Host.future _ _ host hdigit hchars).ipV = n := congrArg Int.ofNat hval
    refine ⟨.future _ _ host hdigit hchars, hv, rfl, ?_, ?_⟩
    · rw [hostText, if_neg (not_or.mpr ⟨h0, h4⟩), if_neg h6, hmod, hex_of_lt hn]
      rfl
    · show (decode host).bind _ = _
      rw [decode_of_not_mem (not_mem_isChars hchars (by decide))]
      show (if (n : Int) = 0 then _ else if (n : Int) = 6 then _ else _) = _
      rw [if_neg h0, if_neg h6]
      rfl

end ReadBack

section path

variable {s : Bytes}

theorem written_path : ∀ c : UInt8, c < 0x80 →
    (c ∈ ascii ":/" → written Part.path.special Part.path.mask c = [c]) ∧
      (c ∉ ascii ":/" → ∀ x ∈ written Part.path.special Part.path.mask c, x ∉ ascii ":/") :=
  forall_byte (by decide +kernel)

theorem findFirstOf_path (h : Ascii s) : findFirstOf (Part.path.text s) (ascii ":/") =
    (Part.path.text (findFirstOf s (ascii ":/")).1,
      Part.path.text (findFirstOf s (ascii ":/")).2) := by
  rcases hfind : findFirstOf s (ascii ":/") with ⟨a, b⟩
  obtain ⟨rfl, ha, hb⟩ := findFirstOf_eq_iff.mp hfind
  refine findFirstOf_eq_iff.mpr ⟨List.flatMap_append, fun x hx => ?_, fun x hx => ?_⟩
  · obtain ⟨c, hc, hw⟩ := List.mem_flatMap.mp hx
    exact (written_path c (h c (List.mem_append_left _ hc))).2 (ha c hc) x hw
  · cases b with
    | nil => cases hx
    | cons c b =>
      have hc := hb c rfl
      have hwritten := (written_path c (h c (by simp))).1 hc
      rw [Part.text, List.flatMap_cons, hwritten] at hx
      cases hx
      exact hc

theorem head_path_colon (h : Ascii s) : (findFirstOf (Part.path.text s) (ascii ":/")).2.head? =
    (findFirstOf s (ascii ":/")).2.head? := by
  rw [findFirstOf_path h]
  rcases hfind : findFirstOf s (ascii ":/") with ⟨a, b⟩
  obtain ⟨rfl, -, hb⟩ := findFirstOf_eq_iff.mp hfind
  cases b with
  | nil => rfl
  | cons c b =>
    have hwritten := (written_path c (h c (by simp))).1 (hb c rfl)
    show (Part.path.text (c :: b)).head? = _
    rw [Part.text, List.flatMap_cons, hwritten]
    rfl

theorem head_path (h : Ascii s) :
    (Part.path.text s).head? = some 0x2F ↔ s.head? = some 0x2F := by
  cases s with
  | nil => rfl
  | cons c s =>
    have hwritten : ∀ c : UInt8, c < 0x80 → written Part.path.special Part.path.mask c ≠ [] ∧
        ((written Part.path.special Part.path.mask c).head? = some 0x2F ↔ c = 0x2F) :=
      forall_byte (by decide +kernel)
    obtain ⟨hne, hslash⟩ := hwritten c (h c List.mem_cons_self)
    obtain ⟨x, text, htext⟩ := List.exists_cons_of_ne_nil hne
    rw [htext] at hslash
    rw [Part.text, List.flatMap_cons, htext, List.head?_cons, Option.some.injEq, ← hslash]
    rfl

theorem take_two_path (h : Ascii s) (htake : (Part.path.text s).take 2 = ascii "//") :
    s.take 2 = ascii "//" := by
  have hfirst : (Part.path.text s).head? = some 0x2F := by
    have hcongr := congrArg List.head? htake
    rwa [List.head?_take, if_neg (by decide)] at hcongr
  obtain ⟨s, rfl⟩ := List.head?_eq_some_iff.mp ((head_path h).mp hfirst)
  have htext : Part.path.text (0x2F :: s) = 0x2F :: Part.path.text s := rfl
  rw [htext] at htake
  have hsecond : (Part.path.text s).head? = some 0x2F := by
    have hcongr := congrArg List.head? (List.cons.inj htake).2
    rwa [List.head?_take, if_neg (by decide)] at hcongr
  obtain ⟨s, rfl⟩ := List.head?_eq_some_iff.mp
    ((head_path fun c hc => h c (List.mem_cons_of_mem _ hc)).mp hsecond)
  rfl

end path

structure Settled (p : Parsed) : Prop where
  scheme : p.scheme ≠ [] → isScheme p.scheme = true
  lower : toLower p.scheme = p.scheme
  port : p.port ≠ [] → isPort p.port = true
  path : normalizePath p.path = p.path

structure Read (p : Parsed) : Prop extends Settled p where
  user : isChars p.user 0x05 = true

structure Rebuildable (p : Parsed) : Prop extends Read p where
  host : p.host ≠ [] → ReadBack p.ipV p.host
  bare : p.host = [] → p.ipV = -1

section valid

variable {p : Parsed}

theorem Read.scheme_valid (h : Read p) : ∀ t ∈ present p.scheme, isScheme t = true := by
  intro t ht
  obtain ⟨hne, rfl⟩ := mem_present.mp ht
  exact h.scheme hne

theorem Read.user_valid (h : Read p) (hb : p.Buildable) :
    ∀ t ∈ (present p.user).map Part.user.text, isChars t 0x05 = true := by
  intro t ht
  obtain ⟨s, hs, rfl⟩ := Option.map_eq_some_iff.mp ht
  obtain ⟨-, rfl⟩ := mem_present.mp hs
  exact (Part.isChars_text hb.user).mpr fun _ => h.user

theorem Read.port_valid (h : Read p) : ∀ t ∈ present p.writtenPort, isPort t = true := by
  intro t ht
  obtain ⟨hne, rfl⟩ := mem_present.mp ht
  rw [Parsed.writtenPort] at hne ⊢
  split at hne
  · exact absurd rfl hne
  · next hdefault =>
    rw [if_neg hdefault]
    exact h.port hne

namespace Parsed.Buildable

theorem path_valid (hb : p.Buildable) : isChars (Part.path.text p.path) 0x2F = true :=
  (Part.isChars_text hb.path).mpr (by simp)

theorem not_mem_queryText (hb : p.Buildable) {c : UInt8} (hc : isChar c 0x3F = false) :
    ∀ t ∈ queryText p.query, c ∉ t := by
  have hmarks : c ≠ 0x26 ∧ c ≠ 0x3D := by
    constructor <;> (rintro rfl; cases hc)
  have hentry : ∀ e ∈ p.query, c ∉ entryText e := by
    intro e he
    obtain ⟨-, hkey, hval⟩ := hb.query e he
    have hkey' : c ∉ Part.key.text e.1 :=
      not_mem_isChars ((Part.isChars_text hkey).mpr (by simp)) hc
    have hval' : c ∉ Part.val.text e.2 :=
      not_mem_isChars ((Part.isChars_text hval).mpr (by simp)) hc
    rw [entryText, present]
    split
    · simp [opened, hkey']
    · simp [opened, hkey', hval', hmarks]
  intro t ht
  cases hq : p.query with
  | nil =>
    rw [hq] at ht
    cases ht
  | cons entry query =>
    rw [hq] at ht hentry
    obtain ⟨hfirst, hrest⟩ := List.forall_mem_cons.mp hentry
    cases ht
    simpa [entriesText, hfirst, hmarks] using hrest

theorem fragment_valid (hb : p.Buildable) :
    ∀ t ∈ (present p.fragment).map Part.fragment.text, isChars t 0x3F = true := by
  intro t ht
  obtain ⟨s, hs, rfl⟩ := Option.map_eq_some_iff.mp ht
  obtain ⟨-, rfl⟩ := mem_present.mp hs
  exact (Part.isChars_text hb.fragment).mpr (by simp)

end Parsed.Buildable

namespace Rebuildable

theorem split_text (hr : Rebuildable p) (hb : p.Buildable) : split p.text = .ok p.pieces := by
  by_cases hhost : p.host = []
  · obtain ⟨huser, hport, hcolon⟩ := hb.bare hhost
    let r : Bare :=
      { scheme := present p.scheme, path := Part.path.text p.path, query := queryText p.query,
        fragment := (present p.fragment).map Part.fragment.text,
        scheme_valid := hr.scheme_valid
        path_valid := hb.path_valid
        path_unrooted := fun h => take_two_normalizePath p.path
          (hr.path.symm ▸ take_two_path hb.path h)
        path_plain := fun _ => head_path_colon hb.path ▸ hcolon
        query_valid := hb.not_mem_queryText (by decide)
        fragment_valid := hb.fragment_valid }
    have hspell : r.spell = p.text := by
      rw [Parsed.text, Parsed.authorityText, if_pos hhost]
      rfl
    have hpieces : r.pieces = p.pieces := by
      simp [r, Bare.pieces, Parsed.pieces, hhost, huser, hport, hr.bare hhost, present,
        Parsed.writtenPort]
    rw [← hspell, ← hpieces]
    exact r.split_spell
  · obtain ⟨host, hipV, htext, hhosttext, -⟩ := (hr.host hhost).exists_host
    have hroot : ∀ c ∈ (Part.path.text p.path).head?, c = 0x2F := by
      intro c hc
      cases hpath : p.path with
      | nil =>
        rw [hpath] at hc
        cases hc
      | cons x path =>
        have hx := hb.rooted hhost x (by rw [hpath]; rfl)
        have hhead := (head_path hb.path).mpr (by rw [hpath, hx]; rfl)
        rw [hhead] at hc
        exact (Option.some.inj hc).symm
    let r : Reference :=
      { scheme := present p.scheme, user := (present p.user).map Part.user.text, host := host,
        trailer := [], port := present p.writtenPort, path := Part.path.text p.path,
        query := queryText p.query, fragment := (present p.fragment).map Part.fragment.text,
        user_valid := hr.user_valid hb
        trailer_valid := by simp
        trailer_name := fun _ => rfl
        trailer_port := fun _ => rfl
        trailer_user := by simp
        port_valid := hr.port_valid
        scheme_valid := hr.scheme_valid
        path_valid := ⟨hb.path_valid, hroot⟩
        query_valid := hb.not_mem_queryText (by decide)
        fragment_valid := hb.fragment_valid }
    have hspell : r.spell = p.text := by
      rw [Parsed.text, Parsed.authorityText, if_neg hhost, ← hhosttext]
      simp [r, Reference.spell, Authority.spell, Reference.resource, Parsed.resourceText]
    have hpieces : r.pieces = p.pieces := by
      simp [r, Reference.pieces, Authority.pieces, Parsed.pieces, hipV, htext, present, hhost]
    rw [← hspell, ← hpieces]
    exact r.split_spell

theorem normalizeHost_present (hr : Rebuildable p) :
    optional [] (normalizeHost p.ipV) (present p.host) = .ok p.host := by
  rw [present]
  split
  · next hhost =>
    rw [hhost]
    rfl
  · next hhost =>
    obtain ⟨-, -, -, -, hnormal⟩ := (hr.host hhost).exists_host
    exact hnormal

theorem eq_of_text_nil (hr : Rebuildable p) (hb : p.Buildable) (h : p.text = []) :
    { p with port := p.writtenPort } = ({} : Parsed) := by
  simp only [Parsed.text, Parsed.resourceText, List.append_eq_nil_iff] at h
  obtain ⟨hscheme, hauthority, hpath, hquery, hfragment⟩ := h
  have hhost : p.host = [] := by
    by_contra hne
    rw [Parsed.authorityText, if_neg hne] at hauthority
    cases hauthority
  obtain ⟨huser, hport, -⟩ := hb.bare hhost
  have hscheme' : p.scheme = [] := by
    by_contra hne
    simp [present, hne, closed] at hscheme
  have hquery' : p.query = [] := by
    by_contra hne
    obtain ⟨entry, query, hq⟩ := List.exists_cons_of_ne_nil hne
    simp [hq, queryText, opened] at hquery
  have hfragment' : p.fragment = [] := by
    by_contra hne
    simp [present, hne, opened] at hfragment
  have hwritten : p.writtenPort = [] := by
    rw [Parsed.writtenPort, hport]
    split <;> rfl
  rw [hwritten, hscheme', huser, hhost, hr.bare hhost, (Part.text_eq_nil hb.path).mp hpath,
    hquery', hfragment']

theorem parseUrl_text (hr : Rebuildable p) (hb : p.Buildable) (h : p.text.length ≤ 8000) :
    parseUrl p.text = .ok { p with port := p.writtenPort } := by
  by_cases hnil : p.text = []
  · rw [hnil, hr.eq_of_text_nil hb hnil]
    rfl
  · rw [parseUrl, if_neg (by simpa using hnil), if_neg (not_lt.mpr h)]
    show (split p.text).bind _ = _
    rw [hr.split_text hb]
    exact normalize_pieces hb hr.lower hr.path hr.normalizeHost_present

end Rebuildable

end valid

end Url
end GWSockets
