import GWSockets.Address
import GWSockets.Creation
import GWSockets.Rebuild

namespace GWSockets

namespace Url

section lower

variable {s : Bytes}

def lowerChar (c : UInt8) : UInt8 := if 0x41 ≤ c ∧ c ≤ 0x5A then c ||| 0x20 else c

theorem toLower_eq (s : Bytes) : toLower s = s.map lowerChar := rfl

theorem toLower_toLower (s : Bytes) : toLower (toLower s) = toLower s := by
  have hchar : ∀ c : UInt8, lowerChar (lowerChar c) = lowerChar c :=
    forall_byte (by decide +kernel)
  rw [toLower_eq, toLower_eq, List.map_map]
  exact List.map_congr_left fun c _ => hchar c

theorem isRegName_toLower (h : isRegName s = true) : isRegName (toLower s) = true := by
  have hchar : ∀ c : UInt8, isChar c 0x01 = true → isChar (lowerChar c) 0x01 = true :=
    forall_byte (by decide +kernel)
  refine isChars_iff.mpr fun c hc => ?_
  obtain ⟨x, hx, rfl⟩ := List.mem_map.mp hc
  exact hchar x (isChars_iff.mp h x hx)

theorem isIPv4_toLower (s : Bytes) : isIPv4 (toLower s) = isIPv4 s := by
  have hchar : ∀ c : UInt8, (lowerChar c == 0x2E || isNum (lowerChar c)) = (c == 0x2E || isNum c) :=
    forall_byte (by decide +kernel)
  rw [toLower_eq, isIPv4, isIPv4, List.length_map, List.all_map]
  congr 2
  exact funext hchar

theorem isScheme_toLower (h : isScheme s = true) : isScheme (toLower s) = true := by
  have hfirst : ∀ c : UInt8, isAlpha c = true → isAlpha (lowerChar c) = true :=
    forall_byte (by decide +kernel)
  have hchar : ∀ c : UInt8, (isAlnum c || c == 0x2B || c == 0x2D || c == 0x2E) = true →
      (isAlnum (lowerChar c) || lowerChar c == 0x2B || lowerChar c == 0x2D ||
        lowerChar c == 0x2E) = true := forall_byte (by decide +kernel)
  cases s with
  | nil => cases h
  | cons c s =>
    obtain ⟨hc, hs⟩ := (Bool.and_eq_true _ _ ▸ h : isAlpha c = true ∧ _)
    show (isAlpha (lowerChar c) && (s.map lowerChar).all _) = true
    rw [hfirst c hc, Bool.true_and, List.all_map, List.all_eq_true]
    exact fun x hx => hchar x (List.all_eq_true.mp hs x hx)

end lower

section literal

variable {t host : Bytes} {c : UInt8}

def isLiteralChar (c : UInt8) : Bool := c == 0x3A || c == 0x2E || isHexdigit c

theorem mem_trimColons (h : c ∈ trimColons t) : c ∈ t := by
  rw [trimColons] at h
  have hdrop : ∀ p : Bytes, c ∈ (if t.getLast? = some 0x3A then p.dropLast else p) → c ∈ p := by
    intro p hp
    split at hp
    · exact List.dropLast_subset _ hp
    · exact hp
  have hfirst := hdrop _ h
  split at hfirst
  · exact List.drop_subset _ _ hfirst
  · exact hfirst

theorem mem_colonTails {q : Bytes} (hq : q ∈ colonTails t) (hc : c ∈ q) : c ∈ t := by
  induction t with
  | nil => cases hq
  | cons x t ih =>
    rw [colonTails] at hq
    split at hq
    · rcases List.mem_cons.mp hq with rfl | hq
      · exact List.mem_cons_of_mem _ hc
      · exact List.mem_cons_of_mem _ (ih hq)
    · exact List.mem_cons_of_mem _ (ih hq)

theorem exists_of_mem_last {texts : List Bytes} (h : c ∈ texts.getLastD []) :
    ∃ q ∈ texts, c ∈ q := by
  rcases List.eq_nil_or_concat' texts with rfl | ⟨init, last, rfl⟩
  · cases h
  · rw [List.getLastD_concat] at h
    exact ⟨last, by simp, h⟩

theorem mem_encodeIPv6 {fields : List ℕ} {nfields nullPos nullLen : ℕ} {ipv4 : Option Bytes}
    (h : c ∈ encodeIPv6 fields nfields nullPos nullLen ipv4) :
    isLiteralChar c = true ∨ ∃ text ∈ ipv4, c ∈ text := by
  have hhex : ∀ n, c ∈ hex n → isLiteralChar c = true := by
    intro n hn
    rw [isLiteralChar, isHexdigit_hex n c hn, Bool.or_true]
  have hcolon : c = 0x3A → isLiteralChar c = true := by
    rintro rfl
    rfl
  have hfields : ∀ l : List ℕ, c ∈ l.flatMap writeField → isLiteralChar c = true := by
    intro l hl
    obtain ⟨n, -, hn⟩ := List.mem_flatMap.mp hl
    exact (List.mem_cons.mp hn).elim hcolon (hhex n)
  have hmark : ∀ (p : Prop) [Decidable p], c ∈ (if p then [0x3A] else []) →
      isLiteralChar c = true := by
    intro p _ hp
    split at hp
    · exact hcolon (List.mem_singleton.mp hp)
    · cases hp
  unfold encodeIPv6 at h
  dsimp only at h
  rcases List.mem_append.mp h with h | h
  · left
    rcases List.mem_append.mp h with h | h
    · split at h
      · exact hcolon (List.mem_singleton.mp h)
      · simp only [List.mem_append] at h
        rcases h with ((h | h) | h) | h
        · exact hhex _ h
        · exact hfields _ h
        · exact hmark _ h
        · exact hmark _ h
    · exact hfields _ h
  · cases ipv4 with
    | none => cases h
    | some text =>
      rcases List.mem_cons.mp h with h | h
      · exact .inl (hcolon h)
      · exact .inr ⟨text, rfl, h⟩

theorem finishIPv6_chars {tokens : List Bytes} {ipv4 : Option Bytes} {nfields : ℕ}
    (h : finishIPv6 tokens ipv4 nfields = .ok host) (hc : c ∈ host) :
    isLiteralChar c = true ∨ ∃ text ∈ ipv4, c ∈ text := by
  obtain ⟨⟨fields, nullPos⟩, -, h⟩ := Checked.bind_ok.mp h
  obtain ⟨array, -, h⟩ := Checked.bind_ok.mp h
  rw [← Except.ok.inj h] at hc
  exact mem_encodeIPv6 hc

theorem normalizeIPv6_chars (h : normalizeIPv6 t = .ok host) (hc : c ∈ host) :
    isLiteralChar c = true := by
  rw [normalizeIPv6] at h
  split_ifs at h with hinvalid hnull
  · rw [← Except.ok.inj h, hnull] at hc
    exact (forall_mem_bytes (p := fun c => isLiteralChar c = true) (by decide)) c hc
  · have hvalid : ∀ x ∈ t, isLiteralChar x = true := by
      simp only [isIPv6, Bool.not_eq_true', Bool.not_eq_false, Bool.and_eq_true] at hinvalid
      exact List.all_eq_true.mp hinvalid.2
    obtain ⟨tokens, htokens, h⟩ := Checked.bind_ok.mp h
    have hlast : ∀ x ∈ tokens.dropLast.getLastD [], isLiteralChar x = true := by
      intro x hx
      rw [splitColons_eq, Checked.ite_ok] at htokens
      rw [← htokens.2, List.dropLast_concat] at hx
      obtain ⟨q, hq, hxq⟩ := exists_of_mem_last hx
      have hmem : q ∈ trimColons t :: colonTails (trimColons t) := by
        split at hq
        · exact hq
        · exact List.dropLast_subset _ hq
      refine hvalid x (mem_trimColons ?_)
      rcases List.mem_cons.mp hmem with rfl | hmem
      · exact hxq
      · exact mem_colonTails hmem hxq
    dsimp only at h
    split at h
    · rcases finishIPv6_chars h hc with hc | ⟨text, htext, hc⟩
      · exact hc
      · cases htext
        exact hlast c hc
    · rcases finishIPv6_chars h hc with hc | ⟨text, htext, -⟩
      · exact hc
      · cases htext

end literal

namespace Host

def Steady : Host → Prop
  | name text _ => text ≠ []
  | ipv6 text _ => ∃ u : IPv6Text, u.spell = text ∧ (u.address.Zero → text = ascii "::")
  | future version _ text _ _ => version ≠ 0 ∧ version ≠ 4 ∧ version ≠ 6 ∧ text ≠ []

theorem normalized_again {u : IPv6Text} (h : u.address.Zero → u.spell = ascii "::") :
    normalizeIPv6 u.spell = .ok u.address.canonical.spell ∧
      normalizeIPv6 u.address.canonical.spell = .ok u.address.canonical.spell := by
  have hnot : ¬ (u.address.Zero ∧ u.spell ≠ ascii "::") := fun hz => hz.2 (h hz.1)
  have hagain : ¬ (u.address.canonical.address.Zero ∧
      u.address.canonical.spell ≠ ascii "::") := by
    rw [Address.canonical_address]
    rintro ⟨hzero, hne⟩
    rw [address_of_null (h hzero)] at hne
    exact hne (by decide)
  rw [normalizeIPv6_eq_normalized, normalizeIPv6_eq_normalized, normalized_nonzero hnot,
    normalized_nonzero hagain, Address.canonical_address]
  exact ⟨rfl, rfl⟩

theorem readBack {host : Host} {text : Bytes} (hs : host.Steady)
    (h : normalizeHost host.ipV host.text = .ok text) : text ≠ [] ∧ ReadBack host.ipV text := by
  rw [host.normalizeHost_eq] at h
  cases host with
  | name t ht =>
    cases h4 : isIPv4 t with
    | true =>
      have hv : (name t ht).ipV = 4 := by simp [ipV, h4]
      rw [hv] at h ⊢
      cases h
      exact ⟨hs, h4⟩
    | false =>
      have hv : (name t ht).ipV = 0 := by simp [ipV, h4]
      rw [hv] at h ⊢
      cases h
      exact ⟨fun hnil => hs (List.map_eq_nil_iff.mp hnil), isRegName_toLower ht,
        (isIPv4_toLower t).trans h4, toLower_toLower t⟩
  | ipv6 t ht =>
    obtain ⟨u, rfl, hzero⟩ := hs
    obtain ⟨hnormal, hagain⟩ := normalized_again hzero
    obtain rfl : u.address.canonical.spell = text := Except.ok.inj (hnormal.symm.trans h)
    have hvalid := u.address.canonical.isIPv6_spell
    refine ⟨fun hnil => ?_, hvalid, hagain⟩
    rw [hnil] at hvalid
    cases hvalid
  | future v d t hd ht =>
    obtain ⟨h0, h4, h6, hne⟩ := hs
    have hdigit : ∀ c : UInt8, ∀ x, getHexDigit c = some x → x.toNat < 16 :=
      forall_byte (by decide +kernel)
    have hlt : (v.toNat : Int) < 16 := Int.ofNat_lt.mpr (hdigit d v hd)
    have hnat : ∀ n : UInt8, v ≠ n → ¬ (v.toNat : Int) = n.toNat := fun n hn he =>
      hn (UInt8.toNat_inj.mp (Int.ofNat.inj he))
    have hne0 : ¬ (v.toNat : Int) = 0 := hnat 0 h0
    have hne4 : ¬ (v.toNat : Int) = 4 := hnat 4 h4
    have hne6 : ¬ (v.toNat : Int) = 6 := hnat 6 h6
    have hnone : (future v d t hd ht).ipv6Text = none := if_neg h6
    have hv : (future v d t hd ht).ipV = v.toNat := rfl
    rw [hnone, hv] at h
    obtain rfl : t = text := (if_neg hne0).symm.trans (Except.ok.inj h)
    refine ⟨hne, ?_⟩
    rw [hv, ReadBack, if_neg hne0, if_neg hne4, if_neg hne6]
    exact ⟨Int.natCast_nonneg _, hlt, ht⟩

end Host

section parsed

variable {url s : Bytes} {p : Parsed} {pieces : Pieces}

theorem normalize_parts (h : normalize url pieces = .ok p) :
    p.scheme = (pieces.scheme.map normalizeScheme).getD [] ∧
      optional [] decode pieces.user = .ok p.user ∧
      optional [] (normalizeHost pieces.ipV) pieces.host = .ok p.host ∧
      p.ipV = pieces.ipV ∧ p.port = pieces.port.getD [] ∧ ∃ path, normalizePath path = p.path := by
  obtain ⟨user, huser, h⟩ := Checked.bind_ok.mp h
  obtain ⟨host, hhost, h⟩ := Checked.bind_ok.mp h
  obtain ⟨path, hpath, h⟩ := Checked.bind_ok.mp h
  obtain ⟨query, -, h⟩ := Checked.bind_ok.mp h
  obtain ⟨fragment, -, h⟩ := Checked.bind_ok.mp h
  obtain rfl := Except.ok.inj h
  refine ⟨rfl, huser, hhost, rfl, rfl, ?_⟩
  cases hp : pieces.path with
  | none =>
    rw [hp] at hpath
    cases hpath
    exact ⟨[], rfl⟩
  | some t =>
    rw [hp] at hpath
    obtain ⟨text, -, hnormal⟩ := Checked.map_ok.mp hpath
    exact ⟨text, hnormal⟩

theorem split_valid (h : split url = .ok pieces) :
    (∀ t ∈ pieces.scheme, isScheme t = true) ∧ (∀ t ∈ pieces.user, isChars t 0x05 = true) ∧
      ∀ t ∈ pieces.port, isPort t = true := by
  rcases exists_of_split h with ⟨r, -, rfl⟩ | ⟨r, -, rfl⟩
  · exact ⟨r.scheme_valid, r.user_valid, r.port_valid⟩
  · exact ⟨r.scheme_valid, by simp [Bare.pieces], by simp [Bare.pieces]⟩

theorem parseUrl_split (h : parseUrl url = .ok p) : p = {} ∨
    ∃ pieces, split url = .ok pieces ∧ normalize url pieces = .ok p := by
  rw [parseUrl] at h
  split_ifs at h
  · exact .inl (Except.ok.inj h).symm
  · obtain ⟨pieces, hsplit, h⟩ := Checked.bind_ok.mp h
    exact .inr ⟨pieces, hsplit, h⟩

theorem parseUrl_read (h : parseUrl url = .ok p) : Read p := by
  rcases parseUrl_split h with rfl | ⟨pieces, hsplit, h⟩
  · exact ⟨⟨by simp, rfl, by simp, rfl⟩, rfl⟩
  obtain ⟨hscheme, huser, hport⟩ := split_valid hsplit
  obtain ⟨hs, hu, -, -, hp, path, hpath⟩ := normalize_parts h
  refine ⟨⟨fun hne => ?_, ?_, fun hne => ?_, hpath ▸ normalizePath_idem path⟩, ?_⟩
  · cases ht : pieces.scheme with
    | none =>
      rw [ht] at hs
      exact absurd hs hne
    | some t =>
      rw [hs, ht]
      exact isScheme_toLower (hscheme t ht)
  · cases ht : pieces.scheme with
    | none =>
      rw [hs, ht]
      rfl
    | some t =>
      rw [hs, ht]
      exact toLower_toLower t
  · cases ht : pieces.port with
    | none =>
      rw [ht] at hp
      exact absurd hp hne
    | some t =>
      rw [hp, ht]
      exact hport t ht
  · cases ht : pieces.user with
    | none =>
      rw [ht] at hu
      rw [← Except.ok.inj hu]
      rfl
    | some t =>
      have hchars := huser t ht
      rw [ht, optional, decode_of_not_mem (not_mem_isChars hchars (by decide))] at hu
      rw [← Except.ok.inj hu]
      exact hchars

theorem parseUrl_rebuildable (h : parseUrl url = .ok p)
    (hsteady : ∀ r : Reference, r.spell = url → r.host.Steady) : Rebuildable p := by
  have hread := parseUrl_read h
  rcases parseUrl_split h with rfl | ⟨pieces, hsplit, h⟩
  · exact ⟨hread, by simp, fun _ => rfl⟩
  · obtain ⟨-, -, hhost, hipV, -⟩ := normalize_parts h
    rcases exists_of_split hsplit with ⟨r, hurl, rfl⟩ | ⟨r, -, rfl⟩
    · obtain ⟨hne, hback⟩ := Host.readBack (hsteady r hurl) hhost
      exact ⟨hread, fun _ => hipV ▸ hback, fun hnil => absurd hnil hne⟩
    · have hnil : p.host = [] := (Except.ok.inj hhost).symm
      exact ⟨hread, fun hne => absurd hnil hne, fun _ => hipV⟩

section lead

def lead (scheme user : Option Bytes) : Bytes :=
  closed 0x3A scheme ++ (ascii "//" ++ closed 0x40 user)

theorem bracket_not_mem_lead {scheme user : Option Bytes} (hs : ∀ t ∈ scheme, isScheme t = true)
    (hu : ∀ t ∈ user, isChars t 0x05 = true) : 0x5B ∉ lead scheme user := by
  have hscheme : 0x5B ∉ closed 0x3A scheme := by
    cases scheme with
    | none => simp [closed]
    | some t => simp [closed, not_mem_isScheme (c := 0x5B) (hs t rfl) (by decide)]
  have huser : 0x5B ∉ closed 0x40 user := by
    cases user with
    | none => simp [closed]
    | some t => simp [closed, not_mem_isChars (c := 0x5B) (hu t rfl) (by decide)]
  have hslashes : 0x5B ∉ ascii "//" := by decide
  simp [lead, hscheme, huser, hslashes]

theorem Reference.spell_lead (r : Reference) : r.spell = lead r.scheme r.user ++
    (r.host.spell ++ (r.trailer ++ (opened 0x3A r.port ++ r.resource))) := by
  simp [Reference.spell, lead, Authority.spell]

theorem Parsed.text_lead (hhost : p.host ≠ []) : p.text =
    lead (present p.scheme) ((present p.user).map Part.user.text) ++
      (hostText p.ipV p.host ++ (opened 0x3A (present p.writtenPort) ++ p.resourceText)) := by
  simp [Parsed.text, lead, Parsed.authorityText, hhost]

theorem bracket_not_mem_text (hread : Read p) (hb : p.Buildable) (hhost : p.host ≠ [])
    (hplain : 0x5B ∉ hostText p.ipV p.host) : 0x5B ∉ p.text := by
  have hport : 0x5B ∉ opened 0x3A (present p.writtenPort) := by
    cases hw : present p.writtenPort with
    | none => simp [opened]
    | some t => simp [opened, not_mem_isPort (c := 0x5B) (hread.port_valid t hw) (by decide)]
  have hpath : 0x5B ∉ Part.path.text p.path := not_mem_isChars hb.path_valid (by decide)
  have hquery : 0x5B ∉ opened 0x3F (queryText p.query) := by
    cases hq : queryText p.query with
    | none => simp [opened]
    | some t => simp [opened, hb.not_mem_queryText (c := 0x5B) (by decide) t hq]
  have hfragment : 0x5B ∉ opened 0x23 ((present p.fragment).map Part.fragment.text) := by
    cases hf : (present p.fragment).map Part.fragment.text with
    | none => simp [opened]
    | some t => simp [opened, not_mem_isChars (c := 0x5B) (hb.fragment_valid t hf) (by decide)]
  rw [Parsed.text_lead hhost]
  simp [bracket_not_mem_lead hread.scheme_valid (hread.user_valid hb), hplain, hport, hpath,
    hquery, hfragment, Parsed.resourceText]

theorem bracketed_eq {r : Reference} {x y : Bytes} (hread : Read p) (hb : p.Buildable)
    (hhost : p.host ≠ []) (hspell : r.spell = p.text) (hr : r.host.spell = 0x5B :: x ++ [0x5D])
    (hp : hostText p.ipV p.host = 0x5B :: y ++ [0x5D]) (hx : 0x5D ∉ x) (hy : 0x5D ∉ y) : x = y := by
  rw [r.spell_lead, Parsed.text_lead hhost, hr, hp] at hspell
  simp only [List.cons_append, List.append_assoc, List.nil_append] at hspell
  obtain ⟨-, hrest⟩ := Delimited.append_cons_inj
    (bracket_not_mem_lead r.scheme_valid r.user_valid)
    (bracket_not_mem_lead hread.scheme_valid (hread.user_valid hb)) hspell
  exact (Delimited.append_cons_inj hx hy hrest).1

end lead

section exact

theorem Read.of_written (h : Read { p with port := p.writtenPort }) : Read p := by
  refine ⟨⟨h.scheme, h.lower, fun hport => ?_, h.path⟩, h.user⟩
  have hwritten : p.writtenPort ≠ [] → isPort p.writtenPort = true := h.port
  rw [Parsed.writtenPort] at hwritten
  cases hdefault : isDefaultPort p.scheme p.port with
  | true =>
    simp only [isDefaultPort, Bool.or_eq_true, Bool.and_eq_true, beq_iff_eq] at hdefault
    rcases hdefault with ⟨-, heq⟩ | ⟨-, heq⟩
    · rw [heq]
      decide
    · rw [heq]
      decide
  | false =>
    rw [hdefault] at hwritten
    exact hwritten hport

theorem bare_of_read (hread : Read p) (hb : p.Buildable) (hhost : p.host = [])
    (h : parseUrl p.text = .ok { p with port := p.writtenPort }) (hlen : p.text.length ≤ 8000) :
    p.ipV = -1 := by
  have htext : { p with ipV := -1 }.text = p.text := by
    simp [Parsed.text, Parsed.authorityText, hhost, Parsed.resourceText]
  have hrebuild : Rebuildable { p with ipV := -1 } :=
    ⟨⟨⟨hread.scheme, hread.lower, hread.port, hread.path⟩, hread.user⟩,
      fun hne => absurd hhost hne, fun _ => rfl⟩
  have hbuild : { p with ipV := -1 }.Buildable :=
    ⟨hb.user, hb.path, hb.query, hb.fragment, hb.bare, hb.rooted⟩
  have hparse := hrebuild.parseUrl_text hbuild (htext ▸ hlen)
  rw [htext, h] at hparse
  exact congrArg Parsed.ipV (Except.ok.inj hparse)

theorem readBack_of_read (hread : Read p) (hb : p.Buildable) (hhost : p.host ≠ [])
    (h : parseUrl p.text = .ok { p with port := p.writtenPort }) : ReadBack p.ipV p.host := by
  rcases parseUrl_split h with heq | ⟨pieces, hsplit, hn⟩
  · exact absurd (congrArg Parsed.host heq) hhost
  obtain ⟨-, -, hnormal, hipV, -⟩ := normalize_parts hn
  rcases exists_of_split hsplit with ⟨r, hspell, rfl⟩ | ⟨r, -, rfl⟩
  · have hok : normalizeHost r.host.ipV r.host.text = .ok p.host := hnormal
    have hip : p.ipV = r.host.ipV := hipV
    have hopen : 0x5B ∈ r.host.spell → 0x5B ∈ hostText p.ipV p.host := by
      intro hmem
      by_contra hplain
      apply bracket_not_mem_text hread hb hhost hplain
      rw [← hspell, r.spell_lead]
      simp [hmem]
    have hchars : ∀ t, normalizeIPv6 t = .ok p.host →
        ∀ c, isLiteralChar c = false → c ∉ p.host := by
      intro t ht c hc hmem
      rw [normalizeIPv6_chars ht hmem] at hc
      cases hc
    cases hr : r.host with
    | name t ht =>
      rw [hr] at hok hip
      have hne : t ≠ [] := by
        rintro rfl
        exact hhost (Except.ok.inj hok).symm
      rw [hip]
      exact (@Host.readBack (.name t ht) _ hne hok).2
    | ipv6 t ht =>
      rw [hr] at hok hip
      rw [Host.normalizeHost_eq] at hok
      have heq : t = p.host := bracketed_eq hread hb hhost hspell (by rw [hr]; rfl)
        (by rw [hip]; rfl) (not_mem_isIPv6 ht (by decide)) (hchars t hok _ (by decide))
      rw [hip]
      show isIPv6 p.host = true ∧ normalizeIPv6 p.host = .ok p.host
      rw [← heq]
      exact ⟨ht, heq ▸ hok⟩
    | future v d t hd ht =>
      have hmem : 0x5B ∈ hostText p.ipV p.host := hopen (by rw [hr]; exact List.mem_cons_self)
      have hclear : 0x5B ∉ t := not_mem_isChars ht (by decide)
      rw [hr] at hok hip
      have hnormal := (Host.future v d t hd ht).normalizeHost_eq.symm.trans hok
      have h0 : v ≠ 0 := by
        rintro rfl
        rw [hip] at hmem
        have hlower : toLower t = p.host := Except.ok.inj hnormal
        rw [← hlower] at hmem
        exact hclear ((Reference.mem_toLower (forall_byte (by decide +kernel))).mp hmem)
      have h4 : v ≠ 4 := by
        rintro rfl
        rw [hip] at hmem
        have hsame : t = p.host := Except.ok.inj hnormal
        exact hclear (hsame ▸ hmem)
      have h6 : v ≠ 6 := by
        rintro rfl
        have hhex : d ≠ 0x5D := by
          rintro rfl
          cases hd
        have hx : 0x5D ∉ 0x76 :: d :: 0x2E :: t := by
          simp [Ne.symm hhex, not_mem_isChars (c := 0x5D) ht (by decide)]
        have heq : 0x76 :: d :: 0x2E :: t = p.host := bracketed_eq hread hb hhost hspell
          (by rw [hr]; rfl) (by rw [hip]; rfl) hx (hchars t hnormal _ (by decide))
        exact hchars t hnormal 0x76 (by decide) (heq ▸ List.mem_cons_self)
      have hne : t ≠ [] := by
        rintro rfl
        have hnone : (Host.future v d [] hd ht).ipv6Text = none := if_neg h6
        rw [hnone] at hnormal
        exact hhost ((Except.ok.inj hnormal).symm.trans (ite_self []))
      rw [hip]
      exact (@Host.readBack (.future v d t hd ht) _ ⟨h0, h4, h6, hne⟩ hok).2
  · exact absurd (Except.ok.inj hnormal).symm hhost

theorem parseUrl_text_iff (hb : p.Buildable) (hlen : p.text.length ≤ 8000) :
    parseUrl p.text = .ok { p with port := p.writtenPort } ↔ Rebuildable p := by
  constructor
  · intro h
    have hread := (parseUrl_read h).of_written
    exact ⟨hread, fun hhost => readBack_of_read hread hb hhost h,
      fun hhost => bare_of_read hread hb hhost h hlen⟩
  · intro hr
    exact hr.parseUrl_text hb hlen

end exact

theorem buildUrl_read_iff (hbuild : buildUrl p = .ok s) (hlen : s.length ≤ 8000) :
    parseUrl s = .ok { p with port := p.writtenPort } ↔ Rebuildable p := by
  obtain ⟨hb, rfl⟩ := buildUrl_ok.mp hbuild
  exact parseUrl_text_iff hb hlen

theorem buildUrl_read_default :
    parseUrl (ascii "https://me@h.org/a%20b?k=v+w") = .ok
      { scheme := ascii "https", user := ascii "me", host := ascii "h.org", ipV := 0,
        path := ascii "/a b", query := [(ascii "k", ascii "v w")] } ↔
    Rebuildable
      { scheme := ascii "https", user := ascii "me", host := ascii "h.org", ipV := 0,
        port := ascii "443", path := ascii "/a b", query := [(ascii "k", ascii "v w")] } :=
  @buildUrl_read_iff _
    { scheme := ascii "https", user := ascii "me", host := ascii "h.org", ipV := 0,
      port := ascii "443", path := ascii "/a b", query := [(ascii "k", ascii "v w")] }
    (by decide +kernel) (by decide)

theorem writtenPort_again (p : Parsed) :
    { p with port := p.writtenPort }.writtenPort = p.writtenPort := by
  have hempty : ∀ scheme, isDefaultPort scheme [] = false := by
    intro scheme
    simp [isDefaultPort, ascii]
  rw [Parsed.writtenPort, Parsed.writtenPort]
  cases hdefault : isDefaultPort p.scheme p.port with
  | true => simp
  | false => simp [hdefault]

theorem text_again (p : Parsed) : { p with port := p.writtenPort }.text = p.text := by
  simp only [Parsed.text, Parsed.authorityText, Parsed.resourceText, writtenPort_again]

theorem reparse_stable (hsteady : ∀ r : Reference, r.spell = url → r.host.Steady)
    (h : parseUrl url = .ok p) (hbuild : buildUrl p = .ok s) (hlen : s.length ≤ 8000) :
    parseUrl s = .ok { p with port := p.writtenPort } ∧
      buildUrl { p with port := p.writtenPort } = .ok s := by
  obtain ⟨hb, rfl⟩ := buildUrl_ok.mp hbuild
  refine ⟨(parseUrl_rebuildable h hsteady).parseUrl_text hb hlen, ?_⟩
  refine buildUrl_ok.mpr ⟨⟨hb.user, hb.path, hb.query, hb.fragment, fun hhost => ?_, hb.rooted⟩,
    text_again p⟩
  obtain ⟨huser, hport, hcolon⟩ := hb.bare hhost
  refine ⟨huser, ?_, hcolon⟩
  show p.writtenPort = []
  rw [Parsed.writtenPort, hport]
  split <;> rfl

theorem steady_of_name (hbracket : 0x5B ∉ url)
    (hhost : (split url).map Pieces.host ≠ .ok (some [])) :
    ∀ r : Reference, r.spell = url → r.host.Steady := by
  rintro r rfl
  have hspell : 0x5B ∉ r.host.spell := fun h => hbracket (by simp [Reference.spell,
    Authority.spell, h])
  rw [r.split_spell] at hhost
  cases hr : r.host with
  | name t ht =>
    rintro rfl
    exact hhost (by rw [Except.map, Reference.pieces, Authority.pieces, hr]; rfl)
  | ipv6 t ht =>
    rw [hr] at hspell
    exact absurd List.mem_cons_self hspell
  | future v d t hd ht =>
    rw [hr] at hspell
    exact absurd List.mem_cons_self hspell

theorem reparse_stable_default :
    parseUrl (ascii "http://me@example.com/b?q=a%2Bb#top") = .ok
      { scheme := ascii "http", user := ascii "me", host := ascii "example.com", ipV := 0,
        path := ascii "/b", query := [(ascii "q", ascii "a+b")], fragment := ascii "top" } ∧
    buildUrl
      { scheme := ascii "http", user := ascii "me", host := ascii "example.com", ipV := 0,
        path := ascii "/b", query := [(ascii "q", ascii "a+b")], fragment := ascii "top" } =
      .ok (ascii "http://me@example.com/b?q=a%2Bb#top") :=
  @reparse_stable (ascii "HTTP://me@Example.com:80/a/../%62?q=a%2bb#top") _
    { scheme := ascii "http", user := ascii "me", host := ascii "example.com", ipV := 0,
      port := ascii "80", path := ascii "/b", query := [(ascii "q", ascii "a+b")],
      fragment := ascii "top" }
    (steady_of_name (by decide) (by decide +kernel)) (by decide +kernel) (by decide +kernel)
    (by decide)

end parsed

end Url
end GWSockets
