import GWSockets.Object

namespace GWSockets

namespace Url

section strict

variable {t : IPv6Text}

theorem normalized_steady (h : ¬ (t.address.Zero ∧ t.spell ≠ ascii "::")) :
    isIPv6 (normalized t) = true ∧ normalizeIPv6 (normalized t) = .ok (normalized t) := by
  rw [normalized_nonzero h]
  refine ⟨t.address.canonical.isIPv6_spell, ?_⟩
  exact (Host.normalized_again fun hzero => not_not.mp fun hne => h ⟨hzero, hne⟩).2

theorem normalized_colon (h : t.address.Zero ∧ t.spell ≠ ascii "::") :
    isIPv6 (normalized t) = false := by
  rw [normalized, if_pos h]
  rfl

theorem ne_nil_of_isIPv6 {s : Bytes} (h : isIPv6 s = true) : s ≠ [] := by
  rintro rfl
  cases h

theorem normalized_ne_nil (t : IPv6Text) : normalized t ≠ [] := by
  by_cases h : t.address.Zero ∧ t.spell ≠ ascii "::"
  · rw [normalized, if_pos h]
    decide
  · exact ne_nil_of_isIPv6 (normalized_steady h).1

theorem hexValue_zero : ∀ c : UInt8, isHexdigit c = true → ((hexValue c).toNat = 0 ↔ c = 0x30) :=
  forall_byte (by decide +kernel)

theorem groupValue_zero {text : Bytes} (h : ∀ c ∈ text, isHexdigit c = true) :
    groupValue text = 0 ↔ ∀ c ∈ text, c = 0x30 := by
  induction text using List.reverseRecOn with
  | nil => simp [groupValue]
  | append_singleton text c ih =>
    have htext := ih (fun x hx => h x (List.mem_append_left _ hx))
    have hc := hexValue_zero c (h c (by simp))
    rw [groupValue_concat, List.forall_mem_append, List.forall_mem_singleton, ← htext, ← hc]
    omega

theorem Group.value_zero (g : Group) : g.value = 0 ↔ ∀ c ∈ g.text, c = 0x30 := by
  rw [← groupValue_zero g.digits.2]
  exact Fin.ext_iff

theorem mem_joined_of_mem {ps : List Bytes} {x : Bytes} {c : UInt8} (hx : x ∈ ps) (hc : c ∈ x) :
    c ∈ joined ps := by
  induction ps with
  | nil => cases hx
  | cons p ps ih =>
    rw [joined_cons]
    rcases List.mem_cons.mp hx with rfl | hx
    · exact List.mem_append_left _ hc
    · rw [if_neg (List.ne_nil_of_mem hx)]
      exact List.mem_append_right _ (List.mem_cons_of_mem _ (ih hx))

def Blank (s : Bytes) : Prop := ∀ c ∈ s, c = 0x30 ∨ c = 0x3A

theorem blank_texts {groups : List Group} :
    Blank (joined (IPv6Text.texts groups)) ↔ ∀ g ∈ groups, g.value = 0 := by
  constructor
  · intro h g hg
    refine g.value_zero.mpr fun c hc => ?_
    have htext : g.text ∈ IPv6Text.texts groups := List.mem_map_of_mem hg
    refine (h c (mem_joined_of_mem htext hc)).resolve_right ?_
    rintro rfl
    exact colon_not_mem_digits g.digits hc
  · intro h c hc
    rcases mem_joined hc with rfl | ⟨x, hx, hcx⟩
    · exact .inr rfl
    · obtain ⟨g, hg, rfl⟩ := List.mem_map.mp hx
      exact .inl (g.value_zero.mp (h g hg) c hcx)

theorem blank_iff (t : IPv6Text) (hplain : t.ipv4 = none) : Blank t.spell ↔ t.address.Zero := by
  obtain ⟨before, gap, ipv4, room⟩ := t
  obtain rfl : ipv4 = none := hplain
  have htail : IPv6Text.tail ⟨before, gap, none, room⟩ = [] := rfl
  have hzero : (IPv6Text.address ⟨before, gap, none, room⟩).Zero ↔
      ∀ f ∈ IPv6Text.fields ⟨before, gap, none, room⟩, f = 0 := and_iff_left rfl
  rw [hzero]
  cases gap with
  | none =>
    simp only [IPv6Text.spell, IPv6Text.fields, htail, List.append_nil, blank_texts,
      List.forall_mem_map]
  | some after =>
    have happend : ∀ x y : Bytes, Blank (x ++ y) ↔ Blank x ∧ Blank y :=
      fun x y => List.forall_mem_append
    have hcolons : Blank (ascii "::") := forall_mem_bytes (by decide)
    simp only [IPv6Text.spell, IPv6Text.fields, htail, List.append_nil, happend, blank_texts,
      hcolons, and_true, List.forall_mem_append, List.forall_mem_map]
    exact and_congr_right fun _ =>
      (and_iff_right fun f hf => List.eq_of_mem_replicate hf).symm

end strict

section lax

variable {q : Dotted}

theorem isIPv6_dotted {before : List Group} {gap : Option (List Group)}
    (hshort : q.spell.length ≤ 39) (hroom : before.length + (gap.getD []).length ≤ 6)
    (hlong : gap = none → before.length = 6) :
    isIPv6 (IPv6Text.spelled before gap [q.spell]) = true := by
  refine IPv6Text.isIPv6_spelled before gap (plain_tailText (some q)) ?_ ?_ (by omega) ?_
  · intro x hx
    rw [List.mem_singleton.mp hx]
    exact q.chars
  · rw [List.flatten_singleton, List.length_singleton]
    omega
  · intro hgap
    rw [hlong hgap]
    omega

theorem joined_suffix (ps : List Bytes) (x : Bytes) : x <:+ joined (ps ++ [x]) := by
  by_cases hps : ps = []
  · subst hps
    simp [joined]
  · rw [joined_append hps (by simp)]
    exact ⟨joined ps ++ [0x3A], by simp [joined]⟩

theorem spelled_suffix (before : List Group) (gap : Option (List Group)) (x : Bytes) :
    x <:+ IPv6Text.spelled before gap [x] := by
  cases gap with
  | none => exact joined_suffix _ _
  | some after => exact (joined_suffix _ _).trans (List.suffix_append _ _)

theorem dot_mem_spelled (before : List Group) (gap : Option (List Group)) (q : Dotted) :
    0x2E ∈ IPv6Text.spelled before gap [q.spell] :=
  (spelled_suffix before gap q.spell).subset (by simp [Dotted.spell])

theorem spelled_ne_null (before : List Group) (gap : Option (List Group)) (q : Dotted) :
    IPv6Text.spelled before gap [q.spell] ≠ ascii "::" := by
  intro h
  have hdot := dot_mem_spelled before gap q
  rw [h] at hdot
  exact absurd hdot (by decide)

theorem normalizeIPv6_spelled {before : List Group} {gap : Option (List Group)} {fields : List ℕ}
    (hvalid : isIPv6 (IPv6Text.spelled before gap [q.spell]) = true)
    (hroom : before.length + (gap.getD []).length ≤ 6) (hsize : fields.length = 6)
    (h : Decoded 6 (IPv6Text.coreOf before gap) fields) :
    normalizeIPv6 (IPv6Text.spelled before gap [q.spell]) =
      .ok (compressed fields (some q.spell)) := by
  refine normalizeIPv6_dotted hvalid (spelled_ne_null before gap q)
    (IPv6Text.trimColons_spelled before gap (plain_tailText (some q))) ?_
    (IPv6Text.digits_coreOf before gap) q.colon_not_mem q.long hsize h
  cases gap with
  | none =>
    rw [Option.getD_none, List.length_nil] at hroom
    rw [IPv6Text.coreOf, IPv6Text.texts, List.length_map]
    omega
  | some after =>
    rw [Option.getD_some] at hroom
    rw [IPv6Text.coreOf, List.length_append, List.length_cons, IPv6Text.texts, IPv6Text.texts,
      List.length_map, List.length_map]
    omega

theorem compressed_steady {fields : List (Fin (2 ^ 16))} (hsize : fields.length = 6)
    (hshort : q.spell.length ≤ 39) :
    isIPv6 (compressed (fields.map Fin.val) (some q.spell)) = true ∧
      normalizeIPv6 (compressed (fields.map Fin.val) (some q.spell)) =
        .ok (compressed (fields.map Fin.val) (some q.spell)) := by
  let a : Address := ⟨fields, some ⟨0, 0, 0, 0⟩, hsize⟩
  have hspelled := a.canonical_spelled (some q.spell)
  have hipv4 : a.canonical.ipv4 = some ⟨0, 0, 0, 0⟩ := a.canonical_ipv4
  have hdecoded := a.canonical.decoded_core
  have hroom := a.canonical.room
  rw [hipv4, a.canonical_fields] at hdecoded
  have hcount : a.canonical.before.length + (a.canonical.gap.getD []).length ≤ 6 := by
    cases hgap : a.canonical.gap with
    | none =>
      rw [hgap, hipv4] at hroom
      exact hroom.le
    | some after =>
      rw [hgap, hipv4] at hroom
      exact hroom.le
  have hvalid : isIPv6 (IPv6Text.spelled a.canonical.before a.canonical.gap [q.spell]) = true := by
    refine isIPv6_dotted hshort hcount fun hgap => ?_
    rw [hgap, hipv4] at hroom
    exact hroom
  have hvalues : (fields.map Fin.val).length = 6 := (List.length_map _).trans hsize
  have hnormal := normalizeIPv6_spelled hvalid hcount hvalues hdecoded
  rw [← hspelled]
  exact ⟨hvalid, hnormal.trans (congrArg Except.ok hspelled.symm)⟩

theorem LaxText.decoded (t : LaxText) (hdotted : t.ipv4 = some q) :
    ∃ fields : List (Fin (2 ^ 16)), fields.length = 6 ∧
      Decoded 6 (IPv6Text.coreOf t.before t.gap) (fields.map Fin.val) := by
  obtain ⟨before, gap, ipv4, room, first⟩ := t
  obtain rfl : ipv4 = some q := hdotted
  cases gap with
  | none =>
    let u : IPv6Text := ⟨before, none, some ⟨0, 0, 0, 0⟩, room⟩
    exact ⟨u.fields, u.length_fields, u.decoded_core⟩
  | some after =>
    have hroom : before.length + after.length < 7 := room
    rcases Nat.lt_succ_iff_lt_or_eq.mp hroom with hlt | hslack
    · let u : IPv6Text := ⟨before, some after, some ⟨0, 0, 0, 0⟩, hlt⟩
      exact ⟨u.fields, u.length_fields, u.decoded_core⟩
    · refine ⟨(before ++ after).map Group.value, by simpa using hslack, ?_⟩
      have hdecoded := decoded_slack (IPv6Text.nil_not_mem_texts before)
        (IPv6Text.nil_not_mem_texts after) (IPv6Text.digits_coreOf before (some after))
        (by simpa [IPv6Text.texts] using hslack) (by decide : 6 ≤ 8)
      rwa [← IPv6Text.pieceValue_texts, IPv6Text.texts, List.map_append]

theorem LaxText.strict (t : LaxText) (hplain : t.ipv4 = none) :
    ∃ u : IPv6Text, u.ipv4 = none ∧ u.spell = t.spell := by
  obtain ⟨before, gap, ipv4, room, first⟩ := t
  obtain rfl : ipv4 = none := hplain
  cases gap with
  | none => exact ⟨⟨before, none, none, room⟩, rfl, rfl⟩
  | some after => exact ⟨⟨before, some after, none, room⟩, rfl, rfl⟩

theorem LaxText.dotted_room (t : LaxText) (hdotted : t.ipv4 = some q) :
    t.before.length + (t.gap.getD []).length ≤ 6 ∧ (t.gap = none → t.before.length = 6) := by
  obtain ⟨before, gap, ipv4, room, first⟩ := t
  obtain rfl : ipv4 = some q := hdotted
  cases gap with
  | none =>
    have hroom : before.length = 6 := room
    exact ⟨hroom.le, fun _ => hroom⟩
  | some after =>
    have hroom : before.length + after.length < 7 := room
    exact ⟨Nat.lt_succ_iff.mp hroom, fun h => by cases h⟩

theorem LaxText.normal (t : LaxText) (hlong : t.spell.length ≤ 39) :
    ∃ o, normalizeIPv6 t.spell = .ok o ∧ o ≠ [] ∧
      ((isIPv6 o = true ∧ normalizeIPv6 o = .ok o) ↔ ¬ (t.spell ≠ ascii "::" ∧ Blank t.spell)) := by
  cases hipv4 : t.ipv4 with
  | none =>
    obtain ⟨u, hplain, hspell⟩ := t.strict hipv4
    rw [← hspell]
    refine ⟨normalized u, normalizeIPv6_eq_normalized u, normalized_ne_nil u, ?_⟩
    rw [blank_iff u hplain]
    constructor
    · rintro ⟨hvalid, -⟩ ⟨hne, hzero⟩
      rw [normalized_colon ⟨hzero, hne⟩] at hvalid
      cases hvalid
    · intro h
      exact normalized_steady fun hzero => h ⟨hzero.2, hzero.1⟩
  | some q =>
    have hspell : t.spell = IPv6Text.spelled t.before t.gap [q.spell] := by
      rw [LaxText.spell, hipv4]
      rfl
    rw [hspell] at hlong ⊢
    have hshort := (spelled_suffix t.before t.gap q.spell).length_le.trans hlong
    obtain ⟨hroom, hfull⟩ := t.dotted_room hipv4
    obtain ⟨fields, hsize, hdecoded⟩ := t.decoded hipv4
    have hvalues : (fields.map Fin.val).length = 6 := (List.length_map _).trans hsize
    have hsteady := compressed_steady hsize hshort
    refine ⟨compressed (fields.map Fin.val) (some q.spell),
      normalizeIPv6_spelled (isIPv6_dotted hshort hroom hfull) hroom hvalues hdecoded,
      ne_nil_of_isIPv6 hsteady.1, iff_of_true hsteady ?_⟩
    rintro ⟨-, hblank⟩
    rcases hblank _ (dot_mem_spelled t.before t.gap q) with h | h <;> exact absurd h (by decide)

end lax

section host

variable {h o : Bytes} {v w : UInt8}

theorem future_readBack (hchars : isIPv6 h = true) (hv : v ≠ 0 ∧ v ≠ 4 ∧ v ≠ 6) :
    ReadBack v.toInt8.toInt h ↔ v < 16 := by
  have hrange : ∀ v : UInt8, v ≠ 0 ∧ v ≠ 4 ∧ v ≠ 6 → v.toInt8.toInt ≠ 0 ∧ v.toInt8.toInt ≠ 4 ∧
      v.toInt8.toInt ≠ 6 ∧ (0 ≤ v.toInt8.toInt ∧ v.toInt8.toInt < 16 ↔ v < 16) :=
    forall_byte (by decide +kernel)
  have hmask : ∀ c : UInt8, (c == 0x3A || c == 0x2E || isHexdigit c) = true →
      isChar c 0x05 = true := forall_byte (by decide +kernel)
  have hallowed : isChars h 0x05 = true := by
    simp only [isIPv6, Bool.and_eq_true, List.all_eq_true] at hchars
    exact isChars_iff.mpr fun c hc => hmask c (hchars.2 c hc)
  obtain ⟨h0, h4, h6, hlt⟩ := hrange v hv
  rw [ReadBack, if_neg h0, if_neg h4, if_neg h6, ← and_assoc, hlt]
  exact and_iff_left hallowed

theorem name_readBack (hname : isRegName h = true) (hipv4 : ¬ isIPv4 h = true) :
    ReadBack 0 (normalizeRegName h) :=
  ⟨isRegName_toLower hname, (isIPv4_toLower h).trans (Bool.not_eq_true _ ▸ hipv4),
    toLower_toLower h⟩

theorem stored_readBack (hne : h ≠ []) (hset : hostValue h v = .ok (o, w)) : o ≠ [] ∧
    (ReadBack w.toInt8.toInt o ↔ w < 16 ∧
      ¬ (w = 6 ∧ h ≠ ascii "::" ∧ ∀ c ∈ h, c = 0x30 ∨ c = 0x3A)) := by
  rw [hostValue, if_neg (by simpa using hne)] at hset
  split_ifs at hset with hipv4 hvalid hfuture hliteral hipv6 hvalid hname
  · obtain ⟨rfl, rfl⟩ := Prod.mk.inj (Except.ok.inj hset)
    exact ⟨hne, iff_of_true hipv4 (by simp)⟩
  · obtain ⟨rfl, rfl⟩ := Prod.mk.inj (Except.ok.inj hset)
    refine ⟨hne, ?_⟩
    rw [future_readBack hliteral hfuture]
    simp [hfuture.2.2]
  · obtain ⟨text, hnormal, hpair⟩ := Checked.map_ok.mp hset
    obtain ⟨rfl, rfl⟩ := Prod.mk.inj hpair
    obtain ⟨hlong, t, rfl⟩ := LaxText.exists_of_valid hvalid
    obtain ⟨o, hok, ho, hsteady⟩ := t.normal hlong
    obtain rfl := Except.ok.inj (hok.symm.trans hnormal)
    have hread : ReadBack (6 : UInt8).toInt8.toInt o ↔
        isIPv6 o = true ∧ normalizeIPv6 o = .ok o := Iff.rfl
    refine ⟨ho, ?_⟩
    rw [hread, hsteady]
    simp [Blank]
  · obtain ⟨rfl, rfl⟩ := Prod.mk.inj (Except.ok.inj hset)
    refine ⟨?_, iff_of_true (name_readBack hname hipv4) (by simp)⟩
    simpa [normalizeRegName, toLower_eq] using hne

theorem rebuildable_host {p : Parsed} {ipV : Int} (hread : Read p) (ho : o ≠ []) :
    Rebuildable { p with host := o, ipV := ipV } ↔ ReadBack ipV o := by
  have hread' : Read { p with host := o, ipV := ipV } :=
    ⟨⟨hread.scheme, hread.lower, hread.port, hread.path⟩, hread.user⟩
  constructor
  · intro hr
    exact hr.host ho
  · intro hback
    exact ⟨hread', fun _ => hback, fun hnil => absurd hnil ho⟩

-- A version is written as one hexadecimal digit, and the zero address is kept as one colon.
theorem hostValue_readBack (hne : h ≠ []) (hset : hostValue h v = .ok (o, w)) :
    (ReadBack w.toInt8.toInt o ↔ w < 16 ∧
      ¬ (w = 6 ∧ h ≠ ascii "::" ∧ ∀ c ∈ h, c = 0x30 ∨ c = 0x3A)) ∧
    ∀ p : Parsed, Read p → ∀ s, buildUrl { p with host := o, ipV := w.toInt8.toInt } = .ok s →
      s.length ≤ 8000 →
      (parseUrl s = .ok { p with host := o, ipV := w.toInt8.toInt, port := p.writtenPort } ↔
        w < 16 ∧ ¬ (w = 6 ∧ h ≠ ascii "::" ∧ ∀ c ∈ h, c = 0x30 ∨ c = 0x3A)) := by
  obtain ⟨ho, hback⟩ := stored_readBack hne hset
  refine ⟨hback, fun p hread s hbuild hlen => ?_⟩
  obtain ⟨hb, rfl⟩ := buildUrl_ok.mp hbuild
  exact (parseUrl_text_iff hb hlen).trans ((rebuildable_host hread ho).trans hback)

theorem hostValue_readBack_literal :
    parseUrl (ascii "http://[::1]/b") = .ok
      { scheme := ascii "http", host := ascii "::1", ipV := 6, path := ascii "/b" } ↔
    (6 : UInt8) < 16 ∧ ¬ ((6 : UInt8) = 6 ∧ ascii "0:0:0:0:0:0:0:1" ≠ ascii "::" ∧
      ∀ c ∈ ascii "0:0:0:0:0:0:0:1", c = 0x30 ∨ c = 0x3A) :=
  (@hostValue_readBack (ascii "0:0:0:0:0:0:0:1") (ascii "::1") 0 6 (by decide)
    (by decide +kernel)).2 { scheme := ascii "http", port := ascii "80", path := ascii "/b" }
    ⟨⟨by decide, by decide, by decide, by decide +kernel⟩, by decide⟩ _ (by decide +kernel)
    (by decide)

end host

end Url
end GWSockets
