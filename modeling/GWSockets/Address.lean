import GWSockets.Escape
import GWSockets.Fields
import Mathlib.Data.Fin.Basic
import Mathlib.Data.List.Infix

namespace GWSockets

namespace Url

structure Group where
  text : Bytes
  digits : Digits text
  nonempty : text ≠ []

def groupValue (text : Bytes) : ℕ := text.foldl (fun v c => v * 16 + (hexValue c).toNat) 0

structure Quad where
  a : UInt8
  b : UInt8
  c : UInt8
  d : UInt8
deriving DecidableEq, Repr

def Quad.spell (q : Quad) : Bytes :=
  decimal q.a.toNat ++ 0x2E :: decimal q.b.toNat ++ 0x2E :: decimal q.c.toNat ++
    0x2E :: decimal q.d.toNat

def fieldCount (ipv4 : Option Quad) : ℕ := if ipv4.isSome then 6 else 8

@[ext] structure Address where
  fields : List (Fin (2 ^ 16))
  ipv4 : Option Quad
  size : fields.length = fieldCount ipv4
deriving DecidableEq

-- Behind a gap come the groups of the second list.
structure IPv6Text where
  before : List Group
  gap : Option (List Group)
  ipv4 : Option Quad
  room : match gap with
    | none => before.length = fieldCount ipv4
    | some after => before.length + after.length < fieldCount ipv4

section value

variable {text : Bytes}

theorem hexValue_lt (c : UInt8) : (hexValue c).toNat < 16 :=
  forall_byte (p := fun c => (hexValue c).toNat < 16) (by decide +kernel) c

theorem pushDigit_hexValue {v : ℕ} {c : UInt8} (hc : isHexdigit c = true) :
    pushDigit v c = (v * 16 + (hexValue c).toNat) % 2 ^ 16 := by
  rw [isHexdigit_iff, Option.isSome_iff_exists] at hc
  obtain ⟨d, hd⟩ := hc
  rw [pushDigit, hexValue, hd]
  rfl

theorem groupValue_concat (text : Bytes) (c : UInt8) :
    groupValue (text ++ [c]) = groupValue text * 16 + (hexValue c).toNat := by
  rw [groupValue, List.foldl_append]
  rfl

theorem groupValue_lt (text : Bytes) : groupValue text < 16 ^ text.length := by
  induction text using List.reverseRecOn with
  | nil => decide
  | append_singleton text c ih =>
    rw [groupValue_concat, List.length_append, List.length_singleton, Nat.pow_succ]
    have := hexValue_lt c
    omega

theorem pieceValue_eq (h : ∀ c ∈ text, isHexdigit c = true) :
    pieceValue text = groupValue text % 2 ^ 16 := by
  induction text using List.reverseRecOn with
  | nil => rfl
  | append_singleton text c ih =>
    have hprev := ih (fun x hx => h x (List.mem_append_left _ hx))
    rw [groupValue_concat, pieceValue, List.foldl_append]
    show pushDigit (pieceValue text) c = _
    rw [hprev, pushDigit_hexValue (h c (by simp)), Nat.add_mod, Nat.mul_mod, Nat.mod_mod,
      ← Nat.mul_mod, ← Nat.add_mod]

theorem Digits.lt (h : Digits text) : groupValue text < 2 ^ 16 :=
  (groupValue_lt text).trans_le (Nat.pow_le_pow_right (by decide) h.1)

end value

def Group.value (g : Group) : Fin (2 ^ 16) := ⟨groupValue g.text, g.digits.lt⟩

def Group.ofField (f : Fin (2 ^ 16)) : Group := ⟨hex f.val, digits_hex f.isLt, hex_ne_nil f.val⟩

theorem Group.pieceValue_text (g : Group) : pieceValue g.text = g.value.val := by
  rw [pieceValue_eq g.digits.2]
  exact Nat.mod_eq_of_lt g.digits.lt

theorem Group.value_ofField (f : Fin (2 ^ 16)) : (Group.ofField f).value = f := by
  refine Fin.ext ?_
  rw [← pieceValue_text]
  exact pieceValue_hex f.isLt

namespace IPv6Text

def texts (groups : List Group) : List Bytes := groups.map Group.text

def tail (t : IPv6Text) : List Bytes := (t.ipv4.map Quad.spell).toList

def spell (t : IPv6Text) : Bytes :=
  match t.gap with
  | none => joined (texts t.before ++ t.tail)
  | some after => joined (texts t.before) ++ ascii "::" ++ joined (texts after ++ t.tail)

def fields (t : IPv6Text) : List (Fin (2 ^ 16)) :=
  match t.gap with
  | none => t.before.map Group.value
  | some after => t.before.map Group.value ++
      (List.replicate (fieldCount t.ipv4 - (t.before.length + after.length)) 0 ++
        after.map Group.value)

theorem length_fields (t : IPv6Text) : t.fields.length = fieldCount t.ipv4 := by
  obtain ⟨before, gap, ipv4, room⟩ := t
  cases gap with
  | none => simpa [fields] using room
  | some after =>
    simp only [fields, List.length_append, List.length_map, List.length_replicate]
    dsimp only at room
    omega

def address (t : IPv6Text) : Address := ⟨t.fields, t.ipv4, t.length_fields⟩

end IPv6Text

section joined

def Plain (pieces : List Bytes) : Prop := ∀ x ∈ pieces, x ≠ [] ∧ 0x3A ∉ x

variable {ps qs : List Bytes} {q : Bytes}

theorem Plain.append (h : Plain ps) (h' : Plain qs) : Plain (ps ++ qs) :=
  fun x hx => (List.mem_append.mp hx).elim (h x) (h' x)

theorem joined_append (hp : ps ≠ []) (hq : qs ≠ []) :
    joined (ps ++ qs) = joined ps ++ 0x3A :: joined qs := by
  induction ps with
  | nil => exact absurd rfl hp
  | cons p ps ih =>
    rw [List.cons_append, joined_cons, joined_cons]
    cases ps with
    | nil => simp [hq]
    | cons p' ps =>
      rw [if_neg (by simp), if_neg (by simp), ih (by simp)]
      simp

theorem head_joined (h : Plain ps) : (joined ps).head? ≠ some 0x3A := by
  cases ps with
  | nil => simp [joined]
  | cons p ps =>
    obtain ⟨hne, hcolon⟩ := h p List.mem_cons_self
    obtain ⟨c, p, rfl⟩ := List.exists_cons_of_ne_nil hne
    rw [joined_cons, List.cons_append, List.head?_cons, ne_eq, Option.some.injEq]
    rintro rfl
    exact hcolon List.mem_cons_self

theorem last_joined (h : Plain ps) : (joined ps).getLast? ≠ some 0x3A := by
  induction ps using List.reverseRecOn with
  | nil => simp [joined]
  | append_singleton ps q ih =>
    obtain ⟨hne, hcolon⟩ := h q (by simp)
    have hlast : (joined (ps ++ [q])).getLast? = q.getLast? := by
      cases ps with
      | nil => simp [joined]
      | cons p ps =>
        rw [joined_append (by simp) (by simp), List.getLast?_append_of_ne_nil _ (by simp),
          List.getLast?_cons]
        cases hq : q.getLast? with
        | none => exact absurd (List.getLast?_eq_none_iff.mp hq) hne
        | some c => simp [joined, hq]
    rw [hlast]
    intro hq
    exact hcolon (List.mem_of_getLast? hq)

theorem mem_joined {c : UInt8} (h : c ∈ joined ps) : c = 0x3A ∨ ∃ x ∈ ps, c ∈ x := by
  induction ps with
  | nil => simp [joined] at h
  | cons p ps ih =>
    rw [joined_cons, List.mem_append] at h
    rcases h with h | h
    · exact .inr ⟨p, List.mem_cons_self, h⟩
    · split_ifs at h with hps
      · cases h
      · rcases List.mem_cons.mp h with rfl | h
        · exact .inl rfl
        · rcases ih h with rfl | ⟨x, hx, hc⟩
          · exact .inl rfl
          · exact .inr ⟨x, List.mem_cons_of_mem p hx, hc⟩

theorem length_le_joined (h : Plain ps) : ps.length ≤ (joined ps).length := by
  induction ps with
  | nil => simp
  | cons p ps ih =>
    have hpos := List.length_pos_iff.mpr (h p List.mem_cons_self).1
    have hrest := ih (fun x hx => h x (List.mem_cons_of_mem p hx))
    rw [joined_cons, List.length_append, List.length_cons]
    split_ifs with hps
    · subst hps
      simp only [List.length_nil] at *
      omega
    · rw [List.length_cons]
      omega

theorem length_joined_le (ps : List Bytes) :
    (joined ps).length ≤ ps.flatten.length + ps.length := by
  induction ps with
  | nil => simp [joined]
  | cons p ps ih =>
    rw [joined_cons, List.length_append, List.length_cons, List.flatten_cons, List.length_append]
    split_ifs with hnil
    · rw [List.length_nil]
      omega
    · rw [List.length_cons]
      omega

theorem trimColons_joined (h : Plain ps) : trimColons (joined ps) = joined ps := by
  rw [trimColons, if_neg (head_joined h), if_neg (last_joined h)]

theorem joined_ne_nil (h : Plain ps) (hne : ps ≠ []) : joined ps ≠ [] := by
  have hlow := length_le_joined h
  have hpos := List.length_pos_iff.mpr hne
  exact List.ne_nil_of_length_pos (hpos.trans_le hlow)

theorem trimColons_gap (h : Plain ps) (h' : Plain qs) :
    trimColons (joined ps ++ ascii "::" ++ joined qs) = joined (ps ++ [] :: qs) := by
  have hgap : ascii "::" = [0x3A, 0x3A] := by decide
  have hhead : ∀ rest, ps ≠ [] → (joined ps ++ rest).head? ≠ some 0x3A := by
    intro rest hps
    rw [List.head?_append_of_ne_nil _ (joined_ne_nil h hps)]
    exact head_joined h
  have hlast : ∀ rest, qs ≠ [] → (rest ++ joined qs).getLast? ≠ some 0x3A := by
    intro rest hqs
    rw [List.getLast?_append_of_ne_nil _ (joined_ne_nil h' hqs)]
    exact last_joined h'
  rw [hgap]
  by_cases hps : ps = []
  · subst hps
    by_cases hqs : qs = []
    · subst hqs
      decide
    · rw [trimColons, if_neg (hlast _ hqs), if_pos (by simp [joined]), List.nil_append,
        joined_cons, if_neg hqs]
      simp [joined]
  · by_cases hqs : qs = []
    · subst hqs
      rw [joined_append hps (by simp), List.append_assoc, trimColons, if_neg (hhead _ hps),
        if_pos (by simp [joined])]
      simp [joined, List.dropLast_append_of_ne_nil]
    · rw [joined_append hps (by simp), trimColons, if_neg (hlast _ hqs), List.append_assoc,
        if_neg (hhead _ hps), joined_cons [] qs, if_neg hqs]
      simp

end joined

section tails

variable {pieces : List Bytes} {q : Bytes} {ends : List Bytes}

theorem tails_concat (pieces : List Bytes) (q : Bytes) :
    (pieces ++ [q]).tails = pieces.tails.map (· ++ [q]) ++ [[]] := by
  induction pieces with
  | nil => rfl
  | cons p pieces ih =>
    rw [List.cons_append, List.tails, ih, List.tails]
    rfl

theorem tails_last (pieces : List Bytes) : ∃ longer, pieces.tails = longer ++ [[]] := by
  induction pieces with
  | nil => exact ⟨[], rfl⟩
  | cons p pieces ih =>
    obtain ⟨longer, hlonger⟩ := ih
    exact ⟨(p :: pieces) :: longer, by rw [List.tails, hlonger]; rfl⟩

theorem getLastD_tails (f : List Bytes → Bytes) (pieces : List Bytes) :
    (pieces.tails.map f).getLastD [] = f [] := by
  obtain ⟨longer, hlonger⟩ := tails_last pieces
  rw [hlonger, List.map_append, List.map_singleton, List.getLastD_concat]

theorem splitColons_joined (hne : pieces ≠ []) (hlen : pieces.length ≤ 8)
    (h : ∀ x ∈ pieces, 0x3A ∉ x) :
    splitColons (joined pieces) = .ok (pieces.tails.map joined) := by
  obtain ⟨p, rest, rfl⟩ := List.exists_cons_of_ne_nil hne
  have htokens := suffixes_joined h
  have hcount := congrArg List.length htokens
  rw [List.length_map, List.length_tails, List.length_cons, List.length_append,
    List.length_singleton, List.length_cons] at hcount
  rw [List.length_cons] at hlen
  rw [splitColons_eq, if_pos (by omega), if_pos (by rw [List.length_cons]; omega), ← htokens]
  rfl

theorem normalizeIPv6_pieces {t : Bytes} {last : Bytes} (hvalid : isIPv6 t = true)
    (hnull : t ≠ ascii "::") (htrim : trimColons t = joined (pieces ++ [last]))
    (hlen : pieces.length < 8) (h : ∀ x ∈ pieces ++ [last], 0x3A ∉ x) :
    normalizeIPv6 t =
      if 5 < last.length then
        finishIPv6 (pieces.tails.map (fun t => joined (t ++ [last]))) (some last) 6
      else finishIPv6 ((pieces ++ [last]).tails.map joined) none 8 := by
  have hsplit : splitColons (trimColons t) = .ok ((pieces ++ [last]).tails.map joined) := by
    rw [htrim]
    exact splitColons_joined (by simp) (by rw [List.length_append]; exact hlen) h
  have hdrop : ((pieces ++ [last]).tails.map joined).dropLast =
      pieces.tails.map (fun t => joined (t ++ [last])) := by
    rw [tails_concat, List.map_append, List.map_singleton, List.dropLast_concat, List.map_map]
    rfl
  have hnorm : normalizeIPv6 t = (splitColons (trimColons t)).bind fun tokens =>
      if 5 < (tokens.dropLast.getLastD []).length then
        finishIPv6 tokens.dropLast (some (tokens.dropLast.getLastD [])) 6
      else finishIPv6 tokens none 8 := by
    rw [normalizeIPv6, hvalid, if_neg hnull]
    rfl
  have hlast : joined [last] = last := by simp [joined]
  rw [hnorm, hsplit, Except.bind, hdrop, getLastD_tails, List.nil_append, hlast]

variable {t : Bytes} {core : List Bytes} {fields : List ℕ}

theorem normalizeIPv6_groups (hvalid : isIPv6 t = true) (hnull : t ≠ ascii "::")
    (htrim : trimColons t = joined core) (hne : core ≠ []) (hlen : core.length ≤ 8)
    (hdigits : ∀ x ∈ core, Digits x) (hsize : fields.length = 8) (h : Decoded 8 core fields) :
    normalizeIPv6 t = .ok (if ∀ f ∈ fields, f = 0 then [0x3A] else compressed fields none) := by
  obtain ⟨init, last, rfl⟩ : ∃ init last, core = init ++ [last] :=
    ⟨_, _, (List.dropLast_append_getLast hne).symm⟩
  have hlast : last.length ≤ 4 := (hdigits last (by simp)).1
  rw [List.length_append] at hlen
  have hfinish := @finishIPv6_decoded (init ++ [last]) [] fields none hsize (hsize.symm ▸ h)
  simp only [hsize, and_true, List.append_nil] at hfinish
  rw [normalizeIPv6_pieces hvalid hnull htrim hlen
    (fun x hx => colon_not_mem_digits (hdigits x hx)), if_neg (by omega)]
  exact hfinish

theorem normalizeIPv6_dotted (hvalid : isIPv6 t = true) (hnull : t ≠ ascii "::")
    (htrim : trimColons t = joined (core ++ [q])) (hlen : core.length < 8)
    (hdigits : ∀ x ∈ core, Digits x) (hq : 0x3A ∉ q) (hlong : 5 < q.length)
    (hsize : fields.length = 6) (h : Decoded 6 core fields) :
    normalizeIPv6 t = .ok (compressed fields (some q)) := by
  have hcolon : ∀ x ∈ core ++ [q], 0x3A ∉ x := by
    intro x hx
    rcases List.mem_append.mp hx with hx | hx
    · exact colon_not_mem_digits (hdigits x hx)
    · rwa [List.mem_singleton.mp hx]
  have hfinish := @finishIPv6_decoded core [q] fields (some q) hsize (hsize.symm ▸ h)
  rw [hsize, if_neg (by simp)] at hfinish
  rw [normalizeIPv6_pieces hvalid hnull htrim hlen hcolon, if_pos hlong]
  exact hfinish

end tails

theorem Quad.text (q : Quad) : (7 ≤ q.spell.length ∧ q.spell.length ≤ 15) ∧
    ∀ c ∈ q.spell, c = 0x2E ∨ isNum c = true := by
  have hpart : ∀ b : UInt8, (1 ≤ (decimal b.toNat).length ∧ (decimal b.toNat).length ≤ 3) ∧
      (decimal b.toNat).all isNum = true := forall_byte (by decide +kernel)
  have hnum : ∀ b : UInt8, ∀ c ∈ decimal b.toNat, isNum c = true :=
    fun b => List.all_eq_true.mp (hpart b).2
  obtain ⟨ha, -⟩ := hpart q.a
  obtain ⟨hb, -⟩ := hpart q.b
  obtain ⟨hc, -⟩ := hpart q.c
  obtain ⟨hd, -⟩ := hpart q.d
  refine ⟨?_, fun x hx => ?_⟩
  · simp only [Quad.spell, List.length_append, List.length_cons]
    omega
  · simp only [Quad.spell, List.mem_append, List.mem_cons] at hx
    rcases hx with ((hx | rfl | hx) | rfl | hx) | rfl | hx
    · exact .inr (hnum _ _ hx)
    · exact .inl rfl
    · exact .inr (hnum _ _ hx)
    · exact .inl rfl
    · exact .inr (hnum _ _ hx)
    · exact .inl rfl
    · exact .inr (hnum _ _ hx)

namespace IPv6Text

theorem digits_texts (groups : List Group) : ∀ x ∈ texts groups, Digits x := by
  intro x hx
  obtain ⟨g, -, rfl⟩ := List.mem_map.mp hx
  exact g.digits

theorem nil_not_mem_texts (groups : List Group) : [] ∉ texts groups := by
  intro h
  obtain ⟨g, -, hg⟩ := List.mem_map.mp h
  exact g.nonempty hg

theorem plain_texts (groups : List Group) : Plain (texts groups) := by
  intro x hx
  obtain ⟨g, -, rfl⟩ := List.mem_map.mp hx
  exact ⟨g.nonempty, colon_not_mem_digits g.digits⟩

theorem pieceValue_texts (groups : List Group) :
    (texts groups).map pieceValue = (groups.map Group.value).map Fin.val := by
  rw [texts, List.map_map, List.map_map]
  exact List.map_congr_left fun g _ => g.pieceValue_text

section spelled

variable (before : List Group) (gap : Option (List Group)) {tail : List Bytes}

def coreOf : List Bytes :=
  match gap with
  | none => texts before
  | some after => texts before ++ [] :: texts after

def spelled (tail : List Bytes) : Bytes :=
  match gap with
  | none => joined (texts before ++ tail)
  | some after => joined (texts before) ++ ascii "::" ++ joined (texts after ++ tail)

theorem digits_coreOf : ∀ x ∈ coreOf before gap, Digits x := by
  cases gap with
  | none => exact digits_texts before
  | some after =>
    intro x hx
    rcases List.mem_append.mp hx with hx | hx
    · exact digits_texts before x hx
    · rcases List.mem_cons.mp hx with rfl | hx
      · exact ⟨by decide, by simp⟩
      · exact digits_texts after x hx

theorem trimColons_spelled (hplain : Plain tail) :
    trimColons (spelled before gap tail) = joined (coreOf before gap ++ tail) := by
  cases gap with
  | none => exact trimColons_joined ((plain_texts _).append hplain)
  | some after =>
    rw [spelled, trimColons_gap (plain_texts _) ((plain_texts _).append hplain)]
    simp [coreOf]

theorem length_texts (groups : List Group) :
    (texts groups).flatten.length ≤ 4 * groups.length := by
  induction groups with
  | nil => simp [texts]
  | cons g groups ih =>
    have hg := g.digits.1
    have htexts : texts (g :: groups) = g.text :: texts groups := rfl
    rw [htexts, List.flatten_cons, List.length_append, List.length_cons]
    omega

theorem length_pieces (groups : List Group) (tail : List Bytes) :
    (joined (texts groups ++ tail)).length ≤
      5 * groups.length + tail.flatten.length + tail.length := by
  have hjoined := length_joined_le (texts groups ++ tail)
  have htexts := length_texts groups
  have hcount : (texts groups).length = groups.length := List.length_map _
  rw [List.flatten_append, List.length_append, List.length_append] at hjoined
  omega

theorem mem_pieces (groups : List Group)
    (hchars : ∀ x ∈ tail, ∀ c ∈ x, c = 0x2E ∨ isNum c = true) :
    ∀ c ∈ joined (texts groups ++ tail), (c == 0x3A || c == 0x2E || isHexdigit c) = true := by
  intro c hc
  rcases mem_joined hc with rfl | ⟨x, hx, hcx⟩
  · rfl
  · rcases List.mem_append.mp hx with hx | hx
    · rw [(digits_texts groups x hx).2 c hcx, Bool.or_true]
    · rcases hchars x hx c hcx with rfl | hnum
      · rfl
      · simp [isHexdigit, hnum]

theorem isIPv6_spelled (hplain : Plain tail)
    (hchars : ∀ x ∈ tail, ∀ c ∈ x, c = 0x2E ∨ isNum c = true)
    (hshort : tail.flatten.length + tail.length ≤ 40)
    (hroom : before.length + (gap.getD []).length ≤ 8)
    (hlong : gap = none → 2 ≤ before.length + tail.length) :
    isIPv6 (spelled before gap tail) = true := by
  simp only [isIPv6, Bool.and_eq_true, decide_eq_true_eq, List.all_eq_true]
  cases gap with
  | none =>
    have hlow := length_le_joined ((plain_texts before).append hplain)
    have hhigh := length_pieces before tail
    have hcount : (texts before).length = before.length := List.length_map _
    rw [List.length_append, hcount] at hlow
    have htwo := hlong rfl
    rw [Option.getD_none, List.length_nil] at hroom
    exact ⟨⟨show 2 ≤ (joined _).length by omega, show (joined _).length ≤ 254 by omega⟩,
      mem_pieces before hchars⟩
  | some after =>
    have hlead := length_pieces before []
    have hrest := length_pieces after tail
    have htwo : (ascii "::").length = 2 := by decide
    have hcolons : ∀ c ∈ ascii "::", (c == 0x3A || c == 0x2E || isHexdigit c) = true :=
      forall_mem_bytes (by decide)
    have hbare := @mem_pieces [] before (by simp)
    rw [List.append_nil] at hlead hbare
    simp only [List.flatten_nil, List.length_nil, Option.getD_some] at hlead hroom
    simp only [spelled, List.length_append, htwo]
    refine ⟨⟨by omega, by omega⟩, fun c hc => ?_⟩
    rcases List.mem_append.mp hc with hc | hc
    · rcases List.mem_append.mp hc with hc | hc
      · exact hbare c hc
      · exact hcolons c hc
    · exact mem_pieces after hchars c hc

end spelled

theorem colon_not_mem_quad (q : Quad) : 0x3A ∉ q.spell := by
  intro h
  rcases q.text.2 _ h with hdot | hnum
  · exact absurd hdot (by decide)
  · exact absurd hnum (by decide)

theorem plain_tail (t : IPv6Text) : Plain t.tail := by
  intro x hx
  obtain ⟨q, -, rfl⟩ : ∃ q, t.ipv4 = some q ∧ q.spell = x := by
    simpa [tail, Option.map_eq_some_iff] using hx
  exact ⟨List.ne_nil_of_length_pos (by have := q.text.1; omega), colon_not_mem_quad q⟩

def core (t : IPv6Text) : List Bytes :=
  match t.gap with
  | none => texts t.before
  | some after => texts t.before ++ [] :: texts after

theorem core_denotes (t : IPv6Text) :
    Denotes (fieldCount t.ipv4) t.core (t.fields.map Fin.val) := by
  obtain ⟨before, gap, ipv4, room⟩ := t
  cases gap with
  | none =>
    have h := @Denotes.full (fieldCount ipv4) _ (nil_not_mem_texts before)
      (by rw [texts, List.length_map]; exact room)
    rwa [pieceValue_texts] at h
  | some after =>
    have h := @Denotes.gap (fieldCount ipv4) _ _ (nil_not_mem_texts before)
      (nil_not_mem_texts after) (by rw [texts, texts, List.length_map, List.length_map]; exact room)
    rw [pieceValue_texts, pieceValue_texts] at h
    simpa [core, fields, texts] using h

theorem digits_core (t : IPv6Text) : ∀ x ∈ t.core, Digits x := digits_coreOf t.before t.gap

theorem trimColons_spell (t : IPv6Text) : trimColons t.spell = joined (t.core ++ t.tail) :=
  trimColons_spelled t.before t.gap t.plain_tail

theorem isIPv6_spell (t : IPv6Text) : isIPv6 t.spell = true := by
  have hchars : ∀ x ∈ t.tail, ∀ c ∈ x, c = 0x2E ∨ isNum c = true := by
    intro x hx
    obtain ⟨q, -, rfl⟩ : ∃ q, t.ipv4 = some q ∧ q.spell = x := by
      simpa [tail, Option.map_eq_some_iff] using hx
    exact q.text.2
  have hshort : t.tail.flatten.length + t.tail.length ≤ 40 := by
    cases hipv4 : t.ipv4 with
    | none => simp [tail, hipv4]
    | some q =>
      have := q.text.1
      simp only [tail, hipv4, Option.map_some, Option.toList_some, List.flatten_singleton,
        List.length_singleton]
      omega
  have hsize : 6 ≤ fieldCount t.ipv4 ∧ fieldCount t.ipv4 ≤ 8 := by
    rw [fieldCount]
    split_ifs <;> omega
  have hroom := t.room
  refine isIPv6_spelled t.before t.gap t.plain_tail hchars hshort ?_ fun hgap => ?_
  · cases hgap : t.gap with
    | none =>
      rw [hgap] at hroom
      simp only [Option.getD_none, List.length_nil]
      omega
    | some after =>
      rw [hgap] at hroom
      simp only [Option.getD_some]
      omega
  · rw [hgap] at hroom
    dsimp only at hroom
    omega

theorem core_ne_nil (t : IPv6Text) : t.core ≠ [] := by
  intro hnil
  have hfields := t.core_denotes
  rw [hnil] at hfields
  have hzero := hfields.nonempty
  rw [fieldCount] at hzero
  split_ifs at hzero

theorem colon_not_mem_pieces (t : IPv6Text) : ∀ x ∈ t.core ++ t.tail, 0x3A ∉ x := by
  intro x hx
  rcases List.mem_append.mp hx with hx | hx
  · exact colon_not_mem_digits (t.digits_core x hx)
  · exact (t.plain_tail x hx).2

theorem decoded_core (t : IPv6Text) :
    Decoded (fieldCount t.ipv4) t.core (t.fields.map Fin.val) := by
  refine decoded_pieces ?_ t.digits_core t.core_denotes
  rw [fieldCount]
  split_ifs <;> omega

theorem normalizeIPv6_spell (t : IPv6Text) (hnull : t.spell ≠ ascii "::") :
    normalizeIPv6 t.spell = .ok
      (if (∀ f ∈ t.fields.map Fin.val, f = 0) ∧ t.ipv4 = none then [0x3A]
        else compressed (t.fields.map Fin.val) (t.ipv4.map Quad.spell)) := by
  have htrim := t.trimColons_spell
  have hsize := t.core_denotes.length
  have hshort := t.core_denotes.pieces
  have hdecoded := t.decoded_core
  cases hq : t.ipv4 with
  | none =>
    have hplain : t.tail = [] := by rw [tail, hq]; rfl
    have hcount : fieldCount t.ipv4 = 8 := by rw [hq]; rfl
    rw [hplain, List.append_nil] at htrim
    rw [hcount] at hsize hshort hdecoded
    rw [normalizeIPv6_groups t.isIPv6_spell hnull htrim t.core_ne_nil hshort t.digits_core hsize
      hdecoded]
    simp
  | some q =>
    have hquad : t.tail = [q.spell] := by rw [tail, hq]; rfl
    have hcount : fieldCount t.ipv4 = 6 := by rw [hq]; rfl
    have hlong := q.text.1.1
    rw [hquad] at htrim
    rw [hcount] at hsize hshort hdecoded
    rw [normalizeIPv6_dotted t.isIPv6_spell hnull htrim (by omega) t.digits_core
      (colon_not_mem_quad q) (by omega) hsize hdecoded]
    simp

end IPv6Text

namespace Address

def Zero (a : Address) : Prop := (∀ f ∈ a.fields, f = 0) ∧ a.ipv4 = none

instance (a : Address) : Decidable a.Zero :=
  inferInstanceAs (Decidable ((∀ f ∈ a.fields, f = 0) ∧ a.ipv4 = none))

def run (a : Address) : ℕ × ℕ := longestRun (a.fields.map Fin.val)

theorem run_bound (a : Address) : a.run.2 ≤ 1 ∨ a.run.1 + a.run.2 ≤ a.fields.length := by
  have hbound := longestRun_bound (a.fields.map Fin.val)
  rw [List.length_map] at hbound
  rcases hbound with ⟨hzero, -⟩ | ⟨-, hin⟩
  · exact .inl (hzero.trans_le (Nat.zero_le 1))
  · exact .inr hin

def canonical (a : Address) : IPv6Text :=
  if h : a.run.2 ≤ 1 then
    ⟨a.fields.map Group.ofField, none, a.ipv4, (List.length_map _).trans a.size⟩
  else
    ⟨(a.fields.take a.run.1).map Group.ofField,
      some ((a.fields.drop (a.run.1 + a.run.2)).map Group.ofField), a.ipv4, by
        have hin := a.run_bound.resolve_left h
        simp only [List.length_map, List.length_take, List.length_drop]
        rw [← a.size]
        omega⟩

theorem texts_ofField (fields : List (Fin (2 ^ 16))) :
    IPv6Text.texts (fields.map Group.ofField) = (fields.map Fin.val).map hex := by
  rw [IPv6Text.texts, List.map_map, List.map_map]
  rfl

theorem values_ofField (fields : List (Fin (2 ^ 16))) :
    (fields.map Group.ofField).map Group.value = fields := by
  rw [List.map_map]
  exact List.map_id'' Group.value_ofField fields

theorem canonical_ipv4 (a : Address) : a.canonical.ipv4 = a.ipv4 := by
  rw [canonical]
  split_ifs <;> rfl

theorem canonical_spelled (a : Address) (last : Option Bytes) :
    IPv6Text.spelled a.canonical.before a.canonical.gap last.toList =
      compressed (a.fields.map Fin.val) last := by
  rw [compressed]
  show _ = if a.run.2 ≤ 1 then _ else joined (((a.fields.map Fin.val).take a.run.1).map hex) ++ _
    ++ joined (((a.fields.map Fin.val).drop (a.run.1 + a.run.2)).map hex ++ _)
  by_cases h : a.run.2 ≤ 1
  · rw [if_pos h]
    simp only [IPv6Text.spelled, canonical, dif_pos h, texts_ofField]
  · rw [if_neg h, ← List.map_take, ← List.map_drop]
    simp only [IPv6Text.spelled, canonical, dif_neg h, texts_ofField]

theorem canonical_spell (a : Address) :
    a.canonical.spell = compressed (a.fields.map Fin.val) (a.ipv4.map Quad.spell) := by
  rw [← canonical_spelled, ← a.canonical_ipv4]
  rfl

theorem opened_run (a : Address) (h : ¬ a.run.2 ≤ 1) :
    a.fields.take a.run.1 ++ (List.replicate a.run.2 0 ++ a.fields.drop (a.run.1 + a.run.2)) =
      a.fields := by
  have hin := a.run_bound.resolve_left h
  have hrun : Runs.At (· = 0) (a.fields.map Fin.val) a.run.1 a.run.2 :=
    (longestRun_longest (a.fields.map Fin.val)).run
  have hzeros : (a.fields.drop a.run.1).take a.run.2 = List.replicate a.run.2 0 := by
    refine List.eq_replicate_iff.mpr ⟨?_, fun f hf => ?_⟩
    · rw [List.length_take, List.length_drop]
      omega
    · obtain ⟨j, hj, rfl⟩ := List.mem_iff_getElem.mp hf
      rw [List.length_take, List.length_drop] at hj
      obtain ⟨x, hx, hzero⟩ := hrun (a.run.1 + j) (by omega) (by omega)
      rw [List.getElem?_map, List.getElem?_eq_getElem (by omega), Option.map_some,
        Option.mem_some_iff] at hx
      rw [List.getElem_take, List.getElem_drop]
      exact Fin.ext (hx.trans hzero)
  rw [← hzeros, ← List.drop_drop, List.take_append_drop, List.take_append_drop]

theorem canonical_fields (a : Address) : a.canonical.fields = a.fields := by
  by_cases h : a.run.2 ≤ 1
  · simp only [IPv6Text.fields, canonical, dif_pos h]
    exact values_ofField a.fields
  · have hin := a.run_bound.resolve_left h
    have hcount : fieldCount a.ipv4 -
        (((a.fields.take a.run.1).map Group.ofField).length +
          ((a.fields.drop (a.run.1 + a.run.2)).map Group.ofField).length) = a.run.2 := by
      simp only [List.length_map, List.length_take, List.length_drop]
      rw [← a.size]
      omega
    simp only [IPv6Text.fields, canonical, dif_neg h]
    rw [hcount, values_ofField, values_ofField]
    exact a.opened_run h

theorem canonical_address (a : Address) : a.canonical.address = a :=
  Address.ext a.canonical_fields a.canonical_ipv4

end Address

namespace IPv6Text

structure Shortest (t : IPv6Text) : Prop where
  groups : ∀ g ∈ t.before ++ t.gap.getD [], g.text = hex g.value
  written : t.gap = none → ∀ i k, Runs.At (· = 0) t.fields i k → k ≤ 1
  skipped : ∀ after, t.gap = some after → ∃ k, 2 ≤ k ∧
    t.before.length + k + after.length = fieldCount t.ipv4 ∧
      Runs.Longest (· = 0) t.fields t.before.length k

end IPv6Text

namespace Address

theorem run_longest (a : Address) : Runs.Longest (· = 0) a.fields a.run.1 a.run.2 :=
  Runs.longest_map (fun f => by rw [Fin.ext_iff]; rfl) (longestRun_longest _)

theorem text_ofField {fields : List (Fin (2 ^ 16))} {g : Group}
    (h : g ∈ fields.map Group.ofField) : g.text = hex g.value := by
  obtain ⟨f, -, rfl⟩ := List.mem_map.mp h
  rw [Group.value_ofField]
  rfl

theorem canonical_shortest (a : Address) : a.canonical.Shortest := by
  have hfields := a.canonical_fields
  have hlongest := a.run_longest
  by_cases h : a.run.2 ≤ 1
  · have hcanonical : a.canonical = ⟨a.fields.map Group.ofField, none, a.ipv4, _⟩ := dif_pos h
    refine ⟨fun g hg => ?_, fun _ i k hat => ?_, fun after hgap => ?_⟩
    · rw [hcanonical] at hg
      exact text_ofField (by simpa using hg)
    · rw [hfields] at hat
      exact (hlongest.most i k hat).trans h
    · rw [hcanonical] at hgap
      cases hgap
  · have hin := a.run_bound.resolve_left h
    have hcanonical : a.canonical = ⟨(a.fields.take a.run.1).map Group.ofField,
      some ((a.fields.drop (a.run.1 + a.run.2)).map Group.ofField), a.ipv4, _⟩ := dif_neg h
    have hbefore : a.canonical.before.length = a.run.1 := by
      rw [hcanonical, List.length_map, List.length_take]
      omega
    refine ⟨fun g hg => ?_, fun hgap => ?_, fun after hgap => ⟨a.run.2, by omega, ?_, ?_⟩⟩
    · rw [hcanonical] at hg
      rcases List.mem_append.mp hg with hg | hg
      · exact text_ofField hg
      · exact text_ofField hg
    · rw [hcanonical] at hgap
      cases hgap
    · rw [hbefore, a.canonical_ipv4, ← a.size]
      rw [hcanonical] at hgap
      obtain rfl := Option.some.inj hgap
      rw [List.length_map, List.length_drop]
      omega
    · rw [hfields, hbefore]
      exact hlongest

end Address

section spelling

theorem joined_injective {ps qs : List Bytes} (hp : ps ≠ []) (hq : qs ≠ [])
    (hps : ∀ x ∈ ps, 0x3A ∉ x) (hqs : ∀ x ∈ qs, 0x3A ∉ x) (h : joined ps = joined qs) :
    ps = qs := by
  have hsplit := congrArg (List.splitOn 0x3A) h
  rwa [joined, joined, List.splitOn_intercalate _ hps hp, List.splitOn_intercalate _ hqs hq]
    at hsplit

theorem Quad.spell_injective {q r : Quad} (h : q.spell = r.spell) : q = r := by
  have hvalue : ∀ b : UInt8, decimalValue (decimal b.toNat) = b.toNat :=
    forall_byte (by decide +kernel)
  have hdot : ∀ b : UInt8, 0x2E ∉ decimal b.toNat := forall_byte (by decide +kernel)
  have hparts : ∀ q : Quad, q.spell.splitOn 0x2E = [decimal q.a.toNat, decimal q.b.toNat,
      decimal q.c.toNat, decimal q.d.toNat] := by
    intro q
    have hjoin : q.spell = [0x2E].intercalate [decimal q.a.toNat, decimal q.b.toNat,
        decimal q.c.toNat, decimal q.d.toNat] := by
      simp [Quad.spell, List.intercalate_cons_cons]
    rw [hjoin, List.splitOn_intercalate _ (by simp [hdot]) (by simp)]
  have hinj : ∀ {b c : UInt8}, decimal b.toNat = decimal c.toNat → b = c := by
    intro b c hbc
    have := congrArg decimalValue hbc
    rw [hvalue, hvalue] at this
    exact UInt8.toNat_inj.mp this
  have hsplit := congrArg (List.splitOn 0x2E) h
  rw [hparts, hparts] at hsplit
  simp only [List.cons.injEq, and_true] at hsplit
  obtain ⟨ha, hb, hc, hd⟩ := hsplit
  cases q
  cases r
  rw [Quad.mk.injEq]
  exact ⟨hinj ha, hinj hb, hinj hc, hinj hd⟩

theorem Denotes.unique {size : ℕ} {qs : List Bytes} {fields fields' : List ℕ} (hn : size ≤ 8)
    (hdigits : ∀ x ∈ qs, Digits x) (h : Denotes size qs fields) (h' : Denotes size qs fields') :
    fields = fields' := by
  obtain ⟨vs, nullPos, array, hdecode, hexpand, hvalues⟩ := decoded_pieces hn hdigits h []
  obtain ⟨vs', nullPos', array', hdecode', hexpand', hvalues'⟩ :=
    decoded_pieces hn hdigits h' []
  rw [hdecode] at hdecode'
  obtain ⟨rfl, rfl⟩ := Prod.mk.inj (Except.ok.inj hdecode')
  rw [hexpand] at hexpand'
  obtain rfl := Except.ok.inj hexpand'
  exact hvalues.symm.trans hvalues'

namespace IPv6Text

theorem tail_cases (t : IPv6Text) : (t.ipv4 = none ∧ t.tail = []) ∨
    ∃ q, t.ipv4 = some q ∧ t.tail = [q.spell] := by
  cases hipv4 : t.ipv4 with
  | none => exact .inl ⟨rfl, by rw [tail, hipv4]; rfl⟩
  | some q => exact .inr ⟨q, rfl, by rw [tail, hipv4]; rfl⟩

theorem quad_not_mem_core (t : IPv6Text) (q : Quad) : q.spell ∉ t.core := by
  intro h
  have hshort := (t.digits_core _ h).1
  have hlong := q.text.1.1
  omega

theorem pieces_injective {t u : IPv6Text} (h : t.core ++ t.tail = u.core ++ u.tail) :
    t.core = u.core ∧ t.ipv4 = u.ipv4 := by
  rcases t.tail_cases with ⟨ht, htail⟩ | ⟨q, ht, htail⟩
  · rcases u.tail_cases with ⟨hu, hutail⟩ | ⟨r, hu, hutail⟩
    · rw [htail, hutail, List.append_nil, List.append_nil] at h
      exact ⟨h, ht.trans hu.symm⟩
    · rw [htail, hutail, List.append_nil] at h
      exact absurd (h ▸ List.mem_concat_self : r.spell ∈ t.core) (t.quad_not_mem_core r)
  · rcases u.tail_cases with ⟨hu, hutail⟩ | ⟨r, hu, hutail⟩
    · rw [htail, hutail, List.append_nil] at h
      exact absurd (h ▸ List.mem_concat_self : q.spell ∈ u.core) (u.quad_not_mem_core q)
    · rw [htail, hutail] at h
      obtain ⟨hcore, hspell⟩ := List.append_inj' h rfl
      rw [Quad.spell_injective (List.singleton_inj.mp hspell)] at ht
      exact ⟨hcore, ht.trans hu.symm⟩

theorem spell_address {t u : IPv6Text} (h : t.spell = u.spell) : t.address = u.address := by
  have hjoined : joined (t.core ++ t.tail) = joined (u.core ++ u.tail) := by
    rw [← trimColons_spell, ← trimColons_spell, h]
  have hpieces := joined_injective (fun hnil => t.core_ne_nil (List.append_eq_nil_iff.mp hnil).1)
    (fun hnil => u.core_ne_nil (List.append_eq_nil_iff.mp hnil).1) t.colon_not_mem_pieces
    u.colon_not_mem_pieces hjoined
  obtain ⟨hcore, hipv4⟩ := pieces_injective hpieces
  have hu := u.core_denotes
  rw [← hcore, ← hipv4] at hu
  have hsize : fieldCount t.ipv4 ≤ 8 := by
    rw [fieldCount]
    split_ifs <;> omega
  have hfields := t.core_denotes.unique hsize t.digits_core hu
  exact Address.ext (List.map_injective_iff.mpr Fin.val_injective hfields) hipv4

end IPv6Text

end spelling

section normalized

def normalized (t : IPv6Text) : Bytes :=
  if t.address.Zero ∧ t.spell ≠ ascii "::" then [0x3A] else t.address.canonical.spell

variable {t u : IPv6Text}

theorem zero_iff (t : IPv6Text) :
    ((∀ f ∈ t.fields.map Fin.val, f = 0) ∧ t.ipv4 = none) ↔ t.address.Zero := by
  refine and_congr_left fun _ => ?_
  simp only [List.mem_map, forall_exists_index, and_imp, forall_apply_eq_imp_iff₂]
  exact forall_congr' fun f => forall_congr' fun _ => by rw [Fin.ext_iff]; rfl

theorem address_of_null (h : t.spell = ascii "::") :
    t.address = ⟨List.replicate 8 0, none, rfl⟩ :=
  @IPv6Text.spell_address t ⟨[], some [], none, by decide⟩ h

theorem normalizeIPv6_eq_normalized (t : IPv6Text) :
    normalizeIPv6 t.spell = .ok (normalized t) := by
  rw [normalized]
  by_cases hnull : t.spell = ascii "::"
  · have hcanonical : t.address.canonical.spell = ascii "::" := by
      rw [address_of_null hnull]
      decide
    rw [if_neg (fun h => h.2 hnull), hcanonical, hnull]
    rfl
  · rw [t.normalizeIPv6_spell hnull]
    simp only [zero_iff, hnull, ne_eq, not_false_eq_true, and_true, Address.canonical_spell]
    rfl

theorem normalized_nonzero (h : ¬ (t.address.Zero ∧ t.spell ≠ ascii "::")) :
    normalized t = t.address.canonical.spell := if_neg h

theorem spell_ne_colon (t : IPv6Text) : t.spell ≠ [0x3A] := by
  intro h
  have hvalid := t.isIPv6_spell
  rw [h] at hvalid
  cases hvalid

theorem zero_unique {a b : Address} (ha : a.Zero) (hb : b.Zero) : a = b := by
  obtain ⟨hfa, hia⟩ := ha
  obtain ⟨hfb, hib⟩ := hb
  refine Address.ext ?_ (hia.trans hib.symm)
  rw [List.eq_replicate_of_mem hfa, List.eq_replicate_of_mem hfb, a.size, b.size, hia, hib]

theorem normalizeIPv6_canonical (t : IPv6Text) : ∃ u : IPv6Text,
    u.address = t.address ∧ u.Shortest ∧ normalizeIPv6 t.spell =
      .ok (if t.address.Zero ∧ t.spell ≠ ascii "::" then ascii ":" else u.spell) :=
  ⟨t.address.canonical, t.address.canonical_address, t.address.canonical_shortest,
    normalizeIPv6_eq_normalized t⟩

theorem normalizeIPv6_same_iff (t u : IPv6Text) :
    normalizeIPv6 t.spell = normalizeIPv6 u.spell ↔ t.address = u.address ∧
      (t.address.Zero → (t.spell = ascii "::" ↔ u.spell = ascii "::")) := by
  rw [normalizeIPv6_eq_normalized, normalizeIPv6_eq_normalized, Except.ok.injEq]
  by_cases ht : t.address.Zero ∧ t.spell ≠ ascii "::"
  · by_cases hu : u.address.Zero ∧ u.spell ≠ ascii "::"
    · rw [normalized, normalized, if_pos ht, if_pos hu]
      simp [zero_unique ht.1 hu.1, ht.2, hu.2]
    · rw [normalized, if_pos ht, normalized_nonzero hu]
      refine iff_of_false (Ne.symm (spell_ne_colon _)) ?_
      rintro ⟨heq, hnull⟩
      have hzero := heq ▸ ht.1
      exact hu ⟨hzero, fun h => ht.2 ((hnull ht.1).mpr h)⟩
  · by_cases hu : u.address.Zero ∧ u.spell ≠ ascii "::"
    · rw [normalized_nonzero ht, normalized, if_pos hu]
      refine iff_of_false (spell_ne_colon _) ?_
      rintro ⟨heq, hnull⟩
      have hzero := heq ▸ hu.1
      exact ht ⟨hzero, fun h => hu.2 ((hnull hzero).mp h)⟩
    · rw [normalized_nonzero ht, normalized_nonzero hu]
      constructor
      · intro hspell
        have heq := IPv6Text.spell_address hspell
        rw [Address.canonical_address, Address.canonical_address] at heq
        refine ⟨heq, fun hzero => ?_⟩
        have htnull := not_not.mp fun h => ht ⟨hzero, h⟩
        have hunull := not_not.mp fun h => hu ⟨heq ▸ hzero, h⟩
        simp [htnull, hunull]
      · rintro ⟨heq, -⟩
        rw [heq]

end normalized

end Url
end GWSockets
