import GWSockets.Escape

namespace GWSockets

namespace Url

def hexLiteral : Bytes := ascii "0123456789ABCDEF"

-- A plain char is signed: shifted right, one with the high bit set indexes before the literal.
def escapeChar (c : UInt8) : Except Failure Bytes :=
  if c < 0x80 then
    .ok [0x25, hexLiteral.getD (c >>> 4).toNat 0, hexLiteral.getD (c &&& 0xF).toNat 0]
  else .error .outOfBounds

def encodeChar (special : UInt8 → Option Bytes) (mask c : UInt8) : Except Failure Bytes :=
  match special c with
  | some text => .ok text
  | none => if isChar c mask then .ok [c] else escapeChar c

def encodeWith (special : UInt8 → Option Bytes) (mask : UInt8) : Bytes → Except Failure Bytes
  | [] => .ok []
  | c :: s => do
      let text ← encodeChar special mask c
      let rest ← encodeWith special mask s
      pure (text ++ rest)

def encode (s : Bytes) (mask : UInt8) : Except Failure Bytes := encodeWith (fun _ => none) mask s

def keySpecial (c : UInt8) : Option Bytes :=
  if c = 0x20 then some (ascii "+")
  else if c = 0x2B then some (ascii "%2B")
  else if c = 0x3D then some (ascii "%3D")
  else if c = 0x26 then some (ascii "%26")
  else if c = 0x3B then some (ascii "%3B")
  else none

def encodeQueryKey (s : Bytes) (mask : UInt8) : Except Failure Bytes := encodeWith keySpecial mask s

def valSpecial (c : UInt8) : Option Bytes :=
  if c = 0x20 then some (ascii "+")
  else if c = 0x2B then some (ascii "%2B")
  else if c = 0x26 then some (ascii "%26")
  else if c = 0x3B then some (ascii "%3B")
  else none

def encodeQueryVal (s : Bytes) (mask : UInt8) : Except Failure Bytes := encodeWith valSpecial mask s

def Ascii (s : Bytes) : Prop := ∀ c ∈ s, c < 0x80

instance (s : Bytes) : Decidable (Ascii s) := inferInstanceAs (Decidable (∀ c ∈ s, c < 0x80))

section written

variable {special : UInt8 → Option Bytes} {mask c : UInt8} {plain : UInt8 → UInt8} {s : Bytes}

def written (special : UInt8 → Option Bytes) (mask c : UInt8) : Bytes :=
  match special c with
  | some text => text
  | none =>
      if isChar c mask then [c]
      else [0x25, hexLiteral.getD (c >>> 4).toNat 0, hexLiteral.getD (c &&& 0xF).toNat 0]

theorem ascii_of_isChar (h : isChar c mask = true) : c < 0x80 := by
  have hhigh : ∀ c : UInt8, ¬ c < 0x80 → tbl.getD c.toNat 0 = 0 := forall_byte (by decide +kernel)
  by_contra hc
  rw [isChar, hhigh c hc] at h
  simp at h

theorem encodeChar_eq (hspecial : ∀ c, (special c).isSome = true → c < 0x80) (c : UInt8) :
    encodeChar special mask c =
      if c < 0x80 then .ok (written special mask c) else .error .outOfBounds := by
  rw [encodeChar, written]
  cases h : special c with
  | some text => rw [if_pos (hspecial c (by simp [h]))]
  | none =>
    cases hc : isChar c mask with
    | true => simp [ascii_of_isChar hc]
    | false => simp [escapeChar]

theorem encodeWith_eq (hspecial : ∀ c, (special c).isSome = true → c < 0x80) (s : Bytes) :
    encodeWith special mask s =
      if Ascii s then .ok (s.flatMap (written special mask)) else .error .outOfBounds := by
  induction s with
  | nil => exact (if_pos (List.forall_mem_nil _)).symm
  | cons c s ih =>
    show (encodeChar special mask c).bind (fun text =>
      (encodeWith special mask s).bind fun rest => .ok (text ++ rest)) = _
    rw [encodeChar_eq hspecial, ih]
    by_cases hc : c < 0x80
    · by_cases hs : Ascii s
      · have hall : Ascii (c :: s) := List.forall_mem_cons.mpr ⟨hc, hs⟩
        rw [if_pos hc, if_pos hs, if_pos hall]
        rfl
      · have hall : ¬ Ascii (c :: s) := fun h => hs (List.forall_mem_cons.mp h).2
        rw [if_pos hc, if_neg hs, if_neg hall]
        rfl
    · have hall : ¬ Ascii (c :: s) := fun h => hc (List.forall_mem_cons.mp h).1
      rw [if_neg hc, if_neg hall]
      rfl

def reads (plain : UInt8 → UInt8) (c : UInt8) : Bytes → Bool
  | [x] => x != 0x25 && plain x == c
  | [x, a, b] =>
      x == 0x25 && isHexdigit a && isHexdigit b && (hexValue a <<< 4 ||| hexValue b) == c
  | _ => false

theorem decodeWith_reads {text : Bytes} (h : reads plain c text = true) (rest : Bytes) :
    decodeWith plain (text ++ rest) = (decodeWith plain rest).map (c :: ·) := by
  rcases text with _ | ⟨x, _ | ⟨a, _ | ⟨b, _ | ⟨y, text⟩⟩⟩⟩
  · cases h
  · obtain ⟨hx, rfl⟩ : x ≠ 0x25 ∧ plain x = c := by simpa [reads] using h
    exact decodeWith_plain hx rest
  · cases h
  · simp only [reads, Bool.and_eq_true, beq_iff_eq, isHexdigit_iff, hexValue] at h
    obtain ⟨⟨⟨rfl, ha⟩, hb⟩, rfl⟩ := h
    obtain ⟨u, hu⟩ := Option.isSome_iff_exists.mp ha
    obtain ⟨v, hv⟩ := Option.isSome_iff_exists.mp hb
    simp [decodeWith, hu, hv]
  · cases h

theorem decodeWith_flatMap {f : UInt8 → Bytes} (hs : ∀ c ∈ s, reads plain c (f c) = true) :
    decodeWith plain (s.flatMap f) = .ok s := by
  induction s with
  | nil => rfl
  | cons c s ih =>
    obtain ⟨hc, hrest⟩ := List.forall_mem_cons.mp hs
    rw [List.flatMap_cons, decodeWith_reads hc, ih hrest]
    rfl

end written

inductive Part where
  | user
  | path
  | key
  | val
  | fragment
deriving DecidableEq, Repr

namespace Part

def special : Part → UInt8 → Option Bytes
  | user | path | fragment => fun _ => none
  | key => keySpecial
  | val => valSpecial

def mask : Part → UInt8
  | user => 0x05
  | path => 0x0F
  | key | val | fragment => 0x1F

def encode : Part → Bytes → Except Failure Bytes
  | user, s => Url.encode s 0x05
  | path, s => Url.encode s 0x0F
  | key, s => encodeQueryKey s 0x1F
  | val, s => encodeQueryVal s 0x1F
  | fragment, s => Url.encode s 0x1F

def plain : Part → UInt8 → UInt8
  | user | path | fragment => id
  | key | val => fun c => if c = 0x2B then 0x20 else c

def decode : Part → Bytes → Except Failure Bytes
  | user, s | path, s | fragment, s => Url.decode s
  | key, s | val, s => decodePlus s

def accepted : Part → UInt8
  | user => 0x05
  | path => 0x2F
  | key | val | fragment => 0x3F

def ends : Part → Bytes
  | user => ascii "@/?#"
  | path => ascii "?#"
  | key => ascii "=;&#"
  | val => ascii ";&#"
  | fragment => []

variable (part : Part)

def text (s : Bytes) : Bytes := s.flatMap (written part.special part.mask)

theorem encode_eq (s : Bytes) :
    part.encode s = if Ascii s then .ok (part.text s) else .error .outOfBounds := by
  cases part with
  | user | path | fragment => exact encodeWith_eq (by simp) s
  | key => exact encodeWith_eq (forall_byte (by decide +kernel)) s
  | val => exact encodeWith_eq (forall_byte (by decide +kernel)) s

theorem decode_eq (s : Bytes) : part.decode s = decodeWith part.plain s := by
  cases part <;> rfl

def readsBack (c : UInt8) : Bool :=
  reads part.plain c (written part.special part.mask c) &&
    ((written part.special part.mask c).all (fun x => !part.ends.contains x) &&
      (isChars (written part.special part.mask c) part.accepted ==
        (part != user || isChar c part.accepted)))

theorem readsBack_all : ∀ c : UInt8, c < 0x80 →
    [user, path, key, val, fragment].all (fun part => part.readsBack c) = true :=
  forall_byte (by decide +kernel)

theorem written_spec (c : UInt8) (hc : c < 0x80) :
    reads part.plain c (written part.special part.mask c) = true ∧
      (∀ x ∈ written part.special part.mask c, x ∉ part.ends) ∧
      (isChars (written part.special part.mask c) part.accepted = true ↔
        (part = user → isChar c part.accepted = true)) := by
  have hpart : part ∈ [user, path, key, val, fragment] := by cases part <;> simp
  have h := List.all_eq_true.mp (readsBack_all c hc) part hpart
  rw [readsBack, Bool.and_eq_true, Bool.and_eq_true, beq_iff_eq, List.all_eq_true] at h
  obtain ⟨hread, hends, hchars⟩ := h
  refine ⟨hread, fun x hx => by simpa using hends x hx, ?_⟩
  rw [hchars, Bool.or_eq_true, bne_iff_ne]
  exact Decidable.imp_iff_not_or.symm

variable {part} {s : Bytes}

theorem decode_text (h : Ascii s) : part.decode (part.text s) = .ok s := by
  rw [decode_eq]
  exact decodeWith_flatMap fun c hc => (part.written_spec c (h c hc)).1

theorem text_eq_nil (h : Ascii s) : part.text s = [] ↔ s = [] := by
  constructor
  · intro htext
    have hdecode := @decode_text part s h
    rw [htext, decode_eq] at hdecode
    exact (Except.ok.inj hdecode).symm
  · rintro rfl
    rfl

theorem not_mem_text (h : Ascii s) {c : UInt8} (hc : c ∈ part.ends) : c ∉ part.text s := by
  intro hm
  obtain ⟨x, hx, hw⟩ := List.mem_flatMap.mp hm
  exact (part.written_spec x (h x hx)).2.1 c hw hc

theorem isChars_text (h : Ascii s) : isChars (part.text s) part.accepted = true ↔
    (part = user → isChars s part.accepted = true) := by
  have hchar : ∀ c ∈ s, isChars (written part.special part.mask c) part.accepted = true ↔
      (part = user → isChar c part.accepted = true) :=
    fun c hc => (part.written_spec c (h c hc)).2.2
  rw [text, isChars, List.all_flatMap, List.all_eq_true]
  constructor
  · intro hall hpart
    exact isChars_iff.mpr fun c hc => (hchar c hc).mp (hall c hc) hpart
  · intro hall c hc
    exact (hchar c hc).mpr fun hpart => isChars_iff.mp (hall hpart) c hc

theorem encode_spec (part : Part) (s : Bytes) : (Ascii s ∧ ∃ text, part.encode s = .ok text ∧
      part.decode text = .ok s ∧ (∀ c ∈ text, c ∉ part.ends) ∧
      (isChars text part.accepted = true ↔ (part = user → isChars s part.accepted = true))) ∨
    (¬ Ascii s ∧ part.encode s = .error .outOfBounds) := by
  rw [encode_eq]
  by_cases h : Ascii s
  · exact .inl ⟨h, part.text s, if_pos h, decode_text h, fun c hc he => not_mem_text h he hc,
      isChars_text h⟩
  · exact .inr ⟨h, if_neg h⟩

end Part

end Url
end GWSockets
