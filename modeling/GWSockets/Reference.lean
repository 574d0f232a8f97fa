import GWSockets.Library.Checked
import GWSockets.Library.Delimited
import GWSockets.Url
import Mathlib.Data.List.TakeWhile

namespace GWSockets

namespace Url

section find

variable {s q a b : Bytes} {c : UInt8}

theorem findFirstOf_eq_iff : findFirstOf s q = (a, b) ↔
    s = a ++ b ∧ (∀ x ∈ a, x ∉ q) ∧ (∀ x ∈ b.head?, x ∈ q) := by
  constructor
  · intro h
    obtain ⟨rfl, rfl⟩ := Prod.mk.inj h
    refine ⟨(List.takeWhile_append_dropWhile ..).symm, fun x hx => ?_, fun x hx => ?_⟩
    · simpa using List.mem_takeWhile_imp hx
    · have hhead := List.head?_dropWhile_not (fun c => !q.contains c) s
      rw [Option.mem_def.mp hx] at hhead
      simpa using hhead
  · rintro ⟨rfl, ha, hb⟩
    have hall : ∀ x ∈ a, (!q.contains x) = true := fun x hx => by simpa using ha x hx
    have hstop : ∀ x ∈ b.head?, (!q.contains x) = false := fun x hx => by simpa using hb x hx
    rw [findFirstOf, Delimited.takeWhile_left hall hstop, Delimited.dropWhile_right hall hstop]

theorem findFirstOf_stop {x : UInt8} (ha : ∀ y ∈ a, y ∉ q) (hx : x ∈ q) :
    findFirstOf (a ++ x :: b) q = (a, x :: b) := by
  refine findFirstOf_eq_iff.mpr ⟨rfl, ha, fun y hy => ?_⟩
  rw [List.head?_cons, Option.mem_def, Option.some.injEq] at hy
  exact hy ▸ hx

theorem findChar_nil_iff : findChar s c = (a, []) ↔ s = a ∧ c ∉ a := by
  rw [findChar, findFirstOf_eq_iff]
  simp only [List.append_nil, List.mem_singleton, List.head?_nil, Option.mem_def, reduceCtorEq,
    false_implies, implies_true, and_true]
  refine and_congr_right fun _ => ⟨fun h hc => h c hc rfl, fun h x hx he => h (he ▸ hx)⟩

theorem findChar_cons_iff {x : UInt8} :
    findChar s c = (a, x :: b) ↔ s = a ++ c :: b ∧ c ∉ a ∧ x = c := by
  rw [findChar, findFirstOf_eq_iff]
  simp only [List.head?_cons, Option.mem_def, Option.some.injEq, forall_eq', List.mem_singleton]
  constructor
  · rintro ⟨hs, ha, rfl⟩
    exact ⟨hs, fun hc => ha x hc rfl, rfl⟩
  · rintro ⟨hs, ha, rfl⟩
    exact ⟨hs, fun y hy he => ha (he ▸ hy), rfl⟩

end find

section characters

variable {s : Bytes} {c mask : UInt8}

theorem isChars_iff : isChars s mask = true ↔ ∀ c ∈ s, isChar c mask = true :=
  List.all_eq_true

theorem not_mem_isChars (h : isChars s mask = true) (hc : isChar c mask = false) : c ∉ s := by
  intro hm
  rw [isChars_iff.mp h c hm] at hc
  cases hc

theorem not_mem_isScheme (h : isScheme s = true)
    (hc : (isAlnum c || c == 0x2B || c == 0x2D || c == 0x2E) = false) : c ∉ s := by
  intro hm
  cases s with
  | nil => cases hm
  | cons x s =>
    obtain ⟨hx, hs⟩ := (Bool.and_eq_true _ _ ▸ h : isAlpha x = true ∧ _)
    rcases List.mem_cons.mp hm with rfl | hm
    · simp [isAlnum, hx] at hc
    · rw [List.all_eq_true.mp hs c hm] at hc
      cases hc

theorem not_mem_isIPv6 (h : isIPv6 s = true)
    (hc : (c == 0x3A || c == 0x2E || isHexdigit c) = false) : c ∉ s := by
  simp only [isIPv6, Bool.and_eq_true] at h
  intro hm
  rw [List.all_eq_true.mp h.2 c hm] at hc
  cases hc

theorem isRegName_of_isIPv4 (h : isIPv4 s = true) : isRegName s = true := by
  simp only [isIPv4, Bool.and_eq_true] at h
  refine isChars_iff.mpr fun c hc => ?_
  have hdigit : ∀ c : UInt8, (c == 0x2E || isNum c) = true → isChar c 0x01 = true :=
    forall_byte (by decide +kernel)
  exact hdigit c (List.all_eq_true.mp h.2 c hc)

theorem uintLoop_nil {val v : Nat} (h : uintLoop val s = (v, [])) :
    ∀ c ∈ s, isNum c = true := by
  induction s generalizing val with
  | nil => simp
  | cons c s ih =>
    rw [uintLoop] at h
    split at h
    · next hc => exact List.forall_mem_cons.mpr ⟨hc, ih h⟩
    · cases h

theorem isPort_cons (h : isPort s = true) :
    ∃ c t, s = c :: t ∧ isNum c = true ∧ (c = 0x30 → t = []) ∧
      (c ≠ 0x30 → ∃ v, uintLoop (c.toNat - 0x30) t = (v, []) ∧ v ≤ 65535) := by
  rw [isPort, beq_iff_eq] at h
  cases s with
  | nil => cases h
  | cons c t =>
    rw [isUint] at h
    split at h
    · next hc =>
      refine ⟨c, t, rfl, hc, fun hz => ?_, fun hnz => ?_⟩
      · subst hz
        simpa using h
      · have hfirst : c.toNat - 0x30 ≠ 0 := by
          have hclass : ∀ c : UInt8, isNum c = true → c ≠ 0x30 → c.toNat - 0x30 ≠ 0 :=
            forall_byte (by decide +kernel)
          exact hclass c hc hnz
        simp only [hfirst, ne_eq, not_false_eq_true, if_true] at h
        rcases hl : uintLoop (c.toNat - 0x30) t with ⟨v, rest⟩
        rw [hl] at h
        split at h
        · cases h
        · next hv =>
          cases h
          exact ⟨v, rfl, not_lt.mp hv⟩
    · cases h

theorem isNum_of_isPort (h : isPort s = true) : ∀ c ∈ s, isNum c = true := by
  obtain ⟨c, t, rfl, hc, hzero, hloop⟩ := isPort_cons h
  refine List.forall_mem_cons.mpr ⟨hc, ?_⟩
  by_cases h0 : c = 0x30
  · simp [hzero h0]
  · obtain ⟨v, hv, -⟩ := hloop h0
    exact uintLoop_nil hv

theorem not_mem_isPort (h : isPort s = true) (hc : isNum c = false) : c ∉ s := by
  intro hm
  rw [isNum_of_isPort h c hm] at hc
  cases hc

theorem isHexdigit_iff : isHexdigit c = (getHexDigit c).isSome :=
  forall_byte (p := fun c => isHexdigit c = (getHexDigit c).isSome) (by decide +kernel) c

end characters

section parts

variable {url b rest : Bytes}

theorem userPart_none (h : 0x40 ∉ b) : userPart url b = .ok (none, b) := by
  rw [userPart, findChar_nil_iff.mpr ⟨rfl, h⟩]
  rfl

theorem userPart_some {t : Bytes} (ht : isChars t 0x05 = true) :
    userPart url (t ++ 0x40 :: rest) = .ok (some t, rest) := by
  rw [userPart, findChar_cons_iff.mpr ⟨rfl, not_mem_isChars ht (by decide), rfl⟩]
  simp [ht]

theorem userPart_ok {user : Option Bytes} (h : userPart url b = .ok (user, rest)) :
    (user = none ∧ rest = b ∧ 0x40 ∉ b) ∨
      ∃ t, user = some t ∧ isChars t 0x05 = true ∧ b = t ++ 0x40 :: rest := by
  rw [userPart] at h
  rcases hf : findChar b 0x40 with ⟨t, p⟩
  rw [hf] at h
  cases p with
  | nil =>
    obtain ⟨rfl, hb⟩ := findChar_nil_iff.mp hf
    cases h
    exact .inl ⟨rfl, rfl, hb⟩
  | cons x p =>
    obtain ⟨rfl, -, rfl⟩ := findChar_cons_iff.mp hf
    simp only [reduceCtorEq, if_false, Checked.ite_ok, List.drop_one, List.tail_cons,
      Prod.mk.injEq] at h
    obtain ⟨ht, rfl, rfl⟩ := h
    exact .inr ⟨t, rfl, ht, rfl⟩

theorem portPart_none (h : b.head? ≠ some 0x3A) : portPart url b = .ok none := by
  rw [portPart, if_neg h]

theorem portPart_some {t : Bytes} (ht : isPort t = true) :
    portPart url (0x3A :: t) = .ok (some t) := by
  simp [portPart, ht]

theorem portPart_ok {port : Option Bytes} (h : portPart url b = .ok port) :
    (port = none ∧ b.head? ≠ some 0x3A) ∨
      ∃ t, port = some t ∧ isPort t = true ∧ b = 0x3A :: t := by
  rw [portPart] at h
  split at h
  · next hb =>
    obtain ⟨ht, rfl⟩ := Checked.ite_ok.mp h
    obtain ⟨b, rfl⟩ := List.head?_eq_some_iff.mp hb
    exact .inr ⟨b, rfl, ht, rfl⟩
  · next hb =>
    cases h
    exact .inl ⟨rfl, hb⟩

theorem literalPart_ipv6 {t : Bytes} (ht : isIPv6 t = true) :
    literalPart url (t ++ 0x5D :: rest) = .ok (6, t, rest) := by
  have hclose : 0x5D ∉ t := not_mem_isIPv6 ht (by decide)
  have hv : t.head? ≠ some 0x76 := by
    intro hv
    exact not_mem_isIPv6 ht (by decide) (List.mem_of_mem_head? hv)
  rw [literalPart, findChar_cons_iff.mpr ⟨rfl, hclose, rfl⟩]
  simp [hv, ht]
  rfl

theorem futurePart_some {d v : UInt8} {t : Bytes} (hd : getHexDigit d = some v)
    (ht : isChars t 0x05 = true) : futurePart url (d :: 0x2E :: t) = .ok (v.toNat, t) := by
  have hdot : getHexDigit 0x2E = none := by decide
  simp [futurePart, hd, hdot, ht]

theorem futurePart_ok {v : Int} {t : Bytes} (h : futurePart url b = .ok (v, t)) :
    ∃ d x, getHexDigit d = some x ∧ v = x.toNat ∧ isChars t 0x05 = true ∧
      b = d :: 0x2E :: t := by
  cases b with
  | nil => cases h
  | cons d b =>
    cases hd : getHexDigit d with
    | none => simp [futurePart, hd] at h
    | some x =>
      simp only [futurePart, hd, Checked.ite_ok, Prod.mk.injEq] at h
      obtain ⟨⟨hdot, ht⟩, hv, rfl⟩ := h
      obtain ⟨b, rfl⟩ := List.head?_eq_some_iff.mp hdot
      exact ⟨d, x, hd, hv.symm, ht, rfl⟩

theorem literalPart_future {d v : UInt8} {t : Bytes} (hd : getHexDigit d = some v)
    (ht : isChars t 0x05 = true) :
    literalPart url (0x76 :: d :: 0x2E :: t ++ 0x5D :: rest) = .ok (v.toNat, t, rest) := by
  have hhex : d ≠ 0x5D := by
    rintro rfl
    cases hd
  have hclose : 0x5D ∉ 0x76 :: d :: 0x2E :: t := by
    simp [Ne.symm hhex, not_mem_isChars (c := 0x5D) ht (by decide)]
  rw [literalPart, findChar_cons_iff.mpr ⟨rfl, hclose, rfl⟩]
  simp [futurePart_some hd ht]

theorem literalPart_ok {v : Int} {t : Bytes} (h : literalPart url b = .ok (v, t, rest)) :
    (v = 6 ∧ isIPv6 t = true ∧ b = t ++ 0x5D :: rest) ∨
      ∃ d x, getHexDigit d = some x ∧ v = x.toNat ∧ isChars t 0x05 = true ∧
        b = 0x76 :: d :: 0x2E :: t ++ 0x5D :: rest := by
  rw [literalPart] at h
  rcases hf : findChar b 0x5D with ⟨l, p⟩
  rw [hf] at h
  cases p with
  | nil => cases h
  | cons x p =>
    obtain ⟨rfl, -, rfl⟩ := findChar_cons_iff.mp hf
    simp only [reduceCtorEq, if_false, List.drop_one, List.tail_cons] at h
    split at h
    · next hv =>
      obtain ⟨⟨v', t'⟩, hfuture, heq⟩ := Checked.bind_ok.mp h
      cases heq
      obtain ⟨d, x, hd, rfl, ht, hl⟩ := futurePart_ok hfuture
      refine .inr ⟨d, x, hd, rfl, ht, ?_⟩
      obtain ⟨l, rfl⟩ := List.head?_eq_some_iff.mp hv
      rw [List.tail_cons] at hl
      rw [hl]
    · split at h
      · next hipv6 =>
        cases h
        exact .inl ⟨rfl, hipv6, rfl⟩
      · cases h

theorem split_eq {p : Bytes} (h : findFirstOf url (ascii ":/?#") = (b, p)) (hp : p ≠ []) :
    split url = (schemePart url b p).bind fun s =>
      (authorityPart url s.2 (if s.1.isSome then (findFirstOf s.2 (ascii "/?#")).2 else p)).bind
        fun a => tailPart url a.2 { a.1 with scheme := s.1 } := by
  rw [split, h]
  exact if_neg hp

end parts

inductive Host where
  | name (text : Bytes) (valid : isRegName text = true)
  | ipv6 (text : Bytes) (valid : isIPv6 text = true)
  | future (version digit : UInt8) (text : Bytes) (hexdigit : getHexDigit digit = some version)
      (valid : isChars text 0x05 = true)

namespace Host

def isName : Host → Bool
  | name _ _ => true
  | ipv6 _ _ | future _ _ _ _ _ => false

def text : Host → Bytes
  | name text _ | ipv6 text _ | future _ _ text _ _ => text

def ipV : Host → Int
  | name text _ => if isIPv4 text then 4 else 0
  | ipv6 _ _ => 6
  | future version _ _ _ _ => version.toNat

def spell : Host → Bytes
  | name text _ => text
  | ipv6 text _ => 0x5B :: text ++ [0x5D]
  | future _ digit text _ _ => 0x5B :: 0x76 :: digit :: 0x2E :: text ++ [0x5D]

theorem hostPart_spell (url : Bytes) (host : Host) {rest : Bytes}
    (h : host.isName = true → ∀ c ∈ rest.head?, c = 0x3A) :
    hostPart url (host.spell ++ rest) = .ok (host.ipV, host.text, rest) := by
  cases host with
  | name t ht =>
    have hcolon : 0x3A ∉ t := not_mem_isChars ht (by decide)
    have hbracket : (t ++ rest).head? ≠ some 0x5B := by
      intro hb
      rw [List.head?_append, Option.or_eq_some_iff] at hb
      rcases hb with hb | ⟨-, hb⟩
      · exact not_mem_isChars ht (by decide) (List.mem_of_mem_head? hb)
      · exact absurd (h rfl _ hb) (by decide)
    have hfind : findChar (t ++ rest) 0x3A = (t, rest) :=
      findFirstOf_eq_iff.mpr ⟨rfl, fun x hx he => hcolon (List.mem_singleton.mp he ▸ hx),
        fun x hx => List.mem_singleton.mpr (h rfl x hx)⟩
    rw [spell, hostPart, if_neg hbracket, hfind]
    cases h4 : isIPv4 t with
    | true => simp [h4, ipV, text]
    | false => simp [h4, ht, ipV, text]
  | ipv6 t ht =>
    have hspell : (ipv6 t ht).spell ++ rest = 0x5B :: (t ++ 0x5D :: rest) := by simp [spell]
    rw [hspell, hostPart, if_pos List.head?_cons]
    exact literalPart_ipv6 ht
  | future v d t hd ht =>
    have hspell : (future v d t hd ht).spell ++ rest =
        0x5B :: (0x76 :: d :: 0x2E :: t ++ 0x5D :: rest) := by simp [spell]
    rw [hspell, hostPart, if_pos List.head?_cons]
    exact literalPart_future hd ht

theorem hostPart_ok {url b rest t : Bytes} {v : Int} (h : hostPart url b = .ok (v, t, rest)) :
    ∃ host : Host, host.ipV = v ∧ host.text = t ∧ b = host.spell ++ rest ∧
      (host.isName = true → ∀ c ∈ rest.head?, c = 0x3A) := by
  rw [hostPart] at h
  split at h
  · next hb =>
    obtain ⟨b, rfl⟩ := List.head?_eq_some_iff.mp hb
    rcases literalPart_ok h with ⟨rfl, ht, hl⟩ | ⟨d, x, hd, rfl, ht, hl⟩
    · refine ⟨ipv6 t ht, rfl, rfl, ?_, fun hn => by cases hn⟩
      simpa [spell] using hl
    · refine ⟨future x d t hd ht, rfl, rfl, ?_, fun hn => by cases hn⟩
      simpa [spell] using hl
  · rcases hf : findChar b 0x3A with ⟨b', p⟩
    rw [hf] at h
    obtain ⟨rfl, -, hp⟩ := findFirstOf_eq_iff.mp hf
    have hrest : ∀ c ∈ p.head?, c = 0x3A := fun c hc => List.mem_singleton.mp (hp c hc)
    cases h4 : isIPv4 b' with
    | true =>
      simp only [h4, if_true, Except.ok.injEq, Prod.mk.injEq] at h
      obtain ⟨rfl, rfl, rfl⟩ := h
      exact ⟨name _ (isRegName_of_isIPv4 h4), by simp [ipV, h4], rfl, rfl, fun _ => hrest⟩
    | false =>
      simp only [h4, Bool.false_eq_true, if_false, Checked.ite_ok, Prod.mk.injEq] at h
      obtain ⟨hname, rfl, rfl, rfl⟩ := h
      exact ⟨name _ hname, by simp [ipV, h4], rfl, rfl, fun _ => hrest⟩

theorem not_mem_spell (host : Host) {c : UInt8} (hc : c ∈ ascii "/?#@") : c ∉ host.spell := by
  have hclass : ∀ c ∈ ascii "/?#@", isChar c 0x01 = false ∧ isChar c 0x05 = false ∧
      (c == 0x3A || c == 0x2E || isHexdigit c) = false ∧ getHexDigit c = none ∧
      c ∉ [0x5B, 0x5D, 0x76, 0x2E] := forall_mem_bytes (by decide)
  obtain ⟨h1, h5, h6, hhex, hmarks⟩ := hclass c hc
  simp only [List.mem_cons, List.not_mem_nil, or_false, not_or] at hmarks
  cases host with
  | name t ht => exact not_mem_isChars ht h1
  | ipv6 t ht => simp [spell, hmarks, not_mem_isIPv6 ht h6]
  | future v d t hd ht =>
    have hdigit : c ≠ d := by
      rintro rfl
      rw [hhex] at hd
      cases hd
    simp [spell, hmarks, hdigit, not_mem_isChars ht h5]

end Host

def opened (c : UInt8) : Option Bytes → Bytes
  | some t => c :: t
  | none => []

def closed (c : UInt8) : Option Bytes → Bytes
  | some t => t ++ [c]
  | none => []

theorem opened_none {c : UInt8} {o : Option Bytes} (h : c ∉ opened c o) : o = none := by
  cases o with
  | none => rfl
  | some t => exact absurd List.mem_cons_self h

structure Authority where
  user : Option Bytes
  host : Host
  -- What stands between a closing bracket and the path: the parser never looks at it.
  trailer : Bytes
  port : Option Bytes
  user_valid : ∀ t ∈ user, isChars t 0x05 = true
  trailer_valid : (∀ c ∈ trailer, c ∉ ascii "/?#") ∧ trailer.head? ≠ some 0x3A
  trailer_name : host.isName = true → trailer = []
  trailer_port : port ≠ none → trailer = []
  trailer_user : user = none → 0x40 ∉ trailer
  port_valid : ∀ t ∈ port, isPort t = true

namespace Authority

variable (a : Authority)

def spell : Bytes := closed 0x40 a.user ++ (a.host.spell ++ (a.trailer ++ opened 0x3A a.port))

def pieces : Pieces :=
  { ipV := a.host.ipV, user := a.user, host := some a.host.text, port := a.port }

theorem not_mem_spell {c : UInt8} (hc : c ∈ ascii "/?#") : c ∉ a.spell := by
  have hclass : ∀ c ∈ ascii "/?#", isChar c 0x05 = false ∧ isNum c = false ∧ c ≠ 0x40 ∧
      c ≠ 0x3A ∧ c ∈ ascii "/?#@" := forall_mem_bytes (by decide)
  obtain ⟨h5, hnum, hat, hcolon, hmem⟩ := hclass c hc
  have huser : c ∉ closed 0x40 a.user := by
    cases hu : a.user with
    | none => simp [closed]
    | some t => simp [closed, hat, not_mem_isChars (a.user_valid t hu) h5]
  have hport : c ∉ opened 0x3A a.port := by
    cases hp : a.port with
    | none => simp [opened]
    | some t => simp [opened, hcolon, not_mem_isPort (a.port_valid t hp) hnum]
  have htrailer : c ∉ a.trailer := fun h => a.trailer_valid.1 c h hc
  simp [spell, huser, hport, htrailer, a.host.not_mem_spell hmem]

theorem head_trailer {t : UInt8} (hn : a.host.isName = true)
    (ht : t ∈ (a.trailer ++ opened 0x3A a.port).head?) : t = 0x3A := by
  rw [a.trailer_name hn, List.nil_append] at ht
  cases hp : a.port with
  | none => simp [hp, opened] at ht
  | some port => simpa [hp, opened, eq_comm] using ht

theorem portPart_trailer (url : Bytes) :
    portPart url (a.trailer ++ opened 0x3A a.port) = .ok a.port := by
  cases hp : a.port with
  | none =>
    refine portPart_none ?_
    simpa [opened] using a.trailer_valid.2
  | some t =>
    rw [a.trailer_port (by simp [hp]), List.nil_append]
    exact portPart_some (a.port_valid t hp)

theorem userPart_spell (url : Bytes) : userPart url a.spell =
    .ok (a.user, a.host.spell ++ (a.trailer ++ opened 0x3A a.port)) := by
  cases hu : a.user with
  | none =>
    have hport : 0x40 ∉ opened 0x3A a.port := by
      cases hp : a.port with
      | none => simp [opened]
      | some t => simp [opened, not_mem_isPort (c := 0x40) (a.port_valid t hp) (by decide)]
    have hat : 0x40 ∉ a.host.spell ++ (a.trailer ++ opened 0x3A a.port) := by
      simp [hport, a.trailer_user hu, a.host.not_mem_spell (c := 0x40) (by decide)]
    rw [spell, hu]
    exact userPart_none hat
  | some t =>
    have hspell : a.spell =
        t ++ 0x40 :: (a.host.spell ++ (a.trailer ++ opened 0x3A a.port)) := by
      simp [spell, hu, closed]
    rw [hspell]
    exact userPart_some (a.user_valid t hu)

theorem authorityPart_spell (url : Bytes) {rest : Bytes}
    (hrest : ∀ c ∈ rest.head?, c ∈ ascii "/?#") :
    authorityPart url (ascii "//" ++ (a.spell ++ rest))
        (ascii "//" ++ (a.spell ++ rest)) =
      .ok (a.pieces, rest) := by
  have hfind : findFirstOf (a.spell ++ rest) (ascii "/?#") = (a.spell, rest) :=
    findFirstOf_eq_iff.mpr ⟨rfl, fun c hc he => a.not_mem_spell he hc, hrest⟩
  have hdrop : (ascii "//" ++ (a.spell ++ rest)).drop 2 = a.spell ++ rest := rfl
  rw [authorityPart, if_pos ⟨rfl, rfl⟩, hdrop, hfind]
  show (userPart url a.spell).bind _ = _
  rw [userPart_spell]
  show (hostPart url _).bind _ = _
  rw [Host.hostPart_spell url a.host (fun hn c hc => a.head_trailer hn hc)]
  show (portPart url _).bind _ = _
  rw [portPart_trailer]
  rfl

end Authority

theorem tailPart_spell (url : Bytes) {pieces : Pieces} {path : Bytes}
    {query fragment : Option Bytes} (h : pieces.fragment = none)
    (hpath : isChars path 0x2F = true) (hquery : ∀ t ∈ query, 0x23 ∉ t)
    (hfragment : ∀ t ∈ fragment, isChars t 0x3F = true) :
    tailPart url (path ++ (opened 0x3F query ++ opened 0x23 fragment)) pieces =
      .ok { pieces with path := some path, query := query, fragment := fragment } := by
  have hfind : findFirstOf (path ++ (opened 0x3F query ++ opened 0x23 fragment)) (ascii "?#") =
      (path, opened 0x3F query ++ opened 0x23 fragment) := by
    refine findFirstOf_eq_iff.mpr ⟨rfl, fun c hc he => ?_, fun c hc => ?_⟩
    · have hclass : ∀ c ∈ ascii "?#", isChar c 0x2F = false := forall_mem_bytes (by decide)
      exact not_mem_isChars hpath (hclass c he) hc
    · cases query with
      | some q =>
        cases hc
        decide
      | none =>
        cases fragment with
        | some f =>
          cases hc
          decide
        | none => cases hc
  have hchar : ∀ q ∈ query,
      findChar (q ++ opened 0x23 fragment) 0x23 = (q, opened 0x23 fragment) := by
    intro q hq
    cases fragment with
    | none => simpa [opened] using findChar_nil_iff.mpr ⟨rfl, hquery q hq⟩
    | some f => exact findChar_cons_iff.mpr ⟨rfl, hquery q hq, rfl⟩
  rw [tailPart, hfind]
  cases query with
  | none =>
    cases fragment with
    | none => simp [opened, hpath, h]
    | some f => simp [opened, hpath, hfragment f rfl]
  | some q =>
    have hq := hchar q rfl
    cases fragment with
    | none =>
      rw [opened, List.append_nil] at hq
      simp [opened, hpath, hq, h]
    | some f =>
      rw [opened] at hq
      simp [opened, hpath, hfragment f rfl, hq]

structure Reference extends Authority where
  scheme : Option Bytes
  path : Bytes
  query : Option Bytes
  fragment : Option Bytes
  scheme_valid : ∀ t ∈ scheme, isScheme t = true
  path_valid : isChars path 0x2F = true ∧ ∀ c ∈ path.head?, c = 0x2F
  query_valid : ∀ t ∈ query, 0x23 ∉ t
  fragment_valid : ∀ t ∈ fragment, isChars t 0x3F = true

namespace Reference

variable (r : Reference)

def resource : Bytes := r.path ++ (opened 0x3F r.query ++ opened 0x23 r.fragment)

def spell : Bytes := closed 0x3A r.scheme ++ (ascii "//" ++ (r.toAuthority.spell ++ r.resource))

def pieces : Pieces :=
  { r.toAuthority.pieces with
    scheme := r.scheme, path := some r.path, query := r.query, fragment := r.fragment }

theorem tailPart_resource (url : Bytes) {pieces : Pieces} (h : pieces.fragment = none) :
    tailPart url r.resource pieces =
      .ok { pieces with path := some r.path, query := r.query, fragment := r.fragment } :=
  tailPart_spell url h r.path_valid.1 r.query_valid r.fragment_valid

theorem head_resource : ∀ c ∈ r.resource.head?, c ∈ ascii "/?#" := by
  intro c hc
  cases hp : r.path with
  | cons x path =>
    have hx := r.path_valid.2 x (by simp [hp])
    rw [resource, hp] at hc
    cases hc
    subst hx
    decide
  | nil =>
    cases hq : r.query with
    | some q =>
      simp only [resource, hp, hq, opened, List.nil_append] at hc
      cases hc
      decide
    | none =>
      cases hf : r.fragment with
      | some f =>
        simp only [resource, hp, hq, hf, opened, List.nil_append] at hc
        cases hc
        decide
      | none => simp [resource, hp, hq, hf, opened] at hc

theorem not_mem_scheme {t : Bytes} (ht : isScheme t = true) {c : UInt8}
    (hc : c ∈ ascii ":/?#") : c ∉ t := by
  have hclass : ∀ c ∈ ascii ":/?#",
      (isAlnum c || c == 0x2B || c == 0x2D || c == 0x2E) = false := forall_mem_bytes (by decide)
  exact not_mem_isScheme ht (hclass c hc)

theorem split_spell : split r.spell = .ok r.pieces := by
  have hslash : ∀ rest, findFirstOf (ascii "//" ++ rest) (ascii "/?#") =
      ([], ascii "//" ++ rest) := fun rest => findFirstOf_stop (a := []) (by simp) (by decide)
  cases hs : r.scheme with
  | none =>
    have hspell : r.spell = ascii "//" ++ (r.toAuthority.spell ++ r.resource) := by
      simp [spell, hs, closed]
    have hfind : findFirstOf r.spell (ascii ":/?#") = ([], r.spell) := by
      rw [hspell]
      exact findFirstOf_stop (a := []) (by simp) (by decide)
    have hscheme : schemePart r.spell [] r.spell = .ok (none, r.spell) := by
      rw [hspell]
      rfl
    rw [split_eq hfind (by simp [hspell, ascii]), hscheme]
    show (authorityPart r.spell r.spell r.spell).bind _ = _
    rw [hspell, Authority.authorityPart_spell _ _ r.head_resource]
    show tailPart _ r.resource _ = _
    rw [tailPart_resource _ _ rfl, pieces, hs]
  | some t =>
    have ht := r.scheme_valid t hs
    have hspell : r.spell = t ++ 0x3A :: (ascii "//" ++ (r.toAuthority.spell ++ r.resource)) := by
      simp [spell, hs, closed]
    have hfind : findFirstOf r.spell (ascii ":/?#") =
        (t, 0x3A :: (ascii "//" ++ (r.toAuthority.spell ++ r.resource))) := by
      rw [hspell]
      exact findFirstOf_stop (fun c hc he => not_mem_scheme ht he hc) (by decide)
    have hscheme : ∀ rest, schemePart r.spell t (0x3A :: rest) = .ok (some t, rest) := by
      intro rest
      simp [schemePart, ht]
    rw [split_eq hfind (List.cons_ne_nil _ _), hscheme]
    show (authorityPart r.spell (ascii "//" ++ (r.toAuthority.spell ++ r.resource))
      (findFirstOf (ascii "//" ++ (r.toAuthority.spell ++ r.resource)) (ascii "/?#")).2).bind _ = _
    rw [hslash, Authority.authorityPart_spell _ _ r.head_resource]
    show tailPart _ r.resource _ = _
    rw [tailPart_resource _ _ rfl, pieces, hs]

end Reference

theorem tailPart_ok {url b : Bytes} {pieces pieces' : Pieces} (hnone : pieces.fragment = none)
    (h : tailPart url b pieces = .ok pieces') :
    ∃ (path : Bytes) (query fragment : Option Bytes),
      b = path ++ (opened 0x3F query ++ opened 0x23 fragment) ∧
      pieces' = { pieces with path := some path, query := query, fragment := fragment } ∧
      isChars path 0x2F = true ∧ (∀ t ∈ query, 0x23 ∉ t) ∧
      ∀ t ∈ fragment, isChars t 0x3F = true := by
  rw [tailPart] at h
  rcases hpath : findFirstOf b (ascii "?#") with ⟨path, p⟩
  rw [hpath] at h
  obtain ⟨rfl, -, hp⟩ := findFirstOf_eq_iff.mp hpath
  cases hc : isChars path 0x2F with
  | false => simp [hc] at h
  | true =>
    cases p with
    | nil =>
      simp only [hc, if_true, List.head?_nil, reduceCtorEq, if_false, Except.ok.injEq] at h
      refine ⟨path, none, none, rfl, ?_, hc, by simp, by simp⟩
      rw [← h, hnone]
    | cons x p =>
      have hx : x = 0x3F ∨ x = 0x23 := by simpa [ascii] using hp x rfl
      rcases hx with rfl | rfl
      · rcases hq : findChar p 0x23 with ⟨q, p'⟩
        cases p' with
        | nil =>
          obtain ⟨rfl, hmem⟩ := findChar_nil_iff.mp hq
          simp only [hc, if_true, List.head?_cons, List.drop_one, List.tail_cons, hq,
            List.head?_nil, reduceCtorEq, if_false, Except.ok.injEq] at h
          refine ⟨path, some p, none, by simp [opened], ?_, hc, by simpa using hmem, by simp⟩
          rw [← h, hnone]
        | cons y f =>
          obtain ⟨rfl, hmem, rfl⟩ := findChar_cons_iff.mp hq
          simp only [hc, if_true, List.head?_cons, List.drop_one, List.tail_cons, hq,
            Checked.ite_ok] at h
          exact ⟨path, some q, some f, by simp [opened], h.2.symm, hc, by simpa using hmem,
            by simpa using h.1⟩
      · have hne : ¬ (0x23 : UInt8) = 0x3F := by decide
        simp only [hc, if_true, List.head?_cons, Option.some.injEq, hne, if_false,
          List.drop_one, List.tail_cons, Checked.ite_ok] at h
        exact ⟨path, none, some p, rfl, h.2.symm, hc, by simp, by simpa using h.1⟩

theorem schemePart_ok {url b p rest : Bytes} {scheme : Option Bytes}
    (hfind : findFirstOf url (ascii ":/?#") = (b, p))
    (h : schemePart url b p = .ok (scheme, rest)) :
    url = closed 0x3A scheme ++ rest ∧ ∀ t ∈ scheme, isScheme t = true := by
  obtain ⟨hurl, -, -⟩ := findFirstOf_eq_iff.mp hfind
  rw [schemePart] at h
  split at h
  · next hp =>
    obtain ⟨hs, heq⟩ := Checked.ite_ok.mp h
    cases heq
    obtain ⟨p, rfl⟩ := List.head?_eq_some_iff.mp hp
    refine ⟨?_, by simpa using hs⟩
    rw [hurl]
    simp [closed]
  · cases h
    exact ⟨rfl, by simp⟩

theorem authority_ok {url a a1 a2 t : Bytes} {v : Int} {user port : Option Bytes}
    (hu : userPart url a = .ok (user, a1)) (hh : hostPart url a1 = .ok (v, t, a2))
    (hp : portPart url a2 = .ok port) (ha : ∀ c ∈ a, c ∉ ascii "/?#") :
    ∃ a' : Authority, ({ ipV := v, user := user, host := some t, port := port } : Pieces) =
      a'.pieces ∧ a'.spell = a := by
  obtain ⟨host, rfl, rfl, rfl, hname⟩ := Host.hostPart_ok hh
  have huser : a = closed 0x40 user ++ (host.spell ++ a2) ∧
      (∀ t ∈ user, isChars t 0x05 = true) ∧ (user = none → 0x40 ∉ a2) := by
    rcases userPart_ok hu with ⟨rfl, rfl, hat⟩ | ⟨t, rfl, ht, rfl⟩
    · exact ⟨rfl, by simp, fun _ hm => hat (List.mem_append_right _ hm)⟩
    · exact ⟨by simp [closed], by simpa using ht, by simp⟩
  obtain ⟨hspell, huser, hat⟩ := huser
  rcases portPart_ok hp with ⟨rfl, hcolon⟩ | ⟨p, rfl, hport, rfl⟩
  · have htrailer : ∀ c ∈ a2, c ∉ ascii "/?#" := fun c hc => ha c (by simp [hspell, hc])
    have hempty : host.isName = true → a2 = [] := by
      intro hn
      cases a2 with
      | nil => rfl
      | cons c a2 =>
        rw [List.head?_cons, hname hn c rfl] at hcolon
        exact absurd rfl hcolon
    exact ⟨⟨user, host, a2, none, huser, ⟨htrailer, hcolon⟩, hempty, fun h => absurd rfl h,
      hat, by simp⟩, rfl, by simp [hspell, opened, Authority.spell]⟩
  · exact ⟨⟨user, host, [], some p, huser, by simp, fun _ => rfl, fun _ => rfl, by simp,
      by simpa using hport⟩, rfl, by simp [hspell, opened, Authority.spell]⟩

theorem authorityPart_ok {url b p rest : Bytes} {pieces : Pieces}
    (h : authorityPart url b p = .ok (pieces, rest)) :
    (pieces = {} ∧ rest = b) ∨ ∃ a : Authority, pieces = a.pieces ∧
      b = ascii "//" ++ (a.spell ++ rest) ∧ ∀ c ∈ rest.head?, c ∈ ascii "/?#" := by
  rw [authorityPart] at h
  split at h
  · next hb =>
    rcases hfind : findFirstOf (b.drop 2) (ascii "/?#") with ⟨a, rest'⟩
    rw [hfind] at h
    obtain ⟨⟨user, a1⟩, hu, h⟩ := Checked.bind_ok.mp h
    obtain ⟨⟨v, t, a2⟩, hh, h⟩ := Checked.bind_ok.mp h
    obtain ⟨port, hp, h⟩ := Checked.bind_ok.mp h
    cases h
    obtain ⟨hdrop, ha, hhead⟩ := findFirstOf_eq_iff.mp hfind
    have hspell : b = ascii "//" ++ (a ++ rest) := by
      rw [← hdrop, ← hb.2, List.take_append_drop]
    obtain ⟨a', hpieces, rfl⟩ := authority_ok hu hh hp ha
    exact .inr ⟨a', hpieces, hspell, hhead⟩
  · cases h
    exact .inl ⟨rfl, rfl⟩

theorem split_ok {url : Bytes} {pieces : Pieces} (h : split url = .ok pieces) :
    (∃ r : Reference, r.spell = url ∧ r.pieces = pieces) ∨
      (pieces.host = none ∧ pieces.port = none) := by
  rcases hfind : findFirstOf url (ascii ":/?#") with ⟨b, p⟩
  by_cases hp : p = []
  · rw [split, hfind] at h
    simp only [hp, if_true, Checked.ite_ok] at h
    rw [← h.2]
    exact .inr ⟨rfl, rfl⟩
  · rw [split_eq hfind hp] at h
    obtain ⟨⟨scheme, b1⟩, hs, h⟩ := Checked.bind_ok.mp h
    obtain ⟨⟨part, rest⟩, ha, ht⟩ := Checked.bind_ok.mp h
    dsimp only at ha ht
    obtain ⟨hurl, hscheme⟩ := schemePart_ok hfind hs
    rcases authorityPart_ok ha with ⟨rfl, rfl⟩ | ⟨a, rfl, hb, hhead⟩
    · obtain ⟨path, query, fragment, -, rfl, -⟩ := tailPart_ok rfl ht
      exact .inr ⟨rfl, rfl⟩
    · obtain ⟨path, query, fragment, hrest, rfl, hpath, hquery, hfragment⟩ :=
        tailPart_ok rfl ht
      have hslash : ∀ c ∈ path.head?, c = 0x2F := by
        intro c hc
        have hmem : c ∈ ascii "/?#" := by
          refine hhead c ?_
          rw [hrest]
          cases path with
          | nil => cases hc
          | cons x path => exact hc
        have hclass : ∀ c ∈ ascii "/?#", isChar c 0x2F = true → c = 0x2F :=
          forall_mem_bytes (by decide)
        exact hclass c hmem (isChars_iff.mp hpath c (List.mem_of_mem_head? hc))
      refine .inl ⟨{ a with
        scheme := scheme, path := path, query := query, fragment := fragment,
        scheme_valid := hscheme, path_valid := ⟨hpath, hslash⟩, query_valid := hquery,
        fragment_valid := hfragment }, ?_, rfl⟩
      rw [hurl, hb, hrest]
      rfl

section errors

variable {url b p : Bytes} {f : Failure}

def Refused (f : Failure) : Prop := f.isInvalidArgument = true

theorem ite_refused {α : Type} {c : Prop} [Decidable c] {x : Except Failure α} {reason : Bytes}
    (hx : x = .error f → Refused f)
    (h : (if c then x else .error (.parseError reason)) = .error f) : Refused f := by
  split at h
  · exact hx h
  · cases h
    rfl

theorem userPart_error (h : userPart url b = .error f) : Refused f := by
  rw [userPart] at h
  split at h
  split at h
  · cases h
  · exact ite_refused (fun h => by cases h) h

theorem futurePart_error (h : futurePart url b = .error f) : Refused f := by
  rw [futurePart.eq_def] at h
  split at h
  · cases h
    rfl
  · split at h
    · cases h
      rfl
    · exact ite_refused (fun h => by cases h) h

theorem literalPart_error (h : literalPart url b = .error f) : Refused f := by
  rw [literalPart] at h
  split at h
  split at h
  · cases h
    rfl
  · split at h
    · rcases Checked.bind_error.mp h with h | ⟨a, -, h⟩
      · exact futurePart_error h
      · cases h
    · exact ite_refused (fun h => by cases h) h

theorem hostPart_error (h : hostPart url b = .error f) : Refused f := by
  rw [hostPart] at h
  split at h
  · exact literalPart_error h
  · split at h
    split at h
    · cases h
    · exact ite_refused (fun h => by cases h) h

theorem portPart_error (h : portPart url b = .error f) : Refused f := by
  rw [portPart] at h
  split at h
  · exact ite_refused (fun h => by cases h) h
  · cases h

theorem authorityPart_error (h : authorityPart url b p = .error f) : Refused f := by
  rw [authorityPart] at h
  split at h
  · rcases Checked.bind_error.mp h with h | ⟨user, -, h⟩
    · exact userPart_error h
    · rcases Checked.bind_error.mp h with h | ⟨host, -, h⟩
      · exact hostPart_error h
      · rcases Checked.bind_error.mp h with h | ⟨port, -, h⟩
        · exact portPart_error h
        · cases h
  · cases h

theorem tailPart_error {pieces : Pieces} (h : tailPart url b pieces = .error f) : Refused f := by
  rw [tailPart] at h
  split at h
  refine ite_refused (fun h => ?_) h
  split at h
  dsimp only at h
  split at h
  · exact ite_refused (fun h => by cases h) h
  · cases h

theorem schemePart_error (h : schemePart url b p = .error f) : Refused f := by
  rw [schemePart] at h
  split at h
  · exact ite_refused (fun h => by cases h) h
  · cases h

theorem split_error (h : split url = .error f) : Refused f := by
  rcases hfind : findFirstOf url (ascii ":/?#") with ⟨b, p⟩
  by_cases hp : p = []
  · rw [split, hfind] at h
    simp only [hp, if_true] at h
    exact ite_refused (fun h => by cases h) h
  · rw [split_eq hfind hp] at h
    rcases Checked.bind_error.mp h with h | ⟨s, -, h⟩
    · exact schemePart_error h
    · rcases Checked.bind_error.mp h with h | ⟨a, -, h⟩
      · exact authorityPart_error h
      · exact tailPart_error h

end errors

end Url

end GWSockets
