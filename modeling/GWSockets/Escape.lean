import GWSockets.Library.Checked
import GWSockets.Reference

namespace GWSockets

namespace Url

open Checked (Decides)

def hexValue (c : UInt8) : UInt8 := (getHexDigit c).getD 0

def wellEscaped : Bytes → Bool
  | [] => true
  | c :: s =>
      if c = 0x25 then
        match s with
        | a :: b :: s => isHexdigit a && isHexdigit b && wellEscaped s
        | _ => false
      else wellEscaped s

def unescapeWith (plain : UInt8 → UInt8) : Bytes → Bytes
  | [] => []
  | c :: s =>
      if c = 0x25 then
        match s with
        | a :: b :: s => (hexValue a <<< 4 ||| hexValue b) :: unescapeWith plain s
        | _ => []
      else plain c :: unescapeWith plain s

def unescape (s : Bytes) : Bytes := unescapeWith id s

section decode

variable {plain : UInt8 → UInt8} {c : UInt8}

theorem wellEscaped_plain (hc : c ≠ 0x25) (s : Bytes) :
    wellEscaped (c :: s) = wellEscaped s := by
  rcases s with _ | ⟨a, _ | ⟨b, s⟩⟩ <;> simp [wellEscaped, hc]

theorem unescapeWith_plain (hc : c ≠ 0x25) (s : Bytes) :
    unescapeWith plain (c :: s) = plain c :: unescapeWith plain s := by
  rcases s with _ | ⟨a, _ | ⟨b, s⟩⟩ <;> simp [unescapeWith, hc]

theorem decodeWith_plain (hc : c ≠ 0x25) (s : Bytes) :
    decodeWith plain (c :: s) = (decodeWith plain s).map (plain c :: ·) := by
  rcases s with _ | ⟨a, _ | ⟨b, s⟩⟩ <;> simp [decodeWith, hc]

theorem decodeWith_eq (s : Bytes) : decodeWith plain s =
    if wellEscaped s then .ok (unescapeWith plain s)
    else .error (.parseError (ascii "Invalid percent encoding")) := by
  induction s using wellEscaped.induct with
  | case1 => rfl
  | case2 a b s ih =>
    rw [decodeWith, wellEscaped, unescapeWith]
    cases ha : getHexDigit a with
    | none => simp [isHexdigit_iff, ha]
    | some x =>
      cases hb : getHexDigit b with
      | none => simp [isHexdigit_iff, ha, hb]
      | some y =>
        simp only [if_true, isHexdigit_iff, ha, hb, Option.isSome_some, Bool.true_and, hexValue,
          Option.getD_some, ih]
        split <;> rfl
  | case3 s hs =>
    rcases s with _ | ⟨a, _ | ⟨b, s⟩⟩
    · rfl
    · rfl
    · exact absurd rfl (hs a b s)
  | case4 c s hc ih =>
    rw [decodeWith_plain hc, wellEscaped_plain hc, unescapeWith_plain hc, ih]
    split <;> rfl

theorem decode_decides (s : Bytes) :
    Decides Refused (wellEscaped s = true) (decodeWith plain s) := by
  rw [decodeWith_eq]
  cases wellEscaped s with
  | false => exact .inr ⟨by simp, _, rfl, rfl⟩
  | true => exact .inl ⟨rfl, _, rfl⟩

theorem unescapeWith_of_not_mem {s : Bytes} (h : 0x25 ∉ s) :
    wellEscaped s = true ∧ unescapeWith plain s = s.map plain := by
  induction s with
  | nil => exact ⟨rfl, rfl⟩
  | cons c s ih =>
    obtain ⟨hc, hs⟩ : 0x25 ≠ c ∧ 0x25 ∉ s := by simpa using h
    rw [wellEscaped_plain hc.symm, unescapeWith_plain hc.symm, (ih hs).2]
    exact ⟨(ih hs).1, rfl⟩

theorem decode_of_not_mem {s : Bytes} (h : 0x25 ∉ s) : decode s = .ok s := by
  obtain ⟨hwell, htext⟩ := @unescapeWith_of_not_mem id s h
  rw [decode, decodeWith_eq, if_pos hwell, htext, List.map_id]

theorem wellEscaped_append (hc : isHexdigit c = false) (hp : c ≠ 0x25) (s rest : Bytes) :
    wellEscaped (s ++ c :: rest) = (wellEscaped s && wellEscaped rest) := by
  induction s using wellEscaped.induct with
  | case1 => exact wellEscaped_plain hp rest
  | case2 a b s ih =>
    show (isHexdigit a && isHexdigit b && wellEscaped (s ++ c :: rest)) = _
    rw [ih, ← Bool.and_assoc]
    rfl
  | case3 s hs =>
    rcases s with _ | ⟨a, _ | ⟨b, s⟩⟩
    · cases rest with
      | nil => rfl
      | cons x rest =>
        show (isHexdigit c && isHexdigit x && wellEscaped rest) = false
        rw [hc]
        rfl
    · show (isHexdigit a && isHexdigit c && wellEscaped rest) = false
      rw [hc, Bool.and_false]
      rfl
    · exact absurd rfl (hs a b s)
  | case4 x s hx ih =>
    rw [List.cons_append, wellEscaped_plain hx, wellEscaped_plain hx, ih]

end decode

section query

variable {url : Bytes}

def QueryText (s : Bytes) : Prop := isChars s 0x3F = true ∧ wellEscaped s = true

theorem queryText_append {c : UInt8} {s rest : Bytes} (hc : c ∈ ascii "=;&") :
    QueryText (s ++ c :: rest) ↔ QueryText s ∧ QueryText rest := by
  have hclass : ∀ c ∈ ascii "=;&",
      isChar c 0x3F = true ∧ isHexdigit c = false ∧ c ≠ 0x25 := forall_mem_bytes (by decide)
  obtain ⟨hchar, hhex, hpercent⟩ := hclass c hc
  rw [QueryText, wellEscaped_append hhex hpercent, isChars, List.all_append, List.all_cons, hchar]
  simp only [Bool.true_and, Bool.and_eq_true, QueryText, isChars]
  exact and_and_and_comm

theorem checkedQuery_decides (what text : Bytes) :
    Decides Refused (QueryText text) (checkedQuery url what text) := by
  rw [checkedQuery]
  cases hchars : isChars text 0x3F with
  | false => exact .inr ⟨fun h => by simp [QueryText, hchars] at h, _, rfl, rfl⟩
  | true => exact (decode_decides text).congr (by simp [QueryText, hchars])

theorem queryLoop_last {key : Bytes} (h : ∀ c ∈ key, c ∉ ascii "=;&") : queryLoop url key =
    (checkedQuery url (ascii "key") key).bind fun k => .ok [(k, [])] := by
  have hfind : findFirstOf key (ascii "=;&") = (key, []) :=
    findFirstOf_eq_iff.mpr ⟨(List.append_nil key).symm, h, by simp⟩
  rw [queryLoop, hfind]
  rfl

theorem queryLoop_next {key rest : Bytes} {c : UInt8} (h : ∀ c ∈ key, c ∉ ascii "=;&")
    (hc : c ∈ ascii ";&") : queryLoop url (key ++ c :: rest) =
      (checkedQuery url (ascii "key") key).bind fun k =>
        (queryLoop url rest).bind fun query => .ok ((k, []) :: query) := by
  have hclass : ∀ c ∈ ascii ";&", c ∈ ascii "=;&" ∧ some c ≠ some 0x3D :=
    forall_mem_bytes (by decide)
  obtain ⟨hmem, hne⟩ := hclass c hc
  rw [queryLoop, findFirstOf_stop h hmem]
  simp only [List.cons_ne_nil, dite_false, List.head?_cons, hne, if_false, List.drop_one,
    List.tail_cons]
  rfl

theorem queryLoop_value_last {key val : Bytes} (h : ∀ c ∈ key, c ∉ ascii "=;&")
    (hv : ∀ c ∈ val, c ∉ ascii ";&") : queryLoop url (key ++ 0x3D :: val) =
      (checkedQuery url (ascii "key") key).bind fun k =>
        (checkedQuery url (ascii "value") val).bind fun v => .ok [(k, v)] := by
  have hfind : findFirstOf val (ascii ";&") = (val, []) :=
    findFirstOf_eq_iff.mpr ⟨(List.append_nil val).symm, hv, by simp⟩
  rw [queryLoop, findFirstOf_stop h (by decide)]
  simp only [List.cons_ne_nil, dite_false, List.head?_cons, if_true, List.drop_one,
    List.tail_cons, hfind]
  rfl

theorem queryLoop_value_next {key val rest : Bytes} {c : UInt8} (h : ∀ c ∈ key, c ∉ ascii "=;&")
    (hv : ∀ c ∈ val, c ∉ ascii ";&") (hc : c ∈ ascii ";&") :
    queryLoop url (key ++ 0x3D :: (val ++ c :: rest)) =
      (checkedQuery url (ascii "key") key).bind fun k =>
        (checkedQuery url (ascii "value") val).bind fun v =>
          (queryLoop url rest).bind fun query => .ok ((k, v) :: query) := by
  rw [queryLoop, findFirstOf_stop h (by decide)]
  simp only [List.cons_ne_nil, dite_false, List.head?_cons, if_true, List.drop_one,
    List.tail_cons, findFirstOf_stop hv hc]
  rfl

theorem queryLoop_decides (b : Bytes) : Decides Refused (QueryText b) (queryLoop url b) := by
  induction hn : b.length using Nat.strong_induction_on generalizing b with
  | h n ih =>
    subst hn
    rcases hfind : findFirstOf b (ascii "=;&") with ⟨key, p⟩
    obtain ⟨rfl, hkey, hp⟩ := findFirstOf_eq_iff.mp hfind
    cases p with
    | nil =>
      rw [List.append_nil, queryLoop_last hkey]
      exact ((checkedQuery_decides _ key).bind fun k _ => .pure _).congr (by rw [and_true])
    | cons c rest =>
      have hc : c = 0x3D ∨ c ∈ ascii ";&" := by simpa [ascii] using hp c rfl
      rcases hc with rfl | hc
      · rcases hval : findFirstOf rest (ascii ";&") with ⟨val, q⟩
        obtain ⟨rfl, hv, hq⟩ := findFirstOf_eq_iff.mp hval
        rw [queryText_append (by decide)]
        cases q with
        | nil =>
          rw [List.append_nil, queryLoop_value_last hkey hv]
          refine (checkedQuery_decides _ key).bind fun k _ => ?_
          exact ((checkedQuery_decides _ val).bind fun v _ => .pure _).congr (by rw [and_true])
        | cons c' rest =>
          have hc' := hq c' rfl
          have hmem : ∀ c ∈ ascii ";&", c ∈ ascii "=;&" := forall_mem_bytes (by decide)
          rw [queryLoop_value_next hkey hv hc', queryText_append (hmem c' hc')]
          refine (checkedQuery_decides _ key).bind fun k _ => ?_
          refine (checkedQuery_decides _ val).bind fun v _ => ?_
          have hrest := ih rest.length (by simp; omega) rest rfl
          exact (hrest.bind fun query _ => .pure _).congr (by rw [and_true])
      · have hmem : ∀ c ∈ ascii ";&", c ∈ ascii "=;&" := forall_mem_bytes (by decide)
        rw [queryLoop_next hkey hc, queryText_append (hmem c hc)]
        refine (checkedQuery_decides _ key).bind fun k _ => ?_
        have hrest := ih rest.length (by simp; omega) rest rfl
        exact (hrest.bind fun query _ => .pure _).congr (by rw [and_true])

end query

end Url
end GWSockets
