import GWSockets.UpdateChecker
import GWSockets.Library.Delimited
import GWSockets.Library.Padded

namespace GWSockets

namespace UpdateChecker

section number

variable (m : DataModel) {t rest : Bytes}

theorem isSpace_of_isDigit : ∀ c : UInt8, isDigit c = true → isSpace c = false :=
  forall_byte (by decide +kernel)

theorem sign_of_isDigit {c : UInt8} (hc : isDigit c = true) :
    sign (c :: t) = (false, c :: t) := by
  unfold sign
  split
  · next heq => cases heq; exact absurd hc (by decide)
  · next heq => cases heq; exact absurd hc (by decide)
  · rfl

theorem strtol_digits (ht : ∀ c ∈ t, isDigit c = true)
    (hrest : rest = [] ∨ rest = [0x2E] ∨ rest = [0x0A]) :
    strtol m (t ++ rest) = min (decimalValue t : Int) (2 ^ (m.longWidth - 1) - 1) := by
  have hend : ∀ c ∈ rest.head?, isDigit c = false := by
    rcases hrest with rfl | rfl | rfl <;> simp [isDigit]
  have htake := Delimited.takeWhile_left ht hend
  cases t with
  | nil => rcases hrest with rfl | rfl | rfl <;> cases m <;> decide
  | cons c t =>
    have hc := ht c List.mem_cons_self
    have hdrop : (c :: t ++ rest).dropWhile isSpace = c :: t ++ rest :=
      List.dropWhile_cons_of_neg (by simp [isSpace_of_isDigit c hc])
    rw [strtol, hdrop, List.cons_append, sign_of_isDigit hc]
    simp only [List.cons_append] at htake
    simp [htake]

theorem pushed_digits (ht : ∀ c ∈ t, isDigit c = true) (hfits : decimalValue t < 2 ^ 31)
    (hrest : rest = [] ∨ rest = [0x2E] ∨ rest = [0x0A]) :
    pushed m (t ++ rest) = decimalValue t := by
  have hlong : (2 : Int) ^ 31 ≤ 2 ^ (m.longWidth - 1) := by
    cases m <;> decide
  rw [pushed, strtol_digits m ht hrest, min_eq_left (by omega)]
  exact Int.bmod_eq_of_le (by omega) (by omega)

end number

section split

variable (m : DataModel) {s : Bytes}

theorem splitAt_dot {i : Nat} {acc : Split} (hi : i + 1 < s.length) (hdot : s[i] = 0x2E) :
    splitAt m s acc i = ⟨i + 1, acc.values ++ [pushed m ((s.take i).drop acc.start)]⟩ := by
  have hget : s[i]? = some 0x2E := by
    rw [List.getElem?_eq_getElem (by omega), hdot]
  rw [splitAt, if_pos (.inl hget), if_neg hi.ne, List.drop_take]

theorem splitAt_other {i : Nat} {acc : Split} (hi : i + 1 < s.length) (hdot : s[i] ≠ 0x2E) :
    splitAt m s acc i = acc := by
  have hget : s[i]? ≠ some 0x2E := by
    rw [List.getElem?_eq_getElem (by omega)]
    simpa using hdot
  rw [splitAt, if_neg (not_or.mpr ⟨hget, hi.ne⟩), if_neg hi.ne]

theorem splitAt_last {i : Nat} {acc : Split} (hi : i + 1 = s.length) :
    splitAt m s acc i = ⟨i + 1, acc.values ++ [pushed m (s.drop acc.start)]⟩ := by
  rw [splitAt, if_pos (.inr hi), if_pos hi]

theorem splitAt_run {i : Nat} (hi : i < s.length) :
    ∃ start done, (List.range i).foldl (splitAt m s) {} = ⟨start, done.map (pushed m)⟩ ∧
      start ≤ i ∧ (s.take i).splitOn 0x2E = done ++ [(s.take i).drop start] := by
  induction i with
  | zero => exact ⟨0, [], rfl, le_rfl, by simp⟩
  | succ i ih =>
    obtain ⟨start, done, hrun, hstart, hsplit⟩ := ih (by omega)
    have htake : s.take (i + 1) = s.take i ++ [s[i]] :=
      (List.take_append_getElem (by omega)).symm
    rw [List.range_succ, List.foldl_concat, hrun, htake]
    by_cases hdot : s[i] = 0x2E
    · refine ⟨i + 1, done ++ [(s.take i).drop start], ?_, le_rfl, ?_⟩
      · rw [splitAt_dot m hi hdot, List.map_append]
        rfl
      · rw [hdot, List.splitOn_append_cons_self, hsplit]
        simp
    · refine ⟨start, done, splitAt_other m hi hdot, by omega, ?_⟩
      rw [Delimited.splitOn_append (by simpa using Ne.symm hdot) hsplit,
        List.drop_append_of_le_length (by simp; omega)]

theorem splitVersions_concat {c : UInt8} {done : List Bytes} {last : Bytes}
    (h : s.splitOn 0x2E = done ++ [last]) :
    splitVersions m (s ++ [c]) = done.map (pushed m) ++ [pushed m (last ++ [c])] := by
  have hlength : (s ++ [c]).length = s.length + 1 := by simp
  obtain ⟨start, done', hrun, hstart, hsplit⟩ :=
    splitAt_run m (s := s ++ [c]) (i := s.length) (by simp)
  rw [List.take_left, h] at hsplit
  obtain ⟨rfl, hlast⟩ := List.append_inj' hsplit rfl
  obtain rfl := List.singleton_inj.mp hlast
  rw [splitVersions, hlength, List.range_succ, List.foldl_concat, hrun,
    splitAt_last m hlength.symm, List.drop_append_of_le_length hstart]

end split

end UpdateChecker

structure Version where
  body : Bytes
  newline : Bool
  characters : ∀ c ∈ body, UpdateChecker.isDigit c = true ∨ c = 0x2E
  fits : ∀ w ∈ body.splitOn 0x2E, decimalValue w < 2 ^ 31

namespace Version

open UpdateChecker Padded

def text (v : Version) : Bytes := v.body ++ (if v.newline then [0x0A] else [])

def components (v : Version) : List Int := (v.body.splitOn 0x2E).map (fun w => decimalValue w)

example : components ⟨ascii "01.30.", true, forall_mem_bytes (by decide), by decide⟩ =
    [1, 30, 0] := by decide

variable (m : DataModel) (v : Version)

theorem pushed_component {w rest : Bytes} (hw : w ∈ v.body.splitOn 0x2E)
    (hrest : rest = [] ∨ rest = [0x2E] ∨ rest = [0x0A]) :
    pushed m (w ++ rest) = decimalValue w := by
  refine pushed_digits m (fun c hc => ?_) (v.fits w hw) hrest
  obtain ⟨hbody, hdot⟩ := Delimited.mem_of_mem_splitOn hw c hc
  exact (v.characters c hbody).resolve_right hdot

theorem map_pushed {done : List Bytes} (h : ∀ w ∈ done, w ∈ v.body.splitOn 0x2E) :
    done.map (pushed m) = done.map (fun w => (decimalValue w : Int)) := by
  refine List.map_congr_left fun w hw => ?_
  simpa using v.pushed_component m (h w hw) (.inl rfl)

theorem splitVersions_text {b piece rest last : Bytes} {c : UInt8} {done : List Bytes}
    (htext : v.text = b ++ [c]) (hsplit : b.splitOn 0x2E = done ++ [last])
    (hlast : last ++ [c] = piece ++ rest) (hrest : rest = [] ∨ rest = [0x2E] ∨ rest = [0x0A])
    (hpieces : ∀ w ∈ done ++ [piece], w ∈ v.body.splitOn 0x2E) :
    splitVersions m v.text = (done ++ [piece]).map (fun w => (decimalValue w : Int)) := by
  have hdone := v.map_pushed m (fun w hw => hpieces w (List.mem_append_left _ hw))
  have hpiece := v.pushed_component m (hpieces piece (by simp)) hrest
  rw [htext, splitVersions_concat m hsplit, hlast, hdone, hpiece, List.map_append]
  rfl

theorem components_of_newline (h : v.newline = true) :
    v.components = splitVersions m v.text := by
  obtain ⟨done, last, hsplit⟩ :=
    (List.eq_nil_or_concat' (v.body.splitOn 0x2E)).resolve_left (List.splitOn_ne_nil _ _)
  have htext : v.text = v.body ++ [0x0A] := by rw [text, if_pos h]
  rw [v.splitVersions_text m htext hsplit rfl (by simp) (by simp [hsplit]), components, hsplit]

theorem components_of_nil (h : v.newline = false) (hbody : v.body = []) :
    v.components = splitVersions m v.text ++ [0] := by
  simp [text, components, h, hbody, splitVersions, decimalValue]

theorem components_of_dot {b : Bytes} (h : v.newline = false) (hbody : v.body = b ++ [0x2E]) :
    v.components = splitVersions m v.text ++ [0] := by
  obtain ⟨done, last, hsplit⟩ :=
    (List.eq_nil_or_concat' (b.splitOn 0x2E)).resolve_left (List.splitOn_ne_nil _ _)
  have htext : v.text = b ++ [0x2E] := by simp [text, h, hbody]
  have hpieces : v.body.splitOn 0x2E = done ++ [last] ++ [[]] := by
    rw [hbody, List.splitOn_append_cons_self, hsplit]
    rfl
  rw [v.splitVersions_text m htext hsplit rfl (by simp)
    (fun w hw => hpieces ▸ List.mem_append_left _ hw), components, hpieces, List.map_append]
  rfl

theorem components_of_digit {b : Bytes} {c : UInt8} (h : v.newline = false)
    (hbody : v.body = b ++ [c]) (hc : c ≠ 0x2E) : v.components = splitVersions m v.text := by
  obtain ⟨done, last, hsplit⟩ :=
    (List.eq_nil_or_concat' (b.splitOn 0x2E)).resolve_left (List.splitOn_ne_nil _ _)
  have htext : v.text = b ++ [c] := by simp [text, h, hbody]
  have hpieces : v.body.splitOn 0x2E = done ++ [last ++ [c]] := by
    rw [hbody, Delimited.splitOn_append (by simpa using Ne.symm hc) hsplit]
  rw [v.splitVersions_text m htext hsplit (List.append_nil _).symm (by simp) (by simp [hpieces]),
    components, hpieces]

theorem components_eq : v.components = splitVersions m v.text ∨
    v.components = splitVersions m v.text ++ [0] := by
  cases h : v.newline with
  | true => exact .inl (v.components_of_newline m h)
  | false =>
    rcases List.eq_nil_or_concat' v.body with hbody | ⟨b, c, hbody⟩
    · exact .inr (v.components_of_nil m h hbody)
    · by_cases hc : c = 0x2E
      · subst hc
        exact .inr (v.components_of_dot m h hbody)
      · exact .inl (v.components_of_digit m h hbody hc)

theorem extended_components :
    extended 0 v.components = extended 0 (splitVersions m v.text) := by
  rcases v.components_eq m with h | h
  · rw [h]
  · rw [h, extended_concat]

end Version

namespace UpdateChecker

open Padded

def outcome : Ordering → Int
  | .lt => -1
  | .eq => 0
  | .gt => 1

theorem outcome_swap (o : Ordering) : outcome o.swap = -outcome o := by
  cases o <;> rfl

theorem outcome_nonpos_iff {o : Ordering} : outcome o ≤ 0 ↔ o ≠ .gt := by
  cases o <;> decide

theorem outcome_eq_zero_iff {o : Ordering} : outcome o = 0 ↔ o = .eq := by
  cases o <;> decide

theorem compareValues_eq (l r : List Int) (is : List Nat) :
    compareValues l r is =
      outcome (scan (fun i => l.getD i 0) (fun i => r.getD i 0) is) := by
  induction is with
  | nil => rfl
  | cons i is ih =>
    rw [compareValues, scan, ih]
    split
    · split <;> rfl
    · rfl

theorem compareVersions_eq (m : DataModel) (l r : Version) : compareVersions m l.text r.text =
    outcome (comparison 0 l.components r.components) := by
  rw [comparison_congr (l.extended_components m) (r.extended_components m), ← scan_getD,
    ← compareValues_eq]
  rfl

structure Numeric (compare : Version → Version → Int) : Prop where
  lexicographic : ∀ l r, compare l r = outcome (comparison 0 l.components r.components)
  antisymmetric : ∀ l r, compare r l = -compare l r
  transitive : ∀ l r t, compare l r ≤ 0 → compare r t ≤ 0 → compare l t ≤ 0
  zero_iff : ∀ l r, compare l r = 0 ↔ trimmed 0 l.components = trimmed 0 r.components

theorem compareVersions_numeric (m : DataModel) :
    Numeric (fun l r => compareVersions m l.text r.text) := by
  refine ⟨compareVersions_eq m, fun l r => ?_, fun l r t => ?_, fun l r => ?_⟩
  · rw [compareVersions_eq, compareVersions_eq, ← outcome_swap, comparison_swap]
  · simp only [compareVersions_eq, outcome_nonpos_iff]
    exact comparison_trans
  · rw [compareVersions_eq, outcome_eq_zero_iff, comparison_eq_eq_iff]

example : compareVersions .ilp32 (ascii "1.3.0") (ascii "01.10\n") = -1 := by decide

end UpdateChecker

end GWSockets
