import GWSockets.Library.Runs
import GWSockets.Literal
import Mathlib.Data.List.GetD

namespace GWSockets

namespace Url

section joined

def joined (pieces : List Bytes) : Bytes := [0x3A].intercalate pieces

variable {q rest : Bytes} {qs : List Bytes}

theorem joined_cons (q : Bytes) (qs : List Bytes) :
    joined (q :: qs) = q ++ if qs = [] then [] else 0x3A :: joined qs := by
  cases qs with
  | nil => simp [joined]
  | cons r qs => simp [joined, List.intercalate_cons_cons]

theorem colonTails_append (h : 0x3A ∉ q) : colonTails (q ++ rest) = colonTails rest := by
  induction q with
  | nil => rfl
  | cons c q ih =>
    obtain ⟨hc, hq⟩ : 0x3A ≠ c ∧ 0x3A ∉ q := by simpa using h
    rw [List.cons_append, colonTails, if_neg hc.symm, ih hq]

theorem suffixes_joined (h : ∀ x ∈ q :: qs, 0x3A ∉ x) :
    joined (q :: qs) :: (colonTails (joined (q :: qs)) ++ [[]]) =
      (q :: qs).tails.map joined := by
  induction qs generalizing q with
  | nil => simp [joined, colonTails_of_not_mem (h q (by simp))]
  | cons r qs ih =>
    have htails := ih (fun x hx => h x (List.mem_cons_of_mem q hx))
    have hsplit : colonTails (joined (q :: r :: qs)) =
        joined (r :: qs) :: colonTails (joined (r :: qs)) := by
      rw [joined_cons, if_neg (List.cons_ne_nil r qs), colonTails_append (h q (by simp)),
        colonTails, if_pos rfl]
    rw [List.tails, List.map_cons, ← htails, hsplit]
    rfl

end joined

section decode

variable {q rest next : Bytes} {qs ends : List Bytes}

def Digits (q : Bytes) : Prop := q.length ≤ 4 ∧ ∀ c ∈ q, isHexdigit c = true

def pieceValue (q : Bytes) : ℕ := q.foldl pushDigit 0

theorem colon_not_mem_digits (h : Digits q) : 0x3A ∉ q := by
  intro hm
  exact absurd (h.2 _ hm) (by decide)

theorem hexField_piece {field : ℕ} (h : 0x3A ∉ q)
    (hrest : rest = [] ∧ next = [] ∨ rest = 0x3A :: next) :
    hexField next field (q ++ rest) = q.foldl pushDigit field := by
  induction q generalizing field with
  | nil =>
    rcases hrest with ⟨rfl, -⟩ | rfl
    · rfl
    · rw [List.nil_append, hexField, if_pos (.inr rfl)]
      rfl
  | cons c q ih =>
    obtain ⟨hc, hq⟩ : 0x3A ≠ c ∧ 0x3A ∉ q := by simpa using h
    have hlong : c :: (q ++ rest) ≠ next := by
      rintro rfl
      rcases hrest with ⟨-, hnext⟩ | hnext
      · cases hnext
      · have := congrArg List.length hnext
        simp at this
        omega
    rw [List.cons_append, hexField, if_neg (by simp [hlong, hc.symm]), ih hq]
    rfl

theorem decodeFields_pieces {i nullPos : ℕ} {fields : List ℕ} (h : ∀ x ∈ qs, Digits x)
    (hroom : fields.length + digitGroups qs ≤ 8) :
    decodeFields i (qs.tails.map (fun t => joined (t ++ ends))) fields nullPos =
      .ok (fields ++ (qs.filter (· != [])).map pieceValue, lastEmpty i qs nullPos) := by
  induction qs generalizing i nullPos fields with
  | nil => simp [decodeFields, lastEmpty]
  | cons q qs ih =>
    obtain ⟨hq, hqs⟩ := List.forall_mem_cons.mp h
    have htail : ∃ tokens, qs.tails.map (fun t => joined (t ++ ends)) =
        joined (qs ++ ends) :: tokens := by
      cases qs with
      | nil => exact ⟨[], rfl⟩
      | cons r qs => exact ⟨_, by rw [List.tails, List.map_cons]⟩
    obtain ⟨tokens, htokens⟩ := htail
    have hcolon := colon_not_mem_digits hq
    rw [List.tails, List.map_cons, htokens, List.cons_append, joined_cons, decodeFields,
      ← htokens, lastEmpty]
    by_cases hnil : q = []
    · subst hnil
      have hnull : [] ++ (if qs ++ ends = [] then [] else 0x3A :: joined (qs ++ ends)) =
          joined (qs ++ ends) ∨ ([] ++ (if qs ++ ends = [] then [] else
            0x3A :: joined (qs ++ ends))).head? = some 0x3A := by
        by_cases hend : qs ++ ends = []
        · rw [if_pos hend, hend]
          exact .inl rfl
        · rw [if_neg hend]
          exact .inr rfl
      rw [if_pos hnull, if_pos rfl, ih hqs (by simpa [digitGroups] using hroom)]
      rfl
    · have hlive : ¬ (q ++ (if qs ++ ends = [] then [] else 0x3A :: joined (qs ++ ends)) =
          joined (qs ++ ends) ∨ (q ++ (if qs ++ ends = [] then [] else
            0x3A :: joined (qs ++ ends))).head? = some 0x3A) := by
        obtain ⟨c, q, rfl⟩ := List.exists_cons_of_ne_nil hnil
        rintro (heq | hhead)
        · have := congrArg List.length heq
          split_ifs at this with hend
          · simp [hend, joined] at this
          · simp at this
            omega
        · simp only [List.cons_append, List.head?_cons, Option.some.injEq] at hhead
          exact hcolon (hhead ▸ List.mem_cons_self)
      have hfield : hexField (joined (qs ++ ends)) 0
          (q ++ if qs ++ ends = [] then [] else 0x3A :: joined (qs ++ ends)) = pieceValue q := by
        refine hexField_piece hcolon ?_
        by_cases hend : qs ++ ends = []
        · rw [if_pos hend, hend]
          exact .inl ⟨rfl, rfl⟩
        · rw [if_neg hend]
          exact .inr rfl
      have hcount : digitGroups (q :: qs) = digitGroups qs + 1 :=
        List.countP_cons_of_pos (by simpa using hnil)
      rw [if_neg hlive, if_neg hnil, hfield, store_eq (by omega)]
      show decodeFields (i + 1) _ (fields ++ [pieceValue q]) nullPos = _
      rw [ih hqs (by rw [List.length_append, List.length_singleton]; omega),
        List.filter_cons_of_pos (by simpa using hnil), List.map_cons, List.append_assoc]
      rfl

end decode

section expand

variable {nullPos i last : ℕ} {array : List ℕ}

theorem getD_set (array : List ℕ) (i j v : ℕ) :
    (array.set i v).getD j 0 = if i = j ∧ i < array.length then v else array.getD j 0 := by
  rw [List.getD_eq_getElem?_getD, List.getElem?_set, List.getD_eq_getElem?_getD]
  by_cases hij : i = j
  · subst hij
    by_cases hlt : i < array.length
    · rw [if_pos rfl, if_pos hlt, if_pos ⟨rfl, hlt⟩]
      rfl
    · rw [if_pos rfl, if_neg hlt, if_neg (fun hc => hlt hc.2),
        List.getElem?_eq_none (not_lt.mp hlt)]
  · rw [if_neg hij, if_neg (fun hc => hij hc.1)]

theorem shiftFields_values (h : i ≤ last) (hlast : last ≤ array.length) (hnull : nullPos < i) :
    ∃ array', shiftFields nullPos i last array = .ok (last - (i - nullPos), array') ∧
      array'.length = array.length ∧ ∀ j, array'.getD j 0 =
        if last - (i - nullPos) ≤ j ∧ j < last then array.getD (j - (last - i)) 0
        else array.getD j 0 := by
  induction i generalizing last array with
  | zero => omega
  | succ i ih =>
    obtain ⟨last, rfl⟩ : ∃ l, last = l + 1 := ⟨last - 1, by omega⟩
    rw [shiftFields]
    by_cases hi : i = nullPos
    · subst hi
      rw [if_pos rfl]
      refine ⟨array.set last (array.getD i 0), by simp, List.length_set, fun j => ?_⟩
      rw [getD_set]
      by_cases hj : last = j
      · rw [if_pos ⟨hj, by omega⟩, if_pos (by omega)]
        congr 1
        omega
      · rw [if_neg (fun hc => hj hc.1), if_neg (by omega)]
    · rw [if_neg hi]
      obtain ⟨array', heq, hlen, hvalues⟩ := @ih last (array.set last (array.getD i 0))
        (Nat.le_of_succ_le_succ h) (by rw [List.length_set]; omega) (by omega)
      refine ⟨array', ?_, by rw [hlen, List.length_set], fun j => ?_⟩
      · rw [heq]
        congr 2
        omega
      · rw [hvalues, getD_set, getD_set]
        by_cases hin : last - (i - nullPos) ≤ j ∧ j < last
        · rw [if_pos hin, if_neg (by omega), if_pos (by omega)]
          congr 1
          omega
        · rw [if_neg hin]
          by_cases hj : last = j
          · rw [if_pos ⟨hj, by omega⟩, if_pos (by omega)]
            congr 1
            omega
          · rw [if_neg (fun hc => hj hc.1), if_neg (by omega)]

theorem zeroFields_values (h : nullPos < last) (hlast : last ≤ array.length) :
    ∃ array', zeroFields nullPos last array = .ok array' ∧ array'.length = array.length ∧
      ∀ j, array'.getD j 0 = if nullPos ≤ j ∧ j < last then 0 else array.getD j 0 := by
  induction last generalizing array with
  | zero => omega
  | succ last ih =>
    rw [zeroFields]
    by_cases hl : last = nullPos
    · subst hl
      rw [if_pos rfl]
      refine ⟨_, rfl, List.length_set .., fun j => ?_⟩
      rw [getD_set]
      by_cases hj : last = j
      · rw [if_pos ⟨hj, by omega⟩, if_pos (by omega)]
      · rw [if_neg (fun hc => hj hc.1), if_neg (by omega)]
    · rw [if_neg hl]
      obtain ⟨array', heq, hlen, hvalues⟩ := @ih (array.set last 0) (by omega)
        (by rw [List.length_set]; omega)
      refine ⟨array', heq, by rw [hlen, List.length_set], fun j => ?_⟩
      rw [hvalues, getD_set]
      by_cases hin : nullPos ≤ j ∧ j < last
      · rw [if_pos hin, if_pos (by omega)]
      · rw [if_neg hin]
        by_cases hj : last = j
        · rw [if_pos ⟨hj, by omega⟩, if_pos (by omega)]
        · rw [if_neg (fun hc => hj hc.1), if_neg (by omega)]

theorem getD_zeros (n j : ℕ) : (List.replicate n 0).getD j 0 = 0 := by
  rcases Nat.lt_or_ge j n with hlt | hge
  · exact List.getD_replicate 0 hlt
  · exact List.getD_eq_default _ _ (by rwa [List.length_replicate])

theorem ext_getD {xs ys : List ℕ} (hlen : xs.length = ys.length)
    (h : ∀ j < xs.length, xs.getD j 0 = ys.getD j 0) : xs = ys := by
  refine List.ext_getElem hlen fun j hx hy => ?_
  have hj := h j hx
  rwa [List.getD_eq_getElem _ _ hx, List.getD_eq_getElem _ _ hy] at hj

theorem getD_opened {fields : List ℕ} {gap j : ℕ} (hnull : nullPos ≤ fields.length) :
    (fields.take nullPos ++ (List.replicate gap 0 ++ fields.drop nullPos)).getD j 0 =
      if j < nullPos then fields.getD j 0 else if j < nullPos + gap then 0
      else fields.getD (j - gap) 0 := by
  have htake : (fields.take nullPos).length = nullPos := by
    rw [List.length_take]
    omega
  split_ifs with hlow hmid
  · rw [List.getD_append _ _ _ _ (by omega), List.getD_eq_getElem?_getD,
      List.getElem?_take_of_lt hlow, ← List.getD_eq_getElem?_getD]
  · rw [List.getD_append_right _ _ _ _ (by omega), htake,
      List.getD_append _ _ _ _ (by rw [List.length_replicate]; omega),
      getD_zeros]
  · rw [List.getD_append_right _ _ _ _ (by omega), htake,
      List.getD_append_right _ _ _ _ (by rw [List.length_replicate]; omega),
      List.length_replicate, List.getD_eq_getElem?_getD, List.getElem?_drop,
      ← List.getD_eq_getElem?_getD]
    congr 1
    omega

theorem expandFields_values {fields : List ℕ} {nfields : ℕ} (hn : nfields ≤ 8)
    (hfew : fields.length < nfields) (hnull : nullPos ≤ fields.length) :
    ∃ array, expandFields fields nullPos nfields = .ok array ∧ array.take nfields =
      fields.take nullPos ++
        (List.replicate (nfields - fields.length) 0 ++ fields.drop nullPos) := by
  have hlen : (fields ++ List.replicate (8 - fields.length) 0).length = 8 := by
    rw [List.length_append, List.length_replicate]
    omega
  have hzeros : ∀ j, (fields ++ List.replicate (8 - fields.length) 0).getD j 0 =
      fields.getD j 0 := by
    intro j
    rcases Nat.lt_or_ge j fields.length with hlt | hge
    · rw [List.getD_append _ _ _ _ hlt]
    · rw [List.getD_append_right _ _ _ _ hge, getD_zeros,
        List.getD_eq_default _ _ hge]
  have hvalues : ∀ {array : List ℕ}, array.length = 8 → (∀ j, array.getD j 0 =
      if nullPos ≤ j ∧ j < nfields - (fields.length - nullPos) then 0
      else if nfields - (fields.length - nullPos) ≤ j ∧ j < nfields then
        fields.getD (j - (nfields - fields.length)) 0
      else fields.getD j 0) → array.take nfields = fields.take nullPos ++
        (List.replicate (nfields - fields.length) 0 ++ fields.drop nullPos) := by
    intro array harray hget
    have hdrop : (fields.drop nullPos).length = fields.length - nullPos := List.length_drop
    have htake : (fields.take nullPos).length = nullPos := by
      rw [List.length_take]
      omega
    refine ext_getD ?_ fun j hj => ?_
    · rw [List.length_append, List.length_append, List.length_replicate, List.length_take]
      omega
    · rw [List.length_take] at hj
      rw [getD_opened hnull, List.getD_eq_getElem?_getD, List.getElem?_take_of_lt (by omega),
        ← List.getD_eq_getElem?_getD, hget]
      split_ifs
      all_goals first
        | rfl
        | omega
  have hexpand : expandFields fields nullPos nfields =
      (if fields.length ≠ nullPos then
        shiftFields nullPos fields.length nfields (fields ++ List.replicate (8 - fields.length) 0)
        else .ok (nfields, fields ++ List.replicate (8 - fields.length) 0)).bind
      (fun p => zeroFields nullPos p.1 p.2) := by
    rw [expandFields]
    simp only [hfew, if_true]
    split <;> rfl
  rw [hexpand]
  by_cases heq : fields.length = nullPos
  · rw [if_neg (not_not_intro heq)]
    obtain ⟨array, hzero, harray, hget⟩ := zeroFields_values (heq ▸ hfew : nullPos < nfields)
      (hn.trans hlen.ge)
    refine ⟨array, hzero, hvalues (harray.trans hlen) fun j => ?_⟩
    rw [hget, hzeros, heq, Nat.sub_self, Nat.sub_zero]
    split_ifs
    · rfl
    · omega
    · rfl
  · rw [if_pos heq]
    obtain ⟨shifted, hshift, hshifted, hmoved⟩ := shiftFields_values hfew.le
      (hn.trans hlen.ge) (lt_of_le_of_ne hnull (Ne.symm heq))
    obtain ⟨array, hzero, harray, hget⟩ :=
      @zeroFields_values nullPos (nfields - (fields.length - nullPos)) shifted (by omega)
        (by omega)
    rw [hshift]
    refine ⟨array, hzero, hvalues (harray.trans (hshifted.trans hlen)) fun j => ?_⟩
    rw [hget, hmoved, hzeros, hzeros]

end expand

section encode

theorem zeroRun_longest {seen fields : List ℕ} {longest : ℕ × ℕ} {run : ℕ}
    (h : Runs.Scanned (· = 0) seen longest run) :
    Runs.Longest (· = 0) (seen ++ fields) (zeroRun longest seen.length run fields).1
      (zeroRun longest seen.length run fields).2 := by
  induction fields generalizing seen longest run with
  | nil =>
    rw [List.append_nil, zeroRun]
    exact h.closed
  | cons f fields ih =>
    rw [List.append_cons, zeroRun]
    by_cases hf : f = 0
    · rw [if_pos hf]
      have hnext := ih (h.hit hf)
      rwa [List.length_append, List.length_singleton] at hnext
    · rw [if_neg hf]
      have hnext := ih (h.miss hf)
      rwa [List.length_append, List.length_singleton] at hnext

theorem closeRun_empty {n i run : ℕ} {longest : ℕ × ℕ} (h : longest.2 = 0 → longest.1 = n) :
    (closeRun i run longest).2 = 0 → (closeRun i run longest).1 = n := by
  rw [closeRun]
  split_ifs with hlt
  · intro hrun
    dsimp only at hrun
    omega
  · exact h

theorem zeroRun_empty {n i run : ℕ} {longest : ℕ × ℕ} {fields : List ℕ}
    (h : longest.2 = 0 → longest.1 = n) (hzero : (zeroRun longest i run fields).2 = 0) :
    (zeroRun longest i run fields).1 = n := by
  induction fields generalizing i run longest with
  | nil => exact closeRun_empty h hzero
  | cons f fields ih =>
    rw [zeroRun] at hzero ⊢
    split_ifs at hzero ⊢ with hf
    · exact ih h hzero
    · exact ih (closeRun_empty h) hzero

def longestRun (fields : List ℕ) : ℕ × ℕ := zeroRun (fields.length, 0) 0 0 fields

theorem longestRun_longest (fields : List ℕ) :
    Runs.Longest (· = 0) fields (longestRun fields).1 (longestRun fields).2 :=
  zeroRun_longest (Runs.scanned_nil fields.length)

theorem joined_flatMap (q : Bytes) (qs : List Bytes) :
    joined (q :: qs) = q ++ qs.flatMap (0x3A :: ·) := by
  induction qs generalizing q with
  | nil => simp [joined]
  | cons r qs ih => simp [joined_cons q, ih r]

theorem flatMap_writeField (fields : List ℕ) :
    fields.flatMap writeField = (fields.map hex).flatMap (0x3A :: ·) := by
  rw [List.flatMap_map]
  rfl

def compressed (fields : List ℕ) (ipv4 : Option Bytes) : Bytes :=
  let run := longestRun fields
  if run.2 ≤ 1 then joined (fields.map hex ++ ipv4.toList)
  else joined ((fields.take run.1).map hex) ++ ascii "::" ++
    joined ((fields.drop (run.1 + run.2)).map hex ++ ipv4.toList)

theorem longestRun_bound (fields : List ℕ) :
    (longestRun fields).2 = 0 ∧ (longestRun fields).1 = fields.length ∨
      0 < (longestRun fields).2 ∧
        (longestRun fields).1 + (longestRun fields).2 ≤ fields.length := by
  rcases Nat.eq_zero_or_pos (longestRun fields).2 with hzero | hpos
  · exact .inl ⟨hzero, zeroRun_empty (fun _ => rfl) hzero⟩
  · exact .inr ⟨hpos, (longestRun_longest fields).run.bound hpos⟩

theorem longestRun_zeros {fields : List ℕ} :
    (longestRun fields).2 = fields.length ↔ ∀ f ∈ fields, f = 0 := by
  constructor
  · intro h f hf
    obtain ⟨j, hj, rfl⟩ := List.mem_iff_getElem.mp hf
    have hstart : (longestRun fields).1 = 0 := by
      rcases longestRun_bound fields with ⟨hzero, -⟩ | ⟨-, hin⟩
      · omega
      · omega
    obtain ⟨x, hx, hzero⟩ := (longestRun_longest fields).run j (by omega) (by omega)
    rw [List.getElem?_eq_getElem hj, Option.mem_some_iff] at hx
    exact hx.trans hzero
  · intro h
    have hall : Runs.At (· = 0) fields 0 fields.length := by
      intro j hj hlt
      have hin : j < fields.length := by omega
      exact ⟨fields[j], List.getElem?_eq_getElem hin, h _ (List.getElem_mem hin)⟩
    have hmost := (longestRun_longest fields).most 0 _ hall
    rcases longestRun_bound fields with ⟨hzero, -⟩ | ⟨-, hin⟩ <;> omega

theorem encodeIPv6_zero {array fields : List ℕ} {nullLen : ℕ} {ipv4 : Option Bytes}
    (harray : array.take fields.length = fields) :
    encodeIPv6 array fields.length 0 nullLen ipv4 =
      0x3A :: ((fields.drop nullLen).map hex ++ ipv4.toList).flatMap (0x3A :: ·) := by
  unfold encodeIPv6
  dsimp only
  rw [harray, if_pos rfl, if_pos rfl, flatMap_writeField]
  cases ipv4 <;> simp

theorem encodeIPv6_pos {array fields : List ℕ} {nullPos nullLen : ℕ} {ipv4 : Option Bytes}
    (harray : array.take fields.length = fields) (hpos : 0 < nullPos)
    (hle : nullPos ≤ fields.length) :
    encodeIPv6 array fields.length nullPos nullLen ipv4 =
      joined ((fields.take nullPos).map hex) ++
        ((if nullPos < fields.length then [0x3A] else []) ++
          (if nullPos + nullLen = 8 ∧ nullLen ≠ 0 then [0x3A] else [])) ++
        ((fields.drop (nullPos + nullLen)).map hex ++ ipv4.toList).flatMap (0x3A :: ·) := by
  have htake : array.take nullPos = fields.take nullPos := by
    rw [← harray, List.take_take, Nat.min_eq_left hle]
  obtain ⟨f, rest, hfields⟩ := List.exists_cons_of_ne_nil
    (List.ne_nil_of_length_pos (hpos.trans_le hle))
  have hhead : array.getD 0 0 = f := by
    have := congrArg (fun l : List ℕ => l.getD 0 0) harray
    cases array with
    | nil => simp [hfields] at harray
    | cons a array => simp_all
  have hlead : hex (array.getD 0 0) ++ ((array.take nullPos).drop 1).flatMap writeField =
      joined ((fields.take nullPos).map hex) := by
    obtain ⟨k, rfl⟩ : ∃ k, nullPos = k + 1 := ⟨nullPos - 1, by omega⟩
    rw [hhead, htake, hfields, List.take_succ_cons, List.drop_one, List.tail_cons, List.map_cons,
      joined_flatMap, flatMap_writeField]
  have hne : nullPos ≠ 0 := by omega
  unfold encodeIPv6
  dsimp only
  rw [harray, if_neg hne, if_neg hne, hlead, flatMap_writeField]
  cases ipv4 <;> simp

theorem encodeIPv6_eq {array fields : List ℕ} {ipv4 : Option Bytes}
    (harray : array.take fields.length = fields)
    (hsize : fields.length = if ipv4.isSome then 6 else 8) :
    encodeIPv6 array fields.length
        (if (longestRun fields).2 = 1 then fields.length else (longestRun fields).1)
        (longestRun fields).2 ipv4 =
      if (∀ f ∈ fields, f = 0) ∧ ipv4 = none then [0x3A] else compressed fields ipv4 := by
  have hlong : fields.length = 6 ∨ fields.length = 8 := by cases ipv4 <;> simp_all
  have hplain : fields.length = 8 ↔ ipv4 = none := by cases ipv4 <;> simp_all
  have hbound := longestRun_bound fields
  have hzeros := @longestRun_zeros fields
  simp only [← hzeros]
  rw [compressed]
  rcases hrun : longestRun fields with ⟨pos, len⟩
  rw [hrun] at hbound
  dsimp only at hbound ⊢
  by_cases hshort : len ≤ 1
  · have hplace : (if len = 1 then fields.length else pos) = fields.length := by
      split_ifs
      · rfl
      · omega
    have hnot : ¬ (len = fields.length ∧ ipv4 = none) := by omega
    rw [hplace, if_neg hnot, if_pos hshort, encodeIPv6_pos harray (by omega) le_rfl,
      if_neg (lt_irrefl _), if_neg (by omega), List.take_length, List.drop_of_length_le (by omega)]
    obtain ⟨f, rest, hfields⟩ := List.exists_cons_of_ne_nil
      (List.ne_nil_of_length_pos (show 0 < fields.length by omega))
    rw [hfields, List.map_cons, List.cons_append, joined_flatMap, joined_flatMap,
      List.flatMap_append]
    simp
  · have hplace : (if len = 1 then fields.length else pos) = pos := if_neg (by omega)
    have hin : pos + len ≤ fields.length := by omega
    rw [hplace, if_neg hshort]
    have hrest : (fields.drop (pos + len)).map hex ++ ipv4.toList = [] ↔
        pos + len = fields.length ∧ ipv4 = none := by
      rw [List.append_eq_nil_iff, List.map_eq_nil_iff, List.drop_eq_nil_iff]
      cases ipv4 with
      | none =>
        simp only [Option.toList_none, and_true]
        omega
      | some text => simp
    rcases Nat.eq_zero_or_pos pos with rfl | hpos
    · rw [encodeIPv6_zero harray]
      rw [Nat.zero_add] at hrest ⊢
      by_cases hall : len = fields.length ∧ ipv4 = none
      · rw [if_pos hall, hrest.mpr hall]
        rfl
      · rw [if_neg hall]
        obtain ⟨q, qs, hcons⟩ := List.exists_cons_of_ne_nil (fun hnil => hall (hrest.mp hnil))
        rw [hcons, joined_flatMap]
        rfl
    · rw [encodeIPv6_pos harray hpos (by omega), if_pos (by omega)]
      have hnot : ¬ (len = fields.length ∧ ipv4 = none) := by omega
      rw [if_neg hnot]
      by_cases hall : pos + len = fields.length ∧ ipv4 = none
      · have h8 := hplain.mpr hall.2
        rw [hrest.mpr hall, if_pos (by omega)]
        simp [joined, ascii]
      · obtain ⟨q, qs, hcons⟩ := List.exists_cons_of_ne_nil (fun hnil => hall (hrest.mp hnil))
        have hfull : ¬ (pos + len = 8 ∧ len ≠ 0) := by
          rintro ⟨h8, -⟩
          have hend : fields.length = 8 := by omega
          exact hall ⟨by omega, hplain.mp hend⟩
        rw [hcons, joined_flatMap, if_neg hfull]
        simp [ascii]

end encode

section hex

theorem getHexDigit_digitChar {d : ℕ} (h : d < 16) :
    getHexDigit (UInt8.ofNat (Nat.digitChar d).toNat) = some (UInt8.ofNat d) := by
  have hall : ∀ d : Fin 16, getHexDigit (UInt8.ofNat (Nat.digitChar d).toNat) =
      some (UInt8.ofNat d) := by decide
  exact hall ⟨d, h⟩

theorem hex_of_lt {n : ℕ} (h : n < 16) : hex n = [UInt8.ofNat (Nat.digitChar n).toNat] := by
  rw [hex, Nat.toDigits_of_lt_base h]
  rfl

theorem hex_of_le {n : ℕ} (h : 16 ≤ n) :
    hex n = hex (n / 16) ++ [UInt8.ofNat (Nat.digitChar (n % 16)).toNat] := by
  rw [hex, Nat.toDigits_of_base_le (by decide) h, List.map_append]
  rfl

theorem pushDigit_digitChar {field d : ℕ} (h : d < 16) (hfield : field * 16 + d < 2 ^ 16) :
    pushDigit field (UInt8.ofNat (Nat.digitChar d).toNat) = field * 16 + d := by
  rw [pushDigit, getHexDigit_digitChar h]
  dsimp only
  rw [UInt8.toNat_ofNat', Nat.mod_eq_of_lt (by omega : d < 2 ^ 8), Nat.mod_eq_of_lt hfield]

theorem pieceValue_hex {n : ℕ} (h : n < 2 ^ 16) : pieceValue (hex n) = n := by
  induction n using Nat.strongRecOn with
  | _ n ih =>
    rcases Nat.lt_or_ge n 16 with hlt | hge
    · rw [hex_of_lt hlt]
      exact (pushDigit_digitChar hlt (by omega)).trans (by omega)
    · rw [hex_of_le hge, pieceValue, List.foldl_append]
      have hprev : (hex (n / 16)).foldl pushDigit 0 = n / 16 := ih (n / 16) (by omega) (by omega)
      rw [hprev]
      exact (pushDigit_digitChar (by omega) (by omega)).trans (by omega)

theorem isHexdigit_hex (n : ℕ) : ∀ c ∈ hex n, isHexdigit c = true := by
  induction n using Nat.strongRecOn with
  | _ n ih =>
    have hdigit : ∀ d : Fin 16, isHexdigit (UInt8.ofNat (Nat.digitChar d).toNat) = true := by
      decide
    rcases Nat.lt_or_ge n 16 with hlt | hge
    · rw [hex_of_lt hlt]
      intro c hc
      rw [List.mem_singleton] at hc
      exact hc ▸ hdigit ⟨n, hlt⟩
    · rw [hex_of_le hge]
      intro c hc
      rcases List.mem_append.mp hc with hc | hc
      · exact ih (n / 16) (by omega) c hc
      · rw [List.mem_singleton] at hc
        exact hc ▸ hdigit ⟨n % 16, Nat.mod_lt _ (by decide)⟩

theorem digits_hex {n : ℕ} (h : n < 2 ^ 16) : Digits (hex n) := by
  refine ⟨?_, isHexdigit_hex n⟩
  rw [hex, List.length_map, Nat.length_toDigits_le_iff (by decide) (by decide)]
  exact h

theorem hex_ne_nil (n : ℕ) : hex n ≠ [] := by
  rw [hex, ne_eq, List.map_eq_nil_iff]
  exact Nat.toDigits_ne_nil

end hex

section finish

variable {qs ends : List Bytes} {ipv4 : Option Bytes}

inductive Denotes (size : ℕ) : List Bytes → List ℕ → Prop where
  | full {pieces : List Bytes} (hempty : [] ∉ pieces) (hsize : pieces.length = size) :
      Denotes size pieces (pieces.map pieceValue)
  | gap {before after : List Bytes} (hbefore : [] ∉ before) (hafter : [] ∉ after)
      (hroom : before.length + after.length < size) :
      Denotes size (before ++ [] :: after) (before.map pieceValue ++
        (List.replicate (size - (before.length + after.length)) 0 ++ after.map pieceValue))

variable {size : ℕ} {qs ends : List Bytes} {fields : List ℕ} {ipv4 : Option Bytes}

theorem Denotes.length (h : Denotes size qs fields) : fields.length = size := by
  cases h with
  | full hempty hsize => rw [List.length_map, hsize]
  | gap hbefore hafter hroom =>
    simp only [List.length_append, List.length_map, List.length_replicate]
    omega

theorem Denotes.pieces (h : Denotes size qs fields) : qs.length ≤ size := by
  cases h with
  | full hempty hsize => exact hsize.le
  | gap hbefore hafter hroom =>
    rw [List.length_append, List.length_cons]
    omega

theorem Denotes.nonempty (h : Denotes size [] fields) : size = 0 := by
  generalize hqs : ([] : List Bytes) = qs at h
  cases h with
  | full hempty hsize =>
    subst hqs
    exact hsize.symm
  | gap hbefore hafter hroom => simp at hqs

theorem filter_nonempty (h : [] ∉ qs) : qs.filter (· != []) = qs := by
  refine List.filter_eq_self.mpr fun q hq => ?_
  rw [bne_iff_ne]
  rintro rfl
  exact h hq

def Decoded (size : ℕ) (qs : List Bytes) (fields : List ℕ) : Prop :=
  ∀ ends, ∃ vs nullPos array,
    decodeFields 0 (qs.tails.map (fun t => joined (t ++ ends))) [] 8 = .ok (vs, nullPos) ∧
      expandFields vs nullPos size = .ok array ∧ array.take size = fields

theorem digitGroups_eq (qs : List Bytes) : digitGroups qs = (qs.filter (· != [])).length :=
  List.countP_eq_length_filter

theorem filter_gap {before after : List Bytes} (hbefore : [] ∉ before) (hafter : [] ∉ after) :
    (before ++ [] :: after).filter (· != []) = before ++ after := by
  rw [List.filter_append, filter_nonempty hbefore, List.filter_cons_of_neg (by simp),
    filter_nonempty hafter]

theorem decoded_pieces (hn : size ≤ 8) (hdigits : ∀ x ∈ qs, Digits x)
    (h : Denotes size qs fields) : Decoded size qs fields := by
  intro ends
  cases h with
  | full hempty hsize =>
    have hdecode := @decodeFields_pieces qs ends 0 8 [] hdigits
      (by rw [digitGroups_eq, filter_nonempty hempty, List.length_nil]; omega)
    rw [filter_nonempty hempty, List.nil_append] at hdecode
    refine ⟨_, _, _, hdecode, if_neg ?_, ?_⟩
    · rw [List.length_map]
      omega
    · rw [List.take_left' (by rw [List.length_map]; exact hsize)]
  | @gap before after hbefore hafter hgap =>
    have hdecode := @decodeFields_pieces (before ++ [] :: after) ends 0 8 [] hdigits
      (by
        rw [digitGroups_eq, filter_gap hbefore hafter, List.length_nil, List.length_append]
        omega)
    rw [filter_gap hbefore hafter, List.nil_append, lastEmpty_append hafter, Nat.zero_add]
      at hdecode
    obtain ⟨array, hexpand, hvalues⟩ := @expandFields_values before.length
      ((before ++ after).map pieceValue) size hn
      (by rw [List.length_map, List.length_append]; omega)
      (by rw [List.length_map, List.length_append]; omega)
    refine ⟨_, _, array, hdecode, hexpand, hvalues.trans ?_⟩
    rw [List.map_append, List.take_left' (List.length_map _), List.drop_left' (List.length_map _),
      List.length_append, List.length_map, List.length_map]

theorem decoded_slack {before after : List Bytes} (hbefore : [] ∉ before) (hafter : [] ∉ after)
    (hdigits : ∀ x ∈ before ++ [] :: after, Digits x) (hsize : before.length + after.length = size)
    (hn : size ≤ 8) :
    Decoded size (before ++ [] :: after) ((before ++ after).map pieceValue) := by
  intro ends
  have hdecode := @decodeFields_pieces (before ++ [] :: after) ends 0 8 [] hdigits
    (by rw [digitGroups_eq, filter_gap hbefore hafter, List.length_nil, List.length_append]; omega)
  rw [filter_gap hbefore hafter, List.nil_append] at hdecode
  refine ⟨_, _, _, hdecode, if_neg ?_, ?_⟩
  · rw [List.length_map, List.length_append]
    omega
  · rw [List.take_left' (by rw [List.length_map, List.length_append, hsize])]

theorem finishIPv6_decoded (hsize : fields.length = if ipv4.isSome then 6 else 8)
    (h : Decoded fields.length qs fields) :
    finishIPv6 (qs.tails.map (fun t => joined (t ++ ends))) ipv4 fields.length =
      .ok (if (∀ f ∈ fields, f = 0) ∧ ipv4 = none then [0x3A] else compressed fields ipv4) := by
  obtain ⟨vs, nullPos, array, hdecode, hexpand, hvalues⟩ := h ends
  rw [← encodeIPv6_eq hvalues hsize]
  show (decodeFields 0 _ [] 8).bind _ = _
  rw [hdecode]
  show (expandFields vs nullPos fields.length).bind _ = _
  rw [hexpand]
  show Except.ok _ = _
  rw [hvalues]
  rfl

end finish

end Url
end GWSockets
