import GWSockets.Library.Checked
import GWSockets.Url
import Mathlib.Data.List.Chain
import Mathlib.Data.List.TakeWhile

namespace GWSockets

namespace Url

-- The literal from each of its groups but the first to its end.
def colonTails : Bytes → List Bytes
  | [] => []
  | c :: p => if c = 0x3A then p :: colonTails p else colonTails p

def group (text : Bytes) : Bytes := text.takeWhile (· != 0x3A)

def used (t : Bytes) : List Bytes :=
  let texts := trimColons t :: colonTails (trimColons t)
  if texts.length ≤ 8 then texts else texts.dropLast

def hasTail (t : Bytes) : Bool := 5 < ((used t).getLastD []).length

def groups (t : Bytes) : List Bytes :=
  (if hasTail t then (used t).dropLast else used t).map group

def digitGroups (groups : List Bytes) : Nat := groups.countP (· != [])

structure Expands (groups : List Bytes) (nfields : Nat) : Prop where
  room : digitGroups groups ≤ 8
  gap : nfields ≤ digitGroups groups ∨ ∃ before after,
    groups = before ++ [] :: after ∧ [] ∉ after ∧ before.length ≤ digitGroups groups

structure InBounds (t : Bytes) : Prop where
  colons : (colonTails (trimColons t)).length < 10
  expands : Expands (groups t) (if hasTail t then 6 else 8)

section tokens

variable {p b : Bytes} {tokens : List Bytes}

theorem store_eq {α : Type} {size : Nat} {array : List α} {x : α} (h : array.length < size) :
    store size array x = .ok (array ++ [x]) := if_pos h

theorem store_full {α : Type} {size : Nat} {array : List α} {x : α} (h : size ≤ array.length) :
    store size array x = .error .outOfBounds := if_neg (not_lt.mpr h)

theorem tokenLoop_eq (h : tokens.length ≤ 10) : tokenLoop p b tokens =
    if tokens.length + (colonTails p).length ≤ 10 then
      .ok (tokens ++ (b :: colonTails p).dropLast, (b :: colonTails p).getLastD [])
    else .error .outOfBounds := by
  induction p generalizing b tokens with
  | nil =>
    have hroom : tokens.length + (colonTails []).length ≤ 10 := h
    rw [tokenLoop, if_pos hroom]
    simp [colonTails]
  | cons c p ih =>
    rw [tokenLoop]
    by_cases hc : c = 0x3A
    · rw [if_pos hc]
      have htails : colonTails (c :: p) = p :: colonTails p := if_pos hc
      by_cases hroom : tokens.length < 10
      · rw [store_eq hroom]
        show tokenLoop p p (tokens ++ [b]) = _
        rw [ih (by rw [List.length_append]; exact hroom), htails]
        simp only [List.length_append, List.length_cons, List.length_nil, List.dropLast_cons_cons,
          List.append_assoc, List.singleton_append, List.getLastD_cons]
        congr 2
        omega
      · rw [store_full (not_lt.mp hroom), if_neg]
        · rfl
        · rw [htails, List.length_cons]
          omega
    · rw [if_neg hc, ih h]
      have htails : colonTails (c :: p) = colonTails p := if_neg hc
      rw [htails]

theorem splitColons_eq : splitColons p =
    if (colonTails p).length < 10 then
      .ok ((if (p :: colonTails p).length ≤ 8 then p :: colonTails p
        else (p :: colonTails p).dropLast) ++ [[]])
    else .error .outOfBounds := by
  have hlen : (p :: colonTails p).dropLast.length = (colonTails p).length := by simp
  have hsnoc : (p :: colonTails p).dropLast ++ [(p :: colonTails p).getLastD []] =
      p :: colonTails p := by
    rw [List.getLastD_eq_getLast?, List.getLast?_eq_getLast_of_ne_nil (List.cons_ne_nil _ _)]
    exact List.dropLast_append_getLast (List.cons_ne_nil _ _)
  show (tokenLoop p p []).bind _ = _
  rw [tokenLoop_eq (Nat.zero_le _)]
  by_cases h10 : (colonTails p).length ≤ 10
  · rw [if_pos (by simpa using h10), List.nil_append]
    show (if (p :: colonTails p).dropLast.length < 8 then
      (store 10 (p :: colonTails p).dropLast _).bind (fun t => store 10 t [])
      else store 10 (p :: colonTails p).dropLast []) = _
    rw [hlen]
    by_cases h8 : (colonTails p).length < 8
    · have hfew : (p :: colonTails p).length ≤ 8 := h8
      have hstore : ∀ x, store 10 (p :: colonTails p).dropLast x =
          .ok ((p :: colonTails p).dropLast ++ [x]) := fun x => store_eq (by omega)
      rw [if_pos h8, hstore, hsnoc]
      show store 10 (p :: colonTails p) [] = _
      rw [store_eq (by omega), if_pos (by omega), if_pos hfew]
    · have hmany : ¬ (p :: colonTails p).length ≤ 8 := by
        rw [List.length_cons]
        omega
      rw [if_neg h8, if_neg hmany]
      by_cases h9 : (colonTails p).length < 10
      · rw [store_eq (by omega), if_pos h9]
      · rw [store_full (by omega), if_neg h9]
  · rw [if_neg (by simpa using h10), if_neg (by omega)]
    rfl

end tokens

section fields

variable {tokens : List Bytes} {fields : List Nat} {i nullPos : Nat}

def lastEmpty : Nat → List Bytes → Nat → Nat
  | _, [], nullPos => nullPos
  | i, g :: groups, nullPos => lastEmpty (i + 1) groups (if g = [] then i else nullPos)

theorem lastEmpty_of_not_mem {gs : List Bytes} (h : [] ∉ gs) :
    lastEmpty i gs nullPos = nullPos := by
  induction gs generalizing i with
  | nil => rfl
  | cons g gs ih =>
    obtain ⟨hg, hgs⟩ : g ≠ [] ∧ [] ∉ gs := by simpa [eq_comm] using h
    rw [lastEmpty, if_neg hg, ih hgs]

theorem lastEmpty_append {before after : List Bytes} (h : [] ∉ after) :
    lastEmpty i (before ++ [] :: after) nullPos = i + before.length := by
  induction before generalizing i nullPos with
  | nil =>
    rw [List.nil_append, lastEmpty, if_pos rfl, lastEmpty_of_not_mem h]
    rfl
  | cons g before ih =>
    rw [List.cons_append, lastEmpty, ih, List.length_cons]
    omega

theorem exists_last_empty {gs : List Bytes} (h : [] ∈ gs) :
    ∃ before after, gs = before ++ [] :: after ∧ [] ∉ after := by
  induction gs with
  | nil => cases h
  | cons g gs ih =>
    by_cases hgs : [] ∈ gs
    · obtain ⟨before, after, rfl, hafter⟩ := ih hgs
      exact ⟨g :: before, after, rfl, hafter⟩
    · obtain rfl : [] = g := (List.mem_cons.mp h).resolve_right hgs
      exact ⟨[], gs, rfl, hgs⟩

theorem lastEmpty_le_iff {gs : List Bytes} {n : Nat} (hn : n < 8) :
    lastEmpty 0 gs 8 ≤ n ↔
      ∃ before after, gs = before ++ [] :: after ∧ [] ∉ after ∧ before.length ≤ n := by
  constructor
  · intro h
    by_cases hempty : [] ∈ gs
    · obtain ⟨before, after, rfl, hafter⟩ := exists_last_empty hempty
      rw [lastEmpty_append hafter] at h
      exact ⟨before, after, rfl, hafter, by omega⟩
    · rw [lastEmpty_of_not_mem hempty] at h
      omega
  · rintro ⟨before, after, rfl, hafter, hlen⟩
    rw [lastEmpty_append hafter]
    omega

def Pointers (tokens : List Bytes) : Prop := tokens.IsChain (fun p next => p = next ↔ p = [])

theorem null_iff {p next : Bytes} (h : p = next ↔ p = []) :
    (p = next ∨ p.head? = some 0x3A) ↔ group p = [] := by
  rw [h]
  cases p with
  | nil => simp [group]
  | cons c p => by_cases hc : c = 0x3A <;> simp [group, hc]

theorem decodeFields_eq (i nullPos : Nat) (fields : List Nat) (h : Pointers tokens)
    (hroom : fields.length ≤ 8) :
    if fields.length + digitGroups (tokens.dropLast.map group) ≤ 8 then
      ∃ fs, decodeFields i tokens fields nullPos =
          .ok (fs, lastEmpty i (tokens.dropLast.map group) nullPos) ∧
        fs.length = fields.length + digitGroups (tokens.dropLast.map group)
    else decodeFields i tokens fields nullPos = .error .outOfBounds := by
  induction tokens generalizing i fields nullPos with
  | nil => simp [decodeFields, digitGroups, lastEmpty, hroom]
  | cons p tokens ih =>
    cases tokens with
    | nil => simp [decodeFields, digitGroups, lastEmpty, hroom]
    | cons next tokens =>
      obtain ⟨hp, htail⟩ := List.isChain_cons_cons.mp h
      rw [List.dropLast_cons_cons, List.map_cons, decodeFields]
      by_cases hnull : group p = []
      · rw [if_pos ((null_iff hp).mpr hnull), digitGroups,
          List.countP_cons_of_neg (by simp [hnull]), lastEmpty, if_pos hnull]
        exact ih (i + 1) i fields htail hroom
      · rw [if_neg (fun hn => hnull ((null_iff hp).mp hn)), digitGroups,
          List.countP_cons_of_pos (by simp [hnull]), lastEmpty, if_neg hnull]
        by_cases hfull : fields.length < 8
        · rw [store_eq hfull]
          have hnext := ih (i + 1) nullPos (fields ++ [hexField next 0 p]) htail
            (by rw [List.length_append]; exact hfull)
          rw [List.length_append, List.length_singleton, add_assoc, add_comm 1] at hnext
          exact hnext
        · rw [store_full (not_lt.mp hfull), if_neg (by omega)]
          rfl

theorem length_colonTails {s q : Bytes} (h : q ∈ colonTails s) : q.length < s.length := by
  induction s with
  | nil => cases h
  | cons c s ih =>
    rw [colonTails] at h
    rw [List.length_cons]
    split at h
    · rcases List.mem_cons.mp h with rfl | h
      · omega
      · have := ih h
        omega
    · have := ih h
      omega

theorem tails_pairwise (s : Bytes) :
    (s :: colonTails s).Pairwise (fun p q => q.length < p.length) := by
  refine List.pairwise_cons.mpr ⟨fun q hq => length_colonTails hq, ?_⟩
  induction s with
  | nil => exact List.Pairwise.nil
  | cons c s ih =>
    rw [colonTails]
    split
    · exact List.pairwise_cons.mpr ⟨fun q hq => length_colonTails hq, ih⟩
    · exact ih

theorem pointers_used (t : Bytes) : Pointers (used t) := by
  have hpair : (used t).Pairwise (fun p q => q.length < p.length) := by
    unfold used
    dsimp only
    split
    · exact tails_pairwise _
    · exact (tails_pairwise _).sublist (List.dropLast_sublist _)
  refine hpair.isChain.imp fun p q h => ?_
  constructor
  · rintro rfl
    exact absurd h (lt_irrefl _)
  · rintro rfl
    cases h

theorem pointers_used_end (t : Bytes) : Pointers (used t ++ [[]]) :=
  List.isChain_append.mpr ⟨pointers_used t, List.isChain_singleton _,
    fun p _ q hq => by
      obtain rfl : [] = q := by simpa using hq
      rfl⟩

end fields

section expand

variable {nullPos i last : Nat} {array : List Nat}

theorem shiftFields_eq (nullPos : Nat) (array : List Nat) (h : i ≤ last) :
    if nullPos < i then ∃ array', shiftFields nullPos i last array =
        .ok (last - (i - nullPos), array') ∧ array'.length = array.length
    else shiftFields nullPos i last array = .error .outOfBounds := by
  induction i generalizing last array with
  | zero => simp [shiftFields]
  | succ i ih =>
    obtain ⟨last, rfl⟩ : ∃ l, last = l + 1 := ⟨last - 1, by omega⟩
    rw [shiftFields]
    by_cases hi : i = nullPos
    · subst hi
      rw [if_pos rfl, if_pos (Nat.lt_succ_self i)]
      exact ⟨array.set last (array.getD i 0), by simp, List.length_set⟩
    · rw [if_neg hi]
      have hnext := ih (array.set last (array.getD i 0)) (Nat.le_of_succ_le_succ h)
      by_cases hlt : nullPos < i
      · rw [if_pos hlt] at hnext
        rw [if_pos (by omega)]
        obtain ⟨array', heq, hlen⟩ := hnext
        refine ⟨array', ?_, by rw [hlen, List.length_set]⟩
        rw [heq]
        congr 2
        omega
      · rw [if_neg hlt] at hnext
        rw [if_neg (by omega), hnext]

theorem zeroFields_eq (array : List Nat) (h : nullPos < last) :
    ∃ array', zeroFields nullPos last array = .ok array' ∧ array'.length = array.length := by
  induction last generalizing array with
  | zero => omega
  | succ last ih =>
    rw [zeroFields]
    by_cases hl : last = nullPos
    · rw [if_pos hl]
      exact ⟨_, rfl, List.length_set ..⟩
    · rw [if_neg hl]
      obtain ⟨array', heq, hlen⟩ := ih (array.set last 0) (by omega)
      exact ⟨array', heq, by rw [hlen, List.length_set]⟩

theorem expandFields_eq (nullPos nfields : Nat) {fields : List Nat} (h8 : fields.length ≤ 8) :
    if nfields ≤ fields.length ∨ nullPos ≤ fields.length then
      ∃ array, expandFields fields nullPos nfields = .ok array ∧ array.length = 8
    else expandFields fields nullPos nfields = .error .outOfBounds := by
  have hlen : (fields ++ List.replicate (8 - fields.length) 0).length = 8 := by
    rw [List.length_append, List.length_replicate]
    omega
  by_cases hmany : nfields ≤ fields.length
  · rw [if_pos (.inl hmany)]
    refine ⟨_, ?_, hlen⟩
    rw [expandFields]
    exact if_neg (not_lt.mpr hmany)
  · have hfew : fields.length < nfields := not_le.mp hmany
    have hexpand : expandFields fields nullPos nfields =
        (if fields.length ≠ nullPos then
          shiftFields nullPos fields.length nfields (fields ++ List.replicate (8 - fields.length) 0)
          else .ok (nfields, fields ++ List.replicate (8 - fields.length) 0)).bind
        (fun p => zeroFields nullPos p.1 p.2) := by
      rw [expandFields]
      simp only [hfew, if_true]
      split <;> rfl
    rw [hexpand]
    by_cases heq : fields.length = nullPos
    · rw [if_neg (not_not_intro heq), if_pos (.inr heq.ge)]
      obtain ⟨array, hzero, harray⟩ := zeroFields_eq
        (fields ++ List.replicate (8 - fields.length) 0) (heq ▸ hfew : nullPos < nfields)
      exact ⟨array, hzero, harray.trans hlen⟩
    · rw [if_pos heq]
      have hshift := shiftFields_eq nullPos
        (fields ++ List.replicate (8 - fields.length) 0) hfew.le
      by_cases hlt : nullPos < fields.length
      · rw [if_pos hlt] at hshift
        rw [if_pos (.inr hlt.le)]
        obtain ⟨array, heq', harray⟩ := hshift
        have hlast : nullPos < nfields - (fields.length - nullPos) := by omega
        obtain ⟨array', hzero, harray'⟩ := zeroFields_eq array hlast
        rw [heq']
        exact ⟨array', hzero, by rw [harray', harray, hlen]⟩
      · rw [if_neg hlt] at hshift
        rw [if_neg (by omega), hshift]
        rfl

end expand

section encode

theorem colon_mem_writeField (field : Nat) : 0x3A ∈ writeField field := List.mem_cons_self

theorem colon_mem_encodeIPv6 {fields : List Nat} {nfields nullPos nullLen : Nat}
    {ipv4 : Option Bytes} (hlen : fields.length = 8) (hn : 6 ≤ nfields) :
    0x3A ∈ encodeIPv6 fields nfields nullPos nullLen ipv4 := by
  refine List.mem_append_left _ (List.mem_append_left _ ?_)
  by_cases hzero : nullPos = 0
  · rw [if_pos hzero]
    exact List.mem_singleton_self _
  · rw [if_neg hzero]
    refine List.mem_append_left _ ?_
    by_cases hlt : nullPos < nfields
    · rw [if_pos hlt]
      exact List.mem_append_right _ (List.mem_singleton_self _)
    · refine List.mem_append_left _ (List.mem_append_right _ ?_)
      have hpos : 0 < ((fields.take nullPos).drop 1).length := by
        rw [List.length_drop, List.length_take]
        omega
      obtain ⟨field, hfield⟩ := List.exists_mem_of_length_pos hpos
      exact List.mem_flatMap.mpr ⟨field, hfield, colon_mem_writeField field⟩

end encode

section normalize

variable {t : Bytes}

def Fits (t : Bytes) : Prop := t = ascii "::" ∨ InBounds t

theorem gap_iff {gs : List Bytes} {nfields : Nat} (hn : nfields ≤ 8) :
    (nfields ≤ digitGroups gs ∨ lastEmpty 0 gs 8 ≤ digitGroups gs) ↔
      (nfields ≤ digitGroups gs ∨ ∃ before after,
        gs = before ++ [] :: after ∧ [] ∉ after ∧ before.length ≤ digitGroups gs) := by
  by_cases hmany : nfields ≤ digitGroups gs
  · simp [hmany]
  · rw [lastEmpty_le_iff (by omega)]

theorem finishIPv6_eq {tokens gs : List Bytes} (ipv4 : Option Bytes) {nfields : Nat}
    (htokens : Pointers tokens) (hgroups : tokens.dropLast.map group = gs)
    (hn : 6 ≤ nfields ∧ nfields ≤ 8) :
    (Expands gs nfields →
        ∃ host, finishIPv6 tokens ipv4 nfields = .ok host ∧ 0x3A ∈ host) ∧
      (¬ Expands gs nfields → finishIPv6 tokens ipv4 nfields = .error .outOfBounds) := by
  have hdecode := decodeFields_eq 0 8 [] htokens (Nat.zero_le _)
  rw [hgroups, List.length_nil, Nat.zero_add] at hdecode
  by_cases hroom : digitGroups gs ≤ 8
  · rw [if_pos hroom] at hdecode
    obtain ⟨fields, hfields, hlen⟩ := hdecode
    have hexpand := expandFields_eq (lastEmpty 0 gs 8) nfields (hlen.trans_le hroom)
    have hgap := @gap_iff gs nfields hn.2
    rw [hlen] at hexpand
    have hfinish : finishIPv6 tokens ipv4 nfields =
        (expandFields fields (lastEmpty 0 gs 8) nfields).bind fun fields =>
          let run := zeroRun (nfields, 0) 0 0 (fields.take nfields)
          .ok (encodeIPv6 fields nfields (if run.2 = 1 then nfields else run.1) run.2 ipv4) := by
      show (decodeFields 0 tokens [] 8).bind _ = _
      rw [hfields]
      rfl
    refine ⟨fun h => ?_, fun h => ?_⟩
    · rw [if_pos (hgap.mpr h.gap)] at hexpand
      obtain ⟨array, harray, harray8⟩ := hexpand
      rw [hfinish, harray]
      exact ⟨_, rfl, colon_mem_encodeIPv6 harray8 hn.1⟩
    · rw [if_neg (fun hg => h ⟨hroom, hgap.mp hg⟩)] at hexpand
      rw [hfinish, hexpand]
      rfl
  · rw [if_neg hroom] at hdecode
    refine ⟨fun h => absurd h.room hroom, fun _ => ?_⟩
    show (decodeFields 0 tokens [] 8).bind _ = _
    rw [hdecode]
    rfl

theorem normalizeIPv6_eq (h : isIPv6 t = true) :
    (Fits t → ∃ host, normalizeIPv6 t = .ok host ∧ 0x3A ∈ host) ∧
      (¬ Fits t → normalizeIPv6 t = .error .outOfBounds) := by
  by_cases hnull : t = ascii "::"
  · refine ⟨fun _ => ⟨t, ?_, by rw [hnull]; decide⟩, fun hf => absurd (.inl hnull) hf⟩
    rw [normalizeIPv6, h, if_pos hnull]
    rfl
  · have hfits : Fits t ↔ InBounds t := or_iff_right hnull
    have hnorm : normalizeIPv6 t = (splitColons (trimColons t)).bind fun tokens =>
        if 5 < (tokens.dropLast.getLastD []).length then
          finishIPv6 tokens.dropLast (some (tokens.dropLast.getLastD [])) 6
        else finishIPv6 tokens none 8 := by
      rw [normalizeIPv6, h, if_neg hnull]
      rfl
    rw [hfits, hnorm, splitColons_eq]
    by_cases hcolons : (colonTails (trimColons t)).length < 10
    · rw [if_pos hcolons]
      have hbounds : InBounds t ↔ Expands (groups t) (if hasTail t then 6 else 8) :=
        ⟨fun hb => hb.expands, fun he => ⟨hcolons, he⟩⟩
      have hbody : Except.bind (.ok (used t ++ [[]])) (fun tokens =>
          if 5 < (tokens.dropLast.getLastD []).length then
            finishIPv6 tokens.dropLast (some (tokens.dropLast.getLastD [])) 6
          else finishIPv6 tokens none 8) =
          if hasTail t = true then finishIPv6 (used t) (some ((used t).getLastD [])) 6
          else finishIPv6 (used t ++ [[]]) none 8 := by
        simp [Except.bind, hasTail]
      show (InBounds t → ∃ host, Except.bind (.ok (used t ++ [[]])) _ = _ ∧ _) ∧
        (_ → Except.bind (.ok (used t ++ [[]])) _ = _)
      rw [hbody, hbounds]
      cases htail : hasTail t with
      | true =>
        exact finishIPv6_eq _ (pointers_used t) (by simp [groups, htail]) ⟨le_rfl, by decide⟩
      | false =>
        exact finishIPv6_eq _ (pointers_used_end t) (by simp [groups, htail])
          ⟨by decide, le_rfl⟩
    · rw [if_neg hcolons]
      exact ⟨fun hb => absurd hb.colons hcolons, fun _ => rfl⟩

theorem colonTails_of_not_mem (h : 0x3A ∉ t) : colonTails t = [] := by
  induction t with
  | nil => rfl
  | cons c t ih =>
    obtain ⟨hc, ht⟩ : 0x3A ≠ c ∧ 0x3A ∉ t := by simpa using h
    rw [colonTails, if_neg hc.symm, ih ht]

theorem trimColons_of_not_mem (h : 0x3A ∉ t) : trimColons t = t := by
  have hhead : t.head? ≠ some 0x3A := fun hh => h (List.mem_of_mem_head? hh)
  have hlast : t.getLast? ≠ some 0x3A := fun hl => h (List.mem_of_getLast? hl)
  rw [trimColons, if_neg hhead, if_neg hlast]

theorem colon_mem_of_fits (ht : t ≠ []) (h : Fits t) : 0x3A ∈ t := by
  by_contra hcolon
  rcases h with rfl | h
  · exact hcolon (by decide)
  have hused : used t = [t] := by
    simp [used, trimColons_of_not_mem hcolon, colonTails_of_not_mem hcolon]
  have hgroup : group t = t :=
    List.takeWhile_eq_self_iff.mpr fun c hc => bne_iff_ne.mpr fun he => hcolon (he ▸ hc)
  have hgap := h.expands.gap
  cases htail : hasTail t with
  | true => simp [groups, hused, htail, digitGroups] at hgap
  | false =>
    simp only [groups, hused, htail, Bool.false_eq_true, if_false, List.map_cons, hgroup,
      List.map_nil, digitGroups, List.countP_singleton] at hgap
    rcases hgap with hmany | ⟨before, after, heq, -⟩
    · split at hmany <;> omega
    · have hmem : [] ∈ [t] := heq ▸ List.mem_append_right _ List.mem_cons_self
      exact ht (List.mem_singleton.mp hmem).symm

end normalize

end Url
end GWSockets
