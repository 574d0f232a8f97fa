import GWSockets.Address
import GWSockets.Library.Delimited

namespace GWSockets

namespace Url

section validity

def uintDot (s : Bytes) : Option Bytes :=
  match isUint s 255 with
  | some (c :: s) => if c = 0x2E then some s else none
  | _ => none

def isValidIPv4 (s : Bytes) : Bool :=
  match ((uintDot s).bind uintDot).bind uintDot with
  | some s => isUint s 255 == some []
  | none => false

def ipv6Counts (nullField : Bool) (nfields : Nat) : Bool :=
  (!nullField && nfields == 8) || (nullField && nfields < 8)

-- b is where the current group starts, and p, the list, where the scan is.
def ipv6Loop (s : Bytes) (nullField : Bool) (b : Bytes) (nfields ndigits : Nat) : Bytes → Bool
  | [] =>
      if 0 < ndigits then ipv6Counts nullField (nfields + 1)
      else if s.getLast? = some 0x3A then
        s.dropLast.getLast? == some 0x3A && nfields < 8
      else ipv6Counts nullField nfields
  | c :: p =>
      if c = 0x2E then
        ((!nullField && nfields == 6) || (nullField && nfields < 7)) && isValidIPv4 b
      else if c = 0x3A then
        if ndigits = 0 then
          if nullField then false else ipv6Loop s true p nfields 0 p
        else ipv6Loop s nullField p (nfields + 1) 0 p
      else if 4 < ndigits + 1 ∨ isHexdigit c = false then false
      else ipv6Loop s nullField b nfields (ndigits + 1) p

def isValidIPv6 (s : Bytes) : Bool :=
  if 39 < s.length ∨ s.length < 2 then false
  else if s.head? = some 0x3A then
    if s.tail.head? ≠ some 0x3A then false
    else if s.drop 2 = [] then true
    else ipv6Loop s true (s.drop 2) 0 0 (s.drop 2)
  else ipv6Loop s false s 0 0 s

end validity

-- A number as is_uint takes it, whose value wraps at 32 bits.
structure Octet where
  text : Bytes
  digits : ∀ c ∈ text, isNum c = true
  nonempty : text ≠ []
  plain : text.head? = some 0x30 → text = [0x30]
  small : decimalValue text % 2 ^ 32 ≤ 255

structure Dotted where
  a : Octet
  b : Octet
  c : Octet
  d : Octet

def Dotted.spell (q : Dotted) : Bytes :=
  q.a.text ++ 0x2E :: (q.b.text ++ 0x2E :: (q.c.text ++ 0x2E :: q.d.text))

namespace Dotted

theorem chars (q : Dotted) : ∀ c ∈ q.spell, c = 0x2E ∨ isNum c = true := by
  intro c hc
  simp only [spell, List.mem_append, List.mem_cons] at hc
  rcases hc with h | rfl | h | rfl | h | rfl | h
  · exact .inr (q.a.digits c h)
  · exact .inl rfl
  · exact .inr (q.b.digits c h)
  · exact .inl rfl
  · exact .inr (q.c.digits c h)
  · exact .inl rfl
  · exact .inr (q.d.digits c h)

theorem long (q : Dotted) : 5 < q.spell.length := by
  have ha := List.length_pos_iff.mpr q.a.nonempty
  have hb := List.length_pos_iff.mpr q.b.nonempty
  have hc := List.length_pos_iff.mpr q.c.nonempty
  have hd := List.length_pos_iff.mpr q.d.nonempty
  simp only [spell, List.length_append, List.length_cons]
  omega

theorem colon_not_mem (q : Dotted) : 0x3A ∉ q.spell := by
  intro h
  rcases q.chars _ h with hdot | hnum
  · exact absurd hdot (by decide)
  · exact absurd hnum (by decide)

end Dotted

section ipv4

variable {s text rest : Bytes}

theorem head_dropWhile {p : UInt8 → Bool} : ∀ c ∈ (s.dropWhile p).head?, p c = false := by
  intro c hc
  have hnot := List.head?_dropWhile_not p s
  rw [hc] at hnot
  simpa using hnot

theorem uintLoop_append (ht : ∀ c ∈ text, isNum c = true)
    (hrest : ∀ c ∈ rest.head?, isNum c = false) (n : ℕ) :
    uintLoop (n % 2 ^ 32) (text ++ rest) =
      (text.foldl (fun v c => v * 10 + (c.toNat - 0x30)) n % 2 ^ 32, rest) := by
  induction text generalizing n with
  | nil =>
    cases rest with
    | nil => rfl
    | cons c rest =>
      rw [List.nil_append, uintLoop, if_neg (by simp [hrest c rfl])]
      rfl
  | cons c text ih =>
    obtain ⟨hc, ht⟩ := List.forall_mem_cons.mp ht
    have hstep : (n % 2 ^ 32 * 10 + (c.toNat - 0x30)) % 2 ^ 32 =
        (n * 10 + (c.toNat - 0x30)) % 2 ^ 32 := by omega
    rw [List.cons_append, uintLoop, if_pos hc, hstep, ih ht]
    rfl

theorem isUint_digits {c : UInt8} (hc : isNum c = true) (hzero : c ≠ 0x30)
    (ht : ∀ x ∈ text, isNum x = true) (hrest : ∀ x ∈ rest.head?, isNum x = false) :
    isUint (c :: (text ++ rest)) 255 =
      if 255 < decimalValue (c :: text) % 2 ^ 32 then none else some rest := by
  have hfirst : ∀ c : UInt8, isNum c = true → c ≠ 0x30 → c.toNat - 0x30 ≠ 0 :=
    forall_byte (by decide +kernel)
  have hloop := uintLoop_append ht hrest (c.toNat - 0x30)
  rw [Nat.mod_eq_of_lt (by have := c.toNat_lt; omega)] at hloop
  have hvalue : text.foldl (fun v c => v * 10 + (c.toNat - 0x30)) (c.toNat - 0x30) =
      decimalValue (c :: text) := by simp [decimalValue]
  rw [isUint]
  simp only [hc, hfirst c hc hzero, ne_eq, not_false_eq_true, if_true, hloop, hvalue]

theorem isUint_octet (n : Octet) (hrest : ∀ c ∈ rest.head?, isNum c = false) :
    isUint (n.text ++ rest) 255 = some rest := by
  obtain ⟨text, digits, nonempty, plain, small⟩ := n
  obtain ⟨c, text, rfl⟩ := List.exists_cons_of_ne_nil nonempty
  obtain ⟨hc, ht⟩ := List.forall_mem_cons.mp digits
  by_cases hzero : c = 0x30
  · subst hzero
    obtain rfl : text = [] := (List.cons.inj (plain rfl)).2
    rfl
  · exact (isUint_digits hc hzero ht hrest).trans (if_neg (not_lt.mpr small))

theorem exists_octet (h : isUint s 255 = some rest) : ∃ n : Octet, s = n.text ++ rest := by
  cases s with
  | nil => cases h
  | cons c t =>
    by_cases hc : isNum c = true
    · by_cases hzero : c = 0x30
      · subst hzero
        obtain rfl : t = rest := Option.some.inj h
        exact ⟨⟨[0x30], by simpa using hc, by simp, fun _ => rfl, by decide⟩, rfl⟩
      · have ht : ∀ x ∈ t.takeWhile isNum, isNum x = true := fun x hx => List.mem_takeWhile_imp hx
        rw [← @List.takeWhile_append_dropWhile _ isNum t,
          isUint_digits hc hzero ht head_dropWhile] at h
        split at h
        · cases h
        · next hsmall =>
          obtain rfl := Option.some.inj h
          refine ⟨⟨c :: t.takeWhile isNum, List.forall_mem_cons.mpr ⟨hc, ht⟩, by simp,
            fun hhead => absurd (Option.some.inj hhead) hzero, not_lt.mp hsmall⟩, ?_⟩
          rw [List.cons_append, List.takeWhile_append_dropWhile]
    · rw [isUint, if_neg hc] at h
      cases h

theorem uintDot_iff : uintDot s = some rest ↔ ∃ n : Octet, s = n.text ++ 0x2E :: rest := by
  constructor
  · intro h
    rw [uintDot] at h
    split at h
    · next c t hread =>
      split at h
      · next hc =>
        subst hc
        obtain rfl := Option.some.inj h
        exact exists_octet hread
      · cases h
    · cases h
  · rintro ⟨n, rfl⟩
    have hdot : ∀ c ∈ (0x2E :: rest : Bytes).head?, isNum c = false := by
      rintro c ⟨⟩
      rfl
    rw [uintDot, isUint_octet n hdot]
    rfl

theorem isUint_last : isUint s 255 = some [] ↔ ∃ n : Octet, s = n.text := by
  constructor
  · intro h
    obtain ⟨n, hn⟩ := exists_octet h
    exact ⟨n, by rw [hn, List.append_nil]⟩
  · rintro ⟨n, rfl⟩
    have hread := @isUint_octet [] n (by simp)
    rwa [List.append_nil] at hread

theorem isValidIPv4_iff : isValidIPv4 s = true ↔ ∃ q : Dotted, q.spell = s := by
  constructor
  · intro h
    rw [isValidIPv4] at h
    split at h
    · next last hlast =>
      obtain ⟨s₂, hs₂, hc⟩ := Option.bind_eq_some_iff.mp hlast
      obtain ⟨s₁, ha, hb⟩ := Option.bind_eq_some_iff.mp hs₂
      obtain ⟨a, rfl⟩ := uintDot_iff.mp ha
      obtain ⟨b, rfl⟩ := uintDot_iff.mp hb
      obtain ⟨c, rfl⟩ := uintDot_iff.mp hc
      obtain ⟨d, rfl⟩ := isUint_last.mp (beq_iff_eq.mp h)
      exact ⟨⟨a, b, c, d⟩, rfl⟩
    · cases h
  · rintro ⟨q, rfl⟩
    have ha : uintDot q.spell = some (q.b.text ++ 0x2E :: (q.c.text ++ 0x2E :: q.d.text)) :=
      uintDot_iff.mpr ⟨q.a, rfl⟩
    have hb : uintDot (q.b.text ++ 0x2E :: (q.c.text ++ 0x2E :: q.d.text)) =
        some (q.c.text ++ 0x2E :: q.d.text) := uintDot_iff.mpr ⟨q.b, rfl⟩
    have hc : uintDot (q.c.text ++ 0x2E :: q.d.text) = some q.d.text := uintDot_iff.mpr ⟨q.c, rfl⟩
    rw [isValidIPv4, ha, Option.bind_some, hb, Option.bind_some, hc]
    exact beq_iff_eq.mpr (isUint_last.mpr ⟨q.d, rfl⟩)

end ipv4

-- Behind a gap an IPv4 address may follow on six groups, and a number that wraps cannot be its
-- first.
structure LaxText where
  before : List Group
  gap : Option (List Group)
  ipv4 : Option Dotted
  room : match gap with
    | none => before.length = if ipv4.isSome then 6 else 8
    | some after => before.length + after.length < if ipv4.isSome then 7 else 8
  first : ∀ q ∈ ipv4, q.a.text.length ≤ 4

def tailText (ipv4 : Option Dotted) : List Bytes := (ipv4.map Dotted.spell).toList

def LaxText.spell (t : LaxText) : Bytes := IPv6Text.spelled t.before t.gap (tailText t.ipv4)

section loop

variable {s b g p u v : Bytes} {nullField : Bool} {n k : ℕ} {groups : List Group}
  {ipv4 : Option Dotted}

theorem marks_of_hexdigit {c : UInt8} (hc : isHexdigit c = true) : c ≠ 0x2E ∧ c ≠ 0x3A := by
  constructor
  · rintro rfl
    cases hc
  · rintro rfl
    cases hc

theorem ipv6Loop_digits (hg : ∀ c ∈ g, isHexdigit c = true) (hlen : k + g.length ≤ 4) :
    ipv6Loop s nullField b n k (g ++ p) = ipv6Loop s nullField b n (k + g.length) p := by
  induction g generalizing k with
  | nil => rfl
  | cons c g ih =>
    obtain ⟨hc, hg⟩ := List.forall_mem_cons.mp hg
    have hmarks := marks_of_hexdigit hc
    rw [List.length_cons] at hlen ⊢
    rw [List.cons_append, ipv6Loop, if_neg hmarks.1, if_neg hmarks.2, if_neg (by simp [hc]; omega),
      ih hg (by omega), Nat.add_assoc, Nat.add_comm 1]

theorem ipv6Loop_long (hg : ∀ c ∈ g, isHexdigit c = true) (hk : k ≤ 4) (hlen : 4 < k + g.length) :
    ipv6Loop s nullField b n k (g ++ p) = false := by
  induction g generalizing k with
  | nil => simp at hlen; omega
  | cons c g ih =>
    obtain ⟨hc, hg⟩ := List.forall_mem_cons.mp hg
    have hmarks := marks_of_hexdigit hc
    rw [List.length_cons] at hlen
    rw [List.cons_append, ipv6Loop, if_neg hmarks.1, if_neg hmarks.2]
    split_ifs with hfour
    · rfl
    · exact ih hg (by simp [hc] at hfour; omega) (by omega)

theorem ipv6Loop_end (hg : Digits g) (hne : g ≠ []) :
    ipv6Loop s nullField b n 0 g = ipv6Counts nullField (n + 1) := by
  have hscan := @ipv6Loop_digits s b g [] nullField n 0 hg.2 (by simpa using hg.1)
  rw [List.append_nil, Nat.zero_add] at hscan
  rw [hscan, ipv6Loop, if_pos (List.length_pos_iff.mpr hne)]

theorem ipv6Loop_next (hg : Digits g) (hne : g ≠ []) :
    ipv6Loop s nullField b n 0 (g ++ 0x3A :: p) = ipv6Loop s nullField p (n + 1) 0 p := by
  rw [ipv6Loop_digits hg.2 (by simpa using hg.1), ipv6Loop, if_neg (by decide), if_pos rfl,
    if_neg (by simpa using hne)]

theorem ipv6Loop_dot (hg : Digits g) : ipv6Loop s nullField b n 0 (g ++ 0x2E :: p) =
    (((!nullField && n == 6) || (nullField && n < 7)) && isValidIPv4 b) := by
  rw [ipv6Loop_digits hg.2 (by simpa using hg.1), ipv6Loop, if_pos rfl]

theorem ipv6Loop_gap : ipv6Loop s false b n 0 (0x3A :: p) = ipv6Loop s true p n 0 p := rfl

def Room (nullField : Bool) (ipv4 : Option Dotted) (n : ℕ) : Prop :=
  if nullField then n < if ipv4.isSome then 7 else 8 else n = if ipv4.isSome then 6 else 8

theorem ipv6Counts_iff : ipv6Counts nullField n = true ↔ Room nullField none n := by
  cases nullField <;> simp [ipv6Counts, Room]

theorem dot_iff (q : Dotted) : ((!nullField && n == 6) || (nullField && n < 7)) = true ↔
    Room nullField (some q) n := by
  cases nullField <;> simp [Room]

theorem ipv6Loop_groups (hfirst : ∀ q ∈ ipv4, q.a.text.length ≤ 4)
    (hroom : Room nullField ipv4 (n + groups.length))
    (hend : IPv6Text.texts groups ++ tailText ipv4 = [] → nullField = true ∧
      s.getLast? = some 0x3A ∧ s.dropLast.getLast? = some 0x3A)
    (hu : u = joined (IPv6Text.texts groups ++ tailText ipv4)) :
    ipv6Loop s nullField u n 0 u = true := by
  induction groups generalizing n u with
  | nil =>
    cases ipv4 with
    | none =>
      obtain ⟨rfl, hlast, hprev⟩ := hend rfl
      obtain rfl : u = [] := hu
      have hn : n < 8 := hroom
      rw [ipv6Loop, if_neg (lt_irrefl 0), if_pos hlast, hprev]
      simpa using hn
    | some q =>
      have hspell : u = q.a.text ++ 0x2E ::
          (q.b.text ++ 0x2E :: (q.c.text ++ 0x2E :: q.d.text)) := by
        rw [hu]
        simp [IPv6Text.texts, tailText, joined, Dotted.spell]
      have hdigits : Digits q.a.text := by
        refine ⟨hfirst q rfl, fun c hc => ?_⟩
        simp [isHexdigit, q.a.digits c hc]
      have hvalid : isValidIPv4 u = true := isValidIPv4_iff.mpr ⟨q, hspell.symm⟩
      have hscan := @ipv6Loop_dot s u q.a.text (q.b.text ++ 0x2E :: (q.c.text ++ 0x2E :: q.d.text))
        nullField n hdigits
      rw [← hspell, hvalid, Bool.and_true] at hscan
      rw [hscan]
      exact (dot_iff q).mpr hroom
  | cons g groups ih =>
    have htexts : IPv6Text.texts (g :: groups) ++ tailText ipv4 =
        g.text :: (IPv6Text.texts groups ++ tailText ipv4) := rfl
    rw [List.length_cons] at hroom
    rw [htexts, joined_cons] at hu
    by_cases hnil : IPv6Text.texts groups ++ tailText ipv4 = []
    · rw [if_pos hnil, List.append_nil] at hu
      obtain ⟨hgroups, htail⟩ := List.append_eq_nil_iff.mp hnil
      obtain rfl : groups = [] := List.map_eq_nil_iff.mp hgroups
      obtain rfl : ipv4 = none := by
        cases ipv4 with
        | none => rfl
        | some q => cases htail
      rw [hu, ipv6Loop_end g.digits g.nonempty]
      exact ipv6Counts_iff.mpr hroom
    · rw [if_neg hnil] at hu
      rw [hu, ipv6Loop_next g.digits g.nonempty]
      exact ih (by rwa [Nat.add_assoc, Nat.add_comm 1]) (fun h => absurd h hnil) rfl

def closedGroups (groups : List Group) : Bytes := groups.flatMap (fun g => g.text ++ [0x3A])

theorem ipv6Loop_before (hu : u = closedGroups groups ++ 0x3A :: v) :
    ipv6Loop s false u n 0 u = ipv6Loop s true v (n + groups.length) 0 v := by
  induction groups generalizing n u with
  | nil =>
    obtain rfl : u = 0x3A :: v := hu
    exact ipv6Loop_gap
  | cons g groups ih =>
    have hsplit : u = g.text ++ 0x3A :: (closedGroups groups ++ 0x3A :: v) := by
      rw [hu]
      simp [closedGroups]
    rw [hsplit, ipv6Loop_next g.digits g.nonempty, ih rfl, List.length_cons, Nat.add_assoc,
      Nat.add_comm 1]

theorem ipv6Loop_open (hg : Digits g) (hne : g ≠ []) :
    ipv6Loop (p ++ (g ++ [0x3A])) nullField b n 0 [] = false := by
  obtain ⟨init, c, rfl⟩ : ∃ init c, g = init ++ [c] :=
    ⟨_, _, (List.dropLast_append_getLast hne).symm⟩
  have hc : c ≠ 0x3A := by
    rintro rfl
    exact colon_not_mem_digits hg (by simp)
  rw [ipv6Loop, if_neg (lt_irrefl 0), ← List.append_assoc, if_pos List.getLast?_concat,
    List.dropLast_concat, ← List.append_assoc, List.getLast?_concat]
  simp [hc]

theorem exists_digits (u : Bytes) : ∃ g rest, u = g ++ rest ∧ (∀ c ∈ g, isHexdigit c = true) ∧
    ∀ c ∈ rest.head?, isHexdigit c = false :=
  ⟨_, _, List.takeWhile_append_dropWhile.symm, fun _ hc => List.mem_takeWhile_imp hc,
    head_dropWhile⟩

theorem joined_group (g : Group) : joined (IPv6Text.texts [g] ++ tailText none) = g.text := by
  simp [joined, IPv6Text.texts, tailText]

theorem joined_dotted (q : Dotted) :
    joined (IPv6Text.texts [] ++ tailText (some q)) = q.spell := by
  simp [joined, IPv6Text.texts, tailText]

theorem Dotted.lead_eq {q : Dotted} (hg : Digits g) (h : q.spell = g ++ 0x2E :: p) :
    q.a.text = g := by
  refine (Delimited.append_cons_inj (fun hdot => ?_) (fun hdot => ?_) h).1
  · exact absurd (q.a.digits _ hdot) (by decide)
  · exact absurd (hg.2 _ hdot) (by decide)

theorem ipv6Loop_sound (hs : s = p ++ u) (hu : u ≠ [] ∨ nullField = true)
    (h : ipv6Loop s nullField u n 0 u = true) :
    ∃ groups ipv4, (∀ q ∈ ipv4, q.a.text.length ≤ 4) ∧
      ((u = joined (IPv6Text.texts groups ++ tailText ipv4) ∧
          Room nullField ipv4 (n + groups.length)) ∨
        ∃ after, nullField = false ∧
          u = closedGroups groups ++ 0x3A :: joined (IPv6Text.texts after ++ tailText ipv4) ∧
          Room true ipv4 (n + groups.length + after.length)) := by
  induction hlen : u.length using Nat.strongRecOn generalizing u p n nullField with
  | _ m ih =>
    obtain ⟨g, rest, rfl, hdigits, hrest⟩ := exists_digits u
    rcases Nat.lt_or_ge 4 g.length with hlong | hshort
    · rw [ipv6Loop_long hdigits (Nat.zero_le 4) (by omega)] at h
      cases h
    have hg : Digits g := ⟨hshort, hdigits⟩
    cases rest with
    | nil =>
      rw [List.append_nil] at *
      by_cases hne : g = []
      · subst hne
        obtain rfl : nullField = true := hu.resolve_left (fun h => h rfl)
        refine ⟨[], none, by simp, .inl ⟨rfl, ?_⟩⟩
        rw [ipv6Loop, if_neg (lt_irrefl 0)] at h
        split_ifs at h
        · simp only [Bool.and_eq_true, decide_eq_true_eq] at h
          exact h.2
        · exact ipv6Counts_iff.mp h
      · rw [ipv6Loop_end hg hne] at h
        exact ⟨[⟨g, hg, hne⟩], none, by simp, .inl ⟨(joined_group ⟨g, hg, hne⟩).symm,
          ipv6Counts_iff.mp h⟩⟩
    | cons c rest =>
      have hc := hrest c rfl
      by_cases hdot : c = 0x2E
      · subst hdot
        rw [ipv6Loop_dot hg, Bool.and_eq_true] at h
        obtain ⟨q, hq⟩ := isValidIPv4_iff.mp h.2
        refine ⟨[], some q, ?_, .inl ⟨?_, (dot_iff q).mp h.1⟩⟩
        · rintro _ ⟨⟩
          rw [Dotted.lead_eq hg hq]
          exact hshort
        · rw [joined_dotted, hq]
      by_cases hcolon : c = 0x3A
      · subst hcolon
        have hshorter : rest.length < m := by
          rw [← hlen, List.length_append, List.length_cons]
          omega
        by_cases hne : g = []
        · subst hne
          cases nullField with
          | true => cases h
          | false =>
            obtain ⟨after, ipv4, hfirst, hafter | ⟨_, hfalse, -⟩⟩ :=
              ih rest.length hshorter (hs.trans (List.append_cons p 0x3A rest)) (.inr rfl) h rfl
            · obtain ⟨rfl, hroom⟩ := hafter
              exact ⟨[], ipv4, hfirst, .inr ⟨after, rfl, rfl, hroom⟩⟩
            · cases hfalse
        · rw [ipv6Loop_next hg hne] at h
          have hnext : rest ≠ [] := by
            rintro rfl
            rw [hs, ipv6Loop_open hg hne] at h
            cases h
          obtain ⟨groups, ipv4, hfirst, ⟨hrest, hroom⟩ | ⟨after, hnull, hrest, hroom⟩⟩ :=
            ih rest.length hshorter (p := p ++ g ++ [0x3A]) (by simp [hs]) (.inl hnext) h rfl
          · refine ⟨⟨g, hg, hne⟩ :: groups, ipv4, hfirst, .inl ⟨?_, ?_⟩⟩
            · have htexts : IPv6Text.texts (⟨g, hg, hne⟩ :: groups) ++ tailText ipv4 =
                  g :: (IPv6Text.texts groups ++ tailText ipv4) := rfl
              rw [htexts, joined_cons, if_neg, hrest]
              intro hnil
              rw [hnil] at hrest
              exact hnext hrest
            · rwa [List.length_cons, Nat.add_comm groups.length, ← Nat.add_assoc]
          · refine ⟨⟨g, hg, hne⟩ :: groups, ipv4, hfirst, .inr ⟨after, hnull, ?_, ?_⟩⟩
            · rw [hrest]
              simp [closedGroups]
            · rwa [List.length_cons, Nat.add_comm groups.length, ← Nat.add_assoc n]
      · rw [ipv6Loop_digits hdigits (by omega), ipv6Loop, if_neg hdot, if_neg hcolon,
          if_pos (.inr hc)] at h
        cases h

end loop

section exact

variable {s : Bytes} {groups : List Group} {ipv4 : Option Dotted}

theorem plain_tailText (ipv4 : Option Dotted) : Plain (tailText ipv4) := by
  intro x hx
  obtain ⟨q, -, rfl⟩ : ∃ q, ipv4 = some q ∧ q.spell = x := by
    simpa [tailText, Option.map_eq_some_iff] using hx
  exact ⟨List.ne_nil_of_length_pos (by have := q.long; omega), q.colon_not_mem⟩

theorem closedGroups_eq (hne : groups ≠ []) :
    closedGroups groups = joined (IPv6Text.texts groups) ++ [0x3A] := by
  induction groups with
  | nil => exact absurd rfl hne
  | cons g groups ih =>
    have htexts : IPv6Text.texts (g :: groups) = g.text :: IPv6Text.texts groups := rfl
    rw [htexts, joined_cons]
    by_cases hnil : groups = []
    · subst hnil
      simp [closedGroups, IPv6Text.texts]
    · have hclosed : closedGroups (g :: groups) = g.text ++ 0x3A :: closedGroups groups := by
        simp [closedGroups]
      rw [hclosed, ih hnil, if_neg (by simpa [IPv6Text.texts] using hnil)]
      simp

theorem plain_pieces (groups : List Group) (ipv4 : Option Dotted) :
    Plain (IPv6Text.texts groups ++ tailText ipv4) :=
  (IPv6Text.plain_texts groups).append (plain_tailText ipv4)

theorem head_before (hne : groups ≠ []) (v : Bytes) :
    (joined (IPv6Text.texts groups) ++ v).head? ≠ some 0x3A := by
  have hplain := IPv6Text.plain_texts groups
  have htexts : IPv6Text.texts groups ≠ [] := by simpa [IPv6Text.texts] using hne
  rw [List.head?_append_of_ne_nil _ (joined_ne_nil hplain htexts)]
  exact head_joined hplain

theorem isValidIPv6_unled (hlong : s.length ≤ 39) (htwo : 2 ≤ s.length)
    (hhead : s.head? ≠ some 0x3A) : isValidIPv6 s = ipv6Loop s false s 0 0 s := by
  rw [isValidIPv6, if_neg (by omega), if_neg hhead]

theorem isValidIPv6_led {v : Bytes} (hlong : (ascii "::" ++ v).length ≤ 39) :
    isValidIPv6 (ascii "::" ++ v) =
      if v = [] then true else ipv6Loop (ascii "::" ++ v) true v 0 0 v := by
  have hcolons : ascii "::" = [0x3A, 0x3A] := by decide
  rw [hcolons] at hlong ⊢
  rw [List.cons_append, List.singleton_append] at hlong ⊢
  rw [isValidIPv6, if_neg (by simp at hlong ⊢; omega)]
  rfl

namespace LaxText

theorem valid (t : LaxText) (hlong : t.spell.length ≤ 39) : isValidIPv6 t.spell = true := by
  obtain ⟨before, gap, ipv4, room, first⟩ := t
  cases gap with
  | none =>
    have hplain := plain_pieces before ipv4
    have hcount : 6 ≤ (IPv6Text.texts before ++ tailText ipv4).length := by
      dsimp only at room
      rw [List.length_append, IPv6Text.texts, List.length_map, room]
      split_ifs <;> omega
    have htwo := hcount.trans (length_le_joined hplain)
    rw [isValidIPv6_unled hlong (le_trans (by decide) htwo) (head_joined hplain)]
    refine ipv6Loop_groups first (by rw [Nat.zero_add]; exact room) (fun hnil => ?_) rfl
    rw [hnil] at hcount
    cases hcount
  | some after =>
    have hroom : before.length + after.length < if ipv4.isSome then 7 else 8 := room
    by_cases hbefore : before = []
    · subst hbefore
      have hspell : spell ⟨[], some after, ipv4, room, first⟩ =
          ascii "::" ++ joined (IPv6Text.texts after ++ tailText ipv4) := rfl
      rw [hspell] at hlong ⊢
      rw [isValidIPv6_led hlong]
      split_ifs with hnil
      · rfl
      · refine ipv6Loop_groups first (by simpa [Room] using hroom) (fun hpieces => ?_) rfl
        exact absurd (by rw [hpieces]; rfl) hnil
    · have hspell : spell ⟨before, some after, ipv4, room, first⟩ =
          closedGroups before ++ 0x3A :: joined (IPv6Text.texts after ++ tailText ipv4) := by
        rw [closedGroups_eq hbefore]
        simp [spell, IPv6Text.spelled, ascii]
      have hhead := head_before hbefore
        (ascii "::" ++ joined (IPv6Text.texts after ++ tailText ipv4))
      rw [← List.append_assoc] at hhead
      have htwo : 2 ≤ (spell ⟨before, some after, ipv4, room, first⟩).length := by
        simp [spell, IPv6Text.spelled, ascii]
        omega
      rw [isValidIPv6_unled hlong htwo hhead, ipv6Loop_before hspell, Nat.zero_add]
      refine ipv6Loop_groups first hroom (fun hpieces => ⟨rfl, ?_, ?_⟩) rfl
      · rw [hspell, hpieces]
        simp [joined]
      · rw [hspell, hpieces, closedGroups_eq hbefore]
        simp [joined, List.dropLast_append_of_ne_nil]

theorem exists_led {v : Bytes} (h : ipv6Loop (ascii "::" ++ v) true v 0 0 v = true) :
    ∃ t : LaxText, t.spell = ascii "::" ++ v := by
  obtain ⟨groups, ipv4, hfirst, ⟨hv, hroom⟩ | ⟨_, hfalse, -⟩⟩ :=
    ipv6Loop_sound rfl (.inr rfl) h
  · refine ⟨⟨[], some groups, ipv4, by simpa [Room] using hroom, hfirst⟩, ?_⟩
    rw [hv]
    rfl
  · cases hfalse

theorem exists_unled (hne : s ≠ []) (hhead : s.head? ≠ some 0x3A)
    (h : ipv6Loop s false s 0 0 s = true) : ∃ t : LaxText, t.spell = s := by
  obtain ⟨groups, ipv4, hfirst, ⟨hs, hroom⟩ | ⟨after, -, hs, hroom⟩⟩ :=
    ipv6Loop_sound (List.nil_append s).symm (.inl hne) h
  · rw [Nat.zero_add] at hroom
    exact ⟨⟨groups, none, ipv4, hroom, hfirst⟩, hs.symm⟩
  · rw [Nat.zero_add] at hroom
    have hgroups : groups ≠ [] := by
      rintro rfl
      exact hhead (by rw [hs]; rfl)
    refine ⟨⟨groups, some after, ipv4, hroom, hfirst⟩, ?_⟩
    rw [hs, closedGroups_eq hgroups]
    simp [spell, IPv6Text.spelled, ascii]

theorem exists_of_valid (h : isValidIPv6 s = true) :
    s.length ≤ 39 ∧ ∃ t : LaxText, t.spell = s := by
  by_cases hlen : 39 < s.length ∨ s.length < 2
  · rw [isValidIPv6, if_pos hlen] at h
    cases h
  refine ⟨by omega, ?_⟩
  by_cases hhead : s.head? = some 0x3A
  · obtain ⟨t, rfl⟩ := List.head?_eq_some_iff.mp hhead
    rw [isValidIPv6, if_neg hlen, if_pos hhead, List.tail_cons] at h
    split_ifs at h with hsecond hrest
    · obtain ⟨v, rfl⟩ := List.head?_eq_some_iff.mp (not_not.mp hsecond)
      obtain rfl : v = [] := hrest
      exact ⟨⟨[], some [], none, by decide, by simp⟩, by decide⟩
    · obtain ⟨v, rfl⟩ := List.head?_eq_some_iff.mp (not_not.mp hsecond)
      exact exists_led h
  · rw [isValidIPv6, if_neg hlen, if_neg hhead] at h
    exact exists_unled (by rintro rfl; simp at hlen) hhead h

end LaxText

theorem isValidIPv6_iff :
    isValidIPv6 s = true ↔ s.length ≤ 39 ∧ ∃ t : LaxText, t.spell = s := by
  constructor
  · exact LaxText.exists_of_valid
  · rintro ⟨hlong, t, rfl⟩
    exact t.valid hlong

end exact

end Url
end GWSockets
