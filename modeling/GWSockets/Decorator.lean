import GWSockets.Library.Delimited
import GWSockets.Settings

namespace GWSockets

open Delimited

def isBlank (c : UInt8) : Bool := c == 0x20 || c == 0x09

def fieldLine (field : Bytes × Bytes) : Bytes := field.1 ++ ascii ": " ++ field.2

def writeFields (fields : Fields) : Bytes := fields.flatMap (fun p => fieldLine p ++ ascii "\r\n")

def readLines (text : Bytes) : List Bytes := (split 0x0D 0x0A text).dropLast

def readField (line : Bytes) : Bytes × Bytes :=
  ((cutAt 0x3A line).1, strip isBlank (cutAt 0x3A line).2)

def readFields (text : Bytes) : Fields := (readLines text).map readField

def readCookies (value : Bytes) : Fields := (split 0x3B 0x20 value).map (cutAt 0x3D)

section characters

variable {str : Bytes} {c : UInt8}

theorem tokenChar_of_mem (h : isToken str = true) (hc : c ∈ str) : isTokenChar c = true := by
  have hall : str.all isTokenChar = true := (Bool.and_eq_true _ _ ▸ h).2
  exact List.all_eq_true.mp hall c hc

theorem not_mem_token (h : isToken str = true) (hc : isTokenChar c = false) : c ∉ str := by
  intro hm
  rw [tokenChar_of_mem h hm] at hc
  cases hc

theorem not_mem_fieldValue (h : isFieldValue str = true) (hc : isText c = false) : c ∉ str := by
  intro hm
  rw [List.all_eq_true.mp h c hm] at hc
  cases hc

theorem not_mem_cookieValue (h : isCookieValue str = true)
    (hc : c ∈ [0x0D, 0x3B, 0x20, 0x09]) : c ∉ str := by
  intro hm
  have hv := List.all_eq_true.mp h c hm
  simp only [List.mem_cons, List.not_mem_nil, or_false] at hc
  rcases hc with rfl | rfl | rfl | rfl <;> exact absurd hv (by decide)

end characters

section lines

variable {fields : Fields}

theorem cr_not_mem_fieldLine {p : Bytes × Bytes} (hk : isToken p.1 = true) (hv : 0x0D ∉ p.2) :
    0x0D ∉ fieldLine p := by
  have hname : (0x0D : UInt8) ∉ p.1 := not_mem_token hk (by decide)
  have hsep : (0x0D : UInt8) ∉ ascii ": " := by decide
  simp [fieldLine, hname, hsep, hv]

theorem readLines_writeFields (h : ∀ p ∈ fields, isToken p.1 = true ∧ 0x0D ∉ p.2) :
    readLines (writeFields fields) = fields.map fieldLine := by
  have hflat : writeFields fields =
      (fields.map fieldLine).flatMap (fun l => l ++ [0x0D, 0x0A]) := by
    rw [List.flatMap_map]
    rfl
  rw [readLines, hflat, split_lines, List.dropLast_concat]
  intro l hl
  obtain ⟨p, hp, rfl⟩ := List.mem_map.mp hl
  exact cr_not_mem_fieldLine (h p hp).1 (h p hp).2

theorem readField_fieldLine {p : Bytes × Bytes} (hk : isToken p.1 = true) :
    readField (fieldLine p) = (p.1, strip isBlank p.2) := by
  have hname : (0x3A : UInt8) ∉ p.1 := not_mem_token hk (by decide)
  have hline : fieldLine p = p.1 ++ 0x3A :: 0x20 :: p.2 := by
    rw [fieldLine, List.append_assoc]
    rfl
  rw [readField, hline, cutAt_append hname, strip_cons (by decide)]

theorem readFields_writeFields (h : ∀ p ∈ fields, isToken p.1 = true ∧ 0x0D ∉ p.2) :
    readFields (writeFields fields) = fields.map (fun p => (p.1, strip isBlank p.2)) := by
  rw [readFields, readLines_writeFields h, List.map_map]
  exact List.map_congr_left fun p hp => readField_fieldLine (h p hp).1

end lines

section cookies

def cookiePart (p : Bytes × Bytes) : Bytes := p.1 ++ 0x3D :: p.2

variable {cookies : Fields}

def CookieFields (cookies : Fields) : Prop :=
  ∀ p ∈ cookies, isToken p.1 = true ∧ isCookieValue p.2 = true

def HeaderFields (headers : Fields) : Prop :=
  ∀ p ∈ headers, isToken p.1 = true ∧ isFieldValue p.2 = true

theorem cookieLoop_false (cookies : Fields) :
    cookieLoop false cookies = (cookies.map cookiePart).flatMap (fun x => 0x3B :: 0x20 :: x) := by
  induction cookies with
  | nil => rfl
  | cons p cookies ih =>
    obtain ⟨key, value⟩ := p
    rw [cookieLoop, ih]
    simp [cookiePart, ascii]

theorem cookieLoop_true (p : Bytes × Bytes) (cookies : Fields) :
    cookieLoop true (p :: cookies) =
      cookiePart p ++ (cookies.map cookiePart).flatMap (fun x => 0x3B :: 0x20 :: x) := by
  obtain ⟨key, value⟩ := p
  rw [cookieLoop, cookieLoop_false]
  simp [cookiePart, ascii]

theorem not_mem_cookiePart {c : UInt8} {p : Bytes × Bytes}
    (h : isToken p.1 = true ∧ isCookieValue p.2 = true) (hc : c ∈ [0x0D, 0x3B, 0x20, 0x09]) :
    c ∉ cookiePart p := by
  have hvalue := not_mem_cookieValue h.2 hc
  have hchar : isTokenChar c = false ∧ c ≠ 0x3D := by
    simp only [List.mem_cons, List.not_mem_nil, or_false] at hc
    rcases hc with rfl | rfl | rfl | rfl <;> decide
  have hname := not_mem_token h.1 hchar.1
  simp [cookiePart, hname, hvalue, hchar.2]

theorem readCookies_cookieLoop (h : CookieFields cookies) (hne : cookies ≠ []) :
    readCookies (cookieLoop true cookies) = cookies := by
  cases cookies with
  | nil => exact absurd rfl hne
  | cons p cookies =>
    have hpart : ∀ q ∈ p :: cookies, (0x3B : UInt8) ∉ cookiePart q :=
      fun q hq => not_mem_cookiePart (h q hq) (by decide)
    have hparts : ∀ x ∈ cookies.map cookiePart, (0x3B : UInt8) ∉ x := by
      intro x hx
      obtain ⟨q, hq, rfl⟩ := List.mem_map.mp hx
      exact hpart q (List.mem_cons_of_mem p hq)
    rw [readCookies, cookieLoop_true, split_joined (hpart p List.mem_cons_self) hparts,
      ← List.map_cons, List.map_map]
    refine (List.map_congr_left fun q hq => ?_).trans (List.map_id _)
    exact cutAt_append (not_mem_token (h q hq).1 (by decide)) q.2

theorem not_blank_cookiePart {p : Bytes × Bytes}
    (h : isToken p.1 = true ∧ isCookieValue p.2 = true) {x : UInt8} (hx : x ∈ cookiePart p) :
    isBlank x = false := by
  by_contra hb
  have hmem : x ∈ [0x0D, 0x3B, 0x20, 0x09] := by
    simp only [isBlank, Bool.not_eq_false, Bool.or_eq_true, beq_iff_eq] at hb
    simp [hb]
  exact not_mem_cookiePart h hmem hx

theorem cookieLoop_last (h : CookieFields cookies) (first : Bool) :
    ∀ x ∈ (cookieLoop first cookies).getLast?, isBlank x = false := by
  induction cookies generalizing first with
  | nil =>
    intro x hx
    cases hx
  | cons p cookies ih =>
    intro x hx
    have hloop : cookieLoop first (p :: cookies) =
        ((if first then [] else ascii "; ") ++ cookiePart p) ++ cookieLoop false cookies := by
      obtain ⟨key, value⟩ := p
      simp [cookieLoop, cookiePart, ascii]
    rw [hloop, List.getLast?_append, Option.mem_def, Option.or_eq_some_iff] at hx
    rcases hx with hx | ⟨-, hx⟩
    · exact ih (fun q hq => h q (List.mem_cons_of_mem p hq)) false x hx
    · rw [List.getLast?_append, Option.or_eq_some_iff] at hx
      rcases hx with hx | ⟨hnone, -⟩
      · exact not_blank_cookiePart (h p List.mem_cons_self) (List.mem_of_getLast? hx)
      · simp [cookiePart] at hnone

theorem strip_cookieLoop (h : CookieFields cookies) :
    strip isBlank (cookieLoop true cookies) = cookieLoop true cookies := by
  refine strip_self (fun x hx => ?_) (cookieLoop_last h true)
  cases cookies with
  | nil => cases hx
  | cons p cookies =>
    have hhead : (cookieLoop true (p :: cookies)).head? = (cookiePart p).head? := by
      rw [cookieLoop_true, List.head?_append]
      cases hp : (cookiePart p).head? with
      | none => simp [cookiePart] at hp
      | some y => rfl
    rw [hhead] at hx
    exact not_blank_cookiePart (h p List.mem_cons_self) (List.mem_of_mem_head? hx)

theorem cr_not_mem_cookieLoop (h : CookieFields cookies) (first : Bool) :
    0x0D ∉ cookieLoop first cookies := by
  induction cookies generalizing first with
  | nil => simp [cookieLoop]
  | cons p cookies ih =>
    have hrest := ih (fun q hq => h q (List.mem_cons_of_mem p hq)) false
    have hpart := not_mem_cookiePart (h p List.mem_cons_self) (c := 0x0D) (by decide)
    have hsep : (0x0D : UInt8) ∉ ascii "; " := by decide
    obtain ⟨hkey, hvalue⟩ : (0x0D : UInt8) ∉ p.1 ∧ (0x0D : UInt8) ∉ p.2 := by
      simpa [cookiePart, not_or] using hpart
    cases first <;> simp [cookieLoop, ascii, hkey, hvalue, hrest]

end cookies

section decorator

variable {cookies headers : Fields}

theorem decorator_valid (hc : CookieFields cookies) (hh : HeaderFields headers) :
    ∀ p ∈ decorator cookies headers, isToken p.1 = true ∧ 0x0D ∉ p.2 := by
  intro p hp
  rcases List.mem_append.mp hp with hp | hp
  · split at hp
    · cases hp
    · rw [List.mem_singleton.mp hp]
      exact ⟨rfl, cr_not_mem_cookieLoop hc true⟩
  · exact ⟨(hh p hp).1, not_mem_fieldValue (hh p hp).2 (by decide)⟩

theorem readFields_decorator (hc : CookieFields cookies) (hh : HeaderFields headers) :
    readFields (writeFields (decorator cookies headers)) =
      (if cookies.isEmpty then [] else [(ascii "Cookie", cookieLoop true cookies)]) ++
        headers.map (fun p => (p.1, strip isBlank p.2)) := by
  rw [readFields_writeFields (decorator_valid hc hh)]
  cases cookies with
  | nil => rfl
  | cons p cookies => simp [decorator, strip_cookieLoop hc]

end decorator

namespace World

section fields

variable {ls : List Step} {kind : SocketClass} {host path : Bytes} {port : Nat}

theorem cookies_valid : CookieFields ((new kind host port path).run ls).cookies := by
  intro p hp
  rw [run_cookies, acceptedCookies_eq] at hp
  rcases mem_assigns _ hp with hp | hp
  · obtain ⟨w, s, hs⟩ := Machine.mem_emitted hp
    exact validCookie_valid hs
  · cases hp

theorem headers_valid : HeaderFields ((new kind host port path).run ls).headers := by
  intro p hp
  rw [run_headers, acceptedHeaders_eq] at hp
  rcases mem_assigns _ hp with hp | hp
  · obtain ⟨w, s, hs⟩ := Machine.mem_emitted hp
    exact validHeader_valid hs
  · cases hp

theorem cookies_nodup : (((new kind host port path).run ls).cookies.map Prod.fst).Nodup := by
  rw [run_cookies]
  exact assigns_nodup _ List.nodup_nil

theorem headers_nodup : (((new kind host port path).run ls).headers.map Prod.fst).Nodup := by
  rw [run_headers]
  exact assigns_nodup _ List.nodup_nil

theorem cookies_isEmpty : ((new kind host port path).run ls).cookies.isEmpty =
    ((new kind host port path).acceptedCookies ls).isEmpty := by
  rw [run_cookies, Bool.eq_iff_iff, List.isEmpty_iff, List.isEmpty_iff, assigns_eq_nil]
  exact and_iff_right rfl

theorem lookup_cookies (key : Bytes) : ((new kind host port path).run ls).cookies.lookup key =
    ((new kind host port path).acceptedCookies ls).reverse.lookup key := by
  rw [run_cookies, lookup_assigns]
  exact Option.or_none

theorem lookup_headers (key : Bytes) : ((new kind host port path).run ls).headers.lookup key =
    ((new kind host port path).acceptedHeaders ls).reverse.lookup key := by
  rw [run_headers, lookup_assigns]
  exact Option.or_none

end fields

theorem request_fields_decode {kind : SocketClass} {host path : Bytes} {port : Nat}
    {ls : List Step} {cookies headers : Fields}
    (hcookies : cookies.Perm ((new kind host port path).run ls).cookies)
    (hheaders : headers.Perm ((new kind host port path).run ls).headers) :
    let accepted := (new kind host port path).acceptedCookies ls
    let fields := decorator cookies headers
    readLines (writeFields fields) = fields.map fieldLine ∧
      readFields (writeFields fields) =
        (if accepted.isEmpty then [] else [(ascii "Cookie", cookieLoop true cookies)]) ++
          headers.map (fun p => (p.1, strip isBlank p.2)) ∧
      (accepted ≠ [] → readCookies (cookieLoop true cookies) = cookies) ∧
      (cookies.map Prod.fst).Nodup ∧
      (∀ key, cookies.lookup key = accepted.reverse.lookup key) ∧
      (headers.map Prod.fst).Nodup ∧
      (∀ key, headers.lookup key =
        ((new kind host port path).acceptedHeaders ls).reverse.lookup key) ∧
      (∀ w : World, ∀ key value,
        ((w.setCookie key value).1 = false → (w.setCookie key value).2 = w) ∧
          ((w.setHeader key value).1 = false → (w.setHeader key value).2 = w)) := by
  intro accepted fields
  have hc : CookieFields cookies := fun p hp => cookies_valid p (hcookies.mem_iff.mp hp)
  have hh : HeaderFields headers := fun p hp => headers_valid p (hheaders.mem_iff.mp hp)
  have hempty : cookies.isEmpty = accepted.isEmpty := by
    rw [← cookies_isEmpty, Bool.eq_iff_iff, List.isEmpty_iff_length_eq_zero,
      List.isEmpty_iff_length_eq_zero, hcookies.length_eq]
  refine ⟨readLines_writeFields (decorator_valid hc hh), ?_, fun hne => ?_,
    (hcookies.map Prod.fst).nodup_iff.mpr cookies_nodup, fun key => ?_,
    (hheaders.map Prod.fst).nodup_iff.mpr headers_nodup, fun key => ?_,
    fun w key value => ⟨setCookie_rejected, setHeader_rejected⟩⟩
  · rw [← hempty]
    exact readFields_decorator hc hh
  · refine readCookies_cookieLoop hc ?_
    rintro rfl
    exact hne (List.isEmpty_iff.mp hempty.symm)
  · rw [lookup_perm cookies_nodup hcookies, lookup_cookies]
  · rw [lookup_perm headers_nodup hheaders, lookup_headers]

def settingsRun : List Step :=
  [⟨.setCookie (ascii "a") (ascii "1"), {}⟩, ⟨.setCookie (ascii "b") (ascii "2="), {}⟩,
    ⟨.setCookie (ascii "a") (ascii "3"), {}⟩, ⟨.setHeader (ascii "X") (ascii " v:"), {}⟩,
    ⟨.setHeader (ascii "X:") [], {}⟩]

theorem request_fields_decode_reversed :
    readFields (writeFields (decorator [(ascii "b", ascii "2="), (ascii "a", ascii "3")]
        [(ascii "X", ascii " v:")])) =
      [(ascii "Cookie", ascii "b=2=; a=3"), (ascii "X", ascii "v:")] :=
  (@request_fields_decode .webSocket [] [] 80 settingsRun
    [(ascii "b", ascii "2="), (ascii "a", ascii "3")] [(ascii "X", ascii " v:")]
    (by decide +kernel) (by decide +kernel)).2.1

end World
end GWSockets
