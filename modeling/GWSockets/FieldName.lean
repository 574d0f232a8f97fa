import Mathlib.Data.List.Nodup
import GWSockets.Decorator

namespace GWSockets

def foldCase (name : Bytes) : Bytes :=
  name.map (fun c => if 0x41 ≤ c && c ≤ 0x5A then c + 0x20 else c)

def lastValue (accepted : List (Bytes × Bytes)) (name : Bytes) : Option Bytes :=
  (accepted.reverse.find? (fun e => foldCase e.1 == foldCase name)).map Prod.snd

structure LastWriterWins (fields : Fields) (accepted : List (Bytes × Bytes)) : Prop where
  distinct : (fields.map (fun f => foldCase f.1)).Nodup
  last : ∀ name value, lastValue accepted name = some value →
    ∃ f ∈ fields, foldCase f.1 = foldCase name ∧ f.2 = value

structure Unambiguous (cookies headers : List (Bytes × Bytes)) : Prop where
  spelling : ∀ e ∈ headers, ∀ e' ∈ headers, foldCase e.1 = foldCase e'.1 → e.1 = e'.1
  cookie : cookies ≠ [] → ∀ e ∈ headers, foldCase e.1 ≠ foldCase (ascii "Cookie")

theorem lookup_lastValue {accepted : List (Bytes × Bytes)} {name value : Bytes}
    (h : lastValue accepted name = some value) :
    ∃ key, foldCase key = foldCase name ∧ accepted.reverse.lookup key = some value := by
  obtain ⟨e, he, rfl⟩ := Option.map_eq_some_iff.mp h
  obtain ⟨hfold, before, after, hsplit, hbefore⟩ := List.find?_eq_some_iff_append.mp he
  have hname : foldCase e.1 = foldCase name := beq_iff_eq.mp hfold
  refine ⟨e.1, hname, List.lookup_eq_some_iff.mpr ⟨before, after, hsplit, fun p hp => ?_⟩⟩
  have hne := hbefore p hp
  rw [bne_iff_ne]
  intro hp1
  rw [← hp1, hname] at hne
  simp at hne

theorem distinct_iff {cookies headers : Fields} (h : (headers.map Prod.fst).Nodup) :
    ((decorator cookies headers).map (fun f => foldCase f.1)).Nodup ↔
      Unambiguous cookies headers := by
  have hmap : headers.map (fun f => foldCase f.1) = (headers.map Prod.fst).map foldCase := by
    rw [List.map_map]
    rfl
  have hnodup : (headers.map (fun f => foldCase f.1)).Nodup ↔
      ∀ e ∈ headers, ∀ e' ∈ headers, foldCase e.1 = foldCase e'.1 → e.1 = e'.1 := by
    rw [hmap, List.nodup_map_iff_inj_on h]
    simp only [List.mem_map, forall_exists_index, and_imp, forall_apply_eq_imp_iff₂]
  rw [decorator, List.map_append, List.nodup_append, hnodup]
  cases cookies with
  | nil =>
    refine ⟨fun hd => ⟨hd.2.1, fun hne => absurd rfl hne⟩, fun hu => ?_⟩
    exact ⟨List.nodup_nil, hu.spelling, fun a ha => absurd ha (by simp)⟩
  | cons p cookies =>
    constructor
    · rintro ⟨-, hinj, hdisj⟩
      refine ⟨hinj, fun _ e he heq => ?_⟩
      exact hdisj (foldCase (ascii "Cookie")) (by simp) (foldCase e.1)
        (List.mem_map.mpr ⟨e, he, rfl⟩) heq.symm
    · intro hu
      refine ⟨List.nodup_singleton _, hu.spelling, fun a ha b hb hab => ?_⟩
      obtain ⟨e, he, rfl⟩ := List.mem_map.mp hb
      rw [List.mem_singleton.mp ha] at hab
      exact hu.cookie (List.cons_ne_nil p cookies) e he hab.symm

theorem unambiguous_congr {cookies cookies' headers headers' : List (Bytes × Bytes)}
    (hc : cookies = [] ↔ cookies' = [])
    (hh : ∀ key, key ∈ headers.map Prod.fst ↔ key ∈ headers'.map Prod.fst)
    (h : Unambiguous cookies headers) : Unambiguous cookies' headers' := by
  have hentry : ∀ e ∈ headers', ∃ p ∈ headers, p.1 = e.1 := fun e he =>
    List.mem_map.mp ((hh e.1).mpr (List.mem_map_of_mem he))
  refine ⟨fun e he e' he' heq => ?_, fun hne e he => ?_⟩
  · obtain ⟨p, hp, hpe⟩ := hentry e he
    obtain ⟨p', hp', hpe'⟩ := hentry e' he'
    rw [← hpe, ← hpe'] at heq ⊢
    exact h.spelling p hp p' hp' heq
  · obtain ⟨p, hp, hpe⟩ := hentry e he
    rw [← hpe]
    exact h.cookie (fun hnil => hne (hc.mp hnil)) p hp

namespace World

variable {kind : SocketClass} {host path : Bytes} {port : Nat} {ls : List Step}
  {cookies headers : Fields}

theorem mem_headers_keys (key : Bytes) :
    key ∈ ((new kind host port path).run ls).headers.map Prod.fst ↔
      key ∈ ((new kind host port path).acceptedHeaders ls).map Prod.fst := by
  rw [run_headers, mem_assigns_keys]
  exact or_iff_left (by simp [new])

theorem last_writer_wins_iff
    (hcookies : cookies.Perm ((new kind host port path).run ls).cookies)
    (hheaders : headers.Perm ((new kind host port path).run ls).headers) :
    LastWriterWins (decorator cookies headers) ((new kind host port path).acceptedHeaders ls) ↔
      Unambiguous ((new kind host port path).validCookies ls)
        ((new kind host port path).validHeaders ls) := by
  have hnodup : (headers.map Prod.fst).Nodup :=
    (hheaders.map Prod.fst).nodup_iff.mpr headers_nodup
  have hempty : cookies = [] ↔ (new kind host port path).acceptedCookies ls = [] := by
    rw [← List.isEmpty_iff (l := (new kind host port path).acceptedCookies ls),
      ← cookies_isEmpty, List.isEmpty_iff, ← List.length_eq_zero_iff, hcookies.length_eq,
      List.length_eq_zero_iff]
  have hkeys : ∀ key, key ∈ headers.map Prod.fst ↔
      key ∈ ((new kind host port path).acceptedHeaders ls).map Prod.fst := fun key => by
    rw [(hheaders.map Prod.fst).mem_iff, mem_headers_keys]
  rw [← acceptedCookies_eq, ← acceptedHeaders_eq]
  constructor
  · intro h
    exact unambiguous_congr hempty hkeys ((distinct_iff hnodup).mp h.distinct)
  · intro h
    have hu := unambiguous_congr hempty.symm (fun key => (hkeys key).symm) h
    refine ⟨(distinct_iff hnodup).mpr hu, fun name value hlast => ?_⟩
    obtain ⟨key, hname, hlookup⟩ := lookup_lastValue hlast
    rw [← lookup_headers, ← lookup_perm headers_nodup hheaders, lookup_mem hnodup] at hlookup
    exact ⟨(key, value), List.mem_append_right _ hlookup, hname, rfl⟩

def spellingRun : List Step :=
  [⟨.setHeader (ascii "Origin") (ascii "a"), {}⟩, ⟨.setHeader (ascii "origin") (ascii "b"), {}⟩]

def distinctRun : List Step :=
  [⟨.setHeader (ascii "Origin") (ascii "a"), {}⟩, ⟨.setHeader (ascii "Origin") (ascii "b"), {}⟩,
    ⟨.setCookie (ascii "k") (ascii "v"), {}⟩]

theorem last_writer_loses : ¬ LastWriterWins
    (decorator ((new .webSocket (ascii "h") 80 (ascii "/")).run spellingRun).cookies
      ((new .webSocket (ascii "h") 80 (ascii "/")).run spellingRun).headers)
    ((new .webSocket (ascii "h") 80 (ascii "/")).acceptedHeaders spellingRun) := by
  intro h
  exact absurd h.distinct (by decide +kernel)

theorem last_writer_wins_distinct : LastWriterWins
    (decorator [(ascii "k", ascii "v")] [(ascii "Origin", ascii "b")])
    ((new .webSocket (ascii "h") 80 (ascii "/")).acceptedHeaders distinctRun) := by
  have hvalid : Unambiguous
      ((new .webSocket (ascii "h") 80 (ascii "/")).validCookies distinctRun)
      ((new .webSocket (ascii "h") 80 (ascii "/")).validHeaders distinctRun) :=
    ⟨by decide +kernel, by decide +kernel⟩
  exact (@last_writer_wins_iff .webSocket (ascii "h") (ascii "/") 80 distinctRun _ _
    (by decide +kernel) (by decide +kernel)).mpr hvalid

end World
end GWSockets
