import GWSockets.Endpoint

namespace GWSockets

namespace Url

open Checked (Decides)

section pieces

variable {url : Bytes} {pieces : Pieces} {f : Failure}

theorem decode_refused {plain : UInt8 → UInt8} {s : Bytes}
    (h : decodeWith plain s = .error f) : Refused f := by
  rw [decodeWith_eq] at h
  split at h
  · cases h
  · cases h
    rfl

theorem optional_refused {α β : Type} {default : β} {g : α → Except Failure β}
    {o : Option α} (hg : ∀ a, g a = .error f → Refused f)
    (h : optional default g o = .error f) : Refused f := by
  cases o with
  | none => cases h
  | some a => exact hg a h

theorem queryLoop_refused {b : Bytes} (h : queryLoop url b = .error f) : Refused f := by
  rcases @queryLoop_decides url b with ⟨-, query, hq⟩ | ⟨-, e, he, hr⟩
  · rw [hq] at h
    cases h
  · rw [he] at h
    cases h
    exact hr

theorem normalize_bare (hhost : pieces.host = none) (hport : pieces.port = none) :
    (∃ parsed, normalize url pieces = .ok parsed ∧ parsed.host = [] ∧ parsed.port = []) ∨
      ∃ f, normalize url pieces = .error f ∧ Refused f := by
  cases h : normalize url pieces with
  | ok parsed =>
    obtain ⟨user, -, h⟩ := Checked.bind_ok.mp h
    obtain ⟨host, hh, h⟩ := Checked.bind_ok.mp h
    obtain ⟨path, -, h⟩ := Checked.bind_ok.mp h
    obtain ⟨query, -, h⟩ := Checked.bind_ok.mp h
    obtain ⟨fragment, -, h⟩ := Checked.bind_ok.mp h
    rw [hhost] at hh
    cases hh
    cases h
    exact .inl ⟨_, rfl, rfl, by rw [hport]; rfl⟩
  | error f =>
    refine .inr ⟨f, rfl, ?_⟩
    rcases Checked.bind_error.mp h with h | ⟨user, -, h⟩
    · exact optional_refused (fun _ => decode_refused) h
    rcases Checked.bind_error.mp h with h | ⟨host, -, h⟩
    · rw [hhost] at h
      cases h
    rcases Checked.bind_error.mp h with h | ⟨path, -, h⟩
    · exact optional_refused (fun _ h => decode_refused (Checked.map_error.mp h)) h
    rcases Checked.bind_error.mp h with h | ⟨query, -, h⟩
    · refine optional_refused (fun q h => ?_) h
      split at h
      · cases h
      · exact queryLoop_refused h
    rcases Checked.bind_error.mp h with h | ⟨fragment, -, h⟩
    · exact optional_refused (fun _ => decode_refused) h
    · cases h

end pieces

def Spelled (url : Bytes) : Prop := ∃ r : Reference, r.spell = url ∧ url.length ≤ 8000

theorem create_bare {url : Bytes} {verify : Bool} {parsed : Parsed}
    (hparse : parseUrl url = .ok parsed) (hhost : parsed.host = []) (hport : parsed.port = []) :
    ∃ f, createWebSocketFromURL url verify = .error f ∧ Refused f := by
  rw [Reference.create_of_parsed hparse, hhost, hport]
  exact ⟨_, rfl, rfl⟩

theorem create_error {url : Bytes} {verify : Bool} {f : Failure} (h : parseUrl url = .error f) :
    createWebSocketFromURL url verify = .error f := by
  show (parseUrl url).bind _ = _
  rw [h]
  rfl

theorem create_unspelled {url : Bytes} {verify : Bool} (h : ¬ Spelled url) :
    ∃ f, createWebSocketFromURL url verify = .error f ∧ Refused f := by
  cases hempty : url.isEmpty with
  | true =>
    have hparse : parseUrl url = .ok {} := by simp [parseUrl, hempty]
    exact create_bare hparse rfl rfl
  | false =>
    by_cases hlen : 8000 < url.length
    · have hparse : parseUrl url =
          .error (.parseError (ascii "URI is longer than 8000 characters")) := by
        simp [parseUrl, hempty, hlen]
      exact ⟨_, create_error hparse, rfl⟩
    · have hparse : parseUrl url = (split url).bind (normalize url) := by
        rw [parseUrl, hempty, if_neg hlen]
        rfl
      cases hsplit : split url with
      | error f =>
        rw [hsplit] at hparse
        exact ⟨f, create_error hparse, split_error hsplit⟩
      | ok pieces =>
        rw [hsplit] at hparse
        rcases split_ok hsplit with ⟨r, hr, -⟩ | ⟨hhost, hport⟩
        · exact absurd ⟨r, hr, not_lt.mp hlen⟩ h
        · rcases @normalize_bare url pieces hhost hport with
            ⟨parsed, hn, hh, hp⟩ | ⟨f, hn, hr⟩
          · exact create_bare (hparse.trans hn) hh hp
          · exact ⟨f, create_error (hparse.trans hn), hr⟩

namespace Reference

variable (r : Reference)

def HostRefused : Prop := ∃ t ∈ r.host.ipv6Text, isIPv6 t = false

def HostFits : Prop := ∀ t ∈ r.host.ipv6Text, isIPv6 t = true → Fits t

def PortFits : Prop := ∀ t ∈ r.port, decimalValue t ≤ 65535

def Nameless : Prop := r.host.text = []

section host

theorem host_refused (h : r.HostRefused) :
    ∃ f, normalizeHost r.host.ipV r.host.text = .error f ∧ Refused f := by
  obtain ⟨t, ht, hipv6⟩ := h
  rw [Host.normalizeHost_eq, ht]
  exact ⟨_, if_pos (by simp [hipv6]), rfl⟩

theorem host_outOfBounds (h : ¬ r.HostFits) :
    normalizeHost r.host.ipV r.host.text = .error .outOfBounds := by
  simp only [HostFits, not_forall] at h
  obtain ⟨t, ht, hipv6, hfits⟩ := h
  rw [Host.normalizeHost_eq, ht]
  exact (normalizeIPv6_eq hipv6).2 hfits

theorem mem_toLower {s : Bytes} {c : UInt8}
    (hc : ∀ x : UInt8, (if 0x41 ≤ x ∧ x ≤ 0x5A then x ||| 0x20 else x) = c ↔ x = c) :
    c ∈ toLower s ↔ c ∈ s := by
  rw [toLower, List.mem_map]
  simp [hc]

theorem host_ok (hr : ¬ r.HostRefused) (hf : r.HostFits) :
    ∃ host, normalizeHost r.host.ipV r.host.text = .ok host ∧ (host = [] ↔ r.Nameless) ∧
      (0x3A ∈ host ↔ 0x3A ∈ r.host.text) := by
  rw [Host.normalizeHost_eq]
  cases ht : r.host.ipv6Text with
  | some t =>
    have hipv6 : isIPv6 t = true := by
      by_contra h
      exact hr ⟨t, ht, by simpa using h⟩
    have hne : t ≠ [] := by
      rintro rfl
      cases hipv6
    obtain ⟨host, hhost, hcolon⟩ := (normalizeIPv6_eq hipv6).1 (hf t ht hipv6)
    obtain ⟨rfl, -⟩ := r.host.ipv6Text_eq_some ht
    have hmem := colon_mem_of_fits hne (hf _ ht hipv6)
    refine ⟨host, hhost, ?_, by simp [hcolon, hmem]⟩
    exact ⟨fun h => absurd (h ▸ hcolon) (by simp), fun h => absurd h hne⟩
  | none =>
    refine ⟨_, rfl, ?_, ?_⟩
    · rw [Nameless]
      split
      · exact List.map_eq_nil_iff
      · exact Iff.rfl
    · split
      · exact mem_toLower (forall_byte (by decide +kernel))
      · exact Iff.rfl

end host

section outcome

variable {r} {verify : Bool}

theorem create_host_error {f : Failure} (hlen : r.spell.length ≤ 8000)
    (h : normalizeHost r.host.ipV r.host.text = .error f) :
    createWebSocketFromURL r.spell verify = .error f := by
  refine create_error ((r.parseUrl_spell hlen).trans ?_)
  rw [normalize_eq, h]
  rfl

theorem create_undecodable {host : Bytes} (hlen : r.spell.length ≤ 8000)
    (hhost : normalizeHost r.host.ipV r.host.text = .ok host) (hd : ¬ r.Decodable) :
    ∃ f, createWebSocketFromURL r.spell verify = .error f ∧ Refused f := by
  obtain ⟨f, hf, hrefused⟩ := (@normalize_decides r r.spell host hhost).error hd
  exact ⟨f, create_error ((r.parseUrl_spell hlen).trans hf), hrefused⟩

theorem create_outOfRange {host : Bytes} (hlen : r.spell.length ≤ 8000)
    (hhost : normalizeHost r.host.ipV r.host.text = .ok host) (hd : r.Decodable)
    (hp : ¬ r.PortFits) : createWebSocketFromURL r.spell verify = .error .outOfRange := by
  simp only [PortFits, not_forall, not_le] at hp
  obtain ⟨t, ht, hvalue⟩ := hp
  have hlarge : 2 ^ 31 ≤ decimalValue t := by
    rcases isPort_value (r.port_valid t ht) with h | h <;> omega
  have hport : r.requestedPort = .error .outOfRange := by
    rw [requestedPort, ht]
    exact if_pos hlarge
  rw [create_spell r hlen hhost hd, hport]
  rfl

theorem portNumber_le (hp : r.PortFits) : r.portNumber ≤ 65535 := by
  unfold portNumber
  split
  · next t ht => exact hp t ht
  · unfold defaultPort
    split <;> decide

theorem create_fits {host : Bytes} (hlen : r.spell.length ≤ 8000)
    (hhost : normalizeHost r.host.ipV r.host.text = .ok host) (hd : r.Decodable)
    (hp : r.PortFits) : createWebSocketFromURL r.spell verify =
      if host.isEmpty then
        .error (.invalidArgument (ascii "Invalid url passed. Make sure it includes a scheme"))
      else .ok (World.new (r.kind verify) host r.portNumber r.target) := by
  have hmod : r.portNumber % 2 ^ 16 = r.portNumber :=
    Nat.mod_eq_of_lt (Nat.lt_of_le_of_lt (portNumber_le hp) (by decide))
  have hport : r.requestedPort = .ok r.portNumber := by
    unfold requestedPort portNumber
    split
    · next t ht =>
      have hle := hp t ht
      exact if_neg (by omega)
    · rfl
  rw [create_spell r hlen hhost hd, hport]
  show (if host.isEmpty = true then _ else Except.ok (World.new _ _ (r.portNumber % 2 ^ 16) _)) = _
  rw [hmod]

def Rejected (r : Reference) : Prop :=
  r.HostRefused ∨ (r.HostFits ∧ (¬ r.Decodable ∨ (r.PortFits ∧ r.Nameless)))

structure Accepted (r : Reference) : Prop where
  host : ¬ r.HostRefused
  fits : r.HostFits
  decodable : r.Decodable
  port : r.PortFits
  named : ¬ r.Nameless

theorem create_rejected (hlen : r.spell.length ≤ 8000) (h : r.Rejected) :
    ∃ f, createWebSocketFromURL r.spell verify = .error f ∧ Refused f := by
  by_cases hr : r.HostRefused
  · obtain ⟨f, hf, hrefused⟩ := r.host_refused hr
    exact ⟨f, create_host_error hlen hf, hrefused⟩
  · obtain ⟨hfits, h⟩ := h.resolve_left hr
    obtain ⟨host, hhost, hnil, -⟩ := r.host_ok hr hfits
    by_cases hd : r.Decodable
    · obtain ⟨hport, hnameless⟩ := h.resolve_left (not_not_intro hd)
      rw [create_fits hlen hhost hd hport, hnil.mpr hnameless]
      exact ⟨_, rfl, rfl⟩
    · exact create_undecodable hlen hhost hd

theorem create_accepted (hlen : r.spell.length ≤ 8000) (h : r.Accepted) :
    ∃ host, normalizeHost r.host.ipV r.host.text = .ok host ∧
      createWebSocketFromURL r.spell verify =
        .ok (World.new (r.kind verify) host r.portNumber r.target) ∧
      host ≠ [] ∧ (0x3A ∈ host ↔ 0x3A ∈ r.host.text) := by
  obtain ⟨host, hhost, hnil, hcolon⟩ := r.host_ok h.host h.fits
  have hne : host ≠ [] := fun hh => h.named (hnil.mp hh)
  refine ⟨host, hhost, ?_, hne, hcolon⟩
  rw [create_fits hlen hhost h.decodable h.port, if_neg (by simpa using hne)]

theorem create_failed (hlen : r.spell.length ≤ 8000) (hr : ¬ r.Rejected) (ha : ¬ r.Accepted) :
    createWebSocketFromURL r.spell verify = .error .outOfBounds ∨
      createWebSocketFromURL r.spell verify = .error .outOfRange := by
  by_cases hfits : r.HostFits
  · have hhost : ¬ r.HostRefused := fun h => hr (.inl h)
    have hd : r.Decodable := by
      by_contra h
      exact hr (.inr ⟨hfits, .inl h⟩)
    obtain ⟨host, hok, -⟩ := r.host_ok hhost hfits
    refine .inr (create_outOfRange hlen hok hd fun hp => ?_)
    exact ha ⟨hhost, hfits, hd, hp, fun hn => hr (.inr ⟨hfits, .inr ⟨hp, hn⟩⟩)⟩
  · exact .inl (create_host_error hlen (r.host_outOfBounds hfits))

theorem not_rejected_of_accepted (h : r.Accepted) : ¬ r.Rejected := by
  rintro (hr | ⟨-, hd | ⟨-, hn⟩⟩)
  · exact h.host hr
  · exact hd h.decodable
  · exact h.named hn

theorem accepted_of_ok {w : World} (hlen : r.spell.length ≤ 8000)
    (h : createWebSocketFromURL r.spell verify = .ok w) : r.Accepted := by
  by_contra ha
  by_cases hr : r.Rejected
  · obtain ⟨f, hf, -⟩ := @create_rejected r verify hlen hr
    rw [hf] at h
    cases h
  · rcases @create_failed r verify hlen hr ha with hf | hf <;>
    · rw [hf] at h
      cases h

theorem create_world {w : World} (hlen : r.spell.length ≤ 8000)
    (h : createWebSocketFromURL r.spell verify = .ok w) :
    ∃ host, normalizeHost r.host.ipV r.host.text = .ok host ∧
      w = World.new (r.kind verify) host r.portNumber r.target ∧ host ≠ [] ∧
      (0x3A ∈ host ↔ 0x3A ∈ r.host.text) := by
  obtain ⟨host, hhost, hcreate, hrest⟩ := create_accepted hlen (accepted_of_ok hlen h)
  rw [hcreate] at h
  cases h
  exact ⟨host, hhost, rfl, hrest⟩

end outcome

end Reference

theorem create_ok {url : Bytes} {verify : Bool} {w : World}
    (h : createWebSocketFromURL url verify = .ok w) :
    ∃ r : Reference, r.spell = url ∧ url.length ≤ 8000 ∧ r.Accepted := by
  by_cases hs : Spelled url
  · obtain ⟨r, rfl, hlen⟩ := hs
    exact ⟨r, rfl, hlen, Reference.accepted_of_ok hlen h⟩
  · obtain ⟨f, hf, -⟩ := @create_unspelled url verify hs
    rw [hf] at h
    cases h

end Url
end GWSockets
