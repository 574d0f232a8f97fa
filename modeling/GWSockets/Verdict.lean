import GWSockets.Creation
import GWSockets.Request

namespace GWSockets

namespace Url

section answered

def PortOf (url : Bytes) (w : World) : Prop :=
  ∃ r : Reference, r.spell = url ∧ w.port ≤ 65535 ∧ w.port =
    match r.port with
    | some t => decimalValue t
    | none => if w.kind = .webSocket then 80 else 443

def Answered (url : Bytes) : Except Failure World → Prop
  | .ok w => PortOf url w
  | .error f => f.isInvalidArgument = true

def WithinLimits (url : Bytes) : Prop :=
  ∀ r : Reference, r.spell = url → url.length ≤ 8000 →
    r.HostFits ∧ (r.PortFits ∨ r.HostRefused ∨ ¬ r.Decodable)

theorem hostFits_of_refused {r : Reference} (h : r.HostRefused) : r.HostFits := by
  obtain ⟨t, ht, hipv6⟩ := h
  intro t' ht' hipv6'
  rw [ht] at ht'
  cases ht'
  rw [hipv6] at hipv6'
  cases hipv6'

theorem answered_accepted {r : Reference} {verify : Bool} (hlen : r.spell.length ≤ 8000)
    (h : r.Accepted) : Answered r.spell (createWebSocketFromURL r.spell verify) := by
  obtain ⟨host, -, hcreate, -⟩ := @Reference.create_accepted r verify hlen h
  rw [hcreate]
  refine ⟨r, rfl, Reference.portNumber_le h.port, ?_⟩
  show r.portNumber = match r.port with
    | some t => decimalValue t
    | none => if r.kind verify = .webSocket then 80 else 443
  rw [Reference.portNumber, Reference.defaultPort, Reference.kind]
  cases r.port with
  | some t => rfl
  | none => cases r.secure <;> rfl

theorem create_answered_iff (url : Bytes) (verify : Bool) :
    Answered url (createWebSocketFromURL url verify) ↔ WithinLimits url := by
  constructor
  · rintro h r rfl hlen
    by_cases hr : r.Rejected
    · rcases hr with hrefused | ⟨hfits, hd | ⟨hport, -⟩⟩
      · exact ⟨hostFits_of_refused hrefused, .inr (.inl hrefused)⟩
      · exact ⟨hfits, .inr (.inr hd)⟩
      · exact ⟨hfits, .inl hport⟩
    · by_cases ha : r.Accepted
      · exact ⟨ha.fits, .inl ha.port⟩
      · rcases @Reference.create_failed r verify hlen hr ha with hf | hf <;>
        · rw [hf] at h
          cases h
  · intro h
    by_cases hs : Spelled url
    · obtain ⟨r, rfl, hlen⟩ := hs
      obtain ⟨hfits, hport⟩ := h r rfl hlen
      by_cases hr : r.Rejected
      · obtain ⟨f, hf, hrefused⟩ := @Reference.create_rejected r verify hlen hr
        rw [hf]
        exact hrefused
      · have hhost : ¬ r.HostRefused := fun hh => hr (.inl hh)
        have hd : r.Decodable := not_not.mp fun hd => hr (.inr ⟨hfits, .inl hd⟩)
        have hp : r.PortFits :=
          (hport.resolve_right fun hh => hh.elim hhost (not_not_intro hd))
        have hnamed : ¬ r.Nameless := fun hn => hr (.inr ⟨hfits, .inr ⟨hp, hn⟩⟩)
        exact answered_accepted hlen ⟨hhost, hfits, hd, hp, hnamed⟩
    · obtain ⟨f, hf, hrefused⟩ := @create_unspelled url verify hs
      rw [hf]
      exact hrefused

theorem create_unanswered :
    ¬ (Answered (ascii "ws://h:4294967296/") (createWebSocketFromURL (ascii "ws://h:4294967296/")
        true)) ∧
      ¬ (Answered (ascii "ws://[1:2:3:4:5:6:7]/")
        (createWebSocketFromURL (ascii "ws://[1:2:3:4:5:6:7]/") true)) := by
  have hport : createWebSocketFromURL (ascii "ws://h:4294967296/") true = .error .outOfRange := by
    decide +kernel
  have hhost : createWebSocketFromURL (ascii "ws://[1:2:3:4:5:6:7]/") true =
      .error .outOfBounds := by
    decide +kernel
  rw [hport, hhost]
  exact ⟨Bool.false_ne_true, Bool.false_ne_true⟩

end answered

section gated

def HasScheme (names : List Bytes) (url : Bytes) : Prop :=
  ∃ t rest, url = t ++ 0x3A :: rest ∧ toLower t ∈ names

def secureSchemes : List Bytes := [ascii "wss", ascii "https"]

def schemes : List Bytes := [ascii "ws", ascii "wss", ascii "http", ascii "https"]

structure Gated (url : Bytes) (verify : Bool) (x : Except Failure World) : Prop where
  scheme : ∀ w, x = .ok w → HasScheme schemes url ∧
    ∃ r : Reference, r.spell = url ∧ r.host.text ≠ []
  secure : ∀ w, x = .ok w → (w.kind = .sslWebSocket verify ↔ HasScheme secureSchemes url) ∧
    (w.kind = .webSocket ↔ ¬ HasScheme secureSchemes url)
  refused : ¬ HasScheme schemes url → ∃ f, x = .error f ∧ f.isInvalidArgument = true

theorem findFirstOf_of_hasScheme {names : List Bytes} {url : Bytes}
    (hnames : ∀ n ∈ names, n.all isAlpha = true) (h : HasScheme names url) :
    ∃ t rest, findFirstOf url (ascii ":/?#") = (t, 0x3A :: rest) ∧ toLower t ∈ names := by
  obtain ⟨t, rest, rfl, ht⟩ := h
  have hletter : ∀ c : UInt8, isAlpha (if 0x41 ≤ c ∧ c ≤ 0x5A then c ||| 0x20 else c) = true →
      isAlpha c = true := forall_byte (by decide +kernel)
  have hclass : ∀ c ∈ ascii ":/?#", isAlpha c = false := forall_mem_bytes (by decide)
  have hclean : ∀ c ∈ t, c ∉ ascii ":/?#" := by
    intro c hc he
    have halpha := hletter c (List.all_eq_true.mp (hnames _ ht) _ (List.mem_map_of_mem hc))
    rw [hclass c he] at halpha
    cases halpha
  exact ⟨t, rest, findFirstOf_stop hclean (by decide), ht⟩

theorem hasScheme_iff {names : List Bytes} (r : Reference)
    (hnames : ∀ n ∈ names, n.all isAlpha = true) :
    HasScheme names r.spell ↔ ∃ t, r.scheme = some t ∧ toLower t ∈ names := by
  constructor
  · intro h
    obtain ⟨t, rest, hfind, ht⟩ := findFirstOf_of_hasScheme hnames h
    cases hs : r.scheme with
    | none =>
      have hspell : r.spell = [] ++ 0x2F :: 0x2F :: (r.toAuthority.spell ++ r.resource) := by
        rw [Reference.spell, hs]
        rfl
      rw [hspell, findFirstOf_stop (by simp) (by decide)] at hfind
      cases hfind
    | some t' =>
      have hspell : r.spell =
          t' ++ 0x3A :: (ascii "//" ++ (r.toAuthority.spell ++ r.resource)) := by
        simp [Reference.spell, hs, closed]
      have hclean : ∀ c ∈ t', c ∉ ascii ":/?#" := fun c hc he =>
        Reference.not_mem_scheme (r.scheme_valid t' hs) he hc
      rw [hspell, findFirstOf_stop hclean (by decide)] at hfind
      cases hfind
      exact ⟨t, rfl, ht⟩
  · rintro ⟨t, hs, ht⟩
    refine ⟨t, ascii "//" ++ (r.toAuthority.spell ++ r.resource), ?_, ht⟩
    simp [Reference.spell, hs, closed]

theorem secure_iff (r : Reference) : r.secure = true ↔ HasScheme secureSchemes r.spell := by
  rw [hasScheme_iff r (by decide), Reference.secure]
  cases r.scheme with
  | none => simp
  | some t => simp [secureSchemes, or_comm]

theorem kind_iff (r : Reference) (verify : Bool) :
    (r.kind verify = .sslWebSocket verify ↔ HasScheme secureSchemes r.spell) ∧
      (r.kind verify = .webSocket ↔ ¬ HasScheme secureSchemes r.spell) := by
  rw [← secure_iff, Reference.kind]
  cases r.secure <;> simp

theorem create_gated_iff (url : Bytes) (verify : Bool) :
    Gated url verify (createWebSocketFromURL url verify) ↔ HasScheme schemes url ∨
      ∀ r : Reference, r.spell = url → url.length ≤ 8000 → r.Rejected := by
  constructor
  · intro h
    by_cases hscheme : HasScheme schemes url
    · exact .inl hscheme
    · refine .inr ?_
      rintro r rfl hlen
      obtain ⟨f, hf, hrefused⟩ := h.refused hscheme
      by_contra hr
      by_cases ha : r.Accepted
      · obtain ⟨host, -, hcreate, -⟩ := @Reference.create_accepted r verify hlen ha
        rw [hcreate] at hf
        cases hf
      · rcases @Reference.create_failed r verify hlen hr ha with he | he <;>
        · rw [he] at hf
          cases hf
          cases hrefused
  · intro h
    have hscheme : ∀ w, createWebSocketFromURL url verify = .ok w → HasScheme schemes url := by
      intro w hw
      obtain ⟨r, hspell, hlen, ha⟩ := create_ok hw
      exact h.resolve_right fun hr => Reference.not_rejected_of_accepted ha (hr r hspell hlen)
    refine ⟨fun w hw => ⟨hscheme w hw, ?_⟩, fun w hw => ?_, fun hno => ?_⟩
    · obtain ⟨r, hspell, -, ha⟩ := create_ok hw
      exact ⟨r, hspell, ha.named⟩
    · obtain ⟨r, rfl, hlen, -⟩ := create_ok hw
      obtain ⟨host, -, rfl, -⟩ := r.create_world hlen hw
      exact kind_iff r verify
    · have hr := h.resolve_left hno
      by_cases hs : Spelled url
      · obtain ⟨r, rfl, hlen⟩ := hs
        exact Reference.create_rejected hlen (hr r rfl hlen)
      · exact create_unspelled hs

theorem create_ungated :
    ¬ Gated (ascii "//h") true (createWebSocketFromURL (ascii "//h") true) ∧
      ¬ Gated (ascii "wsss://h/") true (createWebSocketFromURL (ascii "wsss://h/") true) := by
  have hnone : createWebSocketFromURL (ascii "//h") true =
      .ok (World.new .webSocket (ascii "h") 80 (ascii "/")) := by
    decide +kernel
  have hother : createWebSocketFromURL (ascii "wsss://h/") true =
      .ok (World.new .webSocket (ascii "h") 80 (ascii "/")) := by
    decide +kernel
  rw [hnone, hother]
  constructor <;> intro h
  · obtain ⟨t, rest, hfind, -⟩ :=
      findFirstOf_of_hasScheme (by decide) (h.scheme _ rfl).1
    cases hfind
  · obtain ⟨t, rest, hfind, ht⟩ :=
      findFirstOf_of_hasScheme (by decide) (h.scheme _ rfl).1
    cases hfind
    revert ht
    decide

end gated

end Url
end GWSockets
