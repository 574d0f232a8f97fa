import GWSockets.Escape
import GWSockets.Literal
import GWSockets.Step

namespace GWSockets

-- std::stoi on a string of digits.
def stoi (s : Bytes) : Except Failure Nat :=
  if 2 ^ 31 ≤ decimalValue s then .error .outOfRange else .ok (decimalValue s)

def createWebSocketFromURL (urlString : Bytes) (verifyCertificate : Bool) :
    Except Failure World := do
  let url ← Url.parseUrl urlString
  let path := if url.path.isEmpty then ascii "/" else url.path
  let useSSL := url.scheme == ascii "https" || url.scheme == ascii "wss"
  let port ← if url.port.isEmpty then pure (if useSSL then 443 else 80) else stoi url.port
  let port := port % 2 ^ 16
  if url.host.isEmpty then
    .error (.invalidArgument (ascii "Invalid url passed. Make sure it includes a scheme"))
  else if useSSL then pure (World.new (.sslWebSocket verifyCertificate) url.host port path)
  else pure (World.new .webSocket url.host port path)

namespace Url

open Checked (Decides)

namespace Host

-- The text that normalize_IPv6 is given.
def ipv6Text : Host → Option Bytes
  | name _ _ => none
  | ipv6 text _ => some text
  | future version _ text _ _ => if version = 6 then some text else none

variable (host : Host)

theorem percent_not_mem_text : 0x25 ∉ host.text := by
  cases host with
  | name t ht => exact not_mem_isChars ht (by decide)
  | ipv6 t ht => exact not_mem_isIPv6 ht (by decide)
  | future v d t hd ht => exact not_mem_isChars ht (by decide)

theorem ipv6Text_eq_some {t : Bytes} (h : host.ipv6Text = some t) :
    t = host.text ∧ host.ipV = 6 := by
  cases host with
  | name t ht => cases h
  | ipv6 t ht =>
    cases h
    exact ⟨rfl, rfl⟩
  | future v d t hd ht =>
    simp only [ipv6Text, Option.ite_none_right_eq_some, Option.some.injEq] at h
    obtain ⟨rfl, rfl⟩ := h
    exact ⟨rfl, rfl⟩

theorem ipv6Text_eq_none (h : host.ipv6Text = none) : host.ipV ≠ 6 := by
  cases host with
  | name t ht =>
    simp only [ipV]
    split <;> decide
  | ipv6 t ht => cases h
  | future v d t hd ht =>
    have hv : v ≠ 6 := by
      rintro rfl
      simp [ipv6Text] at h
    intro hip
    have hnat : (v.toNat : Int) = 6 := hip
    exact hv (UInt8.toNat_inj.mp (by exact_mod_cast hnat))

theorem normalizeHost_eq : normalizeHost host.ipV host.text =
    match host.ipv6Text with
    | some t => normalizeIPv6 t
    | none => .ok (if host.ipV = 0 then toLower host.text else host.text) := by
  have hdecode : normalizeHost host.ipV host.text =
      if host.ipV = 0 then .ok (toLower host.text)
      else if host.ipV = 6 then normalizeIPv6 host.text else .ok host.text := by
    show (decode host.text).bind _ = _
    rw [decode_of_not_mem host.percent_not_mem_text]
    rfl
  rw [hdecode]
  cases h : host.ipv6Text with
  | none =>
    rw [if_neg (host.ipv6Text_eq_none h)]
    split <;> rfl
  | some t =>
    obtain ⟨rfl, hip⟩ := host.ipv6Text_eq_some h
    rw [hip]
    rfl

end Host

namespace Reference

variable (r : Reference) {url : Bytes}

structure Decodable : Prop where
  path : wellEscaped r.path = true
  query : ∀ q ∈ r.query, QueryText q
  fragment : ∀ f ∈ r.fragment, wellEscaped f = true

theorem optional_decides {α β : Type} {default : β} {f : α → Except Failure β} {p : α → Prop}
    (h : ∀ a, Decides Refused (p a) (f a)) (o : Option α) :
    Decides Refused (∀ a ∈ o, p a) (optional default f o) := by
  cases o with
  | none => exact (Decides.pure default).congr (by simp)
  | some a => exact (h a).congr (by simp)

theorem normalize_eq : normalize url r.pieces =
    (normalizeHost r.host.ipV r.host.text).bind fun host =>
      ((decode r.path).map normalizePath).bind fun path =>
        (optional [] (fun query => if query = [] then pure [] else queryLoop url query)
          r.query).bind fun query =>
          (optional [] decode r.fragment).bind fun fragment =>
            .ok { scheme := (r.scheme.map normalizeScheme).getD [], user := r.user.getD [],
                  host := host, ipV := r.host.ipV, port := r.port.getD [], path := path,
                  query := query, fragment := fragment } := by
  have huser : optional [] decode r.user = .ok (r.user.getD []) := by
    cases hu : r.user with
    | none => rfl
    | some t => exact decode_of_not_mem (not_mem_isChars (r.user_valid t hu) (by decide))
  show (optional [] decode r.user).bind _ = _
  rw [huser]
  rfl

theorem normalize_decides {host : Bytes} (h : normalizeHost r.host.ipV r.host.text = .ok host) :
    Decides Refused r.Decodable (normalize url r.pieces) := by
  have hquery : ∀ q, Decides Refused (QueryText q)
      (if q = [] then pure [] else queryLoop url q) := by
    intro q
    split
    · next hq =>
      subst hq
      exact (Decides.pure []).congr (by simp [QueryText, isChars, wellEscaped])
    · exact queryLoop_decides q
  rw [normalize_eq, h]
  refine Decides.congr ?_ ((decode_decides r.path).map.bind fun path _ =>
    (optional_decides hquery r.query).bind fun query _ =>
      (optional_decides (fun f => decode_decides f) r.fragment).bind fun fragment _ => .pure _)
  constructor
  · rintro ⟨hp, hq, hf, -⟩
    exact ⟨hp, hq, hf⟩
  · intro hd
    exact ⟨hd.path, hd.query, hd.fragment, trivial⟩

theorem normalize_ok {parsed : Parsed} (h : normalize url r.pieces = .ok parsed) :
    normalizeHost r.host.ipV r.host.text = .ok parsed.host ∧
      parsed.scheme = (r.scheme.map normalizeScheme).getD [] ∧ parsed.port = r.port.getD [] ∧
      parsed.path = normalizePath (unescape r.path) := by
  rw [normalize_eq] at h
  obtain ⟨host, hhost, h⟩ := Checked.bind_ok.mp h
  obtain ⟨path, hpath, h⟩ := Checked.bind_ok.mp h
  obtain ⟨query, -, h⟩ := Checked.bind_ok.mp h
  obtain ⟨fragment, -, h⟩ := Checked.bind_ok.mp h
  cases h
  obtain ⟨text, htext, rfl⟩ := Checked.map_ok.mp hpath
  rw [decode, decodeWith_eq, Checked.ite_ok] at htext
  rw [← htext.2]
  exact ⟨hhost, rfl, rfl, rfl⟩

end Reference

section port

theorem uintLoop_value {s : Bytes} {n v : Nat} (h : uintLoop (n % 2 ^ 32) s = (v, [])) :
    v = s.foldl (fun v c => v * 10 + (c.toNat - 0x30)) n % 2 ^ 32 := by
  induction s generalizing n with
  | nil =>
    cases h
    rfl
  | cons c s ih =>
    rw [uintLoop] at h
    split at h
    · have hmod : (n % 2 ^ 32 * 10 + (c.toNat - 0x30)) % 2 ^ 32 =
          (n * 10 + (c.toNat - 0x30)) % 2 ^ 32 := by omega
      rw [hmod] at h
      exact ih h
    · cases h

theorem isPort_value {t : Bytes} (h : isPort t = true) :
    decimalValue t ≤ 65535 ∨ 2 ^ 32 ≤ decimalValue t := by
  obtain ⟨c, t, rfl, hc, hzero, hloop⟩ := isPort_cons h
  have hfold : decimalValue (c :: t) =
      t.foldl (fun v c => v * 10 + (c.toNat - 0x30)) (c.toNat - 0x30) := by
    rw [decimalValue, List.foldl_cons, Nat.zero_mul, Nat.zero_add]
  by_cases h0 : c = 0x30
  · subst h0
    rw [hfold, hzero rfl]
    exact .inl (by decide)
  · obtain ⟨v, hv, hle⟩ := hloop h0
    have hsmall : c.toNat - 0x30 < 2 ^ 32 := by
      have := c.toNat_lt
      omega
    rw [← Nat.mod_eq_of_lt hsmall] at hv
    have hval := uintLoop_value hv
    rw [← hfold] at hval
    omega

end port

namespace Reference

variable (r : Reference) {url : Bytes} {verify : Bool}

def secure : Bool :=
  match r.scheme with
  | some t => toLower t == ascii "https" || toLower t == ascii "wss"
  | none => false

def kind (verify : Bool) : SocketClass :=
  if r.secure then .sslWebSocket verify else .webSocket

def defaultPort : Nat := if r.secure then 443 else 80

def portNumber : Nat :=
  match r.port with
  | some t => decimalValue t
  | none => r.defaultPort

def requestedPort : Except Failure Nat :=
  match r.port with
  | some t => stoi t
  | none => .ok r.defaultPort

def target : Bytes :=
  if (normalizePath (unescape r.path)).isEmpty then ascii "/" else normalizePath (unescape r.path)

theorem secure_eq : (((r.scheme.map normalizeScheme).getD []) == ascii "https" ||
    ((r.scheme.map normalizeScheme).getD []) == ascii "wss") = r.secure := by
  rw [secure]
  cases r.scheme with
  | none => rfl
  | some t => rfl

theorem port_ne_nil {t : Bytes} (h : isPort t = true) : t.isEmpty = false := by
  obtain ⟨c, t, rfl, -⟩ := isPort_cons h
  rfl

theorem parseUrl_spell (h : r.spell.length ≤ 8000) :
    parseUrl r.spell = normalize r.spell r.pieces := by
  have hne : r.spell.isEmpty = false := by
    rw [spell]
    cases r.scheme with
    | none => rfl
    | some t => cases t <;> rfl
  rw [parseUrl, hne, if_neg (not_lt.mpr h)]
  show (split r.spell).bind _ = _
  rw [split_spell]
  rfl

theorem create_of_parsed {parsed : Parsed} (hparse : parseUrl url = .ok parsed) :
    createWebSocketFromURL url verify =
      (if parsed.port.isEmpty then
          .ok (if parsed.scheme == ascii "https" || parsed.scheme == ascii "wss" then 443 else 80)
        else stoi parsed.port).bind fun port =>
      if parsed.host.isEmpty then
        .error (.invalidArgument (ascii "Invalid url passed. Make sure it includes a scheme"))
      else .ok (World.new
        (if parsed.scheme == ascii "https" || parsed.scheme == ascii "wss"
          then .sslWebSocket verify else .webSocket)
        parsed.host (port % 2 ^ 16) (if parsed.path.isEmpty then ascii "/" else parsed.path)) := by
  show (parseUrl url).bind _ = _
  rw [hparse]
  dsimp only [Except.bind]
  generalize (parsed.scheme == ascii "https" || parsed.scheme == ascii "wss") = useSSL
  generalize parsed.port.isEmpty = defaulted
  cases useSSL <;> cases defaulted <;> rfl

theorem create_spell {host : Bytes} (hlen : r.spell.length ≤ 8000)
    (hhost : normalizeHost r.host.ipV r.host.text = .ok host) (hd : r.Decodable) :
    createWebSocketFromURL r.spell verify =
      r.requestedPort.bind fun port =>
      if host.isEmpty then
        .error (.invalidArgument (ascii "Invalid url passed. Make sure it includes a scheme"))
      else .ok (World.new (r.kind verify) host (port % 2 ^ 16) r.target) := by
  obtain ⟨parsed, hparsed⟩ : ∃ parsed, normalize r.spell r.pieces = .ok parsed :=
    (r.normalize_decides hhost).ok hd
  obtain ⟨hh, hscheme, hport, hpath⟩ := r.normalize_ok hparsed
  rw [hhost] at hh
  cases hh
  rw [create_of_parsed ((r.parseUrl_spell hlen).trans hparsed), hscheme, secure_eq, hport,
    hpath, requestedPort]
  cases hp : r.port with
  | none => rfl
  | some t =>
    rw [Option.getD_some, port_ne_nil (r.port_valid t hp)]
    rfl

end Reference

end Url
end GWSockets
