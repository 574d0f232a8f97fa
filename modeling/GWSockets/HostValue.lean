import GWSockets.Creation
import GWSockets.Request

namespace GWSockets

namespace Url

section decimal

variable {n : Nat}

theorem byte_of_isDigit {c : Char} (h : c.isDigit = true) :
    isNum (UInt8.ofNat c.toNat) = true ∧ (UInt8.ofNat c.toNat).toNat = c.toNat := by
  obtain ⟨hlow, hhigh⟩ := Char.isDigit_iff_toNat.mp h
  have hzero : '0'.toNat = 48 := rfl
  have hnine : '9'.toNat = 57 := rfl
  have hvalue : (UInt8.ofNat c.toNat).toNat = c.toNat :=
    UInt8.toNat_ofNat_of_lt' (by unfold UInt8.size; omega)
  refine ⟨?_, hvalue⟩
  simp only [isNum, Bool.and_eq_true, decide_eq_true_eq, UInt8.le_iff_toNat_le, hvalue]
  exact ⟨hlow, hhigh⟩

theorem foldl_digits {l : List Char} (h : ∀ c ∈ l, c.isDigit = true) (v : Nat) :
    (l.map (fun c => UInt8.ofNat c.toNat)).foldl (fun v c => v * 10 + (c.toNat - 0x30)) v =
      Nat.ofDigitChars 10 l v := by
  induction l generalizing v with
  | nil => rfl
  | cons c l ih =>
    obtain ⟨hc, hl⟩ := List.forall_mem_cons.mp h
    rw [List.map_cons, List.foldl_cons, ih hl, Nat.ofDigitChars_cons, (byte_of_isDigit hc).2,
      Nat.mul_comm v]
    rfl

theorem isDigit_toDigits : ∀ c ∈ Nat.toDigits 10 n, c.isDigit = true := fun _ hc =>
  Nat.isDigit_of_mem_toDigits (by decide) (by decide) hc

theorem decimalValue_decimal : decimalValue (decimal n) = n := by
  rw [decimalValue, decimal, foldl_digits isDigit_toDigits, Nat.ofDigitChars_ten_toDigits]

theorem isNum_decimal : ∀ c ∈ decimal n, isNum c = true := by
  intro c hc
  obtain ⟨x, hx, rfl⟩ := List.mem_map.mp hc
  exact (byte_of_isDigit (isDigit_toDigits x hx)).1

theorem decimal_ne_nil : decimal n ≠ [] := by
  rw [decimal, ne_eq, List.map_eq_nil_iff]
  exact Nat.toDigits_ne_nil

end decimal

section read

def impliedPort (kind : SocketClass) : Nat := if kind = .webSocket then 80 else 443

def readPort (kind : SocketClass) : Bytes → Option Nat
  | [] => some (impliedPort kind)
  | c :: text =>
      if c = 0x3A ∧ text.all isNum = true then
        some (if text = [] then impliedPort kind else decimalValue text)
      else none

-- What uri-host [ : port ] names, an address with colons standing in brackets.
def readHost (kind : SocketClass) (text : Bytes) : Option (Bytes × Nat) :=
  if text.head? = some 0x5B then
    let (literal, rest) := findChar (text.drop 1) 0x5D
    if rest = [] then none else (readPort kind (rest.drop 1)).map (literal, ·)
  else
    let (name, rest) := findChar text 0x3A
    (readPort kind rest).map (name, ·)

variable {kind kind' : SocketClass} {host : Bytes} {port : Nat}

theorem readHost_congr (h : kind' = .webSocket ↔ kind = .webSocket) :
    readHost kind' = readHost kind := by
  have himplied : impliedPort kind' = impliedPort kind := by simp only [impliedPort, h]
  have hport : readPort kind' = readPort kind := by
    funext text
    cases text <;> simp only [readPort, himplied]
  funext text
  simp only [readHost, hport]

def portSuffix (port : Nat) : Bytes := if port ≠ 80 then 0x3A :: decimal port else []

theorem hostWithPort_eq (w : World) : w.hostWithPort = w.host ++ portSuffix w.port := by
  rw [World.hostWithPort, portSuffix]
  split
  · simp [ascii]
  · simp

theorem readPort_suffix : readPort kind (portSuffix port) = some port ↔
    kind = .webSocket ∨ port ≠ 80 := by
  rw [portSuffix]
  split
  · next h =>
    have hall : (decimal port).all isNum = true := List.all_eq_true.mpr isNum_decimal
    simp [readPort, hall, decimal_ne_nil, decimalValue_decimal, h]
  · next h =>
    obtain rfl : port = 80 := not_not.mp h
    rw [readPort, impliedPort]
    split <;> simp [*]

theorem not_mem_portSuffix {c : UInt8} (hcolon : c ≠ 0x3A) (hnum : isNum c = false) :
    c ∉ portSuffix port := by
  have hdigit : c ∉ decimal port := by
    intro hc
    rw [isNum_decimal c hc] at hnum
    cases hnum
  rw [portSuffix]
  split <;> simp [hcolon, hdigit]

theorem findChar_portSuffix (h : 0x3A ∉ host) :
    findChar (host ++ portSuffix port) 0x3A = (host, portSuffix port) := by
  rw [portSuffix]
  split
  · exact findChar_cons_iff.mpr ⟨rfl, h, rfl⟩
  · exact findChar_nil_iff.mpr ⟨List.append_nil _, h⟩

theorem readHost_bracket {rest : Bytes} :
    readHost kind (0x5B :: (rest ++ portSuffix port)) ≠ some (0x5B :: rest, port) := by
  intro h
  rw [readHost, if_pos List.head?_cons, List.drop_succ_cons, List.drop_zero] at h
  rcases hf : findChar (rest ++ portSuffix port) 0x5D with ⟨literal, tail⟩
  rw [hf] at h
  cases tail with
  | nil => cases h
  | cons x tail =>
    obtain ⟨hsplit, -, rfl⟩ := findChar_cons_iff.mp hf
    simp only [reduceCtorEq, if_false, Option.map_eq_some_iff, Prod.mk.injEq] at h
    obtain ⟨_, -, rfl, -⟩ := h
    have htail := congrArg (List.drop (rest.length + 1)) hsplit
    have hliteral : (0x5B :: rest ++ 0x5D :: tail).drop (rest.length + 1) = 0x5D :: tail :=
      List.drop_left' List.length_cons
    have hsuffix : (rest ++ portSuffix port).drop (rest.length + 1) = (portSuffix port).drop 1 := by
      simp [List.drop_append]
    rw [hliteral, hsuffix] at htail
    have hmem : (0x5D : UInt8) ∈ portSuffix port := by
      refine List.mem_of_mem_drop (i := 1) ?_
      rw [htail]
      exact List.mem_cons_self
    exact not_mem_portSuffix (by decide) (by decide) hmem

theorem readHost_iff : readHost kind (host ++ portSuffix port) = some (host, port) ↔
    host.head? ≠ some 0x5B ∧ 0x3A ∉ host ∧ (kind = .webSocket ∨ port ≠ 80) := by
  by_cases hbracket : host.head? = some 0x5B
  · obtain ⟨rest, rfl⟩ := List.head?_eq_some_iff.mp hbracket
    simp only [hbracket, ne_eq, not_true_eq_false, false_and, iff_false]
    exact readHost_bracket
  · have hhead : (host ++ portSuffix port).head? ≠ some 0x5B := by
      cases host with
      | nil =>
        intro h
        have hmem : (0x5B : UInt8) ∈ portSuffix port := List.mem_of_mem_head? h
        exact not_mem_portSuffix (by decide) (by decide) hmem
      | cons c rest => exact hbracket
    rw [readHost, if_neg hhead]
    by_cases hcolon : 0x3A ∈ host
    · simp only [hcolon, not_true_eq_false, false_and, and_false, iff_false]
      rcases hf : findChar (host ++ portSuffix port) 0x3A with ⟨name, rest⟩
      intro h
      obtain ⟨-, hname, -⟩ := findFirstOf_eq_iff.mp hf
      obtain ⟨_, -, heq⟩ := Option.map_eq_some_iff.mp h
      cases heq
      exact hname 0x3A hcolon (List.mem_singleton_self _)
    · rw [findChar_portSuffix hcolon]
      simp only [hbracket, hcolon, not_false_eq_true, ne_eq, true_and, Option.map_eq_some_iff,
        Prod.mk.injEq, exists_eq_right]
      exact readPort_suffix

end read

section endpoint

variable {url : Bytes} {verify : Bool} {w : World}

def NamesEndpoint (w : World) : Prop := ∀ host target, w.Handshakes host target →
  readHost w.kind host = some (w.host, w.port)

def Readable (url : Bytes) : Prop := ∀ r : Reference, r.spell = url →
  0x3A ∉ r.host.text ∧ (r.secure = true → r.portNumber ≠ 80)

theorem bracket_not_mem {r : Reference} {host : Bytes}
    (hhost : normalizeHost r.host.ipV r.host.text = .ok host) (hcolon : 0x3A ∉ host) :
    0x5B ∉ host := by
  have htext : 0x5B ∉ r.host.text := by
    cases r.host with
    | name t ht => exact not_mem_isChars ht (by decide)
    | ipv6 t ht => exact not_mem_isIPv6 ht (by decide)
    | future v d t hd ht => exact not_mem_isChars ht (by decide)
  rw [Host.normalizeHost_eq] at hhost
  cases ht : r.host.ipv6Text with
  | some t =>
    have hhost : normalizeIPv6 t = .ok host := by rwa [ht] at hhost
    cases hipv6 : isIPv6 t with
    | false =>
      rw [normalizeIPv6, hipv6] at hhost
      cases hhost
    | true =>
      by_cases hfits : Fits t
      · obtain ⟨host', hok, hmem⟩ := (normalizeIPv6_eq hipv6).1 hfits
        rw [hok] at hhost
        cases hhost
        exact absurd hmem hcolon
      · rw [(normalizeIPv6_eq hipv6).2 hfits] at hhost
        cases hhost
  | none =>
    rw [ht] at hhost
    cases hhost
    split
    · rwa [Reference.mem_toLower (forall_byte (by decide +kernel))]
    · exact htext

theorem namesEndpoint_iff {r : Reference} (hlen : r.spell.length ≤ 8000)
    (h : createWebSocketFromURL r.spell verify = .ok w) : NamesEndpoint w ↔
      0x3A ∉ r.host.text ∧ (r.secure = true → r.portNumber ≠ 80) := by
  obtain ⟨host, hhost, rfl, -, hcolon⟩ := r.create_world hlen h
  have hread : NamesEndpoint (World.new (r.kind verify) host r.portNumber r.target) ↔
      readHost (r.kind verify) (host ++ portSuffix r.portNumber) = some (host, r.portNumber) := by
    constructor
    · intro hn
      have heq := hn _ _ World.handshakes_new
      rwa [hostWithPort_eq] at heq
    · intro heq hostValue target hask
      obtain ⟨rfl, -⟩ := World.handshakes_new_iff.mp hask
      rwa [hostWithPort_eq]
  have hkind : (r.kind verify = .webSocket ∨ r.portNumber ≠ 80) ↔
      (r.secure = true → r.portNumber ≠ 80) := by
    rw [Reference.kind]
    cases r.secure <;> simp
  rw [hread, readHost_iff, hcolon, hkind]
  refine and_iff_right_of_imp fun hr hhead => ?_
  exact bracket_not_mem hhost (fun hm => hr.1 (hcolon.mp hm)) (List.mem_of_mem_head? hhead)

theorem host_value_iff (h : createWebSocketFromURL url verify = .ok w) :
    (NamesEndpoint w ↔ Readable url) ∧ (Readable url →
      ∀ url' verify' w', createWebSocketFromURL url' verify' = .ok w' → Readable url' →
        (w'.kind = .webSocket ↔ w.kind = .webSocket) → ∀ host target target',
          w.Handshakes host target → w'.Handshakes host target' →
            w'.host = w.host ∧ w'.port = w.port) := by
  have hnames : ∀ {url verify w}, createWebSocketFromURL url verify = .ok w →
      (NamesEndpoint w ↔ Readable url) := by
    intro url verify w h
    obtain ⟨r, rfl, hlen, -⟩ := create_ok h
    constructor
    · rintro hn r' hspell
      rw [← hspell] at h hlen
      exact (namesEndpoint_iff hlen h).mp hn
    · intro hr
      exact (namesEndpoint_iff hlen h).mpr (hr r rfl)
  refine ⟨hnames h, fun hr url' verify' w' h' hr' hkind host target target' hask hask' => ?_⟩
  have hread := (hnames h).mpr hr host target hask
  have hread' := (hnames h').mpr hr' host target' hask'
  rw [readHost_congr hkind, hread, Option.some.injEq, Prod.mk.injEq] at hread'
  exact ⟨hread'.1.symm, hread'.2.symm⟩

theorem host_value_secure :
    (NamesEndpoint (World.new (.sslWebSocket false) (ascii "h") 81 (ascii "/")) ↔
      Readable (ascii "https://H:81")) ∧ (Readable (ascii "https://H:81") →
      ∀ url' verify' w', createWebSocketFromURL url' verify' = .ok w' → Readable url' →
        (w'.kind = .webSocket ↔ SocketClass.sslWebSocket false = .webSocket) →
          ∀ host target target',
            (World.new (.sslWebSocket false) (ascii "h") 81 (ascii "/")).Handshakes host target →
              w'.Handshakes host target' → w'.host = ascii "h" ∧ w'.port = 81) :=
  @host_value_iff _ false _ (by decide +kernel)

-- Another port than the one connected to, no endpoint at all, and one value for two endpoints.
theorem host_value_misread : ∃ w₁ w₂ w₃,
    createWebSocketFromURL (ascii "wss://h:80/") true = .ok w₁ ∧
      createWebSocketFromURL (ascii "ws://[::1:2]/") true = .ok w₂ ∧
      createWebSocketFromURL (ascii "ws://[::1]:2/") true = .ok w₃ ∧
      ¬ NamesEndpoint w₁ ∧ ¬ NamesEndpoint w₂ ∧ ¬ NamesEndpoint w₃ ∧
      readHost w₁.kind w₁.hostWithPort = some (w₁.host, 443) ∧ w₁.port = 80 ∧
      w₂.hostWithPort = w₃.hostWithPort ∧ w₂.port ≠ w₃.port := by
  have hsecure : createWebSocketFromURL (ascii "wss://h:80/") true =
      .ok (World.new (.sslWebSocket true) (ascii "h") 80 (ascii "/")) := by
    decide +kernel
  have hlong : createWebSocketFromURL (ascii "ws://[::1:2]/") true =
      .ok (World.new .webSocket (ascii "::1:2") 80 (ascii "/")) := by
    decide +kernel
  have hport : createWebSocketFromURL (ascii "ws://[::1]:2/") true =
      .ok (World.new .webSocket (ascii "::1") 2 (ascii "/")) := by
    decide +kernel
  refine ⟨_, _, _, hsecure, hlong, hport, fun h => ?_, fun h => ?_, fun h => ?_, ?_⟩
  · have hread := h _ _ World.handshakes_new
    revert hread
    decide +kernel
  · have hread := h _ _ World.handshakes_new
    revert hread
    decide +kernel
  · have hread := h _ _ World.handshakes_new
    revert hread
    decide +kernel
  · decide +kernel

end endpoint

end Url
end GWSockets
