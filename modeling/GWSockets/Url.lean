import GWSockets.Base
import Mathlib.Algebra.Group.Nat.Defs

namespace GWSockets

inductive Failure where
  | parseError (reason : Bytes)
  | invalidArgument (what : Bytes)
  | outOfRange
  | outOfBounds
deriving DecidableEq, Repr

-- Url::parse_error is derived from std::invalid_argument.
def Failure.isInvalidArgument : Failure → Bool
  | .parseError _ | .invalidArgument _ => true
  | .outOfRange | .outOfBounds => false

namespace Url

section characters

def tbl : List UInt8 :=
  [0, 0, 0, 0, 0, 0, 0, 0, 0, 0, 0, 0, 0, 0, 0, 0,
    0, 0, 0, 0, 0, 0, 0, 0, 0, 0, 0, 0, 0, 0, 0, 0,
    0x00, 0x01, 0x00, 0x00, 0x01, 0x20, 0x01, 0x01,
    0x01, 0x01, 0x01, 0x01, 0x01, 0x01, 0x01, 0x08,
    0x01, 0x01, 0x01, 0x01, 0x01, 0x01, 0x01, 0x01,
    0x01, 0x01, 0x04, 0x01, 0x00, 0x01, 0x00, 0x10,
    0x02, 0x01, 0x01, 0x01, 0x01, 0x01, 0x01, 0x01,
    0x01, 0x01, 0x01, 0x01, 0x01, 0x01, 0x01, 0x01,
    0x01, 0x01, 0x01, 0x01, 0x01, 0x01, 0x01, 0x01,
    0x01, 0x01, 0x01, 0x00, 0x00, 0x00, 0x00, 0x01,
    0x00, 0x01, 0x01, 0x01, 0x01, 0x01, 0x01, 0x01,
    0x01, 0x01, 0x01, 0x01, 0x01, 0x01, 0x01, 0x01,
    0x01, 0x01, 0x01, 0x01, 0x01, 0x01, 0x01, 0x01,
    0x01, 0x01, 0x01, 0x00, 0x00, 0x00, 0x01, 0x00] ++
  List.replicate 128 0

def isChar (c mask : UInt8) : Bool := tbl.getD c.toNat 0 &&& mask != 0

def isChars (str : Bytes) (mask : UInt8) : Bool := str.all (fun c => isChar c mask)

def isAlpha (c : UInt8) : Bool := (0x41 ≤ c && c ≤ 0x5A) || (0x61 ≤ c && c ≤ 0x7A)

def isNum (c : UInt8) : Bool := 0x30 ≤ c && c ≤ 0x39

def isAlnum (c : UInt8) : Bool := isAlpha c || isNum c

def isHexdigit (c : UInt8) : Bool :=
  isNum c || (0x41 ≤ c && c ≤ 0x46) || (0x61 ≤ c && c ≤ 0x66)

def uintLoop (val : Nat) : Bytes → Nat × Bytes
  | [] => (val, [])
  | c :: t =>
      if isNum c then uintLoop ((val * 10 + (c.toNat - 0x30)) % 2 ^ 32) t else (val, c :: t)

-- What is left of the string after the number, if there is one and it is not larger than max.
def isUint (s : Bytes) (max : Nat) : Option Bytes :=
  match s with
  | [] => none
  | c :: t =>
      if isNum c then
        let first := c.toNat - 0x30
        let p := if first ≠ 0 then uintLoop first t else (first, t)
        if max < p.1 then none else some p.2
      else none

-- The -1 that stands for no digit is none here.
def getHexDigit (c : UInt8) : Option UInt8 :=
  if 0x30 ≤ c ∧ c ≤ 0x39 then some (c - 0x30)
  else if 0x41 ≤ c ∧ c ≤ 0x46 then some (c - 0x41 + 10)
  else if 0x61 ≤ c ∧ c ≤ 0x66 then some (c - 0x61 + 10)
  else none

def toLower (s : Bytes) : Bytes :=
  s.map (fun c => if 0x41 ≤ c ∧ c ≤ 0x5A then c ||| 0x20 else c)

def findFirstOf (s q : Bytes) : Bytes × Bytes :=
  (s.takeWhile (fun c => !q.contains c), s.dropWhile (fun c => !q.contains c))

theorem length_findFirstOf (s q : Bytes) : (findFirstOf s q).2.length ≤ s.length :=
  (List.dropWhile_suffix _).length_le

def findChar (s : Bytes) (c : UInt8) : Bytes × Bytes := findFirstOf s [c]

end characters

section components

def isScheme (s : Bytes) : Bool :=
  match s with
  | [] => false
  | c :: s => isAlpha c && s.all (fun c => isAlnum c || c == 0x2B || c == 0x2D || c == 0x2E)

def normalizeScheme (s : Bytes) : Bytes := toLower s

def isIPv4 (s : Bytes) : Bool :=
  7 ≤ s.length && s.length ≤ 254 && s.all (fun c => c == 0x2E || isNum c)

def isRegName (s : Bytes) : Bool := isChars s 0x01

def normalizeRegName (s : Bytes) : Bytes := toLower s

def isIPv6 (s : Bytes) : Bool :=
  2 ≤ s.length && s.length ≤ 254 && s.all (fun c => c == 0x3A || c == 0x2E || isHexdigit c)

def isPort (s : Bytes) : Bool := isUint s 65535 == some []

def decodeWith (plain : UInt8 → UInt8) : Bytes → Except Failure Bytes
  | [] => .ok []
  | c :: s =>
      if c = 0x25 then
        match s with
        | a :: b :: s =>
            match getHexDigit a, getHexDigit b with
            | some a, some b => (decodeWith plain s).map ((a <<< 4 ||| b) :: ·)
            | _, _ => .error (.parseError (ascii "Invalid percent encoding"))
        | _ => .error (.parseError (ascii "Invalid percent encoding"))
      else (decodeWith plain s).map (plain c :: ·)

def decode (s : Bytes) : Except Failure Bytes := decodeWith id s

def decodePlus (s : Bytes) : Except Failure Bytes :=
  decodeWith (fun c => if c = 0x2B then 0x20 else c) s

def pushElem (elems : List Bytes) (elem : Bytes) : List Bytes :=
  if elem = [] ∨ elem = ascii "." then elems
  else if elem = ascii ".." then elems.dropLast
  else elems ++ [elem]

def lastElem (elems : List Bytes) (elem : Bytes) : List Bytes :=
  if elem = ascii "." then elems ++ [[]]
  else if elem = ascii ".." then elems.dropLast
  else elems ++ [elem]

def normalizePath (s : Bytes) : Bytes :=
  if s.isEmpty then s
  else
    let pieces := s.splitOn 0x2F
    let elems := lastElem (pieces.dropLast.foldl pushElem []) (pieces.getLastD [])
    (if s.head? = some 0x2F then [0x2F] else []) ++ [0x2F].intercalate elems

end components

section literal

def store {α : Type} (size : Nat) (array : List α) (x : α) : Except Failure (List α) :=
  if array.length < size then .ok (array ++ [x]) else .error .outOfBounds

-- A pointer into the literal is the text from there to its end.
def tokenLoop : Bytes → Bytes → List Bytes → Except Failure (List Bytes × Bytes)
  | [], b, tokens => .ok (tokens, b)
  | c :: p, b, tokens =>
      if c = 0x3A then do
        let tokens ← store 10 tokens b
        tokenLoop p p tokens
      else tokenLoop p b tokens

def splitColons (p : Bytes) : Except Failure (List Bytes) := do
  let (tokens, b) ← tokenLoop p p []
  let tokens ← if tokens.length < 8 then store 10 tokens b else pure tokens
  store 10 tokens []

-- A character that is no digit gives -1, which sets every bit of the field.
def pushDigit (field : Nat) (c : UInt8) : Nat :=
  match getHexDigit c with
  | some d => (field * 16 + d.toNat) % 2 ^ 16
  | none => 2 ^ 16 - 1

def hexField (next : Bytes) : Nat → Bytes → Nat
  | field, [] => field
  | field, c :: p =>
      if c :: p = next ∨ c = 0x3A then field else hexField next (pushDigit field c) p

def decodeFields : Nat → List Bytes → List Nat → Nat → Except Failure (List Nat × Nat)
  | i, p :: next :: tokens, fields, nullPos =>
      if p = next ∨ p.head? = some 0x3A then decodeFields (i + 1) (next :: tokens) fields i
      else do
        let fields ← store 8 fields (hexField next 0 p)
        decodeFields (i + 1) (next :: tokens) fields nullPos
  | _, _, fields, nullPos => .ok (fields, nullPos)

def shiftFields (nullPos : Nat) : Nat → Nat → List Nat → Except Failure (Nat × List Nat)
  | i + 1, last + 1, fields =>
      let fields := fields.set last (fields.getD i 0)
      if i = nullPos then .ok (last, fields) else shiftFields nullPos i last fields
  | _, _, _ => .error .outOfBounds

def zeroFields (nullPos : Nat) : Nat → List Nat → Except Failure (List Nat)
  | last + 1, fields =>
      let fields := fields.set last 0
      if last = nullPos then .ok fields else zeroFields nullPos last fields
  | 0, _ => .error .outOfBounds

def expandFields (fields : List Nat) (nullPos nfields : Nat) : Except Failure (List Nat) :=
  let i := fields.length
  let array := fields ++ List.replicate (8 - i) 0
  if i < nfields then do
    let (last, array) ← if i ≠ nullPos then shiftFields nullPos i nfields array
      else pure (nfields, array)
    zeroFields nullPos last array
  else pure array

def closeRun (i run : Nat) (longest : Nat × Nat) : Nat × Nat :=
  if longest.2 < run then (i - run, run) else longest

def zeroRun (longest : Nat × Nat) : Nat → Nat → List Nat → Nat × Nat
  | i, run, [] => closeRun i run longest
  | i, run, f :: fields =>
      if f = 0 then zeroRun longest (i + 1) (run + 1) fields
      else zeroRun (closeRun i run longest) (i + 1) 0 fields

def hex (n : Nat) : Bytes := (Nat.toDigits 16 n).map (fun c => UInt8.ofNat c.toNat)

def writeField (field : Nat) : Bytes := 0x3A :: hex field

def encodeIPv6 (fields : List Nat) (nfields nullPos nullLen : Nat) (ipv4 : Option Bytes) : Bytes :=
  let i := if nullPos = 0 then nullLen else nullPos + nullLen
  (if nullPos = 0 then [0x3A]
    else hex (fields.getD 0 0) ++ ((fields.take nullPos).drop 1).flatMap writeField ++
      (if nullPos < nfields then [0x3A] else []) ++
      (if i = 8 ∧ nullLen ≠ 0 then [0x3A] else [])) ++
    ((fields.take nfields).drop i).flatMap writeField ++
    (match ipv4 with | some text => 0x3A :: text | none => [])

def trimColons (s : Bytes) : Bytes :=
  let p := if s.head? = some 0x3A then s.drop 1 else s
  if s.getLast? = some 0x3A then p.dropLast else p

def finishIPv6 (tokens : List Bytes) (ipv4 : Option Bytes) (nfields : Nat) :
    Except Failure Bytes := do
  let (fields, nullPos) ← decodeFields 0 tokens [] 8
  let fields ← expandFields fields nullPos nfields
  let (nullPos, nullLen) := zeroRun (nfields, 0) 0 0 (fields.take nfields)
  let nullPos := if nullLen = 1 then nfields else nullPos
  pure (encodeIPv6 fields nfields nullPos nullLen ipv4)

def normalizeIPv6 (s : Bytes) : Except Failure Bytes :=
  if !isIPv6 s then
    .error (.parseError (ascii "IPv6 [" ++ s ++ ascii "] is invalid"))
  else if s = ascii "::" then .ok s
  else do
    let tokens ← splitColons (trimColons s)
    let lastToken := tokens.dropLast.getLastD []
    if 5 < lastToken.length then finishIPv6 tokens.dropLast (some lastToken) 6
    else finishIPv6 tokens none 8

end literal

-- The pointer pairs of parse_url, none where the source leaves them null.
structure Pieces where
  ipV : Int := -1
  scheme : Option Bytes := none
  user : Option Bytes := none
  host : Option Bytes := none
  port : Option Bytes := none
  path : Option Bytes := none
  query : Option Bytes := none
  fragment : Option Bytes := none
deriving DecidableEq, Repr

section parse

variable (url : Bytes)

def invalidPath (path : Bytes) : Failure :=
  .parseError (ascii "Path '" ++ path ++ ascii "' in '" ++ url ++ ascii "' is invalid")

def invalidHost : Failure :=
  .parseError (ascii "Host address in '" ++ url ++ ascii "' is invalid")

def schemePart (b p : Bytes) : Except Failure (Option Bytes × Bytes) :=
  if p.head? = some 0x3A then
    if isScheme b then .ok (some b, p.drop 1)
    else .error (.parseError (ascii "Scheme in '" ++ url ++ ascii "' is invalid"))
  else .ok (none, url)

def userPart (b : Bytes) : Except Failure (Option Bytes × Bytes) :=
  let (user, p) := findChar b 0x40
  if p = [] then .ok (none, b)
  else if isChars user 0x05 then .ok (some user, p.drop 1)
  else .error (.parseError (ascii "User info in '" ++ url ++ ascii "' is invalid"))

def futurePart (b : Bytes) : Except Failure (Int × Bytes) :=
  match b with
  | [] => .error (invalidHost url)
  | c :: b =>
      match getHexDigit c with
      | none => .error (invalidHost url)
      | some v =>
          -- An int8_t keeps only the second of two digits.
          let ipV := ((b.head?.bind getHexDigit).getD v).toNat
          if b.head? = some 0x2E ∧ isChars (b.drop 1) 0x05 = true then .ok (ipV, b.drop 1)
          else .error (invalidHost url)

def literalPart (b : Bytes) : Except Failure (Int × Bytes × Bytes) := do
  let (b, p) := findChar b 0x5D
  if p = [] then
    .error (.parseError (ascii "Missing ] in '" ++ url ++ ascii "'"))
  else if b.head? = some 0x76 then
    let (ipV, host) ← futurePart url (b.drop 1)
    pure (ipV, host, p.drop 1)
  else if isIPv6 b then pure (6, b, p.drop 1)
  else .error (invalidHost url)

def hostPart (b : Bytes) : Except Failure (Int × Bytes × Bytes) :=
  if b.head? = some 0x5B then literalPart url (b.drop 1)
  else
    let (b, p) := findChar b 0x3A
    if isIPv4 b then .ok (4, b, p)
    else if isRegName b then .ok (0, b, p)
    else .error (invalidHost url)

def portPart (b : Bytes) : Except Failure (Option Bytes) :=
  if b.head? = some 0x3A then
    if isPort (b.drop 1) then .ok (some (b.drop 1))
    else .error
      (.parseError (ascii "Port '" ++ b.drop 1 ++ ascii "' in '" ++ url ++ ascii "' is invalid"))
  else .ok none

def authorityPart (b p : Bytes) : Except Failure (Pieces × Bytes) :=
  if p.head? = some 0x2F ∧ b.take 2 = ascii "//" then do
    let (b, rest) := findFirstOf (b.drop 2) (ascii "/?#")
    let (user, b) ← userPart url b
    let (ipV, host, b) ← hostPart url b
    let port ← portPart url b
    pure ({ ipV := ipV, user := user, host := some host, port := port }, rest)
  else .ok ({}, b)

def tailPart (b : Bytes) (pieces : Pieces) : Except Failure Pieces :=
  let (path, p) := findFirstOf b (ascii "?#")
  if isChars path 0x2F then
    let (query, p) :=
      if p.head? = some 0x3F then
        ((some (findChar (p.drop 1) 0x23).1 : Option Bytes), (findChar (p.drop 1) 0x23).2)
      else (none, p)
    let pieces := { pieces with path := some path, query := query }
    if p.head? = some 0x23 then
      if isChars (p.drop 1) 0x3F then .ok { pieces with fragment := some (p.drop 1) }
      else .error (.parseError
        (ascii "Fragment '" ++ p.drop 1 ++ ascii "' in '" ++ url ++ ascii "' is invalid"))
    else .ok pieces
  else .error (invalidPath url path)

def split : Except Failure Pieces :=
  let (b, p) := findFirstOf url (ascii ":/?#")
  if p = [] then
    if isChars b 0x2F then .ok { path := some b } else .error (invalidPath url b)
  else do
    let (scheme, b) ← schemePart url b p
    let p := if scheme.isSome then (findFirstOf b (ascii "/?#")).2 else p
    let (pieces, b) ← authorityPart url b p
    tailPart url b { pieces with scheme := scheme }

def checkedQuery (what text : Bytes) : Except Failure Bytes :=
  if isChars text 0x3F then decodePlus text
  else .error (.parseError
    (ascii "Query " ++ what ++ ascii " '" ++ text ++ ascii "' in '" ++ url ++ ascii "' is invalid"))

def queryLoop (b : Bytes) : Except Failure (List (Bytes × Bytes)) := do
  let p := (findFirstOf b (ascii "=;&")).2
  let key ← checkedQuery url (ascii "key") (findFirstOf b (ascii "=;&")).1
  if _hp : p = [] then pure [(key, [])]
  else if p.head? = some 0x3D then
    let q := (findFirstOf (p.drop 1) (ascii ";&")).2
    let val ← checkedQuery url (ascii "value") (findFirstOf (p.drop 1) (ascii ";&")).1
    if _hq : q = [] then pure [(key, val)]
    else return (key, val) :: (← queryLoop (q.drop 1))
  else return (key, []) :: (← queryLoop (p.drop 1))
termination_by b.length
decreasing_by
  · have hlen := length_findFirstOf b (ascii "=;&")
    have hlen' := length_findFirstOf (p.drop 1) (ascii ";&")
    have hpos := List.length_pos_iff.mpr _hq
    simp only [List.length_drop, p, q] at *
    omega
  · have hlen := length_findFirstOf b (ascii "=;&")
    have hpos := List.length_pos_iff.mpr _hp
    simp only [List.length_drop, p] at *
    omega

end parse

structure Parsed where
  scheme : Bytes := []
  user : Bytes := []
  host : Bytes := []
  ipV : Int := -1
  port : Bytes := []
  path : Bytes := []
  query : List (Bytes × Bytes) := []
  fragment : Bytes := []
deriving DecidableEq, Repr

def normalizeHost (ipV : Int) (host : Bytes) : Except Failure Bytes := do
  let host ← decode host
  if ipV = 0 then pure (normalizeRegName host)
  else if ipV = 6 then normalizeIPv6 host
  else pure host

def optional {α β : Type} (default : β) (f : α → Except Failure β) :
    Option α → Except Failure β
  | none => .ok default
  | some a => f a

def normalize (url : Bytes) (pieces : Pieces) : Except Failure Parsed := do
  let user ← optional [] decode pieces.user
  let host ← optional [] (normalizeHost pieces.ipV) pieces.host
  let path ← optional [] (fun path => (decode path).map normalizePath) pieces.path
  let query ← optional [] (fun query => if query = [] then pure [] else queryLoop url query)
    pieces.query
  let fragment ← optional [] decode pieces.fragment
  pure { scheme := (pieces.scheme.map normalizeScheme).getD [], user := user, host := host,
         ipV := pieces.ipV, port := pieces.port.getD [], path := path, query := query,
         fragment := fragment }

def parseUrl (url : Bytes) : Except Failure Parsed :=
  if url.isEmpty then .ok {}
  else if 8000 < url.length then
    .error (.parseError (ascii "URI is longer than 8000 characters"))
  else do
    let pieces ← split url
    normalize url pieces

end Url
end GWSockets
