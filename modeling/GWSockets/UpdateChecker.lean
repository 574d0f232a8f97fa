import GWSockets.Base
import Mathlib.Algebra.Group.Int.Defs
import Mathlib.Algebra.Group.Nat.Defs

namespace GWSockets

namespace UpdateChecker

-- The width of long on the platforms the module is built for.
inductive DataModel where
  | ilp32
  | llp64
  | lp64
deriving DecidableEq, Repr

def DataModel.longWidth : DataModel → Nat
  | .ilp32 | .llp64 => 32
  | .lp64 => 64

def isSpace (c : UInt8) : Bool := c == 0x20 || (0x09 ≤ c && c ≤ 0x0D)

def isDigit (c : UInt8) : Bool := 0x30 ≤ c && c ≤ 0x39

def sign : Bytes → Bool × Bytes
  | 0x2D :: rest => (true, rest)
  | 0x2B :: rest => (false, rest)
  | rest => (false, rest)

def strtol (m : DataModel) (s : Bytes) : Int :=
  let (negative, digits) := sign (s.dropWhile isSpace)
  let value : Int := decimalValue (digits.takeWhile isDigit)
  if negative then max (-value) (-2 ^ (m.longWidth - 1))
  else min value (2 ^ (m.longWidth - 1) - 1)

-- push_back narrows the long to an int.
def pushed (m : DataModel) (subStr : Bytes) : Int := (strtol m subStr).bmod (2 ^ 32)

structure Split where
  start : Nat := 0
  values : List Int := []
deriving DecidableEq, Repr

-- The last branch is never reached, and its break would only leave the loop at the last index.
def splitAt (m : DataModel) (versionString : Bytes) (acc : Split) (i : Nat) : Split :=
  if versionString[i]? = some 0x2E ∨ i + 1 = versionString.length then
    let subStr :=
      if i + 1 = versionString.length then versionString.drop acc.start
      else (versionString.drop acc.start).take (i - acc.start)
    ⟨i + 1, acc.values ++ [pushed m subStr]⟩
  else if i + 1 = versionString.length then
    { acc with values := acc.values ++ [pushed m (versionString.drop acc.start)] }
  else acc

def splitVersions (m : DataModel) (versionString : Bytes) : List Int :=
  ((List.range versionString.length).foldl (splitAt m versionString) {}).values

def compareValues (leftVersions rightVersions : List Int) : List Nat → Int
  | [] => 0
  | i :: is =>
      let lValue := leftVersions.getD i 0
      let rValue := rightVersions.getD i 0
      if lValue ≠ rValue then (if lValue < rValue then -1 else 1)
      else compareValues leftVersions rightVersions is

def compareVersions (m : DataModel) (left right : Bytes) : Int :=
  let leftVersions := splitVersions m left
  let rightVersions := splitVersions m right
  compareValues leftVersions rightVersions
    (List.range (max leftVersions.length rightVersions.length))

end UpdateChecker

end GWSockets
