import Mathlib.Data.List.Infix
import ServerSdk.Platform

namespace ServerSdk

abbrev OpFn := Json → Json → Bool

def onTexts (op : String → String → Bool) : OpFn
  | .text u, .text c => op u c
  | _, _ => false

def onNumbers (op : Rat → Rat → Bool) : OpFn
  | .number u, .number c => op u c
  | _, _ => false

def operatorIn : OpFn := Json.compare

def operatorStartsWith : OpFn := onTexts fun u c => decide (c.toList <+: u.toList)

def operatorEndsWith : OpFn := onTexts fun u c => decide (c.toList <:+ u.toList)

def operatorContains : OpFn := onTexts fun u c => decide (c.toList <:+: u.toList)

def operatorLessThan : OpFn := onNumbers fun u c => decide (u < c)

def operatorLessThanOrEqual : OpFn := onNumbers fun u c => decide (u ≤ c)

def operatorGreaterThan : OpFn := onNumbers fun u c => decide (u > c)

def operatorGreaterThanOrEqual : OpFn := onNumbers fun u c => decide (u ≥ c)

variable [Externals]

open Externals

def operatorMatches : OpFn := onTexts fun subject regex => regexMatches subject regex

def floorAtMagnitude (n : Rat) (magnitude : Nat) : Rat :=
  roundDouble (n - (n - magnitude * truncate (n / magnitude)))

def parseTime : Json → Option Timestamp
  | .number original =>
      let rounded := floorAtMagnitude original 1000
      some
        { sec := (truncate (roundDouble (rounded / 1000))).bmod (2 ^ 64)
          nsec := (truncate (roundDouble (roundDouble (original - rounded) * 1000000))).bmod
            (2 ^ 32) }
  | .text text => timestampParse text
  | _ => none

def compareTime (op : Int → Int → Bool) : OpFn := fun uvalue cvalue =>
  match parseTime uvalue, parseTime cvalue with
  | some ustamp, some cstamp => op (timestampCompare ustamp cstamp) 0
  | _, _ => false

def operatorBefore : OpFn := compareTime fun l r => decide (l < r)

def operatorAfter : OpFn := compareTime fun l r => decide (l > r)

def compareSemVer (op : Semver → Semver → Bool) : OpFn := onTexts fun u c =>
  match semverParse u, semverParse c with
  | some usem, some csem => op usem csem
  | _, _ => false

def operatorSemVerEqual : OpFn := compareSemVer semverEq

def operatorSemVerLessThan : OpFn := compareSemVer semverLt

def operatorSemVerGreaterThan : OpFn := compareSemVer semverGt

def operations : List (String × OpFn) :=
  [("in", operatorIn), ("endsWith", operatorEndsWith), ("startsWith", operatorStartsWith),
    ("matches", operatorMatches), ("contains", operatorContains), ("lessThan", operatorLessThan),
    ("lessThanOrEqual", operatorLessThanOrEqual), ("greaterThan", operatorGreaterThan),
    ("greaterThanOrEqual", operatorGreaterThanOrEqual), ("before", operatorBefore),
    ("after", operatorAfter), ("semVerEqual", operatorSemVerEqual),
    ("semVerLessThan", operatorSemVerLessThan), ("semVerGreaterThan", operatorSemVerGreaterThan)]

def lookupOperation (operation : String) : Option OpFn := operations.lookup operation

end ServerSdk
