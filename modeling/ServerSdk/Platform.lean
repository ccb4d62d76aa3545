import Mathlib.Data.List.Infix
import Mathlib.Data.Rat.Floor
import ServerSdk.Program.Run
import ServerSdk.Json.Value

namespace ServerSdk

open Program

def truncate (q : Rat) : Int := q.num.tdiv q.den

def toInt (q : Rat) : Int :=
  if -2 ^ 31 ≤ truncate q ∧ truncate q < 2 ^ 31 then truncate q else -2 ^ 31

def toLong (q : Rat) : Int :=
  if -2 ^ 63 ≤ truncate q ∧ truncate q < 2 ^ 63 then truncate q else -2 ^ 63

def toUnsignedInt (q : Rat) : Nat := (toLong q % 2 ^ 32).toNat

def toUnsignedLong (q : Rat) : Nat :=
  if q < 2 ^ 63 then (toLong q % 2 ^ 64).toNat else (toLong (q - 2 ^ 63) + 2 ^ 63).toNat

theorem truncate_eq_floor {q : Rat} (h : 0 ≤ q) : truncate q = ⌊q⌋ := by
  rw [truncate, Int.tdiv_eq_ediv_of_nonneg (Rat.num_nonneg.mpr h), Rat.floor_def']

theorem truncate_emod_le {q : Rat} (h : 0 ≤ q) (modulus : ℕ) :
    ((truncate q % modulus).toNat : Rat) ≤ q := by
  have hfloor : 0 ≤ ⌊q⌋ := Int.floor_nonneg.mpr h
  rw [truncate_eq_floor h, Int.toNat_emod hfloor (Int.natCast_nonneg _), Int.toNat_natCast,
    Int.floor_toNat]
  have hle : ⌊q⌋₊ % modulus ≤ ⌊q⌋₊ := Nat.mod_le _ _
  exact (Nat.cast_le.mpr hle).trans (Nat.floor_le h)

theorem toInt_intCast {n : ℤ} (hlow : -2 ^ 31 ≤ n) (hhigh : n < 2 ^ 31) : toInt n = n := by
  have htruncate : truncate (n : Rat) = n := by simp [truncate]
  rw [toInt, htruncate, if_pos ⟨hlow, hhigh⟩]

theorem toLong_of_lt {q : Rat} (h : 0 ≤ q) (hlt : q < 2 ^ 63) : toLong q = ⌊q⌋ := by
  have hfloor : 0 ≤ ⌊q⌋ := Int.floor_nonneg.mpr h
  have hbound : ⌊q⌋ < 2 ^ 63 := Int.floor_lt.mpr (by exact_mod_cast hlt)
  rw [toLong, truncate_eq_floor h, if_pos ⟨by omega, hbound⟩]

theorem toLong_of_le {q : Rat} (h : 2 ^ 63 ≤ q) : toLong q = -2 ^ 63 := by
  have hfloor : 2 ^ 63 ≤ ⌊q⌋ := Int.le_floor.mpr (by exact_mod_cast h)
  rw [toLong, truncate_eq_floor (by linarith), if_neg (by omega)]

theorem toUnsignedInt_of_lt {q : Rat} (h : 0 ≤ q) (hlt : q < 2 ^ 63) :
    toUnsignedInt q = (⌊q⌋ % 2 ^ 32).toNat := by
  rw [toUnsignedInt, toLong_of_lt h hlt]

theorem toUnsignedInt_of_le {q : Rat} (h : 2 ^ 63 ≤ q) : toUnsignedInt q = 0 := by
  rw [toUnsignedInt, toLong_of_le h]
  rfl

theorem toUnsignedInt_natCast {n : ℕ} (h : n < 2 ^ 63) : toUnsignedInt n = n % 2 ^ 32 := by
  rw [toUnsignedInt_of_lt (Nat.cast_nonneg n) (by exact_mod_cast h), Int.floor_natCast]
  norm_cast

theorem toUnsignedInt_le {q : Rat} (h : 0 ≤ q) : (toUnsignedInt q : Rat) ≤ q := by
  rcases lt_or_ge q (2 ^ 63) with hlt | hge
  · rw [toUnsignedInt_of_lt h hlt, ← truncate_eq_floor h]
    exact truncate_emod_le h (2 ^ 32)
  · rw [toUnsignedInt_of_le hge]
    exact_mod_cast h

theorem toUnsignedLong_of_lt {q : Rat} (h : 0 ≤ q) (hlt : q < 2 ^ 64) :
    toUnsignedLong q = ⌊q⌋₊ := by
  have hfloor : 0 ≤ ⌊q⌋ := Int.floor_nonneg.mpr h
  have hbound : ⌊q⌋ < 2 ^ 64 := Int.floor_lt.mpr (by exact_mod_cast hlt)
  rcases lt_or_ge q (2 ^ 63) with hsmall | hlarge
  · rw [toUnsignedLong, if_pos hsmall, toLong_of_lt h hsmall, Int.emod_eq_of_lt hfloor hbound,
      Int.floor_toNat]
  · have hcast : ⌊q - 2 ^ 63⌋ = ⌊q⌋ - 2 ^ 63 := by exact_mod_cast Int.floor_sub_natCast q (2 ^ 63)
    rw [toUnsignedLong, if_neg hlarge.not_gt, toLong_of_lt (by linarith) (by linarith), hcast,
      sub_add_cancel, Int.floor_toNat]

theorem toUnsignedLong_of_le {q : Rat} (h : 2 ^ 64 ≤ q) : toUnsignedLong q = 0 := by
  rw [toUnsignedLong, if_neg (by linarith), toLong_of_le (by linarith)]
  rfl

theorem toUnsignedLong_le {q : Rat} (h : 0 ≤ q) : (toUnsignedLong q : Rat) ≤ q := by
  rcases lt_or_ge q (2 ^ 64) with hlt | hge
  · rw [toUnsignedLong_of_lt h hlt]
    exact Nat.floor_le h
  · rw [toUnsignedLong_of_le hge]
    exact_mod_cast h

theorem le_toUnsignedLong {q : Rat} {n : ℕ} (hle : (n : Rat) ≤ q) (hlt : q < 2 ^ 64) :
    n ≤ toUnsignedLong q := by
  rw [toUnsignedLong_of_lt (le_trans (Nat.cast_nonneg n) hle) hlt]
  exact Nat.le_floor hle

def roundHalfEven (q : Rat) : Int :=
  let low := q.floor
  if q - low < 1 / 2 then low
  else if 1 / 2 < q - low then low + 1
  else if low % 2 = 0 then low
  else low + 1

def formatFixed (q : Rat) : String :=
  let millionths := (roundHalfEven (|q| * 1000000)).toNat
  let fraction := toString (millionths % 1000000)
  let sign := if q < 0 then "-" else ""
  sign ++ toString (millionths / 1000000) ++ "." ++
    String.ofList (List.replicate (6 - fraction.length) '0') ++ fraction

structure Timestamp where
  sec : Int
  nsec : Int
  deriving DecidableEq, Repr

structure Semver where
  major : Int
  minor : Int
  patch : Int
  metadata : Option String
  prerelease : Option String
  deriving DecidableEq, Repr

class Externals where
  roundFloat : Rat → Rat
  roundDouble : Rat → Rat
  sha1 : String → List UInt8
  hexify : List UInt8 → Nat → Int × String
  regexMatches : String → String → Bool
  timestampParse : String → Option Timestamp
  timestampCompare : Timestamp → Timestamp → Int
  semverParse : String → Option Semver
  semverEq : Semver → Semver → Bool
  semverLt : Semver → Semver → Bool
  semverGt : Semver → Semver → Bool
  serialize : Json → String

def hexChar (n : Nat) : Char := Char.ofNat (if n < 10 then 48 + n else 87 + n)

def hexChars (bytes : List UInt8) : List Char :=
  bytes.flatMap fun b => [hexChar (b.toNat / 16), hexChar (b.toNat % 16)]

@[reducible] def literalExternals : Externals where
  roundFloat q := q
  roundDouble q := q
  sha1 text := (text.toUTF8.toList ++ List.replicate 20 0).take 20
  hexify bytes size :=
    let encoded := (hexChars bytes).take (size - 1)
    (encoded.length, String.ofList encoded)
  regexMatches subject regex := decide (regex.toList <:+: subject.toList)
  timestampParse _ := none
  timestampCompare a b := if a.sec = b.sec then a.nsec - b.nsec else a.sec - b.sec
  semverParse _ := none
  semverEq a b := decide (a = b)
  semverLt a b := decide (a.major < b.major)
  semverGt a b := decide (b.major < a.major)
  serialize json :=
    match json with
    | .null => "null"
    | .bool b => toString b
    | .number n => toString n
    | .text s => s.quote
    | .array _ => "[]"
    | .object _ => "\x7b\x7d"

inductive FeatureKind where
  | flag
  | segment
  deriving DecidableEq, Repr

structure World (σ : Type) where
  storeInitialized : σ → Bool × σ
  storeGet : FeatureKind → String → σ → Option (Option Json) × σ
  storeAll : FeatureKind → σ → Option (Option Json) × σ
  unixMilliseconds : σ → Rat × σ
  monotonicMilliseconds : σ → Rat × σ

structure Config where
  sendEvents : Bool
  offline : Bool
  eventsCapacity : Nat
  allAttributesPrivate : Bool
  privateAttributeNames : List String
  inlineUsersInEvents : Bool
  userKeysCapacity : Nat
  userKeysFlushInterval : Nat
  deriving DecidableEq, Repr

def configNew : Config where
  sendEvents := true
  offline := false
  eventsCapacity := 10000
  allAttributesPrivate := false
  privateAttributeNames := []
  inlineUsersInEvents := false
  userKeysCapacity := 1000
  userKeysFlushInterval := 300000

def Config.privateNames (config : Config) : Json := .ofTexts config.privateAttributeNames

structure Client (σ : Type) where
  config : Config
  world : World σ

end ServerSdk
