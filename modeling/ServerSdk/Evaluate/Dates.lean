import ServerSdk.Operator

namespace ServerSdk

open Externals

def yearOne : Int := -62135596800000

def yearTenThousand : Int := 253402300800000

-- A number counts milliseconds; the instant of a text, in nanoseconds, is what the format says.
inductive DateOperand (rfc3339 : String → Option Int) where
  | number (n : Int) (lower : yearOne ≤ n) (upper : n < yearTenThousand)
  | text (text : String) (instant : Int) (valid : rfc3339 text = some instant)

def Timestamp.Before (a b : Timestamp) : Prop := a.sec < b.sec ∨ (a.sec = b.sec ∧ a.nsec < b.nsec)

structure TimestampLibrary [Externals] (rfc3339 : String → Option Int) : Prop where
  double : ∀ n : Int, |n| ≤ 2 ^ 53 → roundDouble n = n
  parse : ∀ text instant, rfc3339 text = some instant →
    timestampParse text = some ⟨instant / 10 ^ 9, instant % 10 ^ 9⟩
  earlier : ∀ a b, timestampCompare a b < 0 ↔ a.Before b
  later : ∀ a b, 0 < timestampCompare a b ↔ b.Before a

structure SecondMisread (n instant : Int) : Prop where
  negative : n < 0
  fraction : n % 1000 ≠ 0
  second : instant / 10 ^ 9 = n / 1000
  reached : n * 10 ^ 6 ≤ instant

def numberStamp (n : Int) : Timestamp := ⟨n.tdiv 1000, n.tmod 1000 * 10 ^ 6⟩

def textStamp (instant : Int) : Timestamp := ⟨instant / 10 ^ 9, instant % 10 ^ 9⟩

namespace DateOperand

variable {rfc3339 : String → Option Int}

def stamp : DateOperand rfc3339 → Timestamp
  | number n _ _ => numberStamp n
  | .text _ instant _ => textStamp instant

def json : DateOperand rfc3339 → Json
  | number n _ _ => .number n
  | .text s _ _ => .text s

def instant : DateOperand rfc3339 → Int
  | number n _ _ => n * 10 ^ 6
  | .text _ instant _ => instant

def Misread : DateOperand rfc3339 → DateOperand rfc3339 → Prop
  | number n _ _, .text _ instant _ => SecondMisread n instant
  | .text _ instant _, number n _ _ => SecondMisread n instant
  | _, _ => False

end DateOperand

structure ComparesInstants [Externals] {rfc3339 : String → Option Int} (u c : DateOperand rfc3339) :
    Prop where
  before : operatorBefore u.json c.json = true ↔ u.instant < c.instant
  after : operatorAfter u.json c.json = true ↔ c.instant < u.instant
  exclusive :
    (operatorBefore u.json c.json = true ∧ operatorAfter u.json c.json = false ∧
      u.instant ≠ c.instant) ∨
    (operatorBefore u.json c.json = false ∧ operatorAfter u.json c.json = true ∧
      u.instant ≠ c.instant) ∨
    (operatorBefore u.json c.json = false ∧ operatorAfter u.json c.json = false ∧
      u.instant = c.instant)

section Dates

variable [Externals] {rfc3339 : String → Option Int}

omit [Externals] in
theorem tdiv_tmod_thousand (n : Int) :
    1000 * n.tdiv 1000 + n.tmod 1000 = n ∧
      (0 ≤ n → 0 ≤ n.tmod 1000 ∧ n.tmod 1000 < 1000) ∧
      (n ≤ 0 → -1000 < n.tmod 1000 ∧ n.tmod 1000 ≤ 0) := by
  refine ⟨Int.mul_tdiv_add_tmod n 1000, fun hn => ?_, fun hn => ?_⟩
  · rw [Int.tmod_eq_emod_of_nonneg hn]
    omega
  · have hneg : n.tmod 1000 = - ((-n) % 1000) := by
      rw [← Int.tmod_eq_emod_of_nonneg (by omega), Int.neg_tmod, neg_neg]
    rw [hneg]
    omega

omit [Externals] in
theorem truncate_neg (q : Rat) : truncate (-q) = - truncate q := by
  rw [truncate, truncate, Rat.neg_num, Rat.neg_den, Int.neg_tdiv]

omit [Externals] in
theorem truncate_div (n : Int) (m : ℕ) : truncate ((n : Rat) / m) = n.tdiv m := by
  rcases le_total 0 n with hn | hn
  · have hq : 0 ≤ (n : Rat) / m := by positivity
    rw [truncate_eq_floor hq, Rat.floor_intCast_div_natCast, Int.tdiv_eq_ediv_of_nonneg hn]
  · have hcast : (0 : Rat) ≤ ((-n : Int) : Rat) := by exact_mod_cast Int.neg_nonneg_of_nonpos hn
    have hq : 0 ≤ ((-n : Int) : Rat) / m := by positivity
    have hneg : (n : Rat) / m = - (((-n : Int) : Rat) / m) := by
      push_cast
      ring
    rw [hneg, truncate_neg, truncate_eq_floor hq, Rat.floor_intCast_div_natCast,
      ← Int.tdiv_eq_ediv_of_nonneg (by omega), Int.neg_tdiv, neg_neg]

omit [Externals] in
theorem truncate_intCast (n : Int) : truncate n = n := by
  simpa using truncate_div n 1

theorem floorAtMagnitude_int (h : TimestampLibrary rfc3339) {n : Int} (hn : |n| ≤ 2 ^ 53) :
    floorAtMagnitude n 1000 = (1000 * n.tdiv 1000 : Int) := by
  have htruncate : truncate ((n : Rat) / (1000 : ℕ)) = n.tdiv 1000 := truncate_div n 1000
  have hrounded : ((n : Rat) - (n - (1000 : ℕ) * (n.tdiv 1000 : Int))) = (1000 * n.tdiv 1000 : Int) := by
    push_cast
    ring
  obtain ⟨hsplit, hpositive, hnegative⟩ := tdiv_tmod_thousand n
  rw [floorAtMagnitude, htruncate, hrounded, h.double]
  rw [abs_le] at hn ⊢
  rcases le_total 0 n with hsign | hsign
  · have := hpositive hsign
    omega
  · have := hnegative hsign
    omega

theorem parseTime_number (h : TimestampLibrary rfc3339) {n : Int} (hlower : yearOne ≤ n)
    (hupper : n < yearTenThousand) : parseTime (.number n) = some (numberStamp n) := by
  rw [yearOne] at hlower
  rw [yearTenThousand] at hupper
  obtain ⟨hsplit, hpositive, hnegative⟩ := tdiv_tmod_thousand n
  have hmillis : -1000 < n.tmod 1000 ∧ n.tmod 1000 < 1000 := by
    rcases le_total 0 n with hsign | hsign
    · have := hpositive hsign
      omega
    · have := hnegative hsign
      omega
  have hsec : ((1000 * n.tdiv 1000 : Int) : Rat) / 1000 = (n.tdiv 1000 : Int) := by
    push_cast
    ring
  have hrest : (n : Rat) - (1000 * n.tdiv 1000 : Int) = (n.tmod 1000 : Int) := by
    rw [← Int.cast_sub]
    congr 1
    omega
  have hnano : ((n.tmod 1000 : Int) : Rat) * 1000000 = (n.tmod 1000 * 10 ^ 6 : Int) := by
    push_cast
    rfl
  have hround : ∀ m : Int, -(2 ^ 53) ≤ m → m ≤ 2 ^ 53 → roundDouble m = m :=
    fun m hlow hhigh => h.double m (abs_le.mpr ⟨hlow, hhigh⟩)
  have hfloor := floorAtMagnitude_int h (abs_le.mpr ⟨by omega, by omega⟩ : |n| ≤ 2 ^ 53)
  simp only [parseTime, hfloor, hsec, hrest]
  rw [hround _ (by omega) (by omega), hround _ (by omega) (by omega), hnano,
    hround _ (by omega) (by omega), truncate_intCast, truncate_intCast, numberStamp]
  congr 2
  · exact Int.bmod_eq_of_le (by omega) (by omega)
  · exact Int.bmod_eq_of_le (by omega) (by omega)

theorem parseTime_operand (h : TimestampLibrary rfc3339) (u : DateOperand rfc3339) :
    parseTime u.json = some u.stamp := by
  cases u with
  | number n lower upper => exact parseTime_number h lower upper
  | text s instant valid => exact h.parse s instant valid

theorem operatorBefore_iff (h : TimestampLibrary rfc3339) (u c : DateOperand rfc3339) :
    operatorBefore u.json c.json = true ↔ u.stamp.Before c.stamp := by
  simp only [operatorBefore, compareTime, parseTime_operand h, decide_eq_true_iff, h.earlier]

theorem operatorAfter_iff (h : TimestampLibrary rfc3339) (u c : DateOperand rfc3339) :
    operatorAfter u.json c.json = true ↔ c.stamp.Before u.stamp := by
  simp only [operatorAfter, compareTime, parseTime_operand h, decide_eq_true_iff, gt_iff_lt, h.later]

omit [Externals] in
theorem before_number_number (n m : Int) :
    (numberStamp n).Before (numberStamp m) ↔ n * 10 ^ 6 < m * 10 ^ 6 := by
  have hn := tdiv_tmod_thousand n
  have hm := tdiv_tmod_thousand m
  simp only [Timestamp.Before, numberStamp]
  generalize n.tdiv 1000 = q at *
  generalize n.tmod 1000 = r at *
  generalize m.tdiv 1000 = q' at *
  generalize m.tmod 1000 = r' at *
  omega

omit [Externals] in
theorem before_text_text (i j : Int) : (textStamp i).Before (textStamp j) ↔ i < j := by
  simp only [Timestamp.Before, textStamp]
  omega

omit [Externals] in
theorem before_mixed_iff (n i : Int) :
    (((numberStamp n).Before (textStamp i) ↔ n * 10 ^ 6 < i) ∧
      ((textStamp i).Before (numberStamp n) ↔ i < n * 10 ^ 6)) ↔ ¬ SecondMisread n i := by
  have hn := tdiv_tmod_thousand n
  have hmisread : SecondMisread n i ↔
      n < 0 ∧ n % 1000 ≠ 0 ∧ i / 10 ^ 9 = n / 1000 ∧ n * 10 ^ 6 ≤ i :=
    ⟨fun h => ⟨h.negative, h.fraction, h.second, h.reached⟩, fun ⟨h₁, h₂, h₃, h₄⟩ => ⟨h₁, h₂, h₃, h₄⟩⟩
  rw [hmisread]
  simp only [Timestamp.Before, numberStamp, textStamp]
  generalize n.tdiv 1000 = q at *
  generalize n.tmod 1000 = r at *
  omega

omit [Externals] in
theorem stamps_ordered_iff (u c : DateOperand rfc3339) :
    ((u.stamp.Before c.stamp ↔ u.instant < c.instant) ∧
      (c.stamp.Before u.stamp ↔ c.instant < u.instant)) ↔ ¬ u.Misread c := by
  cases u with
  | number n lower upper =>
      cases c with
      | number m lower' upper' =>
          exact iff_of_true ⟨before_number_number n m, before_number_number m n⟩ id
      | text s i valid => exact before_mixed_iff n i
  | text s i valid =>
      cases c with
      | number n lower upper => exact and_comm.trans (before_mixed_iff n i)
      | text s' j valid' => exact iff_of_true ⟨before_text_text i j, before_text_text j i⟩ id

theorem comparesInstants_iff_ordered (h : TimestampLibrary rfc3339) (u c : DateOperand rfc3339) :
    ComparesInstants u c ↔ (u.stamp.Before c.stamp ↔ u.instant < c.instant) ∧
      (c.stamp.Before u.stamp ↔ c.instant < u.instant) := by
  have hbefore := operatorBefore_iff h u c
  have hafter := operatorAfter_iff h u c
  constructor
  · rintro ⟨hearlier, hlater, -⟩
    exact ⟨hbefore.symm.trans hearlier, hafter.symm.trans hlater⟩
  · rintro ⟨hearlier, hlater⟩
    have hless := hbefore.trans hearlier
    have hmore := hafter.trans hlater
    refine ⟨hless, hmore, ?_⟩
    rw [← Bool.not_eq_true, ← Bool.not_eq_true, hless, hmore]
    omega

theorem date_operators_compare_instants_iff (rfc3339 : String → Option Int)
    (h : TimestampLibrary rfc3339) (u c : DateOperand rfc3339) :
    ComparesInstants u c ↔ ¬ u.Misread c :=
  (comparesInstants_iff_ordered h u c).trans (stamps_ordered_iff u c)

end Dates

def lastMoment : String := "1969-12-31T23:59:59.999Z"

def lastMomentOnly (text : String) : Option Int := if text = lastMoment then some (-1000000) else none

@[reducible] def timestampExternals : Externals where
  __ := literalExternals
  timestampParse text := (lastMomentOnly text).map fun instant => ⟨instant / 10 ^ 9, instant % 10 ^ 9⟩

theorem timestampLibrary_sample : @TimestampLibrary timestampExternals lastMomentOnly := by
  refine @TimestampLibrary.mk timestampExternals lastMomentOnly (fun _ _ => rfl) ?_ ?_ ?_
  · intro text instant hvalid
    exact congrArg (Option.map _) hvalid
  · intro a b
    change (if a.sec = b.sec then a.nsec - b.nsec else a.sec - b.sec) < 0 ↔ _
    rw [Timestamp.Before]
    split <;> omega
  · intro a b
    change 0 < (if a.sec = b.sec then a.nsec - b.nsec else a.sec - b.sec) ↔ _
    rw [Timestamp.Before]
    split <;> omega

def lastMomentText : DateOperand lastMomentOnly := .text lastMoment (-1000000) rfl

theorem epoch_after_last_moment : @TimestampLibrary timestampExternals lastMomentOnly ∧
    @ComparesInstants timestampExternals lastMomentOnly (.number 0 (by decide) (by decide))
      lastMomentText := by
  refine ⟨timestampLibrary_sample, (@date_operators_compare_instants_iff timestampExternals
    lastMomentOnly timestampLibrary_sample _ _).mpr ?_⟩
  exact fun hmisread => absurd hmisread.negative (by decide)

theorem last_moment_after_itself : ¬ @ComparesInstants timestampExternals lastMomentOnly
    (.number (-1) (by decide) (by decide)) lastMomentText := by
  intro hcompares
  have hordered := (@comparesInstants_iff_ordered timestampExternals lastMomentOnly
    timestampLibrary_sample _ _).mp hcompares
  exact (stamps_ordered_iff _ _).mp hordered ⟨by decide, by decide, by decide, by decide⟩

end ServerSdk
