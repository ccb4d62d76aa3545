import Mathlib.Tactic.Linarith
import ServerSdk.Events.Processor

namespace ServerSdk

open Program

def bytes (text : String) : List UInt8 := text.toList.map Char.toUInt8

structure BrokenDownTime where
  sec : Int
  min : Int
  hour : Int
  mday : Int
  mon : Int
  year : Int
  deriving DecidableEq, Repr

structure Tm extends BrokenDownTime where
  isdst : Int
  deriving DecidableEq, Repr

def leapYearsUntil (year : Int) : Int := year / 4 - year / 100 + year / 400

def isLeapYear (year : Int) : Bool := year % 4 = 0 ∧ (year % 100 ≠ 0 ∨ year % 400 = 0)

def daysBeforeMonth (year : Int) (mon : ℕ) : Int :=
  (([31, 28, 31, 30, 31, 30, 31, 31, 30, 31, 30].take mon).sum : Int) +
    if isLeapYear year ∧ 2 ≤ mon then 1 else 0

namespace BrokenDownTime

def days (tm : BrokenDownTime) : Int :=
  let year := tm.year + 1900 + tm.mon / 12
  365 * (year - 1970) + leapYearsUntil (year - 1) - leapYearsUntil 1969 +
    daysBeforeMonth year (tm.mon % 12).toNat + tm.mday - 1

def timegm (tm : BrokenDownTime) : Int := ((tm.days * 24 + tm.hour) * 60 + tm.min) * 60 + tm.sec

end BrokenDownTime

-- The offsets are the seconds by which the standard time and the daylight saving time of the
-- process's zone are ahead of Greenwich at a local time; strptime leaves tm_isdst alone.
structure TimeLibrary where
  strptime : List UInt8 → Option BrokenDownTime
  standardOffset : BrokenDownTime → Int
  daylightOffset : BrokenDownTime → Int
  daylight : BrokenDownTime → Bool

def TimeLibrary.mktime (times : TimeLibrary) (tm : Tm) : Int :=
  if tm.isdst = 0 ∨ tm.isdst < 0 ∧ times.daylight tm.toBrokenDownTime = false then
    tm.timegm - times.standardOffset tm.toBrokenDownTime
  else tm.timegm - times.daylightOffset tm.toBrokenDownTime

def timestampInitUnixSeconds (unixSeconds : Int) : Checked Rat := do
  Checked.check (0 ≤ unixSeconds)
  pure (1000 * unixSeconds)

def setLastServerTime (processor : EventProcessor) (serverTime : Int) : Checked EventProcessor := do
  let lastServerTime ← timestampInitUnixSeconds serverTime
  pure { processor with lastServerTime }

def strnchr (c : UInt8) : List UInt8 → ℕ → Option ℕ
  | x :: str, len + 1 => if x = c then some 0 else (strnchr c str len).map (· + 1)
  | _, _ => none

def toLower (c : UInt8) : UInt8 := if 65 ≤ c ∧ c ≤ 90 then c + 32 else c

def strncasecmp : List UInt8 → List UInt8 → ℕ → Int
  | c₁ :: s₁, c₂ :: s₂, n + 1 =>
      if toLower c₁ ≠ toLower c₂ then (toLower c₁).toNat - (toLower c₂).toNat
      else if c₁ = 0 then 0
      else strncasecmp s₁ s₂ n
  | c₁ :: _, [], _ + 1 => (toLower c₁).toNat
  | [], c₂ :: _, _ + 1 => - (toLower c₂).toNat
  | _, _, _ => 0

def cString (buffer : List UInt8) : List UInt8 := buffer.takeWhile (· ≠ 0)

def isBlank (c : UInt8) : Bool := c = 32 || c = 9

def carriageReturn : UInt8 := 13

def dateheader : List UInt8 := bytes "Date:"

def dateheaderlen : ℕ := dateheader.length

def datebufferSize : ℕ := 128

def zeroTm : Tm := ⟨⟨0, 0, 0, 0, 0, 0⟩, 0⟩

def parseRFC822 (times : TimeLibrary) (date : List UInt8) (tm : Tm) : Option Tm :=
  (times.strptime date).map fun parsed => { tm with toBrokenDownTime := parsed }

def receiveDate (times : TimeLibrary) (datebuffer : List UInt8) (total : ℕ)
    (processor : EventProcessor) : Checked (ℕ × EventProcessor) :=
  match parseRFC822 times (cString datebuffer) zeroTm with
  | none => pure (total, processor)
  | some tm =>
    if times.mktime tm = -1 then pure (total, processor)
    else do
      let processor ← setLastServerTime processor (times.mktime tm)
      pure (total, processor)

-- A negative length, cast to size_t, would be larger than the buffer.
def onHeader (times : TimeLibrary) (buffer : List UInt8) (processor : EventProcessor) :
    Checked (ℕ × EventProcessor) :=
  let total := buffer.length
  match strnchr carriageReturn buffer total with
  | none => pure (total, processor)
  | some headerend =>
    if total ≤ dateheaderlen then pure (total, processor)
    else if strncasecmp buffer dateheader dateheaderlen ≠ 0 then pure (total, processor)
    else
      let date := (buffer.drop dateheaderlen).dropWhile isBlank
      let length : Int := headerend - (total - date.length : ℕ)
      if length < 0 ∨ datebufferSize < length + 1 then pure (total, processor)
      else receiveDate times (date.take length.toNat) total processor

structure DateHeader (line value : List UInt8) : Prop where
  split : ∃ name blanks rest, line = name ++ blanks ++ value ++ carriageReturn :: rest ∧
    name.map toLower = dateheader.map toLower ∧ ∀ c ∈ blanks, isBlank c = true
  trimmed : ∀ c ∈ value.head?, isBlank c = false
  ended : carriageReturn ∉ value

structure ServerTimeSet (times : TimeLibrary) (line : List UInt8) (processor next : EventProcessor) :
    Prop where
  dated : ∀ value tm, DateHeader line value → times.strptime (cString value) = some tm →
    next = { processor with lastServerTime := 1000 * tm.timegm }
  other : (∀ value tm, DateHeader line value → times.strptime (cString value) ≠ some tm) →
    next = processor

structure GreenwichDate (times : TimeLibrary) (value : List UInt8) (tm : BrokenDownTime) : Prop where
  room : value.length < datebufferSize
  zone : times.standardOffset tm = 0
  epoch : 0 ≤ tm.timegm

theorem strnchr_append {c : UInt8} {before : List UInt8} (h : c ∉ before) (after : List UInt8)
    {len : ℕ} (hlen : before.length < len) :
    strnchr c (before ++ c :: after) len = some before.length := by
  induction before generalizing len with
  | nil =>
      obtain ⟨len, rfl⟩ := Nat.exists_eq_add_of_lt hlen
      simp [strnchr]
  | cons x before ih =>
      obtain ⟨hne, hrest⟩ := not_or.mp (List.mem_cons.not.mp h)
      cases len with
      | zero => cases hlen
      | succ len =>
          rw [List.cons_append, strnchr, if_neg (Ne.symm hne), ih hrest (Nat.lt_of_succ_lt_succ hlen)]
          rfl

theorem mem_of_strnchr {c : UInt8} {str : List UInt8} {len i : ℕ} (h : strnchr c str len = some i) :
    c ∈ str := by
  induction str generalizing len i with
  | nil => cases h
  | cons x str ih =>
      cases len with
      | zero => cases h
      | succ len =>
          rw [strnchr] at h
          split_ifs at h with hx
          · exact hx ▸ List.mem_cons_self
          · obtain ⟨j, hj, -⟩ := Option.map_eq_some_iff.mp h
            exact List.mem_cons_of_mem _ (ih hj)

theorem toLower_eq_zero_iff {c : UInt8} : toLower c = 0 ↔ c = 0 := by
  rw [toLower]
  split_ifs with h
  · simp only [← UInt8.toNat_inj, UInt8.le_iff_toNat_le, UInt8.toNat_add] at h ⊢
    constructor
    · intro hzero
      exact absurd hzero (by simp at h ⊢; omega)
    · intro hzero
      rw [hzero] at h
      simp at h
  · rfl

theorem strncasecmp_eq_zero_iff {s text : List UInt8} (htext : 0 ∉ text) :
    strncasecmp s text text.length = 0 ↔
      (s.take text.length).map toLower = text.map toLower := by
  induction text generalizing s with
  | nil => cases s <;> simp [strncasecmp]
  | cons c₂ text ih =>
      obtain ⟨hzero, hrest⟩ := not_or.mp (List.mem_cons.not.mp htext)
      have hlower : toLower c₂ ≠ 0 := fun h => hzero (toLower_eq_zero_iff.mp h).symm
      cases s with
      | nil =>
          have hne : (toLower c₂).toNat ≠ 0 := fun h => hlower (UInt8.toNat_inj.mp h)
          rw [List.length_cons, strncasecmp]
          simp only [List.take_nil, List.map_nil, List.map_cons, reduceCtorEq, iff_false]
          omega
      | cons c₁ s =>
          rw [List.length_cons, strncasecmp, List.take_succ_cons, List.map_cons, List.map_cons,
            List.cons_eq_cons]
          by_cases hsame : toLower c₁ = toLower c₂
          · have hone : c₁ ≠ 0 := fun h => hlower (hsame ▸ toLower_eq_zero_iff.mpr h)
            rw [if_neg (not_not.mpr hsame), if_neg hone, ih hrest]
            exact (and_iff_right hsame).symm
          · have hne : (toLower c₁).toNat ≠ (toLower c₂).toNat := fun h => hsame (UInt8.toNat_inj.mp h)
            rw [if_pos hsame]
            simp only [hsame, false_and, iff_false]
            omega

theorem dropWhile_blanks {blanks rest : List UInt8} (hblanks : ∀ c ∈ blanks, isBlank c = true)
    (hrest : ∀ c ∈ rest.head?, isBlank c = false) : (blanks ++ rest).dropWhile isBlank = rest := by
  rw [List.dropWhile_append_of_pos hblanks]
  cases rest with
  | nil => rfl
  | cons c rest => rw [List.dropWhile_cons_of_neg (by simp [hrest c rfl])]

theorem zero_notMem_dateheader : 0 ∉ dateheader := by decide

theorem carriageReturn_notMem_name {name : List UInt8}
    (h : name.map toLower = dateheader.map toLower) : carriageReturn ∉ name := by
  intro hmem
  have hlower : toLower carriageReturn ∈ dateheader.map toLower := h ▸ List.mem_map_of_mem hmem
  exact absurd hlower (by decide)

theorem carriageReturn_notMem_blanks {blanks : List UInt8} (h : ∀ c ∈ blanks, isBlank c = true) :
    carriageReturn ∉ blanks := fun hmem => absurd (h _ hmem) (by decide)

structure Pieces (line value name blanks rest : List UInt8) : Prop where
  split : line = name ++ blanks ++ value ++ carriageReturn :: rest
  length : name.length = dateheader.length
  named : name.map toLower = dateheader.map toLower
  free : carriageReturn ∉ name ++ blanks ++ value
  date : (line.drop dateheaderlen).dropWhile isBlank = value ++ carriageReturn :: rest

theorem DateHeader.pieces {line value : List UInt8} (h : DateHeader line value) :
    ∃ name blanks rest, Pieces line value name blanks rest := by
  obtain ⟨name, blanks, rest, hline, hname, hblanks⟩ := h.split
  have hlength : name.length = dateheader.length := by
    simpa only [List.length_map] using congrArg List.length hname
  refine ⟨name, blanks, rest, hline, hlength, hname, ?_, ?_⟩
  · simp only [List.mem_append, not_or]
    exact ⟨⟨carriageReturn_notMem_name hname, carriageReturn_notMem_blanks hblanks⟩, h.ended⟩
  · rw [hline, List.append_assoc, List.append_assoc, dateheaderlen, List.drop_left' hlength]
    refine dropWhile_blanks hblanks ?_
    cases value with
    | nil =>
        rintro c ⟨⟩
        decide
    | cons c value => exact h.trimmed

theorem takeWhile_value {value : List UInt8} (h : carriageReturn ∉ value) (rest : List UInt8) :
    (value ++ carriageReturn :: rest).takeWhile (· ≠ carriageReturn) = value := by
  have hall : ∀ c ∈ value, decide (c ≠ carriageReturn) = true := by
    intro c hc
    exact decide_eq_true fun heq => h (heq ▸ hc)
  rw [List.takeWhile_append_of_pos hall, List.takeWhile_cons_of_neg (by simp), List.append_nil]

theorem DateHeader.unique {line value value' : List UInt8} (h : DateHeader line value)
    (h' : DateHeader line value') : value = value' := by
  obtain ⟨_, _, rest, hpieces⟩ := h.pieces
  obtain ⟨_, _, rest', hpieces'⟩ := h'.pieces
  rw [← takeWhile_value h.ended rest, ← hpieces.date, hpieces'.date, takeWhile_value h'.ended]

theorem onHeader_date {times : TimeLibrary} {line value : List UInt8} (h : DateHeader line value)
    (processor : EventProcessor) :
    onHeader times line processor =
      if value.length < datebufferSize then receiveDate times value line.length processor
      else pure (line.length, processor) := by
  obtain ⟨name, blanks, rest, hline, hlength, hname, hfree, hdate⟩ := h.pieces
  have hend : strnchr carriageReturn line line.length = some (name ++ blanks ++ value).length := by
    rw [hline]
    exact strnchr_append hfree rest (by simp)
  have hcompare : strncasecmp line dateheader dateheaderlen = 0 := by
    refine (strncasecmp_eq_zero_iff zero_notMem_dateheader).mpr ?_
    rw [hline, List.append_assoc, List.append_assoc, List.take_left' hlength, hname]
  have hcount : line.length = (name ++ blanks ++ value).length + (rest.length + 1) := by
    rw [hline, List.length_append, List.length_cons]
  have htotal : ¬ line.length ≤ dateheaderlen := by
    simp only [hcount, List.length_append, dateheaderlen]
    omega
  have hspan : (((name ++ blanks ++ value).length : ℕ) : Int) -
      (line.length - (value ++ carriageReturn :: rest).length : ℕ) = value.length := by
    simp only [hcount, List.length_append, List.length_cons]
    omega
  rw [onHeader]
  simp only [hend, htotal, hcompare, hdate, hspan, if_false, ne_eq, not_true_eq_false]
  rw [Int.toNat_natCast, List.take_left]
  by_cases hroom : value.length < datebufferSize
  · rw [if_pos hroom, if_neg (by omega)]
  · rw [if_neg hroom, if_pos (by omega)]

theorem dateHeader_of_found {line : List UInt8} {headerend : ℕ}
    (hend : strnchr carriageReturn line line.length = some headerend)
    (hcompare : strncasecmp line dateheader dateheaderlen = 0) : ∃ value, DateHeader line value := by
  have hname := (strncasecmp_eq_zero_iff zero_notMem_dateheader).mp hcompare
  have hsplit : line = line.take dateheader.length ++ ((line.drop dateheader.length).takeWhile isBlank ++
      (line.drop dateheader.length).dropWhile isBlank) := by
    rw [List.takeWhile_append_dropWhile, List.take_append_drop]
  have hblanks : ∀ c ∈ (line.drop dateheader.length).takeWhile isBlank, isBlank c = true :=
    List.all_eq_true.mp List.all_takeWhile
  have hmem := mem_of_strnchr hend
  rw [hsplit, List.mem_append, List.mem_append] at hmem
  have hdate := (hmem.resolve_left (carriageReturn_notMem_name hname)).resolve_left
    (carriageReturn_notMem_blanks hblanks)
  obtain ⟨value, rest, hvalue, hended⟩ := List.eq_append_cons_of_mem hdate
  refine ⟨value, ⟨_, _, rest, ?_, hname, hblanks⟩, ?_, hended⟩
  · rw [List.append_assoc, List.append_assoc, ← hvalue]
    exact hsplit
  · intro c hc
    have hhead : ((line.drop dateheader.length).dropWhile isBlank).head? = some c := by
      rw [hvalue, List.head?_append_of_ne_nil _ (by rintro rfl; cases hc)]
      exact hc
    have hnot := List.head?_dropWhile_not isBlank (line.drop dateheader.length)
    rw [hhead] at hnot
    simpa using hnot

theorem onHeader_other {times : TimeLibrary} {line : List UInt8}
    (h : ∀ value, ¬ DateHeader line value) (processor : EventProcessor) :
    onHeader times line processor = .ok (line.length, processor) := by
  rw [onHeader]
  cases hend : strnchr carriageReturn line line.length with
  | none => rfl
  | some headerend =>
      by_cases hshort : line.length ≤ dateheaderlen
      · simp only [if_pos hshort]
        rfl
      · by_cases hcompare : strncasecmp line dateheader dateheaderlen = 0
        · obtain ⟨value, hvalue⟩ := dateHeader_of_found hend hcompare
          exact absurd hvalue (h value)
        · simp only [if_neg hshort, ne_eq, hcompare, not_false_eq_true, if_true]
          rfl

theorem setLastServerTime_cases {processor next : EventProcessor} {serverTime : Int}
    (h : setLastServerTime processor serverTime = .ok next) :
    0 ≤ serverTime ∧ next = { processor with lastServerTime := 1000 * serverTime } := by
  by_cases hepoch : 0 ≤ serverTime
  · rw [setLastServerTime, timestampInitUnixSeconds, decide_eq_true hepoch] at h
    cases h
    exact ⟨hepoch, rfl⟩
  · rw [setLastServerTime, timestampInitUnixSeconds, decide_eq_false hepoch] at h
    cases h

theorem mktime_standard (times : TimeLibrary) (tm : BrokenDownTime) :
    times.mktime { zeroTm with toBrokenDownTime := tm } = tm.timegm - times.standardOffset tm :=
  if_pos (.inl rfl)

theorem receiveDate_parsed {times : TimeLibrary} {value : List UInt8} {tm : BrokenDownTime}
    (hparse : times.strptime (cString value) = some tm) (total : ℕ) (processor : EventProcessor) :
    receiveDate times value total processor =
      if tm.timegm - times.standardOffset tm = -1 then pure (total, processor)
      else setLastServerTime processor (tm.timegm - times.standardOffset tm) >>= fun processor =>
        pure (total, processor) := by
  rw [receiveDate, parseRFC822, hparse, Option.map_some, ← mktime_standard]

theorem receiveDate_greenwich {times : TimeLibrary} {value : List UInt8} {tm : BrokenDownTime}
    (hparse : times.strptime (cString value) = some tm) (hzone : times.standardOffset tm = 0)
    (hepoch : 0 ≤ tm.timegm) (total : ℕ) (processor : EventProcessor) :
    receiveDate times value total processor =
      .ok (total, { processor with lastServerTime := 1000 * tm.timegm }) := by
  rw [receiveDate_parsed hparse, hzone, sub_zero, if_neg (by omega), setLastServerTime, timestampInitUnixSeconds, decide_eq_true hepoch]
  rfl

theorem serverTimeSet_of_greenwich {times : TimeLibrary} {line : List UInt8}
    (h : ∀ value tm, DateHeader line value → times.strptime (cString value) = some tm →
      GreenwichDate times value tm) (processor : EventProcessor) :
    ∃ next, onHeader times line processor = .ok (line.length, next) ∧
      ServerTimeSet times line processor next := by
  by_cases hheader : ∃ value, DateHeader line value
  · obtain ⟨value, hvalue⟩ := hheader
    rw [onHeader_date hvalue]
    cases hparse : times.strptime (cString value) with
    | none =>
        refine ⟨processor, ?_, ?_, fun _ => rfl⟩
        · rw [receiveDate, parseRFC822, hparse]
          split <;> rfl
        · intro value' tm hvalue' hparse'
          rw [← hvalue.unique hvalue', hparse] at hparse'
          cases hparse'
    | some tm =>
        obtain ⟨hroom, hzone, hepoch⟩ := h value tm hvalue hparse
        refine ⟨_, by rw [if_pos hroom, receiveDate_greenwich hparse hzone hepoch], ?_, ?_⟩
        · intro value' tm' hvalue' hparse'
          rw [← hvalue.unique hvalue', hparse] at hparse'
          cases hparse'
          rfl
        · intro hother
          exact absurd hparse (hother value tm hvalue)
  · have hother : ∀ value, ¬ DateHeader line value := not_exists.mp hheader
    exact ⟨processor, onHeader_other hother processor,
      fun value tm hvalue _ => absurd hvalue (hother value), fun _ => rfl⟩

def timedAt (lastServerTime : Rat) : EventProcessor :=
  { EventProcessor.create configNew 0 with lastServerTime }

theorem greenwich_of_serverTimeSet {times : TimeLibrary} {line value : List UInt8}
    {tm : BrokenDownTime}
    (hvalue : DateHeader line value) (hparse : times.strptime (cString value) = some tm)
    (h : ∃ next, onHeader times line (timedAt (1000 * tm.timegm + 1)) = .ok (line.length, next) ∧
      ServerTimeSet times line (timedAt (1000 * tm.timegm + 1)) next) :
    GreenwichDate times value tm := by
  obtain ⟨next, hrun, hset⟩ := h
  have htime : next.lastServerTime = 1000 * tm.timegm := by rw [hset.dated value tm hvalue hparse]
  have hchanged : next ≠ timedAt (1000 * tm.timegm + 1) := by
    rintro rfl
    have hsame : (1000 * tm.timegm + 1 : Rat) = 1000 * tm.timegm := htime
    linarith
  rw [onHeader_date hvalue] at hrun
  split_ifs at hrun with hroom
  · rw [receiveDate_parsed hparse] at hrun
    split_ifs at hrun with hminus
    · cases hrun
      exact absurd rfl hchanged
    · obtain ⟨stamped, hstamped, hpure⟩ := Checked.bind_eq_ok.mp hrun
      cases hpure
      obtain ⟨hepoch, rfl⟩ := setLastServerTime_cases hstamped
      have hstamp : (1000 * (tm.timegm - times.standardOffset tm : Int) : Rat) = 1000 * tm.timegm :=
        htime
      have hsame : tm.timegm - times.standardOffset tm = tm.timegm :=
        Int.cast_injective (mul_left_cancel₀ (by norm_num) hstamp)
      have hzone : times.standardOffset tm = 0 := by omega
      exact ⟨hroom, hzone, hsame ▸ hepoch⟩
  · cases hrun
    exact absurd rfl hchanged

def marchDate : List UInt8 := bytes "Fri, 29 Mar 2019 17:55:35 GMT"

def marchTm : BrokenDownTime := ⟨35, 55, 17, 29, 2, 119⟩

example : marchTm.timegm = 1553882135 := by decide

def timesEastBy (seconds : Int) : TimeLibrary where
  strptime date := if date = marchDate then some marchTm else none
  standardOffset _ := seconds
  daylightOffset _ := seconds + 3600
  daylight tm := decide (3 ≤ tm.mon ∧ tm.mon ≤ 9)

end ServerSdk
