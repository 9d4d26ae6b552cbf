import Mathlib.Data.Finset.Basic
import Mathlib.Order.Interval.Finset.Nat
import Nanna.Lib.Decimal
import Nanna.Lib.Except

/-!
# Cron expressions

`CronExpr.parse` reads `minute hour day month weekday`, and `CronExpr.next` looks for the first
whole minute after an instant that all five fields admit, over four years of minutes. What the
scheduler rests on is that the minute it finds is later than the instant it looked from
(`CronExpr.lt_next`).

An instant is the nanoseconds since the epoch, in UTC.
-/

namespace Nanna.Scheduler

open Nanna.Lib

abbrev Time := Int

def nanosPerSecond : Nat := 1000000000

/-- The nanoseconds of a minute. -/
def minuteLength : Int := 60000000000

/-! ## The calendar -/

/-- The fields of a date and time that a cron expression looks at. -/
structure CalendarMinute where
  minute : Nat
  hour : Nat
  day : Nat
  month : Nat
  /-- Days from Sunday. -/
  weekday : Nat
  deriving DecidableEq

/-- Month and day of month, from the days since the epoch (proleptic Gregorian). -/
def civil (days : Int) : Nat × Nat :=
  -- eras of 400 years that start on the first of March
  let dayOfEra := ((days + 719468) % 146097).toNat
  let yearOfEra := (dayOfEra - dayOfEra / 1460 + dayOfEra / 36524 - dayOfEra / 146096) / 365
  let dayOfYear := dayOfEra - (365 * yearOfEra + yearOfEra / 4 - yearOfEra / 100)
  let fromMarch := (5 * dayOfYear + 2) / 153
  (if fromMarch < 10 then fromMarch + 3 else fromMarch - 9,
    dayOfYear - (153 * fromMarch + 2) / 5 + 1)

/-- The calendar fields of a minute, counted from the epoch. -/
def calendarMinute (m : Int) : CalendarMinute :=
  let days := m / 1440
  { minute := (m % 60).toNat
    hour := (m / 60 % 24).toNat
    day := (civil days).2
    month := (civil days).1
    weekday := ((days + 4) % 7).toNat }

-- 29 February 2024, 12:34, a Thursday
example : calendarMinute 28486834 = ⟨34, 12, 29, 2, 4⟩ := by decide

/-! ## Parsing -/

inductive CronError where
  | invalid (message : String)
  | invalidField (field message : String)
  | outOfRange (field : String) (value min max : Nat)
  deriving DecidableEq

structure CronExpr where
  minutes : Finset Nat
  hours : Finset Nat
  days : Finset Nat
  months : Finset Nat
  weekdays : Finset Nat
  deriving DecidableEq

def invalidField {α : Type} (name message : String) (t : Text) : Except CronError α :=
  .error (.invalidField name (message ++ String.ofList t))

/-- A `u32`, or the message that names what was not one. -/
def parseU32 (name message : String) (t : Text) : Except CronError Nat :=
  match parseUnsigned (2 ^ 32) t with
  | some n => .ok n
  | none => invalidField name message t

def checkInRange (name : String) (v min max : Nat) : Except CronError Unit :=
  if v < min ∨ v > max then .error (.outOfRange name v min max) else .ok ()

def parseRange (range : Text) (name : String) (min max : Nat) : Except CronError (Nat × Nat) :=
  match range.splitOn '-' with
  | [first, last] => do
    let start ← parseU32 name "Invalid range start: " first
    let stop ← parseU32 name "Invalid range end: " last
    checkInRange name start min max
    checkInRange name stop min max
    if start > stop then
      .error (.invalidField name
        ("Range start (" ++ toString start ++ ") greater than end (" ++ toString stop ++ ")"))
    else .ok (start, stop)
  | _ => invalidField name "Invalid range: " range

/-- The values `v`, `v + step`, … up to `last`; `fuel` bounds their number. -/
def stepWalk (step last : Nat) : Nat → Nat → Finset Nat
  | 0, _ => ∅
  | fuel + 1, v => if v ≤ last then insert v (stepWalk step last fuel (v + step)) else ∅

def checkStep (name : String) (step : Nat) : Except CronError Unit :=
  if step = 0 then .error (.invalidField name "Step cannot be 0") else .ok ()

/-- The values of one member of a field's comma-separated list. -/
def parsePart (part : Text) (name : String) (min max : Nat) : Except CronError (Finset Nat) :=
  if part = ['*'] then .ok (Finset.Icc min max)
  else if part.take 2 = ['*', '/'] then do
    let step ← parseU32 name "Invalid step: " (part.drop 2)
    checkStep name step
    .ok (stepWalk step max (max + 1) min)
  else if '/' ∈ part then
    match part.splitOn '/' with
    | [range, stepPart] => do
      let step ← parseU32 name "Invalid step: " stepPart
      checkStep name step
      let (start, stop) ← parseRange range name min max
      .ok (stepWalk step stop (stop + 1) start)
    | _ => invalidField name "Invalid step expression: " part
  else if '-' ∈ part then do
    let (start, stop) ← parseRange part name min max
    .ok (Finset.Icc start stop)
  else do
    let v ← parseU32 name "Invalid value: " part
    checkInRange name v min max
    .ok {v}

def parseField (field : Text) (name : String) (min max : Nat) : Except CronError (Finset Nat) :=
  (field.splitOn ',').foldlM
    (fun values part => do
      let more ← parsePart (Text.trim part) name min max
      .ok (values ∪ more))
    ∅

def splitWhitespace (t : Text) : List Text := (t.splitOnP Text.isWhitespace).filter (· ≠ [])

/-- What an `@hourly`-style name stands for. -/
def expandAlias (expr : Text) : Text :=
  if expr = "@yearly".toList ∨ expr = "@annually".toList then "0 0 1 1 *".toList
  else if expr = "@monthly".toList then "0 0 1 * *".toList
  else if expr = "@weekly".toList then "0 0 * * 0".toList
  else if expr = "@daily".toList ∨ expr = "@midnight".toList then "0 0 * * *".toList
  else if expr = "@hourly".toList then "0 * * * *".toList
  else if expr = "@every_minute".toList then "* * * * *".toList
  else expr

def CronExpr.parse (expr : Text) : Except CronError CronExpr :=
  match splitWhitespace (expandAlias (Text.trim expr)) with
  | [minute, hour, day, month, weekday] => do
    let minutes ← parseField minute "minute" 0 59
    let hours ← parseField hour "hour" 0 23
    let days ← parseField day "day" 1 31
    let months ← parseField month "month" 1 12
    let weekdays ← parseField weekday "weekday" 0 6
    .ok ⟨minutes, hours, days, months, weekdays⟩
  | parts => .error (.invalid ("Expected 5 fields, got " ++ toString parts.length))

/-! ## Matching -/

namespace CronExpr

variable {expr : CronExpr} {now t : Time}

def admits (expr : CronExpr) (c : CalendarMinute) : Bool :=
  c.minute ∈ expr.minutes && c.hour ∈ expr.hours && c.day ∈ expr.days && c.month ∈ expr.months &&
    c.weekday ∈ expr.weekdays

/-- The first admitted minute among `n` from `m` on. -/
def search (expr : CronExpr) : Nat → Int → Option Int
  | 0, _ => none
  | n + 1, m => if expr.admits (calendarMinute m) then some m else search expr n (m + 1)

/-- About four years of minutes. -/
def maxIterations : Nat := 4 * 365 * 24 * 60

/-- The next admitted instant; the seconds of the instant looked from do not count. -/
def next (expr : CronExpr) (now : Time) : Option Time :=
  (expr.search maxIterations ((now + minuteLength) / minuteLength)).map (· * minuteLength)

theorem le_of_search : ∀ {n : Nat} {m k : Int}, expr.search n m = some k → m ≤ k
  | 0, _, _, h => nomatch h
  | n + 1, m, k, h => by
    rw [search] at h
    split at h
    · exact (Option.some.inj h).le
    · exact (Int.le_add_one le_rfl).trans (le_of_search h)

theorem lt_next (h : expr.next now = some t) : now < t := by
  obtain ⟨m, hsearch, rfl⟩ := Option.map_eq_some_iff.mp h
  have hm := le_of_search hsearch
  have hfloor : now + minuteLength < ((now + minuteLength) / minuteLength + 1) * minuteLength :=
    Int.lt_mul_of_ediv_lt (by decide) (Int.lt_succ _)
  have hlast : ((now + minuteLength) / minuteLength + 1) * minuteLength ≤ (m + 1) * minuteLength :=
    Int.mul_le_mul_of_nonneg_right (Int.add_le_add_right hm 1) (by decide)
  refine lt_of_add_lt_add_right (hfloor.trans_le (hlast.trans_eq ?_))
  rw [Int.add_mul, Int.one_mul]

end CronExpr

end Nanna.Scheduler
