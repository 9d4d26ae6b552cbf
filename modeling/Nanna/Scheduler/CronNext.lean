import Mathlib.Order.Bounds.Defs
import Nanna.Scheduler.Cron

/-!
# The next run of a cron expression

`next_spec`: an accepted expression denotes what its fields say (`Denotes`), what `next` finds is the least later
minute that matches, and it misses none in the next 4 * 365 days. What lies behind them is out of its reach: 29
February over the year 2100 has no next run.
-/

namespace Nanna.Scheduler

open Nanna.Lib

/-! ## The grammar -/

/-- A part of a field's list. -/
inductive CronPart where
  | all
  | every (step : Nat)
  | single (v : Nat)
  | range (start stop : Nat)
  | stepped (start stop step : Nat)

namespace CronPart

/-- The values of a part, in a field from `min` to `max`. -/
def Has (min max : Nat) : CronPart → Nat → Prop
  | all, v => min ≤ v ∧ v ≤ max
  | every step, v => ∃ k, v = min + k * step ∧ v ≤ max
  | single n, v => v = n
  | range start stop, v => start ≤ v ∧ v ≤ stop
  | stepped start stop step, v => ∃ k, v = start + k * step ∧ v ≤ stop

/-- The numbers of a part lie in the field, a range runs forward and a step advances. -/
def Valid (min max : Nat) : CronPart → Prop
  | all => True
  | every step => 0 < step
  | single n => min ≤ n ∧ n ≤ max
  | range start stop => min ≤ start ∧ start ≤ stop ∧ stop ≤ max
  | stepped start stop step => (min ≤ start ∧ start ≤ stop ∧ stop ≤ max) ∧ 0 < step

/-- How a part is written. -/
inductive Written : Text → CronPart → Prop
  | all : Written ['*'] all
  | every {t : Text} {step : Nat} (h : parseUnsigned (2 ^ 32) t = some step) : Written ('*' :: '/' :: t) (every step)
  | single {t : Text} {n : Nat} (h : parseUnsigned (2 ^ 32) t = some n) : Written t (single n)
  | range {first last : Text} {start stop : Nat} (hstart : parseUnsigned (2 ^ 32) first = some start)
    (hstop : parseUnsigned (2 ^ 32) last = some stop) : Written (first ++ '-' :: last) (range start stop)
  | stepped {first last t : Text} {start stop step : Nat} (hstart : parseUnsigned (2 ^ 32) first = some start)
    (hstop : parseUnsigned (2 ^ 32) last = some stop) (h : parseUnsigned (2 ^ 32) t = some step) :
    Written (first ++ '-' :: last ++ '/' :: t) (stepped start stop step)

end CronPart

/-- The values of a field are those of its parts. -/
def FieldDenotes (field : Text) (min max : Nat) (values : Finset Nat) : Prop :=
  ∃ parts, List.Forall₂ CronPart.Written ((field.splitOn ',').map Text.trim) parts ∧
    (∀ part ∈ parts, part.Valid min max) ∧ ∀ v, v ∈ values ↔ ∃ part ∈ parts, part.Has min max v

/-- Five fields, with the values that they denote. -/
def Denotes (text : Text) (expr : CronExpr) : Prop :=
  ∃ minute hour day month weekday,
    splitWhitespace (expandAlias (Text.trim text)) = [minute, hour, day, month, weekday] ∧
      FieldDenotes minute 0 59 expr.minutes ∧ FieldDenotes hour 0 23 expr.hours ∧ FieldDenotes day 1 31 expr.days ∧
      FieldDenotes month 1 12 expr.months ∧ FieldDenotes weekday 0 6 expr.weekdays

variable {text t first last range part field : Text} {name message : String} {min max v n a b step fuel : Nat}
  {values done : Finset Nat} {expr : CronExpr}

theorem parseU32_eq_ok : parseU32 name message t = .ok n ↔ parseUnsigned (2 ^ 32) t = some n := by
  rw [parseU32]
  rcases parseUnsigned (2 ^ 32) t with _ | m <;> simp [invalidField]

theorem checkInRange_eq_ok : checkInRange name v min max = .ok () ↔ min ≤ v ∧ v ≤ max := by
  rw [checkInRange]
  split <;> simp <;> omega

theorem checkStep_eq_ok : checkStep name step = .ok () ↔ 0 < step := by
  rw [checkStep]
  split <;> simp <;> omega

theorem eq_of_splitOn {c : Char} (h : t.splitOn c = [first, last]) : t = first ++ c :: last := by
  rw [← @List.intercalate_splitOn _ t _ _ c, h, List.intercalate_cons_cons, List.intercalate_singleton,
    List.append_assoc, List.singleton_append]

theorem parseRange_eq_ok (h : parseRange range name min max = .ok (a, b)) : ∃ first last,
    range = first ++ '-' :: last ∧ parseUnsigned (2 ^ 32) first = some a ∧ parseUnsigned (2 ^ 32) last = some b ∧
      min ≤ a ∧ a ≤ b ∧ b ≤ max := by
  rw [parseRange] at h
  split at h
  · rename_i first last hsplit
    obtain ⟨start, hstart, h⟩ := bind_eq_ok.mp h
    obtain ⟨stop, hstop, h⟩ := bind_eq_ok.mp h
    obtain ⟨hmin, h⟩ := check_bind_eq_ok.mp h
    obtain ⟨hmax, h⟩ := check_bind_eq_ok.mp h
    split at h
    · cases h
    · rename_i hle
      cases h
      exact ⟨first, last, eq_of_splitOn hsplit, parseU32_eq_ok.mp hstart, parseU32_eq_ok.mp hstop,
        (checkInRange_eq_ok.mp hmin).1, Nat.le_of_not_lt hle, (checkInRange_eq_ok.mp hmax).2⟩
  · cases h

theorem mem_stepWalk (hstep : 0 < step) (hfuel : b < a + fuel) :
    v ∈ stepWalk step b fuel a ↔ ∃ k, v = a + k * step ∧ v ≤ b := by
  induction fuel generalizing a with
  | zero =>
    refine iff_of_false (Finset.notMem_empty v) ?_
    rintro ⟨k, rfl, hle⟩
    omega
  | succ fuel ih =>
    rw [stepWalk]
    split
    · rename_i hle
      rw [Finset.mem_insert, ih (by omega)]
      constructor
      · rintro (rfl | ⟨k, rfl, hk⟩)
        · exact ⟨0, by omega, hle⟩
        · exact ⟨k + 1, by rw [Nat.add_one_mul]; omega, hk⟩
      · rintro ⟨_ | k, rfl, hk⟩
        · exact .inl (by omega)
        · exact .inr ⟨k, by rw [Nat.add_one_mul]; omega, hk⟩
    · refine iff_of_false (Finset.notMem_empty v) ?_
      rintro ⟨k, rfl, hle⟩
      omega

theorem parsePart_eq_ok (h : parsePart part name min max = .ok values) : ∃ p, CronPart.Written part p ∧
    p.Valid min max ∧ ∀ v, v ∈ values ↔ p.Has min max v := by
  rw [parsePart] at h
  split at h
  · rename_i hall
    cases h
    exact ⟨.all, hall ▸ .all, trivial, fun v => Finset.mem_Icc⟩
  split at h
  · rename_i hevery
    obtain ⟨step, hstep, h⟩ := bind_eq_ok.mp h
    obtain ⟨hpos, h⟩ := check_bind_eq_ok.mp h
    cases h
    have htext : part = '*' :: '/' :: part.drop 2 := by
      conv_lhs => rw [← List.take_append_drop 2 part, hevery]
      rfl
    rw [htext]
    exact ⟨.every step, .every (parseU32_eq_ok.mp hstep), checkStep_eq_ok.mp hpos,
      fun v => mem_stepWalk (checkStep_eq_ok.mp hpos) (by omega)⟩
  split at h
  · split at h
    · rename_i range stepPart hsplit
      obtain ⟨step, hstep, h⟩ := bind_eq_ok.mp h
      obtain ⟨hpos, h⟩ := check_bind_eq_ok.mp h
      obtain ⟨⟨start, stop⟩, hrange, h⟩ := bind_eq_ok.mp h
      cases h
      obtain ⟨first, last, rfl, hstart, hstop, hbounds⟩ := parseRange_eq_ok hrange
      rw [eq_of_splitOn hsplit]
      exact ⟨.stepped start stop step, .stepped hstart hstop (parseU32_eq_ok.mp hstep),
        ⟨hbounds, checkStep_eq_ok.mp hpos⟩, fun v => mem_stepWalk (checkStep_eq_ok.mp hpos) (by omega)⟩
    · cases h
  split at h
  · obtain ⟨⟨start, stop⟩, hrange, h⟩ := bind_eq_ok.mp h
    cases h
    obtain ⟨first, last, rfl, hstart, hstop, hbounds⟩ := parseRange_eq_ok hrange
    exact ⟨.range start stop, .range hstart hstop, hbounds, fun v => Finset.mem_Icc⟩
  · obtain ⟨n, hn, h⟩ := bind_eq_ok.mp h
    obtain ⟨hbounds, h⟩ := check_bind_eq_ok.mp h
    cases h
    exact ⟨.single n, .single (parseU32_eq_ok.mp hn), checkInRange_eq_ok.mp hbounds, fun v => Finset.mem_singleton⟩

theorem foldlM_parsePart {texts : List Text}
    (h : texts.foldlM (fun values part => do
      let more ← parsePart (Text.trim part) name min max
      .ok (values ∪ more)) done = .ok values) :
    ∃ parts, List.Forall₂ CronPart.Written (texts.map Text.trim) parts ∧ (∀ part ∈ parts, part.Valid min max) ∧
      ∀ v, v ∈ values ↔ v ∈ done ∨ ∃ part ∈ parts, part.Has min max v := by
  induction texts generalizing done with
  | nil =>
    cases h
    exact ⟨[], .nil, by simp, by simp⟩
  | cons text texts ih =>
    rw [List.foldlM_cons] at h
    obtain ⟨done', hdone', h⟩ := bind_eq_ok.mp h
    obtain ⟨more, hmore, hdone'⟩ := bind_eq_ok.mp hdone'
    cases hdone'
    obtain ⟨part, hwritten, hvalid, hhas⟩ := parsePart_eq_ok hmore
    obtain ⟨parts, hparts, hvalids, hvalues⟩ := ih h
    refine ⟨part :: parts, .cons hwritten hparts, List.forall_mem_cons.mpr ⟨hvalid, hvalids⟩, fun v => ?_⟩
    rw [hvalues, Finset.mem_union, hhas, List.exists_mem_cons_iff, or_assoc]

theorem parseField_denotes (h : parseField field name min max = .ok values) : FieldDenotes field min max values := by
  obtain ⟨parts, hparts, hvalid, hvalues⟩ := foldlM_parsePart h
  refine ⟨parts, hparts, hvalid, fun v => ?_⟩
  rw [hvalues]
  exact or_iff_right (Finset.notMem_empty v)

/-- An accepted expression denotes what its fields say. -/
theorem parse_denotes (h : CronExpr.parse text = .ok expr) : Denotes text expr := by
  rw [CronExpr.parse] at h
  split at h
  · rename_i minute hour day month weekday hfields
    obtain ⟨minutes, hminutes, h⟩ := bind_eq_ok.mp h
    obtain ⟨hours, hhours, h⟩ := bind_eq_ok.mp h
    obtain ⟨days, hdays, h⟩ := bind_eq_ok.mp h
    obtain ⟨months, hmonths, h⟩ := bind_eq_ok.mp h
    obtain ⟨weekdays, hweekdays, h⟩ := bind_eq_ok.mp h
    cases h
    exact ⟨minute, hour, day, month, weekday, hfields, parseField_denotes hminutes, parseField_denotes hhours,
      parseField_denotes hdays, parseField_denotes hmonths, parseField_denotes hweekdays⟩
  · cases h

/-! ## The search -/

namespace CronExpr

variable {now time : Time} {m k : Int} {count : Nat}

/-- A whole minute whose fields all lie in the sets. -/
def Matches (expr : CronExpr) (time : Time) : Prop :=
  ∃ m : Int, time = m * minuteLength ∧ expr.admits (calendarMinute m) = true

theorem search_spec (h : expr.search count m = some k) :
    expr.admits (calendarMinute k) = true ∧ ∀ l, m ≤ l → l < k → expr.admits (calendarMinute l) = false := by
  induction count generalizing m with
  | zero => cases h
  | succ count ih =>
    rw [search] at h
    split at h
    · rename_i hadmits
      cases h
      exact ⟨hadmits, fun l hle hlt => absurd hlt (not_lt.mpr hle)⟩
    · rename_i hadmits
      obtain ⟨hk, hbefore⟩ := ih h
      refine ⟨hk, fun l hle hlt => ?_⟩
      rcases hle.eq_or_lt with rfl | hlt'
      · exact eq_false_of_ne_true hadmits
      · exact hbefore l hlt' hlt

theorem lt_of_search (h : expr.search count m = some k) : k < m + count := by
  induction count generalizing m with
  | zero => cases h
  | succ count ih =>
    rw [search] at h
    split at h
    · cases h
      omega
    · have hlt := ih h
      omega

theorem search_eq_none : expr.search count m = none ↔
    ∀ l, m ≤ l → l < m + count → expr.admits (calendarMinute l) = false := by
  induction count generalizing m with
  | zero => exact iff_of_true rfl fun l hle hlt => absurd hlt (by omega)
  | succ count ih =>
    rw [search]
    split
    · rename_i hadmits
      refine iff_of_false (by rintro ⟨⟩) fun h => ?_
      rw [h m le_rfl (by omega)] at hadmits
      cases hadmits
    · rename_i hadmits
      rw [ih]
      constructor
      · intro h l hle hlt
        rcases hle.eq_or_lt with rfl | hlt'
        · exact eq_false_of_ne_true hadmits
        · exact h l hlt' (by omega)
      · exact fun h l hle hlt => h l (by omega) (by omega)

theorem lt_minute_iff {now : Int} : now < m * minuteLength ↔ (now + minuteLength) / minuteLength ≤ m := by
  unfold minuteLength
  omega

theorem minute_le_iff {now : Int} : m * minuteLength ≤ now + maxIterations * minuteLength ↔
    m < (now + minuteLength) / minuteLength + maxIterations := by
  unfold minuteLength maxIterations
  omega

theorem next_least (h : expr.next now = some time) : IsLeast {t | now < t ∧ expr.Matches t} time := by
  obtain ⟨k, hsearch, rfl⟩ := Option.map_eq_some_iff.mp h
  obtain ⟨hk, hbefore⟩ := search_spec hsearch
  refine ⟨⟨lt_next h, k, rfl, hk⟩, ?_⟩
  rintro t ⟨hlt, m, rfl, hm⟩
  refine Int.mul_le_mul_of_nonneg_right (not_lt.mp fun hmk => ?_) (by decide)
  rw [hbefore m (lt_minute_iff.mp hlt) hmk] at hm
  cases hm

theorem next_eq_none : expr.next now = none ↔
    ∀ t, now < t → t ≤ now + maxIterations * minuteLength → ¬ expr.Matches t := by
  rw [next, Option.map_eq_none_iff, search_eq_none]
  constructor
  · rintro h t hlt hle ⟨m, rfl, hm⟩
    rw [h m (lt_minute_iff.mp hlt) (minute_le_iff.mp hle)] at hm
    cases hm
  · exact fun h m hle hlt => eq_false_of_ne_true fun hm =>
      h _ (lt_minute_iff.mpr hle) (minute_le_iff.mpr hlt) ⟨m, rfl, hm⟩

end CronExpr

/-- The sets of an accepted expression are those that it denotes, the next run is the least later match, and no match
in the next 4 * 365 days is missed. -/
theorem next_spec (h : CronExpr.parse text = .ok expr) (now : Time) : Denotes text expr ∧
    (∀ time, expr.next now = some time → IsLeast {t | now < t ∧ expr.Matches t} time) ∧
      (expr.next now = none →
        ∀ t, now < t → t ≤ now + CronExpr.maxIterations * minuteLength → ¬ expr.Matches t) :=
  ⟨parse_denotes h, fun _ => CronExpr.next_least, CronExpr.next_eq_none.mp⟩

def officeHours : CronExpr := ⟨{0, 15, 30, 45}, Finset.Icc 9 17, Finset.Icc 1 31, Finset.Icc 1 12, Finset.Icc 1 5⟩

theorem parse_officeHours : CronExpr.parse "*/15 9-17 * * 1-5".toList = .ok officeHours := by
  decide +kernel

/-- From the first of January 1970, a Thursday, at 9:00. -/
theorem next_officeHours : IsLeast {t | 0 < t ∧ officeHours.Matches t} (540 * minuteLength) :=
  (next_spec parse_officeHours 0).2.1 _ (by decide +kernel)

/-- Midnight of 29 February. -/
def leapDay : CronExpr := ⟨{0}, {0}, {29}, {2}, Finset.Icc 0 6⟩

/-- The first of March 2096. -/
def marchTheFirst : Time := 46081 * 1440 * minuteLength

theorem civil_ne_leapDay : ((List.range 1461).all fun i => civil (46081 + i) ≠ (2, 29)) = true := by
  decide +kernel

/-- 29 February 2104 comes, but nothing runs on it. -/
theorem leapDay_dropped : CronExpr.parse "0 0 29 2 *".toList = .ok leapDay ∧ leapDay.next marchTheFirst = none ∧
    ∃ t, marchTheFirst < t ∧ leapDay.Matches t := by
  refine ⟨rfl, CronExpr.next_eq_none.mpr ?_, 49001 * 1440 * minuteLength, by decide, 49001 * 1440, rfl, by decide⟩
  rintro t hlt hle ⟨m, rfl, hm⟩
  have hday : civil (m / 1440) = (2, 29) := by
    simp only [CronExpr.admits, Bool.and_eq_true, decide_eq_true_eq] at hm
    exact Prod.ext (Finset.mem_singleton.mp hm.1.2) (Finset.mem_singleton.mp hm.1.1.2)
  have hlow := CronExpr.lt_minute_iff.mp hlt
  have hhigh := CronExpr.minute_le_iff.mp hle
  have hspan : ∃ i < 1461, m / 1440 = 46081 + (i : Nat) := by
    refine ⟨(m / 1440 - 46081).toNat, ?_⟩
    unfold marchTheFirst minuteLength CronExpr.maxIterations at *
    omega
  obtain ⟨i, hi, heq⟩ := hspan
  have hne := of_decide_eq_true (List.all_eq_true.mp civil_ne_leapDay i (List.mem_range.mpr hi))
  exact hne (heq ▸ hday)

end Nanna.Scheduler
