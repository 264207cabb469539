import Mathlib

/-!
# The proleptic Gregorian calendar

Dates and day numbers, where day 0 is 1970-01-01. The year is counted from March, so
that the day a leap year adds is the last one: `dayNumber` adds up whole years, whole
months and days, and `dateOf` takes centuries, groups of four years and years off a
day of the 400-year cycle.
-/

namespace Calendar

structure Date where
  year : Int
  month : Nat
  day : Nat
  deriving DecidableEq, Repr

def isLeap (year : Int) : Bool := year % 4 = 0 && (year % 100 ≠ 0 || year % 400 = 0)

def daysInMonth (year : Int) (month : Nat) : Nat :=
  if month = 2 then (if isLeap year then 29 else 28)
  else if month = 4 ∨ month = 6 ∨ month = 9 ∨ month = 11 then 30
  else 31

namespace Date

def valid (d : Date) : Bool :=
  (1 ≤ d.month && d.month ≤ 12) && (1 ≤ d.day && d.day ≤ daysInMonth d.year d.month)

/-- The year that began in March. -/
def marchYear (d : Date) : Int := if d.month ≤ 2 then d.year - 1 else d.year

/-- Months since March. -/
def marchMonth (d : Date) : Nat := if d.month ≤ 2 then d.month + 9 else d.month - 3

/-- Days since 1970-01-01. -/
def dayNumber (d : Date) : Int :=
  365 * d.marchYear + d.marchYear / 4 - d.marchYear / 100 + d.marchYear / 400 +
    ((153 * d.marchMonth + 2) / 5 + d.day - 1 : Nat) - 719468

end Date

/-- The day `doy` of the year that began in March of `marchYear`. -/
def ofMarch (marchYear : Int) (doy : Nat) : Date :=
  let mp := (5 * doy + 2) / 153
  let month := if mp < 10 then mp + 3 else mp - 9
  ⟨if month ≤ 2 then marchYear + 1 else marchYear, month, doy - (153 * mp + 2) / 5 + 1⟩

/-- The date of a day number. -/
def dateOf (n : Int) : Date :=
  let era := (n + 719468) / 146097
  let doe := ((n + 719468) % 146097).toNat
  let c := min 3 (doe / 36524)
  let q := (doe - 36524 * c) / 1461
  let r := doe - 36524 * c - 1461 * q
  let y := min 3 (r / 365)
  ofMarch (400 * era + 100 * c + 4 * q + y) (r - 365 * y)

/-- The parts `dateOf` takes off a day of the 400-year cycle: years of the cycle and the
day of the year, whose 366th day is there in leap years only. -/
theorem cycle_parts (doe : Nat) (h : doe < 146097) :
    ∃ c q y doy : Nat, c ≤ 3 ∧ q ≤ 24 ∧ y ≤ 3 ∧ doy ≤ 365 ∧
      (doy = 365 → y = 3 ∧ (q = 24 → c = 3)) ∧
      c = min 3 (doe / 36524) ∧ q = (doe - 36524 * c) / 1461 ∧
      y = min 3 ((doe - 36524 * c - 1461 * q) / 365) ∧ doy = doe - 36524 * c - 1461 * q - 365 * y ∧
      doe = 36524 * c + 1461 * q + 365 * y + doy := by
  refine ⟨_, _, _, _, ?_, ?_, ?_, ?_, ?_, rfl, rfl, rfl, rfl, ?_⟩ <;> omega

/-- The day number of a day of a March year. -/
def marchDay (marchYear : Int) (doy : Nat) : Int :=
  365 * marchYear + marchYear / 4 - marchYear / 100 + marchYear / 400 + doy - 719468

theorem dayNumber_eq_marchDay (d : Date) :
    d.dayNumber = marchDay d.marchYear ((153 * d.marchMonth + 2) / 5 + d.day - 1) := rfl

/-- The parts of a day of a March year. -/
theorem ofMarch_parts (marchYear : Int) {doy : Nat} (h : doy ≤ 365) :
    (ofMarch marchYear doy).marchYear = marchYear ∧
      (153 * (ofMarch marchYear doy).marchMonth + 2) / 5 + (ofMarch marchYear doy).day - 1 = doy := by
  simp only [ofMarch, Date.marchYear, Date.marchMonth]
  constructor
  · split_ifs <;> omega
  · split_ifs <;> omega

theorem dayNumber_ofMarch (marchYear : Int) {doy : Nat} (h : doy ≤ 365) :
    (ofMarch marchYear doy).dayNumber = marchDay marchYear doy := by
  rw [dayNumber_eq_marchDay, (ofMarch_parts marchYear h).1, (ofMarch_parts marchYear h).2]

/-- A year of the cycle, with the days of the centuries, groups and years before it. -/
theorem marchDay_cycle (era : Int) {c q y : Nat} (hc : c ≤ 3) (hq : q ≤ 24) (hy : y ≤ 3) (doy : Nat) :
    marchDay (400 * era + 100 * c + 4 * q + y) doy =
      146097 * era + (36524 * c + 1461 * q + 365 * y + doy : Nat) - 719468 := by
  have h4 : (400 * era + 100 * c + 4 * q + y) / 4 = 100 * era + 25 * c + q := by omega
  have h100 : (400 * era + 100 * c + 4 * q + y) / 100 = 4 * era + c := by omega
  have h400 : (400 * era + 100 * c + 4 * q + y) / 400 = era := by omega
  rw [marchDay, h4, h100, h400]
  omega

/-- `dateOf` on a day of the cycle that is given by its parts. -/
theorem dateOf_eq (n : Int) : ∃ (era : Int) (c q y doy : Nat), c ≤ 3 ∧ q ≤ 24 ∧ y ≤ 3 ∧ doy ≤ 365 ∧
    (doy = 365 → y = 3 ∧ (q = 24 → c = 3)) ∧ dateOf n = ofMarch (400 * era + 100 * c + 4 * q + y) doy ∧
      n = marchDay (400 * era + 100 * c + 4 * q + y) doy := by
  have hdoe : ((n + 719468) % 146097).toNat < 146097 := by omega
  obtain ⟨c, q, y, doy, hc, hq, hy, hdoy, hleap, ec, eq, ey, edoy, hsum⟩ := cycle_parts _ hdoe
  refine ⟨(n + 719468) / 146097, c, q, y, doy, hc, hq, hy, hdoy, hleap, ?_, ?_⟩
  · simp only [dateOf, ← ec, ← eq, ← ey, ← edoy]
  · rw [marchDay_cycle _ hc hq hy, ← hsum]
    omega

theorem dayNumber_dateOf (n : Int) : (dateOf n).dayNumber = n := by
  obtain ⟨era, c, q, y, doy, -, -, -, hdoy, -, hdate, hn⟩ := dateOf_eq n
  rw [hdate, dayNumber_ofMarch _ hdoy, ← hn]

theorem valid_ofMarch (marchYear : Int) {doy : Nat} (h : doy ≤ 365)
    (hleap : doy = 365 → isLeap (marchYear + 1) = true) : (ofMarch marchYear doy).valid = true := by
  have hmp : (5 * doy + 2) / 153 ≤ 11 := by omega
  generalize hm : (5 * doy + 2) / 153 = mp at hmp
  simp only [ofMarch, hm, Date.valid, Bool.and_eq_true, decide_eq_true_eq, daysInMonth]
  interval_cases mp <;> simp <;> first | omega | skip
  by_cases h365 : doy = 365
  · simp [hleap h365]; omega
  · split <;> omega

theorem valid_dateOf (n : Int) : (dateOf n).valid = true := by
  obtain ⟨era, c, q, y, doy, hc, hq, hy, hdoy, hleap, hdate, -⟩ := dateOf_eq n
  rw [hdate]
  refine valid_ofMarch _ hdoy fun h365 => ?_
  obtain ⟨rfl, hcent⟩ := hleap h365
  simp only [isLeap, Bool.and_eq_true, Bool.or_eq_true, decide_eq_true_eq]
  omega

/-- A valid date is a day of its March year, and the 366th only where a leap year ends. -/
theorem eq_ofMarch {d : Date} (h : d.valid = true) :
    ∃ doy ≤ 365, d = ofMarch d.marchYear doy ∧ (doy = 365 → isLeap (d.marchYear + 1) = true) := by
  obtain ⟨year, month, day⟩ := d
  simp only [Date.valid, Bool.and_eq_true, decide_eq_true_eq, daysInMonth] at h
  obtain ⟨⟨hm1, hm12⟩, hd1, hday⟩ := h
  have hmax : day ≤ 31 ∧ (month = 2 → day ≤ 29) ∧
      (month = 4 ∨ month = 6 ∨ month = 9 ∨ month = 11 → day ≤ 30) := by
    split_ifs at hday <;> omega
  refine ⟨(153 * (Date.mk year month day).marchMonth + 2) / 5 + day - 1, ?_, ?_, ?_⟩
  · interval_cases month <;> simp [Date.marchMonth] at hmax ⊢ <;> omega
  · have hmp : (5 * ((153 * (Date.mk year month day).marchMonth + 2) / 5 + day - 1) + 2) / 153 =
        (Date.mk year month day).marchMonth := by
      interval_cases month <;> simp [Date.marchMonth] at hmax ⊢ <;> omega
    rw [ofMarch, hmp]
    interval_cases month <;> simp [Date.marchMonth, Date.marchYear] <;> omega
  · interval_cases month <;> simp [Date.marchMonth, Date.marchYear] at hday ⊢ <;> grind

/-- The parts of a day of the cycle are determined by it. -/
theorem cycle_unique {c q y doy c' q' y' doy' : Nat} (hc : c ≤ 3) (hq : q ≤ 24) (hy : y ≤ 3) (hd : doy ≤ 365)
    (hl : doy = 365 → y = 3 ∧ (q = 24 → c = 3)) (hc' : c' ≤ 3) (hq' : q' ≤ 24) (hy' : y' ≤ 3)
    (hd' : doy' ≤ 365) (hl' : doy' = 365 → y' = 3 ∧ (q' = 24 → c' = 3))
    (h : 36524 * c + 1461 * q + 365 * y + doy = 36524 * c' + 1461 * q' + 365 * y' + doy') :
    c = c' ∧ q = q' ∧ y = y' ∧ doy = doy' := by
  have hcc : c = c' := by omega
  have hqq : q = q' := by omega
  have hyy : y = y' := by omega
  exact ⟨hcc, hqq, hyy, by omega⟩

/-- A day of a March year is told apart by its number. -/
theorem dateOf_marchDay (marchYear : Int) {doy : Nat} (h : doy ≤ 365)
    (hleap : doy = 365 → isLeap (marchYear + 1) = true) :
    dateOf (marchDay marchYear doy) = ofMarch marchYear doy := by
  obtain ⟨era, c, q, y, doy', hc, hq, hy, hdoy, hleap', hdate, hn⟩ := dateOf_eq (marchDay marchYear doy)
  rw [hdate]
  obtain ⟨era₁, c₁, q₁, y₁, hc₁, hq₁, hy₁, rfl⟩ : ∃ (era : Int) (c q y : Nat), c ≤ 3 ∧ q ≤ 24 ∧ y ≤ 3 ∧
      marchYear = 400 * era + 100 * c + 4 * q + y :=
    ⟨marchYear / 400, (marchYear % 400 / 100).toNat, (marchYear % 100 / 4).toNat, (marchYear % 4).toNat,
      by omega, by omega, by omega, by omega⟩
  have hl₁ : doy = 365 → y₁ = 3 ∧ (q₁ = 24 → c₁ = 3) := by
    intro h365
    have := hleap h365
    simp only [isLeap, Bool.and_eq_true, Bool.or_eq_true, decide_eq_true_eq] at this
    omega
  rw [marchDay_cycle _ hc₁ hq₁ hy₁, marchDay_cycle _ hc hq hy] at hn
  have hera : era = era₁ := by omega
  obtain ⟨rfl, rfl, rfl, rfl⟩ := cycle_unique hc hq hy hdoy hleap' hc₁ hq₁ hy₁ h hl₁ (by omega)
  rw [hera]

theorem dateOf_dayNumber {d : Date} (h : d.valid = true) : dateOf d.dayNumber = d := by
  obtain ⟨doy, hdoy, hd, hleap⟩ := eq_ofMarch h
  have hnum : d.dayNumber = marchDay d.marchYear doy := by
    rw [← dayNumber_ofMarch _ hdoy, ← hd]
  rw [hnum, dateOf_marchDay _ hdoy hleap, ← hd]

end Calendar
