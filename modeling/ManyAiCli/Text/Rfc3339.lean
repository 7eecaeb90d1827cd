import Mathlib.Data.Char
import Mathlib.Data.Int.Basic
import Mathlib.Tactic.Common

/-! Times with the offset of their zone, and their text after Go's `time.RFC3339`. The order of
the texts is that of what a clock in the zone shows, not that of the instants. -/

namespace ManyAiCli.Text

/-! ### Times -/

def isLeap (year : ℤ) : Bool := year % 4 = 0 && (year % 100 ≠ 0 || year % 400 = 0)

def monthDays (leap : Bool) : List ℕ := [31, if leap then 29 else 28, 31, 30, 31, 30, 31, 31, 30, 31, 30, 31]

def daysIn (month : ℕ) (leap : Bool) : ℕ := (monthDays leap).getD (month - 1) 0

def daysBeforeMonth (month : ℕ) (leap : Bool) : ℕ := ((monthDays leap).take (month - 1)).foldr (· + ·) 0

/-- From the first day of the year 1 on. -/
def daysBeforeYear (year : ℤ) : ℤ := 365 * (year - 1) + (year - 1) / 4 - (year - 1) / 100 + (year - 1) / 400

/-- `time.Time`: what a clock in its zone shows, and the seconds of the zone east of UTC. -/
structure Time where
  year : ℤ
  month : ℕ
  day : ℕ
  hour : ℕ
  minute : ℕ
  second : ℕ
  nsec : ℕ
  offset : ℤ
  month_range : 1 ≤ month ∧ month ≤ 12
  day_range : 1 ≤ day ∧ day ≤ daysIn month (isLeap year)
  hour_lt : hour < 24
  minute_lt : minute < 60
  second_lt : second < 60
  nsec_lt : nsec < 1000000000
  deriving DecidableEq

namespace Time

variable (t : Time)

def dayNumber : ℤ := daysBeforeYear t.year + daysBeforeMonth t.month (isLeap t.year) + (t.day - 1)

def secondOfDay : ℕ := (t.hour * 60 + t.minute) * 60 + t.second

/-- Seconds since 1970, in the zone. -/
def wall : ℤ := (t.dayNumber - 719162) * 86400 + t.secondOfDay

/-- The instant, truncated to seconds. -/
def unix : ℤ := t.wall - t.offset

/-- The first instant of the year 1. -/
def isZero : Bool := t.unix = -62135596800 && t.nsec = 0

end Time

/-! ### Their text -/

def utod (u : ℕ) : Char := Char.ofNat (48 + u)

def appendInt (x : ℤ) (width : ℕ) : List Char :=
  let u := x.natAbs
  (if x < 0 then ['-'] else []) ++
    if width = 2 ∧ u < 100 then [utod (u / 10), utod (u % 10)]
    else if width = 4 ∧ u < 10000 then [utod (u / 1000), utod (u / 100 % 10), utod (u / 10 % 10), utod (u % 10)]
    else List.replicate (width - (Nat.toDigits 10 u).length) '0' ++ Nat.toDigits 10 u

/-- The offset in whole minutes. -/
def formatZone (offset : ℤ) : List Char :=
  if offset = 0 then ['Z']
  else
    let zone := offset.tdiv 60
    (if zone < 0 then '-' else '+') ::
      (appendInt (zone.natAbs / 60 : ℕ) 2 ++ ':' :: appendInt (zone.natAbs % 60 : ℕ) 2)

/-- What comes after the year. -/
def formatClock (t : Time) : List Char :=
  appendInt t.month 2 ++ '-' :: (appendInt t.day 2 ++ 'T' :: (appendInt t.hour 2 ++ ':' ::
    (appendInt t.minute 2 ++ ':' :: (appendInt t.second 2 ++ formatZone t.offset))))

/-- `Format(time.RFC3339)`. -/
def formatRFC3339 (t : Time) : List Char := appendInt t.year 4 ++ '-' :: formatClock t

/-! ### The order of the texts -/

theorem utod_lt_iff : ∀ i < 10, ∀ j < 10, (utod i < utod j ↔ i < j) ∧ (utod i = utod j ↔ i = j) := by
  decide

theorem appendInt_four {y : ℤ} (h0 : 0 ≤ y) (h : y < 10000) : appendInt y 4 =
    [utod (y.natAbs / 1000), utod (y.natAbs / 100 % 10), utod (y.natAbs / 10 % 10), utod (y.natAbs % 10)] := by
  rw [appendInt, if_neg (by omega), if_neg (by omega), if_pos ⟨rfl, by omega⟩, List.nil_append]

/-- Years of four digits. -/
theorem appendInt_four_lt {y z : ℤ} (hy : 0 ≤ y ∧ y < 10000) (hz : 0 ≤ z ∧ z < 10000) :
    (appendInt y 4 < appendInt z 4 ↔ y < z) ∧ (appendInt y 4 = appendInt z 4 ↔ y = z) := by
  obtain ⟨hlt₁, heq₁⟩ := utod_lt_iff (y.natAbs / 1000) (by omega) (z.natAbs / 1000) (by omega)
  obtain ⟨hlt₂, heq₂⟩ := utod_lt_iff (y.natAbs / 100 % 10) (by omega) (z.natAbs / 100 % 10) (by omega)
  obtain ⟨hlt₃, heq₃⟩ := utod_lt_iff (y.natAbs / 10 % 10) (by omega) (z.natAbs / 10 % 10) (by omega)
  obtain ⟨hlt₄, heq₄⟩ := utod_lt_iff (y.natAbs % 10) (by omega) (z.natAbs % 10) (by omega)
  rw [appendInt_four hy.1 hy.2, appendInt_four hz.1 hz.2]
  constructor
  · simp only [List.cons_lt_cons_iff, hlt₁, heq₁, hlt₂, heq₂, hlt₃, heq₃, hlt₄, heq₄, List.not_lt_nil, and_false,
      or_false]
    omega
  · simp only [List.cons.injEq, heq₁, heq₂, heq₃, heq₄, and_true]
    omega

/-- What a clock shows after the year, as one number. -/
def Time.clock (t : Time) : ℕ := (((t.month * 100 + t.day) * 100 + t.hour) * 100 + t.minute) * 100 + t.second

theorem daysIn_le : ∀ month < 13, ∀ leap, daysIn month leap ≤ 31 := by decide

theorem Time.bounds (t : Time) : t.month < 100 ∧ t.day < 100 ∧ t.hour < 100 ∧ t.minute < 100 ∧ t.second < 100 := by
  have hmonth := t.month_range
  have hday := t.day_range
  have hin := daysIn_le t.month (by omega) (isLeap t.year)
  have hhour := t.hour_lt
  have hminute := t.minute_lt
  have hsecond := t.second_lt
  omega

theorem daysBeforeYear_succ (y : ℤ) : daysBeforeYear (y + 1) = daysBeforeYear y + 365 + (isLeap y).toNat := by
  have hleap : (isLeap y = true ↔ y % 4 = 0 ∧ (y % 100 ≠ 0 ∨ y % 400 = 0)) := by
    simp [isLeap]
  cases h : isLeap y with
  | true =>
    have hdiv := hleap.1 h
    simp only [daysBeforeYear, Bool.toNat_true]
    omega
  | false =>
    have hdiv : ¬ (y % 4 = 0 ∧ (y % 100 ≠ 0 ∨ y % 400 = 0)) := fun hno => by
      rw [hleap.2 hno] at h
      cases h
    simp only [daysBeforeYear, Bool.toNat_false]
    omega

theorem daysBeforeYear_le {y z : ℤ} (h : y < z) : daysBeforeYear y + 365 + (isLeap y).toNat ≤ daysBeforeYear z := by
  obtain ⟨n, rfl⟩ : ∃ n : ℕ, z = y + 1 + n := ⟨(z - (y + 1)).toNat, by omega⟩
  clear h
  induction n with
  | zero =>
    have hz : y + 1 + ((0 : ℕ) : ℤ) = y + 1 := by omega
    rw [hz]
    exact Int.le_of_eq (daysBeforeYear_succ y).symm
  | succ n ih =>
    have hz : y + 1 + ((n + 1 : ℕ) : ℤ) = (y + 1 + n) + 1 := by omega
    rw [hz, daysBeforeYear_succ (y + 1 + n)]
    omega

theorem daysBeforeMonth_le : ∀ leap, ∀ m < 13, 1 ≤ m →
    daysBeforeMonth m leap + daysIn m leap ≤ 365 + leap.toNat ∧
      ∀ m' < 13, m < m' → daysBeforeMonth m leap + daysIn m leap ≤ daysBeforeMonth m' leap := by
  decide

namespace Time

variable (e c : Time)

theorem dayNumber_lt (h : e.year < c.year ∨ e.year = c.year ∧ (e.month < c.month ∨ e.month = c.month ∧ e.day < c.day)) :
    e.dayNumber < c.dayNumber := by
  obtain ⟨hm, hm'⟩ := e.month_range
  obtain ⟨hk, hk'⟩ := c.month_range
  obtain ⟨hd, hd'⟩ := e.day_range
  obtain ⟨hf, -⟩ := c.day_range
  obtain ⟨hyear, hmonths⟩ := daysBeforeMonth_le (isLeap e.year) e.month (by omega) hm
  rw [dayNumber, dayNumber]
  rcases h with hy | ⟨hy, hmd⟩
  · have hnext := daysBeforeYear_le hy
    omega
  · rw [← hy]
    rcases hmd with hlt | ⟨heq, hday⟩
    · have hnext := hmonths c.month (by omega) hlt
      omega
    · rw [heq]
      omega

theorem secondOfDay_lt : e.secondOfDay < 86400 := by
  have hhour := e.hour_lt
  have hminute := e.minute_lt
  have hsecond := e.second_lt
  rw [secondOfDay]
  omega

/-- What two clocks show at a later time is more. -/
theorem wall_lt_of (h : e.year < c.year ∨ e.year = c.year ∧ e.clock < c.clock) : e.wall < c.wall := by
  obtain ⟨he₁, he₂, he₃, he₄, he₅⟩ := e.bounds
  obtain ⟨hc₁, hc₂, hc₃, hc₄, hc₅⟩ := c.bounds
  have hes := e.secondOfDay_lt
  have hcs := c.secondOfDay_lt
  by_cases hdate : e.year < c.year ∨ e.year = c.year ∧ (e.month < c.month ∨ e.month = c.month ∧ e.day < c.day)
  · have hday := dayNumber_lt e c hdate
    rw [wall, wall]
    omega
  · have hsame : e.year = c.year ∧ e.month = c.month ∧ e.day = c.day ∧ e.secondOfDay < c.secondOfDay := by
      have hminute := e.minute_lt
      have hsecond := e.second_lt
      have hminute' := c.minute_lt
      have hsecond' := c.second_lt
      rw [clock, clock] at h
      rw [secondOfDay, secondOfDay]
      omega
    obtain ⟨hy, hm, hd, hs⟩ := hsame
    rw [wall, wall, dayNumber, dayNumber, hy, hm, hd]
    omega

theorem wall_eq_of (hy : e.year = c.year) (hk : e.clock = c.clock) : e.wall = c.wall := by
  obtain ⟨he₁, he₂, he₃, he₄, he₅⟩ := e.bounds
  obtain ⟨hc₁, hc₂, hc₃, hc₄, hc₅⟩ := c.bounds
  have hsame : e.month = c.month ∧ e.day = c.day ∧ e.secondOfDay = c.secondOfDay := by
    rw [clock, clock] at hk
    rw [secondOfDay, secondOfDay]
    omega
  obtain ⟨hm, hd, hs⟩ := hsame
  rw [wall, wall, dayNumber, dayNumber, hy, hm, hd, hs]

theorem wall_cases : (e.year < c.year ∨ e.year = c.year ∧ e.clock < c.clock) ∨
    (e.year = c.year ∧ e.clock = c.clock) ∨ (c.year < e.year ∨ c.year = e.year ∧ c.clock < e.clock) := by
  omega

theorem wall_lt_iff : e.wall < c.wall ↔ e.year < c.year ∨ e.year = c.year ∧ e.clock < c.clock := by
  refine ⟨fun h => ?_, wall_lt_of e c⟩
  rcases wall_cases e c with hlt | ⟨hy, hk⟩ | hgt
  · exact hlt
  · have heq := wall_eq_of e c hy hk
    omega
  · have hgt' := wall_lt_of c e hgt
    omega

theorem wall_eq_iff : e.wall = c.wall ↔ e.year = c.year ∧ e.clock = c.clock := by
  refine ⟨fun h => ?_, fun h => wall_eq_of e c h.1 h.2⟩
  rcases wall_cases e c with hlt | heq | hgt
  · have hlt' := wall_lt_of e c hlt
    omega
  · exact heq
  · have hgt' := wall_lt_of c e hgt
    omega

end Time

/-! ### What the texts say of the instants -/

namespace Time

/-- As the texts are read: the year, then what the clock shows, then the zone. -/
def Reads (e c : Time) : Prop :=
  appendInt e.year 4 < appendInt c.year 4 ∨ appendInt e.year 4 = appendInt c.year 4 ∧
    (e.clock < c.clock ∨ e.clock = c.clock ∧ formatZone e.offset < formatZone c.offset)

instance (e c : Time) : Decidable (Reads e c) := inferInstanceAs (Decidable (_ ∨ _))

/-- With years of four digits, the text is read as a clock. -/
theorem reads_iff_wall {e c : Time} (he : 0 ≤ e.year ∧ e.year < 10000) (hc : 0 ≤ c.year ∧ c.year < 10000) :
    Reads e c ↔ e.wall < c.wall ∨ e.wall = c.wall ∧ formatZone e.offset < formatZone c.offset := by
  obtain ⟨hlt, heq⟩ := appendInt_four_lt he hc
  rw [Reads, hlt, heq, wall_lt_iff, wall_eq_iff]
  tauto

/-- In one zone the clocks go with the instants. -/
theorem reads_iff_unix {e c : Time} (he : 0 ≤ e.year ∧ e.year < 10000) (hc : 0 ≤ c.year ∧ c.year < 10000)
    (hzone : e.offset = c.offset) : Reads e c ↔ e.unix < c.unix := by
  have hself : ¬ formatZone c.offset < formatZone c.offset := List.lt_irrefl _
  rw [reads_iff_wall he hc, hzone, unix, unix, hzone]
  simp only [hself, and_false, or_false]
  omega

end Time

end ManyAiCli.Text
