import Mathlib.Data.List.Lex
import Mathlib.Data.String.Basic
import Mathlib.Order.Monotone.Basic

/-!
# RFC 3339 Timestamps

An `Instant` is a UTC date and time in the years 0 to 9999 with a nanosecond clock, and
`toRfc3339` prints it as `YYYY-MM-DDTHH:MM:SS+00:00`, with a fraction of 3, 6 or 9 digits
before the offset where the nanoseconds need one. The texts are of four lengths, and they are
compared character by character.

The comparison rests on two observations. The fields before the fraction have a fixed width,
so they are compared one after the other, as the elapsed time is (`block_lt_iff`,
`pad_append_lt_iff`). And where a shorter fraction ends, its text goes on with the sign of the
offset, which is below the point and below every digit (`fraction_append_lt`).

## Main results

* `toRfc3339_lt_iff`: the order of the texts is the order of the instants.
-/

namespace Rfc3339

/-! ### Blocks -/

/-- **Comparing block by block**, where block `a` starts at `f a` and the next one after it. -/
theorem block_lt_iff {f : ℕ → ℕ} (hf : Monotone f) {a b x y : ℕ} (hx : f a + x < f (a + 1))
    (hy : f b + y < f (b + 1)) : f a + x < f b + y ↔ a < b ∨ (a = b ∧ x < y) := by
  rcases lt_trichotomy a b with h | rfl | h
  · have hnext : f (a + 1) ≤ f b := hf h
    exact iff_of_true (by omega) (.inl h)
  · simp
  · have hnext : f (b + 1) ≤ f a := hf h
    refine iff_of_false (by omega) ?_
    omega

/-- Blocks of one size. -/
theorem mul_add_lt_iff {n a b x y : ℕ} (hx : x < n) (hy : y < n) :
    a * n + x < b * n + y ↔ a < b ∨ (a = b ∧ x < y) := by
  refine block_lt_iff (f := fun k => k * n) (fun i j h => Nat.mul_le_mul_right n h) ?_ ?_
  · rw [Nat.succ_mul]
    omega
  · rw [Nat.succ_mul]
    omega

/-! ### The calendar -/

/-- Leap years of the Gregorian calendar. -/
def isLeap (year : ℕ) : Bool :=
  decide (year % 4 = 0 ∧ (year % 100 ≠ 0 ∨ year % 400 = 0))

/-- The length of a month. -/
def daysInMonth (leap : Bool) : ℕ → ℕ
  | 2 => if leap then 29 else 28
  | 4 | 6 | 9 | 11 => 30
  | _ => 31

/-- No month is longer than 31 days. -/
theorem daysInMonth_le (leap : Bool) (month : ℕ) : daysInMonth leap month ≤ 31 := by
  unfold daysInMonth
  split
  · cases leap <;> decide
  · decide
  · decide
  · decide
  · decide
  · decide

/-- The days of a year before a month, the first of which is 1. -/
def daysBeforeMonth (leap : Bool) : ℕ → ℕ
  | 0 => 0
  | 1 => 0
  | month + 2 => daysBeforeMonth leap (month + 1) + daysInMonth leap (month + 1)

/-- The length of a year. -/
def daysInYear (leap : Bool) : ℕ :=
  if leap then 366 else 365

/-- The days before a year, from the year 0. -/
def daysBeforeYear : ℕ → ℕ
  | 0 => 0
  | year + 1 => daysBeforeYear year + daysInYear (isLeap year)

/-- Later years have more days before them. -/
theorem daysBeforeYear_monotone : Monotone daysBeforeYear :=
  monotone_nat_of_le_succ fun _ => Nat.le_add_right _ _

/-- Later months have more days of the year before them. -/
theorem daysBeforeMonth_monotone (leap : Bool) : Monotone (daysBeforeMonth leap) := by
  refine monotone_nat_of_le_succ fun month => ?_
  cases month with
  | zero => exact le_refl 0
  | succ month => exact Nat.le_add_right _ _

/-- A month ends where the next one starts. -/
theorem daysBeforeMonth_succ (leap : Bool) {month : ℕ} (h : 1 ≤ month) :
    daysBeforeMonth leap (month + 1) = daysBeforeMonth leap month + daysInMonth leap month := by
  obtain ⟨month, rfl⟩ := Nat.exists_eq_succ_of_ne_zero (Nat.one_le_iff_ne_zero.mp h)
  rfl

/-- The twelve months make the year. -/
theorem daysBeforeMonth_thirteen (leap : Bool) : daysBeforeMonth leap 13 = daysInYear leap := by
  cases leap <;> rfl

/-! ### Instants -/

/-- The nanoseconds of a minute. -/
def nanosPerMinute : ℕ :=
  60 * 10 ^ 9

/-- The nanoseconds of an hour. -/
def nanosPerHour : ℕ :=
  60 * nanosPerMinute

/-- The nanoseconds of a day. -/
def nanosPerDay : ℕ :=
  24 * nanosPerHour

/-- A UTC date and time. -/
@[ext]
structure Instant where
  year : ℕ
  month : ℕ
  day : ℕ
  hour : ℕ
  minute : ℕ
  second : ℕ
  nano : ℕ
  year_lt : year < 10 ^ 4
  month_pos : 1 ≤ month
  month_le : month ≤ 12
  day_pos : 1 ≤ day
  day_le : day ≤ daysInMonth (isLeap year) month
  hour_lt : hour < 24
  minute_lt : minute < 60
  second_lt : second < 60
  nano_lt : nano < 10 ^ 9

namespace Instant

/-! The nanoseconds since the start of the minute, of the hour, and so on. -/

/-- The nanoseconds since the minute started. -/
def sinceMinute (i : Instant) : ℕ :=
  i.second * 10 ^ 9 + i.nano

/-- The nanoseconds since the hour started. -/
def sinceHour (i : Instant) : ℕ :=
  i.minute * nanosPerMinute + i.sinceMinute

/-- The nanoseconds since the day started. -/
def sinceMidnight (i : Instant) : ℕ :=
  i.hour * nanosPerHour + i.sinceHour

/-- The nanoseconds since the month started. -/
def sinceMonth (i : Instant) : ℕ :=
  (i.day - 1) * nanosPerDay + i.sinceMidnight

/-- The nanoseconds since the year started. -/
def sinceNewYear (i : Instant) : ℕ :=
  daysBeforeMonth (isLeap i.year) i.month * nanosPerDay + i.sinceMonth

/-- The nanoseconds since the start of the year 0. -/
def elapsed (i : Instant) : ℕ :=
  daysBeforeYear i.year * nanosPerDay + i.sinceNewYear

/-- Less than a minute has passed since the minute started. -/
theorem sinceMinute_lt (i : Instant) : i.sinceMinute < nanosPerMinute := by
  have hsecond := i.second_lt
  have hnano := i.nano_lt
  rw [sinceMinute, nanosPerMinute]
  omega

/-- Less than an hour has passed since the hour started. -/
theorem sinceHour_lt (i : Instant) : i.sinceHour < nanosPerHour := by
  have hminute := i.minute_lt
  have hrest := i.sinceMinute_lt
  rw [nanosPerMinute] at hrest
  rw [sinceHour, nanosPerHour, nanosPerMinute]
  omega

/-- Less than a day has passed since midnight. -/
theorem sinceMidnight_lt (i : Instant) : i.sinceMidnight < nanosPerDay := by
  have hhour := i.hour_lt
  have hrest := i.sinceHour_lt
  rw [nanosPerHour, nanosPerMinute] at hrest
  rw [sinceMidnight, nanosPerDay, nanosPerHour, nanosPerMinute]
  omega

/-- Less than the month has passed since it started. -/
theorem sinceMonth_lt (i : Instant) :
    i.sinceMonth < daysInMonth (isLeap i.year) i.month * nanosPerDay := by
  have hday : i.day - 1 + 1 ≤ daysInMonth (isLeap i.year) i.month := by
    have hpos := i.day_pos
    have hle := i.day_le
    omega
  have hmul := Nat.mul_le_mul_right nanosPerDay hday
  have hrest := i.sinceMidnight_lt
  rw [Nat.succ_mul] at hmul
  rw [sinceMonth]
  omega

/-- The next month of the year has not started. -/
theorem sinceNewYear_lt_next (i : Instant) :
    i.sinceNewYear < daysBeforeMonth (isLeap i.year) (i.month + 1) * nanosPerDay := by
  rw [sinceNewYear, daysBeforeMonth_succ _ i.month_pos, Nat.add_mul]
  exact Nat.add_lt_add_left i.sinceMonth_lt _

/-- Less than the year has passed since it started. -/
theorem sinceNewYear_lt (i : Instant) :
    i.sinceNewYear < daysInYear (isLeap i.year) * nanosPerDay := by
  have hle := daysBeforeMonth_monotone (isLeap i.year) (Nat.succ_le_succ i.month_le)
  rw [daysBeforeMonth_thirteen] at hle
  exact i.sinceNewYear_lt_next.trans_le (Nat.mul_le_mul_right _ hle)

/-- The fields compared one after the other. -/
def Before (i j : Instant) : Prop :=
  i.year < j.year ∨ (i.year = j.year ∧
    (i.month < j.month ∨ (i.month = j.month ∧
      (i.day < j.day ∨ (i.day = j.day ∧
        (i.hour < j.hour ∨ (i.hour = j.hour ∧
          (i.minute < j.minute ∨ (i.minute = j.minute ∧
            (i.second < j.second ∨ (i.second = j.second ∧ i.nano < j.nano)))))))))))

/-- **The elapsed time is compared field by field.** -/
theorem elapsed_lt_iff {i j : Instant} : i.elapsed < j.elapsed ↔ i.Before j := by
  have hyear : ∀ k : Instant, daysBeforeYear k.year * nanosPerDay + k.sinceNewYear <
      daysBeforeYear (k.year + 1) * nanosPerDay := fun k => by
    rw [daysBeforeYear, Nat.add_mul]
    exact Nat.add_lt_add_left k.sinceNewYear_lt _
  rw [elapsed, elapsed, block_lt_iff (f := fun y => daysBeforeYear y * nanosPerDay)
    (fun a b h => Nat.mul_le_mul_right _ (daysBeforeYear_monotone h)) (hyear i) (hyear j)]
  refine or_congr Iff.rfl (and_congr_right fun heq => ?_)
  -- The two years are one, and so are their months.
  have hmonth := i.sinceNewYear_lt_next
  rw [sinceNewYear, heq] at hmonth
  rw [sinceNewYear, sinceNewYear, heq,
    block_lt_iff (f := fun m => daysBeforeMonth (isLeap j.year) m * nanosPerDay)
      (fun a b h => Nat.mul_le_mul_right _ (daysBeforeMonth_monotone _ h)) hmonth
      j.sinceNewYear_lt_next]
  refine or_congr Iff.rfl (and_congr_right fun _ => ?_)
  have hday : (i.day - 1 < j.day - 1 ↔ i.day < j.day) ∧
      (i.day - 1 = j.day - 1 ↔ i.day = j.day) := by
    have hi := i.day_pos
    have hj := j.day_pos
    omega
  rw [sinceMonth, sinceMonth, mul_add_lt_iff i.sinceMidnight_lt j.sinceMidnight_lt, hday.1, hday.2,
    sinceMidnight, sinceMidnight, mul_add_lt_iff i.sinceHour_lt j.sinceHour_lt,
    sinceHour, sinceHour, mul_add_lt_iff i.sinceMinute_lt j.sinceMinute_lt,
    sinceMinute, sinceMinute, mul_add_lt_iff i.nano_lt j.nano_lt]

/-- Where neither comes before the other, the first fields are equal and the others do not
decide. -/
theorem eq_of_not_before {a b : ℕ} {p q : Prop} (h : ¬ (a < b ∨ (a = b ∧ p)))
    (h' : ¬ (b < a ∨ (b = a ∧ q))) : a = b ∧ ¬ p ∧ ¬ q := by
  rw [not_or] at h h'
  have heq : a = b := by omega
  exact ⟨heq, fun hp => h.2 ⟨heq, hp⟩, fun hq => h'.2 ⟨heq.symm, hq⟩⟩

/-- **Different instants lie at different times.** -/
theorem elapsed_injective : Function.Injective elapsed := by
  intro i j h
  have hij : ¬ i.Before j := fun hlt => absurd (elapsed_lt_iff.mpr hlt) (by omega)
  have hji : ¬ j.Before i := fun hlt => absurd (elapsed_lt_iff.mpr hlt) (by omega)
  obtain ⟨hyear, hij, hji⟩ := eq_of_not_before hij hji
  obtain ⟨hmonth, hij, hji⟩ := eq_of_not_before hij hji
  obtain ⟨hday, hij, hji⟩ := eq_of_not_before hij hji
  obtain ⟨hhour, hij, hji⟩ := eq_of_not_before hij hji
  obtain ⟨hminute, hij, hji⟩ := eq_of_not_before hij hji
  obtain ⟨hsecond, hij, hji⟩ := eq_of_not_before hij hji
  have hnano : i.nano = j.nano := by omega
  exact Instant.ext hyear hmonth hday hhour hminute hsecond hnano

/-- Instants in the order of time. -/
instance : LinearOrder Instant :=
  LinearOrder.lift' elapsed elapsed_injective

/-- Instants are compared by the time elapsed. -/
theorem lt_iff {i j : Instant} : i < j ↔ i.elapsed < j.elapsed := Iff.rfl

/-! ### Texts -/

/-- A number below `10 ^ w` in `w` digits, the most significant first. -/
def pad : ℕ → ℕ → List Char
  | 0, _ => []
  | w + 1, n => Nat.digitChar (n / 10 ^ w) :: pad w (n % 10 ^ w)

/-- The digits of the fraction: the fewest of 0, 3, 6 and 9 that are exact. -/
def fractionDigits (nano : ℕ) : ℕ :=
  if nano = 0 then 0
  else if nano % 10 ^ 6 = 0 then 3
  else if nano % 10 ^ 3 = 0 then 6
  else 9

/-- The point and the digits of the fraction of a second. -/
def fraction (nano : ℕ) : List Char :=
  if nano = 0 then []
  else '.' :: pad (fractionDigits nano) (nano / 10 ^ (9 - fractionDigits nano))

/-- The offset of UTC. -/
def offset : List Char :=
  ['+', '0', '0', ':', '0', '0']

/-- Digits are ordered as their values. -/
theorem digitChar_lt_iff {p q : ℕ} (hp : p < 10) (hq : q < 10) :
    Nat.digitChar p < Nat.digitChar q ↔ p < q := by
  have h : ∀ p < 10, ∀ q < 10, Nat.digitChar p < Nat.digitChar q ↔ p < q := by decide
  exact h p hp q hq

/-- Digits tell their values apart. -/
theorem digitChar_inj {p q : ℕ} (hp : p < 10) (hq : q < 10) :
    Nat.digitChar p = Nat.digitChar q ↔ p = q := by
  have h : ∀ p < 10, ∀ q < 10, Nat.digitChar p = Nat.digitChar q ↔ p = q := by decide
  exact h p hp q hq

/-- The sign is below every digit. -/
theorem plus_lt_digitChar {p : ℕ} (hp : p < 10) : '+' < Nat.digitChar p := by
  have h : ∀ p < 10, '+' < Nat.digitChar p := by decide
  exact h p hp

/-- **Numbers of one width** are compared as they are, and then what follows them. -/
theorem pad_append_lt_iff {w a b : ℕ} (ha : a < 10 ^ w) (hb : b < 10 ^ w) {x y : List Char} :
    pad w a ++ x < pad w b ++ y ↔ a < b ∨ (a = b ∧ x < y) := by
  induction w generalizing a b with
  | zero =>
      obtain rfl : a = 0 := by omega
      obtain rfl : b = 0 := by omega
      simp [pad]
  | succ w ih =>
      have hpos : 0 < 10 ^ w := Nat.pow_pos (by decide)
      have hdiv : ∀ {c}, c < 10 ^ (w + 1) → c / 10 ^ w < 10 := fun hc => by
        rw [Nat.div_lt_iff_lt_mul hpos, Nat.mul_comm, ← Nat.pow_succ]
        exact hc
      rw [pad, pad, List.cons_append, List.cons_append, List.cons_lt_cons_iff,
        digitChar_lt_iff (hdiv ha) (hdiv hb), digitChar_inj (hdiv ha) (hdiv hb),
        ih (Nat.mod_lt a hpos) (Nat.mod_lt b hpos)]
      have hlt := mul_add_lt_iff (a := a / 10 ^ w) (b := b / 10 ^ w) (Nat.mod_lt a hpos)
        (Nat.mod_lt b hpos)
      rw [Nat.div_add_mod', Nat.div_add_mod'] at hlt
      have heq : a = b ↔ a / 10 ^ w = b / 10 ^ w ∧ a % 10 ^ w = b % 10 ^ w := by
        refine ⟨fun h => ⟨by rw [h], by rw [h]⟩, fun ⟨hd, hm⟩ => ?_⟩
        rw [← Nat.div_add_mod' a (10 ^ w), hd, hm, Nat.div_add_mod']
      rw [hlt, heq, or_assoc, and_assoc, ← and_or_left]

/-- The digits of a number are its leading ones and the others. -/
theorem pad_add {w k n : ℕ} (h : n < 10 ^ (w + k)) :
    pad (w + k) n = pad w (n / 10 ^ k) ++ pad k (n % 10 ^ k) := by
  induction w generalizing n with
  | zero =>
      rw [Nat.zero_add] at h ⊢
      rw [Nat.mod_eq_of_lt h, pad, List.nil_append]
  | succ w ih =>
      have hmul : 10 ^ (w + k) = 10 ^ k * 10 ^ w := by rw [Nat.add_comm, Nat.pow_add]
      have hmod : n % 10 ^ (w + k) < 10 ^ (w + k) := Nat.mod_lt n (Nat.pow_pos (by decide))
      rw [Nat.succ_add, pad, ih hmod, hmul, Nat.mod_mul_right_div_self, Nat.mod_mul_right_mod,
        ← Nat.div_div_eq_div_mul, pad, List.cons_append]

/-- A number of at least one digit begins with one. -/
theorem plus_lt_pad {w n : ℕ} (hw : 0 < w) (hn : n < 10 ^ w) (x y : List Char) :
    '+' :: x < pad w n ++ y := by
  obtain ⟨w, rfl⟩ := Nat.exists_eq_succ_of_ne_zero hw.ne'
  have hdigit : n / 10 ^ w < 10 := by
    rw [Nat.div_lt_iff_lt_mul (Nat.pow_pos (by decide)), Nat.mul_comm, ← Nat.pow_succ]
    exact hn
  rw [pad, List.cons_append, List.cons_lt_cons_iff]
  exact .inl (plus_lt_digitChar hdigit)

/-- **A fraction that ends earlier** goes on with the sign, so it is the lesser one unless its
digits are greater. -/
theorem pad_lt_longer {w k a b : ℕ} (hk : 0 < k) (ha : a < 10 ^ w) (hb : b < 10 ^ (w + k))
    (h : a * 10 ^ k ≤ b) (x y : List Char) :
    pad w a ++ '+' :: x < pad (w + k) b ++ '+' :: y := by
  have hpos : 0 < 10 ^ k := Nat.pow_pos (by decide)
  have hlead : b / 10 ^ k < 10 ^ w := by
    rw [Nat.div_lt_iff_lt_mul hpos, ← Nat.pow_add]
    exact hb
  rw [pad_add hb, List.append_assoc, pad_append_lt_iff ha hlead]
  rcases (Nat.le_div_iff_mul_le hpos).mpr h |>.lt_or_eq with hlt | heq
  · exact .inl hlt
  · exact .inr ⟨heq, plus_lt_pad hk (Nat.mod_lt b hpos) _ _⟩

/-- A fraction that ends later is the lesser one if its leading digits are. -/
theorem longer_lt_pad {w k a b : ℕ} (ha : a < 10 ^ w) (hb : b < 10 ^ (w + k))
    (h : b < a * 10 ^ k) (x y : List Char) :
    pad (w + k) b ++ x < pad w a ++ y := by
  have hpos : 0 < 10 ^ k := Nat.pow_pos (by decide)
  have hlead : b / 10 ^ k < a := (Nat.div_lt_iff_lt_mul hpos).mpr h
  rw [pad_add hb, List.append_assoc, pad_append_lt_iff (hlead.trans ha) ha]
  exact .inl hlead

/-- The fraction is exact. -/
theorem fractionDigits_exact (nano : ℕ) :
    fractionDigits nano ≤ 9 ∧
      nano / 10 ^ (9 - fractionDigits nano) * 10 ^ (9 - fractionDigits nano) = nano := by
  rw [fractionDigits]
  split_ifs <;> simp <;> omega

/-- The digits of a fraction hold it. -/
theorem fraction_digits_lt {nano : ℕ} (h : nano < 10 ^ 9) :
    nano / 10 ^ (9 - fractionDigits nano) < 10 ^ fractionDigits nano := by
  rw [Nat.div_lt_iff_lt_mul (Nat.pow_pos (by decide)), ← Nat.pow_add,
    Nat.add_sub_of_le (fractionDigits_exact nano).1]
  exact h

/-- **The fractions are compared as the nanoseconds**, whatever their lengths. -/
theorem fraction_append_lt {m n : ℕ} (hm : m < 10 ^ 9) (hn : n < 10 ^ 9) (h : m < n) :
    fraction m ++ offset < fraction n ++ offset := by
  have hn0 : n ≠ 0 := by omega
  rw [fraction, fraction, if_neg hn0]
  by_cases hm0 : m = 0
  · rw [if_pos hm0, List.nil_append, List.cons_append, offset, List.cons_lt_cons_iff]
    exact .inl (by decide)
  rw [if_neg hm0, List.cons_append, List.cons_append, List.cons_lt_cons_self]
  obtain ⟨hv, hm'⟩ := fractionDigits_exact m
  obtain ⟨hw, hn'⟩ := fractionDigits_exact n
  have ha := fraction_digits_lt hm
  have hb := fraction_digits_lt hn
  generalize fractionDigits m = v at *
  generalize fractionDigits n = w at *
  generalize m / 10 ^ (9 - v) = a at *
  generalize n / 10 ^ (9 - w) = b at *
  subst hm' hn'
  have hcancel : ∀ {c d e : ℕ}, c * 10 ^ e < d * 10 ^ e → c < d := fun hlt =>
    Nat.lt_of_mul_lt_mul_right hlt
  rcases lt_trichotomy v w with hlt | rfl | hlt
  · obtain ⟨k, rfl⟩ := Nat.exists_eq_add_of_le hlt.le
    have hscale : 10 ^ (9 - v) = 10 ^ k * 10 ^ (9 - (v + k)) := by
      rw [← Nat.pow_add]
      congr 1
      omega
    rw [hscale, ← Nat.mul_assoc] at h
    exact pad_lt_longer (by omega) ha hb (hcancel h).le _ _
  · rw [pad_append_lt_iff ha hb]
    exact .inl (hcancel h)
  · obtain ⟨k, rfl⟩ := Nat.exists_eq_add_of_le hlt.le
    have hscale : 10 ^ (9 - w) = 10 ^ k * 10 ^ (9 - (w + k)) := by
      rw [← Nat.pow_add]
      congr 1
      omega
    rw [hscale, ← Nat.mul_assoc] at h
    exact longer_lt_pad hb ha (hcancel h) _ _

/-- **Fractions are ordered as texts** before the offset, whatever their numbers of digits. -/
theorem fraction_append_lt_iff {m n : ℕ} (hm : m < 10 ^ 9) (hn : n < 10 ^ 9) :
    fraction m ++ offset < fraction n ++ offset ↔ m < n := by
  refine ⟨fun h => ?_, fraction_append_lt hm hn⟩
  by_contra hle
  rcases (Nat.le_of_not_lt hle).lt_or_eq with hlt | heq
  · exact lt_asymm h (fraction_append_lt hn hm hlt)
  · rw [heq] at h
    exact lt_irrefl _ h

/-- The characters of the text of an instant. -/
def toChars (i : Instant) : List Char :=
  pad 4 i.year ++ '-' :: (pad 2 i.month ++ '-' :: (pad 2 i.day ++ 'T' ::
    (pad 2 i.hour ++ ':' :: (pad 2 i.minute ++ ':' :: (pad 2 i.second ++
      (fraction i.nano ++ offset))))))

/-- The text of an instant, with the shortest exact fraction. -/
def toRfc3339 (i : Instant) : String :=
  .ofList i.toChars

/-- A second of a leap day, with nanoseconds. -/
def leapDay (second nano : ℕ) (hsecond : second < 60) (hnano : nano < 10 ^ 9) : Instant where
  year := 2024
  month := 2
  day := 29
  hour := 23
  minute := 59
  second := second
  nano := nano
  year_lt := by omega
  month_pos := by omega
  month_le := by omega
  day_pos := by omega
  day_le := by decide
  hour_lt := by omega
  minute_lt := by omega
  second_lt := hsecond
  nano_lt := hnano

example : (leapDay 7 0 (by omega) (by omega)).toRfc3339 = "2024-02-29T23:59:07+00:00" := by
  decide

example : (leapDay 7 45000 (by omega) (by omega)).toRfc3339 =
    "2024-02-29T23:59:07.000045+00:00" := by
  decide

/-- **Texts are ordered as their instants**, field by field. -/
theorem toChars_lt_iff {i j : Instant} : i.toChars < j.toChars ↔ i.Before j := by
  have hmonth : ∀ k : Instant, k.month < 10 ^ 2 := fun k => by
    have := k.month_le
    omega
  have hday : ∀ k : Instant, k.day < 10 ^ 2 := fun k => by
    have hle := k.day_le.trans (daysInMonth_le _ _)
    omega
  have hhour : ∀ k : Instant, k.hour < 10 ^ 2 := fun k => k.hour_lt.trans (by decide)
  have hminute : ∀ k : Instant, k.minute < 10 ^ 2 := fun k => k.minute_lt.trans (by decide)
  have hsecond : ∀ k : Instant, k.second < 10 ^ 2 := fun k => k.second_lt.trans (by decide)
  rw [toChars, toChars, pad_append_lt_iff i.year_lt j.year_lt, List.cons_lt_cons_self,
    pad_append_lt_iff (hmonth i) (hmonth j), List.cons_lt_cons_self,
    pad_append_lt_iff (hday i) (hday j), List.cons_lt_cons_self,
    pad_append_lt_iff (hhour i) (hhour j), List.cons_lt_cons_self,
    pad_append_lt_iff (hminute i) (hminute j), List.cons_lt_cons_self,
    pad_append_lt_iff (hsecond i) (hsecond j), fraction_append_lt_iff i.nano_lt j.nano_lt, Before]

/-- **The order of the texts is the order of the instants.** -/
theorem toRfc3339_lt_iff {i j : Instant} : i.toRfc3339 < j.toRfc3339 ↔ i < j := by
  rw [String.lt_iff_toList_lt, toRfc3339, toRfc3339, String.toList_ofList, String.toList_ofList,
    toChars_lt_iff, lt_iff, elapsed_lt_iff]

/-- **Texts tell instants apart.** -/
theorem toRfc3339_inj {i j : Instant} : i.toRfc3339 = j.toRfc3339 ↔ i = j := by
  refine ⟨fun h => ?_, congrArg toRfc3339⟩
  rcases lt_trichotomy i j with hij | rfl | hji
  · exact absurd h (toRfc3339_lt_iff.mpr hij).ne
  · rfl
  · exact absurd h (toRfc3339_lt_iff.mpr hji).ne'

end Instant

end Rfc3339
