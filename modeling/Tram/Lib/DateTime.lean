import Tram.Lib.Binary64

/-! # Aware datetimes

An instant of the years 1 to 9999 in UTC, with microsecond resolution. Reading it as a Unix
timestamp goes through a float, as in Python; arithmetic that leaves the range of years fails. -/

/-- A UTC datetime: microseconds since the Unix epoch, within the years 1 to 9999. -/
structure DateTime where
  us : Int
  lower : -62135596800 * 1000000 ≤ us
  upper : us < 253402300800 * 1000000
deriving DecidableEq

namespace DateTime

instance : LE DateTime := ⟨fun a b => a.us ≤ b.us⟩

instance (a b : DateTime) : Decidable (a ≤ b) := inferInstanceAs (Decidable (a.us ≤ b.us))

/-- The datetime with the given microseconds; `none` is `OverflowError` or `ValueError`. -/
def ofUs? (us : Int) : Option DateTime :=
  if h : -62135596800 * 1000000 ≤ us ∧ us < 253402300800 * 1000000 then some ⟨us, h.1, h.2⟩ else none

/-- `datetime.fromtimestamp(t, tz=UTC)`, for an integer `t`. -/
def fromTimestamp? (t : Int) : Option DateTime := ofUs? (t * 1000000)

/-- `self - timedelta(seconds=s)`, for an integer `s`. -/
def subSeconds? (d : DateTime) (s : Int) : Option DateTime := ofUs? (d.us - s * 1000000)

/-- `timestamp()` of the moment: the microseconds divided by a million, as a float. -/
def timestampOf (us : Int) : ℚ := Binary64.round (us / 1000000)

/-- `int(timestamp())`. -/
def unixOf (us : Int) : Int := Binary64.trunc (timestampOf us)

/-- `int(timestamp() * 1000)`. -/
def unixMsOf (us : Int) : Int := Binary64.trunc (Binary64.round (timestampOf us * 1000))

def unix (d : DateTime) : Int := unixOf d.us

def unixMs (d : DateTime) : Int := unixMsOf d.us

theorem us_of_ofUs? {us : Int} {d : DateTime} (h : ofUs? us = some d) : d.us = us := by
  unfold ofUs? at h
  split_ifs at h
  rw [← Option.some.inj h]

/-- A whole second that has passed has passed in milliseconds too, in spite of the two roundings. -/
theorem le_unixMs {d : DateTime} {t : Int} (ht : |t * 1000| < 2 ^ 53) (h : t * 1000000 ≤ d.us) :
    t * 1000 ≤ d.unixMs := by
  have hbound : |t| < 2 ^ 53 := by
    rw [abs_lt] at ht ⊢
    omega
  have hdiv : (t : ℚ) ≤ d.us / 1000000 := by
    rw [le_div_iff₀ (by norm_num)]
    exact_mod_cast h
  have hstamp : (t : ℚ) ≤ timestampOf d.us := Binary64.le_round hbound hdiv
  refine Binary64.le_trunc (Binary64.le_round ht ?_)
  push_cast
  linarith

end DateTime
