import PrisonVisits.Limits
import PrisonVisits.Text.Numeral

/-! Settings. They come from named variables; a variable that is missing or cannot be read keeps its
default. The booking policy is what the desk needs of them, kept within the hard limits whatever the
settings say. -/

namespace PrisonVisits

open Text

/-- When sessions may be booked and how long an application is held. -/
structure BookingPolicy where
  minDays : Int
  maxDays : Int
  applicationTtlSeconds : Int
deriving DecidableEq

structure Settings where
  dataFolder : String
  bookingMinDays : Int
  bookingMaxDays : Int
  applicationTtlMinutes : Int
  reaperIntervalSeconds : Nat
  compactThreshold : Nat
deriving DecidableEq

/-- Why settings are refused. -/
inductive SettingsFault where
  | negativeMinDays
  | minExceedsMax (minDays maxDays : Int)
  | ttlNotPositive
deriving DecidableEq

def SettingsFault.message : SettingsFault → String
  | negativeMinDays => "booking_min_days must not be negative"
  | minExceedsMax minDays maxDays =>
    "booking_min_days (" ++ toString minDays ++ ") exceeds booking_max_days (" ++
      toString maxDays ++ ")"
  | ttlNotPositive => "application_ttl_minutes must be positive"

namespace Settings

def default : Settings where
  dataFolder := "./data"
  bookingMinDays := 2
  bookingMaxDays := 28
  applicationTtlMinutes := 20
  reaperIntervalSeconds := 30
  compactThreshold := 1000

/-- A signed number of 64 bits. -/
def readSigned (s : String) : Option Int :=
  (signed? (trim s.toList)).filter fun n =>
    Int64.minValue.toInt ≤ n ∧ n ≤ Int64.maxValue.toInt

/-- An unsigned number of 64 bits. -/
def readUnsigned (s : String) : Option Nat :=
  (unsigned? (trim s.toList)).filter fun n => n < UInt64.size

/-- Settings from variables. Those with a hard limit are cut down to it. -/
def ofVariables (lookup : String → Option String) : Settings :=
  let signed (name : String) (d : Int) : Int := ((lookup name).bind readSigned).getD d
  let unsigned (name : String) (d : Nat) : Nat := ((lookup name).bind readUnsigned).getD d
  { dataFolder := (lookup "VISITSCHED_DATA_DIR").getD default.dataFolder
    bookingMinDays := signed "VISITSCHED_BOOKING_MIN_DAYS" default.bookingMinDays
    bookingMaxDays :=
      min (signed "VISITSCHED_BOOKING_MAX_DAYS" default.bookingMaxDays) Limits.maxBookingHorizonDays
    applicationTtlMinutes :=
      min (signed "VISITSCHED_APPLICATION_TTL_MINUTES" default.applicationTtlMinutes)
        Limits.maxApplicationTtlMinutes
    reaperIntervalSeconds :=
      unsigned "VISITSCHED_REAPER_INTERVAL_SECS" default.reaperIntervalSeconds
    compactThreshold := unsigned "VISITSCHED_COMPACT_THRESHOLD" default.compactThreshold }

/-- The first thing that is wrong with the settings. -/
def fault? (s : Settings) : Option SettingsFault :=
  if s.bookingMinDays < 0 then some .negativeMinDays
  else if s.bookingMaxDays < s.bookingMinDays then
    some (.minExceedsMax s.bookingMinDays s.bookingMaxDays)
  else if s.applicationTtlMinutes ≤ 0 then some .ttlNotPositive
  else none

/-- A number brought between zero and a limit. -/
def within (limit n : Int) : Int := max 0 (min n limit)

def policy (s : Settings) : BookingPolicy where
  minDays := within Limits.maxBookingHorizonDays s.bookingMinDays
  maxDays := within Limits.maxBookingHorizonDays s.bookingMaxDays
  applicationTtlSeconds := 60 * within Limits.maxApplicationTtlMinutes s.applicationTtlMinutes

/-- Whatever the settings say, the time to live is not negative. -/
theorem ttl_nonneg (s : Settings) : 0 ≤ s.policy.applicationTtlSeconds := by
  simp only [policy, within]
  omega

/-- A path inside a folder. A folder that ends in a slash needs no further one. -/
def inFolder (folder name : String) : String :=
  if folder.isEmpty || folder.toList.getLast? == some '/' then folder ++ name
  else folder ++ "/" ++ name

def journalPath (s : Settings) : String := inFolder s.dataFolder "visits.wal"

end Settings

end PrisonVisits
