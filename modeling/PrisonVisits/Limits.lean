/-! Hard limits. They hold whatever the settings say. -/

namespace PrisonVisits.Limits

/-- The furthest that a booking window reaches into the future. -/
def maxBookingHorizonDays : Int := 366

/-- The longest that an incomplete application is held. -/
def maxApplicationTtlMinutes : Int := 7 * 24 * 60

/-- The first and last year in which a template may be valid. -/
def minTemplateYear : Int := 1900

def maxTemplateYear : Int := 9999

def maxTemplatesPerPrison : Nat := 2000

def maxGroupsPerTemplate : Nat := 64

def maxEntriesPerGroup : Nat := 512

def maxWeeklyFrequency : UInt32 := 52

def maxVisitorsPerVisit : Nat := 10

def maxSupportPerVisit : Nat := 10

/-- The length of a name in bytes. -/
def maxNameLength : Nat := 256

/-- The length of a free text in bytes. -/
def maxTextLength : Nat := 512

/-- How many references are drawn in the search for an unused one. -/
def maxReferenceAttempts : Nat := 16

end PrisonVisits.Limits
