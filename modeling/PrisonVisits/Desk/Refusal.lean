import PrisonVisits.Booking.Visit
import PrisonVisits.Limits
import PrisonVisits.Session.Overlap

/-! Refusals: every reason for which the desk turns a request down, and its message. A request that
is refused changes nothing. -/

namespace PrisonVisits

/-- What was looked for and not found. -/
inductive RowKind where
  | visit | application | group | sessionTemplate
deriving DecidableEq

def RowKind.text : RowKind → String
  | visit => "visit"
  | application => "application"
  | group => "group"
  | sessionTemplate => "session template"

/-- What is wrong with a request. -/
inductive Fault where
  | blankName
  | placeMissing
  | endsBeforeStart (startTime endTime : TimeOfDay)
  | validToBeforeFrom (validFrom validTo : Date)
  | yearUnsupported (date : Date)
  | frequencyZero
  | noCapacity
  | groupKindFixed (group : Reference) (kind asked : GroupKind)
  | groupOfOtherKind (group : Reference) (expected : GroupKind)
  | groupOfOtherPrison (group : Reference) (prisonCode expected : String)
  | prisonFixed
  | noVisitor
  | severalContacts (count : Nat)
  | unknownSupport (code : String)
  | supportUndescribed
  | templateInactive (template : Reference)
  | heldElsewhere (prisonerId heldAt sessionAt : String)
  | notOnDate (template : Reference) (date : Date)
  | outsideWindow (date earliest latest : Date)
  /-- The calendar ends inside the booking window. -/
  | windowPastCalendar
  | otherPrisoner (bookingReference : Reference)
  | supersededByHand
  | queryBackwards (first last : Date)
  | notHeldAt (prisonerId prisonCode : String)
deriving DecidableEq

def Fault.message : Fault → String
  | blankName => "name must not be blank"
  | placeMissing => "prison code and visit room are required"
  | endsBeforeStart startTime endTime =>
    "end time " ++ endTime.text ++ " must be after start time " ++ startTime.text
  | validToBeforeFrom validFrom validTo =>
    "valid to " ++ validTo.text ++ " is before valid from " ++ validFrom.text
  | yearUnsupported date =>
    date.text ++ " is outside the supported years " ++ toString Limits.minTemplateYear ++ "..=" ++
      toString Limits.maxTemplateYear
  | frequencyZero => "weekly frequency must be at least 1"
  | noCapacity => "open and closed capacity cannot both be zero"
  | groupKindFixed group kind asked =>
    "group " ++ group ++ " is a " ++ kind.text ++ " group, not " ++ asked.text
  | groupOfOtherKind group expected =>
    "group " ++ group ++ " is not a " ++ expected.text ++ " group"
  | groupOfOtherPrison group prisonCode expected =>
    "group " ++ group ++ " belongs to " ++ prisonCode ++ ", not " ++ expected
  | prisonFixed => "a template cannot move between prisons"
  | noVisitor => "at least one visitor is required"
  | severalContacts count =>
    toString count ++ " visitors flagged as the visit contact, at most one allowed"
  | unknownSupport code => "unsupported support type: " ++ code
  | supportUndescribed => "support type OTHER needs a description"
  | templateInactive template => "session template " ++ template ++ " is not active"
  | heldElsewhere prisonerId heldAt sessionAt =>
    "prisoner " ++ prisonerId ++ " is held at " ++ heldAt ++ ", session is at " ++ sessionAt
  | notOnDate template date => "session " ++ template ++ " does not run on " ++ date.text
  | outsideWindow date earliest latest =>
    date.text ++ " is outside the booking window " ++ earliest.text ++ "..=" ++ latest.text
  | windowPastCalendar => "the booking window passes the end of the calendar"
  | otherPrisoner bookingReference =>
    "booking " ++ bookingReference ++ " belongs to a different prisoner"
  | supersededByHand => "superseded cancellation is only set by booking"
  | queryBackwards first last =>
    "query ends " ++ last.text ++ " before it starts " ++ first.text
  | notHeldAt prisonerId prisonCode =>
    "prisoner " ++ prisonerId ++ " is not held at " ++ prisonCode

/-- What other rows stand in the way. -/
inductive Clash where
  | groupInUse (group : Reference)
  | strandsVisits (template : Reference)
  | futureVisits (template : Reference)
  | templateActive
  | visitsRemain (template : Reference)
  | notCovered (source target : Reference) (gaps : List CoverageGap)
deriving DecidableEq

def Clash.reason : Clash → String
  | groupInUse group => "group " ++ group ++ " is used by session templates"
  | strandsVisits template => "update to " ++ template ++ " would strand future visits"
  | futureVisits template => "template " ++ template ++ " has future visits"
  | templateActive => "cannot delete an active template"
  | visitsRemain template => "template " ++ template ++ " is referenced by visits"
  | notCovered source target gaps =>
    target ++ " does not cover " ++ source ++ ": " ++
      ", ".intercalate (gaps.map CoverageGap.text)

/-- Why the state of a booking does not allow a request. -/
inductive WrongState where
  | nothingToChange (bookingReference : Reference)
  | alreadyCompleted (application : Reference)
  | alreadyBooked (application : Reference)
  | nothingLeftToChange (bookingReference : Reference)
deriving DecidableEq

def WrongState.message : WrongState → String
  | nothingToChange bookingReference =>
    "booking " ++ bookingReference ++ " has no booked visit to change"
  | alreadyCompleted application => "application " ++ application ++ " is already completed"
  | alreadyBooked application => "application " ++ application ++ " is already booked"
  | nothingLeftToChange bookingReference =>
    "booking " ++ bookingReference ++ " has no booked visit left to change"

/-- The limit that a request passes. -/
inductive Excess where
  | nameTooLong | tooManyEntries | frequencyTooLarge | tooManyGroups | tooManyTemplates
  | tooManyVisitors | tooManySupport | supportTextTooLong | cancellationTextTooLong
  | noFreeReference
deriving DecidableEq

def Excess.message : Excess → String
  | nameTooLong => "name too long"
  | tooManyEntries => "too many entries in group"
  | frequencyTooLarge => "weekly frequency too large"
  | tooManyGroups => "too many groups on template"
  | tooManyTemplates => "too many templates for prison"
  | tooManyVisitors => "too many visitors"
  | tooManySupport => "too many support requests"
  | supportTextTooLong => "support text too long"
  | cancellationTextTooLong => "cancellation text too long"
  | noFreeReference => "could not allocate a unique reference"

inductive Refusal where
  | notFound (kind : RowKind) (reference : Reference)
  | validation (fault : Fault)
  | conflict (clash : Clash) (references : List Reference)
  | state (wrong : WrongState)
  | capacityExceeded (restriction : VisitRestriction) (capacity : UInt32)
  | notEligible (prisonerId : String) (dimensions : List GroupKind)
  | limitExceeded (excess : Excess)
  | unknownPrisoner (prisonerId : String)
  /-- The journal could not be compacted. -/
  | journal
deriving DecidableEq

def Refusal.message : Refusal → String
  | notFound kind reference => kind.text ++ " not found: " ++ reference
  | validation fault => "validation failed: " ++ fault.message
  | conflict clash references =>
    "conflict: " ++ clash.reason ++ " (" ++ ", ".intercalate references ++ ")"
  | state wrong => "invalid state: " ++ wrong.message
  | capacityExceeded restriction capacity =>
    Enumerated.name restriction ++ " capacity " ++ toString capacity.toNat ++
      " exceeded: all slots taken"
  | notEligible prisonerId dimensions =>
    "prisoner " ++ prisonerId ++ " not eligible: " ++
      ", ".intercalate (dimensions.map GroupKind.text)
  | limitExceeded excess => "limit exceeded: " ++ excess.message
  | unknownPrisoner prisonerId => "prisoner lookup failed: unknown prisoner " ++ prisonerId
  | journal => "journal error"

/-- A check that either passes or refuses. -/
def require (condition : Bool) (refusal : Refusal) : Except Refusal Unit :=
  if condition then .ok () else .error refusal

/-- A row that must be there. -/
def found {α : Type} (kind : RowKind) (reference : Reference) : Option α → Except Refusal α
  | some a => .ok a
  | none => .error (.notFound kind reference)

end PrisonVisits
