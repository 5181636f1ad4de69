import PrisonVisits.Text.Enumerated

/-! Coded vocabularies: security categories, incentive levels and kinds of visitor support. Each
word has one code, which is also its text, and a fixed place in its list. -/

namespace PrisonVisits

/-- A finite vocabulary whose words have codes. -/
class Vocabulary (α : Type) extends Enumerated α where
  /-- The name that stands in the message about an unknown code. -/
  title : String
  code : α → String

namespace Vocabulary

variable {α : Type} [Vocabulary α]

/-- The word with the given code, spelled exactly so. -/
def ofCode? (s : String) : Option α := Enumerated.words.find? fun w => code w == s

/-- The message about a code that no word has. -/
def unknownMessage (α : Type) [Vocabulary α] (s : String) : String :=
  "unknown " ++ title α ++ " code: " ++ s

end Vocabulary

/-- A prisoner's security category. -/
inductive Category where
  | aHigh | aExceptional | aProvisional | aStandard | catB | catC | catD
  | yoiClosed | yoiOpen | yoiRestricted | unsentenced
  | femaleRestricted | femaleClosed | femaleSemi | femaleOpen
deriving DecidableEq

instance : Vocabulary Category where
  names := [("AHigh", .aHigh), ("AExceptional", .aExceptional), ("AProvisional", .aProvisional),
    ("AStandard", .aStandard), ("B", .catB), ("C", .catC), ("D", .catD), ("YoiClosed", .yoiClosed),
    ("YoiOpen", .yoiOpen), ("YoiRestricted", .yoiRestricted), ("Unsentenced", .unsentenced),
    ("FemaleRestricted", .femaleRestricted), ("FemaleClosed", .femaleClosed),
    ("FemaleSemi", .femaleSemi), ("FemaleOpen", .femaleOpen)]
  title := "Category"
  code
    | .aHigh => "A_HIGH"
    | .aExceptional => "A_EXCEPTIONAL"
    | .aProvisional => "A_PROVISIONAL"
    | .aStandard => "A_STANDARD"
    | .catB => "B"
    | .catC => "C"
    | .catD => "D"
    | .yoiClosed => "YOI_CLOSED"
    | .yoiOpen => "YOI_OPEN"
    | .yoiRestricted => "YOI_RESTRICTED"
    | .unsentenced => "UNSENTENCED"
    | .femaleRestricted => "FEMALE_RESTRICTED"
    | .femaleClosed => "FEMALE_CLOSED"
    | .femaleSemi => "FEMALE_SEMI"
    | .femaleOpen => "FEMALE_OPEN"

/-- A prisoner's incentive level. -/
inductive IncentiveLevel where
  | basic | standard | enhanced | enhanced2 | enhanced3
deriving DecidableEq

instance : Vocabulary IncentiveLevel where
  names := [("Basic", .basic), ("Standard", .standard), ("Enhanced", .enhanced),
    ("Enhanced2", .enhanced2), ("Enhanced3", .enhanced3)]
  title := "IncentiveLevel"
  code
    | .basic => "BASIC"
    | .standard => "STANDARD"
    | .enhanced => "ENHANCED"
    | .enhanced2 => "ENHANCED_2"
    | .enhanced3 => "ENHANCED_3"

/-- What a visitor may need help with. -/
inductive SupportType where
  | wheelchair | inductionLoop | bslInterpreter | maskExempt | other
deriving DecidableEq

instance : Vocabulary SupportType where
  names := [("Wheelchair", .wheelchair), ("InductionLoop", .inductionLoop),
    ("BslInterpreter", .bslInterpreter), ("MaskExempt", .maskExempt), ("Other", .other)]
  title := "SupportType"
  code
    | .wheelchair => "WHEELCHAIR"
    | .inductionLoop => "INDUCTION_LOOP"
    | .bslInterpreter => "BSL_INTERPRETER"
    | .maskExempt => "MASK_EXEMPT"
    | .other => "OTHER"

end PrisonVisits
