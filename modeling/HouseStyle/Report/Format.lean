import HouseStyle.Fault
import HouseStyle.Report.Document
import HouseStyle.Report.Listing
import HouseStyle.Report.Sarif
import HouseStyle.Text.Case

/-! The formats of reports, by name and with their options. -/

namespace HouseStyle

inductive FormatKind where
  | listing | document | sarif
  deriving DecidableEq, Repr

/-- A format by its name, in any case. -/
def FormatKind.ofName? (name : Text) : Option FormatKind :=
  let name := Text.lower name
  if name = "text" || name = "cli" then some .listing
  else if name = "json" then some .document
  else if name = "sarif" then some .sarif
  else none

/-- A format with its options. -/
inductive Format where
  | listing (options : ListingOptions)
  | document (options : DocumentOptions)
  | sarif (includeSuppressed : Bool)
  deriving DecidableEq, Repr

namespace Format

/-! ### JSON -/

/-- What each level is indented by: a text, or so many blanks; `null` is for one line. -/
def indentOf (v : Value) : Try (Option Text) :=
  match v with
  | .null => .ok none
  | .text step => .ok (some step)
  | v =>
    match v.asInt? with
    | some n => .ok (some (Text.fill n.toNat ' '))
    | none => .error (.badArgument "the indent must be an integer")

/-- A value in JSON, if it has a form there. -/
def json (indent v : Value) : Try Text := do
  let indent ← indentOf indent
  match Json.lack? v with
  | some lack => throw (.noForm lack)
  | none => return Json.write indent v

/-! ### Options by name -/

def badOption {α : Type} (name : Text) : Try α :=
  .error (.badArgument ("unexpected option '" ++ name ++ "'"))

/-- Listings are coloured only on a terminal that shows colours. -/
def listingOptions (terminal : Bool) (options : ListingOptions) :
    List (Text × Value) → Try ListingOptions
  | [] => .ok options
  | (name, v) :: rest =>
    match name.toString with
    | "use_color" => listingOptions terminal { options with colour := v.isTrue && terminal } rest
    | "verbose" => listingOptions terminal { options with verbose := v.isTrue } rest
    | "include_suppressed" =>
      listingOptions terminal { options with includeSuppressed := v.isTrue } rest
    | _ => badOption name

def documentOptions (options : DocumentOptions) : List (Text × Value) → Try DocumentOptions
  | [] => .ok options
  | (name, v) :: rest =>
    match name.toString with
    | "indent" => documentOptions { options with indent := v } rest
    | "include_suppressed" => documentOptions { options with includeSuppressed := v.isTrue } rest
    | "include_timing" => documentOptions { options with includeTiming := v.isTrue } rest
    | _ => badOption name

def sarifOptions (includeSuppressed : Bool) : List (Text × Value) → Try Bool
  | [] => .ok includeSuppressed
  | (name, v) :: rest =>
    match name.toString with
    | "include_suppressed" => sarifOptions v.isTrue rest
    | _ => badOption name

/-- The format of a name with options by name. -/
def create (name : Text) (options : List (Text × Value)) (terminal : Bool) : Try Format :=
  match FormatKind.ofName? name with
  | none => .error (.unknownFormat name)
  | some .listing => listing <$> listingOptions terminal { colour := terminal } options
  | some .document => document <$> documentOptions {} options
  | some .sarif => sarif <$> sarifOptions false options

/-! ### Rendering -/

def render (format : Format) (r : ReportRecord) : Try Text := do
  match format with
  | listing options => Listing.report r options
  | document options => json options.indent (← Document.report r options)
  | sarif includeSuppressed => json (.int 2) (← Sarif.report r includeSuppressed)

/-- Findings in the format of a name, as a report on nothing else. A listing has no colours unless
it is asked to. -/
def renderAs (name : Text) (options : List (Text × Value)) (terminal : Bool)
    (findings : List FindingRecord) : Try Text := do
  let options : List (Text × Value) :=
    if FormatKind.ofName? name = some .listing then ("use_color", .bool false) :: options
    else options
  let r ← ReportRecord.ofFindings findings
  (← create name options terminal).render r

/-- One finding by itself, which only some formats can show. -/
def renderFinding (format : Format) (f : FindingRecord) : Try Text := do
  match format with
  | listing options => Listing.finding f options
  | document options => json options.indent (← f.toValue)
  | sarif _ => throw (.noAttribute "sarif" "finding")

/-- Findings without a report, which only documents can show. -/
def renderFindings (format : Format) (findings : List FindingRecord) : Try Text := do
  match format with
  | document options =>
    let shown := FindingRecord.visible options.includeSuppressed findings
    json options.indent (.list (← shown.mapM FindingRecord.toValue))
  | listing _ => throw (.noAttribute "listing" "findings")
  | sarif _ => throw (.noAttribute "sarif" "findings")

end Format
end HouseStyle
