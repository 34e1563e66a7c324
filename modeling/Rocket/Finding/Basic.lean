import Rocket.Finding.Problem
import Rocket.Text.Source

/-!
# Findings

A finding is a report about a source text that stands on its own: it carries the
line it is about. Findings are errors or warnings according to how strictly the
source is read.
-/

namespace Rocket

inductive Severity where
  | error
  | warning
  deriving DecidableEq

def Severity.text : Severity → String
  | .error => "error"
  | .warning => "warning"

/-- How lines that are not understood are treated. -/
inductive Mode where
  /-- Leave the line out, warn, and go on. -/
  | permissive
  /-- Refuse the whole program. -/
  | strict
  deriving DecidableEq

/-- The severity of everything found in a mode. -/
def Mode.severity : Mode → Severity
  | .permissive => .warning
  | .strict => .error

/-- A report about a place in a source text. -/
structure Finding where
  file : String
  code : Code
  severity : Severity
  message : String
  span : Span
  /-- The line the report is about, as quoted. -/
  sourceLine : String
  suggestion? : Option String
  deriving DecidableEq

namespace Finding

/-- The report on a problem of a source. -/
def ofRemark (source : Source) (mode : Mode) (remark : Remark) : Finding where
  file := source.name
  code := remark.problem.code
  severity := mode.severity
  message := remark.problem.message
  span := remark.span
  sourceLine := String.ofList (source.quote remark.span.line)
  suggestion? := remark.problem.suggestion?

def category (finding : Finding) : Category :=
  finding.code.category

def isError (finding : Finding) : Bool :=
  finding.severity = .error

/-- The report on one line of text. -/
def text (finding : Finding) : String :=
  finding.span.text ++ ": " ++ finding.code.text ++ " [" ++ finding.category.text ++ "] "
    ++ finding.message

/-- The line number as the report shows it. -/
def lineNumber (finding : Finding) : List Char :=
  Nat.toDigits 10 finding.span.line

/-- Blanks as wide as the line number. -/
def gutter (finding : Finding) : List Char :=
  List.replicate finding.lineNumber.length ' '

/-- What stands between the line number and the quoted line. -/
def margin : List Char :=
  [' ', '|', ' ']

/-- The line of the report that quotes the source. -/
def quoteLine (finding : Finding) : List Char :=
  finding.lineNumber ++ margin ++ finding.sourceLine.toList

/-- The carets, one for each column of the span and at least one. -/
def carets (finding : Finding) : List Char :=
  List.replicate (max 1 finding.span.width) '^'

/-- The line of the report with carets under the columns of the span. -/
def caretLine (finding : Finding) : List Char :=
  finding.gutter ++ margin ++ List.replicate (finding.span.startCol - 1) ' ' ++ finding.carets

/-- The lines of the report with the quoted source. -/
def reportLines (finding : Finding) : List String :=
  let gutter := String.ofList finding.gutter
  [finding.severity.text ++ "[" ++ finding.code.text ++ "]: " ++ finding.message,
    gutter ++ "--> " ++ finding.file ++ ":" ++ finding.span.text,
    gutter ++ " |",
    String.ofList finding.quoteLine,
    String.ofList finding.caretLine]
    ++ finding.suggestion?.toList.map fun advice => gutter ++ " = help: " ++ advice

/-- The report with the quoted line and carets under the columns it is about. -/
def report (finding : Finding) : String :=
  String.join (finding.reportLines.map (· ++ "\n"))

/-- The line number and the gutter are equally wide, so that carets stand under the columns
of the quoted line. -/
theorem length_gutter (finding : Finding) :
    finding.gutter.length = finding.lineNumber.length := by
  simp [gutter]

end Finding

end Rocket
