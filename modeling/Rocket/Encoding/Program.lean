import Rocket.Command.Basic
import Rocket.Finding.Collection
import Rocket.Json.Basic

/-!
# Documents of programs and findings

The JSON form of programs and of what is found in their sources.
-/

namespace Rocket

/-- The members of a span, as they occur in larger objects. -/
def Span.members (span : Span) : List (String × Json) :=
  [("line", .ofNat span.line), ("column", .ofNat span.startCol),
    ("end_column", .ofNat span.endCol)]

def Span.toJson (span : Span) : Json :=
  .ofMembers span.members

def Primitive.toJson (p : Primitive) : Json :=
  .ofText p.name

def Command.toJson : Command → Json
  | .primitive p => .ofMembers [("kind", p.toJson)]
  | .loop count body =>
      .ofMembers
        [("kind", .ofText "repeat"), ("count", .ofNat count.toNat),
          ("body", .ofList Primitive.toJson body)]

def Statement.toJson (statement : Statement) : Json :=
  .ofMembers [("command", statement.command.toJson), ("span", statement.span.toJson)]

def Program.toJson (program : Program) : Json :=
  .ofMembers [("statements", .ofList Statement.toJson program.statements)]

def Finding.toJson (finding : Finding) : Json :=
  .ofMembers
    ([("file", .ofText finding.file),
      ("code", .ofNat finding.code.number),
      ("severity", .ofText finding.severity.text),
      ("category", .ofText finding.category.text),
      ("message", .ofText finding.message)]
      ++ finding.span.members
      ++ [("source_line", .ofText finding.sourceLine)]
      ++ finding.suggestion?.toList.map fun advice => ("suggestion", .ofText advice))

def Findings.toJson (fs : Findings) : Json :=
  .ofMembers
    [("errors", .ofList Finding.toJson fs.errors),
      ("warnings", .ofList Finding.toJson fs.warnings),
      ("total_errors", .ofNat fs.totalErrors),
      ("total_warnings", .ofNat fs.totalWarnings)]

end Rocket
