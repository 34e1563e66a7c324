import Rocket.Encoding.Outcome
import Rocket.Level.Document
import Rocket.Session.Basic
import Rocket.Text.Blank

/-!
# The page

The entry points of an interactive page: run a source in a level given as a
document, or check a source. Every call stands on its own and answers with a JSON
document; the page shows the steps at its own pace.
-/

namespace Rocket.Page

/-- A run with all its steps. -/
structure Finished where
  outcome : Outcome
  steps : Array Step

/-- The level of a document; a blank document stands for the reference level. -/
def level (document : String) : Except LevelError Level :=
  if (Text.strip document.toList).isEmpty then .ok .reference else Level.read document

/-- Run a source in a level given as a document. The session is a new one, so the
source is always started. -/
def run (source document : String) : Except LevelError (Option Finished) := do
  let session ← Session.ofLevel (← level document)
  let started := session.start source .passive
  match started.attempt? with
  | none => return none
  | some attempt =>
      let played := attempt.playOut started.monitor
      let (outcome, _) := played.attempt.finish session.world played.monitor
      return some ⟨outcome, played.steps⟩

/-- An answer that says why a source was not run. -/
def rejection (reason : String) : Json :=
  .ofMembers [("error", .ofText reason)]

/-- The answer to a request to run a source. -/
def runAnswer (source document : String) : Json :=
  match run source document with
  | .error error => rejection error.text
  | .ok none => rejection "a run is already in progress"
  | .ok (some finished) =>
      .ofMembers
        [("verdict", finished.outcome.verdict.toJson),
          ("outcome", finished.outcome.toJson),
          ("steps", .ofList Step.toJson finished.steps.toList)]

/-- What is found in a source read permissively. -/
def check (source : String) : Findings :=
  (Parsed.ofSource (.ofText Source.defaultName source) .permissive).findings

/-- The answer to a request to check a source. -/
def checkAnswer (source : String) : Json :=
  (check source).toJson

/-- The version that the page shows. -/
def version : String := "0.1.0"

end Rocket.Page
