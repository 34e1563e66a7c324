import Rocket.Board.Picture
import Rocket.Session.Basic

/-!
# Scripts

A session that is worked by hand: a list of actions, each performed on the session
and on the one attempt that may be under way in it.
-/

namespace Rocket

/-- What one can do with an attempt that is under way. -/
inductive AttemptAction where
  /-- Pull some steps. -/
  | next (count : Nat)
  /-- Show the remaining steps, but cancel the run behind a given number; behind none
  if the number is zero. -/
  | play (stopAfter : Nat)
  | cancel
  | board
  | findings
  | finish
  /-- Abandon the attempt. -/
  | drop
  deriving DecidableEq

/-- What one can do with a session. -/
inductive Action where
  /-- Run a source to its end. -/
  | run (source : String)
  /-- Start a source, perhaps with a delay other than the level's. -/
  | start (source : String) (delay? : Option Nat)
  | info
  /-- Do something with the attempt under way. -/
  | onAttempt (action : AttemptAction)
  deriving DecidableEq

/-- What an action answers. -/
inductive Answer where
  | outcome (outcome? : Option Outcome)
  | started (accepted : Bool)
  | info (world : World) (level : Level) (delay : Nat)
  /-- The action needs an attempt and there is none. -/
  | noAttempt
  | pulled (steps : List (Option Step))
  | played (steps : Array Step)
  | board (picture : String)
  | findings (findings : Findings)
  | done

/-- A session, the attempt under way in it, and their observer. -/
structure Console where
  session : Session
  attempt? : Option Attempt
  monitor : Monitor

namespace Console

/-- Pull a number of steps. -/
def pull (attempt : Attempt) (monitor : Monitor) : (count : Nat) →
    List (Option Step) × Attempt × Monitor
  | 0 => ([], attempt, monitor)
  | count + 1 =>
      let pulled := attempt.next monitor
      let (steps, attempt, monitor) := pull pulled.attempt pulled.monitor count
      (pulled.step? :: steps, attempt, monitor)

/-- Whether the run is to be cancelled behind the steps that were shown. -/
def stopsAfter (stopAfter : Nat) (shown : Array Step) : Bool :=
  stopAfter ≠ 0 ∧ shown.size = stopAfter

/-- Start a source. An attempt under way stays. -/
def start (console : Console) (source : String) (delay? : Option Nat) : Answer × Console :=
  let started := console.session.start source console.monitor
  match started.attempt? with
  | none =>
      (.started false,
        { console with session := started.session, monitor := started.monitor })
  | some attempt =>
      (.started true,
        { session := started.session
          attempt? := some { attempt with delay := delay?.getD attempt.delay }
          monitor := started.monitor })

/-- Run a source to its end. -/
def run (console : Console) (source : String) : Answer × Console :=
  let ran := console.session.run source console.monitor
  (.outcome ran.outcome?, { console with session := ran.session, monitor := ran.monitor })

/-- Perform an action on the attempt under way. -/
def onAttempt (session : Session) (attempt : Attempt) (monitor : Monitor) :
    AttemptAction → Answer × Console
  | .next count =>
      let (steps, attempt, monitor) := pull attempt monitor count
      (.pulled steps, ⟨session, some attempt, monitor⟩)
  | .play stopAfter =>
      let played := attempt.play (stopsAfter stopAfter) monitor #[]
      (.played played.steps, ⟨session, some played.attempt, played.monitor⟩)
  | .cancel =>
      let (attempt, monitor) := attempt.cancel monitor
      (.done, ⟨session, some attempt, monitor⟩)
  | .board =>
      (.board (session.world.picture attempt.agent), ⟨session, some attempt, monitor⟩)
  | .findings => (.findings attempt.findings, ⟨session, some attempt, monitor⟩)
  | .finish =>
      let (outcome, monitor) := attempt.finish session.world monitor
      (.outcome (some outcome), ⟨session.release, none, monitor⟩)
  | .drop => (.done, ⟨session.release, none, monitor⟩)

/-- Perform an action. -/
def perform (console : Console) : Action → Answer × Console
  | .run source => console.run source
  | .start source delay? => console.start source delay?
  | .info =>
      (.info console.session.world console.session.level console.session.level.stepDelay.toNat,
        console)
  | .onAttempt action =>
      match console with
      | ⟨session, some attempt, monitor⟩ => onAttempt session attempt monitor action
      | ⟨session, none, monitor⟩ => (.noAttempt, ⟨session, none, monitor⟩)

end Console

end Rocket
