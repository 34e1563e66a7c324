import Rocket.Main
import Rocket.Page
import Rocket.Proofs.Reading.Clean
import Rocket.Proofs.Text.Numeral
import Rocket.Proofs.Token.Layout
import Rocket.Session.Script
import Rocket.Command.Printer
import Rocket.Proofs.Reading.Grammar
import Rocket.Proofs.Reading.Statement
import Rocket.Proofs.Finding.Collection
import Rocket.Proofs.Reading.Lines
import Rocket.Proofs.Reading.Whole
import Rocket.Proofs.Reading.Printed
import Rocket.Proofs.Reading.Strict
import Rocket.Proofs.Reading.Alike
import Rocket.Proofs.Reading.Kinds
import Rocket.Proofs.Token.Comment
import Rocket.Proofs.Reading.Comment
import Rocket.Proofs.Token.Spaced
import Rocket.Proofs.Reading.Locality
import Rocket.Proofs.Run.Cursor
import Rocket.Proofs.Run.Trace
import Rocket.Proofs.Run.Copies
import Rocket.Proofs.Reading.Line
import Rocket.Proofs.Reading.Along
import Rocket.Proofs.Reading.Recovery
import Rocket.Proofs.Token.Spelling
import Rocket.Proofs.Token.Coverage
import Rocket.Proofs.Run.Ending
import Rocket.Proofs.Session.Driving
import Rocket.Proofs.Session.Pace
import Rocket.Proofs.Reading.Modes
import Rocket.Proofs.Session.Strictness
import Rocket.Proofs.Session.Cancelling
import Rocket.Proofs.Run.Record
import Rocket.Proofs.Finding.Order
import Rocket.Proofs.Session.Coherence
import Rocket.Proofs.Session.Observers
import Rocket.Proofs.Session.Invariant
import Rocket.Proofs.Session.Exclusion
import Rocket.Proofs.Session.Containment
import Rocket.Proofs.Reading.Accounted
import Rocket.Proofs.Reading.Fate
import Rocket.Proofs.Run.Safety
import Rocket.Proofs.Session.Safety
import Rocket.Proofs.Session.Chapter
import Rocket.Proofs.Session.Chronicle
import Rocket.Proofs.Session.Winning
import Rocket.Proofs.Reading.Stray
import Rocket.Proofs.Json.Grammar
import Rocket.Proofs.Json.Reader
import Rocket.Proofs.Json.Exact
import Rocket.Proofs.Level.Document
import Rocket.Proofs.Run.Limits
import Rocket.Proofs.Run.Distance
import Rocket.Proofs.Run.Route
import Rocket.Proofs.Finding.Merging
import Rocket.Proofs.Token.Excerpt
import Rocket.Proofs.Reading.Excerpt
import Rocket.Proofs.Finding.Report
import Rocket.Proofs.Reading.Origin
import Rocket.Proofs.Reading.Pointing
import Rocket.Proofs.Board.Picture
import Rocket.Proofs.Level.Forms
import Rocket.Proofs.Reading.Stopping
import Rocket.Proofs.Token.Places
import Rocket.Proofs.Reading.Expansion
import Rocket.Proofs.Run.Counting
