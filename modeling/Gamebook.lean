import Gamebook.Condition
import Gamebook.Condition.Holds
import Gamebook.Condition.Shorthand
import Gamebook.Condition.Tagged
import Gamebook.Datum
import Gamebook.Datum.Memory
import Gamebook.Datum.Printer
import Gamebook.Datum.Reader
import Gamebook.Datum.Shown
import Gamebook.Dice
import Gamebook.Distinct
import Gamebook.Edited
import Gamebook.Effect
import Gamebook.Effect.Apply
import Gamebook.Effect.Shorthand
import Gamebook.Effect.Tagged
import Gamebook.Form
import Gamebook.Inventory
import Gamebook.Number
import Gamebook.Number.Binary64
import Gamebook.Number.Parts
import Gamebook.Number.RangeError
import Gamebook.Number.Shortest
import Gamebook.Number.Spelled
import Gamebook.Path
import Gamebook.Playthrough
import Gamebook.Quantity
import Gamebook.Scalar
import Gamebook.Schema
import Gamebook.Session
import Gamebook.Session.Document
import Gamebook.Session.Turn
import Gamebook.Settings
import Gamebook.Shell.Arguments
import Gamebook.Shell.Command
import Gamebook.Shell.Dialogue
import Gamebook.Shell.Folder
import Gamebook.Shell.Run
import Gamebook.State
import Gamebook.Story
import Gamebook.Story.Cycle
import Gamebook.Story.Document
import Gamebook.Story.Issue
import Gamebook.Story.Loading
import Gamebook.Story.Transition
import Gamebook.Story.Validation
import Gamebook.Table
import Gamebook.Tagged
import Gamebook.Text.Blank
import Gamebook.Text.CodeRange
import Gamebook.Text.Digit
import Gamebook.Text.Numeral
import Gamebook.Text.Pieces
import Gamebook.Text.Printable
import Gamebook.Text.Quoted
import Gamebook.Text.Uppercase
import Gamebook.Text.Utf8
import Gamebook.Main
import Gamebook.Proofs.Graph
import Gamebook.Proofs.Goto
import Gamebook.Proofs.Search
import Gamebook.Proofs.Course
import Gamebook.Proofs.Violation
import Gamebook.Proofs.Destination
import Gamebook.Proofs.Run
import Gamebook.Proofs.Arrival
import Gamebook.Proofs.Fallible
import Gamebook.Proofs.Encoding
import Gamebook.Proofs.Shortest
import Gamebook.Proofs.Written
import Gamebook.Proofs.Rendering
import Gamebook.Proofs.EffectText
import Gamebook.Proofs.ObjectText
import Gamebook.Proofs.LongRun
import Gamebook.Proofs.Placement
import Gamebook.Proofs.RepeatedKeys
import Gamebook.Proofs.Typed
import Gamebook.Proofs.SchemaLaws
import Gamebook.Proofs.Reread
import Gamebook.Proofs.TextNumbers
import Gamebook.Proofs.Utf8
import Gamebook.Proofs.OutOfRange
import Gamebook.Proofs.LoadFailure
import Gamebook.Proofs.Gate
import Gamebook.Proofs.Progress
import Gamebook.Proofs.Saved
import Gamebook.Proofs.Procedure
import Gamebook.Proofs.Undo
import Gamebook.Proofs.Independence
import Gamebook.Proofs.Failure
import Gamebook.Proofs.Short
import Gamebook.Proofs.Offered
import Gamebook.Proofs.Pieces
import Gamebook.Proofs.Agreement
import Gamebook.Proofs.NumericText
import Gamebook.Proofs.Evaluation
import Gamebook.Proofs.Beginning
import Gamebook.Proofs.Resolution
import Gamebook.Proofs.Origin
import Gamebook.Proofs.NormalCondition
import Gamebook.Proofs.NormalEffect
import Gamebook.Proofs.UndefinedValue
import Gamebook.Proofs.SameEffect
import Gamebook.Proofs.Chronology
import Gamebook.Proofs.Foreseen
import Gamebook.Proofs.Answers
import Gamebook.Proofs.Conversation
import Gamebook.Proofs.PlainKey
import Gamebook.Proofs.OneLine
import Gamebook.Proofs.Fields
import Gamebook.Proofs.Holdings
import Gamebook.Proofs.Untouched
import Gamebook.Proofs.Ways
