import Semdoc.Document.Anchors
import Semdoc.Document.Build
import Semdoc.Document.Check
import Semdoc.Document.Counts
import Semdoc.Document.Query
import Semdoc.Double.Basic
import Semdoc.Double.Text
import Semdoc.Exchange.Decode
import Semdoc.Exchange.Draft
import Semdoc.Exchange.Encode
import Semdoc.Exchange.Summary
import Semdoc.Failure
import Semdoc.Function
import Semdoc.Graph.Check
import Semdoc.Graph.Collect
import Semdoc.Graph.Content
import Semdoc.Graph.Edit
import Semdoc.Graph.Fault
import Semdoc.Graph.Handle
import Semdoc.Graph.Node
import Semdoc.Graph.Resolve
import Semdoc.Graph.Roster
import Semdoc.Graph.Slot
import Semdoc.Graph.Store
import Semdoc.Json.Basic
import Semdoc.Json.Parser
import Semdoc.Json.Printer
import Semdoc.Limits
import Semdoc.Literal.Numeral
import Semdoc.Literal.Quoted
import Semdoc.Literal.Reading
import Semdoc.Literal.Value
import Semdoc.Log.Event
import Semdoc.Log.Ledger
import Semdoc.Log.Sink
import Semdoc.Ontology.Build
import Semdoc.Ontology.Check
import Semdoc.Ontology.Draft
import Semdoc.Ontology.Path
import Semdoc.Ontology.Query
import Semdoc.Ontology.Syntax
import Semdoc.Parse.Command
import Semdoc.Parse.Deduction
import Semdoc.Parse.Handler
import Semdoc.Parse.Scope
import Semdoc.Parse.Stack
import Semdoc.Project
import Semdoc.Proofs.Arguments
import Semdoc.Proofs.Document.FieldNumbers
import Semdoc.Proofs.Document.OpenAnchors
import Semdoc.Proofs.Document.Order
import Semdoc.Proofs.Document.Places
import Semdoc.Proofs.Document.Ways
import Semdoc.Proofs.Double.Decimals
import Semdoc.Proofs.Double.Integers
import Semdoc.Proofs.Double.Rounding
import Semdoc.Proofs.Double.Shortest
import Semdoc.Proofs.Json.RoundTrip
import Semdoc.Proofs.Json.Spelling
import Semdoc.Proofs.Levels
import Semdoc.Proofs.Literal.Calls
import Semdoc.Proofs.Literal.Container
import Semdoc.Proofs.Literal.Contents
import Semdoc.Proofs.Literal.Descent
import Semdoc.Proofs.Literal.Digits
import Semdoc.Proofs.Literal.Endings
import Semdoc.Proofs.Literal.FixedDigits
import Semdoc.Proofs.Literal.Forms
import Semdoc.Proofs.Literal.Grammar
import Semdoc.Proofs.Literal.Moves
import Semdoc.Proofs.Literal.Number
import Semdoc.Proofs.Literal.NumberText
import Semdoc.Proofs.Literal.NumberValue
import Semdoc.Proofs.Literal.Passage
import Semdoc.Proofs.Literal.Plan
import Semdoc.Proofs.Literal.Quoted
import Semdoc.Proofs.Literal.Verdict
import Semdoc.Proofs.Log.Computations
import Semdoc.Proofs.Log.Forks
import Semdoc.Proofs.Ontology.ClassLine
import Semdoc.Proofs.Ontology.DefaultFields
import Semdoc.Proofs.Ontology.EffectiveFields
import Semdoc.Proofs.Ontology.OwnFields
import Semdoc.Proofs.Ontology.PathSearch
import Semdoc.Proofs.Ontology.PermittedChildren
import Semdoc.Proofs.Ontology.PermittedTokens
import Semdoc.Proofs.Ontology.Routes
import Semdoc.Proofs.Parse.Depth
import Semdoc.Proofs.Parse.Descent
import Semdoc.Proofs.Parse.Discipline
import Semdoc.Proofs.Parse.Dispatch
import Semdoc.Proofs.Parse.Flags
import Semdoc.Proofs.Parse.Hearings
import Semdoc.Proofs.Parse.Pending
import Semdoc.Proofs.RangeSet.Canonical
import Semdoc.Proofs.RangeSet.Merging
import Semdoc.Proofs.RangeSet.RoundTrip
import Semdoc.Proofs.Session.Anchors
import Semdoc.Proofs.Session.Caution
import Semdoc.Proofs.Session.Circles
import Semdoc.Proofs.Session.Collection
import Semdoc.Proofs.Session.Edits
import Semdoc.Proofs.Session.Halfway
import Semdoc.Proofs.Session.Inheritance
import Semdoc.Proofs.Session.Kinds
import Semdoc.Proofs.Session.Listeners
import Semdoc.Proofs.Session.Marks
import Semdoc.Proofs.Session.Naming
import Semdoc.Proofs.Session.Operation
import Semdoc.Proofs.Session.Outcomes
import Semdoc.Proofs.Session.Ownership
import Semdoc.Proofs.Session.Refusal
import Semdoc.Proofs.Session.Resolution
import Semdoc.Proofs.Session.Schema
import Semdoc.Proofs.Session.Scope
import Semdoc.Proofs.Session.Ties
import Semdoc.Proofs.Session.Validity
import Semdoc.Proofs.Signature
import Semdoc.Proofs.Source.Lines
import Semdoc.Proofs.Source.Window
import Semdoc.Proofs.Store.Access
import Semdoc.Proofs.Store.Change
import Semdoc.Proofs.Store.Collection
import Semdoc.Proofs.Store.Drop
import Semdoc.Proofs.Store.Forest
import Semdoc.Proofs.Store.Kinds
import Semdoc.Proofs.Store.Links
import Semdoc.Proofs.Store.Mirror
import Semdoc.Proofs.Store.Retain
import Semdoc.Proofs.Store.Scope
import Semdoc.Proofs.Store.Slots
import Semdoc.Proofs.Store.Sustain
import Semdoc.Proofs.Store.Views
import Semdoc.Proofs.Stream.Cursors
import Semdoc.Proofs.Stream.Desk
import Semdoc.Proofs.Stream.LineContext
import Semdoc.Proofs.Stream.Lookback
import Semdoc.Proofs.Stream.Memory
import Semdoc.Proofs.Stream.Positions
import Semdoc.Proofs.Stream.Progress
import Semdoc.Proofs.Stream.Reader
import Semdoc.Proofs.Stream.ReaderStack
import Semdoc.Proofs.Stream.Tape
import Semdoc.Proofs.Stream.Window
import Semdoc.Proofs.Text.Boundaries
import Semdoc.Proofs.Text.Characters
import Semdoc.Proofs.Text.Cuts
import Semdoc.Proofs.Text.Utf8
import Semdoc.Proofs.Text.Whitespace
import Semdoc.Proofs.Token.CharacterData
import Semdoc.Proofs.Token.Registry
import Semdoc.Proofs.Typesystem.ArrayTypes
import Semdoc.Proofs.Typesystem.Lookup
import Semdoc.Proofs.Typesystem.Positions
import Semdoc.Proofs.Typesystem.Preparation
import Semdoc.Proofs.Typesystem.Repetition
import Semdoc.Proofs.Typesystem.WellFormed
import Semdoc.Proofs.Validation.Documents
import Semdoc.Proofs.Validation.Pass
import Semdoc.Proofs.Validation.Reports
import Semdoc.Proofs.Validation.Search
import Semdoc.Proofs.Validation.Unmarked
import Semdoc.Proofs.Validation.Verdicts
import Semdoc.Proofs.Value.Comparison
import Semdoc.Proofs.Value.Conversion
import Semdoc.Proofs.Value.Entries
import Semdoc.Proofs.Value.Losses
import Semdoc.Proofs.Value.Members
import Semdoc.Proofs.Value.Stability
import Semdoc.Proofs.Walk
import Semdoc.RangeSet
import Semdoc.Sample.Color
import Semdoc.Sample.Document
import Semdoc.Signature
import Semdoc.Source.Excerpt
import Semdoc.Source.Location
import Semdoc.Stream.Buffer
import Semdoc.Stream.CharReader
import Semdoc.Text.Blank
import Semdoc.Text.Escape
import Semdoc.Text.Identifier
import Semdoc.Text.Order
import Semdoc.Text.Utf8
import Semdoc.Text.Whitespace
import Semdoc.Token
import Semdoc.TypeTag
import Semdoc.Typesystem.Build
import Semdoc.Typesystem.Check
import Semdoc.Typesystem.Prepare
import Semdoc.Typesystem.Query
import Semdoc.Validation
import Semdoc.Value.Basic
import Semdoc.Value.Compare
import Semdoc.Value.Convert
import Semdoc.Value.Text
import Semdoc.Walk
