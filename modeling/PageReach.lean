import PageReach.Catalog.Basic
import PageReach.Catalog.Definition
import PageReach.Catalog.Mention
import PageReach.Data.Binary64
import PageReach.Data.Json
import PageReach.Data.Json5
import PageReach.Data.Numeral
import PageReach.Data.Value
import PageReach.Dependency.Edge
import PageReach.Dependency.Graph
import PageReach.Dependency.Origin
import PageReach.Dependency.Surface
import PageReach.Document.Grammar
import PageReach.Document.Token
import PageReach.Fault
import PageReach.Files.Disk
import PageReach.Files.FileIndex
import PageReach.Files.Glob
import PageReach.Files.Path
import PageReach.Log.Handlers
import PageReach.Log.Record
import PageReach.Module.Config
import PageReach.Module.Memory
import PageReach.Module.Pattern
import PageReach.Module.Resolver
import PageReach.Operation.Embedded
import PageReach.Operation.Fact
import PageReach.Operation.Generated
import PageReach.Operation.Kind
import PageReach.Operation.Name
import PageReach.Operation.Reference
import PageReach.Operation.Scope
import PageReach.Proofs.Attribution
import PageReach.Proofs.Catalog.Definition
import PageReach.Proofs.Catalog.Failure
import PageReach.Proofs.Catalog.Mention
import PageReach.Proofs.Catalog.Mentioned
import PageReach.Proofs.Catalog.Pair
import PageReach.Proofs.Catalog.Reading
import PageReach.Proofs.Catalog.Sources
import PageReach.Proofs.Catalog.Usage
import PageReach.Proofs.Dependency.Origin
import PageReach.Proofs.Document.Row
import PageReach.Proofs.Engine.Enrich
import PageReach.Proofs.Engine.Evidence
import PageReach.Proofs.Engine.Failures
import PageReach.Proofs.Engine.Foremost
import PageReach.Proofs.Engine.Hops
import PageReach.Proofs.Engine.Limits
import PageReach.Proofs.Engine.Order
import PageReach.Proofs.Engine.Origin
import PageReach.Proofs.Engine.Outcomes
import PageReach.Proofs.Engine.Passes
import PageReach.Proofs.Engine.Replies
import PageReach.Proofs.Engine.Walk
import PageReach.Proofs.Engine.Within
import PageReach.Proofs.Evidence
import PageReach.Proofs.Fault
import PageReach.Proofs.Files.Place
import PageReach.Proofs.Module.Chain
import PageReach.Proofs.Module.Ladder
import PageReach.Proofs.Module.Memory
import PageReach.Proofs.Module.Misled
import PageReach.Proofs.Module.Resolver
import PageReach.Proofs.Operation.Generated
import PageReach.Proofs.Operation.Name
import PageReach.Proofs.Operation.Scope
import PageReach.Proofs.Operation.Signs
import PageReach.Proofs.Script.Grammar
import PageReach.Proofs.Script.Tree
import PageReach.Proofs.Session
import PageReach.Proofs.Session.Snapshot
import PageReach.Proofs.Simulation
import PageReach.Proofs.Stateful
import PageReach.Proofs.Table
import PageReach.Proofs.Text.Split
import PageReach.Proofs.Walk.Best
import PageReach.Proofs.Walk.Completeness
import PageReach.Proofs.Walk.Confined
import PageReach.Proofs.Walk.Distance
import PageReach.Proofs.Walk.Ending
import PageReach.Proofs.Walk.Expansion
import PageReach.Proofs.Walk.Foremost
import PageReach.Proofs.Walk.Hops
import PageReach.Proofs.Walk.Limits
import PageReach.Proofs.Walk.Links
import PageReach.Proofs.Walk.Moves
import PageReach.Proofs.Walk.Progress
import PageReach.Proofs.Walk.Reach
import PageReach.Proofs.Walk.State
import PageReach.Proofs.Walk.Trails
import PageReach.Proofs.Walk.Yields
import PageReach.Reach.Attribution
import PageReach.Reach.Calls
import PageReach.Reach.Engine
import PageReach.Reach.Enrichment
import PageReach.Reach.Evidence
import PageReach.Reach.Page
import PageReach.Reach.Threshold
import PageReach.Reach.Walk
import PageReach.Script.Cursor
import PageReach.Script.Grammar.Classes
import PageReach.Script.Grammar.Expressions
import PageReach.Script.Grammar.Markup
import PageReach.Script.Grammar.Statements
import PageReach.Script.Grammar.Symbol
import PageReach.Script.Grammar.Types
import PageReach.Script.Lexeme
import PageReach.Script.Literal
import PageReach.Script.Parse
import PageReach.Script.Phrase
import PageReach.Script.Source
import PageReach.Script.Tree
import PageReach.Session.Basic
import PageReach.Session.Question
import PageReach.Session.Repository
import PageReach.Session.Statistics
import PageReach.Settings
import PageReach.Table
import PageReach.Text.Letter
import PageReach.Text.Lines
import PageReach.Text.Quoted
import PageReach.Text.Ranges
import PageReach.Text.Split
import PageReach.Text.Unprinted
import PageReach.Proofs.Data.Json5
import PageReach.Proofs.Module.Merge
import PageReach.Proofs.Dependency.Edge
import PageReach.Proofs.Dependency.Types
import PageReach.Proofs.Dependency.Surface
import PageReach.Proofs.Operation.Template
import PageReach.Proofs.Files.Relative
import PageReach.Proofs.Data.Json
import PageReach.Proofs.Files.Glob
import PageReach.Proofs.Settings
import PageReach.Proofs.Operation.Alias
import PageReach.Proofs.Module.Pattern
import PageReach.Proofs.Dependency.Order
import PageReach.Proofs.Data.Binary64
import PageReach.Proofs.Engine.Threshold
import PageReach.Proofs.Files.SourceRoots
import PageReach.Proofs.Session.Balance
