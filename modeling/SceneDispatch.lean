import SceneDispatch.Command.Request
import SceneDispatch.Command.Run
import SceneDispatch.Compiler
import SceneDispatch.Diagnostic
import SceneDispatch.Fault
import SceneDispatch.Feature.Basic
import SceneDispatch.Feature.Call
import SceneDispatch.Feature.Registry
import SceneDispatch.Feature.Template
import SceneDispatch.Files.Compile
import SceneDispatch.Files.Edit
import SceneDispatch.Files.Path
import SceneDispatch.Files.Storage
import SceneDispatch.Files.Tree
import SceneDispatch.Fixture.Case
import SceneDispatch.Fixture.Check
import SceneDispatch.Json.Basic
import SceneDispatch.Json.Printer
import SceneDispatch.Json.Reader
import SceneDispatch.Json.Token
import SceneDispatch.Main
import SceneDispatch.Markup.Character
import SceneDispatch.Markup.Document
import SceneDispatch.Markup.Element
import SceneDispatch.Markup.Reference
import SceneDispatch.Markup.Scope
import SceneDispatch.Markup.Token
import SceneDispatch.Ordered.Set
import SceneDispatch.Ordered.Table
import SceneDispatch.Proofs.Dispatch.Barrier
import SceneDispatch.Proofs.Dispatch.Choice
import SceneDispatch.Proofs.Dispatch.Isolation
import SceneDispatch.Proofs.Dispatch.Machine
import SceneDispatch.Proofs.Dispatch.Passages
import SceneDispatch.Proofs.Dispatch.Refusal
import SceneDispatch.Proofs.Dispatch.Return
import SceneDispatch.Proofs.Dispatch.Simulation
import SceneDispatch.Proofs.Dispatch.Trace
import SceneDispatch.Proofs.Dispatch.Walk
import SceneDispatch.Proofs.Flow.Arms
import SceneDispatch.Proofs.Flow.Exactness
import SceneDispatch.Proofs.Flow.Reach
import SceneDispatch.Proofs.Flow.Rules
import SceneDispatch.Proofs.Scene.Assertion
import SceneDispatch.Proofs.Scene.Construction
import SceneDispatch.Proofs.Scene.Counterpart
import SceneDispatch.Proofs.Scene.Derivation
import SceneDispatch.Proofs.Scene.Grammar
import SceneDispatch.Proofs.Scene.Inlining
import SceneDispatch.Proofs.Scene.Numbering
import SceneDispatch.Proofs.Scene.Renaming
import SceneDispatch.Proofs.Scene.Resolution
import SceneDispatch.Proofs.Scene.Shape
import SceneDispatch.Proofs.Script.Demand
import SceneDispatch.Proofs.Script.Emission
import SceneDispatch.Proofs.Script.Listing
import SceneDispatch.Proofs.Script.Projection
import SceneDispatch.Proofs.Script.Renaming
import SceneDispatch.Proofs.Script.Stretch
import SceneDispatch.Proofs.Script.Table
import SceneDispatch.Scene.Build
import SceneDispatch.Scene.Flow
import SceneDispatch.Scene.Node
import SceneDispatch.Scene.Outline
import SceneDispatch.Scene.Resource
import SceneDispatch.Script.Basic
import SceneDispatch.Script.Draft
import SceneDispatch.Script.Generate
import SceneDispatch.Script.Json
import SceneDispatch.Script.Layout
import SceneDispatch.Script.Place
import SceneDispatch.Script.Statement
import SceneDispatch.Source
import SceneDispatch.Status.Context
import SceneDispatch.Text.Blank
import SceneDispatch.Text.Display
import SceneDispatch.Text.Quoted
import SceneDispatch.Text.Search
import SceneDispatch.Text.Unprintable
import SceneDispatch.Proofs.Feature.Calls
import SceneDispatch.Proofs.Feature.Factorisation
import SceneDispatch.Proofs.Script.Imports
import SceneDispatch.Proofs.Script.Extension
import SceneDispatch.Proofs.Files.Paths
import SceneDispatch.Proofs.Files.Directory
import SceneDispatch.Proofs.Files.Batch
import SceneDispatch.Proofs.Flow.Transfer
import SceneDispatch.Proofs.Script.Chains
import SceneDispatch.Proofs.Script.Returns
import SceneDispatch.Proofs.Command.Outcome
import SceneDispatch.Proofs.Command.Agreement
import SceneDispatch.Proofs.Script.Lines
import SceneDispatch.Proofs.Feature.Substitution
import SceneDispatch.Proofs.Script.Literal
import SceneDispatch.Proofs.Fixture.Fragments
import SceneDispatch.Proofs.Markup.Position
import SceneDispatch.Proofs.Markup.StartTag
import SceneDispatch.Proofs.Feature.Configuration
import SceneDispatch.Proofs.Markup.Opening
import SceneDispatch.Proofs.Json.Lexing
import SceneDispatch.Proofs.Json.RoundTrip
import SceneDispatch.Proofs.Script.Storage
import SceneDispatch.Proofs.Script.Edits
import SceneDispatch.Proofs.Script.Consistency
