import Express.Command
import Express.Compile
import Express.Definition
import Express.Draft
import Express.Draft.Finish
import Express.Draft.Spec
import Express.Fingerprint
import Express.Json
import Express.Json.Printer
import Express.Json.Reader
import Express.Json.Record
import Express.Main
import Express.Model
import Express.Model.Ancestry
import Express.Model.Choice
import Express.Model.Error
import Express.Model.Index
import Express.Model.Layout
import Express.Model.Summary
import Express.Name
import Express.Notice
import Express.Outcome
import Express.Outline
import Express.Page
import Express.Population
import Express.Reader
import Express.Reader.Block
import Express.Reader.Grammar
import Express.Reader.Parser
import Express.Reader.Remark
import Express.Schema
import Express.Schema.Decoding
import Express.Schema.Encoding
import Express.Settings
import Express.Text.Blank
import Express.Text.LowerCase
import Express.TypeRef
import Express.Wiring
import Express.Proofs.Consistency
import Express.Proofs.Indexes
import Express.Proofs.Indexing
import Express.Proofs.Contents
import Express.Proofs.Drafting
import Express.Proofs.Lineage
import Express.Proofs.Reflection
import Express.Proofs.Acceptance
import Express.Proofs.DeclarationOrder
import Express.Proofs.Moves
import Express.Proofs.Declaring
import Express.Proofs.Registry
import Express.Proofs.History
import Express.Proofs.Integrity
import Express.Proofs.Rules
import Express.Proofs.Values
import Express.Proofs.InverseNames
import Express.Proofs.ReverseView
import Express.Proofs.Canonical
import Express.Proofs.Tokens
import Express.Proofs.TypeGrammar
import Express.Proofs.DeclarationGrammar
import Express.Proofs.QuietText
import Express.Proofs.QuietDeclarations
import Express.Proofs.ReadBack
import Express.Proofs.Targets
import Express.Proofs.Steps
import Express.Proofs.Upkeep
import Express.Proofs.Failures
import Express.Proofs.Repetition
import Express.Proofs.Separation
import Express.Proofs.Rendering
import Express.Proofs.Artifacts
import Express.Proofs.Fronts
import Express.Proofs.UpperCase
import Express.Proofs.CaseBlindness
import Express.Proofs.Variations
import Express.Proofs.RoundTrip
import Express.Proofs.Expansion
import Express.Proofs.FirstFailure
import Express.Proofs.Referrers
import Express.Proofs.Strictness
import Express.Proofs.Subtyping
import Express.Proofs.Layouts
import Express.Proofs.Redeclarations
import Express.Proofs.Coverage
import Express.Proofs.WiringEffect
import Express.Proofs.FirstMention
import Express.Proofs.Passage
import Express.Proofs.Remarks
import Express.Proofs.SourceLines
import Express.Proofs.Spelling
import Express.Proofs.FileNames
import Express.Proofs.Lookahead
import Express.Proofs.Heads
import Express.Proofs.Openings
import Express.Proofs.BlockEnds
import Express.Proofs.Literals
import Express.Proofs.Edits
import Express.Proofs.Meanings
import Express.Proofs.ParameterNames
import Express.Proofs.FirstSchema
import Express.Proofs.Stripping
