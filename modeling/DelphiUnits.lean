import DelphiUnits.CommandLine.Arguments
import DelphiUnits.CommandLine.Run
import DelphiUnits.Diagnostic
import DelphiUnits.FileSystem
import DelphiUnits.GeneratedFile
import DelphiUnits.Json.Basic
import DelphiUnits.Json.Parser
import DelphiUnits.Json.Printer
import DelphiUnits.Json.Record
import DelphiUnits.Json.Token
import DelphiUnits.Layout
import DelphiUnits.Main
import DelphiUnits.Manifest.Basic
import DelphiUnits.Manifest.Reader
import DelphiUnits.Manifest.Validation
import DelphiUnits.OrderedMap
import DelphiUnits.Pascal.CompilationUnit
import DelphiUnits.Pascal.Declaration
import DelphiUnits.Pascal.Draft
import DelphiUnits.Pascal.Import
import DelphiUnits.Pascal.Rendering
import DelphiUnits.Pascal.Routine
import DelphiUnits.Path
import DelphiUnits.Problem
import DelphiUnits.Project
import DelphiUnits.Proofs.FileSystem.Growth
import DelphiUnits.Proofs.FileSystem.Listing
import DelphiUnits.Proofs.FileSystem.Tree
import DelphiUnits.Proofs.FileSystem.Update
import DelphiUnits.Proofs.FileSystem.Walking
import DelphiUnits.Proofs.GeneratedFile.Constructors
import DelphiUnits.Proofs.GeneratedFile.Draft
import DelphiUnits.Proofs.GeneratedFile.Erasure
import DelphiUnits.Proofs.GeneratedFile.Failure
import DelphiUnits.Proofs.GeneratedFile.Statements
import DelphiUnits.Proofs.Json.Nesting
import DelphiUnits.Proofs.Json.Record
import DelphiUnits.Proofs.Json.RoundTrip
import DelphiUnits.Proofs.Json.Scanning
import DelphiUnits.Proofs.Layout
import DelphiUnits.Proofs.OrderedMap
import DelphiUnits.Proofs.Pascal.Containment
import DelphiUnits.Proofs.Pascal.Header
import DelphiUnits.Proofs.Pascal.Import
import DelphiUnits.Proofs.Pascal.Outline
import DelphiUnits.Proofs.Pascal.Registered
import DelphiUnits.Proofs.Pascal.Registry
import DelphiUnits.Proofs.Pascal.UsedUnits
import DelphiUnits.Proofs.Path.Components
import DelphiUnits.Proofs.Path.Files
import DelphiUnits.Proofs.Path.Segments
import DelphiUnits.Proofs.Project.Discovery
import DelphiUnits.Proofs.Project.Documents
import DelphiUnits.Proofs.Project.Entry
import DelphiUnits.Proofs.Report.Building
import DelphiUnits.Proofs.Report.Rebuild
import DelphiUnits.Proofs.Source.Document
import DelphiUnits.Proofs.Source.Expression
import DelphiUnits.Proofs.Source.Statement
import DelphiUnits.Proofs.Text.Bytes
import DelphiUnits.Proofs.Text.Identifier
import DelphiUnits.Report.Build
import DelphiUnits.Report.Check
import DelphiUnits.Report.Event
import DelphiUnits.Report.Explain
import DelphiUnits.ReservedWords
import DelphiUnits.Settings
import DelphiUnits.Source.Declaration
import DelphiUnits.Source.Document
import DelphiUnits.Source.Expression
import DelphiUnits.Source.Statement
import DelphiUnits.Text.Chars
import DelphiUnits.Text.Identifier
import DelphiUnits.Text.Span
import DelphiUnits.Toml.DateTime
import DelphiUnits.Toml.Number
import DelphiUnits.Toml.Parser
import DelphiUnits.Toml.Space
import DelphiUnits.Toml.Text
import DelphiUnits.Toml.Value
import DelphiUnits.Toml.Word
import DelphiUnits.TypeName
import DelphiUnits.Proofs.GeneratedFile.Names
import DelphiUnits.Proofs.Report.Agreement
import DelphiUnits.Proofs.Source.Grammar
import DelphiUnits.Proofs.Json.Members
import DelphiUnits.Proofs.Source.Edit
import DelphiUnits.Proofs.Source.KeyOrder
import DelphiUnits.Proofs.Pascal.Resolution
import DelphiUnits.Proofs.GeneratedFile.Initialization
import DelphiUnits.Proofs.GeneratedFile.EntryPoint
import DelphiUnits.Proofs.GeneratedFile.LocalVariables
import DelphiUnits.Proofs.GeneratedFile.MemberGroups
import DelphiUnits.Proofs.Pascal.TypeSection
import DelphiUnits.Proofs.GeneratedFile.ImportNames
import DelphiUnits.Proofs.ReservedWords
import DelphiUnits.Proofs.Manifest.Validation
import DelphiUnits.Proofs.Manifest.Overrides
import DelphiUnits.Proofs.Text.Span
import DelphiUnits.Proofs.Path.Current
import DelphiUnits.Proofs.Project.Lookup
import DelphiUnits.Proofs.Text.Position
import DelphiUnits.Proofs.Text.NormalForm
import DelphiUnits.Proofs.Layout.Run
import DelphiUnits.Proofs.ReservedWords.Spellings
