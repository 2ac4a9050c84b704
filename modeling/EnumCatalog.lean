import EnumCatalog.Artifact
import EnumCatalog.Cfg
import EnumCatalog.Disk
import EnumCatalog.EnumType
import EnumCatalog.Event
import EnumCatalog.Expansion
import EnumCatalog.Extraction
import EnumCatalog.FsPath
import EnumCatalog.Generator
import EnumCatalog.Import
import EnumCatalog.Layout
import EnumCatalog.Loading
import EnumCatalog.Mapper
import EnumCatalog.Marker
import EnumCatalog.Model
import EnumCatalog.ModulePath
import EnumCatalog.ModuleTree
import EnumCatalog.Naming
import EnumCatalog.Ordered
import EnumCatalog.Program
import EnumCatalog.Proofs.Accounting
import EnumCatalog.Proofs.Agreement
import EnumCatalog.Proofs.Akin
import EnumCatalog.Proofs.ArtifactReading
import EnumCatalog.Proofs.ArtifactText
import EnumCatalog.Proofs.Attributes
import EnumCatalog.Proofs.BuildEnvironment
import EnumCatalog.Proofs.CallText
import EnumCatalog.Proofs.CarriedExpressions
import EnumCatalog.Proofs.CarriedItems
import EnumCatalog.Proofs.CarriedTypes
import EnumCatalog.Proofs.Carrying
import EnumCatalog.Proofs.Conversion
import EnumCatalog.Proofs.CreateStatement
import EnumCatalog.Proofs.CreatedTypes
import EnumCatalog.Proofs.Declaring
import EnumCatalog.Proofs.Dedup
import EnumCatalog.Proofs.Deletion
import EnumCatalog.Proofs.Delivery
import EnumCatalog.Proofs.Diagnostics
import EnumCatalog.Proofs.DirectorySteps
import EnumCatalog.Proofs.DiskChanges
import EnumCatalog.Proofs.DiskFiles
import EnumCatalog.Proofs.DiskGrowth
import EnumCatalog.Proofs.DiskWriting
import EnumCatalog.Proofs.Emission
import EnumCatalog.Proofs.Enums
import EnumCatalog.Proofs.Equality
import EnumCatalog.Proofs.Escaping
import EnumCatalog.Proofs.Excerpt
import EnumCatalog.Proofs.Extraction
import EnumCatalog.Proofs.FileModule
import EnumCatalog.Proofs.FileOrder
import EnumCatalog.Proofs.FirstModule
import EnumCatalog.Proofs.Functions
import EnumCatalog.Proofs.GrownProgram
import EnumCatalog.Proofs.HeadText
import EnumCatalog.Proofs.Implementation
import EnumCatalog.Proofs.Inlining
import EnumCatalog.Proofs.Insertion
import EnumCatalog.Proofs.InsertionOrder
import EnumCatalog.Proofs.Lexing
import EnumCatalog.Proofs.LineEnd
import EnumCatalog.Proofs.LineTokens
import EnumCatalog.Proofs.LogLine
import EnumCatalog.Proofs.Manifest
import EnumCatalog.Proofs.MarkerNormalForm
import EnumCatalog.Proofs.MarkerText
import EnumCatalog.Proofs.Matching
import EnumCatalog.Proofs.Members
import EnumCatalog.Proofs.Mentions
import EnumCatalog.Proofs.MetaLists
import EnumCatalog.Proofs.ModuleChain
import EnumCatalog.Proofs.ModuleFiles
import EnumCatalog.Proofs.NamePath
import EnumCatalog.Proofs.NameText
import EnumCatalog.Proofs.Operand
import EnumCatalog.Proofs.OutsideFiles
import EnumCatalog.Proofs.Overlap
import EnumCatalog.Proofs.Parsing
import EnumCatalog.Proofs.PathReading
import EnumCatalog.Proofs.PathTypes
import EnumCatalog.Proofs.Pieces
import EnumCatalog.Proofs.PlainDisk
import EnumCatalog.Proofs.Predicate
import EnumCatalog.Proofs.PredicateLaws
import EnumCatalog.Proofs.QualifiedName
import EnumCatalog.Proofs.QualifiedPath
import EnumCatalog.Proofs.RawNames
import EnumCatalog.Proofs.Reading
import EnumCatalog.Proofs.ReadingBack
import EnumCatalog.Proofs.Reference
import EnumCatalog.Proofs.Refusals
import EnumCatalog.Proofs.Registering
import EnumCatalog.Proofs.Relocation
import EnumCatalog.Proofs.Rerun
import EnumCatalog.Proofs.Resolution
import EnumCatalog.Proofs.Respelling
import EnumCatalog.Proofs.Restriction
import EnumCatalog.Proofs.RunFrame
import EnumCatalog.Proofs.SameDirectory
import EnumCatalog.Proofs.ScannedFiles
import EnumCatalog.Proofs.ScopeNumbers
import EnumCatalog.Proofs.Search
import EnumCatalog.Proofs.SelfImport
import EnumCatalog.Proofs.SingleImports
import EnumCatalog.Proofs.Site
import EnumCatalog.Proofs.Spelling
import EnumCatalog.Proofs.StatementText
import EnumCatalog.Proofs.Statements
import EnumCatalog.Proofs.Steps
import EnumCatalog.Proofs.Subdirectory
import EnumCatalog.Proofs.Tagging
import EnumCatalog.Proofs.Unasked
import EnumCatalog.Proofs.UnsharedFiles
import EnumCatalog.Proofs.WholeLines
import EnumCatalog.Proofs.Writing
import EnumCatalog.Proofs.WrittenPaths
import EnumCatalog.Registration
import EnumCatalog.Scope
import EnumCatalog.Settings
import EnumCatalog.Sql.EnumDecl
import EnumCatalog.Sql.Token
import EnumCatalog.Syntax.Attribute
import EnumCatalog.Syntax.Fragment
import EnumCatalog.Syntax.Grammar
import EnumCatalog.Syntax.Grammar.Expression
import EnumCatalog.Syntax.Grammar.Item
import EnumCatalog.Syntax.Grammar.Pattern
import EnumCatalog.Syntax.Grammar.Type
import EnumCatalog.Syntax.Inline
import EnumCatalog.Syntax.Item
import EnumCatalog.Syntax.Path
import EnumCatalog.Syntax.Reader
import EnumCatalog.Syntax.Source
import EnumCatalog.Syntax.Visibility
import EnumCatalog.Text.Blank
import EnumCatalog.Text.CaseMap
import EnumCatalog.Text.Escape
import EnumCatalog.Text.IdentChar
import EnumCatalog.Text.Letter
import EnumCatalog.Text.Lowercase
import EnumCatalog.Text.SnakeCase
import EnumCatalog.Text.Table
import EnumCatalog.Token
import EnumCatalog.Token.Lexer
import EnumCatalog.Token.Literal
import EnumCatalog.Toml.Document
import EnumCatalog.Toml.Scalar
import EnumCatalog.Toml.Scanner
import EnumCatalog.Toml.Section
import EnumCatalog.Toml.Value
