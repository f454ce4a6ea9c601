import SchemaReader.Main
import SchemaReader.Proofs.Backing.Schema
import SchemaReader.Proofs.Json.Scan
import SchemaReader.Proofs.Json.Read
import SchemaReader.Proofs.Response.RoundTrip
import SchemaReader.Proofs.Backing.Pointing
import SchemaReader.Proofs.Schema.Runs
import SchemaReader.Proofs.Schema.Collapse
import SchemaReader.Proofs.Pattern.Reads
import SchemaReader.Proofs.Pattern.Takes
import SchemaReader.Proofs.Pattern.Search
import SchemaReader.Proofs.Pattern.First
import SchemaReader.Proofs.Pattern.Words
import SchemaReader.Proofs.Text.Slices
import SchemaReader.Proofs.Lexical.Closed
import SchemaReader.Proofs.Lexical.Masking
import SchemaReader.Proofs.Text.Trim
import SchemaReader.Proofs.Text.Segments
import SchemaReader.Proofs.Lexical.Comments
import SchemaReader.Proofs.Lexical.Identifier
import SchemaReader.Proofs.Ddl.Identifier
import SchemaReader.Proofs.Lexical.Written
import SchemaReader.Proofs.Ddl.Forms
import SchemaReader.Proofs.Ddl.Constraints
import SchemaReader.Proofs.Ddl.Columns
import SchemaReader.Proofs.Lexical.Listed
import SchemaReader.Proofs.Lexical.Lists
import SchemaReader.Proofs.Ddl.Syntax
import SchemaReader.Proofs.Ddl.Entries
import SchemaReader.Proofs.Ddl.Options
import SchemaReader.Proofs.Ddl.ReadEntry
import SchemaReader.Proofs.Ddl.Pieces
import SchemaReader.Proofs.Ddl.Silence
import SchemaReader.Proofs.Ddl.Scan
import SchemaReader.Proofs.Ddl.ReadStatement
import SchemaReader.Proofs.Ddl.ReadScript
import SchemaReader.Proofs.Ddl.Decode
import SchemaReader.Proofs.Ddl.Spelling
import SchemaReader.Proofs.Ddl.ListedNames
import SchemaReader.Proofs.Ddl.MaskedKey
import SchemaReader.Proofs.Ddl.NameLists
import SchemaReader.Proofs.Ddl.OneTable
import SchemaReader.Proofs.Ddl.SpelledName
import SchemaReader.Proofs.Ddl.KeyPlaces
import SchemaReader.Proofs.Ddl.KeyTexts
import SchemaReader.Proofs.Common.Table
import SchemaReader.Proofs.Common.Script
import SchemaReader.Proofs.Common.ModelFile
import SchemaReader.Proofs.Common.TableModule
import SchemaReader.Proofs.Common.Agreement
import SchemaReader.Proofs.Pattern.Outcomes
import SchemaReader.Proofs.Pattern.Joining
import SchemaReader.Proofs.Pattern.Groups
import SchemaReader.Proofs.Pattern.Borders
import SchemaReader.Proofs.Lexical.Balance
import SchemaReader.Proofs.Lexical.Joining
import SchemaReader.Proofs.Ddl.Borders
import SchemaReader.Proofs.Ddl.JoinedScripts
import SchemaReader.Proofs.Schema.Parts
import SchemaReader.Proofs.Ddl.JoinedDrafts
import SchemaReader.Proofs.Ddl.Literals
import SchemaReader.Proofs.ModelFile.Blocks
import SchemaReader.Proofs.ModelFile.Surrounded
import SchemaReader.Proofs.Schema.ColumnNames
import SchemaReader.Proofs.Schema.ListedColumns
import SchemaReader.Proofs.Schema.LastDeclared
import SchemaReader.Proofs.Schema.BareIndexes
import SchemaReader.Proofs.TableModule.Tokens
import SchemaReader.Proofs.TableModule.Scans
import SchemaReader.Proofs.TableModule.Heads
import SchemaReader.Proofs.TableModule.Syntax
import SchemaReader.Proofs.TableModule.Taken
import SchemaReader.Proofs.TableModule.ReadColumn
import SchemaReader.Proofs.TableModule.ColumnLists
import SchemaReader.Proofs.TableModule.ReadCallback
import SchemaReader.Proofs.TableModule.ReadBlock
import SchemaReader.Proofs.TableModule.ReadModule
import SchemaReader.Proofs.TableModule.Draft
import SchemaReader.Proofs.TableModule.Meaning
import SchemaReader.Proofs.TableModule.Decode
import SchemaReader.Proofs.TableModule.Worded
import SchemaReader.Proofs.TableModule.Appended
import SchemaReader.Proofs.TableModule.Restated
import SchemaReader.Proofs.Lexical.Stripping
import SchemaReader.Proofs.FileTree.Places
import SchemaReader.Proofs.Glob.Escaped
import SchemaReader.Proofs.Glob.Directory
import SchemaReader.Proofs.Detection.Stages
import SchemaReader.Proofs.Detection.Search
import SchemaReader.Proofs.Pattern.Places
import SchemaReader.Proofs.ByOffset.Basic
import SchemaReader.Proofs.ByOffset.Lexical
import SchemaReader.Proofs.ByOffset.Matches
import SchemaReader.Proofs.ByOffset.Ddl
import SchemaReader.Proofs.ByOffset.ModelFile
import SchemaReader.Proofs.ByOffset.TableModule
import SchemaReader.Proofs.ByOffset.Extraction
import SchemaReader.Proofs.Schema.GivenAt
import SchemaReader.Proofs.ModelFile.Draft
import SchemaReader.Proofs.ModelFile.Meaning
import SchemaReader.Proofs.ModelFile.WrittenBlocks
import SchemaReader.Proofs.ModelFile.BlockOrder
import SchemaReader.Proofs.Ddl.KeyParts
import SchemaReader.Proofs.Ddl.IndexEntries
import SchemaReader.Proofs.Ddl.TypedColumns
import SchemaReader.Proofs.Text.Squeezed
import SchemaReader.Proofs.Ddl.SameFlags
import SchemaReader.Proofs.Ddl.HiddenText
import SchemaReader.Proofs.Ddl.Enumerations
import SchemaReader.Proofs.Schema.FirstColumns
import SchemaReader.Proofs.Ddl.Arrangements
import SchemaReader.Proofs.Lexical.Separated
import SchemaReader.Proofs.TableModule.Chains
import SchemaReader.Proofs.TableModule.CallTexts
import SchemaReader.Proofs.TableModule.TypeArguments
import SchemaReader.Proofs.Schema.SameFlags
import SchemaReader.Proofs.TableModule.MethodCalls
import SchemaReader.Proofs.ModelFile.TableParts
import SchemaReader.Proofs.ModelFile.WrittenFields
import SchemaReader.Proofs.ModelFile.UnsupportedTypes
import SchemaReader.Proofs.ModelFile.AttributeLiterals
import SchemaReader.Proofs.ModelFile.AlikeModels
import SchemaReader.Proofs.ModelFile.LiteralPlaces
import SchemaReader.Proofs.Schema.IndexOrder
import SchemaReader.Proofs.Ddl.UniqueColumns
import SchemaReader.Proofs.TableModule.UniqueColumns
import SchemaReader.Proofs.ModelFile.WrittenAttributes
import SchemaReader.Proofs.ModelFile.UniqueColumns
import SchemaReader.Proofs.Common.UniqueColumns
import SchemaReader.Proofs.Lexical.Partners
import SchemaReader.Proofs.Lexical.Splitting
import SchemaReader.Proofs.Text.Decoding
import SchemaReader.Proofs.Analysis.CommentBytes
import SchemaReader.Proofs.Lexical.LineEnds
import SchemaReader.Proofs.ModelFile.LineEnds
import SchemaReader.Proofs.Lexical.TopLevel
import SchemaReader.Proofs.Lexical.DecoratedNames
