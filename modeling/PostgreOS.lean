import PostgreOS.Accounts
import PostgreOS.Agreement
import PostgreOS.BlockSearch
import PostgreOS.BlockStream
import PostgreOS.Blockizing
import PostgreOS.BoundaryLiterals
import PostgreOS.BulkRemoval
import PostgreOS.Callbacks
import PostgreOS.CandidateBlocks
import PostgreOS.CandidateLines
import PostgreOS.CandidateText
import PostgreOS.Catalog
import PostgreOS.Coherence
import PostgreOS.Connection
import PostgreOS.Consistency
import PostgreOS.Content
import PostgreOS.ContentInvariant
import PostgreOS.ContentStore
import PostgreOS.CopySpec
import PostgreOS.Daemon
import PostgreOS.DiskUsage
import PostgreOS.Effects
import PostgreOS.FileReads
import PostgreOS.FileSemantics
import PostgreOS.FileTree
import PostgreOS.FileTreeCopies
import PostgreOS.FileTreeDirectories
import PostgreOS.FileTreeFiles
import PostgreOS.FileTreeImports
import PostgreOS.FileTreeMoves
import PostgreOS.FileTreeRuns
import PostgreOS.FileTreeSubtrees
import PostgreOS.FileTreeTexts
import PostgreOS.Find
import PostgreOS.FindSpec
import PostgreOS.Framing
import PostgreOS.GrepOutput
import PostgreOS.Hir
import PostgreOS.ImportSpec
import PostgreOS.Isolation
import PostgreOS.KeptBytes
import PostgreOS.Keys
import PostgreOS.LetterRuns
import PostgreOS.Library.BlockRanges
import PostgreOS.Library.CopyFormat
import PostgreOS.Library.Frames
import PostgreOS.Library.Interleaving
import PostgreOS.Library.LikePattern
import PostgreOS.Library.LineBlocks
import PostgreOS.Library.Lineage
import PostgreOS.Library.Lines
import PostgreOS.Library.NameTree
import PostgreOS.Library.Ordering
import PostgreOS.Library.Outcome
import PostgreOS.Library.Paging
import PostgreOS.Library.Parts
import PostgreOS.Library.Resolution
import PostgreOS.Library.Rounding
import PostgreOS.Library.Runs
import PostgreOS.Library.Segments
import PostgreOS.Library.Services
import PostgreOS.Library.Sessions
import PostgreOS.Library.ShellPattern
import PostgreOS.Library.Spans
import PostgreOS.Library.StdPath
import PostgreOS.Library.Sweeps
import PostgreOS.Library.Table
import PostgreOS.Library.Transition
import PostgreOS.Link
import PostgreOS.Listing
import PostgreOS.MkdirMany
import PostgreOS.MkdirSpec
import PostgreOS.Mount
import PostgreOS.MountWrites
import PostgreOS.MoveCommand
import PostgreOS.MoveSpec
import PostgreOS.MovedRows
import PostgreOS.Moving
import PostgreOS.Multicall
import PostgreOS.NamePatterns
import PostgreOS.NewRows
import PostgreOS.Nodes
import PostgreOS.Normalizing
import PostgreOS.OpenFiles
import PostgreOS.Operations.Copy
import PostgreOS.Operations.Directories
import PostgreOS.Operations.Files
import PostgreOS.Operations.Imports
import PostgreOS.Operations.Move
import PostgreOS.Operations.Remove
import PostgreOS.Operations.Volumes
import PostgreOS.Path
import PostgreOS.PathAlgebra
import PostgreOS.Places
import PostgreOS.Protocol
import PostgreOS.Ranges
import PostgreOS.ReadBack
import PostgreOS.Reclamation
import PostgreOS.RecursiveGrep
import PostgreOS.Removal
import PostgreOS.RemoveMany
import PostgreOS.RemoveSpec
import PostgreOS.RequiredLiterals
import PostgreOS.RequiredWord
import PostgreOS.Run
import PostgreOS.Schema
import PostgreOS.SearchLiteral
import PostgreOS.SearchedFiles
import PostgreOS.SegmentLifecycle
import PostgreOS.Serving
import PostgreOS.Soundness
import PostgreOS.Splitting
import PostgreOS.Statements
import PostgreOS.StayingRows
import PostgreOS.SubtreeQueries
import PostgreOS.Subtrees
import PostgreOS.Sweeping
import PostgreOS.Text
import PostgreOS.Times
import PostgreOS.Timestamps
import PostgreOS.Transactions
import PostgreOS.Tree
import PostgreOS.TreeChange
import PostgreOS.TreeInsertions
import PostgreOS.TreeMove
import PostgreOS.UsageSpec
import PostgreOS.Versions
import PostgreOS.Views
import PostgreOS.VolumeReads
import PostgreOS.VolumeTree
import PostgreOS.WriteSpec
import PostgreOS.Zones
