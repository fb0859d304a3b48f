import VirtualModules.Artifact
import VirtualModules.Artifact.Stamp
import VirtualModules.Ascending
import VirtualModules.Bytes
import VirtualModules.CommandLine.Arguments
import VirtualModules.CommandLine.Commands
import VirtualModules.CommandLine.Project
import VirtualModules.Config
import VirtualModules.Config.Document
import VirtualModules.Disk.Action
import VirtualModules.Disk.FilePath
import VirtualModules.Disk.FileTree
import VirtualModules.Disk.Location
import VirtualModules.Facts
import VirtualModules.Fingerprint
import VirtualModules.Fingerprint.Xxh3
import VirtualModules.Generation
import VirtualModules.ImportPath
import VirtualModules.Install
import VirtualModules.Json
import VirtualModules.Json.Printing
import VirtualModules.Json.Reading
import VirtualModules.Main
import VirtualModules.Model
import VirtualModules.Pass
import VirtualModules.Report
import VirtualModules.Report.Closure
import VirtualModules.Report.Merge
import VirtualModules.Report.Search
import VirtualModules.Report.Stored
import VirtualModules.Settings
import VirtualModules.Snapshot
import VirtualModules.Snapshot.Document
import VirtualModules.SortedSet
import VirtualModules.Table
import VirtualModules.Text.Dots
import VirtualModules.Text.Reader
import VirtualModules.Toml
import VirtualModules.Toml.Reading
import VirtualModules.Proofs.AdditionalDependencies
import VirtualModules.Proofs.AliasListings
import VirtualModules.Proofs.ArtifactFiles
import VirtualModules.Proofs.ArtifactLines
import VirtualModules.Proofs.ArtifactReports
import VirtualModules.Proofs.ArtifactText
import VirtualModules.Proofs.AtRest
import VirtualModules.Proofs.BelowRoot
import VirtualModules.Proofs.ByteReaders
import VirtualModules.Proofs.CombinedReports
import VirtualModules.Proofs.Configurations
import VirtualModules.Proofs.Confinement
import VirtualModules.Proofs.DependencyClosures
import VirtualModules.Proofs.DottedNames
import VirtualModules.Proofs.ExactSweeps
import VirtualModules.Proofs.FailedModules
import VirtualModules.Proofs.Following
import VirtualModules.Proofs.Framing
import VirtualModules.Proofs.Healing
import VirtualModules.Proofs.Histories
import VirtualModules.Proofs.IncrementalPasses
import VirtualModules.Proofs.InstallAccounts
import VirtualModules.Proofs.InstallFootprints
import VirtualModules.Proofs.Interruptions
import VirtualModules.Proofs.IsolatedFailures
import VirtualModules.Proofs.Lines
import VirtualModules.Proofs.ListedDescendants
import VirtualModules.Proofs.MakingDirectories
import VirtualModules.Proofs.Merging
import VirtualModules.Proofs.ModelPaths
import VirtualModules.Proofs.ModuleFacts
import VirtualModules.Proofs.ModuleLists
import VirtualModules.Proofs.MovedArtifacts
import VirtualModules.Proofs.MutualDependencies
import VirtualModules.Proofs.Namespaces
import VirtualModules.Proofs.PassFootprints
import VirtualModules.Proofs.PassReports
import VirtualModules.Proofs.Passes
import VirtualModules.Proofs.PathCuts
import VirtualModules.Proofs.Paths
import VirtualModules.Proofs.Placing
import VirtualModules.Proofs.PrintedSummaries
import VirtualModules.Proofs.ProcessMarkers
import VirtualModules.Proofs.ReachableModules
import VirtualModules.Proofs.ReadingBack
import VirtualModules.Proofs.RelevantFacts
import VirtualModules.Proofs.RepeatedDependencies
import VirtualModules.Proofs.RepeatedPasses
import VirtualModules.Proofs.ReportFiles
import VirtualModules.Proofs.ReportHistories
import VirtualModules.Proofs.ReportUnions
import VirtualModules.Proofs.RequestedAliases
import VirtualModules.Proofs.Rereading
import VirtualModules.Proofs.Resolving
import VirtualModules.Proofs.Results
import VirtualModules.Proofs.ScratchDirectories
import VirtualModules.Proofs.SeparateFiles
import VirtualModules.Proofs.SignificantPaths
import VirtualModules.Proofs.SnapshotDocuments
import VirtualModules.Proofs.Snapshots
import VirtualModules.Proofs.StagedCopies
import VirtualModules.Proofs.Stages
import VirtualModules.Proofs.Staging
import VirtualModules.Proofs.StampRuns
import VirtualModules.Proofs.StoredReports
import VirtualModules.Proofs.SummaryKeys
import VirtualModules.Proofs.SweepOrders
import VirtualModules.Proofs.Sweeping
import VirtualModules.Proofs.Tables
import VirtualModules.Proofs.TidyDestinations
import VirtualModules.Proofs.Twins
import VirtualModules.Proofs.UninstalledModules
import VirtualModules.Proofs.Versions
import VirtualModules.Proofs.WrittenFiles
