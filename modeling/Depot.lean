import Depot.Code.Grammar
import Depot.Code.Item
import Depot.Code.Literal
import Depot.Code.Scan
import Depot.Code.Token
import Depot.CommandLine.Declaration
import Depot.CommandLine.Help
import Depot.CommandLine.Program
import Depot.CommandLine.Reader
import Depot.CommandLine.Request
import Depot.CommandLine.Usage
import Depot.Data.Table
import Depot.Decimal.FloatText
import Depot.Decimal.Nearest
import Depot.Decimal.Shortest
import Depot.Decimal.Whole
import Depot.Decimal.Words
import Depot.ErrorEnum.Expansion
import Depot.ErrorEnum.Facts
import Depot.ErrorEnum.Value
import Depot.ErrorEnum.Words
import Depot.Execution
import Depot.FileSystem.Basic
import Depot.FileSystem.Content
import Depot.FileSystem.Directory
import Depot.FileSystem.IoError
import Depot.FileSystem.Lookup
import Depot.Json.Basic
import Depot.Json.Number
import Depot.Json.Record
import Depot.Json.Text
import Depot.Json.Value
import Depot.Json.Writer
import Depot.Log.Basic
import Depot.Log.Error
import Depot.Log.Event
import Depot.Log.Filter
import Depot.Log.Line
import Depot.Log.RollingFile
import Depot.Log.Start
import Depot.Log.Threshold
import Depot.Main
import Depot.Path.Pathname
import Depot.Proofs.CommandLine.ReadFile
import Depot.Proofs.CommandLine.RootOption
import Depot.Proofs.CommandLine.Running
import Depot.Proofs.CommandLine.SavedFile
import Depot.Proofs.CommandLine.Values
import Depot.Proofs.ErrorEnum.Acceptance
import Depot.Proofs.ErrorEnum.Arms
import Depot.Proofs.ErrorEnum.Conversions
import Depot.Proofs.ErrorEnum.Guards
import Depot.Proofs.ErrorEnum.Propagation
import Depot.Proofs.Execution
import Depot.Proofs.FileSystem.Below
import Depot.Proofs.FileSystem.ClearPaths
import Depot.Proofs.FileSystem.Filling
import Depot.Proofs.FileSystem.Growing
import Depot.Proofs.FileSystem.Guided
import Depot.Proofs.FileSystem.Items
import Depot.Proofs.FileSystem.KeptPaths
import Depot.Proofs.FileSystem.Located
import Depot.Proofs.FileSystem.Named
import Depot.Proofs.FileSystem.Paving
import Depot.Proofs.FileSystem.Relinked
import Depot.Proofs.FileSystem.RelinkedSteps
import Depot.Proofs.FileSystem.RemovedTrees
import Depot.Proofs.FileSystem.SameLinks
import Depot.Proofs.FileSystem.Straight
import Depot.Proofs.FileSystem.Thinned
import Depot.Proofs.FileSystem.Turns
import Depot.Proofs.FileSystem.Unobstructed
import Depot.Proofs.FileSystem.Walk
import Depot.Proofs.FileSystem.WellFormed
import Depot.Proofs.Json.ReadBack
import Depot.Proofs.Log.Detached
import Depot.Proofs.Log.Starting
import Depot.Proofs.Pairs
import Depot.Proofs.Path.Absolute
import Depot.Proofs.Path.IdleTails
import Depot.Proofs.Path.Names
import Depot.Proofs.Path.Parents
import Depot.Proofs.Program
import Depot.Proofs.Session.Calls
import Depot.Proofs.Session.FailedSteps
import Depot.Proofs.Session.Interleaving
import Depot.Proofs.Session.Overlap
import Depot.Proofs.Session.Snapshots
import Depot.Proofs.Session.Steps
import Depot.Proofs.Session.WriteLog
import Depot.Proofs.Settings.Changes
import Depot.Proofs.Settings.Layering
import Depot.Proofs.Settings.Override
import Depot.Proofs.Settings.Sections
import Depot.Proofs.Store.Absence
import Depot.Proofs.Store.Alike
import Depot.Proofs.Store.AlikeRequests
import Depot.Proofs.Store.AlikeSteps
import Depot.Proofs.Store.AlikeWrites
import Depot.Proofs.Store.Amid
import Depot.Proofs.Store.Aside
import Depot.Proofs.Store.Blind
import Depot.Proofs.Store.Commuting
import Depot.Proofs.Store.Confinement
import Depot.Proofs.Store.CrashSafety
import Depot.Proofs.Store.DeletedTrees
import Depot.Proofs.Store.Deleting
import Depot.Proofs.Store.Deliveries
import Depot.Proofs.Store.ExactListings
import Depot.Proofs.Store.FailureAtomicity
import Depot.Proofs.Store.FailureContexts
import Depot.Proofs.Store.Failures
import Depot.Proofs.Store.Footprint
import Depot.Proofs.Store.FromFile
import Depot.Proofs.Store.Grounded
import Depot.Proofs.Store.Homes
import Depot.Proofs.Store.JsonForms
import Depot.Proofs.Store.Keeping
import Depot.Proofs.Store.LinkedTrees
import Depot.Proofs.Store.ListedLinks
import Depot.Proofs.Store.ListedObjects
import Depot.Proofs.Store.Listings
import Depot.Proofs.Store.Lookups
import Depot.Proofs.Store.Lost
import Depot.Proofs.Store.MissingRoots
import Depot.Proofs.Store.NameGrammar
import Depot.Proofs.Store.ObjectKey
import Depot.Proofs.Store.ObjectMap
import Depot.Proofs.Store.Opening
import Depot.Proofs.Store.PairedWrites
import Depot.Proofs.Store.Parents
import Depot.Proofs.Store.PinnedRoots
import Depot.Proofs.Store.PurgedFiles
import Depot.Proofs.Store.Purging
import Depot.Proofs.Store.Reading
import Depot.Proofs.Store.RelinkedRequests
import Depot.Proofs.Store.RelinkedWrites
import Depot.Proofs.Store.Removals
import Depot.Proofs.Store.Reopening
import Depot.Proofs.Store.ResolvedRoots
import Depot.Proofs.Store.Rooted
import Depot.Proofs.Store.Settled
import Depot.Proofs.Store.Staging
import Depot.Proofs.Store.Staying
import Depot.Proofs.Store.Tidy
import Depot.Proofs.Store.Undisturbed
import Depot.Proofs.Store.Writable
import Depot.Proofs.Store.WriteCall
import Depot.Proofs.Store.Writing
import Depot.Proofs.Text.Utf8
import Depot.Session.Disturbance
import Depot.Session.Run
import Depot.Session.Script
import Depot.Settings.Decode
import Depot.Settings.KeyPath
import Depot.Settings.Layers
import Depot.Settings.Load
import Depot.Settings.Setting
import Depot.Store.Basic
import Depot.Store.Config
import Depot.Store.Error
import Depot.Store.Json
import Depot.Store.Listing
import Depot.Store.Object
import Depot.Store.ObjectName
import Depot.Store.Purge
import Depot.Store.Root
import Depot.Store.Write
import Depot.Text.Blank
import Depot.Text.Bytes
import Depot.Text.Identifier
import Depot.Text.Quoted
import Depot.Text.Ranges
import Depot.Text.Visible
import Depot.Time.Moment
import Depot.Toml.Document
import Depot.Toml.Scalar
import Depot.Toml.Table
import Depot.Toml.Text
import Depot.World
import Depot.Yaml.Cursor
import Depot.Yaml.Document
import Depot.Yaml.Scalar
