import FlatStore.Bytes
import FlatStore.Cache
import FlatStore.Cache.Lru
import FlatStore.Checksum
import FlatStore.Command.Grammar
import FlatStore.Command.Language
import FlatStore.Console
import FlatStore.Console.Invocation
import FlatStore.Counter
import FlatStore.Database
import FlatStore.Database.Opening
import FlatStore.Disk
import FlatStore.Disk.Appender
import FlatStore.Disk.Path
import FlatStore.Durability
import FlatStore.Entry
import FlatStore.Error
import FlatStore.FieldStore
import FlatStore.Flag
import FlatStore.IdPool
import FlatStore.IntList
import FlatStore.Key
import FlatStore.KeyOrder
import FlatStore.Link
import FlatStore.Log
import FlatStore.Main
import FlatStore.Output
import FlatStore.Proofs.Accesses
import FlatStore.Proofs.Applied
import FlatStore.Proofs.Backend
import FlatStore.Proofs.Cache.Accounting
import FlatStore.Proofs.Cache.Recency
import FlatStore.Proofs.Catalog
import FlatStore.Proofs.Checksum
import FlatStore.Proofs.Coherence
import FlatStore.Proofs.Command
import FlatStore.Proofs.Console
import FlatStore.Proofs.Contents
import FlatStore.Proofs.Damage
import FlatStore.Proofs.Database.Actions
import FlatStore.Proofs.Database.Alike
import FlatStore.Proofs.Database.Opening
import FlatStore.Proofs.Database.Orderly
import FlatStore.Proofs.Database.Run
import FlatStore.Proofs.Dictionary
import FlatStore.Proofs.Disk
import FlatStore.Proofs.Disk.Appender
import FlatStore.Proofs.Disk.Directories
import FlatStore.Proofs.Disk.Paths
import FlatStore.Proofs.Flag
import FlatStore.Proofs.Footprint
import FlatStore.Proofs.IdPool
import FlatStore.Proofs.IdPool.Run
import FlatStore.Proofs.IntList
import FlatStore.Proofs.Isolation
import FlatStore.Proofs.KeyOrder
import FlatStore.Proofs.KeyText
import FlatStore.Proofs.Leftovers
import FlatStore.Proofs.Log.Compaction
import FlatStore.Proofs.Log.Cut
import FlatStore.Proofs.Log.Damage
import FlatStore.Proofs.Log.FailedCompaction
import FlatStore.Proofs.Log.Intact
import FlatStore.Proofs.Log.Opening
import FlatStore.Proofs.Log.Reclaim
import FlatStore.Proofs.Log.Recovery
import FlatStore.Proofs.Log.Run
import FlatStore.Proofs.Log.Writing
import FlatStore.Proofs.Numeral
import FlatStore.Proofs.Oversized
import FlatStore.Proofs.Record
import FlatStore.Proofs.Record.Damage
import FlatStore.Proofs.Record.Split
import FlatStore.Proofs.Recording
import FlatStore.Proofs.StoreLaws
import FlatStore.Proofs.Tree.Branch
import FlatStore.Proofs.Tree.Brevity
import FlatStore.Proofs.Tree.Call
import FlatStore.Proofs.Tree.Climb
import FlatStore.Proofs.Tree.Commit
import FlatStore.Proofs.Tree.Comparison
import FlatStore.Proofs.Tree.Damage
import FlatStore.Proofs.Tree.Delete
import FlatStore.Proofs.Tree.Edge
import FlatStore.Proofs.Tree.Entries
import FlatStore.Proofs.Tree.Footprint
import FlatStore.Proofs.Tree.Growth
import FlatStore.Proofs.Tree.Heights
import FlatStore.Proofs.Tree.Insert
import FlatStore.Proofs.Tree.Layout
import FlatStore.Proofs.Tree.Placement
import FlatStore.Proofs.Tree.Queries
import FlatStore.Proofs.Tree.Rotation
import FlatStore.Proofs.Tree.Rules
import FlatStore.Proofs.Tree.Run
import FlatStore.Proofs.Tree.Search
import FlatStore.Proofs.Tree.Stored
import FlatStore.Proofs.Tree.Traversal
import FlatStore.Proofs.Uncached
import FlatStore.Record
import FlatStore.Request
import FlatStore.Script
import FlatStore.Settings
import FlatStore.Store
import FlatStore.Store.Faulty
import FlatStore.Store.Memory
import FlatStore.Text.Blank
import FlatStore.Text.Commas
import FlatStore.Text.Integer
import FlatStore.Text.Quoted
import FlatStore.Text.Unprintable
import FlatStore.Text.Utf8
import FlatStore.Text.Words
import FlatStore.Toml.Document
import FlatStore.Toml.Scalar
import FlatStore.Toml.Table
import FlatStore.Toml.Text
import FlatStore.Toml.Value
import FlatStore.Tree
import FlatStore.Tree.Balance
import FlatStore.Tree.Node
import FlatStore.Tree.Recorded
import FlatStore.Tree.Shape
import FlatStore.Word
