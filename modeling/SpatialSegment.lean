import SpatialSegment.Box
import SpatialSegment.Box.Stored
import SpatialSegment.Box.Text
import SpatialSegment.Calls
import SpatialSegment.Coord
import SpatialSegment.Coord.Text
import SpatialSegment.Decimal.Nearest
import SpatialSegment.Decimal.Shortest
import SpatialSegment.Error
import SpatialSegment.File.Calls
import SpatialSegment.File.Format
import SpatialSegment.File.Guarded
import SpatialSegment.File.Path
import SpatialSegment.File.Sharing
import SpatialSegment.File.System
import SpatialSegment.File.View
import SpatialSegment.Filter
import SpatialSegment.Filter.Hash
import SpatialSegment.KeyIndex
import SpatialSegment.KeyIndex.Cached
import SpatialSegment.KeyIndex.Calls
import SpatialSegment.KeyIndex.Loading
import SpatialSegment.KeyIndex.Recent
import SpatialSegment.KeyIndex.Search
import SpatialSegment.Lifecycle
import SpatialSegment.Lifecycle.Status
import SpatialSegment.Log
import SpatialSegment.RTree
import SpatialSegment.RTree.Choice
import SpatialSegment.RTree.Image
import SpatialSegment.RTree.Node
import SpatialSegment.RTree.Saved
import SpatialSegment.RTree.Split
import SpatialSegment.RTree.Table
import SpatialSegment.Segment
import SpatialSegment.Segment.Calls
import SpatialSegment.Segment.Config
import SpatialSegment.Segment.Paths
import SpatialSegment.Segment.Sharing
import SpatialSegment.Segment.Usage
import SpatialSegment.Segment.Write
import SpatialSegment.Summary
import SpatialSegment.Summary.Calls
import SpatialSegment.Table
import SpatialSegment.Text.Blank
import SpatialSegment.Text.Hidden
import SpatialSegment.Text.Quoted
import SpatialSegment.Text.Split
import SpatialSegment.Text.Utf8
import SpatialSegment.Tuple
import SpatialSegment.Tuple.Record
import SpatialSegment.Word
import SpatialSegment.Proofs.File.Sharing
import SpatialSegment.Proofs.KeyIndex.Duplicates
import SpatialSegment.Proofs.RTree.Query
import SpatialSegment.Proofs.RTree.Consistency
import SpatialSegment.Proofs.RTree.Size
import SpatialSegment.Proofs.RTree.RoundTrip
import SpatialSegment.Proofs.RTree.Reloading
import SpatialSegment.Proofs.RTree.Accepted
import SpatialSegment.Proofs.Segment.ReadBack
import SpatialSegment.Proofs.Segment.Sharing
import SpatialSegment.Proofs.Tuple.Canonical
import SpatialSegment.Proofs.RTree.Extent
import SpatialSegment.Proofs.RTree.Truncation
import SpatialSegment.Proofs.RTree.InOrder
import SpatialSegment.Proofs.RTree.Rewriting
import SpatialSegment.Proofs.File.Directories
import SpatialSegment.Proofs.Segment.Atomic
import SpatialSegment.Proofs.Checked.Guarded
import SpatialSegment.Proofs.Checked.KeyIndex
import SpatialSegment.Proofs.KeyIndex.Transparent
import SpatialSegment.Proofs.KeyIndex.Modes
import SpatialSegment.Proofs.Segment.Damaged
import SpatialSegment.Proofs.KeyIndex.Unordered
import SpatialSegment.Proofs.Log.Keys
import SpatialSegment.Proofs.Segment.FilterFile
import SpatialSegment.Proofs.Segment.Leftovers
import SpatialSegment.Proofs.Segment.Ended
import SpatialSegment.Proofs.Segment.BrokenOff
import SpatialSegment.Proofs.Segment.Numbers
import SpatialSegment.Proofs.Table.Isolation
import SpatialSegment.Proofs.RTree.Fill
import SpatialSegment.Proofs.RTree.Occupancy
import SpatialSegment.Proofs.RTree.Acceptance
import SpatialSegment.Proofs.Log.Offsets
import SpatialSegment.Proofs.Segment.Agreement
import SpatialSegment.Proofs.Log.KeyOnly
import SpatialSegment.Proofs.KeyIndex.Recency
import SpatialSegment.Proofs.KeyIndex.Iteration
import SpatialSegment.Proofs.Log.Scan
import SpatialSegment.Proofs.Segment.Scan
import SpatialSegment.Proofs.Box.Points
import SpatialSegment.Proofs.Box.Covering
import SpatialSegment.Proofs.Summary.Exact
import SpatialSegment.Proofs.Segment.Summarized
import SpatialSegment.Proofs.Box.Text
import SpatialSegment.Proofs.RTree.Descent
import SpatialSegment.Proofs.RTree.Seeds
