import TaeScanner.Reader.ReadBytesSpec
import TaeScanner.Table.Materialise
import TaeScanner.Filter.ConstantColumns
import TaeScanner.Scan.ChunkResidue
import TaeScanner.Scan.Pruning
import TaeScanner.Scan.OrderBySpec
import TaeScanner.Scan.FastPath
import TaeScanner.Scan.Sampling
import TaeScanner.Scan.ReturnedCells
import TaeScanner.Filter.StringZoneMap
import TaeScanner.Filter.EncodeConstant
import TaeScanner.Filter.TemporalConstants
import TaeScanner.Lib.Fields
import TaeScanner.Reader.DecodeVector
import TaeScanner.Format.BuildVector
import TaeScanner.Filter.BinaryConstants
import TaeScanner.Filter.Expression
import TaeScanner.Filter.ExtractSpec
import TaeScanner.Reader.Metadata
import TaeScanner.Reader.MetadataSafety
import TaeScanner.Reader.ReadRange
import TaeScanner.Reader.Coalescing
import TaeScanner.Reader.ReadBlockSpec
import TaeScanner.Format.ObjectFile
import TaeScanner.Format.ObjectLayout
import TaeScanner.Format.ObjectRoundTrip
import TaeScanner.Scan.Projection
import TaeScanner.Scan.ProjectionSpec
import TaeScanner.Lib.Extremes
import TaeScanner.Scan.Statistics
import TaeScanner.Scan.StatisticsSpec
import TaeScanner.Reader.DecodeGrammar
import TaeScanner.Scan.ManifestRows
import TaeScanner.Reader.OutOfRange
import TaeScanner.Filter.CellReads
import TaeScanner.Scan.FillBounds
import TaeScanner.Lib.Utf8
import TaeScanner.Scan.OrderByKeys
import TaeScanner.Lib.Hex
import TaeScanner.Lib.Json
import TaeScanner.Lib.Paths
import TaeScanner.Scan.Manifest
import TaeScanner.Scan.ManifestSource
import TaeScanner.Scan.ManifestSpec
import TaeScanner.Format.BuildZoneMap
import TaeScanner.Scan.OpenReaders
import TaeScanner.Scan.Progress
import TaeScanner.Scan.Select
import TaeScanner.Scan.WrittenTable
import TaeScanner.Scan.ReturnedTable
import TaeScanner.Scan.Termination
import TaeScanner.Scan.OrderedRanges
import TaeScanner.Scan.TopRows
import TaeScanner.Scan.WrittenStatistics
import TaeScanner.Scan.Bind
