import LimniFs.Wire.Decodes
import LimniFs.Wire.Ensures
import LimniFs.Wire.Fits
import LimniFs.Wire.Chunks
import LimniFs.Wire.Reads
import LimniFs.Wire.Local
import LimniFs.Wire.Writer
import LimniFs.Wire.Digest
import LimniFs.Wire.Reorder
import LimniFs.Wire.Unique
import LimniFs.Wire.Search
import LimniFs.Wire.Conservative
import LimniFs.Wire.Keyed
import LimniFs.Wire.Utf8Order
import LimniFs.Wire.Digits
import LimniFs.Wire.Tightens
import LimniFs.Cursor
import LimniFs.Header
import LimniFs.MetadataReference
import LimniFs.SlabIndex
import LimniFs.History
import LimniFs.EcParams
import LimniFs.DmsPolicy
import LimniFs.DeltaLinkage
import LimniFs.FeatureFlags
import LimniFs.Merkle
import LimniFs.Inode
import LimniFs.DirectoryNode
import LimniFs.Metadata
import LimniFs.Builder
import LimniFs.Cli
import LimniFs.Manifest
import LimniFs.BuilderFormat
import LimniFs.Reference
import LimniFs.RoundTrip
import LimniFs.Binding
import LimniFs.Unchecked
import LimniFs.Codec
import LimniFs.SlabHeader
import LimniFs.DropRecord
import LimniFs.SlabReader
import LimniFs.SlabWriter
import LimniFs.SlabRoundTrip
import LimniFs.SlabBoundary
import LimniFs.Canonical
import LimniFs.BlobRecords
import LimniFs.MetadataHash
import LimniFs.OrderIndependence
import LimniFs.RootInode
import LimniFs.NameOrder
import LimniFs.UriScheme
import LimniFs.OptionalSections
import LimniFs.SolidWindow
import LimniFs.Lz4Frame
import LimniFs.Escapes
import LimniFs.SizeChecks
import LimniFs.KeyedSections
import LimniFs.DropIdText
import LimniFs.UrlParse
import LimniFs.LocatorAccess
import LimniFs.BuilderRefinement
import LimniFs.MinimalReader
import LimniFs.BuilderSections
import LimniFs.VerifyCommand
import LimniFs.SlabEdits
import LimniFs.InodeLayouts
import LimniFs.ReportedMetadata
import LimniFs.Refusals
import LimniFs.Ceilings
import LimniFs.VerifyCommand
