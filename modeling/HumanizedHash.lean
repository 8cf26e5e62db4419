import HumanizedHash.Derivation.HexInput
import HumanizedHash.Derivation.Aliasing
import HumanizedHash.Foundations.Painting
import HumanizedHash.Raster.Features
import HumanizedHash.Raster.Geometry
import HumanizedHash.Raster.Rasterise
import HumanizedHash.Raster.Picture
import HumanizedHash.Raster.Render
import HumanizedHash.Raster.Coverage
import HumanizedHash.Raster.Faithful
import HumanizedHash.Interface.CAbi
import HumanizedHash.Interface.Refinement
import HumanizedHash.Encoding.Dct
import HumanizedHash.Encoding.Jpeg
import HumanizedHash.Encoding.JpegSafety
import HumanizedHash.Derivation.Messages
import HumanizedHash.Derivation.ValueObjects
import HumanizedHash.Hashing.Sessions
import HumanizedHash.Encoding.Bmp
import HumanizedHash.Encoding.EdgeReplication
import HumanizedHash.Raster.Flattening
import HumanizedHash.Raster.Symmetry
import HumanizedHash.Encoding.Checksums
import HumanizedHash.Encoding.Deflate
import HumanizedHash.Encoding.DeflateBits
import HumanizedHash.Encoding.DeflateInverse
import HumanizedHash.Encoding.Png
import HumanizedHash.Encoding.PngInverse
import HumanizedHash.Interface.Encoders
import HumanizedHash.Encoding.JpegInverse
import HumanizedHash.Encoding.DctAccuracy
import HumanizedHash.Encoding.HuffmanCodes
import HumanizedHash.Raster.Blend
import HumanizedHash.Encoding.JpegFidelity
import HumanizedHash.Encoding.JpegSize
import HumanizedHash.Encoding.PngSize
import HumanizedHash.Formats.Factorisation
import HumanizedHash.Foundations.HashChain
import HumanizedHash.Interface.Capacity
import HumanizedHash.Lab.Canvas
import HumanizedHash.Lab.PngWriter
import HumanizedHash.Lab.PngWriterInverse
import HumanizedHash.Foundations.Fields
import HumanizedHash.Foundations.Numerals
import HumanizedHash.Raster.Tag
import HumanizedHash.Tools.Batch
import HumanizedHash.Tools.CommandLine
import HumanizedHash.Tools.Compare
import HumanizedHash.Foundations.Selection
import HumanizedHash.Foundations.Threads
import HumanizedHash.Lab.Candidate
import HumanizedHash.Lab.Grinding
import HumanizedHash.Lab.Lookalikes
import HumanizedHash.Lab.Sheet
