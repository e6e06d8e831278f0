import SchemaRegistry.Disk
import SchemaRegistry.Main
import SchemaRegistry.Wire.Encode
import SchemaRegistry.Workspace
import SchemaRegistry.Proofs.Leniency
import SchemaRegistry.Proofs.Reimport
import SchemaRegistry.Proofs.Stability
import SchemaRegistry.Proofs.Strict
import SchemaRegistry.Proofs.FileOrder
import SchemaRegistry.Proofs.LastWins
import SchemaRegistry.Proofs.Rounding
import SchemaRegistry.Proofs.WellTyped
import SchemaRegistry.Proofs.Escaping
import SchemaRegistry.Proofs.IntegerText
import SchemaRegistry.Proofs.FloatDefault
import SchemaRegistry.Proofs.FloatPrinting
import SchemaRegistry.Proofs.QuotedBytes
import SchemaRegistry.Proofs.Rereading
import SchemaRegistry.Proofs.Splitting
import SchemaRegistry.Proofs.Effect
import SchemaRegistry.Proofs.Warnings
import SchemaRegistry.Proofs.FullNames
import SchemaRegistry.Proofs.Faithful
import SchemaRegistry.Proofs.SearchPath
