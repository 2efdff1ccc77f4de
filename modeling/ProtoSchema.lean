import ProtoSchema.LineRules.Replay
import ProtoSchema.Main
import ProtoSchema.Proofs.Concatenation
import ProtoSchema.Proofs.FirstFailure
import ProtoSchema.Proofs.RoundTrip
import ProtoSchema.Proofs.SharedPackage
import ProtoSchema.Proofs.Layout
import ProtoSchema.Proofs.RejectedLines
import ProtoSchema.Proofs.SourceMap
import ProtoSchema.Proofs.Relocation
import ProtoSchema.Proofs.NeutralLines
import ProtoSchema.Proofs.HandedOut
import ProtoSchema.Proofs.SourceBytes
import ProtoSchema.Proofs.CommandOutcomes
import ProtoSchema.Proofs.DocumentReading
import ProtoSchema.Proofs.DefaultLiterals
import ProtoSchema.Proofs.EnumDeclarations
import ProtoSchema.Proofs.FailureLines
import ProtoSchema.Proofs.IdSearches
import ProtoSchema.Proofs.CommentBytes
import ProtoSchema.Proofs.Reprinting
import ProtoSchema.Proofs.EmptySchemas
import ProtoSchema.Proofs.NumberRanges
import ProtoSchema.Proofs.QuotedDefaults
import ProtoSchema.Proofs.EventLog
import ProtoSchema.Proofs.FieldLookup
import ProtoSchema.Proofs.TestOrder
import ProtoSchema.Proofs.SchemaPaths
