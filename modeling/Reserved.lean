import Reserved.Spec.Parser
import Reserved.Table.Build
import Reserved.Table.Artifact
import Reserved.Table.Json
import Reserved.Hash.Digest
import Reserved.Generator.Input
import Reserved.Generator.Edit
import Reserved.Demo
import Reserved.Settings
import Reserved.Main
import Reserved.Proofs.Table.Search
import Reserved.Proofs.Text.Utf8
import Reserved.Proofs.Spec.Order
import Reserved.Proofs.Spec.Entry
import Reserved.Proofs.Spec.Parse
import Reserved.Proofs.Table.Verify
import Reserved.Proofs.Pipeline.Builtin
import Reserved.Proofs.Artifact.Source
import Reserved.Proofs.Artifact.RoundTrip
import Reserved.Proofs.Generator.Overlap
import Reserved.Proofs.Generator.Piece
import Reserved.Proofs.Generator.Independence
import Reserved.Proofs.Generator.AnyOrder
import Reserved.Proofs.Scanner.Keywords
import Reserved.Proofs.Table.Saved
import Reserved.Proofs.Files.Atomic
import Reserved.Proofs.Files.Astray
import Reserved.Proofs.Pipeline.External
import Reserved.Proofs.Spec.Lookup
import Reserved.Proofs.Generator.Leftover
import Reserved.Proofs.Files.Extension
import Reserved.Proofs.Spec.Size
import Reserved.Proofs.CommandLine
import Reserved.Proofs.Artifact.Digest
import Reserved.Proofs.Scanner.Lines
import Reserved.Proofs.Spec.Layout
import Reserved.Proofs.Generator.Input
import Reserved.Proofs.Pipeline.Staleness
import Reserved.Proofs.Scanner.Respaced
import Reserved.Proofs.Scanner.Isolation
import Reserved.Proofs.Text.Decode
import Reserved.Proofs.Json.Numeral
import Reserved.Proofs.Json.Quoted
import Reserved.Proofs.Json.Grammar
import Reserved.Proofs.Json.Skipped
import Reserved.Proofs.Json.Accepts
import Reserved.Proofs.Json.Record
import Reserved.Proofs.Table.Document
import Reserved.Proofs.Settings
import Reserved.Proofs.Table.Salt
