import ChapterCheck.Main
import ChapterCheck.Files.Tree
import ChapterCheck.Json.Quoted.RoundTrip
import ChapterCheck.Proofs.Acceptance
import ChapterCheck.Proofs.Founded
import ChapterCheck.Proofs.Locality
import ChapterCheck.Proofs.Truncation
import ChapterCheck.Proofs.Frame
import ChapterCheck.Proofs.Replacement
import ChapterCheck.Proofs.Relevance
import ChapterCheck.Proofs.Depth
import ChapterCheck.Proofs.OneLine
import ChapterCheck.Proofs.Refusals
import ChapterCheck.Proofs.Lines
import ChapterCheck.Proofs.Order
import ChapterCheck.Proofs.Distinct
import ChapterCheck.Proofs.Cascade
import ChapterCheck.Proofs.Workers
import ChapterCheck.Proofs.Decoded
import ChapterCheck.Proofs.Verdict
import ChapterCheck.Proofs.Accounts
import ChapterCheck.Proofs.Record
import ChapterCheck.Proofs.Restriction
import ChapterCheck.Proofs.Engines
import ChapterCheck.Proofs.Absence
import ChapterCheck.Proofs.Overlay
import ChapterCheck.Proofs.Readings
import ChapterCheck.Proofs.Serialized
