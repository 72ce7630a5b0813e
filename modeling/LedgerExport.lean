import LedgerExport.Assessment
import LedgerExport.Call
import LedgerExport.Failure
import LedgerExport.Invocation
import LedgerExport.Ion.Binary
import LedgerExport.Ion.Chunk
import LedgerExport.Ion.Decimal
import LedgerExport.Ion.Document
import LedgerExport.Ion.Gap
import LedgerExport.Ion.Json
import LedgerExport.Ion.Literal
import LedgerExport.Ion.Numeral
import LedgerExport.Ion.Quoted
import LedgerExport.Ion.Symbols
import LedgerExport.Ion.Text
import LedgerExport.Ion.Timestamp
import LedgerExport.Ion.Value
import LedgerExport.Ion.Word
import LedgerExport.Ion.Written
import LedgerExport.Job
import LedgerExport.Json.Basic
import LedgerExport.Json.Compact
import LedgerExport.Json.Serial
import LedgerExport.Layout
import LedgerExport.Main
import LedgerExport.Manifest
import LedgerExport.Marker
import LedgerExport.Outcome
import LedgerExport.Program
import LedgerExport.Proofs.Acceptances
import LedgerExport.Proofs.Calendar
import LedgerExport.Proofs.Calls
import LedgerExport.Proofs.Chronicles
import LedgerExport.Proofs.Completion
import LedgerExport.Proofs.Contiguity
import LedgerExport.Proofs.Declarations
import LedgerExport.Proofs.FaultFree
import LedgerExport.Proofs.ForeignMembers
import LedgerExport.Proofs.Gate
import LedgerExport.Proofs.Invocations
import LedgerExport.Proofs.JsonGrammar
import LedgerExport.Proofs.JsonReading
import LedgerExport.Proofs.JsonScalars
import LedgerExport.Proofs.JsonText
import LedgerExport.Proofs.Keys
import LedgerExport.Proofs.Minutes
import LedgerExport.Proofs.Numerals
import LedgerExport.Proofs.Observation
import LedgerExport.Proofs.Planning
import LedgerExport.Proofs.Readings
import LedgerExport.Proofs.Resubmission
import LedgerExport.Proofs.Spelling
import LedgerExport.Proofs.Storage
import LedgerExport.Proofs.Surveys
import LedgerExport.Proofs.Trace
import LedgerExport.Proofs.Turns
import LedgerExport.Relocation
import LedgerExport.Remote.Exchange
import LedgerExport.Remote.Request
import LedgerExport.Remote.Wire
import LedgerExport.Report
import LedgerExport.Settings
import LedgerExport.Survey
import LedgerExport.Text.Affix
import LedgerExport.Text.Base64
import LedgerExport.Text.Binary64
import LedgerExport.Text.Blank
import LedgerExport.Text.Digits
import LedgerExport.Text.Percent
import LedgerExport.Text.Reading
import LedgerExport.Time.Calendar
import LedgerExport.Time.Instant
import LedgerExport.Time.Span
import LedgerExport.Time.Spelling
import LedgerExport.Time.Written
import LedgerExport.Window
import LedgerExport.World.Basic
import LedgerExport.World.Jobs
import LedgerExport.World.Store
import LedgerExport.Proofs.Warrants
import LedgerExport.Proofs.Crowds
import LedgerExport.Proofs.Archiving
import LedgerExport.Proofs.Endings
import LedgerExport.Proofs.Deadlines
import LedgerExport.Proofs.Failures
import LedgerExport.Proofs.LookUps
import LedgerExport.Proofs.LiveMarkers
import LedgerExport.Proofs.Relocations
import LedgerExport.Proofs.Rivals
import LedgerExport.Proofs.Assessments
import LedgerExport.Proofs.Returns
import LedgerExport.Proofs.MovedKeys
import LedgerExport.Proofs.SentWindows
import LedgerExport.Proofs.Listings
import LedgerExport.Proofs.Timestamps
import LedgerExport.Proofs.OpenContainers
import LedgerExport.Proofs.FieldPlaces
import LedgerExport.Proofs.ManifestTimes
import LedgerExport.Proofs.CopySources
import LedgerExport.Proofs.Groups
import LedgerExport.Proofs.Environments
import LedgerExport.Proofs.LooseForms
