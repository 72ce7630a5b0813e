import LedgerExport.Failure
import LedgerExport.Job
import LedgerExport.Layout
import LedgerExport.Time.Spelling

/-!
# Settings

What an invocation is told from outside, by variables with a name and a value. Blank characters
around a value do not count, and a variable with a blank value is not set.
-/

namespace LedgerExport

open Text Time

/-- The settings of an invocation. -/
structure Settings where
  /-- The bucket of the exports. -/
  bucket : String
  /-- What the keys of the exports start with. -/
  keyPrefix : String
  /-- The ledger to export. -/
  ledger : String
  /-- The role that the service takes on to write. -/
  roleArn : String
  /-- Where the markers of exports that are done with are moved. -/
  archiveRoot : String
  /-- The key to encrypt with. -/
  kmsKeyArn : Option String
  /-- The start of the first window. -/
  epoch : Instant
  /-- The time that an invocation may take, in seconds. -/
  timeoutSeconds : Option UInt64
deriving DecidableEq, Repr

instance : Serial Settings where
  encode s := .obj [("bucket", .str s.bucket), ("prefix", .str s.keyPrefix),
    ("ledger_name", .str s.ledger), ("role_arn", .str s.roleArn),
    ("archive_root", .str s.archiveRoot), ("kms_key_arn", Json.orNull s.kmsKeyArn),
    ("epoch_start", encode s.epoch), ("invocation_timeout_secs", Json.orNull s.timeoutSeconds)]
  decode? j := do
    let [bucket, keyPrefix, ledger, roleArn, archiveRoot, kmsKeyArn, epoch, timeoutSeconds] ←
      j.fields? ["bucket", "prefix", "ledger_name", "role_arn", "archive_root", "kms_key_arn",
        "epoch_start", "invocation_timeout_secs"] | none
    return {
      bucket := ← Json.required bucket
      keyPrefix := ← Json.required keyPrefix
      ledger := ← Json.required ledger
      roleArn := ← Json.required roleArn
      archiveRoot := ← Json.required archiveRoot
      kmsKeyArn := ← Json.optional kmsKeyArn
      epoch := ← Json.required epoch
      timeoutSeconds := ← Json.optional timeoutSeconds }

/-- The variables that settings are read from. -/
inductive Variable where
  | bucket | keyPrefix | ledger | roleArn | archiveRoot | kmsKeyArn | epoch | timeout
deriving DecidableEq, Repr

/-- All variables. -/
def Variable.all : List Variable :=
  [bucket, keyPrefix, ledger, roleArn, archiveRoot, kmsKeyArn, epoch, timeout]

/-- The name of a variable. -/
def Variable.name : Variable → String
  | bucket => "ExportJournalBucket"
  | keyPrefix => "ExportJournalPrefix"
  | ledger => "QLDBName"
  | roleArn => "ExportJournalRole"
  | archiveRoot => "ExportArchiveRoot"
  | kmsKeyArn => "ExportKmsKeyArn"
  | epoch => "ExportEpochStart"
  | timeout => "ExportInvocationTimeoutSecs"

/-- Why a text is no count of seconds. -/
inductive CountError where
  /-- It is not made of digits. -/
  | notDigits
  /-- It does not fit in sixty-four bits. -/
  | tooLarge
deriving DecidableEq, Repr

/-- The wording. -/
def CountError.message : CountError → String
  | notDigits => "invalid digit found in string"
  | tooLarge => "number too large to fit in target type"

/-- The count that the digits read so far and those that follow stand for. The first character that
is no digit, or that makes the count too large, is what is wrong. -/
def continueCount (n : Nat) : List Char → Except CountError Nat
  | [] => .ok n
  | c :: rest =>
    if !c.isDigit then .error .notDigits
    else if n * 10 + ofDigits [c] < UInt64.size then continueCount (n * 10 + ofDigits [c]) rest
    else .error .tooLarge

/-- The count that digits stand for, with or without a plus in front. -/
def readCount (s : List Char) : Except CountError UInt64 :=
  match (dropPrefix? ['+'] s).getD s with
  | [] => .error .notDigits
  | ds => UInt64.ofNat <$> continueCount 0 ds

/-- Why variables make no settings. -/
inductive SettingsError where
  /-- A variable that is needed is not set. -/
  | notSet (v : Variable)
  /-- The start of the first window spells no time. -/
  | notATime (value : String)
  /-- The time that an invocation may take is no count. -/
  | notACount (reason : CountError)
deriving DecidableEq, Repr

/-- The wording. -/
def SettingsError.message : SettingsError → String
  | notSet v => s!"{v.name} is not set"
  | notATime value => s!"{Variable.epoch.name} is not a timestamp: '{value}'"
  | notACount reason => s!"{Variable.timeout.name} is not a number of seconds: {reason.message}"

/-- An environment: the values of the variables that are set. -/
abbrev Environment := String → Option String

namespace Environment

/-- The value of a variable without blank characters around it, unless nothing is left. -/
def value? (env : Environment) (v : Variable) : Option String :=
  ((env v.name).map trimmed).filter (· ≠ "")

/-- The value of a variable that is needed. -/
def require (env : Environment) (v : Variable) : Except SettingsError String :=
  match env.value? v with
  | some value => .ok value
  | none => .error (.notSet v)

/-- The start of the first window. -/
def epoch? (env : Environment) : Except SettingsError (Option Instant) :=
  match env.value? .epoch with
  | none => .ok none
  | some value =>
    match Instant.ofText? value with
    | some t => .ok (some t)
    | none => .error (.notATime value)

/-- The time that an invocation may take. -/
def timeout? (env : Environment) : Except SettingsError (Option UInt64) :=
  match env.value? .timeout with
  | none => .ok none
  | some value => (readCount value.toList |>.mapError .notACount).map some

end Environment

namespace Settings

/-- The start of the first window when nothing else is set: 2019-01-01T00:00:00Z. -/
def defaultEpoch : Instant where
  seconds := 1546300800
  nanos := 0
  inRange := by decide
  nanos_lt := Instant.start_lt

/-- The settings that an environment holds. -/
def load (env : Environment) : Except SettingsError Settings := do
  let keyPrefix ← env.require .keyPrefix
  let epoch ← env.epoch?
  let timeoutSeconds ← env.timeout?
  let bucket ← env.require .bucket
  let ledger ← env.require .ledger
  let roleArn ← env.require .roleArn
  return {
    bucket, keyPrefix, ledger, roleArn, timeoutSeconds
    archiveRoot := (env.value? .archiveRoot).getD keyPrefix
    kmsKeyArn := env.value? .kmsKeyArn
    epoch := epoch.getD defaultEpoch }

/-- Where markers lie, and where they are moved. -/
def layout (s : Settings) : Layout := .ofRoot s.keyPrefix s.archiveRoot

/-- Where exports are written. -/
def destination (s : Settings) : Destination := ⟨s.bucket, s.keyPrefix⟩

/-- How exports are encrypted. -/
def encryption (s : Settings) : Encryption :=
  match s.kmsKeyArn with
  | some keyArn => .kms keyArn
  | none => .unencrypted

/-- The time that an invocation may take, in milliseconds. -/
def limit (s : Settings) : Option Nat := s.timeoutSeconds.map fun n => n.toNat * 1000

/-- The request to export a window. -/
def request (s : Settings) (window : Window) : ExportRequest where
  ledger := s.ledger
  window := window
  destination := s.destination
  roleArn := s.roleArn
  encryption := s.encryption

end Settings

end LedgerExport
