import LedgerExport.Ion.Chunk
import LedgerExport.Ion.Symbols
import LedgerExport.Text.Binary64

/-!
# Ion binary

The values that the bytes of the binary form stand for. Each value starts with a byte for its type
and its length; the bytes of a container are values in turn, each after the place of its name when
the container is a struct.
-/

namespace LedgerExport.Ion.Binary

open Text Time

/-- The unsigned number that bytes stand for, the most significant first. -/
def unsigned (bytes : List UInt8) : Nat := bytes.foldl (fun n b => n * 256 + b.toNat) 0

/-- The sign and the size of the number that bytes stand for; the first bit is the sign. -/
def signed : List UInt8 → Bool × Nat
  | [] => (false, 0)
  | b :: rest => (128 ≤ b.toNat, unsigned (.ofNat (b.toNat % 128) :: rest))

/-- The most bytes that a number of variable length may take. -/
def maxVarBytes : Nat := 9

/-- Reads seven bits of a number from each byte up to the first one whose high bit is set, which is
one of the next `count` bytes. -/
def varBits? (count n : Nat) : List UInt8 → Option (Nat × List UInt8)
  | [] => none
  | b :: rest =>
    let n := n * 128 + b.toNat % 128
    match count with
    | 0 => none
    | count + 1 => if 128 ≤ b.toNat then some (n, rest) else varBits? count n rest

/-- Reads an unsigned number of variable length. -/
def varUnsigned? (bytes : List UInt8) : Option (Nat × List UInt8) := varBits? maxVarBytes 0 bytes

/-- Reads a number of variable length with its sign, which is the second bit of the first byte. -/
def varSigned? : List UInt8 → Option ((Bool × Nat) × List UInt8)
  | [] => none
  | b :: rest =>
    let negative := 64 ≤ b.toNat % 128
    let n := b.toNat % 64
    if 128 ≤ b.toNat then some ((negative, n), rest)
    else (varBits? (maxVarBytes - 1) n rest).map fun (n, rest) => ((negative, n), rest)

/-- Reads unsigned numbers of variable length to the end of the bytes. -/
def varUnsigneds? (bytes : List UInt8) : Option (List Nat) :=
  if bytes.isEmpty then some []
  else
    match varUnsigned? bytes with
    | none => none
    | some (n, rest) =>
      if rest.length < bytes.length then (varUnsigneds? rest).map (n :: ·) else none
termination_by bytes.length

/-- A value in the binary form, cut off the bytes that follow it. -/
structure Part where
  /-- The code of its type. -/
  code : Nat
  /-- The other half of the first byte: a short length, or a word in itself. -/
  low : Nat
  /-- The bytes of the value. -/
  body : List UInt8
  /-- The bytes that follow it. -/
  rest : List UInt8

/-- Cuts the first value off. A length of fourteen says that the length follows in bytes of its
own, and so does a length of one for a struct; fifteen is the null value. -/
def cut? : List UInt8 → Option Part
  | [] => none
  | first :: bytes => do
    let code := first.toNat / 16
    let low := first.toNat % 16
    -- The low half of a truth value is the value itself, and no bytes follow.
    let (length, bytes) ←
      if low = 15 ∨ code = 1 then some (0, bytes)
      else if low = 14 ∨ code = 13 ∧ low = 1 then varUnsigned? bytes
      else some (low, bytes)
    if length ≤ bytes.length then some ⟨code, low, bytes.take length, bytes.drop length⟩ else none

/-- The kind of a type code. -/
def kind? : Nat → Option Kind
  | 0 => some .null
  | 1 => some .bool
  | 2 | 3 => some .int
  | 4 => some .float
  | 5 => some .decimal
  | 6 => some .timestamp
  | 7 => some .symbol
  | 8 => some .string
  | 9 => some .clob
  | 10 => some .blob
  | 11 => some .list
  | 12 => some .sexp
  | 13 => some .struct
  | _ => none

/-- The most bytes that a coefficient may take. -/
def maxCoefficientBytes : Nat := 2048

/-- The exponent and the signed coefficient of a decimal number. -/
def scaled? (bytes : List UInt8) : Option (Int × Bool × Nat) := do
  let ((negative, exponent), rest) ← varSigned? bytes
  if maxCoefficientBytes < rest.length then
    none
  return ((if negative then -exponent else exponent), signed rest)

/-- The decimal that bytes stand for; no bytes are zero. -/
def decimal? (bytes : List UInt8) : Option Decimal :=
  if bytes.isEmpty then some ⟨false, 0, 0⟩
  else (scaled? bytes).map fun (exponent, negative, n) => ⟨negative, n, exponent⟩

/-- The digits of a fraction of a second. -/
def fraction? (bytes : List UInt8) : Option (List Char) :=
  if bytes.isEmpty then some []
  else do
    let (exponent, negative, n) ← scaled? bytes
    -- A fraction of zero keeps its digits, and its sign is not looked at.
    if n = 0 then some (List.replicate (-exponent).toNat '0')
    else if !negative && (digits n).length ≤ (-exponent).toNat then
      some (paddedDigits (-exponent).toNat n)
    else none

/-- The local time that is `offset` minutes ahead of a day, an hour and a minute. -/
def localTime (d : Date) (hour minute : Nat) (offset : Int) : Date × Nat × Nat :=
  let minutes := d.toDays * 1440 + hour * 60 + minute + offset
  (.ofDays (minutes / 1440), (minutes % 1440 / 60).toNat, (minutes % 60).toNat)

/-- A timestamp whose fields are given in Coordinated Universal Time, with those of the local
time. -/
def toLocal : Timestamp → Timestamp
  | .minute d h m offset =>
    let (d, h, m) := localTime d h m (offset.getD 0)
    .minute d h m offset
  | .second d h m s fraction offset =>
    let (d, h, m) := localTime d h m (offset.getD 0)
    .second d h m s fraction offset
  | t => t

/-- Reads a part of a time, of which one byte is kept. -/
def byteField? (bytes : List UInt8) : Option (Nat × List UInt8) :=
  (varUnsigned? bytes).map fun (n, rest) => (n % 256, rest)

/-- The timestamp that bytes stand for, with its fields as they are given. Minus zero is the unknown
offset. The year is kept in sixteen bits, and the offset in thirty-two. -/
def fields? (bytes : List UInt8) : Option Timestamp := do
  let ((negative, n), bytes) ← varSigned? bytes
  -- More than thirty-two bits of an offset wrap around before the range is checked.
  let minutes : Int := Int.bmod (if negative then -n else n) UInt32.size
  let offset : Option Int := if negative && n = 0 then none else some minutes
  let (year, bytes) ← varUnsigned? bytes
  -- A timestamp may end behind any of its fields; the precision is the last one given.
  let year := year % 65536
  if bytes.isEmpty then
    return .year year
  let (month, bytes) ← byteField? bytes
  if bytes.isEmpty then
    return .month year month
  let (day, bytes) ← byteField? bytes
  let date : Date := ⟨year, month, day⟩
  if bytes.isEmpty then
    return .day date
  let (hour, bytes) ← byteField? bytes
  let (minute, bytes) ← byteField? bytes
  if bytes.isEmpty then
    return .minute date hour minute offset
  let (second, bytes) ← byteField? bytes
  return .second date hour minute second (← fraction? bytes) offset

/-- The timestamp that bytes stand for. The fields that are given must be in their ranges. -/
def timestamp? (bytes : List UInt8) : Option Timestamp :=
  ((fields? bytes).filter Timestamp.valid).map toLocal

/-- The value of a part that is no container. -/
def scalar? (p : Part) : Option (Value SymbolRef) :=
  if p.low = 15 then .null <$> kind? p.code
  else
    match p.code, p.low with
    | 1, 0 => some (.bool false)
    | 1, 1 => some (.bool true)
    | 2, _ => some (.int (unsigned p.body))
    -- There is no negative zero among the integers.
    | 3, _ => if unsigned p.body = 0 then none else some (.int (-unsigned p.body))
    | 4, 0 => some (.float 0)
    | 4, 4 => some (.float (Binary64.ofBinary32 (.ofNat (unsigned p.body))))
    | 4, 8 => some (.float (.ofNat (unsigned p.body)))
    | 5, _ => .decimal <$> decimal? p.body
    | 6, _ => .timestamp <$> timestamp? p.body
    | 7, _ => if p.body.length ≤ 8 then some (.symbol (.id (unsigned p.body))) else none
    | 8, _ => .string <$> String.fromUTF8? ⟨p.body.toArray⟩
    | 9, _ => some (.clob p.body)
    | 10, _ => some (.blob p.body)
    | _, _ => none

/-- The part is padding. -/
def Part.isPadding (p : Part) : Bool := p.code = 0 && p.low != 15

/-- The part is a container that is not null. -/
def Part.isContainer (p : Part) : Bool := 11 ≤ p.code && p.code ≤ 13 && p.low != 15

/-- The most bytes in front of an annotated value. -/
def maxHeaderBytes : Nat := 255

/-- The annotations of a wrapped value, and the bytes of that value, which fills the rest of the
wrapper and is neither padding nor wrapped itself. -/
def unwrap? (p : Part) (header : Nat) : Option (List Nat × List UInt8) := do
  let (length, inner) ← varUnsigned? p.body
  let names ← varUnsigneds? (inner.take length)
  let inner := inner.drop length
  let wrapped ← cut? inner
  if names.isEmpty || !wrapped.rest.isEmpty || wrapped.isPadding || wrapped.code = 14 ||
      maxHeaderBytes < header + (p.body.length - inner.length) then
    none
  return (names, inner)

/-- Where a sequence of bytes lies in its document. -/
structure Place where
  /-- The bytes of the document. -/
  size : Nat
  /-- The bytes of the document up to the end of the sequence. -/
  stop : Nat
  /-- The place behind the padding in front of the sequence, if there is padding. -/
  padded : Option Nat

namespace Place

/-- The place of the last `count` bytes. -/
def ofLast (place : Place) (count : Nat) : Nat := place.stop - count

/-- The end of a chunk cuts the part that follows padding: its head, and its body unless that is
read one value after the other. -/
def isCut (place : Place) (p : Part) : Bool :=
  place.padded.any fun start =>
    let behind := place.ofLast p.rest.length
    -- A container or a wrapper is read on from its head alone, other values with all of their body.
    let stop := if p.isContainer || p.code = 14 then behind - p.body.length else behind
    Chunk.nextEnd start < place.size && Chunk.cuts start stop

/-- The place of the bytes in front of the last `rest` of them. -/
def before (place : Place) (rest : Nat) : Place := { place with stop := place.ofLast rest }

/-- The place of a body in front of the last `rest` bytes, which follows no padding. -/
def body (place : Place) (rest : Nat) : Place := { place.before rest with padded := none }

/-- The place of what follows a part. -/
def behind (place : Place) (p : Part) : Place :=
  { place with padded := if p.isPadding then some (place.ofLast p.rest.length) else none }

end Place

/-- The values of a container, each with its name when the container is a struct; other values have
place zero for a name. Padding is passed over. -/
def values? (named : Bool) (place : Place) (bytes : List UInt8) :
    Option (List (SymbolRef × Value SymbolRef)) :=
  if bytes.isEmpty then some []
  else
    -- In a struct the place of the name comes in front of every value, padding included.
    match if named then varUnsigned? bytes else some (0, bytes) with
    | none => none
    | some (name, tail) =>
      match cut? tail with
      | none => none
      | some p =>
        if place.isCut p then none
        else if _h : p.body.length < bytes.length ∧ p.rest.length < bytes.length then do
          let inside := place.body p.rest.length
          let found : Option (Value SymbolRef) ←
            if p.isPadding then some none
            else if p.code = 11 ∧ p.low ≠ 15 then
              (values? false inside p.body).map fun vs => some (.list (vs.map (·.2)))
            else if p.code = 12 ∧ p.low ≠ 15 then
              (values? false inside p.body).map fun vs => some (.sexp (vs.map (·.2)))
            else if p.code = 13 ∧ p.low ≠ 15 then
              -- A struct with sorted fields has at least one of them.
              if p.low = 1 ∧ p.body.isEmpty then none
              else (values? true inside p.body).map fun vs => some (.struct vs)
            else if p.code = 14 then
              match unwrap? p (tail.length - p.body.length - p.rest.length) with
              | none => none
              | some (names, inner) =>
                -- The wrapped value is read as a sequence of one, in the same place as its wrapper.
                if _h : inner.length < bytes.length then
                  match values? false (place.before p.rest.length) inner with
                  | some [(_, v)] => some (some (.annotated (names.map .id) v))
                  | _ => none
                else none
            else (scalar? p).map some
          let more ← values? named (place.behind p) p.rest
          return (found.map (SymbolRef.id name, ·)).toList ++ more
        else none
termination_by bytes.length

/-- Cuts a version marker off the front. -/
def cutVersion? : List UInt8 → Option (Item × List UInt8)
  | 0xE0 :: major :: minor :: 0xEA :: rest => some (.version major.toNat minor.toNat, rest)
  | _ => none

/-- Cuts the first of the items at the end of a document off: a version marker, or a value if it is
no padding. Gives the place of what follows it. -/
def cutItem? (place : Place) (bytes : List UInt8) :
    Option (List Item × Place × List UInt8) :=
  match cutVersion? bytes with
  | some (item, rest) => some ([item], { place with padded := none }, rest)
  | none => do
    let p ← cut? bytes
    let values ← values? false (place.before p.rest.length)
      (bytes.take (bytes.length - p.rest.length))
    return (values.map (.value ·.2), place.behind p, p.rest)

/-- The items at the end of a document. -/
def itemsAt? (place : Place) (bytes : List UInt8) : Option (List Item) :=
  if bytes.isEmpty then some []
  else
    match cutItem? place bytes with
    | none => none
    | some (items, place, rest) =>
      if rest.length < bytes.length then (itemsAt? place rest).map (items ++ ·) else none
termination_by bytes.length

/-- The items of a document. -/
def items? (bytes : List UInt8) : Option (List Item) :=
  itemsAt? ⟨bytes.length, bytes.length, none⟩ bytes

end LedgerExport.Ion.Binary
