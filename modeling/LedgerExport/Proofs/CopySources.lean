import LedgerExport.Proofs.MovedKeys
import LedgerExport.Remote.Request

/-!
# Copy sources

The source of a copy stands in a header as the bucket and the key, the key in the form that a path
has in a URL. `copySource_exact` says that this text names just one object: it is decoded to the
bucket, a slash and the key, whatever characters the key has, and no other bucket and key have the
same text. A path consists of triples, of characters that stand for themselves and of the slashes of
the key (`isPath_encodePath`).

The proof goes over the bytes that a text in a URL stands for (`bytes`). A byte in its encoded form
gives back the byte in front of any rest (`bytes_encodeByte`), and so a path gives back the UTF-8
form of the key.
-/

namespace LedgerExport

namespace Text.Percent

/-- The bytes that a text in a URL stands for: a triple stands for the byte with its digits, and all
else for its UTF-8 form. -/
def bytes : List Char → List UInt8
  | '%' :: a :: b :: rest =>
    match hexValue? a, hexValue? b with
    | some high, some low => .ofNat (16 * high + low) :: bytes rest
    | _, _ => String.utf8EncodeChar '%' ++ bytes (a :: b :: rest)
  | c :: rest => String.utf8EncodeChar c ++ bytes rest
  | [] => []

/-- The text whose UTF-8 form a text in a URL stands for. -/
def decode? (s : String) : Option String := String.fromUTF8? (bytes s.toList).toByteArray

/-- The character is an ASCII letter, an ASCII digit or one of four marks. -/
def StandsForItself (c : Char) : Prop := c.isAlphanum = true ∨ c ∈ ['-', '_', '.', '~']

/-- The character is a hexadecimal digit, a letter in upper case. -/
def IsHexDigit (c : Char) : Prop := c.isDigit = true ∨ c ∈ ['A', 'B', 'C', 'D', 'E', 'F']

/-- The texts that a path in a URL may have. -/
inductive IsPath : List Char → Prop where
  /-- The empty path. -/
  | nil : IsPath []
  /-- A character that stands for itself. -/
  | plain {c : Char} {s : List Char} (hc : StandsForItself c) (hs : IsPath s) : IsPath (c :: s)
  /-- A percent sign and two digits. -/
  | triple {a b : Char} {s : List Char} (ha : IsHexDigit a) (hb : IsHexDigit b) (hs : IsPath s) :
    IsPath ('%' :: a :: b :: s)
  /-- A slash. -/
  | slash {s : List Char} (hs : IsPath s) : IsPath ('/' :: s)

variable {s rest : List Char} {c : Char}

/-! ## Bytes -/

/-- A character that is no percent sign stands for its UTF-8 form. -/
theorem bytes_cons (h : c ≠ '%') : bytes (c :: rest) = String.utf8EncodeChar c ++ bytes rest := by
  rw [bytes]
  rintro a b more rfl
  exact absurd rfl h

/-- A text without percent signs stands for its UTF-8 form. -/
theorem bytes_append (h : '%' ∉ s) :
    bytes (s ++ rest) = s.flatMap String.utf8EncodeChar ++ bytes rest := by
  induction s with
  | nil => rfl
  | cons c s ih =>
    rw [List.mem_cons, not_or] at h
    rw [List.cons_append, bytes_cons (Ne.symm h.1), ih h.2, List.flatMap_cons, List.append_assoc]

/-- A digit in upper case is read as the number below sixteen that it is the digit of. -/
theorem hexValue?_toUpper (n : Nat) :
    IsHexDigit (hexDigit n).toUpper ∧ hexValue? (hexDigit n).toUpper = some (n % 16) := by
  have hdigits : ∀ k < 16, IsHexDigit (Nat.digitChar k).toUpper ∧
      hexValue? (Nat.digitChar k).toUpper = some k := by
    unfold IsHexDigit
    decide
  exact hdigits (n % 16) (Nat.mod_lt n (by decide))

/-- A byte that is not encoded is the UTF-8 form of a character that stands for itself. -/
theorem utf8EncodeChar_unreserved (b : UInt8) (h : isUnreserved b = true) :
    StandsForItself (.ofNat b.toNat) ∧ String.utf8EncodeChar (.ofNat b.toNat) = [b] := by
  have hbyte : ∀ n < 256, isUnreserved (.ofNat n) = true →
      StandsForItself (.ofNat (UInt8.ofNat n).toNat) ∧
        String.utf8EncodeChar (.ofNat (UInt8.ofNat n).toNat) = [.ofNat n] := by
    unfold StandsForItself
    decide +kernel
  have hb := hbyte b.toNat b.toNat_lt_size
  rw [UInt8.ofNat_toNat] at hb
  exact hb h

/-- The two forms of a byte. In one it is the UTF-8 form of a character that stands for itself, in
the other its two digits follow a percent sign. -/
theorem encodeByte_cases (b : UInt8) :
    (∃ c, encodeByte b = [c] ∧ StandsForItself c ∧ String.utf8EncodeChar c = [b]) ∨
      ∃ x y, encodeByte b = ['%', x, y] ∧ IsHexDigit x ∧ IsHexDigit y ∧
        hexValue? x = some (b.toNat / 16) ∧ hexValue? y = some (b.toNat % 16) := by
  unfold encodeByte
  split
  · rename_i hb
    exact .inl ⟨_, rfl, utf8EncodeChar_unreserved b hb⟩
  · obtain ⟨hx, hhigh⟩ := hexValue?_toUpper (b.toNat / 16)
    obtain ⟨hy, hlow⟩ := hexValue?_toUpper (b.toNat % 16)
    rw [Nat.mod_eq_of_lt (Nat.div_lt_of_lt_mul b.toNat_lt_size)] at hhigh
    rw [Nat.mod_mod] at hlow
    exact .inr ⟨_, _, rfl, hx, hy, hhigh, hlow⟩

/-- No character that stands for itself is a percent sign or a slash. -/
theorem StandsForItself.ne (h : StandsForItself c) : c ≠ '%' ∧ c ≠ '/' := by
  constructor <;> rintro rfl <;> revert h <;> unfold StandsForItself <;> decide

/-- The form of a byte stands for the byte, whatever follows. -/
theorem bytes_encodeByte (b : UInt8) : bytes (encodeByte b ++ rest) = b :: bytes rest := by
  rcases encodeByte_cases b with ⟨c, hb, hc, hutf8⟩ | ⟨x, y, hb, -, -, hhigh, hlow⟩
  · rw [hb, List.singleton_append, bytes_cons hc.ne.1, hutf8, List.singleton_append]
  · rw [hb]
    show bytes ('%' :: x :: y :: rest) = _
    rw [bytes, hhigh, hlow]
    dsimp only
    rw [Nat.div_add_mod, UInt8.ofNat_toNat]

/-- The form of bytes stands for the bytes, whatever follows. -/
theorem bytes_flatMap (bs : List UInt8) :
    bytes (bs.flatMap encodeByte ++ rest) = bs ++ bytes rest := by
  induction bs with
  | nil => rfl
  | cons b bs ih =>
    rw [List.flatMap_cons, List.append_assoc, bytes_encodeByte, ih, List.cons_append]

/-- A path stands for the UTF-8 form of the text that it is made of. -/
theorem bytes_encodePath (s : List Char) :
    bytes (encodePath s) = s.flatMap String.utf8EncodeChar := by
  induction s with
  | nil => rfl
  | cons c s ih =>
    rw [encodePath, List.flatMap_cons, ← encodePath, List.flatMap_cons, ← ih]
    split
    · rename_i hc
      rw [hc, List.singleton_append, bytes_cons (by decide)]
    · rw [encode, List.flatMap_singleton, bytes_flatMap]

/-! ## Paths -/

/-- The form of bytes is part of a path, and holds no slash. -/
theorem isPath_flatMap (bs : List UInt8) (hrest : IsPath rest) :
    IsPath (bs.flatMap encodeByte ++ rest) ∧ (bs.flatMap encodeByte).count '/' = 0 := by
  induction bs with
  | nil => exact ⟨hrest, rfl⟩
  | cons b bs ih =>
    rw [List.flatMap_cons, List.append_assoc, List.count_append, ih.2, Nat.add_zero]
    rcases encodeByte_cases b with ⟨c, hb, hc, -⟩ | ⟨x, y, hb, hx, hy, -⟩
    · rw [hb]
      exact ⟨.plain hc ih.1, by simp [hc.ne.2]⟩
    · have hslash {z : Char} (hz : IsHexDigit z) : z ≠ '/' := by
        rintro rfl
        revert hz
        unfold IsHexDigit
        decide
      rw [hb]
      exact ⟨.triple hx hy ih.1, by simp [hslash hx, hslash hy]⟩

/-- A path has the characters that a path may have, and just the slashes of the text that it is
made of. -/
theorem isPath_encodePath (s : List Char) :
    IsPath (encodePath s) ∧ (encodePath s).count '/' = s.count '/' := by
  induction s with
  | nil => exact ⟨.nil, rfl⟩
  | cons c s ih =>
    rw [encodePath, List.flatMap_cons, ← encodePath, List.count_append, ih.2, List.count_cons]
    split
    · rename_i hc
      exact ⟨.slash ih.1, by simp [hc, Nat.add_comm]⟩
    · rename_i hc
      obtain ⟨hpath, hcount⟩ := isPath_flatMap ([c].flatMap String.utf8EncodeChar) ih.1
      exact ⟨hpath, by rw [encode, hcount]; simp [hc]⟩

/-- The UTF-8 form of a text is decoded to the text. -/
theorem fromUTF8?_flatMap (s : String) :
    String.fromUTF8? (s.toList.flatMap String.utf8EncodeChar).toByteArray = some s := by
  have hform : (s.toList.flatMap String.utf8EncodeChar).toByteArray = s.toUTF8 := by
    show s.toList.utf8Encode = s.toByteArray
    rw [← String.toByteArray_ofList, String.ofList_toList]
  rw [hform]
  exact dif_pos s.isValidUTF8

end Text.Percent

namespace Remote

open Text Percent

/-- The source of a copy is decoded to the bucket, a slash and the key. -/
theorem decode?_copySource {bucket key : String} (h : '%' ∉ bucket.toList) :
    Percent.decode? (copySource bucket key) = some (bucket ++ "/" ++ key) := by
  have hbytes : bytes (copySource bucket key).toList =
      (bucket ++ "/" ++ key).toList.flatMap String.utf8EncodeChar := by
    rw [copySource, String.toList_ofList, bytes_append h, bytes_cons (by decide),
      bytes_encodePath]
    simp
  rw [Percent.decode?, hbytes, fromUTF8?_flatMap]

/-- The source of a copy names just the object. It is decoded to the bucket, a slash and the key;
behind the bucket and a slash it is a path with the slashes of the key; and the source of another
object is another text. -/
theorem copySource_exact (bucket key : String) (hslash : '/' ∉ bucket.toList)
    (hpercent : '%' ∉ bucket.toList) :
    Percent.decode? (copySource bucket key) = some (bucket ++ "/" ++ key) ∧
      (∃ path, copySource bucket key = bucket ++ "/" ++ .ofList path ∧ IsPath path ∧
        path.count '/' = key.toList.count '/') ∧
      ∀ bucket' key', '/' ∉ bucket'.toList → '%' ∉ bucket'.toList →
        copySource bucket key = copySource bucket' key' → bucket = bucket' ∧ key = key' := by
  refine ⟨decode?_copySource hpercent, ⟨Percent.encodePath key.toList, ?_,
    isPath_encodePath key.toList⟩, fun bucket' key' hslash' hpercent' heq => ?_⟩
  · rw [copySource, String.ofList_append, String.ofList_cons, String.ofList_toList,
      String.append_assoc]
    rfl
  · have hnames : bucket ++ "/" ++ key = bucket' ++ "/" ++ key' := by
      rw [← Option.some_inj, ← decode?_copySource hpercent, heq, decode?_copySource hpercent']
    have hparts := congrArg String.toList hnames
    simp only [String.toList_append, List.append_assoc] at hparts
    obtain ⟨hbucket, hkey⟩ := append_slash_inj hslash hslash' hparts
    exact ⟨String.toList_inj.1 hbucket, String.toList_inj.1 hkey⟩

/-- A key with an empty segment, a blank, a letter outside ASCII and the digits of a triple, which
are not taken for a slash. -/
theorem copySource_of_percents :
    copySource "b" "/a b%2F/é" = "b//a%20b%252F/%C3%A9" ∧
      Percent.decode? "b//a%20b%252F/%C3%A9" = some "b//a b%2F/é" ∧
      copySource "b" "/a b//é" ≠ copySource "b" "/a b%2F/é" := by
  have htext : copySource "b" "/a b%2F/é" = "b//a%20b%252F/%C3%A9" := by decide +kernel
  obtain ⟨hdecode, -, hinjective⟩ := copySource_exact "b" "/a b%2F/é" (by decide) (by decide)
  refine ⟨htext, ?_, fun heq => ?_⟩
  · rw [← htext, hdecode]
    rfl
  · exact absurd (hinjective "b" "/a b//é" (by decide) (by decide) heq.symm).2 (by decide)

end Remote

end LedgerExport
