import LedgerExport.Proofs.Declarations
import LedgerExport.Proofs.FieldPlaces
import LedgerExport.Proofs.Timestamps

/-!
# The times of manifests

A time of a manifest is given as a timestamp or as a string. `Holds` says that a body holds one at a
place between two texts: some string there makes a manifest, and some other string makes the field
invalid. Then only the instant counts that the string or the timestamp stands for (`Holds.decides`),
so that the literal of a timestamp and its text in quotes make the same manifest, or none
(`ofBytes_literal_iff_string`). The proof follows the value from the place through the items and the
elements of the document: a string or a timestamp is passed over in the definition of a symbol table
(`define?_moment`), and it is left alone where symbols are looked up (`traverse_structWith`).

A literal whose fraction has so many digits that their logarithm counts too many is the exception:
it makes the body undecodable (`Holds.undecodable`).
-/

namespace LedgerExport

open Time Ion

namespace Ion

/-- What a time of a manifest is given as. -/
inductive Moment where
  /-- A string. -/
  | text (s : String)
  /-- A timestamp. -/
  | stamp (t : Timestamp)

namespace Moment

/-- The value that it is. -/
def value {σ : Type} : Moment → Value σ
  | text s => .string s
  | stamp t => .timestamp t

/-- The instant that it spells or denotes. -/
def instant? : Moment → Option Instant
  | text s => Instant.ofText? s
  | stamp t => Instant.ofChars? t.chars

end Moment

/-- A literal is read as its timestamp, if a stop character follows and its fraction is well
counted. -/
theorem writes_timestamp {t : Timestamp} {literal behind : List Char} (h : t.Spells literal)
    (hcounted : t.WellCounted) (hends : atStop behind = true) :
    Writes literal behind (.timestamp t) := by
  have hread := Timestamp.next?_of_spells h hcounted hends
  obtain ⟨c, rest, rfl, hc⟩ := Timestamp.exists_digit h
  exact ⟨List.cons_ne_nil _ _, opensValue_of_isDigit hc, hread⟩

variable {σ τ : Type} {f : σ → Option τ}

/-! ## Symbols -/

namespace Value

/-- Without the symbols in front of it there is the string or the timestamp. -/
theorem bare_moment (m : Moment) (names : List σ) :
    (m.value.withAnnotations names).bare = (m.value : Value σ) := by
  cases m <;> cases names <;> rfl

/-- The symbols in front of a value are replaced one by one. -/
theorem traverse_withAnnotations (f : σ → Option τ) (names : List σ) (v : Value σ) :
    (v.withAnnotations names).traverse f = do
      return (← v.traverse f).withAnnotations (← names.mapM f) := by
  cases names with
  | nil => cases hv : v.traverse f <;> simp [withAnnotations, hv]
  | cons name names =>
    show (do return Value.annotated (← (name :: names).mapM f) (← v.traverse f)) = _
    rw [List.mapM_cons]
    rcases f name with _ | name'
    · cases v.traverse f <;> rfl
    rcases names.mapM f with _ | names'
    · cases v.traverse f <;> rfl
    · cases v.traverse f <;> rfl

/-- The symbols of fields are replaced one by one. -/
theorem traverseFields_append (f : σ → Option τ) (fields more : List (σ × Value σ)) :
    traverseFields f (fields ++ more) = do
      return (← traverseFields f fields) ++ (← traverseFields f more) := by
  induction fields with
  | nil => cases h : traverseFields f more <;> simp [traverseFields, h]
  | cons field fields ih =>
    rw [List.cons_append, traverseFields, traverseFields, ih]
    rcases f field.1 with _ | name
    · rfl
    rcases field.2.traverse f with _ | v
    · rfl
    rcases traverseFields f fields with _ | fields'
    · rfl
    · cases traverseFields f more <;> rfl

/-- A string or a timestamp has no symbols in it. -/
theorem traverse_moment (f : σ → Option τ) (m : Moment) : m.value.traverse f = some m.value := by
  cases m <;> rfl

end Value

namespace SymbolTable

/-- The definition of a symbol table passes over a string or a timestamp. -/
theorem define?_moment (table : SymbolTable) (fields more : List (SymbolRef × Value SymbolRef))
    (name : SymbolRef) (names : List SymbolRef) (m : Moment) :
    table.define? (fields ++ (name, m.value.withAnnotations names) :: more) =
      table.define? (fields ++ more) := by
  have hvalues (place : Nat) :
      valuesAt place (fields ++ (name, m.value.withAnnotations names) :: more) =
        valuesAt place fields ++ ((if refersTo place name then [m.value] else []) ++
          valuesAt place more) := by
    by_cases hname : refersTo place name = true <;>
      simp [valuesAt, hname, Value.bare_moment]
  have hrest (place : Nat) :
      valuesAt place (fields ++ more) = valuesAt place fields ++ valuesAt place more := by
    simp [valuesAt]
  have hlist : isList (m.value : Value SymbolRef) = false := by cases m <;> rfl
  have himported : imported? (m.value : Value SymbolRef) = none := by cases m <;> rfl
  have hlisted : listed? (m.value : Value SymbolRef) = none := by cases m <;> rfl
  have hany : (valuesAt 6 (fields ++ (name, m.value.withAnnotations names) :: more)).any isList =
      (valuesAt 6 (fields ++ more)).any isList := by
    rw [hvalues, hrest]
    split <;> simp [hlist]
  have himports : (valuesAt 6 (fields ++ (name, m.value.withAnnotations names) :: more)).filterMap
      imported? = (valuesAt 6 (fields ++ more)).filterMap imported? := by
    rw [hvalues, hrest]
    split <;> simp [himported]
  have hsymbols : (valuesAt 7 (fields ++ (name, m.value.withAnnotations names) :: more)).filterMap
      listed? = (valuesAt 7 (fields ++ more)).filterMap listed? := by
    rw [hvalues, hrest]
    split <;> simp [hlisted]
  unfold define?
  simp only [hany, himports, hsymbols]

end SymbolTable

/-! ## Elements -/

/-- The items in front of others either cannot be read, or they stand for some elements and leave a
symbol table, whatever follows. -/
theorem elements?_append (table : SymbolTable) (items : List Item) :
    (∀ later, elements? table (items ++ later) = none) ∨
      ∃ vs table', ∀ later, elements? table (items ++ later) =
        (elements? table' later).map (vs ++ ·) := by
  induction items generalizing table with
  | nil => exact .inr ⟨[], table, fun later => by simp⟩
  | cons item items ih =>
    rcases item with ⟨major, minor⟩ | v
    · by_cases hversion : major = 1 ∧ minor = 0
      · obtain ⟨rfl, rfl⟩ := hversion
        exact ih .system
      · refine .inl fun later => ?_
        rw [List.cons_append, elements?]
        exact fun h₁ h₂ => hversion ⟨h₁, h₂⟩
    · rcases hdefinition : SymbolTable.definition? v with _ | fields
      · rcases htraverse : v.traverse table.lookup? with _ | v'
        · exact .inl fun later => by simp [elements?, hdefinition, htraverse]
        rcases ih table with hnone | ⟨vs, table', hsome⟩
        · exact .inl fun later => by simp [elements?, hdefinition, htraverse, hnone]
        · refine .inr ⟨v' :: vs, table', fun later => ?_⟩
          simp only [List.cons_append, elements?, hdefinition, htraverse, hsome]
          cases elements? table' later <;> rfl
      · rcases hdefine : table.define? fields with _ | table'
        · exact .inl fun later => by simp [elements?, hdefinition, hdefine]
        rcases ih table' with hnone | ⟨vs, table'', hsome⟩
        · exact .inl fun later => by simp [elements?, hdefinition, hdefine, hnone]
        · exact .inr ⟨vs, table'', fun later => by
            simp [elements?, hdefinition, hdefine, hsome]⟩

/-- The element of a document that holds exactly one. -/
def sole? : List Element → Option Element
  | [v] => some v
  | _ => none

/-- A struct with a string or a timestamp in a field. -/
def structWith {σ : Type} (names : List σ) (fields more : List (σ × Value σ)) (name : σ)
    (marks : List σ) (m : Moment) : Value σ :=
  (Value.struct (fields ++ (name, m.value.withAnnotations marks) :: more)).withAnnotations names

/-- The symbols of a struct with a string or a timestamp in a field are looked up, or one of them
cannot be, whatever the string or the timestamp is. -/
theorem traverse_structWith (f : σ → Option τ) (names : List σ) (fields more : List (σ × Value σ))
    (name : σ) (marks : List σ) :
    (∀ m, (structWith names fields more name marks m).traverse f = none) ∨
      ∃ names' fields' more' name' marks', ∀ m,
        (structWith names fields more name marks m).traverse f =
          some (structWith names' fields' more' name' marks' m) := by
  have htraverse (m : Moment) : (structWith names fields more name marks m).traverse f = do
      let fields' ← Value.traverseFields f fields
      let name' ← f name
      let marks' ← marks.mapM f
      let more' ← Value.traverseFields f more
      let names' ← names.mapM f
      return structWith names' fields' more' name' marks' m := by
    rw [structWith, Value.traverse_withAnnotations, Value.traverse, Value.traverseFields_append,
      Value.traverseFields, Value.traverse_withAnnotations, Value.traverse_moment]
    rcases Value.traverseFields f fields with _ | fields'
    · rfl
    rcases f name with _ | name'
    · rfl
    rcases marks.mapM f with _ | marks'
    · rfl
    rcases Value.traverseFields f more with _ | more'
    · rfl
    cases names.mapM f <;> rfl
  simp only [htraverse]
  rcases Value.traverseFields f fields with _ | fields'
  · exact .inl fun _ => rfl
  rcases f name with _ | name'
  · exact .inl fun _ => rfl
  rcases marks.mapM f with _ | marks'
  · exact .inl fun _ => rfl
  rcases Value.traverseFields f more with _ | more'
  · exact .inl fun _ => rfl
  rcases names.mapM f with _ | names'
  · exact .inl fun _ => rfl
  · exact .inr ⟨names', fields', more', name', marks', fun _ => rfl⟩

/-- Whether a struct defines a symbol table does not depend on a string or a timestamp in it. -/
theorem definition?_structWith (names : List SymbolRef)
    (fields more : List (SymbolRef × Value SymbolRef)) (name : SymbolRef) (marks : List SymbolRef) :
    (∀ m, SymbolTable.definition? (structWith names fields more name marks m) = none) ∨
      ∀ m, SymbolTable.definition? (structWith names fields more name marks m) =
        some (fields ++ (name, m.value.withAnnotations marks) :: more) := by
  rcases names with _ | ⟨first, names⟩
  · exact .inl fun m => rfl
  have hdefinition (m : Moment) :
      SymbolTable.definition? (structWith (first :: names) fields more name marks m) =
        if SymbolTable.refersTo 3 first then
          some (fields ++ (name, m.value.withAnnotations marks) :: more)
        else none := rfl
  by_cases hfirst : SymbolTable.refersTo 3 first = true
  · exact .inr fun m => (hdefinition m).trans (if_pos hfirst)
  · exact .inl fun m => (hdefinition m).trans (if_neg hfirst)

/-- A document does not depend on a string or a timestamp in a field, or it holds the struct with
it alone. -/
theorem sole?_structWith (items later : List Item) (names : List SymbolRef)
    (fields more : List (SymbolRef × Value SymbolRef)) (name : SymbolRef) (marks : List SymbolRef) :
    (∃ e, ∀ m, (elements? .system (items ++ .value (structWith names fields more name marks m) ::
      later)).bind sole? = e) ∨
      ∃ names' fields' more' name' marks', ∀ m,
        (elements? .system (items ++ .value (structWith names fields more name marks m) ::
          later)).bind sole? = some (structWith names' fields' more' name' marks' m) := by
  rcases elements?_append .system items with hnone | ⟨vs, table, hsome⟩
  · exact .inl ⟨none, fun m => by rw [hnone]; rfl⟩
  simp only [hsome, elements?]
  rcases definition?_structWith names fields more name marks with hvalue | htable
  · simp only [hvalue]
    rcases traverse_structWith table.lookup? names fields more name marks with hnone | ⟨names',
      fields', more', name', marks', hread⟩
    · exact .inl ⟨none, fun m => by rw [hnone]; rfl⟩
    simp only [hread]
    rcases elements? table later with _ | es
    · exact .inl ⟨none, fun m => rfl⟩
    rcases vs with _ | ⟨v, vs⟩
    · rcases es with _ | ⟨e, es⟩
      · exact .inr ⟨names', fields', more', name', marks', fun m => rfl⟩
      · exact .inl ⟨none, fun m => rfl⟩
    · refine .inl ⟨none, fun m => ?_⟩
      cases vs <;> rfl
  · simp only [htable, SymbolTable.define?_moment]
    exact .inl ⟨_, fun m => rfl⟩

end Ion

namespace Manifest

variable {fields more : List (Option String × Element)} {name : Option String}
  {marks : List (Option String)} {field : String}

/-! ## Manifests -/

/-- The last field with a name stands behind another field, it is that field, or it stands in front
of it. -/
theorem lastField?_append (fields more : List (Option String × Element)) (name : Option String)
    (v : Element) (field : String) :
    lastField? (fields ++ (name, v) :: more) field =
      (lastField? more field).or
        (if name = some field then some v else lastField? fields field) := by
  simp only [lastField?, List.reverse_append, List.reverse_cons, List.find?_append]
  by_cases hname : name = some field <;>
    cases more.reverse.find? fun x => decide (x.1 = some field) <;> simp [hname]

/-- The last field with a name does not depend on the value of another field, or it has that
value. -/
theorem lastField?_cases (fields more : List (Option String × Element)) (name : Option String)
    (field : String) :
    (∃ last, ∀ v, lastField? (fields ++ (name, v) :: more) field = last) ∨
      (name = some field ∧ ∀ v, lastField? (fields ++ (name, v) :: more) field = some v) := by
  simp only [lastField?_append]
  rcases lastField? more field with _ | last
  · by_cases hname : name = some field
    · exact .inr ⟨hname, fun v => if_pos hname⟩
    · exact .inl ⟨_, fun v => if_neg hname⟩
  · exact .inl ⟨_, fun v => rfl⟩

/-- A string or a timestamp has the meaning of the instant that it spells or denotes. -/
theorem instant?_moment (m : Moment) (marks : List (Option String)) :
    Element.instant? (m.value.withAnnotations marks) = m.instant? := by
  cases m <;> cases marks <;> rfl

/-- A field that must be there does not depend on a string or a timestamp in a field, or it has that
value. -/
theorem requiredField_cases {α : Type} (fields more : List (Option String × Element))
    (name : Option String) (field : String) (meaning : Element → Option α) :
    (∀ v v', requiredField (fields ++ (name, v) :: more) field meaning =
        requiredField (fields ++ (name, v') :: more) field meaning) ∨
      (name = some field ∧ ∀ v, requiredField (fields ++ (name, v) :: more) field meaning =
        interpret field meaning v) := by
  unfold requiredField
  rcases lastField?_cases fields more name field with ⟨last, hlast⟩ | ⟨hname, hlast⟩
  · simp only [hlast]
    exact .inl fun v v' => trivial
  · simp only [hlast]
    exact .inr ⟨hname, fun v => trivial⟩

/-- A field that may be missing does not depend on a value that is not null in a field, or it has
that value. -/
theorem optionalField_cases {α : Type} (fields more : List (Option String × Element))
    (name : Option String) (field : String) (meaning : Element → Option α) :
    (∀ v v', optionalField (fields ++ (name, v) :: more) field meaning =
        optionalField (fields ++ (name, v') :: more) field meaning) ∨
      (name = some field ∧ ∀ v, v.isNull = false →
        optionalField (fields ++ (name, v) :: more) field meaning =
          some <$> interpret field meaning v) := by
  unfold optionalField
  rcases lastField?_cases fields more name field with ⟨last, hlast⟩ | ⟨hname, hlast⟩
  · simp only [hlast]
    exact .inl fun v v' => trivial
  · simp only [hlast]
    exact .inr ⟨hname, fun v hv => by simp [Option.filter, hv]⟩

/-- The manifest that a string or a timestamp makes of a struct by the instant that it spells or
denotes, or the reason that it is none. -/
def decided (build : Instant → Manifest) (field : String) (marks : List (Option String))
    (m : Moment) : Except ManifestError Manifest :=
  match m.instant? with
  | some i => .ok (build i)
  | none => .error (.invalid field (Element.written (m.value.withAnnotations marks)))

/-- The field is the one whose time is decided. -/
theorem eq_of_decided {build : Instant → Manifest} {field' reason : String} {m : Moment}
    (h : decided build field marks m = .error (.invalid field' reason)) : field = field' := by
  unfold decided at h
  split at h
  · cases h
  · exact (ManifestError.invalid.inj (Except.error.inj h)).1

/-- A string or a timestamp that is the value of a field is read as its instant. -/
theorem interpret_moment (field : String) (marks : List (Option String)) (m : Moment) :
    interpret field Element.instant? (m.value.withAnnotations marks) =
      match m.instant? with
      | some i => .ok i
      | none => .error (.invalid field (Element.written (m.value.withAnnotations marks))) := by
  rw [interpret, instant?_moment]
  cases m.instant? <;> rfl

/-- A string is the text of the field that it is the value of. -/
theorem interpret_text (field : String) (marks : List (Option String)) (s : String) :
    interpret field Element.text? ((Moment.text s).value.withAnnotations marks) = .ok s := by
  cases marks <;> rfl

/-- A manifest is made of the meanings of three fields. -/
theorem ofElement_structWith_eq (names : List (Option String))
    (fields more : List (Option String × Element)) (name : Option String)
    (marks : List (Option String)) (m : Moment) :
    ofElement (structWith names fields more name marks m) = do
      let all := fields ++ (name, m.value.withAnnotations marks) :: more
      let exportId ← requiredField all "exportId" Element.text?
      let stop ← requiredField all "exclusiveEndTime" Element.instant?
      let start ← optionalField all "inclusiveStartTime" Element.instant?
      return ⟨exportId, stop, start⟩ := by
  have hfields : Element.fields? (structWith names fields more name marks m) =
      some (fields ++ (name, m.value.withAnnotations marks) :: more) := by
    cases names <;> rfl
  rw [ofElement, hfields]

/-- The three fields of a manifest have a meaning. -/
theorem fields_of_structWith {names : List (Option String)} {m : Moment} {manifest : Manifest}
    (h : ofElement (structWith names fields more name marks m) = .ok manifest) :
    requiredField (fields ++ (name, m.value.withAnnotations marks) :: more) "exportId"
        Element.text? = .ok manifest.exportId ∧
      requiredField (fields ++ (name, m.value.withAnnotations marks) :: more) "exclusiveEndTime"
        Element.instant? = .ok manifest.stop ∧
      optionalField (fields ++ (name, m.value.withAnnotations marks) :: more) "inclusiveStartTime"
        Element.instant? = .ok manifest.start := by
  rw [ofElement_structWith_eq] at h
  dsimp only at h
  rcases hid : requiredField (fields ++ (name, m.value.withAnnotations marks) :: more) "exportId"
    Element.text? with e | exportId <;> rw [hid] at h
  · cases h
  rcases hstop : requiredField (fields ++ (name, m.value.withAnnotations marks) :: more)
    "exclusiveEndTime" Element.instant? with e | stop <;> rw [hstop] at h
  · cases h
  rcases hstart : optionalField (fields ++ (name, m.value.withAnnotations marks) :: more)
    "inclusiveStartTime" Element.instant? with e | start <;> rw [hstart] at h
  · cases h
  · cases h
    exact ⟨rfl, rfl, rfl⟩

/-- Where one string in a field of a struct makes a manifest, and another is the reason that a field
is invalid, the instant decides. -/
theorem ofElement_structWith {names : List (Option String)} {s₁ s₂ reason : String}
    {manifest : Manifest}
    (hok : ofElement (structWith names fields more name marks (.text s₁)) = .ok manifest)
    (herror : ofElement (structWith names fields more name marks (.text s₂)) =
      .error (.invalid field reason)) :
    ∃ build : Instant → Manifest, ∀ m,
      ofElement (structWith names fields more name marks m) = decided build field marks m := by
  obtain ⟨hid₁, hstop₁, hstart₁⟩ := fields_of_structWith hok
  have hid := requiredField_cases fields more name "exportId" Element.text?
  -- The name of the field is that of one of the two times at most.
  rcases requiredField_cases fields more name "exclusiveEndTime" Element.instant? with
    hstop | ⟨hname, hstop⟩
  · have hstop (m : Moment) := (hstop (m.value.withAnnotations marks) _).trans hstop₁
    rcases optionalField_cases fields more name "inclusiveStartTime" Element.instant? with
      hstart | ⟨hname, hstart⟩
    · -- Without one, the other string would make a manifest as well.
      have hstart (m : Moment) := (hstart (m.value.withAnnotations marks) _).trans hstart₁
      obtain ⟨exportId, hid₂⟩ : ∃ exportId, requiredField
          (fields ++ (name, (Moment.text s₂).value.withAnnotations marks) :: more) "exportId"
            Element.text? = .ok exportId := by
        rcases hid with hid | ⟨-, hid⟩
        · exact ⟨_, (hid _ _).trans hid₁⟩
        · exact ⟨s₂, (hid _).trans (interpret_text ..)⟩
      rw [ofElement_structWith_eq] at herror
      simp only [hid₂, hstop, hstart] at herror
      cases herror
    · rcases hid with hid | ⟨hname', -⟩
      · have hid (m : Moment) := (hid (m.value.withAnnotations marks) _).trans hid₁
        have hnull (m : Moment) : Element.isNull (m.value.withAnnotations marks) = false := by
          cases m <;> cases marks <;> rfl
        have hdecided (m : Moment) : ofElement (structWith names fields more name marks m) =
            decided (fun i => ⟨manifest.exportId, manifest.stop, some i⟩) "inclusiveStartTime" marks
              m := by
          rw [ofElement_structWith_eq, decided]
          simp only [hid, hstop, hstart _ (hnull m), interpret_moment]
          cases m.instant? <;> rfl
        obtain rfl := eq_of_decided ((hdecided _).symm.trans herror)
        exact ⟨_, hdecided⟩
      · exact absurd (hname.symm.trans hname') (by decide)
  · rcases hid with hid | ⟨hname', -⟩
    · rcases optionalField_cases fields more name "inclusiveStartTime" Element.instant? with
        hstart | ⟨hname', -⟩
      · have hid (m : Moment) := (hid (m.value.withAnnotations marks) _).trans hid₁
        have hstart (m : Moment) := (hstart (m.value.withAnnotations marks) _).trans hstart₁
        have hdecided (m : Moment) : ofElement (structWith names fields more name marks m) =
            decided (fun i => ⟨manifest.exportId, i, manifest.start⟩) "exclusiveEndTime" marks
              m := by
          rw [ofElement_structWith_eq, decided]
          simp only [hid, hstop, hstart, interpret_moment]
          cases m.instant? <;> rfl
        obtain rfl := eq_of_decided ((hdecided _).symm.trans herror)
        exact ⟨_, hdecided⟩
      · exact absurd (hname.symm.trans hname') (by decide)
    · exact absurd (hname.symm.trans hname') (by decide)

/-! ## Bodies -/

/-- The manifest that the items of a document stand for. -/
def ofItems (items : List Item) : Except ManifestError Manifest :=
  match (elements? .system items).bind sole? with
  | none => .error .undecodable
  | some v => ofElement v

/-- The manifest that a text holds is that of its items. -/
theorem ofBytes_text (s : List Char) : ofBytes (String.ofList s).toUTF8 =
    match ofText? (.ofList s) with
    | none => .error .undecodable
    | some items => ofItems items := by
  have htext : String.fromUTF8? (String.ofList s).toUTF8 = some (String.ofList s) :=
    dif_pos (String.ofList s).isValidUTF8
  have helement : Element.ofBytes? (String.ofList s).toUTF8 =
      (ofText? (.ofList s)).bind fun items => (elements? .system items).bind sole? := by
    rw [Element.ofBytes?, items?, not_binary, htext]
    rfl
  rw [ofBytes, helement]
  cases ofText? (.ofList s) <;> rfl

/-- The manifest that a body holds depends on the value that stands between two texts, which is a
time of it: in the field of that name a string makes a manifest there, and another string makes the
field invalid. -/
structure Holds (field : String) (before behind : List Char) : Prop where
  /-- The value of a field of a struct stands behind the first text. -/
  place : ∃ place : Place, place.Follows before
  /-- A string makes a manifest. -/
  accepted : ∃ w s m, Writes w behind (.string s) ∧
    ofBytes (String.ofList (before ++ (w ++ behind))).toUTF8 = .ok m
  /-- A string is the reason that the field is invalid. -/
  refused : ∃ w s reason, Writes w behind (.string s) ∧
    ofBytes (String.ofList (before ++ (w ++ behind))).toUTF8 = .error (.invalid field reason)

variable {before behind w literal : List Char}

/-- A body that can be decoded holds the items that are read of it in one piece. -/
theorem items_of_ofBytes {place : Place} {v : Value SymbolRef} {r : Except ManifestError Manifest}
    (hplace : place.Follows before) (hw : Writes w behind v)
    (h : ofBytes (String.ofList (before ++ (w ++ behind))).toUTF8 = r)
    (hr : r ≠ .error .undecodable) :
    ∃ items, place.goesOn behind v = some items ∧ ofItems items = r := by
  rw [ofBytes_text] at h
  rcases htext : ofText? (.ofList (before ++ (w ++ behind))) with _ | items <;> rw [htext] at h
  · exact absurd h.symm hr
  · exact ⟨items, (hplace.inOnePiece?_scalar hw).symm.trans (inOnePiece?_of_ofText? htext), h⟩

/-- The instant that a string or a timestamp spells or denotes decides what a body is that holds
it as a time. -/
theorem Holds.decides (h : Holds field before behind) :
    ∃ (build : Instant → Manifest) (marks : List (Option String)), ∀ w (m : Moment),
      Writes w behind m.value → Unbroken (before ++ (w ++ behind)) →
        ofBytes (String.ofList (before ++ (w ++ behind))).toUTF8 = decided build field marks m := by
  obtain ⟨⟨place, hplace⟩, ⟨w₁, s₁, manifest, hw₁, hok⟩, w₂, s₂, reason, hw₂, herror⟩ := h
  obtain ⟨items₁, hgoes₁, hok⟩ := items_of_ofBytes hplace hw₁ hok nofun
  obtain ⟨items₂, hgoes₂, herror⟩ := items_of_ofBytes hplace hw₂ herror nofun
  rcases place.reads_or_fails behind with hfails | ⟨more, later, hfollow⟩
  · rw [hfails] at hgoes₁
    cases hgoes₁
  have hfilled (m : Moment) : place.filled more later m.value = place.items.reverse ++
      .value (structWith place.names place.earlier.reverse more place.name place.marks m) ::
        later := rfl
  obtain rfl := Option.some.inj ((hfollow (Moment.text s₁).value).symm.trans hgoes₁)
  obtain rfl := Option.some.inj ((hfollow (Moment.text s₂).value).symm.trans hgoes₂)
  rw [hfilled, ofItems] at hok herror
  rcases sole?_structWith place.items.reverse later place.names place.earlier.reverse more
    place.name place.marks with ⟨e, hsole⟩ | ⟨names, fields, more', name, marks, hsole⟩
  · -- If the document did not depend on the value, both strings would make the same of it.
    rw [hsole] at hok herror
    cases hok.symm.trans herror
  · rw [hsole] at hok herror
    obtain ⟨build, hbuild⟩ := ofElement_structWith hok herror
    refine ⟨build, marks, fun w m hw hpiece => ?_⟩
    rw [ofBytes_text, hpiece, hplace.inOnePiece?_scalar hw, hfollow, hfilled]
    dsimp only
    rw [ofItems, hsole]
    exact hbuild m

/-! ## A sample -/

open FlatObject (isBlank_nil)

/-- The text of an object up to the value of its second member. -/
def sampleFront : List Char := "\x7b\"exportId\":\"a\",\"exclusiveEndTime\":".toList

/-- A string in quotes makes a JSON object of the sample. -/
theorem spells_sample {s : List Char} (h : s.all Quoted.isPlain = true) :
    Json.Spells (.value (.obj [("exportId", .str "a"), ("exclusiveEndTime", .str (.ofList s))]))
      (sampleFront ++ ('"' :: s ++ ['"'] ++ ['\x7d'])) := by
  have hid : Json.Spells (.value (.str (.ofList ['a']))) ('"' :: ['a'] ++ ['"']) :=
    .str (Quoted.spells_self (by decide))
  have hstop : Json.Spells (.value (.str (.ofList s))) ('"' :: s ++ ['"']) :=
    .str (Quoted.spells_self h)
  have hobj := Json.Spells.obj isBlank_nil (.moreMembers
    (Quoted.spells_self (s := "exportId".toList) (by decide)) isBlank_nil isBlank_nil hid
      isBlank_nil isBlank_nil (.lastMember
        (Quoted.spells_self (s := "exclusiveEndTime".toList) (by decide)) isBlank_nil isBlank_nil
          hstop isBlank_nil))
  simp only [List.append_assoc, List.cons_append, List.nil_append, List.append_nil] at hobj ⊢
  exact hobj

/-- With a string the sample is read as a JSON object. -/
theorem ofBytes_sample {s : List Char} (h : s.all Quoted.isPlain = true) :
    ofBytes (String.ofList (sampleFront ++ ('"' :: s ++ ['"'] ++ ['\x7d']))).toUTF8 =
      ofElement (.ofJson some
        (.obj [("exportId", .str "a"), ("exclusiveEndTime", .str (.ofList s))])) := by
  have hread := ofBytes?_json (spells_sample h) isBlank_nil isBlank_nil
  rw [List.nil_append, List.append_nil] at hread
  rw [ofBytes, hread]

/-- The sample holds the end of the window. -/
theorem holds_sample : Holds "exclusiveEndTime" sampleFront ['\x7d'] where
  place := by
    have hvalue : ReadsAs (.ofJson .text (.str (.ofList ['a']))) ('"' :: (['a'] ++ ['"'])) :=
      readsAs_str (Quoted.spells_self (by decide))
    have hopen := isOpen_brace.member hvalue
      (Quoted.spells_self (s := "exportId".toList) (by decide)) isBlank_nil isBlank_nil isBlank_nil
      isBlank_nil
    exact ⟨_, hopen.follows (Quoted.spells_self (s := "exclusiveEndTime".toList) (by decide))
      isBlank_nil isBlank_nil isBlank_nil⟩
  accepted := by
    refine ⟨_, _, ⟨"a", ⟨1672531200, 0, by decide, by decide⟩, none⟩,
      writes_quoted (Quoted.spells_self (s := "2023-01-01T00:00Z".toList) (by decide)) _, ?_⟩
    rw [ofBytes_sample (by decide)]
    decide +kernel
  refused := by
    refine ⟨_, _, Element.written (.string "?"),
      writes_quoted (Quoted.spells_self (s := ['?']) (by decide)) _, ?_⟩
    rw [ofBytes_sample (by decide)]
    decide +kernel

/-- A brace ends a literal. -/
theorem atStop_brace : atStop ['\x7d'] = true := by
  simp [atStop, isStop, isSpace, String.contains_char_eq]

/-! ## The two ways to give a time -/

/-- The two ways to give a time agree: a body with the literal of a timestamp as a time of it is a
manifest just when the body with the text of the literal as a string is, and then it is the same
manifest. Both are manifests just when the timestamp tells the minute. -/
theorem ofBytes_literal_iff_string {t : Timestamp} (h : Holds field before behind)
    (ht : t.Spells literal) (hcounted : t.WellCounted) (hends : atStop behind = true)
    (hw : Writes w behind (.string (.ofList literal)))
    (hliteral : Unbroken (before ++ (literal ++ behind)))
    (hstring : Unbroken (before ++ (w ++ behind))) :
    (∀ m, ofBytes (String.ofList (before ++ (literal ++ behind))).toUTF8 = .ok m ↔
        ofBytes (String.ofList (before ++ (w ++ behind))).toUTF8 = .ok m) ∧
      ((∃ m, ofBytes (String.ofList (before ++ (literal ++ behind))).toUTF8 = .ok m) ↔
        t.tellsMinute = true) := by
  obtain ⟨build, marks, hdecides⟩ := h.decides
  have hstamp : (Moment.stamp t).instant? = t.instant? :=
    Timestamp.ofChars?_eq_instant? (Timestamp.spells_chars ht)
  have htext : (Moment.text (.ofList literal)).instant? = t.instant? := by
    rw [Moment.instant?, Instant.ofText?, String.toList_ofList]
    exact Timestamp.ofChars?_eq_instant? ht
  rw [hdecides literal (.stamp t) (writes_timestamp ht hcounted hends) hliteral,
    hdecides w (.text (.ofList literal)) hw hstring, decided, decided, hstamp, htext,
    ← Timestamp.isSome_instant? ht]
  rcases t.instant? with _ | i
  · exact ⟨fun m => by simp, by simp⟩
  · exact ⟨fun m => Iff.rfl, iff_of_true ⟨_, rfl⟩ rfl⟩

/-- A time with an offset and half a second is given as a timestamp. -/
theorem ofBytes_literal_halfSecond :
    ofBytes "\x7b\"exportId\":\"a\",\"exclusiveEndTime\":2023-01-01T05:30:00.5+05:30\x7d".toUTF8 =
      .ok ⟨"a", ⟨1672531200, 500000000, by decide, by decide⟩, none⟩ := by
  have hbody : "\x7b\"exportId\":\"a\",\"exclusiveEndTime\":2023-01-01T05:30:00.5+05:30\x7d" =
      String.ofList (sampleFront ++ ("2023-01-01T05:30:00.5+05:30".toList ++ ['\x7d'])) := by
    decide +kernel
  have hspells : Timestamp.Spells
      (.second ⟨2023, 1, 1⟩ 5 30 0 ['5'] (Zone.known? (.offset false 5 30)))
      "2023-01-01T05:30:00.5+05:30".toList :=
    .second ⟨by decide, by decide, by decide⟩ (by decide) (by decide) (by decide)
      (List.all_eq_true.1 (by decide)) nofun
  have hquoted := Quoted.spells_self (s := "2023-01-01T05:30:00.5+05:30".toList) (by decide)
  have hagree := ofBytes_literal_iff_string holds_sample hspells (.inl (by decide)) atStop_brace
    (writes_quoted hquoted _) (unbroken_of_short (by decide +kernel))
    (unbroken_of_short (by decide +kernel))
  rw [hbody]
  refine (hagree.1 _).2 ?_
  rw [ofBytes_sample (by decide)]
  decide +kernel

/-- A body is undecodable when a literal stands in it as a time whose fraction is not well counted,
although the time could be given as a string. -/
theorem Holds.undecodable {t : Timestamp} (h : Holds field before behind) (ht : t.Spells literal)
    (hover : ¬ t.WellCounted) (hends : atStop behind = true) :
    ofBytes (String.ofList (before ++ (literal ++ behind))).toUTF8 = .error .undecodable := by
  obtain ⟨place, hplace⟩ := h.place
  have hnext := Timestamp.next?_overcounted ht hover hends
  obtain ⟨c, rest, rfl, hc⟩ := Timestamp.exists_digit ht
  have hnone := hplace.inOnePiece?_none (opensValue_of_isDigit hc) hnext
  rw [ofBytes_text]
  rcases htext : ofText? (.ofList (before ++ (c :: rest ++ behind))) with _ | items
  · rfl
  · cases hnone.symm.trans (inOnePiece?_of_ofText? htext)

/-- The last moment of a second in seventeen digits is a time as a string, but no timestamp is read
of it. -/
theorem literal_undecodable :
    (∃ t, Timestamp.Spells t "2023-01-01T00:00:00.99999999999999999Z".toList) ∧
      ofBytes ("\x7b\"exportId\":\"a\",\"exclusiveEndTime\":" ++
        "2023-01-01T00:00:00.99999999999999999Z\x7d").toUTF8 = .error .undecodable ∧
      ofBytes ("\x7b\"exportId\":\"a\",\"exclusiveEndTime\":" ++
        "\"2023-01-01T00:00:00.99999999999999999Z\"\x7d").toUTF8 =
          .ok ⟨"a", ⟨1672531200, 999999999, by decide, by decide⟩, none⟩ := by
  have hbody : "\x7b\"exportId\":\"a\",\"exclusiveEndTime\":" ++
      "2023-01-01T00:00:00.99999999999999999Z\x7d" = String.ofList
        (sampleFront ++ ("2023-01-01T00:00:00.99999999999999999Z".toList ++ ['\x7d'])) := by
    decide +kernel
  have hstring : "\x7b\"exportId\":\"a\",\"exclusiveEndTime\":" ++
      "\"2023-01-01T00:00:00.99999999999999999Z\"\x7d" = String.ofList (sampleFront ++
        ('"' :: "2023-01-01T00:00:00.99999999999999999Z".toList ++ ['"'] ++ ['\x7d'])) := by
    decide +kernel
  have hspells : Timestamp.Spells
      (.second ⟨2023, 1, 1⟩ 0 0 0 "99999999999999999".toList (Zone.known? .zulu))
      "2023-01-01T00:00:00.99999999999999999Z".toList :=
    .second ⟨by decide, by decide, by decide⟩ (by decide) (by decide) (by decide)
      (List.all_eq_true.1 (by decide)) nofun
  have hover : ¬ Timestamp.WellCounted
      (.second ⟨2023, 1, 1⟩ 0 0 0 "99999999999999999".toList (Zone.known? .zulu)) := by
    unfold Timestamp.WellCounted
    decide +kernel
  refine ⟨⟨_, hspells⟩, ?_, ?_⟩
  · rw [hbody]
    exact holds_sample.undecodable hspells hover atStop_brace
  · rw [hstring, ofBytes_sample (by decide)]
    decide +kernel

end Manifest

end LedgerExport
