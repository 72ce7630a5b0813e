import LedgerExport.Proofs.JsonReading
import LedgerExport.Proofs.Spelling

/-!
# Manifests in JSON are read back

A manifest that a service writes as a JSON object, with the name of an export and with the end of
its window in milliseconds, is decoded to that name and that end, as clocks show it
(`Declares.ofBytes`). The object may have other members, in any order, and where a name comes twice
the last member counts.
-/

namespace LedgerExport

open Time Ion

namespace Ion.FlatObject

variable {members : List (String × Option String)} {text : List Char}

/-- The value of the last member with a name. -/
def lastValue? (members : List (String × Option String)) (name : String) :
    Option (Option String) :=
  (members.reverse.find? (·.1 = name)).map (·.2)

/-- The value that a string or a null is read as. -/
def valueOf {σ : Type} : Option String → Value σ
  | some s => .string s
  | none => .null .null

/-- The element that a member is read as, with its name. -/
def elementOf (m : String × Option String) : Option String × Element := (some m.1, valueOf m.2)

/-- The JSON value that a string or a null is. -/
def jsonOf : Option String → Json
  | some s => .str s
  | none => .null

/-- A string or a null is spelled as the JSON value. -/
theorem ValueSpells.json {v : Option String} {t : List Char} (h : ValueSpells v t) :
    Json.Spells (.value (jsonOf v)) t := by
  cases h with
  | null => exact .null
  | string spells => exact .str spells

/-- The members of a flat object are spelled as members of a JSON object, behind white space. -/
theorem MembersSpell.json {body : List Char} (h : MembersSpell members body) :
    ∃ w t, body = w ++ t ∧ IsBlank w ∧
      Json.Spells (.members (members.map fun m => (m.1, jsonOf m.2))) t := by
  induction h with
  | last member =>
    obtain @⟨w₁, w₂, w₃, w₄, s, raw, text, v, h₁, h₂, h₃, h₄, name, value⟩ := member
    exact ⟨w₁, _, by simp, h₁, .lastMember name h₂ h₃ value.json h₄⟩
  | more member _ ih =>
    obtain @⟨w₁, w₂, w₃, w₄, s, raw, text, v, h₁, h₂, h₃, h₄, name, value⟩ := member
    obtain ⟨w, t, rfl, hw, hmembers⟩ := ih
    exact ⟨w₁, _, by simp, h₁, .moreMembers name h₂ h₃ value.json h₄ hw hmembers⟩

/-- The bytes of the text of an object are read as the struct with its members. -/
theorem Spells.ofBytes? (h : Spells members text) :
    Element.ofBytes? (String.ofList text).toUTF8 = some (.struct (members.map elementOf)) := by
  obtain ⟨w, body, w', rfl, hw, hw', hbody⟩ := h
  obtain ⟨w₁, t, rfl, hw₁, hmembers⟩ := hbody.json
  have hread := ofBytes?_json (.obj hw₁ hmembers) hw hw'
  have hfields : Value.ofMembers some (members.map fun m => (m.1, jsonOf m.2)) =
      members.map elementOf := by
    rw [Value.ofMembers_eq_map, List.map_map]
    refine List.map_congr_left fun m _ => ?_
    rcases m with ⟨name, _ | s⟩ <;> rfl
  rw [Value.ofJson, hfields] at hread
  simpa using hread

end Ion.FlatObject

namespace Manifest

open Ion.FlatObject

variable {members : List (String × Option String)} {name text : String} {α : Type}
  {read : Element → Option α}

/-- The last field with a name is the last member with that name. -/
theorem lastField?_map {β : Type} (g : β → Element) (members : List (String × β)) (name : String) :
    lastField? (members.map fun m => (some m.1, g m.2)) name =
      ((members.reverse.find? (·.1 = name)).map (·.2)).map g := by
  have hname : ((fun e : Option String × Element => decide (e.1 = some name)) ∘
      fun m : String × β => (some m.1, g m.2)) = fun m => decide (m.1 = name) := by
    funext m
    exact decide_eq_decide.2 Option.some_inj
  rw [lastField?, ← List.map_reverse, List.find?_map, hname, Option.map_map, Option.map_map]
  rfl

/-- The last field of a flat object with a name is the last member with that name. -/
theorem lastField?_elementOf (members : List (String × Option String)) (name : String) :
    lastField? (members.map elementOf) name = (lastValue? members name).map valueOf :=
  lastField?_map valueOf members name

/-- A field that has to be there is read from the last field with its name. -/
theorem requiredField_ok {fields : List (Option String × Element)} {v : Element} {a : α}
    (hlast : lastField? fields name = some v) (hread : read v = some a) :
    requiredField fields name read = .ok a := by
  rw [requiredField, hlast]
  show interpret name read v = _
  rw [interpret, hread]

/-- A struct whose fields have a meaning is read as a manifest. -/
theorem ofElement_ok {fields : List (Option String × Element)} {exportId : String} {stop : Instant}
    {start : Option Instant} (hid : requiredField fields "exportId" Element.text? = .ok exportId)
    (hstop : requiredField fields "exclusiveEndTime" Element.instant? = .ok stop)
    (hstart : optionalField fields "inclusiveStartTime" Element.instant? = .ok start) :
    ofElement (.struct fields) = .ok ⟨exportId, stop, start⟩ := by
  show (requiredField fields "exportId" Element.text? >>= _) = _
  rw [hid]
  show (requiredField fields "exclusiveEndTime" Element.instant? >>= _) = _
  rw [hstop]
  show (optionalField fields "inclusiveStartTime" Element.instant? >>= _) = _
  rw [hstart]
  rfl

/-- A field that may be missing is read if the text of the last member with its name can be. -/
theorem optionalField_elementOf
    (h : ∀ text, lastValue? members name = some (some text) → (read (.string text)).isSome) :
    ∃ a, optionalField (members.map elementOf) name read = .ok a := by
  rw [optionalField, lastField?_elementOf]
  rcases hlast : lastValue? members name with _ | _ | text
  · exact ⟨none, rfl⟩
  · exact ⟨none, rfl⟩
  · obtain ⟨a, hread⟩ := Option.isSome_iff_exists.1 (h text hlast)
    refine ⟨some a, ?_⟩
    show some <$> interpret name read (.string text) = _
    rw [interpret, hread]
    rfl

/-- The body is a manifest in JSON that declares an export and, in milliseconds, the end of its
window. If it gives the start of the window, that is a time as well. -/
def Declares (body : ByteArray) (exportId : String) (stop : Instant) : Prop :=
  ∃ members text, Spells members text ∧ body = (String.ofList text).toUTF8 ∧
    lastValue? members "exportId" = some (some exportId) ∧
    lastValue? members "exclusiveEndTime" = some (some (stop.written .millis)) ∧
    ∀ start, lastValue? members "inclusiveStartTime" = some (some start) →
      (Instant.ofText? start).isSome

/-- A manifest in JSON is decoded to what it declares, with the end of the window that clocks show,
cut to milliseconds. -/
theorem Declares.ofBytes {body : ByteArray} {exportId : String} {stop : Instant}
    (h : Declares body exportId stop) :
    ∃ start, Manifest.ofBytes body = .ok ⟨exportId, stop.shown.cutToMillis, start⟩ := by
  obtain ⟨members, text, hspells, rfl, hid, hstop, hstart⟩ := h
  have hidField : requiredField (members.map elementOf) "exportId" Element.text? = .ok exportId :=
    requiredField_ok (v := .string exportId) (by rw [lastField?_elementOf, hid]; rfl) rfl
  have hstopField : requiredField (members.map elementOf) "exclusiveEndTime" Element.instant? =
      .ok stop.shown.cutToMillis :=
    requiredField_ok (v := .string (stop.written .millis))
      (by rw [lastField?_elementOf, hstop]; rfl) (Instant.ofText?_written_millis stop)
  obtain ⟨start, hstartField⟩ : ∃ start, optionalField (members.map elementOf)
      "inclusiveStartTime" Element.instant? = .ok start := optionalField_elementOf hstart
  refine ⟨start, ?_⟩
  rw [Manifest.ofBytes, hspells.ofBytes?]
  exact ofElement_ok hidField hstopField hstartField

end Manifest

end LedgerExport
