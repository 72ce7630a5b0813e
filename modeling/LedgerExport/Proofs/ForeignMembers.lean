import LedgerExport.Proofs.Declarations

/-!
# Manifests are read back from their JSON form

`ofBytes_encode` says that the JSON form of a manifest is read as the manifest with its times as
clocks show them, also when members with other names and any values stand before, between and behind
its own. Of the members of an object only the last one with each of three names is looked at, so
that the others may be left out of the search (`lastMember?_filter`).
-/

namespace LedgerExport

open Time Ion Ion.FlatObject

namespace Manifest

/-- The names of the members of a manifest. -/
def memberNames : List String := ["exportId", "exclusiveEndTime", "inclusiveStartTime"]

variable {m : Manifest} {members : List (String × Json)} {name : String}

/-- The value of the last member with a name. -/
def lastMember? (members : List (String × Json)) (name : String) : Option Json :=
  (members.reverse.find? (·.1 = name)).map (·.2)

/-- Members with other names may be left out of the search for a member. -/
theorem lastMember?_filter {names : List String} (hname : name ∈ names)
    (members : List (String × Json)) :
    lastMember? (members.filter fun member => member.1 ∈ names) name =
      lastMember? members name := by
  rw [lastMember?, lastMember?, ← List.filter_reverse, List.find?_filter]
  congr 2
  funext member
  -- A member with the name is one of those that are kept.
  by_cases hmember : member.1 = name
  · simp [hmember, hname]
  · simp [hmember]

/-- The members of a manifest are found among others. -/
theorem lastMember?_encode
    (h : encode m = .obj (members.filter fun member => member.1 ∈ memberNames)) :
    lastMember? members "exportId" = some (.str m.exportId) ∧
      lastMember? members "exclusiveEndTime" = some (.str m.stop.text) ∧
      lastMember? members "inclusiveStartTime" = some (Json.orNull m.start) := by
  have hown : members.filter (fun member => member.1 ∈ memberNames) =
      [("exportId", .str m.exportId), ("exclusiveEndTime", .str m.stop.text),
        ("inclusiveStartTime", Json.orNull m.start)] := (Json.obj.inj h).symm
  rw [← lastMember?_filter (show "exportId" ∈ memberNames by decide),
    ← lastMember?_filter (show "exclusiveEndTime" ∈ memberNames by decide),
    ← lastMember?_filter (show "inclusiveStartTime" ∈ memberNames by decide), hown]
  simp [lastMember?]

/-- The value of the last field with a name is that of the last member. -/
theorem lastField?_ofMembers (members : List (String × Json)) (name : String) :
    lastField? (Value.ofMembers some members) name =
      (lastMember? members name).map (Value.ofJson some) := by
  rw [Value.ofMembers_eq_map, lastField?_map]
  rfl

/-- The manifest with its times as clocks show them. -/
def shown (m : Manifest) : Manifest := ⟨m.exportId, m.stop.shown, m.start.map Instant.shown⟩

/-- A manifest is the same with its times as clocks show them if clocks show all of them. -/
theorem shown_eq_self_iff : m.shown = m ↔ ∀ t ∈ m.stop :: m.start.toList, t.IsShown := by
  obtain ⟨exportId, stop, start⟩ := m
  rw [shown, Manifest.mk.injEq, List.forall_mem_cons, Instant.shown_eq_self_iff]
  cases start with
  | none => simp
  | some t => simp [Instant.shown_eq_self_iff]

/-- The struct of a manifest's members among others is read as the manifest with its times as clocks
show them. -/
theorem ofElement_encode
    (h : encode m = .obj (members.filter fun member => member.1 ∈ memberNames)) :
    ofElement (.ofJson some (.obj members)) = .ok m.shown := by
  obtain ⟨hid, hstop, hstart⟩ := lastMember?_encode h
  refine ofElement_ok (requiredField_ok (v := .string m.exportId) ?_ rfl)
    (requiredField_ok (v := .string m.stop.text) ?_ (Instant.ofText?_text _)) ?_
  · rw [lastField?_ofMembers, hid]
    rfl
  · rw [lastField?_ofMembers, hstop]
    rfl
  · rw [optionalField, lastField?_ofMembers, hstart]
    cases m.start with
    | none => rfl
    | some t =>
      show some <$> interpret _ Element.instant? (.string t.text) = _
      rw [interpret, show Element.instant? (.string t.text) = some t.shown from t.ofText?_text]
      rfl

/-- The text of an object with a manifest's members among others is read as the manifest with its
times as clocks show them. -/
theorem ofBytes_members
    (h : encode m = .obj (members.filter fun member => member.1 ∈ memberNames)) :
    Manifest.ofBytes (Json.compact (.obj members)).toUTF8 = .ok m.shown := by
  have hread := ofBytes?_json (Json.spells_compactChars (.obj members)) isBlank_nil isBlank_nil
  rw [List.nil_append, List.append_nil] at hread
  rw [Manifest.ofBytes, Json.compact, hread]
  exact ofElement_encode h

/-- The text of a manifest's JSON form is read as the manifest with its times as clocks show them,
which is the manifest itself unless one of them lies in a leap second within a minute. The object
may have members with other names and any values before, between and behind those of the manifest.
-/
theorem ofBytes_encode
    (h : encode m = .obj (members.filter fun member => member.1 ∈ memberNames)) :
    let read := Manifest.ofBytes (Json.compact (.obj members)).toUTF8
    read = .ok ⟨m.exportId, m.stop.shown, m.start.map Instant.shown⟩ ∧
      (read = .ok m ↔
        ∀ t ∈ m.stop :: m.start.toList, t.nanos < nanosPerSecond ∨ t.seconds % 60 = 59) := by
  intro read
  have hread : read = .ok m.shown := ofBytes_members h
  refine ⟨hread, ?_⟩
  rw [hread, Except.ok.injEq]
  exact shown_eq_self_iff

/-- A manifest without a start, among nested values, an empty name and a name that comes twice. -/
theorem ofBytes_encode_nested :
    Manifest.ofBytes (Json.compact (.obj [("", .arr [.obj [("exportId", .null)], .int (-7)]),
      ("exportId", .str "π \"\n"), ("bucket", .str "b"), ("exclusiveEndTime",
        .str "2023-01-01T00:00:00Z"), ("bucket", .obj [("", .arr []), ("x", .bool true)]),
      ("inclusiveStartTime", .null), ("size", .decimal (-150) 2)])).toUTF8 =
    .ok ⟨"π \"\n", ⟨1672531200, 0, by decide, by decide⟩, none⟩ := by
  have htext : Instant.text ⟨1672531200, 0, by decide, by decide⟩ = "2023-01-01T00:00:00Z" := by
    decide +kernel
  refine (ofBytes_encode (m := ⟨"π \"\n", ⟨1672531200, 0, by decide, by decide⟩, none⟩) ?_).1
  show Json.obj [("exportId", .str "π \"\n"),
    ("exclusiveEndTime", .str (Instant.text ⟨1672531200, 0, by decide, by decide⟩)),
    ("inclusiveStartTime", .null)] = _
  rw [htext]
  simp [memberNames]

/-- The end of a window in a leap second within a minute is not read back. -/
theorem leaping_end_misread : let m : Manifest := ⟨"x", .leapingWithin, none⟩
    Manifest.ofBytes (Json.compact (encode m)).toUTF8 ≠ .ok m := by
  intro m
  have hread : Manifest.ofBytes (Json.compact (encode m)).toUTF8 = .ok m.shown :=
    ofBytes_members (m := m) (by simp [encode, memberNames])
  rw [hread]
  decide

end Manifest

end LedgerExport
