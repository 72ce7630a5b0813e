import LedgerExport.Manifest
import LedgerExport.Outcome
import LedgerExport.Proofs.Spelling
import LedgerExport.Settings
import Mathlib.Data.List.Forall2

/-!
# JSON forms are read back

`loosened_forms_read_back` says that each value is read back from its JSON form with its times as
clocks show them, also when records in the form have further members and leave out null ones
(`Loosens`). A string that a value holds stays a string wherever it stands, so that no word of the
service is taken for the name of a case.

What a record is read from is told by `Loosens.fields`: it has something for each of its fields,
whatever other members stand beside them. A type is then read back field by field, or case by case,
from the types that it is made of (`LawfulSerial`).
-/

namespace LedgerExport

open Time

namespace Json

/-! ## What may be written for a form -/

/-- The names of the cases that have content. -/
def caseNames : List String :=
  ["Other", "Kms", "Running", "Quarantined", "InProgress", "ExportSubmitted"]

/-- The second members are the first with values that stand for theirs. Null members may be left
out. -/
inductive KeepsMembers (R : Json → Json → Prop) :
    List (String × Json) → List (String × Json) → Prop where
  /-- There are no members. -/
  | nil : KeepsMembers R [] []
  /-- A member is kept, with a value that stands for its value. -/
  | kept {v v' : Json} {members members' : List (String × Json)} (name : String) (hv : R v v')
    (h : KeepsMembers R members members') :
    KeepsMembers R ((name, v) :: members) ((name, v') :: members')
  /-- A null member is left out. -/
  | leftOut {members members' : List (String × Json)} (name : String)
    (h : KeepsMembers R members members') : KeepsMembers R ((name, .null) :: members) members'

/-- The second JSON value may be written for the first. An object that is a case has the name of the
case and its content. All others are records: they may have members with other names than those of
their fields, and leave out members that are null. -/
inductive Loosens : Json → Json → Prop where
  /-- A value stands for itself. -/
  | same (j : Json) : Loosens j j
  /-- An array has items that stand for its items. -/
  | array {items items' : List Json} (h : List.Forall₂ Loosens items items') :
    Loosens (.arr items) (.arr items')
  /-- A case has content that stands for its content. -/
  | case {name : String} {content content' : Json} (hname : name ∈ caseNames)
    (h : Loosens content content') : Loosens (.obj [(name, content)]) (.obj [(name, content')])
  /-- A record keeps its members, among others. -/
  | record {members members' : List (String × Json)}
    (hnames : ∀ member ∈ members, member.1 ∉ caseNames)
    (h : KeepsMembers Loosens members
      (members'.filter fun member => member.1 ∈ members.map (·.1))) :
    Loosens (.obj members) (.obj members')

/-- What is found for a field of a record whose own form has the value `v` there. -/
inductive FieldOf (v : Json) : Option Json → Prop where
  /-- It has a value that stands for it. -/
  | present {v' : Json} (h : Loosens v v') : FieldOf v (some v')
  /-- It leaves out a null value. -/
  | leftOut (h : v = .null) : FieldOf v none

/-! ## The fields of a record -/

variable {j : Json} {name : String} {names : List String} {members members' : List (String × Json)}

/-- The values of a name are those of the first member, if it has the name, and of the others. -/
theorem valuesOf_cons (name' : String) (v : Json) : valuesOf name ((name', v) :: members) =
    if name' = name then v :: valuesOf name members else valuesOf name members := by
  unfold valuesOf
  by_cases h : name' = name
  · simp [h]
  · simp [h]

/-- Members with other names may be left out of the search for a name. -/
theorem valuesOf_filter (hname : name ∈ names) :
    valuesOf name (members.filter fun member => member.1 ∈ names) = valuesOf name members := by
  rw [valuesOf, valuesOf, List.filter_filter]
  congr 2
  funext member
  -- A member with the name is one of those that are kept.
  by_cases hmember : member.1 = name
  · simp [hmember, hname]
  · simp [hmember]

/-- A name that no member has has no values. -/
theorem KeepsMembers.valuesOf_eq_nil {R : Json → Json → Prop} (h : KeepsMembers R members members')
    (hname : name ∉ members.map (·.1)) : valuesOf name members' = [] := by
  induction h with
  | nil => rfl
  | kept name' _ _ ih =>
    obtain ⟨hne, htail⟩ := not_or.1 (hname ∘ List.mem_cons.2)
    rw [valuesOf_cons, if_neg (Ne.symm hne), ih htail]
  | leftOut name' _ ih => exact ih (hname ∘ List.mem_cons_of_mem _)

/-- The values of a member's name are those of its field: one value, or none. -/
theorem KeepsMembers.exists_field (h : KeepsMembers Loosens members members')
    (hnodup : (members.map (·.1)).Nodup) {member : String × Json} (hmember : member ∈ members) :
    ∃ field, valuesOf member.1 members' = field.toList ∧ FieldOf member.2 field := by
  induction h with
  | nil => cases hmember
  | kept name hv h ih =>
    obtain ⟨hne, htail⟩ := List.nodup_cons.1 hnodup
    rw [valuesOf_cons]
    -- The name of the first member does not come again, neither among the members nor among those
    -- that are kept.
    rcases List.mem_cons.1 hmember with rfl | hmember
    · exact ⟨some _, by rw [if_pos rfl, h.valuesOf_eq_nil hne]; rfl, .present hv⟩
    · rw [if_neg fun heq => hne (List.mem_map.2 ⟨member, hmember, heq.symm⟩)]
      exact ih htail hmember
  | leftOut name h ih =>
    obtain ⟨hne, htail⟩ := List.nodup_cons.1 hnodup
    rcases List.mem_cons.1 hmember with rfl | hmember
    · exact ⟨none, h.valuesOf_eq_nil hne, .leftOut rfl⟩
    · exact ih htail hmember

/-- Members are kept as they are. -/
theorem KeepsMembers.refl {R : Json → Json → Prop} (hR : ∀ v, R v v)
    (members : List (String × Json)) : KeepsMembers R members members := by
  induction members with
  | nil => exact .nil
  | cons member members ih => exact .kept member.1 (hR member.2) ih

/-- What stands for a record is an object that keeps its members. -/
theorem Loosens.exists_members (h : Loosens (.obj members) j)
    (hnames : ∀ name ∈ members.map (·.1), name ∉ caseNames) :
    ∃ members', j = .obj members' ∧ KeepsMembers Loosens members
      (members'.filter fun member => member.1 ∈ members.map (·.1)) := by
  cases h with
  | same =>
    have hall : members.filter (fun member => member.1 ∈ members.map (·.1)) = members :=
      List.filter_eq_self.2 fun member hmember => by simpa using ⟨_, hmember⟩
    exact ⟨members, rfl, hall.symm ▸ .refl .same members⟩
  | case hname _ => exact absurd hname (hnames _ List.mem_cons_self)
  | record _ h => exact ⟨_, rfl, h⟩

/-- What stands for a record has something for each of its fields. -/
theorem Loosens.fields (h : Loosens (.obj members) j) (names : List String)
    (hkeys : members.map (·.1) = names) (hnodup : names.Nodup)
    (hnames : ∀ name ∈ names, name ∉ caseNames) :
    ∃ field : String → Option Json, j.fields? names = some (names.map field) ∧
      members.Forall fun member => FieldOf member.2 (field member.1) := by
  subst hkeys
  obtain ⟨members', rfl, hkeeps⟩ := h.exists_members hnames
  have hfield (member : String × Json) (hmember : member ∈ members) :
      ∃ field, valuesOf member.1 members' = field.toList ∧ FieldOf member.2 field := by
    rw [← valuesOf_filter (List.mem_map_of_mem hmember)]
    exact hkeeps.exists_field hnodup hmember
  refine ⟨fun name => (valuesOf name members').head?, ?_,
    List.forall_iff_forall_mem.2 fun member hmember => ?_⟩
  · refine if_pos (List.all_eq_true.2 fun name hname => ?_)
    obtain ⟨member, hmember, rfl⟩ := List.mem_map.1 hname
    obtain ⟨field, hvalues, -⟩ := hfield member hmember
    rw [hvalues]
    cases field <;> simp
  · obtain ⟨field, hvalues, hfield⟩ := hfield member hmember
    dsimp only
    rw [hvalues]
    cases field <;> exact hfield

/-- What stands for a case is the case with content that stands for its content. -/
theorem Loosens.exists_content {content : Json} (h : Loosens (.obj [(name, content)]) j)
    (hname : name ∈ caseNames) :
    ∃ content', j = .obj [(name, content')] ∧ Loosens content content' := by
  cases h with
  | same => exact ⟨content, rfl, .same content⟩
  | case _ h => exact ⟨_, rfl, h⟩
  | record hnames _ => exact absurd hname (hnames _ List.mem_cons_self)

/-- What stands for an array is an array of as many items, which stand for its items. -/
theorem Loosens.exists_items {items : List Json} (h : Loosens (.arr items) j) :
    ∃ items', j = .arr items' ∧ List.Forall₂ Loosens items items' := by
  cases h with
  | same => exact ⟨items, rfl, List.forall₂_same.2 fun item _ => .same item⟩
  | array h => exact ⟨_, rfl, h⟩

/-- Only a string itself stands for a string. -/
theorem Loosens.eq_str {s : String} (h : Loosens (.str s) j) : j = .str s := by
  cases h
  rfl

end Json

open Json

/-! ## Types whose values are read back -/

section

variable {α : Type} [Serial α] {shown : α → α} {a b : α} {f : Option Json}

/-- The second value is read from whatever may be written for the JSON form of the first. -/
def ReadsAs (a b : α) : Prop := ∀ j, Loosens (encode a) j → decode? j = some b

/-- A type whose values are all read back, with their times as clocks show them. -/
class LawfulSerial (α : Type) [Serial α] (shown : outParam (α → α)) : Prop where
  /-- No value is read from null. -/
  decode?_null : (decode? .null : Option α) = none
  /-- Each value is read back as clocks show it. -/
  readsAs (a : α) : ReadsAs a (shown a)

/-- The JSON form of a value that is read back is not null. -/
theorem ReadsAs.encode_ne (ha : ReadsAs a b) (hnull : (decode? .null : Option α) = none) :
    encode a ≠ .null := by
  intro heq
  have hread := ha _ (.same _)
  rw [heq, hnull] at hread
  cases hread

/-- A field that must be there is read back when its value is. -/
theorem Json.FieldOf.required_of (h : FieldOf (encode a) f) (ha : ReadsAs a b)
    (hnull : (decode? .null : Option α) = none) : Json.required f = some b := by
  cases h with
  | present h => exact ha _ h
  | leftOut h => exact absurd h (ha.encode_ne hnull)

/-- A field that must be there is read back. -/
theorem Json.FieldOf.required [LawfulSerial α shown] (h : FieldOf (encode a) f) :
    Json.required f = some (shown a) :=
  h.required_of (LawfulSerial.readsAs a) LawfulSerial.decode?_null

/-- A field that may be null or left out is read back. -/
theorem Json.FieldOf.optional [LawfulSerial α shown] {a : Option α}
    (h : FieldOf (Json.orNull a) f) : Json.optional f = some (a.map shown) := by
  cases a with
  | none =>
    cases h with
    | present h => cases h; rfl
    | leftOut => rfl
  | some a =>
    cases h with
    | leftOut h => exact absurd h ((LawfulSerial.readsAs a).encode_ne LawfulSerial.decode?_null)
    | @present v h =>
      have hread : decode? v = some (shown a) := LawfulSerial.readsAs a v h
      -- What stands for the form is not null, or nothing would be read from it.
      unfold Json.optional
      split
      · contradiction
      · rename_i heq
        cases heq
        rw [LawfulSerial.decode?_null] at hread
        cases hread
      · rename_i heq
        cases heq
        rw [hread]
        rfl

end

instance : LawfulSerial String id where
  decode?_null := rfl
  readsAs s j h := by rw [h.eq_str]; rfl

instance : LawfulSerial Instant Instant.shown where
  decode?_null := rfl
  readsAs t j h := by
    rw [h.eq_str]
    exact t.ofRecorded?_text

instance : LawfulSerial UInt64 id where
  decode?_null := rfl
  readsAs n j h := by
    cases h
    show (if _ then some _ else none) = _
    rw [if_pos ⟨Int.natCast_nonneg _, Int.ofNat_lt.2 n.toNat_lt_size⟩, Int.toNat_natCast,
      UInt64.ofNat_toNat]
    rfl

/-- A count is read back when it fits in sixty-four bits. -/
theorem readsAs_count {n : Nat} (hn : n < UInt64.size) : ReadsAs n n := by
  intro j h
  cases h
  show (if _ then some _ else none) = _
  rw [if_pos ⟨Int.natCast_nonneg _, Int.ofNat_lt.2 hn⟩, Int.toNat_natCast]

/-- The items that stand for the forms of values are read back one by one. -/
theorem mapM_decode? {α : Type} [Serial α] {shown : α → α} [LawfulSerial α shown] {xs : List α}
    {items : List Json} (h : List.Forall₂ Loosens (xs.map encode) items) :
    items.mapM decode? = some (xs.map shown) := by
  induction xs generalizing items with
  | nil =>
    cases h
    rfl
  | cons x xs ih =>
    obtain ⟨item, rest, hitem, hrest, rfl⟩ := List.forall₂_cons_left_iff.1 h
    rw [List.mapM_cons, LawfulSerial.readsAs x item hitem, Option.bind_eq_bind,
      Option.bind_some, ih hrest]
    rfl

instance {α : Type} [Serial α] {shown : α → α} [LawfulSerial α shown] :
    LawfulSerial (List α) (List.map shown) where
  decode?_null := rfl
  readsAs xs j h := by
    obtain ⟨items, rfl, hitems⟩ := h.exists_items
    exact mapM_decode? hitems

/-! ## The types of the program -/

/-- A field that has a string is read back. -/
theorem Json.FieldOf.required_str {s : String} {f : Option Json} (h : FieldOf (.str s) f) :
    Json.required f = some s :=
  show Json.required f = some (id s) from h.required

/-- The window with its times as clocks show them. -/
def Window.shown (w : Window) : Window := ⟨w.start.shown, w.stop.shown⟩

instance : LawfulSerial Window Window.shown where
  decode?_null := rfl
  readsAs w j h := by
    obtain ⟨field, hread, hstart, hstop⟩ :=
      h.fields ["inclusive_start", "exclusive_end"] rfl (by decide) (by decide)
    simp [decode?, hread, hstart.required, hstop.required, Window.shown]

instance : LawfulSerial Settings fun s => { s with epoch := s.epoch.shown } where
  decode?_null := rfl
  readsAs s j h := by
    obtain ⟨field, hread, hbucket, hprefix, hledger, hrole, hroot, hkey, hepoch, htimeout⟩ :=
      h.fields ["bucket", "prefix", "ledger_name", "role_arn", "archive_root", "kms_key_arn",
        "epoch_start", "invocation_timeout_secs"] rfl (by decide) (by decide)
    simp [decode?, hread, hbucket.required_str, hprefix.required_str, hledger.required_str,
      hrole.required_str, hroot.required_str, hkey.optional, hepoch.required, htimeout.optional]

instance : LawfulSerial Manifest
    fun m => ⟨m.exportId, m.stop.shown, m.start.map Instant.shown⟩ where
  decode?_null := rfl
  readsAs m j h := by
    obtain ⟨field, hread, hid, hstop, hstart⟩ :=
      h.fields ["exportId", "exclusiveEndTime", "inclusiveStartTime"] rfl (by decide) (by decide)
    simp [decode?, hread, hid.required_str, hstop.required, hstart.optional]

instance : LawfulSerial Destination id where
  decode?_null := rfl
  readsAs d j h := by
    obtain ⟨field, hread, hbucket, hprefix⟩ :=
      h.fields ["bucket", "prefix"] rfl (by decide) (by decide)
    simp [decode?, hread, hbucket.required_str, hprefix.required_str]

instance : LawfulSerial JobStatus id where
  decode?_null := rfl
  readsAs status j h := by
    cases status with
    | inProgress | completed | cancelled =>
      rw [h.eq_str]
      rfl
    | other word =>
      obtain ⟨content, rfl, hcontent⟩ := h.exists_content (by decide)
      rw [hcontent.eq_str]
      rfl

instance : LawfulSerial Encryption id where
  decode?_null := rfl
  readsAs encryption j h := by
    cases encryption with
    | unencrypted =>
      rw [h.eq_str]
      rfl
    | kms keyArn =>
      obtain ⟨content, rfl, hcontent⟩ := h.exists_content (by decide)
      obtain ⟨field, hread, hkey⟩ :=
        hcontent.fields ["key_arn"] rfl (by decide) (by decide)
      simp [decode?, case?, hread, hkey.required_str]

instance : LawfulSerial ExportRequest fun r => { r with window := r.window.shown } where
  decode?_null := rfl
  readsAs r j h := by
    obtain ⟨field, hread, hledger, hwindow, hdestination, hrole, hencryption⟩ :=
      h.fields ["job_name", "window", "destination", "role_arn", "encryption"] rfl (by decide)
        (by decide)
    simp [decode?, hread, hledger.required_str, hwindow.required, hdestination.required,
      hrole.required_str, hencryption.required]

instance : LawfulSerial RunState id where
  decode?_null := rfl
  readsAs state j h := by
    cases state with
    | running status =>
      obtain ⟨content, rfl, hcontent⟩ := h.exists_content (by decide)
      show RunState.running <$> decode? content = _
      rw [LawfulSerial.readsAs status _ hcontent]
      rfl
    | quarantined destination =>
      obtain ⟨content, rfl, hcontent⟩ := h.exists_content (by decide)
      obtain ⟨field, hread, hdestination⟩ :=
        hcontent.fields ["destination_key"] rfl (by decide) (by decide)
      simp [decode?, case?, hread, hdestination.required_str]
    | unreadable =>
      rw [h.eq_str]
      rfl

instance : LawfulSerial RunCheck id where
  decode?_null := rfl
  readsAs r j h := by
    obtain ⟨field, hread, hkey, hid, hstate⟩ :=
      h.fields ["marker_key", "export_id", "state"] rfl (by decide) (by decide)
    simp [decode?, hread, hkey.required_str, hid.optional, hstate.required]

namespace Outcome

/-- The number of markers that were moved fits in sixty-four bits. -/
def Counted : Outcome → Prop
  | inProgress _ => True
  | submitted _ _ archived => archived < UInt64.size

/-- The outcome with its times as clocks show them. -/
def shown : Outcome → Outcome
  | inProgress runs => inProgress runs
  | submitted exportId window archived => submitted exportId window.shown archived

/-- An outcome is read back. -/
theorem readsAs {o : Outcome} (ho : o.Counted) : ReadsAs o o.shown := by
  intro j h
  cases o with
  | inProgress runs =>
    obtain ⟨content, rfl, hcontent⟩ := h.exists_content (by decide)
    obtain ⟨field, hread, hruns⟩ := hcontent.fields ["runs"] rfl (by decide) (by decide)
    simp [decode?, case?, hread, hruns.required, shown]
  | submitted exportId window archived =>
    obtain ⟨content, rfl, hcontent⟩ := h.exists_content (by decide)
    obtain ⟨field, hread, hid, hwindow, harchived⟩ :=
      hcontent.fields ["export_id", "window", "archived"] rfl (by decide) (by decide)
    simp [decode?, case?, hread, hid.required_str, hwindow.required,
      harchived.required_of (readsAs_count ho) rfl, shown]

end Outcome

/-- Values are read back from their JSON forms, with their times as clocks show them, also when
records in the forms have members with other names than those of their fields and leave out members
that are null. Clocks show a time as it is unless it lies in a leap second within a minute. -/
theorem loosened_forms_read_back :
    (∀ s : Settings, ReadsAs s { s with epoch := s.epoch.shown }) ∧
      (∀ w : Window, ReadsAs w ⟨w.start.shown, w.stop.shown⟩) ∧
      (∀ m : Manifest, ReadsAs m ⟨m.exportId, m.stop.shown, m.start.map Instant.shown⟩) ∧
      (∀ status : JobStatus, ReadsAs status status) ∧ (∀ e : Encryption, ReadsAs e e) ∧
      (∀ d : Destination, ReadsAs d d) ∧
      (∀ r : ExportRequest,
        ReadsAs r { r with window := ⟨r.window.start.shown, r.window.stop.shown⟩ }) ∧
      (∀ state : RunState, ReadsAs state state) ∧ (∀ r : RunCheck, ReadsAs r r) ∧
      (∀ o : Outcome, o.Counted → ReadsAs o o.shown) ∧
      ∀ t : Instant, t.shown = t ↔ t.nanos < nanosPerSecond ∨ t.seconds % 60 = 59 :=
  open LawfulSerial (readsAs) in
  ⟨readsAs, readsAs, readsAs, readsAs, readsAs, readsAs, readsAs, readsAs, readsAs,
    fun _ => Outcome.readsAs, fun _ => Instant.shown_eq_self_iff⟩

/-- Runs with words that are names of cases, one of them without a name, among members that are not
known, and the largest count of markers. -/
theorem nested_forms_read_back :
    decode? (.obj [("InProgress", .obj [("note", .obj [("runs", .null)]), ("runs", .arr [
        .obj [("marker_key", .str "k"),
          ("state", .obj [("Running", .obj [("Other", .str "InProgress")])])],
        .obj [("x", .int 1), ("marker_key", .str "m"), ("export_id", .str "Unreadable"),
          ("state", .obj [("Quarantined", .obj [("Kms", .null), ("destination_key", .str "q")])]),
          ("x", .arr [])]])])]) =
      some (Outcome.inProgress [⟨"k", none, .running (.other "InProgress")⟩,
        ⟨"m", some "Unreadable", .quarantined "q"⟩]) ∧
    ∀ w : Window, decode? (encode (Outcome.submitted "i" w 18446744073709551615)) =
      some (Outcome.submitted "i" ⟨w.start.shown, w.stop.shown⟩ 18446744073709551615) := by
  obtain ⟨-, -, -, -, -, -, -, -, -, houtcome, -⟩ := loosened_forms_read_back
  have hstate : Loosens (encode (RunState.quarantined "q"))
      (.obj [("Quarantined", .obj [("Kms", .null), ("destination_key", .str "q")])]) :=
    .case (by decide) (.record (by decide) (.kept "destination_key" (.same _) .nil))
  have hrunning : Loosens (encode (RunCheck.mk "k" none (.running (.other "InProgress"))))
      (.obj [("marker_key", .str "k"),
        ("state", .obj [("Running", .obj [("Other", .str "InProgress")])])]) :=
    .record (by decide) (.kept "marker_key" (.same _) (.leftOut "export_id"
      (.kept "state" (.same _) .nil)))
  have hquarantined : Loosens (encode (RunCheck.mk "m" (some "Unreadable") (.quarantined "q")))
      (.obj [("x", .int 1), ("marker_key", .str "m"), ("export_id", .str "Unreadable"),
        ("state", .obj [("Quarantined", .obj [("Kms", .null), ("destination_key", .str "q")])]),
        ("x", .arr [])]) :=
    .record (by decide) (.kept "marker_key" (.same _) (.kept "export_id" (.same _)
      (.kept "state" hstate .nil)))
  constructor
  · refine houtcome (.inProgress _) trivial _ (.case (by decide) (.record (by decide) ?_))
    exact .kept "runs" (.array (.cons hrunning (.cons hquarantined .nil))) .nil
  · exact fun w => houtcome (.submitted "i" w 18446744073709551615)
      (show 18446744073709551615 < UInt64.size by decide) _ (.same _)

/-- A window that ends in a leap second within a minute is not read back. -/
theorem leaping_window_misread : let w : Window := ⟨Settings.defaultEpoch, .leapingWithin⟩
    decode? (encode w) ≠ some w := by
  intro w
  have hread : decode? (encode w) = some w.shown := LawfulSerial.readsAs w _ (.same _)
  rw [hread]
  decide

end LedgerExport
