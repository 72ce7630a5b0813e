import LedgerExport.Proofs.Relocations
import LedgerExport.Proofs.Warrants

/-!
# Whether moved markers come back

A marker that is moved should leave the listing for good: its new key is another one, and no listing
one level deep names it (`Settings.Leaves`). Quarantine has this property in every layout. The
archive has it just when the prefix does not lie in the folder of an hour (`Layout.unlisted_iff`),
for an archived key has nothing but the name behind that folder. Where the prefix is such a folder
itself, archived keys are what they were (`Layout.archiveKey_eq_self_iff`), and a move deletes what
it has copied onto itself (`Move.relocate_onto_itself`). `moved_marker_stays_away` says this of all
keys and of all copies that are made in a turn.
-/

namespace LedgerExport

open Time World

/-- When nothing goes wrong, moving an object onto itself deletes it. -/
theorem Move.relocate_onto_itself {τ : Type} (service : JobService τ) {w : World τ}
    {bucket key : String} {body : ByteArray} (hfaults : w.store.faults = .none)
    (hbody : w.store.find? bucket key = some body) :
    let course := (Move.relocate bucket ⟨key, key⟩).run (World.respond service) w
    course.1 = .ok () ∧ course.2.store.find? bucket key = none := by
  intro course
  have htraces := Program.traces_run (World.respond service) (Move.relocate bucket ⟨key, key⟩) w
  have hpasses := World.passes_run service (Move.relocate bucket ⟨key, key⟩) w
  obtain ⟨hok, -, hafter⟩ := Move.relocate_found htraces hpasses hfaults hbody
  refine ⟨hok, ?_⟩
  rw [hafter, if_pos ⟨rfl, rfl⟩]

/-! ## Moves that leave the listing -/

namespace Settings

variable {s : Settings}

/-- A moved object leaves the listing of the prefix. -/
structure Leaves (s : Settings) (move : Move) : Prop where
  /-- It moves to another key. -/
  moved : move.destination ≠ move.source
  /-- No listing one level deep names that key, whatever the store has. -/
  unlisted : ∀ (m : Store) (bucket : String),
    ∀ o ∈ m.listing bucket s.keyPrefix (some "/"), o.key ≠ move.destination

/-- A listed object leaves when its new key is not listed. -/
theorem leaves_iff {source destination : String}
    (h : Store.lists s.keyPrefix (some "/") source = true) :
    s.Leaves ⟨source, destination⟩ ↔ Store.lists s.keyPrefix (some "/") destination = false := by
  constructor
  · intro hleaves
    rw [Bool.eq_false_iff]
    intro hlists
    -- A store with an object at the new key would list it.
    let m : Store := Store.empty.put s.bucket destination .empty
    have hbody : m.find? s.bucket destination = some .empty := by
      rw [Store.find?_put, if_pos ⟨rfl, rfl⟩]
    have hlisted : (⟨destination, ByteArray.empty.size⟩ : ObjectSummary) ∈
        m.listing s.bucket s.keyPrefix (some "/") := Store.mem_listing.2 ⟨hlists, _, hbody, rfl⟩
    exact hleaves.unlisted m s.bucket _ hlisted rfl
  · intro hunlisted
    refine ⟨(Store.ne_of_lists h hunlisted).symm, fun m bucket o ho => ?_⟩
    exact Store.ne_of_lists (Store.mem_listing.1 ho).1 hunlisted

/-- What a turn moves was listed, and it moves into quarantine or into the folder of an hour. -/
theorem copied_in_turn {τ : Type} {t : Turn τ} {m : Store} {bucket source destination : String}
    {answer : Except StoreFailure Unit}
    (h : ⟨.copy bucket source destination, answer⟩ ∈ t.events s m) :
    Store.lists s.keyPrefix (some "/") source = true ∧
      (destination = s.layout.quarantineKey source ∨
        ∃ stop, destination = s.layout.archiveKey source stop) := by
  obtain ⟨before, after, hes⟩ := List.append_of_mem h
  obtain ⟨v, move, ⟨rest, hseen⟩, hwarrants, hchanges⟩ :=
    (t.unfolds s m).warranted before _ after hes rfl
  have hseen : t.events s m = v.events s.bucket s.keyPrefix ++
      (rest ++ ⟨.copy bucket source destination, answer⟩ :: after) := by
    rw [hes, ← hseen, List.append_assoc]
  have hreports : v.Reports (fun _ => True) s m := Turn.reports hseen
  cases hchanges
  obtain ⟨o, ho, hkey⟩ := hwarrants.listed
  refine ⟨hkey ▸ hreports.lists o ho, ?_⟩
  cases hwarrants with
  | lost => exact .inl rfl
  | completed => exact .inr ⟨_, rfl⟩

/-- A marker in quarantine is never listed again. One that is archived is not either, just when the
prefix lies outside the folder of the hour, as it does when it is the root of the archive; and a
key that is archived as itself is one for which the prefix is this folder. In a turn, only markers
that are archived in the folder of the prefix do not leave. -/
theorem moved_marker_stays_away (s : Settings) :
    (∀ key, Store.lists s.keyPrefix (some "/") key = true →
      s.Leaves ⟨key, s.layout.quarantineKey key⟩) ∧
    (∀ stop, (∀ key, Store.lists s.keyPrefix (some "/") key = true →
        s.Leaves ⟨key, s.layout.archiveKey key stop⟩) ↔
      s.layout.directory ≠ s.layout.partition stop) ∧
    (∀ key stop, Store.lists s.keyPrefix (some "/") key = true →
      (s.layout.archiveKey key stop = key ↔ s.keyPrefix = s.layout.partition stop)) ∧
    (s.archiveRoot = s.keyPrefix → ∀ stop, s.layout.directory ≠ s.layout.partition stop) ∧
    ∀ {τ : Type} (t : Turn τ) (m : Store) {bucket source destination : String}
      {answer : Except StoreFailure Unit},
      ⟨.copy bucket source destination, answer⟩ ∈ t.events s m → s.Leaves ⟨source, destination⟩ ∨
        ∃ stop, s.layout.directory = s.layout.partition stop ∧
          destination = s.layout.archiveKey source stop := by
  have harchived (key : String) (stop : Instant)
      (hkey : Store.lists s.keyPrefix (some "/") key = true)
      (hout : s.layout.directory ≠ s.layout.partition stop) :
      s.Leaves ⟨key, s.layout.archiveKey key stop⟩ :=
    (leaves_iff hkey).2 ((Layout.unlisted_iff s.layout stop).2 hout key hkey)
  have hquarantined (key : String) (hkey : Store.lists s.keyPrefix (some "/") key = true) :
      s.Leaves ⟨key, s.layout.quarantineKey key⟩ :=
    (leaves_iff hkey).2 (Layout.not_lists_quarantineKey (l := s.layout) hkey)
  refine ⟨hquarantined, fun stop => ?_, fun key stop hkey => ?_, fun hroot => ?_, fun t m => ?_⟩
  · refine ⟨fun h => (Layout.unlisted_iff s.layout stop).1 fun key hkey => ?_,
      fun hout key hkey => harchived key stop hkey hout⟩
    exact (leaves_iff hkey).1 (h key hkey)
  · exact Layout.archiveKey_eq_self_iff (l := s.layout) hkey
  · exact Layout.apart_iff.1 (apart_of_root hroot)
  · intro bucket source destination answer hcopy
    obtain ⟨hlists, rfl | ⟨stop, rfl⟩⟩ := copied_in_turn hcopy
    · exact .inl (hquarantined source hlists)
    · by_cases hin : s.layout.directory = s.layout.partition stop
      · exact .inr ⟨stop, hin, rfl⟩
      · exact .inl (harchived source stop hlists hin)

/-- A turn archives a marker, and it is not listed at its new key. -/
theorem archived_pair_stays_away :
    let s := Settings.sample "p/" "p/"
    let source := "p/a.started.manifest"
    let destination := "p/completed/2023/01/01/00/a.started.manifest"
    s.archiveRoot = s.keyPrefix ∧
      (∃ answer, ⟨.copy "b" source destination, answer⟩ ∈
        (Turn.sample 0 .none).events s Turn.completedPair) ∧
      s.Leaves ⟨source, destination⟩ := by
  intro s source destination
  have hroot : s.archiveRoot = s.keyPrefix := rfl
  have hcopied : (((Turn.sample 0 .none).events s Turn.completedPair).any
      (·.call = .copy "b" source destination)) = true := by decide +kernel
  obtain ⟨before, answer, after, hes⟩ := exists_split hcopied
  have hcopy : ⟨.copy "b" source destination, answer⟩ ∈
      (Turn.sample 0 .none).events s Turn.completedPair := by simp [hes]
  obtain ⟨-, -, -, hout, hcopies⟩ := moved_marker_stays_away s
  refine ⟨hroot, ⟨answer, hcopy⟩, (hcopies _ _ hcopy).resolve_right ?_⟩
  rintro ⟨stop, hin, -⟩
  exact hout hroot stop hin

/-- The beginning of the year 2023. -/
def newYear : Instant := ⟨1672531200, 0, by decide, Instant.start_lt⟩

/-- An environment with this prefix and this root of the archive, and with a bucket, a role and a
ledger. -/
def Environment.sample (keyPrefix archiveRoot : String) : Environment := fun name =>
  [("ExportJournalBucket", "b"), ("ExportJournalPrefix", keyPrefix), ("QLDBName", "ledger"),
    ("ExportJournalRole", "role"), ("ExportArchiveRoot", archiveRoot)].lookup name

/-- Moved markers can come back. Where the prefix is the folder of an hour, a marker is archived as
itself, and a turn that ends well deletes a pair of markers without a copy. Where the prefix begins
the names in such a folder, an archived key can be another one and still be listed. -/
theorem moved_markers_come_back :
    (let s := Settings.sample "r/completed/2023/01/01/00/" "r/"
     let key := "r/completed/2023/01/01/00/a.started.manifest"
     let m := Store.holding "b" [(key, Manifest.sampleText "x" "2023-01-01T00:00:00Z"),
      ("r/completed/2023/01/01/00/a.completed.manifest", "")]
     let t := Turn.sample 0 .none
     Settings.load (Environment.sample s.keyPrefix s.archiveRoot) = .ok s ∧
      Store.lists s.keyPrefix (some "/") key = true ∧ s.layout.archiveKey key newYear = key ∧
      (t.course s m).result.any (·.isOk) = true ∧ (t.after s m).keys "b" = []) ∧
    (let s := Settings.sample "r/completed/2023/01/01/00/a" "r/"
     let key := "r/completed/2023/01/01/00/aa.started.manifest"
     Settings.load (Environment.sample s.keyPrefix s.archiveRoot) = .ok s ∧
      Store.lists s.keyPrefix (some "/") key = true ∧ s.layout.archiveKey key newYear ≠ key ∧
      Store.lists s.keyPrefix (some "/") (s.layout.archiveKey key newYear) = true) := by
  decide +kernel

end Settings

end LedgerExport
