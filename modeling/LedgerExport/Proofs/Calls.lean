import LedgerExport.Invocation
import LedgerExport.Proofs.Trace

/-!
# The calls of an invocation

Which calls each part of an invocation makes, whatever it is answered and wherever it is cut short:
taking a survey, moving objects, looking up exports, submitting a window. `traces_invoke` puts them
together. An invocation lists the prefix and reads the markers of starts, and only when both have
succeeded does it do what the survey calls for; a `Sighting` is what it has seen by then, and
`Settings.Stalls` says why it fails before.
-/

namespace LedgerExport

namespace Call

/-- The call lists keys or reads an object. -/
def isReading : Call → Bool
  | list .. | get .. => true
  | _ => false

/-- The call looks up an export. -/
def isLookup : Call → Bool
  | describe .. => true
  | _ => false

/-- The call may change the objects of the store. -/
def isChange : Call → Bool
  | copy .. | delete .. => true
  | _ => false

/-- The call submits a request. -/
def isSubmission : Call → Bool
  | submit _ => true
  | _ => false

end Call

/-- The markers of a kind among the objects of a listing, in their order. -/
def Marker.among (objects : List ObjectSummary) (kind : MarkerKind) : List Marker :=
  (objects.filterMap fun object => classify? object.key).filter (·.kind = kind)

/-- What an invocation has seen when its survey is taken. -/
structure Sighting where
  /-- The objects of the listing. -/
  objects : List ObjectSummary
  /-- The markers of starts with their bodies. -/
  readings : List (Marker × ByteArray)
  /-- Each listed marker of a start has been read, in the order of the listing. -/
  starts : readings.map (·.1) = Marker.among objects .started

namespace Sighting

/-- The calls by which it was seen. -/
def events (bucket keyPrefix : String) (v : Sighting) : List Event :=
  ⟨.list bucket keyPrefix (some "/"), .ok v.objects⟩ ::
    v.readings.map fun r => ⟨.get bucket r.1.key, .ok r.2⟩

/-- The survey of what was seen. -/
def survey? (keyPrefix : String) (v : Sighting) : Except Failure Survey :=
  Survey.ofReadings keyPrefix (Marker.among v.objects .completed)
    (v.readings.map fun r => (r.1, Manifest.ofBytes r.2))

/-- What was seen makes no survey only when no marker of a start has a manifest. -/
theorem survey?_error {keyPrefix : String} {v : Sighting} {f : Failure}
    (h : v.survey? keyPrefix = .error f) : ∃ count, f = .allMalformed keyPrefix count := by
  rw [survey?, Survey.ofReadings] at h
  split at h
  · exact ⟨_, (Except.error.inj h).symm⟩
  · cases h

/-- Seeing takes calls that read and no others. -/
theorem isReading_of_mem_events {bucket keyPrefix : String} {v : Sighting} {e : Event}
    (h : e ∈ v.events bucket keyPrefix) : e.call.isReading = true := by
  rcases List.mem_cons.1 h with rfl | h
  · rfl
  · obtain ⟨r, -, rfl⟩ := List.mem_map.1 h
    rfl

/-- A call that does not read is none of those by which something was seen. -/
theorem not_mem_events {bucket keyPrefix : String} {e : Event} (h : e.call.isReading = false)
    (v : Sighting) : e ∉ v.events bucket keyPrefix := fun hmem => by
  rw [isReading_of_mem_events hmem] at h
  cases h

end Sighting

/-- A trace of a program that is taken as an attempt is a trace of the program. -/
theorem Attempt.traces_ofProgram {ε α : Type} {failure : ε → Failure} {p : Program (Except ε α)}
    {es : List Event} {r : Option (Except Failure α)}
    (h : Program.Traces (ofProgram failure p).run es r) :
    ∃ r', Program.Traces p es r' ∧ r = r'.map (·.mapError failure) := by
  rcases Program.Traces.of_bind h with ⟨rfl, hp⟩ | ⟨es₁, a, es₂, rfl, hp, hend⟩
  · exact ⟨none, hp, rfl⟩
  · obtain ⟨rfl, rfl⟩ := Program.Traces.of_done hend
    exact ⟨some a, by rwa [List.append_nil], rfl⟩

/-! ## Surveys -/

namespace Survey

open Program (Traces)

/-- The reading of markers makes no calls but those that read, and when it succeeds it has made one
for each marker, in order. It fails only when a marker cannot be read. -/
theorem traces_readAll {bucket : String} {markers : List Marker} {es : List Event}
    {r : Option (Except Failure (List (Marker × Except ManifestError Manifest)))}
    (h : Traces (readAll bucket markers).run es r) :
    (∀ e ∈ es, e.call.isReading = true) ∧
    (∀ rs, r = some (.ok rs) →
      ∃ readings : List (Marker × ByteArray), readings.map (·.1) = markers ∧
        es = readings.map (fun x => ⟨.get bucket x.1.key, .ok x.2⟩) ∧
        rs = readings.map fun x => (x.1, Manifest.ofBytes x.2)) ∧
    ∀ f, r = some (.error f) → ∃ marker ∈ markers, ∃ e : StoreFailure,
      (⟨.get bucket marker.key, .error e⟩ : Event) ∈ es ∧ f = .store e := by
  induction markers generalizing es r with
  | nil =>
    obtain ⟨rfl, rfl⟩ := Traces.of_done h
    refine ⟨by simp, fun rs hrs => ⟨[], rfl, rfl, ?_⟩, fun f hf => by cases hf⟩
    exact (Except.ok.inj (Option.some.inj hrs)).symm
  | cons marker rest ih =>
    rw [readAll] at h
    rcases Traces.of_call (c := .get bucket marker.key) h with ⟨rfl, rfl⟩ | ⟨body, es, rfl, hget⟩
    · simp
    -- A body that cannot be read ends the reading.
    rcases body with e | body
    · obtain ⟨rfl, rfl⟩ := Traces.of_done hget
      refine ⟨by simp [Call.isReading], by simp, fun f hf => ?_⟩
      exact ⟨marker, List.mem_cons_self, e, List.mem_cons_self,
        (Except.error.inj (Option.some.inj hf)).symm⟩
    obtain ⟨r', hrest, rfl⟩ := Traces.of_attempt_pure (x := readAll bucket rest) hget
    obtain ⟨hread, hmore, hfails⟩ := ih hrest
    refine ⟨List.forall_mem_cons.2 ⟨rfl, hread⟩, ?_⟩
    rcases r' with _ | f | more
    · exact ⟨fun _ hrs => (nomatch hrs), fun _ hf => (nomatch hf)⟩
    · refine ⟨fun _ hrs => (nomatch hrs), fun f' hf => ?_⟩
      obtain rfl := Except.error.inj (Option.some.inj hf)
      obtain ⟨marker', hmarker, e, he, hstore⟩ := hfails f rfl
      exact ⟨marker', List.mem_cons_of_mem _ hmarker, e, List.mem_cons_of_mem _ he, hstore⟩
    · refine ⟨fun rs hrs => ?_, fun _ hf => (nomatch hf)⟩
      obtain ⟨readings, hkeys, rfl, rfl⟩ := hmore more rfl
      -- Both lists grow at the front by the marker that was read.
      refine ⟨(marker, body) :: readings, by simp [hkeys], by simp, ?_⟩
      exact (Except.ok.inj (Option.some.inj hrs)).symm

/-- Why a survey cannot be taken. -/
inductive Fails (bucket keyPrefix : String) (es : List Event) : Failure → Prop
  /-- The keys cannot be listed. -/
  | listing {e : StoreFailure} :
    (⟨.list bucket keyPrefix (some "/"), .error e⟩ : Event) ∈ es →
    Fails bucket keyPrefix es (.store e)
  /-- A marker that was listed cannot be read. -/
  | reading {objects : List ObjectSummary} {marker : Marker} {e : StoreFailure} :
    (⟨.list bucket keyPrefix (some "/"), .ok objects⟩ : Event) ∈ es →
    marker ∈ Marker.among objects .started →
    (⟨.get bucket marker.key, .error e⟩ : Event) ∈ es → Fails bucket keyPrefix es (.store e)
  /-- No marker of a start has a manifest, and there are some. -/
  | allMalformed {v : Sighting} {count : Nat} : es = v.events bucket keyPrefix →
    v.survey? keyPrefix = .error (.allMalformed keyPrefix count) →
    Fails bucket keyPrefix es (.allMalformed keyPrefix count)

/-- Taking a survey makes no calls but those that read, and a survey that has been taken is that of
what was seen. -/
theorem traces_take {bucket keyPrefix : String} {es : List Event}
    {r : Option (Except Failure Survey)} (h : Traces (take bucket keyPrefix).run es r) :
    (∀ e ∈ es, e.call.isReading = true) ∧
    (∀ survey, r = some (.ok survey) →
      ∃ v : Sighting, es = v.events bucket keyPrefix ∧ v.survey? keyPrefix = .ok survey) ∧
    ∀ f, r = some (.error f) → Fails bucket keyPrefix es f := by
  rw [take] at h
  rcases Traces.of_call (c := .list bucket keyPrefix (some "/")) h with
    ⟨rfl, rfl⟩ | ⟨objects, es, rfl, hlist⟩
  · simp
  rcases objects with e | objects
  · obtain ⟨rfl, rfl⟩ := Traces.of_done hlist
    refine ⟨by simp [Call.isReading], by simp, fun f hf => ?_⟩
    obtain rfl := Except.error.inj (Option.some.inj hf)
    exact .listing List.mem_cons_self
  rcases Traces.of_attempt hlist with
    ⟨rfl, hall⟩ | ⟨f, rfl, hall⟩ | ⟨es₁, rs, es₂, rfl, hall, hend⟩
  · exact ⟨List.forall_mem_cons.2 ⟨rfl, (traces_readAll hall).1⟩, by simp⟩
  · obtain ⟨hread, -, hfails⟩ := traces_readAll hall
    refine ⟨List.forall_mem_cons.2 ⟨rfl, hread⟩, by simp, fun f' hf => ?_⟩
    obtain rfl := Except.error.inj (Option.some.inj hf)
    obtain ⟨marker, hmarker, e, he, rfl⟩ := hfails f rfl
    exact .reading List.mem_cons_self hmarker (List.mem_cons_of_mem _ he)
  obtain ⟨hread, hrs, -⟩ := traces_readAll hall
  obtain ⟨readings, hstarts, rfl, rfl⟩ := hrs rs rfl
  obtain ⟨rfl, rfl⟩ := Traces.of_done hend
  let v : Sighting := ⟨objects, readings, hstarts⟩
  have hevents : ⟨.list bucket keyPrefix (some "/"), .ok objects⟩ ::
      (readings.map (fun x => (⟨.get bucket x.1.key, .ok x.2⟩ : Event)) ++ []) =
        v.events bucket keyPrefix := by
    rw [List.append_nil]
    rfl
  refine ⟨List.forall_mem_cons.2 ⟨rfl, by simpa using hread⟩, fun survey hsurvey => ?_,
    fun f hf => ?_⟩
  · exact ⟨v, hevents, Option.some.inj hsurvey⟩
  · -- What was read makes no survey only when no marker has a manifest.
    have hfails : v.survey? keyPrefix = .error f := Option.some.inj hf
    obtain ⟨count, rfl⟩ := Sighting.survey?_error hfails
    exact .allMalformed hevents hfails

/-- A survey calls for nothing only when the window would be empty. -/
theorem assess_error {survey : Survey} {now epoch : Time.Instant} {layout : Layout} {f : Failure}
    (h : survey.assess now epoch layout = .error f) :
    ∃ start stop, f = .emptyWindow start stop := by
  rw [assess] at h
  split at h
  · rw [nextWindow] at h
    split at h
    · cases h
    · exact ⟨_, _, (Except.error.inj h).symm⟩
  · cases h

end Survey

/-! ## Moves -/

namespace Move

open Program (Traces)

/-- The calls that moving an object may make. -/
def Makes (bucket : String) (m : Move) (c : Call) : Prop :=
  c = .copy bucket m.source m.destination ∨ c = .probe bucket m.destination ∨
    c = .delete bucket m.source

/-- A copy that a move makes is one of its object to its place. -/
theorem Makes.of_copy {bucket b source destination : String} {m : Move}
    (h : m.Makes bucket (.copy b source destination)) :
    source = m.source ∧ destination = m.destination := by
  rcases h with h | h | h
  · exact (Call.copy.inj h).2
  · cases h
  · cases h

/-- A deletion that a move makes is one of its object. -/
theorem Makes.of_delete {bucket b key : String} {m : Move} (h : m.Makes bucket (.delete b key)) :
    key = m.source := by
  rcases h with h | h | h
  · cases h
  · cases h
  · exact (Call.delete.inj h).2

/-- The calls by which a copy of the object is made and found. -/
def verified (bucket : String) (m : Move) : List Event :=
  [⟨.copy bucket m.source m.destination, .ok ()⟩, ⟨.probe bucket m.destination, .ok true⟩]

/-- The calls of a move that has been made: the copy was made and found, and the object deleted; or
the object was gone and a copy of it found. -/
def Made (bucket : String) (m : Move) (es : List Event) : Prop :=
  es = [⟨.copy bucket m.source m.destination, .ok ()⟩, ⟨.probe bucket m.destination, .ok true⟩,
      ⟨.delete bucket m.source, .ok ()⟩] ∨
    ∃ e : StoreFailure, e.isNotFound = true ∧
      es = [⟨.copy bucket m.source m.destination, .error e⟩,
        ⟨.probe bucket m.destination, .ok true⟩]

/-- The calls of a move that has failed, with the failure. -/
inductive Breaks (bucket : String) (m : Move) : List Event → StoreFailure → Prop
  /-- The object cannot be copied. -/
  | notCopied {e : StoreFailure} : e.isNotFound = false →
    Breaks bucket m [⟨.copy bucket m.source m.destination, .error e⟩] e
  /-- The object is gone, and no copy of it is found. -/
  | gone {e : StoreFailure} : e.isNotFound = true →
    Breaks bucket m [⟨.copy bucket m.source m.destination, .error e⟩,
      ⟨.probe bucket m.destination, .ok false⟩] e
  /-- The object has been copied or is gone, and the copy cannot be looked for. -/
  | notProbed {copied : Except StoreFailure Unit} {e : StoreFailure} :
    (∀ e', copied = .error e' → e'.isNotFound = true) →
    Breaks bucket m [⟨.copy bucket m.source m.destination, copied⟩,
      ⟨.probe bucket m.destination, .error e⟩] e
  /-- The object is said to have been copied, and the copy is not found. -/
  | notVerified : Breaks bucket m [⟨.copy bucket m.source m.destination, .ok ()⟩,
      ⟨.probe bucket m.destination, .ok false⟩] (.copyNotVerified m.source m.destination)
  /-- The copy has been found, and the object cannot be deleted. -/
  | notDeleted {e : StoreFailure} :
    Breaks bucket m (m.verified bucket ++ [⟨.delete bucket m.source, .error e⟩]) e

/-- The calls of moves that have all been made, one after the other. -/
inductive MadeAll (bucket : String) : List Move → List Event → Prop
  /-- There is nothing to move. -/
  | nil : MadeAll bucket [] []
  /-- A move has been made, and then the others. -/
  | cons {m : Move} {moves : List Move} {es es' : List Event} :
    m.Made bucket es → MadeAll bucket moves es' → MadeAll bucket (m :: moves) (es ++ es')

/-- Each of some moves that have all been made has been made. -/
theorem MadeAll.exists_made {bucket : String} {moves : List Move} {es : List Event}
    (h : MadeAll bucket moves es) {m : Move} (hm : m ∈ moves) :
    ∃ es₁ es₂ es₃, es = es₁ ++ es₂ ++ es₃ ∧ m.Made bucket es₂ := by
  induction h with
  | nil => cases hm
  | @cons m' moves es es' hmade _ ih =>
    rcases List.mem_cons.1 hm with rfl | hm
    · exact ⟨[], es, es', rfl, hmade⟩
    · obtain ⟨es₁, es₂, es₃, rfl, hmade'⟩ := ih hm
      exact ⟨es ++ es₁, es₂, es₃, by simp, hmade'⟩

/-- Moving an object makes no calls but its own; a move that succeeds has been made, and one that
fails has been broken off. -/
theorem traces_relocate {bucket : String} {m : Move} {es : List Event}
    {r : Option (Except StoreFailure Unit)} (h : Traces (m.relocate bucket) es r) :
    (∀ e ∈ es, m.Makes bucket e.call) ∧ (r = some (.ok ()) → m.Made bucket es) ∧
      ∀ e, r = some (.error e) → m.Breaks bucket es e := by
  rw [relocate] at h
  rcases Traces.of_call h with ⟨rfl, rfl⟩ | ⟨copied, es, rfl, hcopy⟩
  · simp
  rcases copied with e | ⟨⟩
  · dsimp only at hcopy
    split at hcopy
    · -- The source is gone, which is all right if a copy of it is found.
      rename_i hgone
      rcases Traces.of_call hcopy with ⟨rfl, rfl⟩ | ⟨found, es, rfl, hprobe⟩
      · simp [Makes]
      rcases found with e' | _ | _
      all_goals
        obtain ⟨rfl, rfl⟩ := Traces.of_done hprobe
        refine ⟨by simp [Makes], fun hr => ?_, fun e'' hr => ?_⟩ <;> cases hr
      · exact .notProbed fun e' he' => Except.error.inj he' ▸ hgone
      · exact .gone hgone
      · exact .inr ⟨e, hgone, rfl⟩
    · rename_i hfails
      obtain ⟨rfl, rfl⟩ := Traces.of_done hcopy
      refine ⟨by simp [Makes], fun hr => ?_, fun e' hr => ?_⟩ <;> cases hr
      exact .notCopied (Bool.eq_false_iff.2 hfails)
  rcases Traces.of_call hcopy with ⟨rfl, rfl⟩ | ⟨found, es, rfl, hprobe⟩
  · simp [Makes]
  rcases found with e' | _ | _
  · obtain ⟨rfl, rfl⟩ := Traces.of_done hprobe
    refine ⟨by simp [Makes], fun hr => ?_, fun e'' hr => ?_⟩ <;> cases hr
    exact .notProbed nofun
  · obtain ⟨rfl, rfl⟩ := Traces.of_done hprobe
    refine ⟨by simp [Makes], fun hr => ?_, fun e' hr => ?_⟩ <;> cases hr
    exact .notVerified
  · -- The copy has been found, and the deletion decides.
    rcases Traces.of_ask hprobe with ⟨rfl, rfl⟩ | ⟨deleted, rfl, rfl⟩
    · simp [Makes]
    · refine ⟨by simp [Makes], fun hr => ?_, fun e' hr => ?_⟩ <;> cases hr
      · exact .inl rfl
      · exact .notDeleted

/-- Moving objects makes no calls but those of the moves. When it succeeds, every move has been
made; when it fails, those before one have been made, and that one has been broken off. -/
theorem traces_relocateAll {bucket : String} {moves : List Move} {es : List Event}
    {r : Option (Except StoreFailure Unit)} (h : Traces (relocateAll bucket moves) es r) :
    (∀ e ∈ es, ∃ m ∈ moves, m.Makes bucket e.call) ∧
    (r = some (.ok ()) → MadeAll bucket moves es) ∧
    ∀ e, r = some (.error e) → ∃ made m rest es₁ es₂, moves = made ++ m :: rest ∧
      es = es₁ ++ es₂ ∧ MadeAll bucket made es₁ ∧ m.Breaks bucket es₂ e := by
  induction moves generalizing es r with
  | nil =>
    obtain ⟨rfl, rfl⟩ := Traces.of_done h
    exact ⟨by simp, fun _ => .nil, nofun⟩
  | cons m rest ih =>
    rw [relocateAll] at h
    rcases Traces.of_bind h with ⟨rfl, hm⟩ | ⟨es₁, moved, es₂, rfl, hm, hrest⟩
    · exact ⟨fun e he => ⟨m, List.mem_cons_self, (traces_relocate hm).1 e he⟩, nofun, nofun⟩
    obtain ⟨hmakes, hmade, hbreaks⟩ := traces_relocate hm
    have hfirst : ∀ e ∈ es₁, ∃ m' ∈ m :: rest, m'.Makes bucket e.call := fun e he =>
      ⟨m, List.mem_cons_self, hmakes e he⟩
    -- The first move that fails ends them all.
    rcases moved with e | ⟨⟩
    · obtain ⟨rfl, rfl⟩ := Traces.of_done hrest
      rw [List.append_nil]
      refine ⟨hfirst, nofun, fun e' hr => ?_⟩
      obtain rfl := Except.error.inj (Option.some.inj hr)
      exact ⟨[], m, rest, [], es₁, rfl, rfl, .nil, hbreaks e rfl⟩
    obtain ⟨hcalls, hall, hbroken⟩ := ih hrest
    refine ⟨fun e he => ?_, fun hr => .cons (hmade rfl) (hall hr), fun e hr => ?_⟩
    · rcases List.mem_append.1 he with he | he
      · exact hfirst e he
      · obtain ⟨m', hm', hmk⟩ := hcalls e he
        exact ⟨m', List.mem_cons_of_mem _ hm', hmk⟩
    · obtain ⟨made, m', rest', es₃, es₄, rfl, rfl, hmades, hbreaks'⟩ := hbroken e hr
      exact ⟨m :: made, m', rest', es₁ ++ es₃, es₄, rfl, by simp, .cons (hmade rfl) hmades,
        hbreaks'⟩

end Move

/-! ## Invocations -/

namespace Settings

open Program (Traces)

/-- The move of a marker into quarantine. -/
def quarantineOf (s : Settings) (started : StartedMarker) : Move :=
  ⟨started.key, s.layout.quarantineKey started.key⟩

/-- The ways in which looking up an export can go. -/
inductive LooksUp (s : Settings) (x : StartedMarker) :
    List Event → Option (Except Failure RunCheck) → Prop
  /-- It is cut short at once. -/
  | stopped : LooksUp s x [] none
  /-- The service does not answer. -/
  | failed (e : JobFailure) : LooksUp s x [⟨.describe s.ledger x.manifest.exportId, .error e⟩]
      (some (.error (.lookup x.manifest.exportId e)))
  /-- The service knows the export. -/
  | found (status : JobStatus) :
    LooksUp s x [⟨.describe s.ledger x.manifest.exportId, .ok (.found status)⟩]
      (some (.ok ⟨x.key, some x.manifest.exportId, .running status⟩))
  /-- The service does not know the export, and its marker is moved into quarantine. -/
  | unknown {es : List Event} {r : Option (Except StoreFailure Unit)} :
    Traces ((s.quarantineOf x).relocate s.bucket) es r →
    LooksUp s x (⟨.describe s.ledger x.manifest.exportId, .ok .unknown⟩ :: es)
      (r.map fun moved => (moved.mapError Failure.store).map fun _ =>
        ⟨x.key, some x.manifest.exportId, .quarantined (s.layout.quarantineKey x.key)⟩)

/-- Looking up an export goes in one of these ways, whatever is answered. -/
theorem looksUp_of_traces {s : Settings} {x : StartedMarker} {es : List Event}
    {r : Option (Except Failure RunCheck)} (h : Traces (s.checkRun x).run es r) :
    s.LooksUp x es r := by
  rw [checkRun] at h
  rcases Traces.of_call (c := .describe s.ledger x.manifest.exportId) h with
    ⟨rfl, rfl⟩ | ⟨answer, es, rfl, hanswer⟩
  · exact .stopped
  rcases answer with e | status | _
  · obtain ⟨rfl, rfl⟩ := Traces.of_done hanswer
    exact .failed e
  · obtain ⟨rfl, rfl⟩ := Traces.of_done hanswer
    exact .found status
  -- What remains is the move of the marker.
  obtain ⟨r', hattempt, rfl⟩ := Traces.of_attempt_pure (x := Attempt.ofProgram Failure.store
    (Move.relocate s.bucket (s.quarantineOf x))) hanswer
  obtain ⟨r', hmove, rfl⟩ := Attempt.traces_ofProgram hattempt
  rw [Option.map_map]
  exact .unknown hmove

/-- Looking up an export makes that call, and those of moving its marker into quarantine only when
the service does not know the export. -/
theorem LooksUp.calls {s : Settings} {x : StartedMarker} {es : List Event}
    {r : Option (Except Failure RunCheck)} (h : s.LooksUp x es r) :
    ∀ e ∈ es, e.call = .describe s.ledger x.manifest.exportId ∨
      (s.quarantineOf x).Makes s.bucket e.call ∧
        (⟨.describe s.ledger x.manifest.exportId, .ok .unknown⟩ : Event) ∈ es := by
  cases h with
  | stopped => simp
  | failed | found => exact List.forall_mem_singleton.2 (.inl rfl)
  | unknown hmove =>
    refine List.forall_mem_cons.2 ⟨.inl rfl, fun e he => .inr ⟨?_, List.mem_cons_self⟩⟩
    exact (Move.traces_relocate hmove).1 e he

/-- A look-up that succeeds tells of the marker that it is about. -/
theorem LooksUp.markerKey_eq {s : Settings} {x : StartedMarker} {es : List Event}
    {r : Option (Except Failure RunCheck)} (h : s.LooksUp x es r) {check : RunCheck}
    (hr : r = some (.ok check)) : check.markerKey = x.key := by
  cases h with
  | stopped | failed => cases hr
  | found => cases hr; rfl
  | @unknown es moved hmove => rcases moved with _ | e | ⟨⟩ <;> cases hr; rfl

/-- Looking up exports makes no calls but those of each look-up. -/
theorem traces_checkRuns {s : Settings} {running : List StartedMarker} {es : List Event}
    {r : Option (Except Failure (List RunCheck))} (h : Traces (s.checkRuns running).run es r) :
    ∀ e ∈ es, ∃ started ∈ running, e.call = .describe s.ledger started.manifest.exportId ∨
      (s.quarantineOf started).Makes s.bucket e.call ∧
        (⟨.describe s.ledger started.manifest.exportId, .ok .unknown⟩ : Event) ∈ es := by
  induction running generalizing es r with
  | nil =>
    obtain ⟨rfl, rfl⟩ := Traces.of_done h
    simp
  | cons started rest ih =>
    have hfirst {es : List Event} {r : Option (Except Failure RunCheck)}
        (hx : Traces (s.checkRun started).run es r) : ∀ e ∈ es, _ := (looksUp_of_traces hx).calls
    rw [checkRuns] at h
    rcases Traces.of_attempt h with ⟨-, hx⟩ | ⟨e, -, hx⟩ | ⟨es₁, check, es₂, rfl, hx, hrest⟩
    · exact fun e he => ⟨started, List.mem_cons_self, hfirst hx e he⟩
    · exact fun e he => ⟨started, List.mem_cons_self, hfirst hx e he⟩
    obtain ⟨r', hmore, -⟩ := Traces.of_attempt_pure hrest
    intro e he
    rcases List.mem_append.1 he with he | he
    · refine ⟨started, List.mem_cons_self, (hfirst hx e he).imp_right fun hq => ?_⟩
      exact ⟨hq.1, List.mem_append_left _ hq.2⟩
    · obtain ⟨started', hmem, hcall⟩ := ih hmore e he
      refine ⟨started', List.mem_cons_of_mem _ hmem, hcall.imp_right fun hq => ?_⟩
      exact ⟨hq.1, List.mem_append_right _ hq.2⟩

/-- A trace to the end of look-ups, of which there is at least one, is one of the first look-up that
fails, or one of the first and one of the others. -/
theorem traces_checkRuns_cons {s : Settings} {x : StartedMarker} {rest : List StartedMarker}
    {es : List Event} {r : Except Failure (List RunCheck)}
    (h : Traces (s.checkRuns (x :: rest)).run es (some r)) :
    (∃ f, r = .error f ∧ s.LooksUp x es (some (.error f))) ∨
      ∃ es₁ check es₂ r', es = es₁ ++ es₂ ∧ s.LooksUp x es₁ (some (.ok check)) ∧
        Traces (s.checkRuns rest).run es₂ (some r') ∧ r = r'.map (check :: ·) := by
  rw [checkRuns] at h
  rcases Traces.of_attempt h with ⟨hr, -⟩ | ⟨f, hr, hx⟩ | ⟨es₁, check, es₂, rfl, hx, hrest⟩
  · cases hr
  · exact .inl ⟨f, Option.some.inj hr, looksUp_of_traces hx⟩
  · obtain ⟨r', hmore, rfl⟩ := Traces.of_attempt_pure_some hrest
    exact .inr ⟨es₁, check, es₂, r', rfl, looksUp_of_traces hx, hmore, rfl⟩

/-- Look-ups that succeed tell of the markers that they are about, in order. -/
theorem markerKeys_of_checkRuns {s : Settings} {running : List StartedMarker} {es : List Event}
    {checks : List RunCheck} (h : Traces (s.checkRuns running).run es (some (.ok checks))) :
    checks.map (·.markerKey) = running.map (·.key) := by
  induction running generalizing es checks with
  | nil =>
    cases (Traces.of_done h).2
    rfl
  | cons x rest ih =>
    rcases traces_checkRuns_cons h with ⟨f, hr, -⟩ | ⟨es₁, check, es₂, r', -, hx, hmore, hr⟩
    · cases hr
    rcases r' with f | more <;> cases hr
    rw [List.map_cons, List.map_cons, ih hmore, hx.markerKey_eq rfl]

/-- Submitting a plan makes that call first. If it fails, it is the only one; if it succeeds, what
remains is the moves of the plan. -/
theorem traces_submit {s : Settings} {plan : Plan} {es : List Event}
    {r : Option (Except Failure Outcome)} (h : Traces (s.submit plan).run es r) :
    (es = [] ∧ r = none) ∨
      (∃ e, es = [⟨.submit (s.request plan.window), .error e⟩] ∧
        r = some (.error (.submit e))) ∨
      ∃ exportId es' r', es = ⟨.submit (s.request plan.window), .ok exportId⟩ :: es' ∧
        Traces (Move.relocateAll s.bucket plan.moves) es' r' ∧
        r = r'.map fun moved => (moved.mapError Failure.store).map fun _ =>
          .submitted exportId plan.window plan.moves.length := by
  rw [submit] at h
  rcases Traces.of_call (c := .submit (s.request plan.window)) h with
    ⟨rfl, rfl⟩ | ⟨answer, es, rfl, hrest⟩
  · exact .inl ⟨rfl, rfl⟩
  rcases answer with e | exportId
  · obtain ⟨rfl, rfl⟩ := Traces.of_done hrest
    exact .inr (.inl ⟨e, rfl, rfl⟩)
  -- Once the request is accepted, only the moves decide how it ends.
  obtain ⟨r', hx, rfl⟩ := Traces.of_attempt_pure (x := Attempt.ofProgram Failure.store
    (Move.relocateAll s.bucket plan.moves)) hrest
  obtain ⟨r', hmoves, rfl⟩ := Attempt.traces_ofProgram hx
  exact .inr (.inr ⟨exportId, es, r', rfl, hmoves, by rw [Option.map_map]; rfl⟩)

/-- Why an invocation that has only read has failed: it could not take its survey, or the survey
calls for nothing. -/
def Stalls (s : Settings) (now : Time.Instant) (es : List Event) (f : Failure) : Prop :=
  Survey.Fails s.bucket s.keyPrefix es f ∨ ∃ (v : Sighting) (survey : Survey),
    es = v.events s.bucket s.keyPrefix ∧ v.survey? s.keyPrefix = .ok survey ∧
      survey.assess now.cutToMillis s.epoch s.layout = .error f

/-- An invocation only reads until its survey is taken and calls for something; then it does what
the survey calls for. -/
theorem traces_invoke {s : Settings} {now : Time.Instant} {es : List Event}
    {r : Option (Except Failure Outcome)} (h : Traces (s.invoke now).run es r) :
    ((∀ e ∈ es, e.call.isReading = true) ∧
        ∀ x, r = some x → ∃ f, x = .error f ∧ s.Stalls now es f) ∨
      ∃ (v : Sighting) (survey : Survey) (a : Assessment) (es' : List Event),
        es = v.events s.bucket s.keyPrefix ++ es' ∧ v.survey? s.keyPrefix = .ok survey ∧
        survey.assess now.cutToMillis s.epoch s.layout = .ok a ∧
        Traces (s.carryOut a).run es' r := by
  rw [invoke] at h
  rcases Traces.of_attempt h with
    ⟨rfl, htake⟩ | ⟨f, rfl, htake⟩ | ⟨es₁, survey, es₂, rfl, htake, hrest⟩
  · exact .inl ⟨(Survey.traces_take htake).1, by simp⟩
  · obtain ⟨hread, -, hfails⟩ := Survey.traces_take htake
    refine .inl ⟨hread, fun x hx => ⟨f, (Option.some.inj hx).symm, .inl (hfails f rfl)⟩⟩
  obtain ⟨hread, hseen, -⟩ := Survey.traces_take htake
  obtain ⟨v, rfl, hv⟩ := hseen survey rfl
  rcases Traces.of_attempt hrest with ⟨rfl, ha⟩ | ⟨f, rfl, ha⟩ | ⟨es₃, a, es₄, rfl, ha, hdo⟩
  -- Assessing makes no calls, and so it is not cut short.
  · exact nomatch (Traces.of_done ha).2
  · obtain ⟨rfl, hf⟩ := Traces.of_done ha
    refine .inl ⟨by simpa using hread, fun x hx => ⟨f, (Option.some.inj hx).symm, .inr ?_⟩⟩
    exact ⟨v, survey, List.append_nil _, hv, (Option.some.inj hf).symm⟩
  · obtain ⟨rfl, hok⟩ := Traces.of_done ha
    exact .inr ⟨v, survey, a, es₄, rfl, hv, (Option.some.inj hok).symm, hdo⟩

end Settings

end LedgerExport
