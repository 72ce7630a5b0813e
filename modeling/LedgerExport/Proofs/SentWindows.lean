import LedgerExport.Proofs.Turns
import LedgerExport.Proofs.Warrants
import LedgerExport.Remote.Exchange
import LedgerExport.Remote.Wire

/-!
# The range that is sent

What the service is told of a window that an invocation submits. Windows are compared by
nanoseconds, and the service is told milliseconds. Cutting a time keeps it in its second, but a leap
second is counted on into the next one, where its milliseconds are those of later times. So a window
that starts in a leap second and ends in the second behind it can be sent the wrong way around
(`Window.StartsAhead`), and `sent_range` says that no other window is. On the wire, times of one
second before 1970 change places once more (`writtenMillis_lt_iff`).
-/

namespace LedgerExport

open Time Remote

/-- The window starts in a leap second and ends in the second behind it, no later in that second
than it starts when the leap second is counted on into it. -/
def Window.StartsAhead (w : Window) : Prop :=
  w.stop.seconds = w.start.seconds + 1 ∧ w.stop.nanos + nanosPerSecond ≤ w.start.nanos

/-- A window that is not empty and ends at a whole millisecond is not empty in milliseconds unless
it starts ahead. -/
theorem Window.millis_lt_iff {w : Window} (hlt : w.start < w.stop)
    (hstop : w.stop.nanos % nanosPerMilli = 0) :
    w.start.millis < w.stop.millis ↔ ¬w.StartsAhead := by
  -- The nanoseconds of a leap second go on for one more second, and no further.
  have hstart := w.start.nanos_lt
  have hlt : w.start.seconds < w.stop.seconds ∨
      w.start.seconds = w.stop.seconds ∧ w.start.nanos < w.stop.nanos := hlt
  unfold StartsAhead Instant.millis
  unfold nanosPerSecond at hstart ⊢
  unfold nanosPerMilli at hstop ⊢
  omega

/-- Times are written in their order, but those of one second before 1970 the other way around. -/
theorem Remote.writtenMillis_lt_iff (m n : Int) :
    writtenMillis m < writtenMillis n ↔ if n < 0 ∧ m / 1000 = n / 1000 then n < m else m < n := by
  unfold writtenMillis
  split <;> split <;> split <;> omega

namespace Settings

/-- What an invocation submits is a window that some sighting admits and that ends at the clock cut
to milliseconds. -/
theorem Unfolds.submits {s : Settings} {now : Instant} {es : List Event}
    {r : Option (Except Failure Outcome)} (h : s.Unfolds now es r) {request : ExportRequest}
    {answer : Except JobFailure String} (hmem : ⟨.submit request, answer⟩ ∈ es) :
    ∃ (v : Sighting) (window : Window), request = s.request window ∧ v.Admits s.epoch window ∧
      window.stop = now.cutToMillis := by
  rcases h.submission with hnone | ⟨v, window, answer', es', rfl, hadmits, hstop, hrest⟩
  · exact nomatch hnone _ hmem
  refine ⟨v, window, ?_, hadmits, hstop⟩
  -- The submission is neither one of the calls of the sighting nor one of those behind it.
  rcases List.mem_append.1 hmem with he | he
  · exact nomatch (Call.reads_only (Sighting.isReading_of_mem_events he)).1
  rcases List.mem_cons.1 he with he | he
  · exact Call.submit.inj (congrArg Event.call he)
  · exact nomatch (hrest _ he).1

/-- However the store and the service answer and wherever a limit cuts it short, an invocation
submits windows that end less than a millisecond before the clock. The service is told their ends in
milliseconds, and the range that it is told is neither empty nor reversed unless the window starts
ahead. -/
theorem sent_range {σ : Type} (s : Settings) (now : Instant) (respond : Responder σ)
    (cost : Call → Nat) (limit : Option Nat) (w : σ) {request : ExportRequest}
    {answer : Except JobFailure String}
    (h : ⟨.submit request, answer⟩ ∈ (s.invoke now).run.eventsFrom respond cost limit w 0) :
    let start := request.window.start
    let stop := request.window.stop
    (stop ≤ now ∧ stop.seconds = now.seconds ∧ now.nanos < stop.nanos + nanosPerMilli) ∧
      ∃ job, requestFor .none (.submit request) = .start s.ledger job ∧
        job.inclusiveStartTime = start.millis ∧ job.exclusiveEndTime = stop.millis ∧
        (job.inclusiveStartTime < job.exclusiveEndTime ↔ ¬request.window.StartsAhead) ∧
        (writtenMillis job.inclusiveStartTime < writtenMillis job.exclusiveEndTime ↔
          if stop.millis < 0 ∧ start.millis / 1000 = stop.millis / 1000 then
            stop.millis < start.millis
          else ¬request.window.StartsAhead) := by
  intro start stop
  have htrace := Program.traces_eventsFrom respond cost limit (s.invoke now).run w 0
  obtain ⟨v, window, rfl, hadmits, hstop⟩ := (unfolds_of_traces htrace).submits h
  have hstop : stop = now.cutToMillis := hstop
  have hmillis : start.millis < stop.millis ↔ ¬(s.request window).window.StartsAhead := by
    refine Window.millis_lt_iff hadmits.start_lt_stop ?_
    rw [show (s.request window).window.stop = _ from hstop]
    exact now.cutToMillis_nanos_mod
  refine ⟨hstop ▸ now.cutToMillis_bounds, .ofRequest (s.request window), rfl, rfl, rfl, hmillis, ?_⟩
  rw [← hmillis]
  exact writtenMillis_lt_iff start.millis stop.millis

/-- Settings with an epoch half a second into the leap second at the end of the year 2023. -/
def leapingEpoch : Settings :=
  { Settings.sample "p/" "p/" with epoch := ⟨1704067199, 1500000000, by decide, Instant.midLeap_lt⟩ }

/-- The window from that epoch to so many seconds after the year. -/
def leapingWindow (seconds : UInt32) : Window :=
  ⟨leapingEpoch.epoch, (Turn.sample seconds .none).now⟩

/-- The window is submitted at its end when there are no markers. -/
theorem mem_events_leaping (seconds : UInt32) (h : seconds = 0 ∨ seconds = 1) :
    ∃ answer, ⟨.submit (leapingEpoch.request (leapingWindow seconds)), answer⟩ ∈
      (Turn.sample seconds .none).events leapingEpoch .empty := by
  have hany : ((Turn.sample seconds .none).events leapingEpoch .empty).any
      (·.call = .submit (leapingEpoch.request (leapingWindow seconds))) = true := by
    rcases h with rfl | rfl <;> decide +kernel
  obtain ⟨before, answer, after, hes⟩ := exists_split hany
  exact ⟨answer, hes ▸ List.mem_append_cons_self⟩

/-- One second after the year, the range that is sent has a beginning before its end. -/
theorem sent_range_leaping : ∃ answer,
    ⟨.submit (leapingEpoch.request (leapingWindow 1)), answer⟩ ∈
      (Turn.sample 1 .none).events leapingEpoch .empty ∧
    ∃ job, requestFor .none (.submit (leapingEpoch.request (leapingWindow 1))) =
        .start "ledger" job ∧ job.inclusiveStartTime < job.exclusiveEndTime := by
  obtain ⟨answer, hmem⟩ := mem_events_leaping 1 (.inr rfl)
  obtain ⟨-, job, hjob, -, -, hlt, -⟩ := sent_range leapingEpoch _ _ _ _ _ hmem
  refine ⟨answer, hmem, job, hjob, hlt.2 ?_⟩
  unfold Window.StartsAhead
  decide

/-- At the turn of the year, the range that is sent ends before it begins. -/
theorem reversed_range_sent : ∃ answer,
    ⟨.submit (leapingEpoch.request (leapingWindow 0)), answer⟩ ∈
      (Turn.sample 0 .none).events leapingEpoch .empty ∧
    ∃ job, requestFor .none (.submit (leapingEpoch.request (leapingWindow 0))) =
        .start "ledger" job ∧ job.exclusiveEndTime < job.inclusiveStartTime := by
  obtain ⟨answer, hmem⟩ := mem_events_leaping 0 (.inl rfl)
  exact ⟨answer, hmem, _, rfl, by decide⟩

end Settings

end LedgerExport
