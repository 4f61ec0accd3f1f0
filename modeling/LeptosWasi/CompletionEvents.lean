import LeptosWasi.TracedResponse

namespace LeptosWasi.CompletionEvents

open Http LeptosWasi.Core Render Trace TracedResponse RequestTraceState

variable {B E : Type}

def dataLength : PollFrame E → Nat
  | .frame (.data bytes) => bytes.length
  | _ => 0

def handed (results : List (PollFrame E)) : Nat := (results.map dataLength).sum

def Closed (results : List (PollFrame E)) : Prop := ∃ r ∈ results, r.closes = true

/-- The end of the stream was reached, or an error received. -/
def Reached (body : HttpBody B E) (s : Session B E) : Prop :=
  Closed s.results ∨ body.isEndStream s.body.inner = true

/-- The events of a consumer that drops the body now are as they should be. -/
def Exact (body : HttpBody B E) (s : Session B E) (elapsed : Nat) : Prop :=
  ∃ event, s.dropped elapsed = [event] ∧ event.responseBytes = handed s.results ∧
    (event.cancellation = true ↔ ¬ Reached body s)

structure Accounted (status : StatusCode) (s : Session B E) : Prop where
  sent : s.body.status = status
  bytes : s.body.responseBytes = min (handed s.results) u64Max
  opened : ¬ Closed s.results → s.body.trace.finished = false ∧ s.events = []
  closed : Closed s.results → s.body.trace.finished = true ∧ ∃ event, s.events = [event] ∧
    event.status = status ∧ event.responseBytes = min (handed s.results) u64Max ∧
    event.cancellation = false

theorem handed_concat (results : List (PollFrame E)) (r : PollFrame E) :
    handed (results ++ [r]) = handed results + dataLength r := by
  simp [handed]

theorem closed_concat (results : List (PollFrame E)) (r : PollFrame E) :
    Closed (results ++ [r]) ↔ Closed results ∨ r.closes = true := by
  simp [Closed, or_and_right, exists_or]

theorem accounted_start (inner : B) (status : StatusCode) :
    Accounted status (.start (.new inner ⟨0, false⟩ status) : Session B E) := by
  refine ⟨rfl, rfl, fun _ => ⟨rfl, rfl⟩, ?_⟩
  rintro ⟨r, hr, -⟩
  cases hr

theorem traceFinish_open {t : TraceBody B} (h : t.trace.finished = false)
    (elapsed : Nat) (cancellation : Bool)
    (errorClass : String) : ∃ event, t.traceFinish elapsed cancellation errorClass =
      ({ t with trace := { t.trace with finished := true } }, some event) ∧
      event.status = t.status ∧
      event.responseBytes = t.responseBytes ∧ event.cancellation = cancellation := by
  simp only [TraceBody.traceFinish, RequestTraceState.finish, h, Bool.false_eq_true, if_false]
  exact ⟨_, rfl, rfl, rfl, rfl⟩

theorem traceFinish_finished {t : TraceBody B} (h : t.trace.finished = true)
    (elapsed : Nat) (cancellation : Bool)
    (errorClass : String) : t.traceFinish elapsed cancellation errorClass = (t, none) := by
  simp only [TraceBody.traceFinish, RequestTraceState.finish, h, if_true]

theorem count_spec (t : TraceBody B) (elapsed : Nat) (frame : Frame) (n : Nat)
    (hbytes : t.responseBytes = min n u64Max) :
    (t.count elapsed frame).status = t.status ∧
      (t.count elapsed frame).trace.finished = t.trace.finished ∧
      (t.count elapsed frame).responseBytes = min
      (n + dataLength (.frame frame : PollFrame E)) u64Max := by
  cases frame with
  | trailers headers => exact ⟨rfl, rfl, hbytes⟩
  | data bytes =>
    rw [TraceBody.count]
    split_ifs with hlength
    · refine ⟨rfl, ?_, ?_⟩
      · simp only [markFirstByte]
        split_ifs <;> rfl
      · simp only [saturatingAdd, hbytes, dataLength]
        omega
    · refine ⟨rfl, rfl, ?_⟩
      simp only [ne_eq, not_not] at hlength
      simp only [hbytes, dataLength, hlength, Nat.add_zero]

theorem Accounted.close {status : StatusCode} {s : Session B E} (ha : Accounted status s)
    (hopen : ¬ Closed s.results) (inner : B) {r : PollFrame E}
    (hr : r.closes = true) (elapsed : Nat)
    (errorClass : String) :
    let (t, event) := TraceBody.traceFinish { s.body with inner := inner } elapsed false errorClass
    Accounted status ⟨t, s.results ++ [r], s.events ++ event.toList⟩ := by
  obtain ⟨hfinished, hevents⟩ := ha.opened hopen
  have hlength : dataLength r = 0 := by cases r <;> first | rfl | cases hr
  obtain ⟨event, heq, hstatus, hbytes, hcancel⟩ :=
    traceFinish_open (t := { s.body with inner := inner }) hfinished elapsed false errorClass
  rw [heq]
  refine ⟨ha.sent, ?_, fun hclosed => absurd ((closed_concat _ _).mpr (Or.inr hr)) hclosed,
    fun _ => ?_⟩
  · rw [handed_concat, hlength, Nat.add_zero]
    exact ha.bytes
  · refine ⟨rfl, event, by simp [hevents], hstatus.trans ha.sent, ?_, hcancel⟩
    rw [handed_concat, hlength, Nat.add_zero]
    exact hbytes.trans ha.bytes

theorem Accounted.poll {status : StatusCode} {s : Session B E}
    (body : HttpBody B E) (ha : Accounted status s)
    (hopen : ¬ Closed s.results) (elapsed : Nat) : Accounted status (s.poll body elapsed) := by
  obtain ⟨hfinished, hevents⟩ := ha.opened hopen
  rw [Session.poll, TraceBody.pollFrame]
  cases hpoll : body.pollFrame s.body.inner with
  | mk inner result =>
    cases result with
    | pending =>
      refine ⟨ha.sent, ?_, fun _ => ⟨hfinished, ?_⟩, fun hclosed => ?_⟩
      · simpa [handed_concat, dataLength] using ha.bytes
      · simp [hevents]
      · simp [closed_concat, hopen, PollFrame.closes] at hclosed
    | frame frame =>
      obtain ⟨hstatus, hflag, hbytes⟩ :=
        count_spec (E := E) { s.body with inner := inner } elapsed frame _ ha.bytes
      refine ⟨hstatus.trans ha.sent, ?_, fun _ => ⟨hflag.trans hfinished, ?_⟩, fun hclosed => ?_⟩
      · simpa [handed_concat] using hbytes
      · simp [hevents]
      · simp [closed_concat, hopen, PollFrame.closes] at hclosed
    | error e => exact ha.close hopen inner rfl elapsed "response_stream"
    | ended => exact ha.close hopen inner rfl elapsed "none"

theorem run_accounted {body : HttpBody B E} {inner : B}
    {status : StatusCode} {polls : List Nat} {s : Session B E}
    (h : (consumer body (.new inner ⟨0, false⟩ status)).Run polls s) : Accounted status s := by
  refine h.invariant (fun _ s => Accounted status s) ?_ ?_
  · rintro _ rfl
    exact accounted_start inner status
  · rintro _ s elapsed _ ha ⟨hopen, rfl⟩
    refine ha.poll body ?_ elapsed
    rintro ⟨r, hr, hcloses⟩
    rw [hopen r hr] at hcloses
    cases hcloses

theorem dropped_event {status : StatusCode} {s : Session B E}
    (ha : Accounted status s) (elapsed : Nat) :
    ∃ event, s.dropped elapsed = [event] ∧ event.status = status ∧
      event.responseBytes = min (handed s.results) u64Max ∧
      (event.cancellation = true ↔ ¬ Closed s.results) := by
  by_cases hclosed : Closed s.results
  · obtain ⟨hfinished, event, hevents, hstatus, hbytes, hcancel⟩ := ha.closed hclosed
    refine ⟨event, ?_, hstatus, hbytes, by simp [hcancel, hclosed]⟩
    rw [Session.dropped, TraceBody.drop, traceFinish_finished hfinished, hevents]
    rfl
  · obtain ⟨hfinished, hevents⟩ := ha.opened hclosed
    obtain ⟨event, heq, hstatus, hbytes, hcancel⟩ :=
      traceFinish_open hfinished elapsed true "body_dropped"
    refine ⟨event, ?_, hstatus.trans ha.sent, hbytes.trans ha.bytes, by simp [hcancel, hclosed]⟩
    rw [Session.dropped, TraceBody.drop, heq, hevents]
    rfl

/-- A body emits one event whatever its consumer does. The event is as it
should be exactly when the consumer does not drop the body at its end without
a last poll, and its bytes fit the counter. -/
theorem completion_event_exact_iff {body : HttpBody B E}
    {inner : B} {status : StatusCode} {polls : List Nat}
    {s : Session B E} (h : (consumer body (.new inner ⟨0, false⟩ status)).Run polls s)
    (elapsed : Nat) :
    (s.dropped elapsed).length = 1 ∧
      (Exact body s elapsed ↔
        (Closed s.results ∨ body.isEndStream s.body.inner = false) ∧
        handed s.results ≤ u64Max) := by
  obtain ⟨event, hevents, -, hbytes, hcancel⟩ := dropped_event (run_accounted h) elapsed
  have hexact : Exact body s elapsed ↔
      event.responseBytes = handed s.results ∧ (event.cancellation = true ↔ ¬ Reached body s) := by
    constructor
    · rintro ⟨event', hevents', h⟩
      rw [hevents, List.cons.injEq] at hevents'
      rwa [hevents'.1]
    · exact fun h => ⟨event, hevents, h⟩
  refine ⟨by rw [hevents]; rfl, ?_⟩
  rw [hexact, hbytes, hcancel, Reached, and_comm]
  refine and_congr ?_ min_eq_left_iff
  cases body.isEndStream s.body.inner <;> by_cases hclosed : Closed s.results <;> simp [hclosed]

def fallback : TraceBody ResponseBody :=
  tracedResponse .originForm .silent (HandlerCore.new ⟨.get, pathUri "/", ∅, []⟩ .default) []

def firstPoll : Session ResponseBody BodyError := (Session.start fallback).poll responseBody 5

theorem firstPoll_run : (consumer responseBody fallback).Run [5] firstPoll :=
  .next (.start rfl) ⟨by simp [Session.start], rfl⟩

theorem completion_event_exact_iff_polled :
    Exact responseBody (firstPoll.poll responseBody 6) 7 := by
  have hframe : firstPoll.results.all fun r => !r.closes := by decide +kernel
  have hclosed : (firstPoll.poll responseBody 6).results.any fun r => r.closes := by decide +kernel
  have hopen : ∀ r ∈ firstPoll.results, r.closes = false := by simpa using hframe
  have hrun : (consumer responseBody fallback).Run ([5] ++ [6]) (firstPoll.poll responseBody 6) :=
    .next firstPoll_run ⟨hopen, rfl⟩
  refine (completion_event_exact_iff hrun 7).2.mpr
    ⟨Or.inl (by simpa [Closed] using hclosed), by decide +kernel⟩

/-- A consumer that takes the buffer and sees that the body is at its end is
reported as one that canceled. -/
theorem buffer_taken_canceled : (consumer responseBody fallback).Run [5] firstPoll ∧
    responseBody.isEndStream firstPoll.body.inner = true ∧ handed firstPoll.results = 13 ∧
    (firstPoll.dropped 7).map
    (fun event => (event.cancellation, event.errorClass)) = [(true, "body_dropped")] ∧
    ¬ Exact responseBody firstPoll 7 := by
  have hend : responseBody.isEndStream firstPoll.body.inner = true := by decide +kernel
  have hdropped : (firstPoll.dropped 7).map (fun event => (event.cancellation, event.errorClass)) =
      [(true, "body_dropped")] := by decide +kernel
  refine ⟨.next (.start rfl) ⟨by simp [Session.start], rfl⟩, hend, by decide +kernel, hdropped, ?_⟩
  rintro ⟨event, hevents, -, hcancel⟩
  rw [hevents] at hdropped
  exact hcancel.mp (Prod.mk.inj (List.cons.inj hdropped).1).1 (Or.inr hend)

end LeptosWasi.CompletionEvents
