import LeptosWasi.BodyStreams
import LeptosWasi.Library.Histories
import LeptosWasi.StreamGuard

namespace LeptosWasi.StreamGuard

open Http TracedResponse TrustedIngress BodyStreams

variable {B E : Type}

def boxed : PollFrame E → PollFrame (BoxError E)
  | .pending => .pending
  | .frame frame => .frame frame
  | .error error => .error (.inner error)
  | .ended => .ended

def after (body : HttpBody B E) (n : Nat) (inner : B) : B :=
  (fun b => (body.pollFrame b).1)^[n] inner

/-- The time since which a stream is idle: its start, or the last frame. -/
def idleSince (started : Nat) (log : List (Tick × PollFrame (BoxError E))) : Nat :=
  log.foldl (fun since entry => match entry.2 with
    | .frame _ => entry.1.returned
    | .pending | .error _ | .ended => since) started

/-- What a stream is worth to the metrics, from its last poll and from when its
body is dropped. -/
def account (g : GuardedBody B) (last : Option (Tick × PollFrame (BoxError E))) (now : Nat) :
    List Metric :=
  match last with
  | some (tick, .ended) => g.finish tick.returned
  | some (tick, .error (.inner _)) => .error .terminalTransport :: g.finish tick.returned
  | some (tick, .error (.timedOut _)) => .error .streamTimeout :: g.finish tick.returned
  | some (_, .frame _) | some (_, .pending) | none => .responseBodyAbort :: g.finish now

/-- A poll fails for a deadline only once that has passed, and returns nothing
else for longer than the timers are late. -/
structure Timely (g : GuardedBody B) (before : List (Tick × PollFrame (BoxError E)))
    (entry : Tick × PollFrame (BoxError E)) : Prop where
  expired : entry.2 = .error deadlineExceeded →
    g.total ≤ entry.1.polled ∨ idleSince g.bodyStarted before + g.idleDuration ≤ entry.1.polled
  live : entry.2 ≠ .error deadlineExceeded → ∀ slack, entry.1.OnTime slack →
    entry.1.polled < g.total + slack ∧
      entry.1.polled < idleSince g.bodyStarted before + g.idleDuration + slack

theorem boxed_ne_deadlineExceeded (r : PollFrame E) : boxed r ≠ .error deadlineExceeded := by
  intro h
  cases r <;> cases h

theorem after_succ (body : HttpBody B E) (n : Nat) (inner : B) :
    after body (n + 1) inner = (body.pollFrame (after body n inner)).1 :=
  Function.iterate_succ_apply' _ _ _

theorem polls_succ (body : HttpBody B E) (n : Nat) (inner : B) :
    polls body (n + 1) inner = polls body n inner ++ [(body.pollFrame (after body n inner)).2] := by
  induction n generalizing inner with
  | zero => rfl
  | succ n ih =>
    rw [polls, ih, polls, List.cons_append]
    rfl

theorem idleSince_append (started : Nat) (log : List (Tick × PollFrame (BoxError E))) (tick : Tick)
    (r : PollFrame (BoxError E)) :
    idleSince started (log ++ [(tick, r)]) =
      match r with
      | .frame _ => tick.returned
      | .pending | .error _ | .ended => idleSince started log := by
  rw [idleSince, List.foldl_append]
  cases r <;> rfl

theorem le_idleSince {started : Nat} {log : List (Tick × PollFrame (BoxError E))}
    (h : ∀ entry ∈ log, started ≤ entry.1.returned) : started ≤ idleSince started log := by
  induction log using List.reverseRecOn with
  | nil => exact Nat.le_refl _
  | append_singleton log entry ih =>
    obtain ⟨tick, r⟩ := entry
    rw [idleSince_append]
    have hlog := ih fun e he => h e (List.mem_append_left _ he)
    have htick := h (tick, r) (List.mem_append_right _ (List.mem_singleton_self _))
    cases r
    · exact hlog
    · exact htick
    · exact hlog
    · exact hlog

section Poll

variable (body : HttpBody B E) {g : GuardedBody B} {tick : Tick}

theorem pollFrame_fired (h : (tick.fired g.total || tick.fired g.idle) = true) :
    g.pollFrame body tick =
      ({ g with completed := true }, .error deadlineExceeded,
        .error .streamTimeout :: g.finish tick.returned) :=
  if_pos h

theorem pollFrame_live (h : (tick.fired g.total || tick.fired g.idle) ≠ true) :
    (g.pollFrame body tick).1.inner = (body.pollFrame g.inner).1 ∧
      (g.pollFrame body tick).2.1 = boxed (body.pollFrame g.inner).2 := by
  rw [GuardedBody.pollFrame, if_neg h]
  obtain ⟨inner, poll⟩ := body.pollFrame g.inner
  cases poll <;> exact ⟨rfl, rfl⟩

theorem pollFrame_fixed (g : GuardedBody B) (tick : Tick) :
    (g.pollFrame body tick).1.total = g.total ∧
      (g.pollFrame body tick).1.bodyStarted = g.bodyStarted ∧
      (g.pollFrame body tick).1.requestStarted = g.requestStarted ∧
      (g.pollFrame body tick).1.idleDuration = g.idleDuration := by
  by_cases h : (tick.fired g.total || tick.fired g.idle) = true
  · rw [pollFrame_fired body h]
    exact ⟨rfl, rfl, rfl, rfl⟩
  · rw [GuardedBody.pollFrame, if_neg h]
    obtain ⟨inner, poll⟩ := body.pollFrame g.inner
    cases poll <;> exact ⟨rfl, rfl, rfl, rfl⟩

theorem pollFrame_idle (g : GuardedBody B) (tick : Tick) :
    (g.pollFrame body tick).1.idle =
      match (g.pollFrame body tick).2.1 with
      | .frame _ => tick.returned + g.idleDuration
      | .pending | .error _ | .ended => g.idle := by
  by_cases h : (tick.fired g.total || tick.fired g.idle) = true
  · rw [pollFrame_fired body h]
  · rw [GuardedBody.pollFrame, if_neg h]
    obtain ⟨inner, poll⟩ := body.pollFrame g.inner
    cases poll <;> rfl

/-- A poll that closes the stream settles its account, and no other poll
writes. -/
theorem pollFrame_account (tick : Tick) (hopen : g.completed = false) :
    (g.pollFrame body tick).1.completed = (g.pollFrame body tick).2.1.closes ∧
      ∀ now, (g.pollFrame body tick).2.2 ++ (g.pollFrame body tick).1.drop now =
        account g (some (tick, (g.pollFrame body tick).2.1)) now := by
  by_cases h : (tick.fired g.total || tick.fired g.idle) = true
  · rw [pollFrame_fired body h]
    exact ⟨rfl, fun now => List.append_nil _⟩
  · rw [GuardedBody.pollFrame, if_neg h]
    obtain ⟨inner, poll⟩ := body.pollFrame g.inner
    cases poll with
    | pending => exact ⟨hopen, fun now => by simp only [GuardedBody.drop, hopen]; rfl⟩
    | frame frame => exact ⟨hopen, fun now => by simp only [GuardedBody.drop, hopen]; rfl⟩
    | error e => exact ⟨rfl, fun now => List.append_nil _⟩
    | ended => exact ⟨rfl, fun now => List.append_nil _⟩

theorem pollFrame_open :
    (g.pollFrame body tick).2.1.closes = true ∨ (g.pollFrame body tick).2.2 = [] := by
  by_cases h : (tick.fired g.total || tick.fired g.idle) = true
  · rw [pollFrame_fired body h]
    exact .inl rfl
  · rw [GuardedBody.pollFrame, if_neg h]
    obtain ⟨inner, poll⟩ := body.pollFrame g.inner
    cases poll with
    | pending | frame => exact .inr rfl
    | error | ended => exact .inl rfl

end Poll

structure Kept (body : HttpBody B E) (g : GuardedBody B) (s : Session B E) : Prop where
  total : s.guard.total = g.total
  bodyStarted : s.guard.bodyStarted = g.bodyStarted
  requestStarted : s.guard.requestStarted = g.requestStarted
  idleDuration : s.guard.idleDuration = g.idleDuration
  idle : s.guard.idle = idleSince g.bodyStarted s.log + g.idleDuration
  since : ∀ entry ∈ s.log, g.bodyStarted ≤ entry.1.returned
  timely : Justified (Timely g) s.log
  delivered : ∃ n, s.guard.inner = after body n g.inner ∧
    (s.log.map Prod.snd = (polls body n g.inner).map boxed ∨
      s.log.map Prod.snd = (polls body n g.inner).map boxed ++ [.error deadlineExceeded])
  completed : (∀ entry ∈ s.log, entry.2.closes = false) → s.guard.completed = false ∧ s.metrics = []
  accounted : ∀ now, s.dropped now = account g s.log.getLast? now

section Step

variable {body : HttpBody B E} {g : GuardedBody B} {s : Session B E} {tick : Tick}

theorem account_congr {g' : GuardedBody B} (hb : g'.bodyStarted = g.bodyStarted)
    (hr : g'.requestStarted = g.requestStarted) (last : Option (Tick × PollFrame (BoxError E)))
    (now : Nat) :
    account g' last now = account g last now := by
  have hfinish (time : Nat) : g'.finish time = g.finish time := by
    simp only [GuardedBody.finish, hb, hr]
  simp only [account, hfinish]

theorem kept_start (hopen : g.completed = false) (hidle : g.idle = g.bodyStarted + g.idleDuration) :
    Kept body g (.start g) where
  total := rfl
  bodyStarted := rfl
  requestStarted := rfl
  idleDuration := rfl
  idle := hidle
  since := by
    intro entry h
    cases h
  timely := .nil
  delivered := ⟨0, rfl, .inl rfl⟩
  completed _ := ⟨hopen, rfl⟩
  accounted now := by
    simp only [Session.dropped, Session.start, GuardedBody.drop, hopen]
    rfl

theorem delivered_open (h : Kept body g s) (hopen : ∀ entry ∈ s.log, entry.2.closes = false) :
    ∃ n, s.guard.inner = after body n g.inner ∧
      s.log.map Prod.snd = (polls body n g.inner).map boxed := by
  obtain ⟨n, hinner, hlog | hlog⟩ := h.delivered
  · exact ⟨n, hinner, hlog⟩
  · have hmem : .error deadlineExceeded ∈ s.log.map Prod.snd := by
      rw [hlog]
      exact List.mem_append_right _ (List.mem_singleton_self _)
    obtain ⟨entry, he, hr⟩ := List.mem_map.mp hmem
    have hclosed := hopen entry he
    rw [hr] at hclosed
    cases hclosed

theorem delivered_poll (h : Kept body g s) (hopen : ∀ entry ∈ s.log, entry.2.closes = false) :
    ∃ n, (s.poll body tick).guard.inner = after body n g.inner ∧
      ((s.poll body tick).log.map Prod.snd = (polls body n g.inner).map boxed ∨
        (s.poll body tick).log.map Prod.snd = (polls body n g.inner).map boxed ++
        [.error deadlineExceeded]) := by
  obtain ⟨n, hinner, hlog⟩ := delivered_open h hopen
  have hresults : (s.poll body tick).log.map Prod.snd =
      (polls body n g.inner).map boxed ++ [(s.guard.pollFrame body tick).2.1] := by
    rw [← hlog]
    exact List.map_append
  by_cases hfired : (tick.fired s.guard.total || tick.fired s.guard.idle) = true
  · rw [pollFrame_fired body hfired] at hresults
    refine ⟨n, ?_, .inr hresults⟩
    rw [Session.poll, pollFrame_fired body hfired]
    exact hinner
  · obtain ⟨hnext, hresult⟩ := pollFrame_live body hfired
    refine ⟨n + 1, ?_, .inl ?_⟩
    · rw [after_succ, ← hinner]
      exact hnext
    · rw [hresults, hresult, hinner, polls_succ, List.map_append]
      rfl

theorem timely_poll (h : Kept body g s) :
    Timely g s.log (tick, (s.guard.pollFrame body tick).2.1) := by
  by_cases hfired : (tick.fired s.guard.total || tick.fired s.guard.idle) = true
  · rw [pollFrame_fired body hfired]
    refine ⟨fun _ => ?_, fun hne => absurd rfl hne⟩
    rw [← h.total, ← h.idle]
    obtain htotal | hidle := Bool.or_eq_true_iff.mp hfired
    · exact .inl (tick.not_early _ htotal)
    · exact .inr (tick.not_early _ hidle)
  · obtain ⟨-, hresult⟩ := pollFrame_live body hfired
    rw [hresult]
    refine ⟨fun he => absurd he (boxed_ne_deadlineExceeded _), fun _ slack hslack => ?_⟩
    have hlate (deadline : Nat) (hd : tick.fired deadline ≠ true) :
      tick.polled < deadline + slack :=
      Nat.lt_of_not_le fun hle => hd (hslack deadline hle)
    rw [← h.total, ← h.idle]
    rw [Bool.or_eq_true, not_or] at hfired
    exact ⟨hlate _ hfired.1, hlate _ hfired.2⟩

theorem kept_poll (h : Kept body g s) (hopen : ∀ entry ∈ s.log, entry.2.closes = false)
    (hstarted : g.bodyStarted ≤ tick.polled) : Kept body g (s.poll body tick) := by
  obtain ⟨htotal, hbody, hrequest, hduration⟩ := pollFrame_fixed body s.guard tick
  obtain ⟨hcompleted, hmetrics⟩ := h.completed hopen
  obtain ⟨hcloses, haccount⟩ := pollFrame_account body tick hcompleted
  refine ⟨htotal.trans h.total, hbody.trans h.bodyStarted, hrequest.trans h.requestStarted,
    hduration.trans h.idleDuration, ?_, ?_, h.timely.snoc (timely_poll h),
    delivered_poll h hopen, ?_, ?_⟩
  · have hidle := pollFrame_idle body s.guard tick
    simp only [Session.poll, idleSince_append]
    rw [hidle, h.idle, h.idleDuration]
    cases (s.guard.pollFrame body tick).2.1 <;> rfl
  · intro entry he
    obtain he | he := List.mem_append.mp he
    · exact h.since entry he
    · rw [List.mem_singleton.mp he]
      exact hstarted.trans tick.ordered
  · intro hall
    have hlast := hall _ (List.mem_append_right _ (List.mem_singleton_self _))
    refine ⟨hcloses.trans hlast, ?_⟩
    have hsilent := (pollFrame_open body).resolve_left (Bool.eq_false_iff.mp hlast)
    simp only [Session.poll, hmetrics, hsilent, List.append_nil]
  · intro now
    simp only [Session.dropped, Session.poll, hmetrics, List.nil_append, List.getLast?_concat]
    rw [haccount]
    exact account_congr h.bodyStarted h.requestStarted _ _

end Step

theorem kept_of_run {body : HttpBody B E} {inner : B}
    {now requestStarted idleDuration totalDuration : Nat}
    {ticks : List Tick} {s : Session B E}
    (h : (consumer body (.new inner now requestStarted idleDuration totalDuration)).Run ticks s) :
    Kept body (.new inner now requestStarted idleDuration totalDuration) s := by
  refine h.invariant (fun _ s => Kept body _ s) ?_ ?_
  · rintro s rfl
    exact kept_start rfl rfl
  · rintro _ s tick s' hs ⟨hopen, hstarted, rfl⟩
    exact kept_poll hs (fun entry he => (hopen entry he).1) hstarted

/-- A guarded stream is the inner stream up to a deadline. -/
theorem stream_guarded {body : HttpBody B E} {inner : B}
    {now requestStarted idleDuration totalDuration : Nat} {ticks : List Tick} {s : Session B E}
    (h : (consumer body (.new inner now requestStarted idleDuration totalDuration)).Run ticks s) :
    (∃ n, s.guard.inner = after body n inner ∧
      (s.log.map Prod.snd = (polls body n inner).map boxed ∨
        s.log.map Prod.snd = (polls body n inner).map boxed ++ [.error deadlineExceeded])) ∧
      Justified (Timely (.new inner now requestStarted idleDuration totalDuration)) s.log ∧
      (∀ tick, (tick, .error deadlineExceeded) ∈ s.log →
        now + min idleDuration totalDuration ≤ tick.polled) ∧
      ∀ later, s.dropped later =
        account (.new inner now requestStarted idleDuration totalDuration)
          s.log.getLast? later := by
  have hkept := kept_of_run h
  refine ⟨hkept.delivered, hkept.timely, ?_, hkept.accounted⟩
  intro tick hmem
  obtain ⟨before, rest, hlog, htimely⟩ := hkept.timely.of_mem hmem
  have hsince : now ≤ idleSince now before := by
    refine le_idleSince fun entry he => hkept.since entry ?_
    rw [hlog]
    exact List.mem_append_left _ he
  rcases htimely.expired rfl with htotal | hidle
  · have : now + totalDuration ≤ tick.polled := htotal
    omega
  · have : idleSince now before + idleDuration ≤ tick.polled := hidle
    omega

def Tick.punctual (now : Nat) : Tick where
  polled := now
  returned := now
  fired deadline := decide (deadline ≤ now)
  ordered := Nat.le_refl now
  not_early _ := of_decide_eq_true

def stalled : ResponseBody := ⟨.async [.ok [104]], [false, true, true]⟩

theorem stream_guarded_stalled :
    ∃ s, (consumer responseBody (.new stalled 2 0 5 100)).Run
      [.punctual 3, .punctual 6, .punctual 9] s ∧
      s.dropped 9 = [.error .streamTimeout, .record .terminalBody 7, .record .responseTotal 9] := by
  have h1 := System.Run.start (S := consumer responseBody (.new stalled 2 0 5 100)) rfl
  have h2 := h1.next (a := .punctual 3) ⟨by decide, by decide, rfl⟩
  have h3 := h2.next (a := .punctual 6) ⟨by decide, by decide, rfl⟩
  have h4 := h3.next (a := .punctual 9) ⟨by decide, by decide, rfl⟩
  exact ⟨_, h4, (stream_guarded h4).2.2.2 9⟩

end LeptosWasi.StreamGuard
