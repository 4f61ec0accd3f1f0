import LeptosWasi.Initialization
import LeptosWasi.Library.Histories

namespace LeptosWasi.Initialization

open Pollables LeptosWasi.Executor

def Event.handle (t : ThreadId) : Event → Option Handle
  | .newReturned t' _ (.ok executor) | .initReturned t' _ (.ok executor) =>
    if t' = t then some executor else none
  | .installing t' executor | .installed t' executor _ => if t' = t then some executor else none
  | .newReturned _ _ (.error _) | .initReturned _ _ (.error _) => none

def Event.answer (t : ThreadId) : Event → Option Preview2InitState
  | .installed t' executor accepted =>
    if t' = t then some (if accepted then .initialized executor else .conflict) else none
  | .newReturned .. | .installing .. | .initReturned .. => none

def executorOf (t : ThreadId) (events : List Event) : Option Handle :=
  events.findSome? (Event.handle t)

def answerOf (t : ThreadId) (events : List Event) : Option Preview2InitState :=
  events.findSome? (Event.answer t)

def IsNew (before : List Event) (executor : Handle) : Prop :=
  ∀ t e, executorOf t before = some e → e.id ≠ executor.id ∧ e.queue = executor.queue

def reuse (executor : Handle) (mode : Mode) : Except ExecutorError Handle :=
  if executor.mode = mode then .ok executor else .error .preview2ModeMismatch

/-- What each event says, given the events before it. -/
def Allowed (before : List Event) : Event → Prop
  | .newReturned t mode result =>
    match executorOf t before with
    | some executor => result = reuse executor mode
    | none => ∃ executor, result = .ok executor ∧ executor.mode = mode ∧ IsNew before executor
  | .installing t executor =>
    answerOf t before = none ∧
      (executorOf t before = some executor ∨ executorOf t before = none ∧ IsNew before executor)
  | .installed t executor _ => executorOf t before = some executor
  | .initReturned t mode result =>
    match answerOf t before with
    | some state => result = state.result mode
    | none => ∃ executor, executorOf t before = some executor ∧ executor.mode ≠ mode ∧
        result = .error .preview2ModeMismatch

structure Knows (events : List Event) (t : ThreadId) (thread : Thread) : Prop where
  slot : thread.slot = executorOf t events
  state : thread.state = answerOf t events
  pending : ∀ frame ∈ thread.pending,
    executorOf t events = some frame.executor ∧ frame.executor.mode = frame.mode

/-- A process at the end of a history that each event of it agrees with. -/
structure Recorded (events : List Event) (p : Process) : Prop where
  justified : Justified Allowed events
  threads : ∀ t, Knows events t (p.threads t)
  queue : ∀ t executor, executorOf t events = some executor →
    executor.id < p.fresh ∧ p.pollableQueue = some executor.queue
  distinct : ∀ t t' executor executor', executorOf t events = some executor →
    executorOf t' events = some executor' → executor.id = executor'.id → t = t'

variable {events : List Event} {p : Process} {t : ThreadId}
    {mode : Mode} {executor : Handle} {x : Event}

theorem executorOf_snoc (t : ThreadId) (events : List Event) (x : Event) :
    executorOf t (events ++ [x]) = (executorOf t events).or (x.handle t) := by
  rw [executorOf, List.findSome?_append, List.findSome?_singleton]
  rfl

theorem answerOf_snoc (t : ThreadId) (events : List Event) (x : Event) :
    answerOf t (events ++ [x]) = (answerOf t events).or (x.answer t) := by
  rw [answerOf, List.findSome?_append, List.findSome?_singleton]
  rfl

theorem executorOf_append {after : List Event} (h : executorOf t events = some executor) :
    executorOf t (events ++ after) = some executor := by
  rw [executorOf, List.findSome?_append, ← executorOf, h]
  rfl

theorem executorOf_of_answerOf (hj : Justified Allowed events)
    (h : answerOf t events = some (.initialized executor)) :
    executorOf t events = some executor := by
  obtain ⟨before, y, after, rfl, hy, -⟩ := List.findSome?_eq_some_iff.mp h
  have ha := hj before y after rfl
  cases y with
  | installed t' e accepted =>
    cases accepted <;> simp only [Event.answer] at hy <;> split at hy <;> cases hy
    rename_i ht
    subst ht
    exact executorOf_append ha
  | newReturned _ _ _ => cases hy
  | installing _ _ => cases hy
  | initReturned _ _ _ => cases hy

@[simp] theorem Process.setThread_threads_self (p : Process) (t : ThreadId) (thread : Thread) :
    (p.setThread t thread).threads t = thread := Function.update_self ..

@[simp] theorem Process.setThread_threads_ne (p : Process)
    {t t' : ThreadId} (thread : Thread) (ht : t' ≠ t) :
    (p.setThread t thread).threads t' = p.threads t' := Function.update_of_ne ht ..

theorem executorOf_known (h : x.handle t = none ∨ x.handle t = executorOf t events) :
    executorOf t (events ++ [x]) = executorOf t events := by
  rw [executorOf_snoc]
  rcases h with h | h <;> rw [h] <;> cases executorOf t events <;> rfl

theorem Knows.snoc {thread : Thread} (hk : Knows events t thread)
    (hh : x.handle t = none ∨ x.handle t = executorOf t events) (ha : x.answer t = none) :
    Knows (events ++ [x]) t thread := by
  have hs : answerOf t (events ++ [x]) = answerOf t events := by
    rw [answerOf_snoc, ha, Option.or_none]
  exact ⟨hk.slot.trans (executorOf_known hh).symm, hk.state.trans hs.symm,
    fun frame hf => by rw [executorOf_known hh]; exact hk.pending frame hf⟩

theorem reuse_ok {executor e : Handle} (h : reuse executor mode = .ok e) :
    e = executor ∧ executor.mode = mode := by
  rw [reuse] at h
  split at h
  · rename_i hm
    cases h
    exact ⟨rfl, hm⟩
  · cases h

theorem reuse_error {error : ExecutorError} (h : reuse executor mode = .error error) :
    error = .preview2ModeMismatch ∧ executor.mode ≠ mode := by
  rw [reuse] at h
  split at h
  · cases h
  · rename_i hm
    cases h
    exact ⟨rfl, hm⟩

structure Created (p p' : Process) (t : ThreadId) (executor : Handle) : Prop where
  self : p'.threads t = { p.threads t with slot := some executor }
  ne : ∀ t', t' ≠ t → p'.threads t' = p.threads t'
  le : p.fresh ≤ p'.fresh
  lt : executor.id < p'.fresh
  queue : p'.pollableQueue = some executor.queue

namespace Recorded

theorem new_cases (hr : Recorded events p) (t : ThreadId) (mode : Mode) :
    (∃ executor, executorOf t events = some executor ∧ p.new t mode = (p, reuse executor mode)) ∨
      (executorOf t events = none ∧ ∃ executor p', executor.mode = mode ∧ IsNew events executor ∧
        Created p p' t executor ∧ p.new t mode = (p', .ok executor)) := by
  have hslot := (hr.threads t).slot
  cases he : executorOf t events with
  | some executor =>
    rw [he] at hslot
    refine .inl ⟨executor, rfl, ?_⟩
    rw [Process.new, hslot, reuse]
    by_cases hm : executor.mode = mode <;> simp [hm]
  | none =>
    rw [he] at hslot
    refine .inr ⟨rfl, ?_⟩
    cases hq : p.pollableQueue with
    | none =>
      have hn : p.new t mode =
        (({ p with pollableQueue := some p.fresh, fresh := p.fresh + 2 } : Process).setThread t
          { p.threads t with slot := some ⟨p.fresh + 1, p.fresh, mode⟩ },
          .ok ⟨p.fresh + 1, p.fresh, mode⟩) := by
        simp only [Process.new, hslot, Process.initializeWaitQueue, hq]
      refine ⟨_, _, rfl, ?_, ?_, hn⟩
      · intro t' e h
        rw [(hr.queue t' e h).2] at hq
        cases hq
      · exact ⟨Process.setThread_threads_self .., fun t' ht => Process.setThread_threads_ne _ _ ht,
          Nat.le_add_right _ 2, Nat.lt_add_one _, rfl⟩
    | some queue =>
      have hn : p.new t mode = (({ p with fresh := p.fresh + 1 } : Process).setThread t
          { p.threads t with slot := some ⟨p.fresh, queue, mode⟩ },
          .ok ⟨p.fresh, queue, mode⟩) := by
        simp only [Process.new, hslot, Process.initializeWaitQueue, hq]
      refine ⟨_, _, rfl, ?_, ?_, hn⟩
      · intro t' e h
        obtain ⟨hlt, hq'⟩ := hr.queue t' e h
        rw [hq] at hq'
        cases hq'
        exact ⟨Nat.ne_of_lt hlt, rfl⟩
      · exact ⟨Process.setThread_threads_self .., fun t' ht => Process.setThread_threads_ne _ _ ht,
          Nat.le_add_right _ 1, Nat.lt_add_one _, hq⟩

theorem known (hr : Recorded events p) (hx : Allowed events x)
    (hh : ∀ t, x.handle t = none ∨ x.handle t = executorOf t events) (ha : ∀ t, x.answer t = none) :
    Recorded (events ++ [x]) p := by
  have he : ∀ t, executorOf t (events ++ [x]) = executorOf t events :=
    fun t => executorOf_known (hh t)
  refine ⟨hr.justified.snoc hx, fun t => (hr.threads t).snoc (hh t) (ha t),
    fun t e h => ?_, fun t t' e e' h h' => ?_⟩
  · exact hr.queue t e (he t ▸ h)
  · exact hr.distinct t t' e e' (he t ▸ h) (he t' ▸ h')

theorem create {p' : Process} (hr : Recorded events p)
    (hx : Allowed events x) (hc : Created p p' t executor)
    (hnew : IsNew events executor) (he : executorOf t events = none)
    (hh : x.handle t = some executor)
    (hne : ∀ t', t' ≠ t → x.handle t' = none) (ha : ∀ t', x.answer t' = none) :
    Recorded (events ++ [x]) p' := by
  have hself : executorOf t (events ++ [x]) = some executor := by
    rw [executorOf_snoc, he, hh]
    rfl
  have hother : ∀ t', t' ≠ t → executorOf t' (events ++ [x]) = executorOf t' events := fun t' ht =>
    executorOf_known (.inl (hne t' ht))
  refine ⟨hr.justified.snoc hx, ?_, ?_, ?_⟩
  · intro t'
    by_cases ht : t' = t
    · subst ht
      have hk := hr.threads t'
      rw [hc.self]
      refine ⟨hself.symm, ?_, ?_⟩
      · rw [answerOf_snoc, ha, Option.or_none]
        exact hk.state
      · intro frame hf
        have hp := (hk.pending frame hf).1
        rw [he] at hp
        cases hp
    · rw [hc.ne t' ht]
      exact (hr.threads t').snoc (.inl (hne t' ht)) (ha t')
  · intro t' e h
    by_cases ht : t' = t
    · subst ht
      rw [hself] at h
      cases h
      exact ⟨hc.lt, hc.queue⟩
    · rw [hother t' ht] at h
      obtain ⟨-, hq⟩ := hnew t' e h
      exact ⟨Nat.lt_of_lt_of_le (hr.queue t' e h).1 hc.le, hq ▸ hc.queue⟩
  · intro t' t'' e e' h h' hid
    by_cases ht' : t' = t <;> by_cases ht'' : t'' = t
    · rw [ht', ht'']
    · subst ht'
      rw [hself] at h
      cases h
      rw [hother t'' ht''] at h'
      exact absurd hid.symm (hnew t'' e' h').1
    · subst ht''
      rw [hself] at h'
      cases h'
      rw [hother t' ht'] at h
      exact absurd hid (hnew t' e h).1
    · rw [hother t' ht'] at h
      rw [hother t'' ht''] at h'
      exact hr.distinct t' t'' e e' h h' hid

theorem push (hr : Recorded events p) (he : executorOf t events = some executor)
    (hm : executor.mode = mode) :
    Recorded events
      (p.setThread t { p.threads t with
        pending := ⟨mode, executor⟩ :: (p.threads t).pending }) := by
  refine ⟨hr.justified, ?_, hr.queue, hr.distinct⟩
  intro t'
  by_cases ht : t' = t
  · subst ht
    rw [Process.setThread_threads_self]
    refine ⟨(hr.threads t').slot, (hr.threads t').state, ?_⟩
    rintro frame (_ | ⟨_, hf⟩)
    · exact ⟨he, hm⟩
    · exact (hr.threads t').pending frame hf
  · rw [Process.setThread_threads_ne _ _ ht]
    exact hr.threads t'

theorem answer {frame : Frame} {rest : List Frame} (hr : Recorded events p) (accepted : Bool)
    (h : (p.threads t).pending = frame :: rest) :
    Recorded (events ++ [.installed t frame.executor accepted])
      (p.setThread t ⟨(p.threads t).slot, (p.threads t).state.or
        (some (if accepted then .initialized frame.executor else .conflict)), rest⟩) := by
  have hk := hr.threads t
  have he := (hk.pending frame (by rw [h]; exact List.mem_cons_self)).1
  have heq : ∀ t',
    executorOf t' (events ++ [.installed t frame.executor accepted]) = executorOf t' events := by
    intro t'
    rw [executorOf_snoc, Event.handle]
    split
    · rename_i ht
      rw [← ht, he]
      rfl
    · exact Option.or_none
  refine ⟨hr.justified.snoc he, ?_, fun t' e h => hr.queue t' e (heq t' ▸ h),
    fun t₁ t₂ e e' h h' => hr.distinct t₁ t₂ e e' (heq t₁ ▸ h) (heq t₂ ▸ h')⟩
  intro t'
  by_cases ht : t' = t
  · subst ht
    rw [Process.setThread_threads_self]
    refine ⟨hk.slot.trans (heq t').symm, ?_, ?_⟩
    · rw [answerOf_snoc, ← hk.state, Event.answer, if_pos rfl]
    · intro f hf
      rw [heq]
      exact hk.pending f (by rw [h]; exact List.mem_cons_of_mem _ hf)
  · rw [Process.setThread_threads_ne _ _ ht]
    exact (hr.threads t').snoc (.inl (if_neg (Ne.symm ht))) (if_neg (Ne.symm ht))

theorem initKnown {state : Preview2InitState} (hr : Recorded events p)
    (h : (p.threads t).state = some state)
    (mode : Mode) : Recorded (events ++ [.initReturned t mode (state.result mode)]) p := by
  have hs : answerOf t events = some state := (hr.threads t).state ▸ h
  refine hr.known (by simp only [Allowed, hs]) ?_ fun _ => rfl
  intro t'
  cases state with
  | conflict => exact .inl rfl
  | initialized executor =>
    have he := executorOf_of_answerOf hr.justified hs
    by_cases hm : executor.mode = mode
    · by_cases ht : t = t'
      · subst ht
        exact .inr (by simp [Preview2InitState.result, hm, Event.handle, he])
      · exact .inl (by simp [Preview2InitState.result, hm, Event.handle, ht])
    · exact .inl (by simp [Preview2InitState.result, hm, Event.handle])

theorem step {es : List Event} {p' : Process} (hr : Recorded events p) (h : Step p es p') :
    Recorded (events ++ es) p' := by
  cases h with
  | new t mode =>
    rcases hr.new_cases t mode with ⟨e, he, hn⟩ | ⟨he, e, p₁, hm, hnew, hc, hn⟩
    · rw [hn]
      refine hr.known (by simp only [Allowed, he]) (fun t' => ?_) fun _ => rfl
      by_cases hm : e.mode = mode
      · by_cases ht : t = t'
        · subst ht
          exact .inr (by simp [reuse, hm, Event.handle, he])
        · exact .inl (by simp [reuse, hm, Event.handle, ht])
      · exact .inl (by simp [reuse, hm, Event.handle])
    · rw [hn]
      exact hr.create (by simpa only [Allowed, he] using ⟨e, rfl, hm, hnew⟩) hc hnew he (if_pos rfl)
        (fun t' ht => if_neg (Ne.symm ht)) fun _ => rfl
  | initKnown mode h => exact hr.initKnown h mode
  | @initFailed _ t mode error h hn =>
    have hs : answerOf t events = none := (hr.threads t).state ▸ h
    rcases hr.new_cases t mode with ⟨e, he, hn'⟩ | ⟨-, e, p₁, -, -, -, hn'⟩
    · rw [hn'] at hn
      obtain ⟨rfl, hne⟩ := Prod.mk.inj hn
      obtain ⟨rfl, hm⟩ := reuse_error hne
      exact hr.known (by simp only [Allowed, hs]; exact ⟨e, he, hm, trivial⟩)
        (fun _ => .inl rfl) fun _ => rfl
    · rw [hn'] at hn
      cases hn
  | @initCreated p₀ t mode executor h hn =>
    have hs : answerOf t events = none := (hr.threads t).state ▸ h
    rcases hr.new_cases t mode with ⟨e, he, hn'⟩ | ⟨he, e, p₁, hm, hnew, hc, hn'⟩
    · rw [hn'] at hn
      obtain ⟨rfl, hok⟩ := Prod.mk.inj hn
      obtain ⟨rfl, hm⟩ := reuse_ok hok
      refine (hr.known (x := .installing t executor)
        ⟨hs, .inl he⟩ (fun t' => ?_) fun _ => rfl).push ?_ hm
      · by_cases ht : t = t'
        · subst ht
          exact .inr (by rw [he]; exact if_pos rfl)
        · exact .inl (if_neg ht)
      · exact executorOf_append he
    · rw [hn'] at hn
      cases hn
      refine (hr.create (x := .installing t executor)
        ⟨hs, .inr ⟨he, hnew⟩⟩ hc hnew he (if_pos rfl) (fun t' ht => if_neg (Ne.symm ht))
        fun _ => rfl).push ?_ hm
      rw [executorOf_snoc, he]
      exact if_pos rfl
  | @installed t frame rest cell result accepted h hs =>
    obtain ⟨rfl, rfl⟩ := Prod.mk.inj hs
    have ha := hr.answer accepted h
    cases hcell : (p.threads t).state.or
      (some (if accepted then .initialized frame.executor else .conflict)) with
    | none => simp at hcell
    | some state =>
      rw [hcell] at ha
      have := ha.initKnown (t := t) (by rw [Process.setThread_threads_self]) frame.mode
      rwa [List.append_assoc] at this

end Recorded

/-- The history of every run is justified. -/
theorem recorded {as : List (List Event)} (h : initSystem.Run as p) : Recorded as.flatten p := by
  refine h.invariant (fun as p => Recorded as.flatten p) ?_ fun as p es p' hr hs => ?_
  · rintro _ rfl
    exact ⟨.nil, fun t => ⟨rfl, rfl, fun frame hf => absurd hf List.not_mem_nil⟩,
      fun _ _ h => (by cases h),
      fun _ _ _ _ h => (by cases h)⟩
  · rw [List.flatten_append, List.flatten_singleton]
    exact hr.step hs

theorem result_ok {state : Preview2InitState} (h : state.result mode = .ok executor) :
    state = .initialized executor ∧ executor.mode = mode := by
  cases state with
  | conflict => cases h
  | initialized e =>
    rw [Preview2InitState.result] at h
    split at h
    · rename_i hm
      cases h
      exact ⟨rfl, hm⟩
    · cases h

theorem result_error {state : Preview2InitState}
    {error : ExecutorError} (h : state.result mode = .error error) :
    error = .preview2ModeMismatch ∨ error = .spawnerAlreadyInitialized := by
  cases state with
  | conflict =>
    cases h
    exact .inr rfl
  | initialized e =>
    rw [Preview2InitState.result] at h
    split at h <;> cases h
    exact .inl rfl

theorem answerOf_append {before after : List Event}
    {accepted : Bool} (h : answerOf t before = none) :
    answerOf t (before ++ .installed t executor accepted :: after) =
      some (if accepted then .initialized executor else .conflict) := by
  rw [answerOf, List.findSome?_append, ← answerOf, h, List.findSome?_cons, Event.answer, if_pos rfl]
  rfl

theorem accepted_of_answerOf (h : answerOf t events = some (.initialized executor)) :
    .installed t executor true ∈ events := by
  obtain ⟨before, y, after, rfl, hy, -⟩ := List.findSome?_eq_some_iff.mp h
  cases y with
  | installed t' e accepted =>
    cases accepted <;> simp only [Event.answer] at hy <;> split at hy <;> cases hy
    rename_i ht
    subst ht
    exact List.mem_append_right _ List.mem_cons_self
  | newReturned _ _ _ => cases hy
  | installing _ _ => cases hy
  | initReturned _ _ _ => cases hy

theorem Allowed.newReturned_ok (h : Allowed events (.newReturned t mode (.ok executor))) :
    (executorOf t events = none ∨ executorOf t events = some executor) ∧ executor.mode = mode := by
  cases he : executorOf t events with
  | some first =>
    simp only [Allowed, he] at h
    obtain ⟨rfl, hm⟩ := reuse_ok h.symm
    exact ⟨.inr rfl, hm⟩
  | none =>
    simp only [Allowed, he] at h
    obtain ⟨_, ⟨⟩, hm, -⟩ := h
    exact ⟨.inl rfl, hm⟩

theorem Allowed.newReturned_error {error : ExecutorError}
    (h : Allowed events (.newReturned t mode (.error error))) :
    error = .preview2ModeMismatch := by
  cases he : executorOf t events with
  | some first =>
    simp only [Allowed, he] at h
    exact (reuse_error h.symm).1
  | none =>
    simp only [Allowed, he] at h
    obtain ⟨_, ⟨⟩, -⟩ := h

theorem Allowed.initReturned_ok (h : Allowed events (.initReturned t mode (.ok executor))) :
    answerOf t events = some (.initialized executor) ∧ executor.mode = mode := by
  cases hs : answerOf t events with
  | some state =>
    simp only [Allowed, hs] at h
    obtain ⟨rfl, hm⟩ := result_ok h.symm
    exact ⟨rfl, hm⟩
  | none =>
    simp only [Allowed, hs] at h
    obtain ⟨_, _, _, ⟨⟩⟩ := h

theorem Allowed.initReturned_error {error : ExecutorError}
    (h : Allowed events (.initReturned t mode (.error error))) :
    error = .preview2ModeMismatch ∨ error = .spawnerAlreadyInitialized := by
  cases hs : answerOf t events with
  | some state =>
    simp only [Allowed, hs] at h
    exact result_error h.symm
  | none =>
    simp only [Allowed, hs] at h
    obtain ⟨_, _, _, ⟨⟩⟩ := h
    exact .inl rfl

theorem executorOf_of_handle (hj : Justified Allowed events)
    (hx : x ∈ events) (h : x.handle t = some executor) :
    executorOf t events = some executor := by
  obtain ⟨before, after, rfl, ha⟩ := hj.of_mem hx
  cases he : executorOf t before with
  | none =>
    rw [executorOf, List.findSome?_append, ← executorOf, he, List.findSome?_cons, h]
    rfl
  | some first =>
    suffices hf : some first = some executor by
      rw [executorOf_append he, hf]
    rw [← he]
    cases x with
    | newReturned t' mode result =>
      cases result with
      | error _ => cases h
      | ok e =>
        obtain ⟨rfl, ⟨⟩⟩ := Option.ite_none_right_eq_some.mp h
        refine (Allowed.newReturned_ok ha).1.resolve_left ?_
        rw [he]
        exact Option.some_ne_none first
    | installing t' e =>
      obtain ⟨rfl, ⟨⟩⟩ := Option.ite_none_right_eq_some.mp h
      rcases ha.2 with ha | ⟨ha, -⟩
      · exact ha
      · rw [he] at ha
        cases ha
    | installed t' e accepted =>
      obtain ⟨rfl, ⟨⟩⟩ := Option.ite_none_right_eq_some.mp h
      exact ha
    | initReturned t' mode result =>
      cases result with
      | error _ => cases h
      | ok e =>
        obtain ⟨rfl, ⟨⟩⟩ := Option.ite_none_right_eq_some.mp h
        exact executorOf_of_answerOf hj.of_append (Allowed.initReturned_ok ha).1

theorem allowed_after {before after : List Event} {accepted : Bool}
    (hj : Justified Allowed (before ++ .installed t executor accepted :: after))
    (hs : answerOf t before = none)
    (hx : x ∈ after) :
    ∃ b, answerOf t b = some (if accepted then .initialized executor else .conflict) ∧
      Allowed b x := by
  obtain ⟨b, a, rfl⟩ := List.append_of_mem hx
  refine ⟨_, answerOf_append hs, hj (before ++ .installed t executor accepted :: b) x a ?_⟩
  rw [List.append_assoc, List.cons_append]

/-- What callers rely on: a thread has one executor, all threads share one queue,
and the first answer of a thread's spawner decides what its initializations return. -/
structure Safe (events : List Event) : Prop where
  same : ∀ x ∈ events, ∀ y ∈ events, ∀ t e e', x.handle t = some e → y.handle t = some e' → e = e'
  apart : ∀ x ∈ events, ∀ y ∈ events, ∀ t t' e e', t ≠ t' →
    x.handle t = some e → y.handle t' = some e' →
    e.id ≠ e'.id ∧ e.queue = e'.queue
  newOk : ∀ t mode e, .newReturned t mode (.ok e) ∈ events → e.mode = mode
  newError : ∀ t mode error, .newReturned t mode (.error error) ∈ events →
    error = .preview2ModeMismatch
  initOk : ∀ t mode e, .initReturned t mode (.ok e) ∈ events →
    .installed t e true ∈ events ∧ e.mode = mode
  initError : ∀ t mode error, .initReturned t mode (.error error) ∈ events →
    error = .preview2ModeMismatch ∨ error = .spawnerAlreadyInitialized
  decided : ∀ before t e accepted after, events = before ++ .installed t e accepted :: after →
    answerOf t before = none → (∀ e', .installing t e' ∉ after) ∧
      ∀ mode result, .initReturned t mode result ∈ after →
      result = if accepted then reuse e mode else .error .spawnerAlreadyInitialized

theorem Recorded.safe (hr : Recorded events p) : Safe events := by
  have hj := hr.justified
  have hof : ∀ x ∈ events, ∀ t e, x.handle t = some e → executorOf t events = some e :=
    fun x hx t e h => executorOf_of_handle hj hx h
  refine ⟨?_, ?_, ?_, ?_, ?_, ?_, ?_⟩
  · intro x hx y hy t e e' h h'
    exact Option.some.inj ((hof x hx t e h).symm.trans (hof y hy t e' h'))
  · intro x hx y hy t t' e e' ht h h'
    have he := hof x hx t e h
    have he' := hof y hy t' e' h'
    refine ⟨fun hid => ht (hr.distinct t t' e e' he he' hid), ?_⟩
    exact Option.some.inj ((hr.queue t e he).2.symm.trans (hr.queue t' e' he').2)
  · intro t mode e h
    obtain ⟨before, -, -, ha⟩ := hj.of_mem h
    exact ha.newReturned_ok.2
  · intro t mode error h
    obtain ⟨before, -, -, ha⟩ := hj.of_mem h
    exact ha.newReturned_error
  · intro t mode e h
    obtain ⟨before, after, rfl, ha⟩ := hj.of_mem h
    obtain ⟨hs, hm⟩ := ha.initReturned_ok
    exact ⟨List.mem_append_left _ (accepted_of_answerOf hs), hm⟩
  · intro t mode error h
    obtain ⟨before, -, -, ha⟩ := hj.of_mem h
    exact ha.initReturned_error
  · rintro before t e accepted after rfl hfirst
    refine ⟨fun e' hx => ?_, fun mode result hx => ?_⟩
    · obtain ⟨b, hs, ha, -⟩ := allowed_after hj hfirst hx
      rw [hs] at ha
      cases ha
    · obtain ⟨b, hs, ha⟩ := allowed_after hj hfirst hx
      simp only [Allowed, hs] at ha
      rw [ha]
      cases accepted <;> rfl

/-- Whatever the spawner answers, however calls nest and threads interleave. -/
theorem initialization_safe {as : List (List Event)} (h : initSystem.Run as p) : Safe as.flatten :=
  (recorded h).safe

/-- A call that comes back while the executor is installed is answered first, and
its answer is the one that the outer call returns too. -/
theorem initialization_safe_nested :
    let executor : Handle := ⟨1, 0, .preemptive⟩
    Safe [.installing 0 executor, .installing 0 executor,
      .newReturned 1 .stalled (.ok ⟨2, 0, .stalled⟩),
      .installed 0 executor true, .initReturned 0 .preemptive (.ok executor),
      .installed 0 executor false, .initReturned 0 .preemptive (.ok executor)] := by
  intro executor
  obtain ⟨_, run⟩ : ∃ p, initSystem.Run
    ([] ++ [[.installing 0 executor]] ++ [[.installing 0 executor]] ++
      [[.newReturned 1 .stalled (.ok ⟨2, 0, .stalled⟩)]] ++
      [[.installed 0 executor true, .initReturned 0 .preemptive (.ok executor)]] ++
      [[.installed 0 executor false, .initReturned 0 .preemptive (.ok executor)]]) p := by
    constructor
    apply System.Run.next
    · apply System.Run.next
      · apply System.Run.next
        · apply System.Run.next
          · apply System.Run.next (.start rfl)
            exact @Step.initCreated _ _ _ .preemptive _ rfl rfl
          · exact @Step.initCreated _ _ _ .preemptive _ rfl rfl
        · exact .new 1 .stalled
      · apply @Step.installed _ 0 ⟨.preemptive, executor⟩ <;> rfl
    · apply @Step.installed _ 0 ⟨.preemptive, executor⟩ <;> rfl
  exact initialization_safe run

end LeptosWasi.Initialization
