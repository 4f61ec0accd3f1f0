import Mathlib.Data.List.Basic

/-! Streams that are driven by polls, what an observer sees of them, and the
usual combinators. -/

inductive Poll (α : Type) where
  | pending
  | item (a : α)
  | done

def Poll.map {α β : Type} (f : α → β) : Poll α → Poll β
  | .pending => .pending
  | .item a => .item (f a)
  | .done => .done

def Poll.isDone {α : Type} : Poll α → Bool
  | .done => true
  | .pending | .item _ => false

/-- A stream with states in `S`. A poll may have effects before it returns. -/
structure PollStream (S ε α : Type) where
  poll : S → S × List ε × Poll α

inductive Seen (ε α : Type) where
  | effect (e : ε)
  | item (a : α)

def Poll.seen {ε α : Type} : Poll α → List (Seen ε α)
  | .item a => [.item a]
  | .pending | .done => []

namespace Seen

variable {ε ε' α β : Type}

def effect? : Seen ε α → Option ε
  | .effect e => some e
  | .item _ => none

def item? : Seen ε α → Option α
  | .effect _ => none
  | .item a => some a

def map (g : ε → ε') (f : α → β) : Seen ε α → Seen ε' β
  | .effect e => .effect (g e)
  | .item a => .item (f a)

def effects (log : List (Seen ε α)) : List ε := log.filterMap effect?

def items (log : List (Seen ε α)) : List α := log.filterMap item?

@[simp] theorem effects_append (log log' : List (Seen ε α)) :
    effects (log ++ log') = effects log ++ effects log' :=
  List.filterMap_append

@[simp] theorem items_append (log log' : List (Seen ε α)) :
    items (log ++ log') = items log ++ items log' :=
  List.filterMap_append

@[simp] theorem effects_nil : effects ([] : List (Seen ε α)) = [] := rfl

@[simp] theorem items_nil : items ([] : List (Seen ε α)) = [] := rfl

@[simp] theorem effects_item (a : α) (log : List (Seen ε α)) :
    effects (.item a :: log) = effects log := rfl

@[simp] theorem items_item (a : α) (log : List (Seen ε α)) :
    items (.item a :: log) = a :: items log := rfl

@[simp] theorem effects_effect (e : ε) (log : List (Seen ε α)) :
    effects (.effect e :: log) = e :: effects log := rfl

@[simp] theorem items_effect (e : ε) (log : List (Seen ε α)) :
    items (.effect e :: log) = items log := rfl

@[simp] theorem effects_map_effect (es : List ε) :
    effects (es.map .effect : List (Seen ε α)) = es := by
  induction es with
  | nil => rfl
  | cons e es ih => rw [List.map_cons, effects_effect, ih]

@[simp] theorem items_map_effect (es : List ε) : items (es.map .effect : List (Seen ε α)) = [] := by
  induction es with
  | nil => rfl
  | cons e es ih => rw [List.map_cons, items_effect, ih]

@[simp] theorem effects_map (g : ε → ε') (f : α → β) (log : List (Seen ε α)) :
    effects (log.map (map g f)) = (effects log).map g := by
  induction log with
  | nil => rfl
  | cons x log ih => cases x <;> simp [map, ih]

@[simp] theorem items_map (g : ε → ε') (f : α → β) (log : List (Seen ε α)) :
    items (log.map (map g f)) = (items log).map f := by
  induction log with
  | nil => rfl
  | cons x log ih => cases x <;> simp [map, ih]

end Seen

namespace PollStream

open Seen

variable {S T D ε ε' α β : Type}

/-- Polls one after the other. The flag tells that the last of them saw the
end, after which a stream is not polled again. -/
inductive Runs (A : PollStream S ε α) : S → List (Seen ε α) → Bool → S → Prop
  | stop {s : S} : Runs A s [] false s
  | next {s s' t : S} {es : List ε} {r : Poll α} {log : List (Seen ε α)} {b : Bool}
      (hp : A.poll s = (s', es, r)) (hr : r.isDone = false) (h : Runs A s' log b t) :
      Runs A s (es.map .effect ++ r.seen ++ log) b t
  | done {s s' : S} {es : List ε} (hp : A.poll s = (s', es, .done)) :
    Runs A s (es.map .effect) true s'

/-- The stream comes to its end when it is polled on and on. -/
inductive Ends (A : PollStream S ε α) : S → Prop
  | next {s s' : S} {es : List ε} {r : Poll α} (hp : A.poll s = (s', es, r))
      (h : r.isDone = false → Ends A s') :
      Ends A s

inductive Next (A : PollStream S ε α) : S → List ε → Option α → S → Prop
  | pending {s s' t : S} {es es' : List ε} {r : Option α} (hp : A.poll s = (s', es, .pending))
      (h : Next A s' es' r t) : Next A s (es ++ es') r t
  | item {s s' : S} {es : List ε} {a : α} (hp : A.poll s = (s', es, .item a)) :
    Next A s es (some a) s'
  | done {s s' : S} {es : List ε} (hp : A.poll s = (s', es, .done)) : Next A s es none s'

section Runs

variable {A : PollStream S ε α} {s s' t : S} {log log' : List (Seen ε α)} {b : Bool}

theorem Runs.append (h : Runs A s log false s') (h' : Runs A s' log' b t) :
    Runs A s (log ++ log') b t := by
  generalize hb : false = flag at h
  induction h with
  | stop => exact h'
  | next hp hr _ ih =>
    rw [List.append_assoc]
    exact .next hp hr (ih h' hb)
  | done => cases hb

theorem Next.runs {es : List ε} {r : Option α} (h : Next A s es r t) :
    ∃ log, Runs A s log r.isNone t ∧ effects log = es ∧ items log = r.toList := by
  induction h with
  | pending hp _ ih =>
    obtain ⟨log, hruns, heffects, hitems⟩ := ih
    exact ⟨_, .next hp rfl hruns, by simp [heffects, Poll.seen], by simp [hitems, Poll.seen]⟩
  | item hp => exact ⟨_, .next hp rfl .stop, by simp [Poll.seen], by simp [Poll.seen]⟩
  | done hp => exact ⟨_, .done hp, by simp, by simp⟩

theorem Ends.runs (h : Ends A s) : ∃ log t, Runs A s log true t := by
  induction h with
  | @next s s' es r hp _ ih =>
    cases r with
    | done => exact ⟨_, _, .done hp⟩
    | pending | item =>
      obtain ⟨log, t, hruns⟩ := ih rfl
      exact ⟨_, t, .next hp rfl hruns⟩

theorem Ends.waits (h : Ends A s) : ∃ es r t, Next A s es r t ∧ (r.isSome → Ends A t) := by
  induction h with
  | @next s s' es r hp h ih =>
    cases r with
    | done => exact ⟨_, _, _, .done hp, nofun⟩
    | item => exact ⟨_, _, _, .item hp, fun _ => h rfl⟩
    | pending =>
      obtain ⟨es', r, t, hnext, hends⟩ := ih rfl
      exact ⟨_, r, t, .pending hp hnext, hends⟩

theorem Next.ends {es : List ε} {r : Option α} (h : Next A s es r t)
    (hends : Ends A s) (hr : r.isSome) :
    Ends A t := by
  induction h with
  | pending hp _ ih =>
    obtain ⟨hq, hrest⟩ := hends
    cases hp.symm.trans hq
    exact ih (hrest rfl) hr
  | item hp =>
    obtain ⟨hq, hrest⟩ := hends
    cases hp.symm.trans hq
    exact hrest rfl
  | done hp => cases hr

end Runs

section Map

def map (A : PollStream S ε α) (g : ε → ε') (f : α → β) : PollStream S ε' β where
  poll s :=
    let (s, es, r) := A.poll s
    (s, es.map g, r.map f)

variable {A : PollStream S ε α} {g : ε → ε'} {f : α → β} {s t : S}

theorem map_poll {s' : S} {es : List ε} {r : Poll α} (hp : A.poll s = (s', es, r)) :
    (A.map g f).poll s = (s', es.map g, r.map f) := by
  simp only [map, hp]

theorem map_runs {log : List (Seen ε' β)} {b : Bool} (h : Runs (A.map g f) s log b t) :
    ∃ log', Runs A s log' b t ∧ log = log'.map (Seen.map g f) := by
  induction h with
  | stop => exact ⟨[], .stop, rfl⟩
  | @next s s' t es r log b hp hr _ ih =>
    obtain ⟨log', hruns, rfl⟩ := ih
    obtain ⟨u, es', r', hpoll⟩ : ∃ u es' r', A.poll s = (u, es', r') := ⟨_, _, _, rfl⟩
    rw [map_poll hpoll] at hp
    cases hp
    refine ⟨_, .next hpoll ?_ hruns, ?_⟩
    · cases r' <;> exact hr
    · cases r' <;> simp [Poll.map, Poll.seen, Seen.map]
  | @done s s' es hp =>
    obtain ⟨u, es', r', hpoll⟩ : ∃ u es' r', A.poll s = (u, es', r') := ⟨_, _, _, rfl⟩
    rw [map_poll hpoll] at hp
    cases r' <;> simp only [Poll.map, Prod.mk.injEq, reduceCtorEq, and_false] at hp
    obtain ⟨rfl, rfl, -⟩ := hp
    exact ⟨_, .done hpoll, by simp [Seen.map]⟩

theorem map_ends (h : Ends A s) : Ends (A.map g f) s := by
  induction h with
  | @next s s' es r hp _ ih =>
    refine .next (map_poll hp) fun hr => ih ?_
    cases r <;> exact hr

end Map

section Once

def once (es : List ε) (a : α) : PollStream Bool ε α where
  poll fresh := if fresh then (false, es, .item a) else (false, [], .done)

variable {es : List ε} {a : α}

theorem once_poll_true : (once es a).poll true = (false, es, .item a) := rfl

theorem once_poll_false : (once es a).poll false = (false, [], .done) := rfl

theorem once_runs_taken {log : List (Seen ε α)} {b fresh : Bool}
    (h : Runs (once es a) false log b fresh) :
    log = [] ∧ fresh = false := by
  cases h with
  | stop => exact ⟨rfl, rfl⟩
  | next hp hr =>
    cases hp
    cases hr
  | done hp =>
    cases hp
    exact ⟨rfl, rfl⟩

theorem once_runs {log : List (Seen ε α)} {b fresh : Bool} (h : Runs (once es a) true log b fresh) :
    (log = [] ∧ b = false ∧ fresh = true) ∨
    (log = es.map .effect ++ [.item a] ∧ fresh = false) := by
  cases h with
  | stop => exact Or.inl ⟨rfl, rfl, rfl⟩
  | next hp hr h =>
    cases hp
    obtain ⟨rfl, rfl⟩ := once_runs_taken h
    exact Or.inr ⟨by simp [Poll.seen], rfl⟩
  | done hp => cases hp

theorem once_ends (fresh : Bool) : Ends (once es a) fresh := by
  have htaken : Ends (once es a) false := .next once_poll_false nofun
  cases fresh with
  | false => exact htaken
  | true => exact .next once_poll_true fun _ => htaken

end Once

section Chain

/-- One stream and, after its end, another. The first is dropped at its end. -/
def chain (A : PollStream S ε α) (B : PollStream T ε α) : PollStream (Option S × T) ε α where
  poll st :=
    let second (es : List ε) :=
      let (t, es', r) := B.poll st.2
      ((none, t), es ++ es', r)
    match st.1 with
    | none => second []
    | some s =>
      match A.poll s with
      | (_, es, .done) => second es
      | (s', es, r) => ((some s', st.2), es, r)

variable {A : PollStream S ε α} {B : PollStream T ε α} {s s' : S} {t t' : T}

theorem chain_poll_first {es : List ε} {r : Poll α}
    (hp : A.poll s = (s', es, r)) (hr : r.isDone = false) :
    (chain A B).poll (some s, t) = ((some s', t), es, r) := by
  cases r <;> simp_all [chain, Poll.isDone]

theorem chain_poll_switch {es es' : List ε} {r : Poll α} (hp : A.poll s = (s', es, .done))
    (hq : B.poll t = (t', es', r)) : (chain A B).poll (some s, t) = ((none, t'), es ++ es', r) := by
  simp only [chain, hp, hq]

theorem chain_poll_second {es : List ε} {r : Poll α} (hq : B.poll t = (t', es, r)) :
    (chain A B).poll (none, t) = ((none, t'), es, r) := by
  simp only [chain, hq, List.nil_append]

theorem chain_runs_second {log : List (Seen ε α)} {b : Bool} {st : Option S × T}
    (h : Runs (chain A B) (none, t) log b st) : ∃ t', Runs B t log b t' ∧ st = (none, t') := by
  generalize hu : ((none, t) : Option S × T) = u at h
  induction h generalizing t with
  | stop => exact ⟨t, .stop, hu.symm⟩
  | next hp hr _ ih =>
    subst hu
    obtain ⟨t', es', r', hpoll⟩ : ∃ t' es' r', B.poll t = (t', es', r') := ⟨_, _, _, rfl⟩
    rw [chain_poll_second hpoll] at hp
    cases hp
    obtain ⟨t'', hruns, hst⟩ := ih rfl
    exact ⟨t'', .next hpoll hr hruns, hst⟩
  | done hp =>
    subst hu
    obtain ⟨t', es', r', hpoll⟩ : ∃ t' es' r', B.poll t = (t', es', r') := ⟨_, _, _, rfl⟩
    rw [chain_poll_second hpoll] at hp
    cases hp
    exact ⟨t', .done hpoll, rfl⟩

/-- A run of a chain is a run of its first stream, or one to its end and a run
of its second stream. -/
theorem chain_runs {log : List (Seen ε α)} {b : Bool} {st : Option S × T}
    (h : Runs (chain A B) (some s, t) log b st) :
    (∃ s', Runs A s log false s' ∧ b = false ∧ st = (some s', t)) ∨
      ∃ log₁ log₂ s' t', Runs A s log₁ true s' ∧
        Runs B t log₂ b t' ∧ log = log₁ ++ log₂ ∧ st = (none, t') := by
  generalize hu : ((some s, t) : Option S × T) = u at h
  induction h generalizing s with
  | stop => exact Or.inl ⟨s, .stop, rfl, hu.symm⟩
  | next hp hr h ih =>
    subst hu
    obtain ⟨s₁, es₁, r₁, hfirst⟩ : ∃ s₁ es₁ r₁, A.poll s = (s₁, es₁, r₁) := ⟨_, _, _, rfl⟩
    cases hdone : r₁.isDone with
    | false =>
      rw [chain_poll_first hfirst hdone] at hp
      cases hp
      obtain ⟨s', hruns, hb, hst⟩ | ⟨log₁, log₂, s', t', hruns, hsecond, rfl, hst⟩ := ih rfl
      · exact Or.inl ⟨s', .next hfirst hr hruns, hb, hst⟩
      · exact Or.inr ⟨_, log₂, s', t', .next hfirst hr hruns,
          hsecond, by rw [List.append_assoc _ log₁], hst⟩
    | true =>
      cases r₁ <;> cases hdone
      obtain ⟨t₁, es₂, r₂, hsecond⟩ : ∃ t₁ es₂ r₂, B.poll t = (t₁, es₂, r₂) := ⟨_, _, _, rfl⟩
      rw [chain_poll_switch hfirst hsecond] at hp
      cases hp
      obtain ⟨t', hruns, hst⟩ := chain_runs_second h
      exact Or.inr ⟨_, _, s₁, t', .done hfirst, .next hsecond hr hruns, by simp, hst⟩
  | done hp =>
    subst hu
    obtain ⟨s₁, es₁, r₁, hfirst⟩ : ∃ s₁ es₁ r₁, A.poll s = (s₁, es₁, r₁) := ⟨_, _, _, rfl⟩
    cases hdone : r₁.isDone with
    | false =>
      rw [chain_poll_first hfirst hdone] at hp
      cases hp
      cases hdone
    | true =>
      cases r₁ <;> cases hdone
      obtain ⟨t₁, es₂, r₂, hsecond⟩ : ∃ t₁ es₂ r₂, B.poll t = (t₁, es₂, r₂) := ⟨_, _, _, rfl⟩
      rw [chain_poll_switch hfirst hsecond] at hp
      cases hp
      exact Or.inr ⟨_, _, s₁, t₁, .done hfirst, .done hsecond, by simp, rfl⟩

theorem chain_ends_second (h : Ends B t) : Ends (chain A B) (none, t) := by
  induction h with
  | next hp _ ih => exact .next (chain_poll_second hp) ih

theorem chain_ends (hA : Ends A s) (hB : Ends B t) : Ends (chain A B) (some s, t) := by
  induction hA with
  | @next s s' es r hp _ ih =>
    cases hdone : r.isDone with
    | false => exact .next (chain_poll_first hp hdone) fun _ => ih hdone
    | true =>
      cases r <;> cases hdone
      obtain ⟨hq, hends⟩ := hB
      exact .next (chain_poll_switch hp hq) fun hr => chain_ends_second (hends hr)

end Chain

section ThenAwait

/-- A future that others wait for, again and again. The flag of a poll tells
that it is ready. -/
abbrev Gate (D ε : Type) := D → D × List ε × Bool

inductive Gate.Opens (gate : Gate D ε) : D → Prop
  | ready {d d' : D} {es : List ε} (hp : gate d = (d', es, true)) : Opens gate d
  | wait {d d' : D} {es : List ε} (hp : gate d = (d', es, false)) (h : Opens gate d') : Opens gate d

inductive Gate.Awaited (gate : Gate D ε) : D → List ε → D → Prop
  | ready {d d' : D} {es : List ε} (hp : gate d = (d', es, true)) : Awaited gate d es d'
  | wait {d d' d'' : D} {es es' : List ε} (hp : gate d = (d', es, false))
      (h : Awaited gate d' es' d'') :
      Awaited gate d (es ++ es') d''

theorem Gate.Opens.awaited {gate : Gate D ε} {d : D} (h : gate.Opens d) :
    ∃ es d', gate.Awaited d es d' := by
  induction h with
  | ready hp => exact ⟨_, _, .ready hp⟩
  | wait hp _ ih =>
    obtain ⟨es, d', hawaited⟩ := ih
    exact ⟨_, d', .wait hp hawaited⟩

def pass (gate : Gate D ε) (s : S) (d : D) (es : List ε) (a : α) :
    (S × D × Option α) × List ε × Poll α :=
  match gate d with
  | (d, es', true) => ((s, d, none), es ++ es', .item a)
  | (d, es', false) => ((s, d, some a), es ++ es', .pending)

/-- Each item waits for the gate before the next one is taken. -/
def thenAwait (gate : Gate D ε) (A : PollStream S ε α) : PollStream (S × D × Option α) ε α where
  poll st :=
    match st with
    | (s, d, some a) => pass gate s d [] a
    | (s, d, none) =>
      match A.poll s with
      | (s, es, .item a) => pass gate s d es a
      | (s, es, .pending) => ((s, d, none), es, .pending)
      | (s, es, .done) => ((s, d, none), es, .done)

variable {gate : Gate D ε} {A : PollStream S ε α} {s s' : S} {d d' : D} {held held' : Option α}

theorem pass_ready {es es' : List ε} (hp : gate d = (d', es', true)) (a : α) :
    pass gate s d es a = ((s, d', none), es ++ es', .item a) := by
  simp only [pass, hp]

theorem pass_wait {es es' : List ε} (hp : gate d = (d', es', false)) (a : α) :
    pass gate s d es a = ((s, d', some a), es ++ es', .pending) := by
  simp only [pass, hp]

theorem thenAwait_poll_held (a : α) :
    (thenAwait gate A).poll (s, d, some a) = pass gate s d [] a := rfl

theorem thenAwait_poll_item {es : List ε} {a : α} (hp : A.poll s = (s', es, .item a)) :
    (thenAwait gate A).poll (s, d, none) = pass gate s' d es a := by
  simp only [thenAwait, hp]

theorem thenAwait_poll_pending {es : List ε} (hp : A.poll s = (s', es, .pending)) :
    (thenAwait gate A).poll (s, d, none) = ((s', d, none), es, .pending) := by
  simp only [thenAwait, hp]

theorem thenAwait_poll_done {es : List ε} (hp : A.poll s = (s', es, .done)) :
    (thenAwait gate A).poll (s, d, none) = ((s', d, none), es, .done) := by
  simp only [thenAwait, hp]

theorem pass_spec {es es' : List ε} {a : α} {st : S × D × Option α} {r : Poll α}
    (h : pass gate s d es a = (st, es', r)) :
    r.isDone = false ∧ st.1 = s ∧ [a] = items (r.seen : List (Seen ε α)) ++ st.2.2.toList := by
  rw [pass] at h
  split at h <;> cases h <;> exact ⟨rfl, rfl, rfl⟩

/-- A poll is at most one poll of the inner stream, and no item is lost. -/
theorem thenAwait_poll {es : List ε} {r : Poll α}
    (hp : (thenAwait gate A).poll (s, d, held) = ((s', d', held'), es, r)) :
    (r.isDone = false ∧ ∃ log, Runs A s log false s' ∧
        held.toList ++ items log = items (r.seen : List (Seen ε α)) ++ held'.toList) ∨
      (r = .done ∧ held = none ∧ held' = none ∧ ∃ es, A.poll s = (s', es, .done)) := by
  cases held with
  | some a =>
    obtain ⟨hr, rfl, hitems⟩ := pass_spec hp
    exact Or.inl ⟨hr, [], .stop, by simpa using hitems⟩
  | none =>
    obtain ⟨s₁, es₁, r₁, hpoll⟩ : ∃ s₁ es₁ r₁, A.poll s = (s₁, es₁, r₁) := ⟨_, _, _, rfl⟩
    cases r₁ with
    | pending =>
      rw [thenAwait_poll_pending hpoll] at hp
      cases hp
      exact Or.inl ⟨rfl, _, .next hpoll rfl .stop, by simp [Poll.seen]⟩
    | item a =>
      rw [thenAwait_poll_item hpoll] at hp
      obtain ⟨hr, rfl, hitems⟩ := pass_spec hp
      exact Or.inl ⟨hr, _, .next hpoll rfl .stop, by simpa [Poll.seen] using hitems⟩
    | done =>
      rw [thenAwait_poll_done hpoll] at hp
      cases hp
      exact Or.inr ⟨rfl, rfl, rfl, _, hpoll⟩

theorem thenAwait_runs {log : List (Seen ε α)} {b : Bool} {st : S × D × Option α}
    (h : Runs (thenAwait gate A) (s, d, held) log b st) :
    ∃ log', Runs A s log' b st.1 ∧ held.toList ++ items log' = items log ++ st.2.2.toList ∧
      (b = true → st.2.2 = none) := by
  generalize hu : (s, d, held) = u at h
  induction h generalizing s d held with
  | stop =>
    subst hu
    exact ⟨[], .stop, by simp, nofun⟩
  | @next u u' t es r log b hp hr _ ih =>
    subst hu
    obtain ⟨s', d', held'⟩ := u'
    obtain ⟨-, log₁, hruns₁, hitems₁⟩ | ⟨rfl, -⟩ := thenAwait_poll hp
    · obtain ⟨log₂, hruns₂, hitems₂, hend⟩ := ih rfl
      refine ⟨_, hruns₁.append hruns₂, ?_, hend⟩
      rw [items_append, ← List.append_assoc, hitems₁, List.append_assoc, hitems₂]
      simp
    · cases hr
  | @done u u' es hp =>
    subst hu
    obtain ⟨s', d', held'⟩ := u'
    obtain ⟨hr, -⟩ | ⟨-, rfl, rfl, es', hdone⟩ := thenAwait_poll hp
    · cases hr
    · exact ⟨_, .done hdone, by simp, fun _ => rfl⟩

theorem thenAwait_next {es : List ε} {a : α} {st : S × D × Option α}
    (h : Next (thenAwait gate A) (s, d, held) es (some a) st) : st.2.2 = none := by
  generalize hu : (s, d, held) = u at h
  generalize hr : some a = r at h
  induction h generalizing s d held with
  | @pending u u' t es es' r hp _ ih => exact ih (s := u'.1) (d := u'.2.1) rfl hr
  | @item u u' es a hp =>
    subst hu
    obtain ⟨s', d', held'⟩ := u'
    cases held with
    | some a =>
      rw [thenAwait_poll_held, pass] at hp
      split at hp <;> cases hp
      rfl
    | none =>
      obtain ⟨s₁, es₁, r₁, hpoll⟩ : ∃ s₁ es₁ r₁, A.poll s = (s₁, es₁, r₁) := ⟨_, _, _, rfl⟩
      cases r₁ with
      | pending =>
        rw [thenAwait_poll_pending hpoll] at hp
        cases hp
      | item b =>
        rw [thenAwait_poll_item hpoll, pass] at hp
        split at hp <;> cases hp
        rfl
      | done =>
        rw [thenAwait_poll_done hpoll] at hp
        cases hp
  | done => cases hr

theorem thenAwait_ends_held (hnone : ∀ d, Ends (thenAwait gate A) (s, d, none))
    (h : gate.Opens d) (a : α) :
    Ends (thenAwait gate A) (s, d, some a) := by
  induction h with
  | ready hp => exact .next ((thenAwait_poll_held a).trans (pass_ready hp a)) fun _ => hnone _
  | wait hp _ ih => exact .next ((thenAwait_poll_held a).trans (pass_wait hp a)) fun _ => ih

theorem thenAwait_ends (hgate : ∀ d, gate.Opens d) (h : Ends A s) (d : D) :
    Ends (thenAwait gate A) (s, d, none) := by
  induction h generalizing d with
  | @next s s' es r hp _ ih =>
    cases r with
    | pending => exact .next (thenAwait_poll_pending hp) fun _ => ih rfl d
    | done => exact .next (thenAwait_poll_done hp) fun hr => nomatch hr
    | item a =>
      obtain ⟨d₁, es₁, ready, hpoll⟩ : ∃ d₁ es₁ ready, gate d = (d₁, es₁, ready) := ⟨_, _, _, rfl⟩
      cases ready with
      | true => exact .next ((thenAwait_poll_item hp).trans (pass_ready hpoll a)) fun _ => ih rfl d₁
      | false =>
        refine .next ((thenAwait_poll_item hp).trans (pass_wait hpoll a)) fun _ => ?_
        exact thenAwait_ends_held (ih rfl) (hgate d₁) a

end ThenAwait

section ReadyChunks

/-- Take up to `n` items that are ready. The flag tells that the end was seen. -/
def takeReady (A : PollStream S ε α) : Nat → S → S × List ε × List α × Bool
  | 0, s => (s, [], [], false)
  | n + 1, s =>
    match A.poll s with
    | (s, es, .pending) => (s, es, [], false)
    | (s, es, .done) => (s, es, [], true)
    | (s, es, .item a) =>
      let (s, es', as, ended) := takeReady A n s
      (s, es ++ es', a :: as, ended)

/-- Group the items that are ready together, up to a number. The state is gone
once the inner stream has ended. -/
def readyChunks (capacity : Nat) (A : PollStream S ε α) : PollStream (Option S) ε (List α) where
  poll
    | none => (none, [], .done)
    | some s =>
      match takeReady A capacity s with
      | (s, es, [], ended) =>
        (if ended then none else some s, es, if ended then .done else .pending)
      | (s, es, a :: as, ended) => (if ended then none else some s, es, .item (a :: as))

variable {A : PollStream S ε α} {s s' : S} {n : Nat}

theorem takeReady_spec {es : List ε} {as : List α}
    {ended : Bool} (h : takeReady A n s = (s', es, as, ended)) :
    as.length ≤ n ∧ ∃ log, Runs A s log ended s' ∧ items log = as := by
  induction n generalizing s es as with
  | zero =>
    cases h
    exact ⟨Nat.le_refl 0, [], .stop, rfl⟩
  | succ n ih =>
    obtain ⟨s₁, es₁, r, hpoll⟩ : ∃ s₁ es₁ r, A.poll s = (s₁, es₁, r) := ⟨_, _, _, rfl⟩
    cases r <;> simp only [takeReady, hpoll] at h
    · cases h
      exact ⟨Nat.zero_le _, _, .next hpoll rfl .stop, by simp [Poll.seen]⟩
    · obtain ⟨s₂, es₂, as₂, ended₂, htake⟩ : ∃ s₂ es₂ as₂ ended₂,
        takeReady A n s₁ = (s₂, es₂, as₂, ended₂) :=
        ⟨_, _, _, _, rfl⟩
      rw [htake] at h
      cases h
      obtain ⟨hlength, log, hruns, hitems⟩ := ih htake
      exact ⟨Nat.succ_le_succ hlength, _, .next hpoll rfl hruns, by simp [Poll.seen, hitems]⟩
    · cases h
      exact ⟨Nat.zero_le _, _, .done hpoll, by simp⟩

theorem readyChunks_poll {o : Option S} {es : List ε} {r : Poll (List α)}
    (hp : (readyChunks n A).poll (some s) = (o, es, r)) :
    ∃ log ended s', Runs A s log ended s' ∧ o = (if ended then none else some s') ∧
      (r.isDone = true → ended = true) ∧
      items log = (items (r.seen : List (Seen ε (List α)))).flatten ∧
      ∀ group ∈ items (r.seen : List (Seen ε (List α))), group ≠ [] ∧ group.length ≤ n := by
  obtain ⟨s', es', as, ended, htake⟩ : ∃ s' es' as ended, takeReady A n s = (s', es', as, ended) :=
    ⟨_, _, _, _, rfl⟩
  obtain ⟨hlength, log, hruns, hitems⟩ := takeReady_spec htake
  refine ⟨log, ended, s', hruns, ?_⟩
  cases as with
  | nil =>
    simp only [readyChunks, htake] at hp
    cases hp
    refine ⟨rfl, ?_, ?_, ?_⟩ <;> cases ended <;> simp [Poll.seen, Poll.isDone, hitems]
  | cons a as =>
    simp only [readyChunks, htake] at hp
    cases hp
    exact ⟨rfl, nofun, by simp [Poll.seen, hitems], by simpa [Poll.seen] using hlength⟩

theorem readyChunks_runs_ended {log : List (Seen ε (List α))} {b : Bool} {o : Option S}
    (h : Runs (readyChunks n A) none log b o) : log = [] ∧ o = none := by
  cases h with
  | stop => exact ⟨rfl, rfl⟩
  | next hp hr =>
    cases hp
    cases hr
  | done hp =>
    cases hp
    exact ⟨rfl, rfl⟩

/-- The groups hold the items of the inner stream in their order. -/
theorem readyChunks_runs {log : List (Seen ε (List α))} {b : Bool} {o : Option S}
    (h : Runs (readyChunks n A) (some s) log b o) :
    ∃ log' ended s', Runs A s log' ended s' ∧ o = (if ended then none else some s') ∧
      (b = true → ended = true) ∧
      items log' = (items log).flatten ∧ ∀ group ∈ items log, group ≠ [] ∧ group.length ≤ n := by
  generalize hu : some s = u at h
  induction h generalizing s with
  | stop =>
    subst hu
    exact ⟨[], false, s, .stop, rfl, nofun, rfl, nofun⟩
  | next hp hr h ih =>
    subst hu
    obtain ⟨log₁, ended, s₁, hruns₁, rfl, -, hitems₁, hgroups₁⟩ := readyChunks_poll hp
    cases ended with
    | true =>
      obtain ⟨rfl, rfl⟩ := readyChunks_runs_ended h
      exact ⟨log₁, true, s₁, hruns₁, rfl, fun _ => rfl, by simp [hitems₁], by simpa using hgroups₁⟩
    | false =>
      obtain ⟨log₂, ended, s₂, hruns₂, ho, hb, hitems₂, hgroups₂⟩ := ih rfl
      refine ⟨_, ended, s₂, hruns₁.append hruns₂,
        ho, hb, by simp [hitems₁, hitems₂], fun group hgroup => ?_⟩
      simp only [items_append, items_map_effect, List.nil_append, List.mem_append] at hgroup
      exact hgroup.elim (hgroups₁ group) (hgroups₂ group)
  | done hp =>
    subst hu
    obtain ⟨log₁, ended, s₁, hruns₁, rfl, hend, hitems₁, hgroups₁⟩ := readyChunks_poll hp
    obtain rfl := hend rfl
    exact ⟨log₁, true, s₁, hruns₁, rfl, fun _ => rfl, by simpa [Poll.seen] using hitems₁, by simp⟩

theorem readyChunks_poll_of_take {es : List ε} {as : List α} {ended : Bool}
    (htake : takeReady A n s = (s', es, as, ended)) :
    ∃ es r, (readyChunks n A).poll (some s) = (if ended then none else some s', es, r) := by
  cases as with
  | nil => exact ⟨es, if ended then .done else .pending, by simp only [readyChunks, htake]⟩
  | cons a as => exact ⟨es, .item (a :: as), by simp only [readyChunks, htake]⟩

theorem readyChunks_poll_none : (readyChunks n A).poll none = (none, [], .done) := rfl

theorem readyChunks_ends_ended : Ends (readyChunks n A) none :=
  .next readyChunks_poll_none fun hr => nomatch hr

/-- Wherever taking ready items stops before the end, the groups come to their
end from there. -/
theorem readyChunks_ends_take (hn : 0 < n) (h : Ends A s) {k : Nat} {es : List ε} {as : List α}
    (htake : takeReady A k s = (s', es, as, false)) : Ends (readyChunks n A) (some s') := by
  induction h generalizing k es as s' with
  | @next s s₁ es₁ r hp _ ih =>
    have hhere : Ends (readyChunks n A) (some s) := by
      obtain ⟨m, rfl⟩ : ∃ m, n = m + 1 := ⟨n - 1, by omega⟩
      obtain ⟨s₂, es₂, as₂, ended, htake₂⟩ : ∃ s₂ es₂ as₂ ended,
        takeReady A (m + 1) s = (s₂, es₂, as₂, ended) :=
        ⟨_, _, _, _, rfl⟩
      obtain ⟨es₃, r₃, hpoll⟩ := readyChunks_poll_of_take htake₂
      refine .next hpoll fun _ => ?_
      cases ended with
      | true => exact readyChunks_ends_ended
      | false =>
        cases r <;> simp only [takeReady, hp, Prod.mk.injEq, reduceCtorEq, and_false] at htake₂
        · obtain ⟨rfl, -⟩ := htake₂
          exact ih rfl (k := 0) rfl
        · obtain ⟨hs, -, -, hended⟩ := htake₂
          exact ih rfl (k := m) (Prod.ext hs (Prod.ext rfl (Prod.ext rfl hended)))
    cases k with
    | zero =>
      cases htake
      exact hhere
    | succ k =>
      cases r <;> simp only [takeReady, hp, Prod.mk.injEq, reduceCtorEq, and_false] at htake
      · obtain ⟨rfl, -⟩ := htake
        exact ih rfl (k := 0) rfl
      · obtain ⟨hs, -, -, hended⟩ := htake
        exact ih rfl (k := k) (Prod.ext hs (Prod.ext rfl (Prod.ext rfl hended)))

theorem readyChunks_ends (hn : 0 < n) (h : Ends A s) : Ends (readyChunks n A) (some s) :=
  readyChunks_ends_take hn h (k := 0) rfl

end ReadyChunks

section Script

/-- A stream of given items, which is pending where there is none. -/
def script : PollStream (List (Option α)) ε α where
  poll
    | [] => ([], [], .done)
    | none :: rest => (rest, [], .pending)
    | some a :: rest => (rest, [], .item a)

theorem script_ends (items : List (Option α)) : Ends (script (ε := ε)) items := by
  induction items with
  | nil => exact .next (r := .done) rfl fun hr => nomatch hr
  | cons item rest ih =>
    cases item with
    | none => exact .next (r := .pending) rfl fun _ => ih
    | some a => exact .next (r := .item a) rfl fun _ => ih

end Script

end PollStream
