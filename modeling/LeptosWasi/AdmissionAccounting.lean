import Mathlib.Tactic.SplitIfs
import LeptosWasi.Admission

namespace LeptosWasi.AdmissionAccounting

open Admission

def waits : Caller → Bool
  | .entered _ | .observed _ | .waiting _ | .resumed _ => true
  | .left _ | .counted _ | .leased | .dropping | .dropped | .overloaded | .canceled => false

def live : Caller → Bool
  | .counted _ | .leased => true
  | .entered _ | .observed _ | .waiting _ | .resumed _ |
      .left _ | .dropping | .dropped | .overloaded
  | .canceled => false

def holdsPermit : Caller → Bool
  | .waiting permit | .resumed permit | .left permit => permit
  | .counted _ | .leased | .dropping => true
  | .entered _ | .observed _ | .dropped | .overloaded | .canceled => false

def passes (maxQueue : Limit) : Caller → Bool
  | .entered queued | .observed queued => decide (queued < maxQueue.val)
  | .waiting _ | .resumed _ => true
  | .left _ | .counted _ | .leased | .dropping | .dropped | .overloaded | .canceled => false

def isCancel : Move → Bool
  | .event _ .cancel => true
  | .arrive | .event _ .advance | .event _ .grant | .event _ .expire => false

def cancels (moves : List Move) : Nat := moves.countP isCancel

/-- The counters are those of the callers, and a gate for which nobody waits
takes the next caller if it has a permit. -/
structure Exact (limit : Limit) (s : State) : Prop where
  queued : s.gate.queued = s.callers.countP waits
  active : s.gate.active = s.callers.countP live
  bounded : s.gate.active ≤ limit
  idle : (∀ c ∈ s.callers, waits c = false) → s.gate.queued = 0
  admits : (∀ c ∈ s.callers, waits c = false) → 0 < s.gate.permits →
    ∃ s', s.admitNext = some s' ∧ s'.callers = s.callers ++ [.leased]

section Count

variable {α : Type} {l : List α} {i : Nat} {a : α}

theorem toNat_le_countP (p : α → Bool) (h : l[i]? = some a) : (p a).toNat ≤ l.countP p := by
  cases hp : p a with
  | false => exact Nat.zero_le _
  | true => exact List.countP_pos_iff.mpr ⟨a, List.mem_of_getElem? h, hp⟩

theorem countP_set_add (p : α → Bool) (h : l[i]? = some a) (b : α) :
    (l.set i b).countP p + (p a).toNat = l.countP p + (p b).toNat := by
  have hle := toNat_le_countP p h
  obtain ⟨hi, rfl⟩ := List.getElem?_eq_some_iff.mp h
  rw [List.countP_set hi]
  cases hp : p l[i] <;> cases hb : p b <;>
    simp only [hp, Bool.toNat_true, Bool.toNat_false] at hle ⊢ <;>
    simp <;> omega

end Count

section Step

variable {limit maxQueue : Limit} {gate gate' : AdmissionGate} {c c' : Caller}

structure Balanced (gate : AdmissionGate) (c : Caller)
    (gate' : AdmissionGate) (c' : Caller) (leaked : Nat) : Prop where
  queued : gate'.queued + (waits c).toNat = gate.queued + (waits c').toNat + leaked
  active : gate'.active + (live c).toNat = gate.active + (live c').toNat
  permits : gate'.permits + (holdsPermit c').toNat = gate.permits + (holdsPermit c).toNat
  bound : gate'.maxQueue = gate.maxQueue
  passes : (passes gate.maxQueue c').toNat + leaked ≤ (passes gate.maxQueue c).toNat

theorem advance_balanced (h : gate.advance c = some (gate', c'))
    (hq : (waits c).toNat ≤ gate.queued)
    (ha : (live c).toNat ≤ gate.active) : Balanced gate c gate' c' 0 := by
  cases c with
  | observed queued =>
    rw [AdmissionGate.advance] at h
    simp only [waits, Bool.toNat_true] at hq
    have hpass (hfull : ¬ gate.maxQueue ≤ queued) :
      1 ≤ (passes gate.maxQueue (.observed queued)).toNat := by
      simp only [passes, Nat.lt_of_not_le hfull, decide_true, Bool.toNat_true, Nat.le_refl]
    split_ifs at h with hfull hpermit
    · cases h
      exact ⟨Nat.sub_add_cancel hq, rfl, rfl, rfl, Nat.zero_le _⟩
    · cases h
      exact ⟨rfl, rfl, Nat.sub_add_cancel hpermit, rfl, hpass hfull⟩
    · cases h
      exact ⟨rfl, rfl, rfl, rfl, hpass hfull⟩
  | waiting permit =>
    cases permit with
    | true =>
      cases h
      exact ⟨rfl, rfl, rfl, rfl, Nat.le_refl _⟩
    | false => cases h
  | resumed permit =>
    cases h
    exact ⟨Nat.sub_add_cancel hq, rfl, rfl, rfl, Nat.zero_le _⟩
  | left permit =>
    cases permit <;> cases h <;> exact ⟨rfl, rfl, rfl, rfl, Nat.zero_le _⟩
  | leased =>
    cases h
    exact ⟨rfl, Nat.sub_add_cancel ha, rfl, rfl, Nat.zero_le _⟩
  | entered queued | counted active | dropping =>
    cases h
    exact ⟨rfl, rfl, rfl, rfl, Nat.le_refl _⟩
  | dropped | overloaded | canceled => cases h

/-- A future that is dropped while it waits stays in `queued`. No other event
leaves anything behind. -/
theorem act_balanced {e : Event} (h : gate.act e c = some (gate', c'))
    (hq : (waits c).toNat ≤ gate.queued)
    (ha : (live c).toNat ≤ gate.active) : Balanced gate c gate' c' (e == .cancel).toNat := by
  cases e with
  | advance => exact advance_balanced h hq ha
  | grant =>
    cases c with
    | waiting permit =>
      cases permit with
      | true => cases h
      | false =>
        rw [AdmissionGate.act] at h
        split_ifs at h with hpermit
        cases h
        exact ⟨rfl, rfl, Nat.sub_add_cancel hpermit, rfl, Nat.le_refl _⟩
    | _ => cases h
  | expire | cancel =>
    cases c with
    | waiting permit =>
      cases h
      exact ⟨rfl, rfl, rfl, rfl, Nat.le_refl _⟩
    | _ => cases h

structure Accounted (limit maxQueue : Limit) (leaked : Nat) (s : State) : Prop where
  queued : s.gate.queued = s.callers.countP waits + leaked
  active : s.gate.active = s.callers.countP live
  permits : s.gate.permits + s.callers.countP holdsPermit = limit
  bound : s.gate.maxQueue = maxQueue
  passing : s.callers.countP (passes maxQueue) + leaked ≤ maxQueue

theorem accounted_start : Accounted limit maxQueue 0 (.start limit maxQueue) :=
  ⟨rfl, rfl, Nat.add_zero _, rfl, Nat.zero_le _⟩

theorem countP_passes_le (maxQueue : Limit) (callers : List Caller) :
    callers.countP (passes maxQueue) ≤ callers.countP waits := by
  refine List.countP_mono_left fun c _ hc => ?_
  cases c <;> first | rfl | cases hc

theorem countP_live_le (callers : List Caller) :
    callers.countP live ≤ callers.countP holdsPermit := by
  refine List.countP_mono_left fun c _ hc => ?_
  cases c <;> first | rfl | cases hc

theorem Accounted.arrive {leaked : Nat} {s : State} (ha : Accounted limit maxQueue leaked s) :
    Accounted limit maxQueue leaked s.arrive := by
  have hpasses := countP_passes_le maxQueue s.callers
  refine ⟨?_, ?_, ?_, ha.bound, ?_⟩
  · rw [State.arrive, List.countP_append, ha.queued]
    exact Nat.add_right_comm _ _ _
  · rw [State.arrive, List.countP_append]
    exact ha.active
  · rw [State.arrive, List.countP_append]
    exact ha.permits
  · rw [State.arrive, List.countP_append, List.countP_singleton, passes, ha.queued]
    have hpassing := ha.passing
    split_ifs with h
    · rw [decide_eq_true_eq] at h
      omega
    · omega

theorem Accounted.set {leaked : Nat} {s : State} (ha : Accounted limit maxQueue leaked s) {i : Nat}
    (hc : s.callers[i]? = some c) {more : Nat} (hb : Balanced s.gate c gate' c' more) :
    Accounted limit maxQueue (leaked + more) ⟨gate', s.callers.set i c'⟩ := by
  obtain ⟨hq, hl, hp, hm, hpass⟩ := hb
  rw [ha.bound] at hpass
  have hwaits := countP_set_add waits hc c'
  have hlive := countP_set_add live hc c'
  have hholds := countP_set_add holdsPermit hc c'
  have hpasses := countP_set_add (passes maxQueue) hc c'
  have hqueued := ha.queued
  have hactive := ha.active
  have hpermits := ha.permits
  have hpassing := ha.passing
  refine ⟨?_, ?_, ?_, hm.trans ha.bound, ?_⟩
  all_goals simp only
  all_goals omega

theorem cancels_concat (moves : List Move) (move : Move) :
    cancels (moves ++ [move]) = cancels moves + (isCancel move).toNat := by
  rw [cancels, List.countP_append, List.countP_singleton, cancels]
  cases isCancel move <;> rfl

theorem cancels_eq_zero_iff {moves : List Move} :
    cancels moves = 0 ↔ ∀ caller, .event caller .cancel ∉ moves := by
  rw [cancels, List.countP_eq_zero]
  constructor
  · intro hall caller hmem
    exact hall _ hmem rfl
  · intro hall move hmem hcancel
    cases move with
    | arrive => cases hcancel
    | event caller event =>
      cases event with
      | cancel => exact hall caller hmem
      | advance | grant | expire => cases hcancel

theorem run_accounted {moves : List Move} {s : State} (h : (admission limit maxQueue).Run moves s) :
    Accounted limit maxQueue (cancels moves) s := by
  refine h.invariant (fun moves s => Accounted limit maxQueue (cancels moves) s) ?_ ?_
  · rintro _ rfl
    exact accounted_start
  · intro moves s move s' ha hs
    rw [cancels_concat]
    cases move with
    | arrive =>
      cases hs
      exact ha.arrive
    | event i e =>
      simp only [admission, State.apply, Option.bind_eq_bind, Option.bind_eq_some_iff] at hs
      obtain ⟨c, hc, ⟨gate', c'⟩, hact, hs⟩ := hs
      cases hs
      have hq : (waits c).toNat ≤ s.gate.queued :=
        ha.queued ▸ Nat.le_trans (toNat_le_countP waits hc) (Nat.le_add_right _ _)
      have hb := act_balanced hact hq (ha.active ▸ toNat_le_countP live hc)
      have heq : isCancel (.event i e) = (e == .cancel) := by cases e <;> rfl
      rw [heq]
      exact ha.set hc hb

theorem admitNext_of_idle {s : State} (hqueued : s.gate.queued = 0)
    (hpermits : 0 < s.gate.permits) :
    ∃ s', s.admitNext = some s' ∧ s'.callers = s.callers ++ [.leased] := by
  have hfree : ¬ s.gate.maxQueue.val ≤ s.gate.queued := by
    rw [hqueued]
    exact Nat.not_le_of_lt s.gate.maxQueue.property.1
  simp only [State.admitNext, State.applyAll, List.replicate, List.foldlM_cons, List.foldlM_nil,
    State.apply, State.arrive, Option.bind_eq_bind, Option.bind_some]
  simp [AdmissionGate.act, AdmissionGate.advance, hfree, hpermits]

end Step

/-- A gate's accounts are exact in a run for as long as no future is dropped
while it waits. -/
theorem accounting_exact_iff {limit maxQueue : Limit} {moves : List Move} {s : State}
    (h : (admission limit maxQueue).Run moves s) :
    Exact limit s ↔ ∀ caller, .event caller .cancel ∉ moves := by
  have ha := run_accounted h
  rw [← cancels_eq_zero_iff]
  constructor
  · intro hexact
    have hqueued := ha.queued
    rw [hexact.queued] at hqueued
    exact Nat.left_eq_add.mp hqueued
  · intro hzero
    have hqueued := ha.queued
    rw [hzero, Nat.add_zero] at hqueued
    have hidle (hall : ∀ c ∈ s.callers, waits c = false) : s.gate.queued = 0 := by
      rw [hqueued, List.countP_eq_zero]
      exact fun c hc => by simp [hall c hc]
    refine ⟨hqueued, ha.active, ?_, hidle, fun hall => admitNext_of_idle (hidle hall)⟩
    calc s.gate.active = s.callers.countP live := ha.active
      _ ≤ s.callers.countP holdsPermit := countP_live_le _
      _ ≤ limit := ha.permits ▸ Nat.le_add_left _ _

def one : Limit := ⟨1, by decide⟩

def contended : List Move :=
  .arrive :: List.replicate 5 (.event 0 .advance) ++ .arrive :: List.replicate 2 (.event 1 .advance)

theorem run_applyAll {limit maxQueue : Limit} {moves : List Move} {s : State}
    (h : (State.start limit maxQueue).applyAll moves = some s) :
    (admission limit maxQueue).Run moves s :=
  System.Run.foldlM (fun _ _ _ hs => hs) (.start rfl) h

theorem accounting_exact_iff_contended : ∃ s, (State.start one one).applyAll contended = some s ∧
    s.callers = [.leased, .waiting false] ∧ Exact one s := by
  obtain ⟨s, hs⟩ := Option.isSome_iff_exists.mp
    (by decide : ((State.start one one).applyAll contended).isSome = true)
  have hcallers : ((State.start one one).applyAll contended).map State.callers =
      some [.leased, .waiting false] := by decide
  refine ⟨s, hs, by simpa [hs] using hcallers,
    (accounting_exact_iff (run_applyAll hs)).mpr fun caller => ?_⟩
  simp [contended]

def disconnected : List Move :=
  contended ++ .event 1 .cancel :: List.replicate 2 (.event 0 .advance)

/-- Nobody waits and the permit is free, and yet the next caller is turned
away. -/
theorem next_caller_overloaded : ∃ s, (admission one one).Run disconnected s ∧
    s.callers = [.dropped, .canceled] ∧ s.gate.permits = 1 ∧ s.gate.queued = 1 ∧ ¬ Exact one s ∧
    ∃ s', s.applyAll (.arrive :: List.replicate 2 (.event 2 .advance)) = some s' ∧
      s'.callers = [.dropped, .canceled, .overloaded] := by
  refine ⟨⟨⟨1, 0, 1, 1, 1, one⟩, [.dropped, .canceled]⟩,
    run_applyAll (by decide), rfl, rfl, rfl, fun h => ?_,
    ⟨⟨1, 0, 1, 1, 2, one⟩, [.dropped, .canceled, .overloaded]⟩, by decide, rfl⟩
  exact absurd h.queued (by decide)

/-- Each future that is dropped while it waits takes a place in the queue for
good. When none is left, no caller waits for a permit any more. -/
theorem queue_exhausted {limit maxQueue : Limit} {moves : List Move} {s : State}
    (h : (admission limit maxQueue).Run moves s) (hleaked : maxQueue ≤ cancels moves) :
    maxQueue ≤ s.gate.queued ∧ ∀ c ∈ s.callers, passes maxQueue c = false := by
  have ha := run_accounted h
  have hpassing := ha.passing
  refine ⟨ha.queued ▸ Nat.le_trans hleaked (Nat.le_add_left _ _), fun c hc => ?_⟩
  have hzero : s.callers.countP (passes maxQueue) = 0 := by omega
  exact Bool.eq_false_iff.mpr (List.countP_eq_zero.mp hzero c hc)

end LeptosWasi.AdmissionAccounting
