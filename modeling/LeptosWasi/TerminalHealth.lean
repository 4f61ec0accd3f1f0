import Mathlib.Algebra.Group.Nat.Defs
import Mathlib.Data.List.Infix
import Mathlib.Data.List.Induction
import LeptosWasi.Library.Histories
import LeptosWasi.Library.Runs

namespace LeptosWasi.TerminalHealth

inductive Mark where
  | success
  | failure
deriving DecidableEq

namespace Mark

def other : Mark → Mark
  | .success => .failure
  | .failure => .success

def threshold : Mark → Nat
  | .success => 2
  | .failure => 3

end Mark

structure Terminal where
  healthy : Bool
  failures : Nat
  successes : Nat

namespace Terminal

def new : Terminal := ⟨true, 0, 0⟩

def streak (terminal : Terminal) : Mark → Nat
  | .success => terminal.successes
  | .failure => terminal.failures

def reset (terminal : Terminal) : Mark → Terminal
  | .success => { terminal with failures := 0 }
  | .failure => { terminal with successes := 0 }

def count (terminal : Terminal) : Mark → Terminal
  | .success => { terminal with successes := (terminal.successes + 1) % 2 ^ 64 }
  | .failure => { terminal with failures := (terminal.failures + 1) % 2 ^ 64 }

def flag (terminal : Terminal) (mark : Mark) : Terminal :=
  { terminal with healthy := mark == .success }

def mark (terminal : Terminal) (mark : Mark) : Terminal :=
  let terminal := (terminal.reset mark).count mark
  if mark.threshold ≤ terminal.streak mark then terminal.flag mark else terminal

def markSuccess (terminal : Terminal) : Terminal := terminal.mark .success

def markFailure (terminal : Terminal) : Terminal := terminal.mark .failure

end Terminal

/-- Where a call of `mark_success` or `mark_failure` is. -/
inductive Stage where
  | called
  | reset
  | counted
  | finished
deriving DecidableEq

structure Call where
  mark : Mark
  stage : Stage

structure State where
  terminal : Terminal
  calls : List Call

inductive Event where
  | called (mark : Mark)
  | reset (mark : Mark)
  | counted (mark : Mark)
  | flagged (mark : Mark)
deriving DecidableEq

inductive Step : State → Event → State → Prop
  | call {s : State} (mark : Mark) :
    Step s (.called mark) { s with calls := s.calls ++ [⟨mark, .called⟩] }
  | reset {s : State} {i : Nat} {mark : Mark} (hcall : s.calls[i]? = some ⟨mark, .called⟩) :
    Step s (.reset mark) ⟨s.terminal.reset mark, s.calls.set i ⟨mark, .reset⟩⟩
  | count {s : State} {i : Nat} {mark : Mark} (hcall : s.calls[i]? = some ⟨mark, .reset⟩) :
    Step s (.counted mark) ⟨s.terminal.count mark,
      s.calls.set i ⟨mark,
        if mark.threshold ≤ (s.terminal.count mark).streak mark then .counted else .finished⟩⟩
  | flag {s : State} {i : Nat} {mark : Mark} (hcall : s.calls[i]? = some ⟨mark, .counted⟩) :
    Step s (.flagged mark) ⟨s.terminal.flag mark, s.calls.set i ⟨mark, .finished⟩⟩

def marking : System State Event where
  init s := s = ⟨.new, []⟩
  step := Step

def oneByOne : System State Event where
  init s := s = ⟨.new, []⟩
  step s e s' := Step s e s' ∧ ∀ mark, e = .called mark → ∀ call ∈ s.calls, call.stage = .finished

def streak (mark : Mark) (events : List Event) : Nat :=
  events.foldl
    (fun n e => if e = .counted mark then n + 1 else if e = .reset mark.other then 0 else n) 0

def flagOf (events : List Event) : Bool :=
  events.foldl (fun healthy e => match e with
    | .flagged mark => mark == .success
    | .called _ | .reset _ | .counted _ => healthy) true

/-- A flag is set by a call that has found enough marks in a row. -/
def Allowed (before : List Event) : Event → Prop
  | .flagged mark => ∃ earlier, earlier ++ [.counted mark] <+: before ∧
      mark.threshold ≤ streak mark (earlier ++ [.counted mark])
  | .called _ | .reset _ | .counted _ => True

def outcomes (events : List Event) : List Mark :=
  events.filterMap fun e => match e with
    | .called mark => some mark
    | .reset _ | .counted _ | .flagged _ => none

def trailing (mark : Mark) (outcomes : List Mark) : Nat :=
  outcomes.foldl (fun n m => if m = mark then n + 1 else 0) 0

section Operations

variable (terminal : Terminal) (m mark : Mark)

@[simp] theorem streak_reset :
    (terminal.reset m).streak mark = if m = mark.other then 0 else terminal.streak mark := by
  cases m <;> cases mark <;> rfl

@[simp] theorem streak_count :
    (terminal.count m).streak mark =
      if m = mark then (terminal.streak mark + 1) % 2 ^ 64 else terminal.streak mark := by
  cases m <;> cases mark <;> rfl

@[simp] theorem streak_flag : (terminal.flag m).streak mark = terminal.streak mark := by
  cases mark <;> rfl

@[simp] theorem healthy_reset : (terminal.reset m).healthy = terminal.healthy := by cases m <;> rfl

@[simp] theorem healthy_count : (terminal.count m).healthy = terminal.healthy := by cases m <;> rfl

@[simp] theorem healthy_flag : (terminal.flag m).healthy = (m == .success) := rfl

theorem ne_other : m ≠ m.other := by cases m <;> exact nofun

theorem eq_or_eq_other : m = mark ∨ m = mark.other := by
  cases m <;> cases mark <;> simp [Mark.other]

theorem streak_mark :
    (terminal.mark m).streak mark = if m = mark then (terminal.streak mark + 1) % 2 ^ 64
    else 0 := by
  have hstreak : (terminal.mark m).streak mark = ((terminal.reset m).count m).streak mark := by
    rw [Terminal.mark]
    split_ifs
    · rw [streak_flag]
    · rfl
  rw [hstreak, streak_count, streak_reset]
  obtain rfl | rfl := eq_or_eq_other m mark
  · rw [if_pos rfl, if_pos rfl, if_neg (ne_other m)]
  · rw [if_neg (ne_other mark).symm, if_neg (ne_other mark).symm, if_pos rfl]

theorem healthy_mark : (terminal.mark m).healthy =
    if m.threshold ≤ (terminal.streak m + 1) % 2 ^ 64 then m == .success else terminal.healthy := by
  rw [Terminal.mark]
  simp only [streak_count, streak_reset, if_true, if_neg (ne_other m)]
  split_ifs
  · rfl
  · rw [healthy_count, healthy_reset]

end Operations

section Sequential

variable {mark m : Mark} {outcomes : List Mark}

theorem trailing_snoc :
    trailing mark (outcomes ++ [m]) = if m = mark then trailing mark outcomes + 1 else 0 := by
  rw [trailing, List.foldl_append]
  rfl

theorem foldl_mark_streak (outcomes : List Mark) (mark : Mark) :
    (outcomes.foldl Terminal.mark .new).streak mark = trailing mark outcomes % 2 ^ 64 := by
  induction outcomes using List.reverseRecOn with
  | nil => cases mark <;> rfl
  | append_singleton outcomes m ih =>
    rw [List.foldl_append, List.foldl_cons, List.foldl_nil, streak_mark, ih, trailing_snoc]
    split_ifs
    · rw [Nat.mod_add_mod]
    · rfl

/-- The outcomes have put the terminal down, and nothing since then up. -/
def Down (outcomes : List Mark) : Prop :=
  ∃ down, down <+: outcomes ∧ 3 ≤ trailing .failure down ∧
    ∀ up, up <+: outcomes → down.length < up.length → trailing .success up < 2

theorem Down.of_trailing (h : 3 ≤ trailing .failure outcomes) : Down outcomes :=
  ⟨outcomes, List.prefix_rfl, h, fun _ hup hlt => absurd hup.length_le (Nat.not_le.mpr hlt)⟩

theorem trailing_success_of_failure (h : 0 < trailing .failure outcomes) :
    trailing .success outcomes = 0 := by
  cases outcomes using List.reverseRecOn with
  | nil => rfl
  | append_singleton outcomes m =>
    rw [trailing_snoc] at h ⊢
    cases m with
    | failure => rfl
    | success => cases h

theorem Down.success_lt (h : Down outcomes) : trailing .success outcomes < 2 := by
  obtain ⟨down, hdown, hfailures, hafter⟩ := h
  obtain rfl | hne := eq_or_ne down outcomes
  · rw [trailing_success_of_failure (Nat.lt_of_lt_of_le (by decide) hfailures)]
    decide
  · refine hafter outcomes List.prefix_rfl (Nat.lt_of_le_of_ne hdown.length_le fun hlength => ?_)
    exact hne (hdown.eq_of_length hlength)

theorem down_snoc : Down (outcomes ++ [m]) ↔
    3 ≤ trailing .failure (outcomes ++ [m]) ∨ trailing .success (outcomes ++ [m]) < 2 ∧
    Down outcomes := by
  constructor
  · rintro ⟨down, hdown, hfailures, hafter⟩
    obtain rfl | hdown := List.prefix_concat_iff.mp hdown
    · exact .inl hfailures
    · refine .inr ⟨hafter _ List.prefix_rfl ?_, down, hdown, hfailures, fun up hup hlt => ?_⟩
      · rw [List.length_append]
        exact Nat.lt_succ_of_le hdown.length_le
      · exact hafter up (hup.trans (List.prefix_append _ _)) hlt
  · rintro (h | ⟨hsuccess, down, hdown, hfailures, hafter⟩)
    · exact .of_trailing h
    · refine ⟨down, hdown.trans (List.prefix_append _ _), hfailures, fun up hup hlt => ?_⟩
      obtain rfl | hup := List.prefix_concat_iff.mp hup
      · exact hsuccess
      · exact hafter up hup hlt

/-- Calls one after another put a terminal down with three failures in a row,
and up with two successes. -/
theorem unhealthy_iff (outcomes : List Mark) :
    (outcomes.foldl Terminal.mark .new).healthy = false ↔ Down outcomes := by
  induction outcomes using List.reverseRecOn with
  | nil =>
    constructor
    · intro h
      cases h
    · rintro ⟨down, hdown, hfailures, -⟩
      obtain rfl := List.prefix_nil.mp hdown
      cases hfailures
  | append_singleton outcomes m ih =>
    have hmod (mark : Mark) :
        (trailing mark outcomes % 2 ^ 64 + 1) % 2 ^ 64 = (trailing mark outcomes + 1) % 2 ^ 64 :=
      Nat.mod_add_mod _ _ _
    rw [List.foldl_append, List.foldl_cons, List.foldl_nil,
      healthy_mark, foldl_mark_streak, hmod, down_snoc,
      trailing_snoc, trailing_snoc]
    -- A count that has wrapped is beyond its threshold before.
    cases m with
    | success =>
      have hup : 2 ≤ trailing .success outcomes →
        (outcomes.foldl Terminal.mark .new).healthy ≠ false :=
        fun h hdown => absurd (ih.mp hdown).success_lt (Nat.not_lt.mpr h)
      simp only [if_true, reduceCtorEq, if_false]
      by_cases hcount : Mark.success.threshold ≤ (trailing .success outcomes + 1) % 2 ^ 64
      · have hle : 2 ≤ trailing .success outcomes + 1 := hcount.trans (Nat.mod_le _ _)
        rw [if_pos hcount]
        simp only [BEq.rfl, Bool.true_eq_false, false_iff]
        omega
      · have hlt : ¬ 2 ≤ (trailing .success outcomes + 1) % 2 ^ 64 := hcount
        rw [if_neg hcount]
        constructor
        · intro hdown
          refine .inr ⟨?_, ih.mp hdown⟩
          have hfew := mt hup (not_not.mpr hdown)
          omega
        · rintro (h | ⟨-, hdown⟩)
          · omega
          · exact ih.mpr hdown
    | failure =>
      have hdown : 3 ≤ trailing .failure outcomes →
        (outcomes.foldl Terminal.mark .new).healthy = false :=
        fun h => ih.mpr (.of_trailing h)
      simp only [if_true, reduceCtorEq, if_false]
      by_cases hcount : Mark.failure.threshold ≤ (trailing .failure outcomes + 1) % 2 ^ 64
      · rw [if_pos hcount]
        exact iff_of_true rfl (.inl (hcount.trans (Nat.mod_le _ _)))
      · have hlt : ¬ 3 ≤ (trailing .failure outcomes + 1) % 2 ^ 64 := hcount
        rw [if_neg hcount]
        constructor
        · intro h
          exact .inr ⟨by decide, ih.mp h⟩
        · rintro (h | ⟨-, h⟩)
          · exact hdown (by omega)
          · exact ih.mpr h

end Sequential

section Interleaved

variable {events : List Event} {s s' : State} {e : Event}

theorem streak_snoc (mark : Mark) (events : List Event) (e : Event) : streak mark (events ++ [e]) =
    if e = .counted mark then streak mark events + 1
    else if e = .reset mark.other then 0 else streak mark events := by
  rw [streak, List.foldl_append]
  rfl

structure Kept (events : List Event) (s : State) : Prop where
  streaks : ∀ mark, s.terminal.streak mark = streak mark events % 2 ^ 64
  healthy : s.terminal.healthy = flagOf events
  counted : ∀ call ∈ s.calls, call.stage = .counted → Allowed events (.flagged call.mark)
  justified : Justified Allowed events

theorem Allowed.more (h : Allowed events e) (more : List Event) : Allowed (events ++ more) e := by
  cases e with
  | flagged mark =>
    obtain ⟨earlier, hprefix, hstreak⟩ := h
    exact ⟨earlier, hprefix.trans (List.prefix_append _ _), hstreak⟩
  | called mark => trivial
  | reset mark => trivial
  | counted mark => trivial

theorem Kept.counted_set (hk : Kept events s) {i : Nat} {call : Call}
    (h : call.stage = .counted → Allowed (events ++ [e]) (.flagged call.mark)) :
    ∀ c ∈ s.calls.set i call, c.stage = .counted → Allowed (events ++ [e]) (.flagged c.mark) := by
  intro c hc hstage
  obtain hc | rfl := List.mem_or_eq_of_mem_set hc
  · exact (hk.counted c hc hstage).more _
  · exact h hstage

theorem flagOf_snoc (events : List Event) (e : Event) : flagOf (events ++ [e]) = match e with
    | .flagged mark => mark == .success
    | .called _ | .reset _ | .counted _ => flagOf events := by
  rw [flagOf, List.foldl_append]
  rfl

theorem kept_step (hk : Kept events s) (h : Step s e s') : Kept (events ++ [e]) s' := by
  cases h with
  | call mark =>
    refine ⟨fun m => ?_, ?_, ?_, hk.justified.snoc trivial⟩
    · rw [streak_snoc]
      exact hk.streaks m
    · rw [flagOf_snoc]
      exact hk.healthy
    · intro c hc hstage
      obtain hc | hc := List.mem_append.mp hc
      · exact (hk.counted c hc hstage).more _
      · rw [List.mem_singleton.mp hc] at hstage
        cases hstage
  | reset hcall =>
    refine ⟨fun m => ?_, ?_, hk.counted_set nofun, hk.justified.snoc trivial⟩
    · rw [streak_snoc, streak_reset, hk.streaks]
      simp only [reduceCtorEq, if_false, Event.reset.injEq]
      split_ifs <;> rfl
    · rw [flagOf_snoc, healthy_reset]
      exact hk.healthy
  | @count i mark hcall =>
    have hstreaks (m : Mark) :
        (s.terminal.count mark).streak m = streak m (events ++ [.counted mark]) % 2 ^ 64 := by
      rw [streak_snoc, streak_count, hk.streaks]
      simp only [reduceCtorEq, if_false, Event.counted.injEq]
      split_ifs
      · rw [Nat.mod_add_mod]
      · rfl
    refine ⟨hstreaks, ?_, hk.counted_set fun hstage => ?_, hk.justified.snoc trivial⟩
    · rw [flagOf_snoc, healthy_count]
      exact hk.healthy
    · dsimp only at hstage
      split_ifs at hstage with hcount
      rw [hstreaks] at hcount
      exact ⟨events, List.prefix_rfl, hcount.trans (Nat.mod_le _ _)⟩
  | flag hcall =>
    refine ⟨fun m => ?_, ?_, hk.counted_set nofun, ?_⟩
    · rw [streak_snoc, streak_flag]
      exact hk.streaks m
    · rw [flagOf_snoc, healthy_flag]
    · exact hk.justified.snoc (hk.counted _ (List.mem_of_getElem? hcall) rfl)

theorem kept_of_run (h : marking.Run events s) : Kept events s := by
  refine h.invariant Kept ?_ fun _ _ _ _ hk hs => kept_step hk hs
  rintro s rfl
  refine ⟨fun mark => ?_, rfl, ?_, .nil⟩
  · cases mark <;> rfl
  · intro call hcall
    cases hcall

end Interleaved

section OneByOne

variable {events : List Event} {s s' : State} {e : Event}

def Progress (old : Terminal) (mark : Mark) (terminal : Terminal) : Stage → Prop
  | .called => terminal = old
  | .reset => terminal = old.reset mark
  | .counted => terminal = (old.reset mark).count mark ∧ mark.threshold ≤ terminal.streak mark
  | .finished => terminal = old.mark mark

/-- The one call that may be unfinished has made its progress on all before it. -/
inductive Serial (events : List Event) (s : State) : Prop
  | idle (hidle : ∀ call ∈ s.calls, call.stage = .finished)
    (hterminal : s.terminal = (outcomes events).foldl Terminal.mark .new)
  | busy (past : List Mark) (i : Nat) (call : Call) (hcall : s.calls[i]? = some call)
    (hothers : ∀ (j : Nat) (c : Call), s.calls[j]? = some c → j ≠ i → c.stage = .finished)
    (houtcomes : outcomes events = past ++ [call.mark])
    (hprogress : Progress (past.foldl Terminal.mark .new) call.mark s.terminal call.stage)

theorem Serial.terminal_eq (h : Serial events s)
    (hidle : ∀ call ∈ s.calls, call.stage = .finished) :
    s.terminal = (outcomes events).foldl Terminal.mark .new := by
  cases h with
  | idle _ hterminal => exact hterminal
  | busy past i call hcall hothers houtcomes hprogress =>
    rw [hidle call (List.mem_of_getElem? hcall)] at hprogress
    rw [houtcomes, List.foldl_append]
    exact hprogress

theorem Serial.step (h : Serial events s) {i : Nat} {call : Call} (hcall : s.calls[i]? = some call)
    (hunfinished : call.stage ≠ .finished) {terminal : Terminal} {stage : Stage}
    (he : outcomes (events ++ [e]) = outcomes events)
    (hprogress : ∀ old, Progress old call.mark s.terminal call.stage →
      Progress old call.mark terminal stage) :
    Serial (events ++ [e]) ⟨terminal, s.calls.set i ⟨call.mark, stage⟩⟩ := by
  cases h with
  | idle hidle _ => exact absurd (hidle call (List.mem_of_getElem? hcall)) hunfinished
  | busy past j c hc hothers houtcomes hold =>
    obtain rfl : i = j := by
      by_contra hne
      exact hunfinished (hothers i call hcall hne)
    obtain rfl : call = c := Option.some.inj (hcall.symm.trans hc)
    refine .busy past i ⟨call.mark, stage⟩ ?_ ?_ (he.trans houtcomes) (hprogress _ hold)
    · exact List.getElem?_set_self (List.getElem?_eq_some_iff.mp hcall).1
    · intro j c hj hne
      rw [List.getElem?_set_ne (Ne.symm hne)] at hj
      exact hothers j c hj hne

theorem outcomes_snoc (events : List Event) (e : Event) : outcomes (events ++ [e]) = match e with
    | .called mark => outcomes events ++ [mark]
    | .reset _ | .counted _ | .flagged _ => outcomes events := by
  rw [outcomes, List.filterMap_append]
  cases e with
  | called mark => rfl
  | reset mark => exact List.append_nil _
  | counted mark => exact List.append_nil _
  | flagged mark => exact List.append_nil _

theorem serial_step (hserial : Serial events s) (h : Step s e s')
    (halone : ∀ mark, e = .called mark → ∀ call ∈ s.calls, call.stage = .finished) :
    Serial (events ++ [e]) s' := by
  cases h with
  | call mark =>
    have hidle := halone mark rfl
    refine .busy (outcomes events) s.calls.length ⟨mark, .called⟩ ?_ ?_ (outcomes_snoc _ _) ?_
    · exact List.getElem?_concat_length
    · intro j c hj hne
      rw [List.getElem?_append] at hj
      split_ifs at hj with hlt
      · exact hidle c (List.mem_of_getElem? hj)
      · rw [List.getElem?_eq_none] at hj
        · cases hj
        · simp only [List.length_singleton]
          omega
    · exact hserial.terminal_eq hidle
  | reset hcall =>
    refine hserial.step hcall nofun (outcomes_snoc _ _) fun old hold => ?_
    exact congrArg (Terminal.reset · _) hold
  | @count i mark hcall =>
    refine hserial.step hcall nofun (outcomes_snoc _ _) fun old hold => ?_
    have hterminal : s.terminal = old.reset mark := hold
    split_ifs with hcount
    · exact ⟨congrArg (Terminal.count · mark) hterminal, hcount⟩
    · rw [hterminal] at hcount
      rw [Progress, Terminal.mark, if_neg hcount, hterminal]
  | @flag i mark hcall =>
    refine hserial.step hcall nofun (outcomes_snoc _ _) fun old hold => ?_
    obtain ⟨hterminal, hcount⟩ := hold
    rw [hterminal] at hcount
    rw [Progress, Terminal.mark, if_pos hcount, hterminal]

theorem serial_of_run (h : oneByOne.Run events s) : Serial events s := by
  refine h.invariant Serial ?_ ?_
  · rintro s rfl
    exact .idle (fun call hcall => by cases hcall) rfl
  · rintro events s e s' hserial ⟨h, halone⟩
    exact serial_step hserial h halone

end OneByOne

/-- A terminal's flag changes only on enough marks in a row, and calls one
after another take it down and up with their outcomes. -/
theorem terminal_health {events : List Event} {s : State} (h : marking.Run events s) :
    Justified Allowed events ∧ s.terminal.healthy = flagOf events ∧
      (oneByOne.Run events s → (∀ call ∈ s.calls, call.stage = .finished) →
        (s.terminal.healthy = false ↔ Down (outcomes events))) := by
  have hk := kept_of_run h
  refine ⟨hk.justified, hk.healthy, fun halone hidle => ?_⟩
  rw [(serial_of_run halone).terminal_eq hidle]
  exact unhealthy_iff _

def failedThrice : List Event :=
  [.called .failure, .reset .failure, .counted .failure,
    .called .failure, .reset .failure, .counted .failure,
    .called .failure, .reset .failure, .counted .failure, .flagged .failure]

/-- A success begins first and counts last, and meanwhile there are three failures. -/
def overtaken : List Event :=
  [.called .success, .called .failure, .called .failure,
    .called .failure, .reset .success, .reset .failure,
    .reset .failure, .counted .failure, .reset .failure,
    .counted .failure, .counted .failure, .counted .success,
    .flagged .failure]

theorem oneByOne_run {events : List Event} {s : State} (h : oneByOne.Run events s) :
    marking.Run events s := by
  refine h.invariant marking.Run ?_ ?_
  · rintro s rfl
    exact .start rfl
  · rintro events s e s' hrun ⟨hstep, -⟩
    exact hrun.next hstep

theorem failedThrice_run :
    ∃ s, oneByOne.Run failedThrice s ∧ ∀ call ∈ s.calls, call.stage = .finished := by
  have hfirst := (System.Run.start (S := oneByOne) rfl).next ⟨.call .failure, fun _ _ => by decide⟩
  have hfirst := (hfirst.next ⟨.reset (i := 0) rfl, nofun⟩).next ⟨.count (i := 0) rfl, nofun⟩
  have hsecond := hfirst.next ⟨.call .failure, fun _ _ => by decide⟩
  have hsecond := (hsecond.next ⟨.reset (i := 1) rfl, nofun⟩).next ⟨.count (i := 1) rfl, nofun⟩
  have hthird := hsecond.next ⟨.call .failure, fun _ _ => by decide⟩
  have hthird := (hthird.next ⟨.reset (i := 2) rfl, nofun⟩).next ⟨.count (i := 2) rfl, nofun⟩
  exact ⟨_, hthird.next ⟨.flag (i := 2) rfl, nofun⟩, by decide⟩

theorem overtaken_run : ∃ s, marking.Run overtaken s := by
  have hcalled :=
    ((System.Run.start (S := marking) rfl).next (.call .success)).next (.call .failure)
  have hcalled := (hcalled.next (.call .failure)).next (.call .failure)
  have hreset := (hcalled.next (.reset (i := 0) rfl)).next (.reset (i := 1) rfl)
  have hfirst := (hreset.next (.reset (i := 2) rfl)).next (.count (i := 1) rfl)
  have hsecond := (hfirst.next (.reset (i := 3) rfl)).next (.count (i := 2) rfl)
  have hthird := (hsecond.next (.count (i := 3) rfl)).next (.count (i := 0) rfl)
  exact ⟨_, hthird.next (.flag (i := 3) rfl)⟩

theorem terminal_health_failed :
    (∃ s, marking.Run overtaken s ∧ Justified Allowed overtaken ∧ s.terminal.healthy = false) ∧
      ∃ s, oneByOne.Run failedThrice s ∧
        (s.terminal.healthy = false ↔ Down (outcomes failedThrice)) := by
  constructor
  · obtain ⟨s, hrun⟩ := overtaken_run
    obtain ⟨hjustified, hflag, -⟩ := terminal_health hrun
    exact ⟨s, hrun, hjustified, hflag⟩
  · obtain ⟨s, hrun, hidle⟩ := failedThrice_run
    exact ⟨s, hrun, (terminal_health (oneByOne_run hrun)).2.2 hrun hidle⟩

end LeptosWasi.TerminalHealth
