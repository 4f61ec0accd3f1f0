/-- States, labels and the steps between states. -/
structure System (σ α : Type) where
  init : σ → Prop
  step : σ → α → σ → Prop

namespace System

variable {σ α : Type}

/-- A run from an initial state, with the labels of its steps. -/
inductive Run (S : System σ α) : List α → σ → Prop
  | start {s : σ} (h : S.init s) : Run S [] s
  | next {as : List α} {s s' : σ} {a : α} (h : Run S as s) (hs : S.step s a s') :
    Run S (as ++ [a]) s'

/-- Every continuation reaches the goal, never stops before it, and passes at
most `n` marked states on the way. -/
inductive Reaches (S : System σ α) (goal mark : σ → Prop) : Nat → σ → Prop
  | here {n : Nat} {s : σ} (h : goal s) : Reaches S goal mark n s
  | step {n : Nat} {s : σ} (hm : ¬ mark s) (hgo : ∃ a s', S.step s a s')
      (hall : ∀ a s', S.step s a s' → Reaches S goal mark n s') : Reaches S goal mark n s
  | pass {n : Nat} {s : σ} (hgo : ∃ a s', S.step s a s')
      (hall : ∀ a s', S.step s a s' → Reaches S goal mark n s') : Reaches S goal mark (n + 1) s

variable {S : System σ α}

/-- What holds at the start and survives each step holds throughout a run. The
property may speak of the labels so far. -/
theorem Run.invariant (P : List α → σ → Prop) (hinit : ∀ s, S.init s → P [] s)
    (hstep : ∀ as s a s', P as s → S.step s a s' → P (as ++ [a]) s') {as : List α} {s : σ}
    (h : S.Run as s) : P as s := by
  induction h with
  | start h => exact hinit _ h
  | next _ hs ih => exact hstep _ _ _ _ ih hs

theorem Run.foldlM {f : σ → α → Option σ} (hf : ∀ s a s', f s a = some s' → S.step s a s')
    {as : List α}
    {s : σ} (h : S.Run as s) {bs : List α} {s' : σ} (hs : bs.foldlM f s = some s') :
    S.Run (as ++ bs) s' := by
  induction bs generalizing as s with
  | nil =>
    rw [List.foldlM_nil] at hs
    cases hs
    rwa [List.append_nil]
  | cons b bs ih =>
    rw [List.foldlM_cons] at hs
    obtain ⟨t, ht, hs⟩ := Option.bind_eq_some_iff.mp hs
    have hrun := ih (.next h (hf s b t ht)) hs
    rwa [List.append_assoc, List.singleton_append] at hrun

end System
