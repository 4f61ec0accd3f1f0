import Mathlib.Data.List.Basic

/-- Every event of a history is allowed by the events before it. -/
def Justified {ε : Type} (Allowed : List ε → ε → Prop) (events : List ε) : Prop :=
  ∀ before x after, events = before ++ x :: after → Allowed before x

namespace Justified

variable {ε : Type} {Allowed : List ε → ε → Prop} {events : List ε} {x : ε}

theorem nil : Justified Allowed [] := by
  intro before x after h
  cases before <;> simp at h

theorem snoc (h : Justified Allowed events) (hx : Allowed events x) :
    Justified Allowed (events ++ [x]) := by
  intro before y after hs
  rcases List.eq_nil_or_concat after with rfl | ⟨after, z, rfl⟩
  · obtain ⟨rfl, hy⟩ := List.append_inj' hs rfl
    cases hy
    exact hx
  · rw [List.concat_eq_append, ← List.cons_append, ← List.append_assoc] at hs
    exact h before y after (List.append_inj' hs rfl).1

theorem of_append {after : List ε} (h : Justified Allowed (events ++ after)) :
    Justified Allowed events := by
  intro before x rest hs
  exact h before x (rest ++ after) (by rw [hs, List.append_assoc, List.cons_append])

theorem of_mem (h : Justified Allowed events) (hx : x ∈ events) :
    ∃ before after, events = before ++ x :: after ∧ Allowed before x := by
  obtain ⟨before, after, hs⟩ := List.append_of_mem hx
  exact ⟨before, after, hs, h _ _ _ hs⟩

end Justified
