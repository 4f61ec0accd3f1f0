import Mathlib.Order.Basic
import Mathlib.Data.List.Basic
import Mathlib.Data.List.Sort

namespace List

section Ranks

variable {α : Type} [LinearOrder α] {l : List α} {r : Nat} {x y : α}

/-- An element is the `r`-th of a list in the order of its values. -/
def IsRank (r : Nat) (x : α) (l : List α) : Prop := l.countP (· < x) < r ∧ r ≤ l.countP (· ≤ x)

theorem countP_le_of_lt (h : x < y) : l.countP (· ≤ x) ≤ l.countP (· < y) :=
  countP_mono_left fun _ _ hz => decide_eq_true ((of_decide_eq_true hz).trans_lt h)

theorem IsRank.unique (hx : IsRank r x l) (hy : IsRank r y l) : x = y := by
  rcases lt_trichotomy x y with h | h | h
  · exact absurd (hx.2.trans (countP_le_of_lt h)) (Nat.not_le.mpr hy.1)
  · exact h
  · exact absurd (hy.2.trans (countP_le_of_lt h)) (Nat.not_le.mpr hx.1)

theorem IsRank.perm {l' : List α} (h : IsRank r x l) (hperm : l.Perm l') : IsRank r x l' :=
  ⟨hperm.countP_eq (· < x) ▸ h.1, hperm.countP_eq (· ≤ x) ▸ h.2⟩

theorem isRank_getElem (hsorted : l.Pairwise (· ≤ ·)) (hr : r < l.length) :
    IsRank (r + 1) l[r] l := by
  have hsplit : l = l.take r ++ l[r] :: l.drop (r + 1) := by
    rw [← drop_eq_getElem_cons, take_append_drop]
  have hlen : (l.take r).length = r := length_take_of_le hr.le
  have hpairwise := hsorted
  rw [hsplit, pairwise_append, pairwise_cons] at hpairwise
  obtain ⟨-, ⟨hafter, -⟩, hbefore⟩ := hpairwise
  have hless : (l[r] :: l.drop (r + 1)).countP (· < l[r]) = 0 := by
    refine countP_eq_zero.mpr fun z hz => ?_
    rw [decide_eq_true_iff, not_lt]
    obtain rfl | hz := mem_cons.mp hz
    · exact le_rfl
    · exact hafter z hz
  have hall : (l.take r).countP (· ≤ l[r]) = r := by
    refine (countP_eq_length.mpr fun z hz => ?_).trans hlen
    exact decide_eq_true (hbefore z hz _ mem_cons_self)
  have hcount (p : α → Bool) :
      l.countP p = (l.take r).countP p + (l[r] :: l.drop (r + 1)).countP p := by
    rw [← countP_append, ← hsplit]
  constructor
  · rw [hcount, hless, Nat.add_zero, Nat.lt_succ_iff]
    exact countP_le_length.trans_eq hlen
  · rw [hcount, hall, countP_cons, if_pos (decide_eq_true le_rfl)]
    omega

theorem exists_isRank (hpos : 0 < r) (hle : r ≤ l.length) : ∃ x ∈ l, IsRank r x l := by
  obtain ⟨r, rfl⟩ := Nat.exists_eq_add_one_of_ne_zero hpos.ne'
  have hperm : (l.insertionSort (· ≤ ·)).Perm l := perm_insertionSort _ l
  have hr : r < (l.insertionSort (· ≤ ·)).length := hperm.length_eq ▸ hle
  exact ⟨_, hperm.mem_iff.mp (getElem_mem hr),
    (isRank_getElem (pairwise_insertionSort _ l) hr).perm hperm⟩

theorem IsRank.monotone {β : Type} [LinearOrder β]
    {f : α → β} (hf : Monotone f) (h : IsRank r x l) :
    IsRank r (f x) (l.map f) := by
  rw [IsRank, countP_map, countP_map]
  constructor
  · refine Nat.lt_of_le_of_lt (countP_mono_left fun z _ hz => ?_) h.1
    exact decide_eq_true (hf.reflect_lt (of_decide_eq_true hz))
  · refine h.2.trans (countP_mono_left fun z _ hz => ?_)
    exact decide_eq_true (hf (of_decide_eq_true hz))

end Ranks

end List
