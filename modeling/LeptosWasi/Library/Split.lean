import Mathlib.Data.List.Basic

namespace Split

variable {α : Type} {sep : α}

theorem mem_intercalate {parts : List (List α)} {b : α} (h : b ∈ [sep].intercalate parts) :
    b = sep ∨ ∃ part ∈ parts, b ∈ part := by
  induction parts with
  | nil => simp [List.intercalate] at h
  | cons part parts ih =>
    cases parts with
    | nil => exact Or.inr ⟨part, by simp, by simpa [List.intercalate] using h⟩
    | cons next parts =>
      rw [List.intercalate_cons_cons, List.append_assoc, List.mem_append, List.singleton_append,
        List.mem_cons] at h
      obtain h | h | h := h
      · exact Or.inr ⟨part, by simp, h⟩
      · exact Or.inl h
      · exact (ih h).imp_right fun ⟨q, hq, hb⟩ => ⟨q, List.mem_cons_of_mem _ hq, hb⟩

theorem part_subset_intercalate (parts : List (List α)) :
    ∀ part ∈ parts, part ⊆ [sep].intercalate parts := by
  induction parts with
  | nil => simp
  | cons part parts ih =>
    cases parts with
    | nil => simp [List.intercalate]
    | cons next parts =>
      rw [List.intercalate_cons_cons, List.append_assoc]
      intro q hq
      obtain rfl | hq := List.mem_cons.mp hq
      · exact List.subset_append_left _ _
      · exact List.Subset.trans (ih q hq)
          (List.Subset.trans (List.subset_append_right _ _) (List.subset_append_right _ _))

variable [DecidableEq α]

theorem subset_of_mem_splitOn {xs part : List α} (hp : part ∈ xs.splitOn sep) : part ⊆ xs := by
  have h : part ⊆ [sep].intercalate (xs.splitOn sep) := part_subset_intercalate _ part hp
  rwa [List.intercalate_splitOn] at h

theorem not_mem_of_mem_splitOn {xs part : List α} (hp : part ∈ xs.splitOn sep) : sep ∉ part := by
  induction xs generalizing part with
  | nil =>
    rw [List.splitOn_nil, List.mem_singleton] at hp
    simp [hp]
  | cons x xs ih =>
    rw [List.splitOn_cons_eq_if_modifyHead] at hp
    split_ifs at hp with hx
    · obtain rfl | hp := List.mem_cons.mp hp
      · simp
      · exact ih hp
    · generalize hq : xs.splitOn sep = parts at hp ih
      cases parts with
      | nil => simp at hp
      | cons first parts =>
        rw [List.modifyHead_cons] at hp
        obtain rfl | hp := List.mem_cons.mp hp
        · have hf : sep ∉ first := ih (by simp)
          have hne : sep ≠ x := fun he => hx (by simp [he])
          simp [hf, hne]
        · exact ih (List.mem_cons_of_mem _ hp)

theorem head_splitOn_ne_nil {xs : List α} (hne : xs ≠ []) (hhead : xs.head? ≠ some sep) :
    ∃ first others, xs.splitOn sep = first :: others ∧ first ≠ [] := by
  cases xs with
  | nil => exact absurd rfl hne
  | cons x xs =>
    have hx : x ≠ sep := fun h => hhead (by simp [h])
    rw [List.splitOn_cons_eq_if_modifyHead, if_neg (by simpa using hx)]
    cases hs : xs.splitOn sep with
    | nil => exact absurd hs (by simp)
    | cons first others => exact ⟨x :: first, others, rfl, by simp⟩

theorem splitOn_eq_nil_cons {xs : List α} (hhead : xs.head? = some sep) :
    ∃ others, xs.splitOn sep = [] :: others := by
  cases xs with
  | nil => simp at hhead
  | cons x xs =>
    obtain rfl : x = sep := by simpa using hhead
    exact ⟨xs.splitOn x, by simp [List.splitOn_cons_eq_if_modifyHead]⟩

theorem filter_splitOn_append (xs ys : List α) :
    ((xs ++ sep :: ys).splitOn sep).filter (· ≠ []) =
      (xs.splitOn sep).filter (· ≠ []) ++ (ys.splitOn sep).filter (· ≠ []) := by
  rw [List.splitOn_append_cons_self, List.filter_append]

theorem filter_splitOn_replicate (n : Nat) (ys : List α) :
    ((List.replicate n sep ++ ys).splitOn sep).filter
    (· ≠ []) = (ys.splitOn sep).filter (· ≠ []) := by
  induction n with
  | zero => rfl
  | succ n ih =>
    rw [List.replicate_succ, List.cons_append, ← List.nil_append (sep :: _),
      filter_splitOn_append, ih]
    rfl

theorem filter_splitOn_part {part : List α} (hne : part ≠ []) (hsep : sep ∉ part) :
    (part.splitOn sep).filter (· ≠ []) = [part] := by
  rw [List.splitOn_eq_singleton hsep]
  simp [hne]

end Split
