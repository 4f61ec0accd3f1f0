import Mathlib.Data.List.Perm.Basic

namespace List

variable {α β : Type} {l : List α} {i : Nat} {a : α}

theorem filterMap_cons_perm (f : α → Option β) (a : α) (l : List α) :
    ((a :: l).filterMap f).Perm ((f a).toList ++ l.filterMap f) := by
  rw [filterMap_cons]
  cases f a <;> exact .refl _

theorem filterMap_eraseIdx_perm (f : α → Option β) (h : l[i]? = some a) :
    (l.filterMap f).Perm ((f a).toList ++ (l.eraseIdx i).filterMap f) := by
  obtain ⟨hlt, rfl⟩ := getElem?_eq_some_iff.mp h
  exact ((getElem_cons_eraseIdx_perm hlt).symm.filterMap f).trans (filterMap_cons_perm f _ _)

theorem filterMap_set_perm (f : α → Option β) (h : l[i]? = some a) (b : α) :
    ((f a).toList ++ (l.set i b).filterMap f).Perm ((f b).toList ++ l.filterMap f) := by
  obtain ⟨hlt, -⟩ := getElem?_eq_some_iff.mp h
  have hset := ((set_perm_cons_eraseIdx hlt b).filterMap f).trans (filterMap_cons_perm f _ _)
  exact (hset.append_left _).trans
    ((perm_append_comm_assoc _ _ _).trans ((filterMap_eraseIdx_perm f h).symm.append_left _))

end List
