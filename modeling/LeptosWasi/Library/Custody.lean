import Mathlib.Combinatorics.Enumerative.DoubleCounting
import Mathlib.Data.Fintype.Basic
import Mathlib.Data.List.FinRange

/-- Owners with the tickets that each of them has. No ticket has two owners, and
one that is not done has an owner. -/
structure Custody {ω τ σ : Type} (tickets : ω → List τ) (owners : List ω) (status : τ → Option σ)
    (done : σ → Bool) : Prop where
  present : ∀ a ∈ owners, ∀ t ∈ tickets a, status t ≠ none
  nodup : ∀ a ∈ owners, (tickets a).Nodup
  apart : ∀ (i j : Nat) (a b : ω) (t : τ), owners[i]? = some a →
    owners[j]? = some b → t ∈ tickets a →
    t ∈ tickets b → i = j
  covered : ∀ t s, status t = some s → done s = false → ∃ a ∈ owners, t ∈ tickets a

namespace Custody

variable {ω τ σ : Type} {tickets : ω → List τ} {owners : List ω} {status status' : τ → Option σ}
  {done : σ → Bool} {i j : Nat} {a b : ω}

/-- What changes for one owner is not seen by another. -/
theorem frame (h : Custody tickets owners status done)
    (hi : owners[i]? = some a) (hj : owners[j]? = some b)
    (hij : i ≠ j) {a' : ω} (hframe : ∀ t, t ∉ tickets a → t ∉ tickets a' → status' t = status t)
    (hnew : ∀ t ∈ tickets a', t ∈ tickets a ∨ status t = none) {t : τ} (ht : t ∈ tickets b) :
    status' t = status t := by
  have hnot : t ∉ tickets a := fun hm => hij (h.apart i j a b t hi hj hm ht)
  refine hframe t hnot fun hm => ?_
  rcases hnew t hm with hm | hnone
  · exact hnot hm
  · exact h.present b (List.mem_of_getElem? hj) t ht hnone

theorem set (h : Custody tickets owners status done) (hi : owners[i]? = some a) {a' : ω}
    (hframe : ∀ t, t ∉ tickets a → t ∉ tickets a' → status' t = status t)
    (hnew : ∀ t ∈ tickets a', t ∈ tickets a ∨ status t = none)
    (hpresent : ∀ t ∈ tickets a', status' t ≠ none)
    (hnodup : (tickets a').Nodup)
    (hdone : ∀ t ∈ tickets a, t ∉ tickets a' → ∀ s, status' t = some s → done s = true) :
    Custody tickets (owners.set i a') status' done := by
  have hlt : i < owners.length := (List.getElem?_eq_some_iff.mp hi).1
  have hself : (owners.set i a')[i]? = some a' := List.getElem?_set_self hlt
  have hother {k : Nat} {b : ω} (hk : (owners.set i a')[k]? = some b) (hik : i ≠ k) :
    owners[k]? = some b := by
    rwa [List.getElem?_set_ne hik] at hk
  have hseen {k : Nat} {b : ω} (hk : (owners.set i a')[k]? = some b) :
      (k = i ∧ b = a') ∨ (i ≠ k ∧ owners[k]? = some b) := by
    by_cases hik : i = k
    · subst hik
      exact .inl ⟨rfl, (Option.some.inj (hself.symm.trans hk)).symm⟩
    · exact .inr ⟨hik, hother hk hik⟩
  refine ⟨?_, ?_, ?_, ?_⟩
  · intro b hb t ht
    obtain ⟨k, hk⟩ := List.getElem?_of_mem hb
    rcases hseen hk with ⟨-, rfl⟩ | ⟨hik, hk⟩
    · exact hpresent t ht
    · rw [h.frame hi hk hik hframe hnew ht]
      exact h.present b (List.mem_of_getElem? hk) t ht
  · intro b hb
    obtain ⟨k, hk⟩ := List.getElem?_of_mem hb
    rcases hseen hk with ⟨-, rfl⟩ | ⟨-, hk⟩
    · exact hnodup
    · exact h.nodup b (List.mem_of_getElem? hk)
  · have hdisjoint {k : Nat} {b : ω} {t : τ} (hik : i ≠ k)
      (hk : owners[k]? = some b) (ha : t ∈ tickets a')
        (hb : t ∈ tickets b) : False := by
      rcases hnew t ha with hm | hnone
      · exact hik (h.apart i k a b t hi hk hm hb)
      · exact h.present b (List.mem_of_getElem? hk) t hb hnone
    intro k l b c t hk hl hb hc
    rcases hseen hk with ⟨rfl, rfl⟩ | ⟨hik, hk'⟩ <;> rcases hseen hl with ⟨rfl, rfl⟩ | ⟨hil, hl'⟩
    · rfl
    · exact (hdisjoint hil hl' hb hc).elim
    · exact (hdisjoint hik hk' hc hb).elim
    · exact h.apart k l b c t hk' hl' hb hc
  · intro t s hs hopen
    by_cases ht' : t ∈ tickets a'
    · exact ⟨a', List.mem_of_getElem? hself, ht'⟩
    · have ht : t ∉ tickets a := fun hm => by
        rw [hdone t hm ht' s hs] at hopen
        cases hopen
      rw [hframe t ht ht'] at hs
      obtain ⟨b, hb, hm⟩ := h.covered t s hs hopen
      obtain ⟨k, hk⟩ := List.getElem?_of_mem hb
      have hik : i ≠ k := by
        rintro rfl
        exact ht (Option.some.inj (hi.symm.trans hk) ▸ hm)
      exact ⟨b, List.mem_of_getElem? ((List.getElem?_set_ne hik).trans hk), hm⟩

theorem snoc (h : Custody tickets owners status done) (ha : tickets a = []) :
    Custody tickets (owners ++ [a]) status done := by
  have hnone {t : τ} : t ∉ tickets a := ha ▸ List.not_mem_nil
  have hseen {k : Nat} {b : ω} {t : τ} (hk : (owners ++ [a])[k]? = some b) (ht : t ∈ tickets b) :
      owners[k]? = some b := by
    rw [List.getElem?_append] at hk
    split at hk
    · exact hk
    · rw [List.getElem?_singleton] at hk
      split at hk
      · cases hk
        exact (hnone ht).elim
      · cases hk
  refine ⟨?_, ?_, ?_, ?_⟩
  · intro b hb t ht
    rcases List.mem_append.mp hb with hb | hb
    · exact h.present b hb t ht
    · exact (hnone (List.mem_singleton.mp hb ▸ ht)).elim
  · intro b hb
    rcases List.mem_append.mp hb with hb | hb
    · exact h.nodup b hb
    · rw [List.mem_singleton.mp hb, ha]
      exact List.nodup_nil
  · intro k l b c t hk hl hb hc
    exact h.apart k l b c t (hseen hk hb) (hseen hl hc) hb hc
  · intro t s hs hopen
    obtain ⟨b, hb, hm⟩ := h.covered t s hs hopen
    exact ⟨b, List.mem_append_left _ hb, hm⟩

theorem countP_eq_card {α : Type} (p : α → Bool) (l : List α) :
    l.countP p = (Finset.univ.filter fun i : Fin l.length => p (l.get i) = true).card := by
  have hl : (List.finRange l.length).map l.get = l := List.map_get_finRange l
  calc l.countP p = ((List.finRange l.length).map l.get).countP p := by rw [hl]
    _ = ((List.finRange l.length).filter (p ∘ l.get)).length := by
      rw [List.countP_map, List.countP_eq_length_filter]
    _ = ((List.finRange l.length).filter (p ∘ l.get)).toFinset.card :=
      (List.toFinset_card_of_nodup ((List.nodup_finRange _).filter _)).symm
    _ = (Finset.univ.filter fun i : Fin l.length => p (l.get i) = true).card := by
      congr 1
      ext i
      simp

/-- Owners that each have a ticket for an entry of a list are no more than such
entries. -/
theorem countP_le (h : Custody tickets owners status done)
    {α : Type} {p : ω → Bool} {q : α → Bool} {l : List α}
    {f : Nat → τ} (hp : ∀ a ∈ owners, p a = true →
      ∃ n s, f n ∈ tickets a ∧ l[n]? = some s ∧ q s = true) :
    owners.countP p ≤ l.countP q := by
  rw [countP_eq_card, countP_eq_card]
  refine Finset.card_le_card_of_forall_subsingleton
    (fun (i : Fin owners.length) (j : Fin l.length) => f j ∈ tickets (owners.get i)) ?_ ?_
  · intro i hi
    obtain ⟨n, s, hm, hn, hs⟩ := hp _ (List.get_mem owners i) (Finset.mem_filter.mp hi).2
    obtain ⟨hlt, rfl⟩ := List.getElem?_eq_some_iff.mp hn
    exact ⟨⟨n, hlt⟩, Finset.mem_filter.mpr ⟨Finset.mem_univ _, hs⟩, hm⟩
  · rintro j - i ⟨-, hi⟩ k ⟨-, hk⟩
    exact Fin.ext
      (h.apart i k _ _ _ (List.getElem?_eq_getElem i.isLt) (List.getElem?_eq_getElem k.isLt) hi hk)

end Custody
