import Mathlib.Data.List.Induction
import LeptosWasi.Library.Multimap

namespace Multimap

variable {K V : Type} [DecidableEq K]

def pairs (m : Multimap K V) : List (K × V) := m.entries.flatMap fun e => e.2.map fun v => (e.1, v)

def ofPairs (ps : List (K × V)) : Multimap K V := ps.foldl (fun m p => m.append p.1 p.2) ∅

theorem ofPairs_append (ps qs : List (K × V)) :
    ofPairs (ps ++ qs) = qs.foldl (fun m p => m.append p.1 p.2) (ofPairs ps) := List.foldl_append

theorem ofPairs_snoc (ps : List (K × V)) (p : K × V) :
    ofPairs (ps ++ [p]) = (ofPairs ps).append p.1 p.2 :=
  ofPairs_append ps [p]

theorem getAll_ofPairs (ps : List (K × V)) (k : K) :
    (ofPairs ps).getAll k = (ps.filter fun p => decide (p.1 = k)).map Prod.snd := by
  induction ps using List.reverseRecOn with
  | nil => rfl
  | append_singleton ps p ih =>
    rw [ofPairs_snoc, getAll_append, List.filter_append, List.map_append]
    by_cases hk : k = p.1
    · subst hk
      rw [if_pos rfl, ih]
      simp
    · rw [if_neg hk, ih]
      simp [Ne.symm hk]

omit [DecidableEq K] in
theorem ext_entries {m m' : Multimap K V} (h : m.entries = m'.entries) : m = m' := by
  cases m
  cases m'
  cases h
  rfl

theorem setEntry_append {k : K} {es : List (K × List V)} (hk : k ∉ es.map Prod.fst) (vs : List V)
    (fs : List (K × List V)) : setEntry k vs (es ++ fs) = es ++ setEntry k vs fs := by
  induction es with
  | nil => rfl
  | cons e es ih =>
    rw [List.map_cons, List.mem_cons, not_or] at hk
    rw [List.cons_append, setEntry, if_neg (Ne.symm hk.1), ih hk.2, List.cons_append]

theorem append_entries (m : Multimap K V) (k : K) (v : V) :
    (m.append k v).entries = setEntry k (m.getAll k ++ [v]) m.entries := rfl

theorem append_entries_new {m : Multimap K V} {k : K} (hk : k ∉ m.entries.map Prod.fst) (v : V) :
    (m.append k v).entries = m.entries ++ [(k, [v])] := by
  have hnone : m.getAll k = [] := by
    rw [getAll, lookup_of_not_mem hk]
    rfl
  have hset := setEntry_append hk (m.getAll k ++ [v]) []
  rw [List.append_nil] at hset
  rw [append_entries, hset, hnone]
  rfl

theorem append_entries_last {m : Multimap K V} {k : K} {es : List (K × List V)} {vs : List V}
    (hm : m.entries = es ++ [(k, vs)]) (v : V) :
    (m.append k v).entries = es ++ [(k, vs ++ [v])] := by
  have hnodup := m.nodup
  rw [hm, List.map_append, List.nodup_append] at hnodup
  have hk : k ∉ es.map Prod.fst := fun hmem => hnodup.2.2 k hmem k (List.mem_singleton_self k) rfl
  have hall : m.getAll k = vs := by
    rw [getAll, hm, List.lookup_append, lookup_of_not_mem hk]
    simp
  rw [append_entries, hm, hall, setEntry_append hk]
  simp [setEntry]

theorem foldl_append_last {m : Multimap K V} {k : K} {es : List (K × List V)} {vs : List V}
    (hm : m.entries = es ++ [(k, vs)]) (ws : List V) :
    ((ws.map fun w => (k, w)).foldl (fun m p => m.append p.1 p.2) m).entries =
    es ++ [(k, vs ++ ws)] := by
  induction ws generalizing m vs with
  | nil => simp [hm]
  | cons w ws ih =>
    rw [List.map_cons, List.foldl_cons, ih (append_entries_last hm w),
      List.append_assoc, List.singleton_append]

theorem foldl_append_entries {m : Multimap K V} {es : List (K × List V)}
    (hn : ((m.entries ++ es).map Prod.fst).Nodup) (hne : ∀ e ∈ es, e.2 ≠ []) :
    ((es.flatMap fun e => e.2.map fun v => (e.1, v)).foldl
      (fun m p => m.append p.1 p.2) m).entries =
      m.entries ++ es := by
  induction es generalizing m with
  | nil => simp
  | cons e es ih =>
    obtain ⟨k, vs⟩ := e
    have hfirst := hne (k, vs) List.mem_cons_self
    cases vs with
    | nil => exact absurd rfl hfirst
    | cons v vs =>
      rw [List.map_append, List.map_cons] at hn
      have hk : k ∉ m.entries.map Prod.fst := fun hmem =>
        (List.nodup_append.mp hn).2.2 k hmem k List.mem_cons_self rfl
      rw [List.flatMap_cons, List.foldl_append, List.map_cons, List.foldl_cons]
      have hentries := foldl_append_last (append_entries_new hk v) vs
      rw [List.singleton_append] at hentries
      rw [ih, hentries, List.append_assoc, List.singleton_append]
      · rw [hentries, List.append_assoc, List.singleton_append, List.map_append, List.map_cons]
        exact hn
      · exact fun e he => hne e (List.mem_cons_of_mem _ he)

theorem ofPairs_pairs (m : Multimap K V) : ofPairs m.pairs = m := by
  refine ext_entries (foldl_append_entries (m := ∅) ?_ m.nonempty)
  exact m.nodup

theorem length_append (m : Multimap K V) (k : K) (v : V) :
    (m.append k v).entries.length = if m.containsKey k then m.entries.length
    else m.entries.length + 1 := by
  have hkeys := congrArg List.length (setEntry_keys k (m.getAll k ++ [v]) m.entries)
  rw [List.length_map] at hkeys
  rw [append_entries, hkeys]
  cases hc : m.containsKey k with
  | true =>
    have hk : k ∈ m.entries.map Prod.fst := by
      by_contra hno
      rw [containsKey, lookup_of_not_mem hno] at hc
      cases hc
    simp [hk]
  | false =>
    have hk : k ∉ m.entries.map Prod.fst := by
      intro hmem
      obtain ⟨⟨k, vs⟩, he, rfl⟩ := List.mem_map.mp hmem
      rw [containsKey, (lookup_eq_some_iff m k vs).mpr he] at hc
      cases hc
    simp [hk]

end Multimap
