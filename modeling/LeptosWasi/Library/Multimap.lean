import Mathlib.Data.List.Nodup

/-- A map from keys to nonempty sequences of values that remembers the order
in which its keys were first written. -/
structure Multimap (K V : Type) where
  entries : List (K × List V)
  nodup : (entries.map Prod.fst).Nodup
  nonempty : ∀ e ∈ entries, e.2 ≠ []
deriving DecidableEq

namespace Multimap

variable {K V : Type} [DecidableEq K]

def empty : Multimap K V := ⟨[], by simp, by simp⟩

instance : EmptyCollection (Multimap K V) := ⟨empty⟩

def getAll (m : Multimap K V) (k : K) : List V := (m.entries.lookup k).getD []

def get (m : Multimap K V) (k : K) : Option V := (m.getAll k).head?

def containsKey (m : Multimap K V) (k : K) : Bool := (m.entries.lookup k).isSome

def setEntry (k : K) (vs : List V) : List (K × List V) → List (K × List V)
  | [] => [(k, vs)]
  | e :: es => if e.1 = k then (k, vs) :: es else e :: setEntry k vs es

theorem setEntry_keys (k : K) (vs : List V) (es : List (K × List V)) :
    (setEntry k vs es).map Prod.fst =
      if k ∈ es.map Prod.fst then es.map Prod.fst else es.map Prod.fst ++ [k] := by
  induction es with
  | nil => simp [setEntry]
  | cons e es ih =>
    by_cases he : e.1 = k
    · subst he
      simp [setEntry]
    · simp only [setEntry, he, if_false, List.map_cons, ih, List.mem_cons, Ne.symm he, false_or]
      split_ifs <;> simp

theorem mem_setEntry {k : K} {vs : List V} {es : List (K × List V)} {e : K × List V}
    (h : e ∈ setEntry k vs es) : e = (k, vs) ∨ e ∈ es := by
  induction es with
  | nil => simpa [setEntry] using h
  | cons d es ih =>
    simp only [setEntry] at h
    split_ifs at h with hd
    · exact (List.mem_cons.mp h).imp_right (List.mem_cons_of_mem d)
    · obtain rfl | h := List.mem_cons.mp h
      · simp
      · exact (ih h).imp_right (List.mem_cons_of_mem d)

theorem lookup_cons_ne {j i : K} (h : j ≠ i) (ws : List V) (es : List (K × List V)) :
    ((i, ws) :: es).lookup j = es.lookup j := by
  rw [List.lookup_cons, beq_eq_false_iff_ne.mpr h]

theorem lookup_setEntry (k j : K) (vs : List V) (es : List (K × List V)) :
    (setEntry k vs es).lookup j = if j = k then some vs else es.lookup j := by
  induction es with
  | nil =>
    by_cases h : j = k
    · simp [setEntry, h]
    · rw [setEntry, lookup_cons_ne h, if_neg h]
  | cons e es ih =>
    obtain ⟨i, ws⟩ := e
    by_cases hi : i = k
    · subst hi
      by_cases h : j = i
      · simp [setEntry, h]
      · simp only [setEntry, if_true, lookup_cons_ne h, if_neg h]
    · simp only [setEntry, if_neg hi]
      by_cases h : j = i
      · subst h
        simp [hi]
      · rw [lookup_cons_ne h, lookup_cons_ne h, ih]

def set (m : Multimap K V) (k : K) (vs : List V) (hvs : vs ≠ []) : Multimap K V where
  entries := setEntry k vs m.entries
  nodup := by
    rw [setEntry_keys]
    split_ifs with hk
    · exact m.nodup
    · exact List.nodup_append.mpr ⟨m.nodup, List.nodup_singleton k,
        fun a ha b hb => by rintro rfl; exact hk (List.mem_singleton.mp hb ▸ ha)⟩
  nonempty := by
    intro e he
    obtain rfl | he := mem_setEntry he
    · exact hvs
    · exact m.nonempty e he

def insert (m : Multimap K V) (k : K) (v : V) : Multimap K V := m.set k [v] (by simp)

def append (m : Multimap K V) (k : K) (v : V) : Multimap K V :=
  m.set k (m.getAll k ++ [v]) (by simp)

def insertIfAbsent (m : Multimap K V) (k : K) (v : V) : Multimap K V :=
  if m.containsKey k then m else m.insert k v

theorem setEntry_setEntry (k : K) (vs ws : List V) (es : List (K × List V)) :
    setEntry k ws (setEntry k vs es) = setEntry k ws es := by
  induction es with
  | nil => simp [setEntry]
  | cons e es ih =>
    by_cases he : e.1 = k
    · simp [setEntry, he]
    · simp [setEntry, he, ih]

theorem insert_insert (m : Multimap K V) (k : K) (v w : V) :
    (m.insert k v).insert k w = m.insert k w := by
  simp only [insert, set, setEntry_setEntry]

@[simp] theorem getAll_empty (k : K) : (∅ : Multimap K V).getAll k = [] := rfl

theorem getAll_set (m : Multimap K V) (k j : K) (vs : List V) (hvs : vs ≠ []) :
    (m.set k vs hvs).getAll j = if j = k then vs else m.getAll j := by
  simp only [getAll, set, lookup_setEntry]
  split_ifs <;> rfl

@[simp] theorem getAll_insert (m : Multimap K V) (k j : K) (v : V) :
    (m.insert k v).getAll j = if j = k then [v] else m.getAll j := getAll_set m k j [v] _

@[simp] theorem getAll_append (m : Multimap K V) (k j : K) (v : V) :
    (m.append k v).getAll j = if j = k then m.getAll k ++ [v] else m.getAll j :=
  getAll_set m k j _ _

theorem lookup_eq_some_iff (m : Multimap K V) (k : K) (vs : List V) :
    m.entries.lookup k = some vs ↔ (k, vs) ∈ m.entries := by
  obtain ⟨es, hn, hne⟩ := m
  change es.lookup k = some vs ↔ (k, vs) ∈ es
  clear hne
  induction es with
  | nil => simp
  | cons e es ih =>
    obtain ⟨i, ws⟩ := e
    rw [List.map_cons, List.nodup_cons] at hn
    by_cases hk : k = i
    · subst hk
      have hne : ∀ us, (k, us) ∉ es := fun us hm => hn.1 (List.mem_map.mpr ⟨_, hm, rfl⟩)
      simp [hne, eq_comm]
    · rw [lookup_cons_ne hk, ih hn.2]
      simp [hk]

theorem lookup_of_not_mem {es : List (K × List V)} {k : K} (h : k ∉ es.map Prod.fst) :
    es.lookup k = none := by
  induction es with
  | nil => rfl
  | cons e es ih =>
    rw [List.map_cons, List.mem_cons, not_or] at h
    exact (lookup_cons_ne h.1 e.2 es).trans (ih h.2)

theorem containsKey_iff (m : Multimap K V) (k : K) : m.containsKey k = true ↔ m.getAll k ≠ [] := by
  cases hl : m.entries.lookup k with
  | none => simp [containsKey, getAll, hl]
  | some vs =>
    have h := m.nonempty _ ((lookup_eq_some_iff m k vs).mp hl)
    simpa [containsKey, getAll, hl] using h

theorem containsKey_eq_false_iff (m : Multimap K V) (k : K) :
    m.containsKey k = false ↔ m.getAll k = [] := by
  rw [← Bool.not_eq_true, containsKey_iff, not_not]

theorem getAll_insertIfAbsent (m : Multimap K V) (k j : K) (v : V) :
    (m.insertIfAbsent k v).getAll j = if j = k ∧ m.getAll k = [] then [v] else m.getAll j := by
  rw [insertIfAbsent]
  cases hc : m.containsKey k with
  | true =>
    have h := (containsKey_iff m k).mp hc
    rw [if_pos rfl, if_neg (fun hk => h hk.2)]
  | false =>
    have h := (containsKey_eq_false_iff m k).mp hc
    simp only [Bool.false_eq_true, if_false, getAll_insert, h, and_true]

theorem insertIfAbsent_eq_self {m : Multimap K V} {k : K} (h : m.getAll k ≠ []) (v : V) :
    m.insertIfAbsent k v = m := by
  rw [insertIfAbsent, (containsKey_iff m k).mpr h, if_pos rfl]

/-- Take a key's entry out and put the last one in its place. -/
def removeEntry (k : K) : List (K × List V) → List (K × List V)
  | [] => []
  | e :: es => if e.1 = k then es.getLast?.toList ++ es.dropLast else e :: removeEntry k es

theorem removeEntry_perm {k : K} {es : List (K × List V)} (hn : (es.map Prod.fst).Nodup) :
    (removeEntry k es).Perm (es.filter fun e => decide (e.1 ≠ k)) := by
  induction es with
  | nil => rfl
  | cons e es ih =>
    rw [List.map_cons, List.nodup_cons] at hn
    by_cases he : e.1 = k
    · have hes : es.filter (fun e => decide (e.1 ≠ k)) = es :=
        List.filter_eq_self.mpr fun d hd => decide_eq_true fun hk =>
          hn.1 (he ▸ hk ▸ List.mem_map_of_mem hd)
      rw [removeEntry, if_pos he, List.filter_cons_of_neg (by simp [he]), hes]
      rcases List.eq_nil_or_concat es with rfl | ⟨ds, d, rfl⟩
      · rfl
      · rw [List.concat_eq_append, List.getLast?_concat, List.dropLast_concat]
        exact List.perm_append_comm
    · rw [removeEntry, if_neg he, List.filter_cons_of_pos (by simp [he])]
      exact (ih hn.2).cons e

def remove (m : Multimap K V) (k : K) : Multimap K V where
  entries := removeEntry k m.entries
  nodup := ((removeEntry_perm m.nodup).map Prod.fst).nodup_iff.mpr
    (m.nodup.sublist (List.filter_sublist.map _))
  nonempty := fun e he =>
    m.nonempty e (List.mem_of_mem_filter ((removeEntry_perm m.nodup).mem_iff.mp he))

@[simp] theorem getAll_remove (m : Multimap K V) (k j : K) :
    (m.remove k).getAll j = if j = k then [] else m.getAll j := by
  have hmem (vs : List V) : (j, vs) ∈ (m.remove k).entries ↔ (j, vs) ∈ m.entries ∧ j ≠ k := by
    rw [remove, (removeEntry_perm m.nodup).mem_iff, List.mem_filter, decide_eq_true_eq]
  have hlookup (vs : List V) : (m.remove k).entries.lookup j = some vs ↔
    m.entries.lookup j = some vs ∧ j ≠ k := by
    rw [lookup_eq_some_iff, lookup_eq_some_iff, hmem]
  by_cases hj : j = k
  · have hnone : (m.remove k).entries.lookup j = none := by
      rw [Option.eq_none_iff_forall_ne_some]
      exact fun vs h => ((hlookup vs).mp h).2 hj
    rw [getAll, hnone, if_pos hj, Option.getD_none]
  · have heq : (m.remove k).entries.lookup j = m.entries.lookup j := by
      ext vs
      rw [hlookup vs]
      exact and_iff_left hj
    rw [getAll, heq, if_neg hj, getAll]

def items (es : List (K × List V)) : List (Option K × V) :=
  es.flatMap fun e =>
    match e.2 with
    | [] => []
    | v :: vs => (some e.1, v) :: vs.map fun w => (none, w)

/-- The items of a by-value iteration: a key comes with its first value only. -/
def iter (m : Multimap K V) : List (Option K × V) := items m.entries

end Multimap
