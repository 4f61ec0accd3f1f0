import LeptosWasi.Library.Split
import Mathlib.Logic.Function.Iterate

namespace Percent

def hexDigit (b : UInt8) : Option UInt8 :=
  if 48 ≤ b ∧ b ≤ 57 then some (b - 48)
  else if 97 ≤ b ∧ b ≤ 102 then some (b - 97 + 10)
  else if 65 ≤ b ∧ b ≤ 70 then some (b - 65 + 10)
  else none

def escape (h l : UInt8) : Option UInt8 :=
  match hexDigit h, hexDigit l with
  | some high, some low => some ((high <<< 4) ||| low)
  | _, _ => none

/-- Replace every `%XX` by its byte. A percent sign without two digits stays. -/
def decode : List UInt8 → List UInt8
  | [] => []
  | [a] => [a]
  | [a, b] => [a, b]
  | a :: h :: l :: rest =>
    if a = 37 then
      match escape h l with
      | some byte => byte :: decode rest
      | none => a :: decode (h :: l :: rest)
    else a :: decode (h :: l :: rest)

/-- The bytes that decoding produces from escapes, in order. -/
def escapes : List UInt8 → List UInt8
  | a :: h :: l :: rest =>
    if a = 37 then
      match escape h l with
      | some byte => byte :: escapes rest
      | none => escapes (h :: l :: rest)
    else escapes (h :: l :: rest)
  | _ => []

theorem decode_cons_literal {a : UInt8} (ha : a ≠ 37) (rest : List UInt8) :
    decode (a :: rest) = a :: decode rest := by
  obtain _ | ⟨h, _ | ⟨l, rest⟩⟩ := rest
  · rfl
  · rfl
  · rw [decode, if_neg ha]

theorem escapes_cons_literal {a : UInt8} (ha : a ≠ 37) (rest : List UInt8) :
    escapes (a :: rest) = escapes rest := by
  obtain _ | ⟨h, _ | ⟨l, rest⟩⟩ := rest
  · rfl
  · rfl
  · rw [escapes, if_neg ha]

theorem decode_cons_escape {h l byte : UInt8} (he : escape h l = some byte) (rest : List UInt8) :
    decode (37 :: h :: l :: rest) = byte :: decode rest := by
  rw [decode, if_pos rfl, he]

theorem escapes_cons_escape {h l byte : UInt8} (he : escape h l = some byte) (rest : List UInt8) :
    escapes (37 :: h :: l :: rest) = byte :: escapes rest := by
  rw [escapes, if_pos rfl, he]

theorem decode_cons_malformed {h l : UInt8} (he : escape h l = none) (rest : List UInt8) :
    decode (37 :: h :: l :: rest) = 37 :: decode (h :: l :: rest) := by
  rw [decode, if_pos rfl, he]

theorem escapes_cons_malformed {h l : UInt8} (he : escape h l = none) (rest : List UInt8) :
    escapes (37 :: h :: l :: rest) = escapes (h :: l :: rest) := by
  rw [escapes, if_pos rfl, he]

theorem escape_separator_left {sep : UInt8} (hsep : hexDigit sep = none) (l : UInt8) :
    escape sep l = none := by
  simp [escape, hsep]

theorem escape_separator_right {sep : UInt8} (hsep : hexDigit sep = none) (h : UInt8) :
    escape h sep = none := by
  rw [escape]
  rw [hsep]
  cases hexDigit h <;> rfl

/-- A byte that is neither the escape character nor a digit cuts every text
into parts that decode independently. -/
theorem decode_separated {sep : UInt8} (hpct : sep ≠ 37) (hsep : hexDigit sep = none)
    (xs ys : List UInt8) :
    decode (xs ++ sep :: ys) = decode xs ++ sep :: decode ys ∧
      escapes (xs ++ sep :: ys) = escapes xs ++ escapes ys := by
  induction xs using decode.induct with
  | case1 => exact ⟨decode_cons_literal hpct ys, escapes_cons_literal hpct ys⟩
  | case2 a =>
    by_cases ha : a = 37
    · subst ha
      cases ys with
      | nil => simp [decode, escapes]
      | cons y ys =>
        have he := escape_separator_left hsep y
        simp only [List.cons_append, List.nil_append, decode_cons_malformed he,
          escapes_cons_malformed he, decode_cons_literal hpct, escapes_cons_literal hpct]
        exact ⟨rfl, rfl⟩
    · simp [decode_cons_literal ha, escapes_cons_literal ha, decode_cons_literal hpct,
        escapes_cons_literal hpct, decode, escapes]
  | case3 a b =>
    have hb : decode (b :: sep :: ys) = b :: sep :: decode ys ∧
        escapes (b :: sep :: ys) = escapes ys := by
      by_cases hb : b = 37
      · subst hb
        cases ys with
        | nil => simp [decode, escapes]
        | cons y ys =>
          have he := escape_separator_left hsep y
          simp only [decode_cons_malformed he, escapes_cons_malformed he,
            decode_cons_literal hpct, escapes_cons_literal hpct, and_self]
      · simp only [decode_cons_literal hb, escapes_cons_literal hb, decode_cons_literal hpct,
          escapes_cons_literal hpct, and_self]
    have he := escape_separator_right hsep b
    by_cases ha : a = 37
    · subst ha
      simp only [List.cons_append, List.nil_append, decode_cons_malformed he,
        escapes_cons_malformed he, hb.1, hb.2]
      exact ⟨rfl, rfl⟩
    · simp only [List.cons_append, List.nil_append, decode_cons_literal ha,
        escapes_cons_literal ha, hb.1, hb.2]
      exact ⟨rfl, rfl⟩
  | case4 h l rest byte he ih =>
    simp only [List.cons_append] at ih ⊢
    simp only [decode_cons_escape he, escapes_cons_escape he, ih.1, ih.2, List.cons_append,
      and_self]
  | case5 h l rest he ih =>
    simp only [List.cons_append] at ih ⊢
    simp only [decode_cons_malformed he, escapes_cons_malformed he, ih.1, ih.2, List.cons_append,
      and_self]
  | case6 a h l rest ha ih =>
    simp only [List.cons_append] at ih ⊢
    simp only [decode_cons_literal ha, escapes_cons_literal ha, ih.1, ih.2, List.cons_append,
      and_self]

theorem mem_decode {b : UInt8} (xs : List UInt8) (hb : b ∈ decode xs) :
    b ∈ xs ∨ b ∈ escapes xs := by
  induction xs using decode.induct with
  | case1 | case2 | case3 => exact Or.inl hb
  | case4 h l rest byte he ih =>
    rw [decode_cons_escape he] at hb
    rw [escapes_cons_escape he]
    obtain rfl | hb := List.mem_cons.mp hb
    · simp
    · obtain hr | hr := ih hb
      · simp [hr]
      · simp [hr]
  | case5 h l rest he ih =>
    rw [decode_cons_malformed he] at hb
    rw [escapes_cons_malformed he]
    obtain rfl | hb := List.mem_cons.mp hb
    · simp
    · exact (ih hb).imp_left (List.mem_cons_of_mem _)
  | case6 a h l rest ha ih =>
    rw [decode_cons_literal ha] at hb
    rw [escapes_cons_literal ha]
    obtain rfl | hb := List.mem_cons.mp hb
    · simp
    · exact (ih hb).imp_left (List.mem_cons_of_mem _)

theorem decode_of_escapes_eq_nil (xs : List UInt8) (h : escapes xs = []) : decode xs = xs := by
  induction xs using decode.induct with
  | case1 | case2 | case3 => rfl
  | case4 h' l rest byte he ih =>
    simp [escapes_cons_escape he] at h
  | case5 h' l rest he ih =>
    rw [decode_cons_malformed he, ih (by rwa [escapes_cons_malformed he] at h)]
  | case6 a h' l rest ha ih =>
    rw [decode_cons_literal ha, ih (by rwa [escapes_cons_literal ha] at h)]

theorem escapes_eq_nil_of_not_mem (xs : List UInt8) (h : 37 ∉ xs) : escapes xs = [] := by
  induction xs using decode.induct with
  | case1 | case2 | case3 => rfl
  | case4 h' l rest byte he ih | case5 h' l rest he ih =>
    simp at h
  | case6 a h' l rest ha ih =>
    rw [escapes_cons_literal ha]
    exact ih (fun hm => h (List.mem_cons_of_mem _ hm))

theorem escapes_eq_nil_of_no_escape (xs : List UInt8)
    (hno : ∀ h l, (escape h l).isSome → ¬ [37, h, l] <:+: xs) : escapes xs = [] := by
  induction xs using decode.induct with
  | case1 | case2 | case3 => rfl
  | case4 h l rest byte he ih =>
    exact absurd ⟨[], rest, rfl⟩ (hno h l (by rw [he]; rfl))
  | case5 h l rest he ih =>
    rw [escapes_cons_malformed he]
    exact ih fun h' l' hsome hin => hno h' l' hsome (List.infix_cons hin)
  | case6 a h l rest ha ih =>
    rw [escapes_cons_literal ha]
    exact ih fun h' l' hsome hin => hno h' l' hsome (List.infix_cons hin)

@[simp] theorem decode_eq_nil_iff (xs : List UInt8) : decode xs = [] ↔ xs = [] := by
  constructor
  · intro h
    induction xs using decode.induct with
    | case1 => rfl
    | case2 | case3 => exact h
    | case4 h' l rest byte he ih =>
      simp [decode_cons_escape he] at h
    | case5 h' l rest he ih =>
      simp [decode_cons_malformed he] at h
    | case6 a h' l rest ha ih => simp [decode_cons_literal ha] at h
  · rintro rfl
    rfl

theorem iterate_decode_eq_nil_iff (n : Nat) (xs : List UInt8) : decode^[n] xs = [] ↔ xs = [] := by
  induction n with
  | zero => rfl
  | succ n ih => rw [Function.iterate_succ_apply', decode_eq_nil_iff, ih]

section Separated

variable {sep : UInt8} (hpct : sep ≠ 37) (hsep : hexDigit sep = none)

include hpct hsep

theorem decode_intercalate (parts : List (List UInt8)) :
    decode ([sep].intercalate parts) = [sep].intercalate (parts.map decode) := by
  induction parts with
  | nil => rfl
  | cons part parts ih =>
    cases parts with
    | nil => simp [List.intercalate]
    | cons next parts =>
      simp only [List.map_cons, List.intercalate_cons_cons, List.append_assoc,
        List.singleton_append] at ih ⊢
      rw [(decode_separated hpct hsep _ _).1, ih]

theorem iterate_decode_intercalate (n : Nat) (parts : List (List UInt8)) :
    decode^[n] ([sep].intercalate parts) = [sep].intercalate (parts.map decode^[n]) := by
  induction n with
  | zero => simp
  | succ n ih =>
    rw [Function.iterate_succ_apply', ih, decode_intercalate hpct hsep, List.map_map,
      Function.iterate_succ']

theorem escapes_part_subset (parts : List (List UInt8)) :
    ∀ part ∈ parts, escapes part ⊆ escapes ([sep].intercalate parts) := by
  induction parts with
  | nil => simp
  | cons part parts ih =>
    cases parts with
    | nil => simp [List.intercalate]
    | cons next parts =>
      simp only [List.intercalate_cons_cons, List.append_assoc, List.singleton_append] at ih ⊢
      rw [(decode_separated hpct hsep _ _).2]
      intro q hq
      obtain rfl | hq := List.mem_cons.mp hq
      · exact List.subset_append_left _ _
      · exact List.Subset.trans (ih q hq) (List.subset_append_right _ _)

theorem escapes_intercalate_eq_nil {parts : List (List UInt8)}
    (h : ∀ part ∈ parts, escapes part = []) :
    escapes ([sep].intercalate parts) = [] := by
  induction parts with
  | nil => rfl
  | cons part parts ih =>
    cases parts with
    | nil => simpa [List.intercalate] using h part (by simp)
    | cons next parts =>
      rw [List.intercalate_cons_cons, List.append_assoc, List.singleton_append,
        (decode_separated hpct hsep _ _).2, h part (by simp), ih fun q hq =>
        h q (List.mem_cons_of_mem _ hq)]
      rfl

/-- As long as no escape hides a separator, decoding happens inside the parts. -/
theorem splitOn_decode (xs : List UInt8) (h : sep ∉ escapes xs) :
    (decode xs).splitOn sep = (xs.splitOn sep).map decode := by
  have hx : [sep].intercalate (xs.splitOn sep) = xs := List.intercalate_splitOn sep
  have hsub := escapes_part_subset hpct hsep (xs.splitOn sep)
  rw [hx] at hsub
  conv_lhs => rw [← hx, decode_intercalate hpct hsep]
  refine List.splitOn_intercalate sep ?_ (by simp)
  intro q hq hm
  obtain ⟨part, hp, rfl⟩ := List.mem_map.mp hq
  obtain hl | he := mem_decode part hm
  · exact Split.not_mem_of_mem_splitOn hp hl
  · exact h (hsub part hp he)

theorem splitOn_iterate_decode (n : Nat) (xs : List UInt8)
    (h : ∀ k < n, sep ∉ escapes (decode^[k] xs)) :
    (decode^[n] xs).splitOn sep = (xs.splitOn sep).map decode^[n] := by
  induction n with
  | zero => simp
  | succ n ih =>
    rw [Function.iterate_succ_apply', splitOn_decode hpct hsep _ (h n (Nat.lt_succ_self n)),
      ih (fun k hk => h k (Nat.lt_succ_of_lt hk)), List.map_map, Function.iterate_succ']

end Separated

example : decode [37, 50, 53, 52, 49] = [37, 52, 49] := by decide

end Percent
