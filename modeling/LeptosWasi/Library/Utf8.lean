import Mathlib.Data.List.Basic

namespace Utf8

/-- A byte sequence that some sequence of characters encodes to. -/
def Valid (bs : List UInt8) : Prop := bs.toByteArray.IsValidUTF8

instance (bs : List UInt8) : Decidable (Valid bs) :=
  inferInstanceAs (Decidable (ByteArray.IsValidUTF8 _))

def encode (s : String) : List UInt8 := s.toList.flatMap String.utf8EncodeChar

theorem valid_iff (bs : List UInt8) :
    Valid bs ↔ ∃ cs : List Char, bs = cs.flatMap String.utf8EncodeChar := by
  constructor
  · rintro ⟨cs, hcs⟩
    refine ⟨cs, ?_⟩
    have h := congrArg (fun b => b.data.toList) hcs
    simpa [List.utf8Encode] using h
  · rintro ⟨cs, rfl⟩
    exact ⟨cs, rfl⟩

@[simp] theorem valid_nil : Valid [] := (valid_iff []).mpr ⟨[], rfl⟩

theorem valid_append {xs ys : List UInt8} (hx : Valid xs) (hy : Valid ys) : Valid (xs ++ ys) := by
  obtain ⟨cs, rfl⟩ := (valid_iff xs).mp hx
  obtain ⟨ds, rfl⟩ := (valid_iff ys).mp hy
  exact (valid_iff _).mpr ⟨cs ++ ds, by rw [List.flatMap_append]⟩

theorem encodeChar_of_ascii_mem {c : Char} {b : UInt8} (hb : b.toNat < 128)
    (hm : b ∈ String.utf8EncodeChar c) : String.utf8EncodeChar c = [b] := by
  have hc : c.val.toNat < 1114112 := by
    have h := c.valid
    simp only [UInt32.isValidChar, Nat.isValidChar] at h
    omega
  unfold String.utf8EncodeChar at hm ⊢
  simp only at hm ⊢
  split_ifs at hm ⊢ with h₁ h₂ h₃
  · rw [List.mem_singleton] at hm
    rw [hm]
  all_goals
    exfalso
    simp only [List.mem_cons, List.not_mem_nil, or_false] at hm
    obtain rfl | rfl | rfl | rfl := hm <;> simp only [UInt8.toNat_ofNat'] at hb <;> omega

theorem valid_of_separated {sep : UInt8} (hsep : sep.toNat < 128) (xs ys : List UInt8)
    (h : Valid (xs ++ sep :: ys)) : Valid xs ∧ Valid ys := by
  obtain ⟨cs, hcs⟩ := (valid_iff _).mp h
  clear h
  induction cs generalizing xs with
  | nil => simp at hcs
  | cons c cs ih =>
    rw [List.flatMap_cons] at hcs
    obtain ⟨as, hc, hr⟩ | ⟨bs, hx, hr⟩ := List.append_eq_append_iff.mp hcs
    · cases as with
      | nil =>
        rw [List.nil_append] at hr
        rw [List.append_nil] at hc
        cases cs with
        | nil => simp at hr
        | cons d ds =>
          obtain ⟨-, hy⟩ := ih [] (by simpa using hr)
          exact ⟨(valid_iff xs).mpr ⟨[c], by simp [hc]⟩, hy⟩
      | cons a as =>
        rw [List.cons_append, List.cons.injEq] at hr
        obtain ⟨rfl, hr⟩ := hr
        have he : String.utf8EncodeChar c = [sep] := encodeChar_of_ascii_mem hsep (by rw [hc]; simp)
        have hlen := congrArg List.length (hc.symm.trans he)
        simp only [List.length_append, List.length_cons, List.length_nil] at hlen
        have hxs : xs = [] := List.length_eq_zero_iff.mp (by omega)
        have has : as = [] := List.length_eq_zero_iff.mp (by omega)
        subst hxs has
        exact ⟨valid_nil, (valid_iff ys).mpr ⟨cs, by simpa using hr⟩⟩
    · obtain ⟨hv, hy⟩ := ih bs hr.symm
      refine ⟨?_, hy⟩
      rw [hx]
      exact valid_append ((valid_iff _).mpr ⟨[c], by simp⟩) hv

theorem valid_singleton {b : UInt8} (hb : b.toNat < 128) : Valid [b] := by
  refine (valid_iff _).mpr ⟨[Char.ofNat b.toNat], ?_⟩
  have hv : (Char.ofNat b.toNat).val.toNat = b.toNat := by
    rw [Char.ofNat, dif_pos (Or.inl (by omega))]
    rfl
  simp only [List.flatMap_cons, List.flatMap_nil, List.append_nil, String.utf8EncodeChar, hv]
  rw [if_pos (by omega), UInt8.ofNat_toNat]

theorem valid_splitOn {sep : UInt8} (hsep : sep.toNat < 128) (xs : List UInt8) (h : Valid xs) :
    ∀ part ∈ xs.splitOn sep, Valid part := by
  have hx : [sep].intercalate (xs.splitOn sep) = xs := List.intercalate_splitOn sep
  rw [← hx] at h
  generalize xs.splitOn sep = parts at h
  clear hx
  induction parts with
  | nil => simp
  | cons part parts ih =>
    cases parts with
    | nil => simpa [List.intercalate] using h
    | cons next parts =>
      rw [List.intercalate_cons_cons, List.append_assoc, List.singleton_append] at h
      obtain ⟨hp, hr⟩ := valid_of_separated hsep _ _ h
      intro q hq
      obtain rfl | hq := List.mem_cons.mp hq
      · exact hp
      · exact ih hr q hq

theorem valid_intercalate {sep : UInt8} (hsep : sep.toNat < 128) (parts : List (List UInt8))
    (h : ∀ part ∈ parts, Valid part) : Valid ([sep].intercalate parts) := by
  induction parts with
  | nil => simp [List.intercalate]
  | cons part parts ih =>
    cases parts with
    | nil => simpa [List.intercalate] using h part (by simp)
    | cons next parts =>
      rw [List.intercalate_cons_cons]
      exact valid_append (valid_append (h part (by simp)) (valid_singleton hsep))
        (ih (fun q hq => h q (List.mem_cons_of_mem _ hq)))

end Utf8
