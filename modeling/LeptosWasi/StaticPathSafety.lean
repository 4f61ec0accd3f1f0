import LeptosWasi.Library.Percent
import LeptosWasi.StaticFiles

namespace LeptosWasi.StaticPathSafety

open Http StaticFiles Percent

/-- A relative lookup key that is safe to hand to an asset callback. -/
structure SafeKey (q : Bytes) : Prop where
  utf8 : Utf8.Valid q
  relative : q.head? ≠ some slash
  plain : ∀ b ∈ q, 32 ≤ b ∧ b ≠ 127 ∧ b ≠ backslash
  components : q = [] ∨ ∀ c ∈ q.splitOn slash, c ≠ [] ∧ c ≠ [dot] ∧ c ≠ [dot, dot]
  noDrive : ∀ a rest, (q.splitOn slash).head? = some (a :: colon :: rest) →
    isAsciiAlphabetic a = false

def Refused (b : UInt8) : Prop := b ≤ 31 ∨ b = 127 ∨ b = slash ∨ b = backslash

structure Checked (x : Bytes) : Prop where
  utf8 : Utf8.Valid x
  plain : ∀ b ∈ x, 32 ≤ b ∧ b ≠ 127 ∧ b ≠ backslash
  relative : x.head? ≠ some slash
  noDots : ∀ c ∈ x.splitOn slash, c ≠ [dot] ∧ c ≠ [dot, dot]
  noDrive : hasPlatformPrefix ((x.splitOn slash).headD []) = false

/-- The value of `validate_components` on an accepted text: empty components
are dropped and the others are joined again. -/
def collapse (x : Bytes) : Bytes := [slash].intercalate ((x.splitOn slash).filter (· ≠ []))

theorem slash_literal : slash ≠ 37 ∧ hexDigit slash = none := by decide

theorem bind_ok {ε α β : Type} {x : Except ε α} {f : α → Except ε β} {b : β}
    (h : x >>= f = .ok b) : ∃ a, x = .ok a ∧ f a = .ok b := by
  cases x with
  | error e => cases h
  | ok a => exact ⟨a, rfl, h⟩

theorem map_ok {ε α β : Type} {x : Except ε α} {f : α → β} {b : β}
    (h : f <$> x = .ok b) : ∃ a, x = .ok a ∧ f a = b := by
  cases x with
  | error e => cases h
  | ok a => exact ⟨a, rfl, by simpa [Functor.map, Except.map] using h⟩

theorem mapError_ok {ε δ α : Type} {x : Except ε α} {f : ε → δ} {a : α}
    (h : x.mapError f = .ok a) : x = .ok a := by
  cases x with
  | error e => cases h
  | ok b =>
    cases h
    rfl

theorem decodeResidualLoop_literal {a : UInt8} (ha : a ≠ percent) (rest : Bytes) :
    decodeResidualLoop (a :: rest) = (fun r => (a :: r.1, r.2)) <$> decodeResidualLoop rest := by
  obtain _ | ⟨h, _ | ⟨l, rest⟩⟩ := rest
  · simp [decodeResidualLoop]
  · simp [decodeResidualLoop]
  · simp only [decodeResidualLoop, if_neg ha]

theorem decodeHexDigit_eq (byte : UInt8) : decodeHexDigit byte = hexDigit byte := rfl

theorem decodeResidualLoop_escape {h l byte : UInt8} (he : escape h l = some byte) (rest : Bytes) :
    decodeResidualLoop (percent :: h :: l :: rest) =
      if byte ≤ 31 ∨ byte = 127 ∨ byte = slash ∨
        byte = backslash then .error .residualPercentEncoding
      else (fun r => (byte :: r.1, true)) <$> decodeResidualLoop rest := by
  rw [escape, ← decodeHexDigit_eq, ← decodeHexDigit_eq] at he
  rw [decodeResidualLoop, if_pos rfl]
  cases hh : decodeHexDigit h with
  | none => simp [hh] at he
  | some high =>
    cases hl : decodeHexDigit l with
    | none => simp [hh, hl] at he
    | some low =>
      simp only [hh, hl, Option.some.injEq] at he
      rw [← he]

theorem decodeResidualLoop_malformed {h l : UInt8} (he : escape h l = none) (rest : Bytes) :
    decodeResidualLoop (percent :: h :: l :: rest) =
      (fun r => (percent :: r.1, r.2)) <$> decodeResidualLoop (h :: l :: rest) := by
  rw [escape, ← decodeHexDigit_eq, ← decodeHexDigit_eq] at he
  rw [decodeResidualLoop, if_pos rfl]
  cases hh : decodeHexDigit h with
  | none => rfl
  | some high =>
    cases hl : decodeHexDigit l with
    | none => rfl
    | some low => simp [hh, hl] at he

theorem decodeResidualLoop_ok (value : Bytes) (r : Bytes × Bool)
    (h : decodeResidualLoop value = .ok r) :
    r.1 = decode value ∧ (r.2 = false → escapes value = []) ∧ ∀ b ∈ escapes value, ¬ Refused b := by
  induction value using decode.induct generalizing r with
  | case1 =>
    cases h
    exact ⟨rfl, fun _ => rfl, by simp [escapes]⟩
  | case2 a =>
    simp only [decodeResidualLoop, Functor.map, Except.map, ite_self, Except.ok.injEq] at h
    subst h
    exact ⟨rfl, fun _ => rfl, by simp [escapes]⟩
  | case3 a b =>
    simp only [decodeResidualLoop, Functor.map, Except.map, ite_self, Except.ok.injEq] at h
    subst h
    exact ⟨rfl, fun _ => rfl, by simp [escapes]⟩
  | case4 hi lo rest byte he ih =>
    rw [show (37 : UInt8) = percent from rfl, decodeResidualLoop_escape he] at h
    split_ifs at h with hb
    obtain ⟨s, hs, rfl⟩ := map_ok h
    obtain ⟨h₁, -, h₃⟩ := ih s hs
    rw [decode_cons_escape he, escapes_cons_escape he]
    refine ⟨by rw [h₁], by simp, fun b hm => ?_⟩
    obtain rfl | hm := List.mem_cons.mp hm
    · exact hb
    · exact h₃ b hm
  | case5 hi lo rest he ih =>
    rw [show (37 : UInt8) = percent from rfl, decodeResidualLoop_malformed he] at h
    obtain ⟨s, hs, rfl⟩ := map_ok h
    obtain ⟨h₁, h₂, h₃⟩ := ih s hs
    rw [decode_cons_malformed he, escapes_cons_malformed he]
    exact ⟨by rw [h₁]; rfl, h₂, h₃⟩
  | case6 a hi lo rest ha ih =>
    rw [decodeResidualLoop_literal ha] at h
    obtain ⟨s, hs, rfl⟩ := map_ok h
    obtain ⟨h₁, h₂, h₃⟩ := ih s hs
    rw [decode_cons_literal ha, escapes_cons_literal ha]
    exact ⟨by rw [h₁], h₂, h₃⟩

theorem decodeResidualOnce_none {value : Bytes} (h : decodeResidualOnce value = .ok none) :
    escapes value = [] := by
  obtain ⟨⟨d, changed⟩, hl, h⟩ := bind_ok h
  obtain ⟨-, hc, -⟩ := decodeResidualLoop_ok value _ hl
  cases changed with
  | false => exact hc rfl
  | true =>
    simp only [Bool.not_true, Bool.false_eq_true, if_false] at h
    split_ifs at h
    cases h

theorem decodeResidualOnce_some {value next : Bytes}
    (h : decodeResidualOnce value = .ok (some next)) :
    next = decode value ∧ Utf8.Valid next ∧ ∀ b ∈ escapes value, ¬ Refused b := by
  obtain ⟨⟨d, changed⟩, hl, h⟩ := bind_ok h
  obtain ⟨hd, -, hs⟩ := decodeResidualLoop_ok value _ hl
  cases changed with
  | false => simp [pure, Except.pure] at h
  | true =>
    simp only [Bool.not_true, Bool.false_eq_true, if_false] at h
    split_ifs at h with hv
    cases h
    exact ⟨hd, hv, hs⟩

theorem validatePlatformPrefix_ok {x : Bytes} (h : validatePlatformPrefix x = .ok ()) :
    hasPlatformPrefix ((x.splitOn slash).headD []) = false := by
  rw [validatePlatformPrefix] at h
  split_ifs at h with hp
  · exact Bool.not_eq_true _ ▸ hp

theorem checkDots_ok {parts : List Bytes} (h : checkDots parts = .ok ()) :
    ∀ c ∈ parts, c ≠ [dot] ∧ c ≠ [dot, dot] := by
  induction parts with
  | nil => simp
  | cons part parts ih =>
    rw [checkDots] at h
    split_ifs at h with h₁ h₂
    intro c hc
    obtain rfl | hc := List.mem_cons.mp hc
    · exact ⟨h₁, h₂⟩
    · exact ih h c hc

theorem components_eq {x : Bytes} (hrel : x.head? ≠ some slash)
    (hdots : ∀ c ∈ x.splitOn slash, c ≠ [dot] ∧ c ≠ [dot, dot]) :
    components x = ((x.splitOn slash).filter (· ≠ [])).map .normal := by
  have hfirst : (x.splitOn slash).headD [] ≠ [dot] := by
    cases hs : x.splitOn slash with
    | nil => exact absurd hs (by simp)
    | cons c cs => exact (hdots c (by simp [hs])).1
  rw [components]
  simp only [if_neg hrel, hfirst, and_false, if_false, List.nil_append]
  generalize x.splitOn slash = parts at hdots
  induction parts with
  | nil => rfl
  | cons part parts ih =>
    have hp := hdots part (by simp)
    have ih := ih (fun c hc => hdots c (List.mem_cons_of_mem _ hc))
    by_cases he : part = []
    · subst he
      simpa using ih
    · simpa [he, hp.1, hp.2] using ih

theorem joinComponents_ok {parts : List Bytes} (hne : ∀ c ∈ parts, c ≠ []) {acc p : Bytes}
    (h : joinComponents acc (parts.map .normal) = .ok p) :
    p = [slash].intercalate (if acc = [] then parts else acc :: parts) := by
  induction parts generalizing acc with
  | nil =>
    cases h
    split_ifs with ha
    · simp [ha, List.intercalate]
    · simp [List.intercalate]
  | cons part parts ih =>
    have hp := hne part (by simp)
    have hrest : ∀ c ∈ parts, c ≠ [] := fun c hc => hne c (List.mem_cons_of_mem _ hc)
    rw [List.map_cons, joinComponents] at h
    split_ifs at h with hv hacc
    · have h := ih hrest h
      rw [if_neg (by simp)] at h
      rw [h, if_neg hacc]
      cases parts with
      | nil => simp [List.intercalate]
      | cons next parts => simp [List.intercalate_cons_cons]
    · obtain rfl := not_not.mp hacc
      simpa [hp] using ih hrest h

theorem validateComponents_ok {x p : Bytes} (h : validateComponents x = .ok p) :
    x.head? ≠ some slash ∧ (∀ c ∈ x.splitOn slash, c ≠ [dot] ∧ c ≠ [dot, dot]) ∧
    p = collapse x := by
  rw [validateComponents] at h
  split_ifs at h with hrel
  · cases h
  · obtain ⟨⟨⟩, hd, h⟩ := bind_ok h
    have hdots := checkDots_ok hd
    rw [components_eq hrel hdots] at h
    refine ⟨hrel, hdots, ?_⟩
    rw [joinComponents_ok (by simp) h, if_pos rfl, collapse]

theorem mem_iterate_decode {x : Bytes} (P : UInt8 → Prop) (hx : ∀ b ∈ x, P b)
    (hesc : ∀ m, ∀ b ∈ escapes (decode^[m] x), P b) (n : Nat) : ∀ b ∈ decode^[n] x, P b := by
  induction n with
  | zero => exact hx
  | succ n ih =>
    intro b hb
    rw [Function.iterate_succ_apply'] at hb
    obtain hb | hb := mem_decode _ hb
    · exact ih b hb
    · exact hesc n b hb

structure Probed (x : Bytes) : Prop where
  utf8 : Utf8.Valid x
  noDrive : validatePlatformPrefix x = .ok ()
  parts : ∃ p, validateComponents x = .ok p

/-- Passing the bounded number of passes means that decoding has reached a
fixed point, so the checks made on the way hold of every later decoding. -/
theorem residualPasses_ok {passes : Nat} {x : Bytes} (hx : Probed x)
    (h : residualPasses passes x = .ok ()) (n : Nat) :
    Probed (decode^[n] x) ∧ ∀ b ∈ escapes (decode^[n] x), ¬ Refused b := by
  induction passes generalizing x n with
  | zero => cases h
  | succ passes ih =>
    rw [residualPasses] at h
    obtain ⟨probe, hp, h⟩ := bind_ok h
    cases probe with
    | none =>
      have hesc := decodeResidualOnce_none hp
      have hfix := decode_of_escapes_eq_nil x hesc
      rw [Function.iterate_fixed hfix]
      exact ⟨hx, by simp [hesc]⟩
    | some next =>
      obtain ⟨rfl, hutf, hesc⟩ := decodeResidualOnce_some hp
      obtain ⟨⟨⟩, hd, h⟩ := bind_ok h
      obtain ⟨p, hc, h⟩ := bind_ok h
      have hnext : Probed (decode x) := ⟨hutf, mapError_ok hd, p, mapError_ok hc⟩
      cases n with
      | zero => exact ⟨hx, hesc⟩
      | succ n =>
        rw [Function.iterate_succ_apply]
        exact ih hnext h n

theorem validateResidualEncoding_ok {x : Bytes} (hx : Probed x)
    (h : validateResidualEncoding x = .ok ()) (n : Nat) :
    Probed (decode^[n] x) ∧ ∀ b ∈ escapes (decode^[n] x), ¬ Refused b := by
  rw [validateResidualEncoding] at h
  by_cases hp : percent ∈ x
  · rw [if_neg (not_not.mpr hp)] at h
    exact residualPasses_ok hx h n
  · have hesc := escapes_eq_nil_of_not_mem x hp
    rw [Function.iterate_fixed (decode_of_escapes_eq_nil x hesc)]
    exact ⟨hx, by simp [hesc]⟩

theorem le_of_not_le_31 {b : UInt8} (h : ¬ b ≤ 31) : 32 ≤ b := by
  rw [UInt8.le_iff_toNat_le] at h ⊢
  simp only [UInt8.reduceToNat] at h ⊢
  omega

theorem validateDecodedBytes_ok {x : Bytes} (h : validateDecodedBytes x = .ok ()) :
    ∀ b ∈ x, 32 ≤ b ∧ b ≠ 127 ∧ b ≠ backslash := by
  induction x with
  | nil => simp
  | cons a x ih =>
    rw [validateDecodedBytes] at h
    split_ifs at h with h₁ h₂ h₃
    intro b hb
    obtain rfl | hb := List.mem_cons.mp hb
    · rw [not_or] at h₃
      exact ⟨le_of_not_le_31 h₃.1, h₃.2, h₂⟩
    · exact ih h b hb

theorem not_refused {b : UInt8} (h : ¬ Refused b) :
    (32 ≤ b ∧ b ≠ 127 ∧ b ≠ backslash) ∧ b ≠ slash := by
  simp only [Refused, not_or] at h
  exact ⟨⟨le_of_not_le_31 h.1, h.2.1, h.2.2.2⟩, h.2.2.1⟩

theorem normalizeStaticPath_ok {raw p : Bytes} (h : normalizeStaticPath raw = .ok p) :
    ∃ x, p = collapse x ∧ (∀ n, Checked (decode^[n] x)) ∧ ∀ n, slash ∉ escapes (decode^[n] x) := by
  obtain ⟨x, -, h⟩ := bind_ok h
  obtain ⟨⟨⟩, hbytes, h⟩ := bind_ok h
  have hbytes := validateDecodedBytes_ok hbytes
  by_cases hutf : Utf8.Valid x
  · rw [if_neg (not_not.mpr hutf)] at h
    obtain ⟨⟨⟩, hres, h⟩ := bind_ok h
    obtain ⟨⟨⟩, hdrive, h⟩ := bind_ok h
    have hx : Probed x := ⟨hutf, hdrive, p, h⟩
    have hall := validateResidualEncoding_ok hx hres
    refine ⟨x, (validateComponents_ok h).2.2, fun n => ?_, fun n hm => ?_⟩
    · obtain ⟨q, hq⟩ := (hall n).1.parts
      obtain ⟨hrel, hdots, -⟩ := validateComponents_ok hq
      refine ⟨(hall n).1.utf8, ?_, hrel, hdots, validatePlatformPrefix_ok (hall n).1.noDrive⟩
      exact mem_iterate_decode _ hbytes (fun m b hb => (not_refused ((hall m).2 b hb)).1) n
    · exact (not_refused ((hall n).2 slash hm)).2 rfl
  · rw [if_pos hutf] at h
    cases h

theorem filter_map_decode (n : Nat) (parts : List Bytes) :
    (parts.map decode^[n]).filter (· ≠ []) = (parts.filter (· ≠ [])).map decode^[n] := by
  rw [List.filter_map]
  congr 2
  funext part
  simp [Function.comp, iterate_decode_eq_nil_iff]

theorem iterate_decode_collapse {x : Bytes} (hesc : ∀ n, slash ∉ escapes (decode^[n] x)) (n : Nat) :
    decode^[n] (collapse x) = collapse (decode^[n] x) := by
  unfold collapse
  rw [iterate_decode_intercalate slash_literal.1 slash_literal.2,
    splitOn_iterate_decode slash_literal.1 slash_literal.2 n x (fun k _ => hesc k),
    filter_map_decode]

theorem splitOn_collapse {x : Bytes} (hne : collapse x ≠ []) :
    (collapse x).splitOn slash = (x.splitOn slash).filter (· ≠ []) := by
  rw [collapse] at hne ⊢
  refine List.splitOn_intercalate slash (fun part hp => ?_) ?_
  · exact Split.not_mem_of_mem_splitOn (List.mem_filter.mp hp).1
  · intro he
    rw [he] at hne
    exact hne rfl

theorem safeKey_nil : SafeKey [] :=
  ⟨Utf8.valid_nil, by simp, by simp, Or.inl rfl, by simp⟩

theorem collapse_safe {x : Bytes} (h : Checked x) : SafeKey (collapse x) := by
  by_cases hne : collapse x = []
  · rw [hne]
    exact safeKey_nil
  have hsplit := splitOn_collapse hne
  have hparts : ∀ c ∈ (collapse x).splitOn slash, c ≠ [] ∧ c ∈ x.splitOn slash := by
    intro c hc
    rw [hsplit, List.mem_filter] at hc
    exact ⟨by simpa using hc.2, hc.1⟩
  have hx : x ≠ [] := by
    rintro rfl
    exact hne rfl
  obtain ⟨first, others, hs, hf⟩ := Split.head_splitOn_ne_nil hx h.relative
  refine ⟨?_, fun hhead => ?_, fun b hb => ?_, Or.inr fun c hc => ?_, fun a rest hd => ?_⟩
  · have hv : ∀ part ∈ x.splitOn slash, Utf8.Valid part := Utf8.valid_splitOn (by decide) x h.utf8
    exact Utf8.valid_intercalate (by decide) _ fun c hc => hv c (List.mem_filter.mp hc).1
  · obtain ⟨others, hs⟩ := Split.splitOn_eq_nil_cons hhead
    exact (hparts [] (by simp [hs])).1 rfl
  · obtain rfl | ⟨c, hc, hb⟩ := Split.mem_intercalate hb
    · decide
    · exact h.plain b (Split.subset_of_mem_splitOn (List.mem_filter.mp hc).1 hb)
  · obtain ⟨hc₁, hc₂⟩ := hparts c hc
    exact ⟨hc₁, h.noDots c hc₂⟩
  · have hdrive := h.noDrive
    rw [hsplit, hs, List.filter_cons_of_pos (by simpa using hf), List.head?_cons,
      Option.some.injEq] at hd
    rw [hs, List.headD_cons, hd] at hdrive
    simpa [hasPlatformPrefix] using hdrive

/-- An accepted key is safe after any number of further decodings, and each
of them keeps exactly the separators of the key. -/
theorem normalizeStaticPath_safe {raw p : Bytes} (h : normalizeStaticPath raw = .ok p) (n : Nat) :
    SafeKey (decode^[n] p) ∧ (decode^[n] p).splitOn slash = (p.splitOn slash).map decode^[n] := by
  obtain ⟨x, rfl, hchecked, hesc⟩ := normalizeStaticPath_ok h
  rw [iterate_decode_collapse hesc]
  refine ⟨collapse_safe (hchecked n), ?_⟩
  by_cases hne : collapse x = []
  · have hn : collapse (decode^[n] x) = [] := by
      rw [← iterate_decode_collapse hesc, iterate_decode_eq_nil_iff, hne]
    rw [hne, hn]
    simp [(iterate_decode_eq_nil_iff n []).mpr rfl]
  · have hn : collapse (decode^[n] x) ≠ [] := by
      rwa [← iterate_decode_collapse hesc, ne_eq, iterate_decode_eq_nil_iff]
    rw [splitOn_collapse hne, splitOn_collapse hn,
      splitOn_iterate_decode slash_literal.1 slash_literal.2 n x (fun k _ => hesc k),
      filter_map_decode]

end LeptosWasi.StaticPathSafety
