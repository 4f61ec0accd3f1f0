import LeptosWasi.StaticPathSafety

namespace LeptosWasi.StaticReachability

open Http StaticFiles Percent StaticPathSafety

/-- The components of a safe file name. -/
structure SafeName (parts : List Bytes) : Prop where
  nonempty : ∀ part ∈ parts, part ≠ []
  utf8 : ∀ part ∈ parts, Utf8.Valid part
  plain : ∀ part ∈ parts, ∀ b ∈ part, 32 ≤ b ∧ b ≠ 127 ∧ b ≠ slash ∧ b ≠ backslash
  noDots : ∀ part ∈ parts, part ≠ [dot] ∧ part ≠ [dot, dot]
  noDrive : ∀ a rest, parts.head? = some (a :: colon :: rest) → isAsciiAlphabetic a = false
  noEscape : ∀ h l, (escape h l).isSome → ¬ [percent, h, l] <:+: [slash].intercalate parts

/-- A percent-encoding of some bytes: each is written as it is or as `%XX`,
and a percent sign always as `%XX`. -/
inductive Encodes : Bytes → Bytes → Prop
  | nil : Encodes [] []
  | literal {b : UInt8} {part raw : Bytes} (hb : b ≠ percent) (h : Encodes part raw) :
      Encodes (b :: part) (b :: raw)
  | escaped {high low b : UInt8} {part raw : Bytes}
      (hb : escape high low = some b) (h : Encodes part raw) :
      Encodes (b :: part) (percent :: high :: low :: raw)

/-- Components written one after the other. There is at least one separator
between two of them, and there may be some after the last. -/
inductive Spaced (writes : Bytes → Bytes → Prop) : List Bytes → Bytes → Prop
  | nil : Spaced writes [] []
  | last {part raw : Bytes} (h : writes part raw) (slashes : Nat) :
      Spaced writes [part] (raw ++ List.replicate slashes slash)
  | cons {part raw next rest : Bytes} {parts : List Bytes} (h : writes part raw) (slashes : Nat)
      (hrest : Spaced writes (next :: parts) rest) :
      Spaced writes (part :: next :: parts) (raw ++ (List.replicate (slashes + 1) slash ++ rest))

abbrev Spelling : List Bytes → Bytes → Prop := Spaced Encodes

section Decoding

theorem percentDecodeOnce_literal {b : UInt8} (hb : b ≠ percent) (rest : Bytes) :
    percentDecodeOnce (b :: rest) = (b :: ·) <$> percentDecodeOnce rest := by
  obtain _ | ⟨high, _ | ⟨low, rest⟩⟩ := rest
  · simp [percentDecodeOnce, hb]
  · simp [percentDecodeOnce, hb]
  · simp only [percentDecodeOnce, if_pos hb]

theorem percentDecodeOnce_escape {high low b : UInt8}
    (he : escape high low = some b) (hslash : b ≠ slash)
    (hback : b ≠ backslash) (rest : Bytes) :
    percentDecodeOnce (percent :: high :: low :: rest) = (b :: ·) <$> percentDecodeOnce rest := by
  rw [escape, ← decodeHexDigit_eq, ← decodeHexDigit_eq] at he
  rw [percentDecodeOnce, if_neg (not_not.mpr rfl)]
  cases hh : decodeHexDigit high with
  | none => simp [hh] at he
  | some h =>
    cases hl : decodeHexDigit low with
    | none => simp [hh, hl] at he
    | some l =>
      simp only [hh, hl, Option.some.injEq] at he
      simp only [he, hslash, hback, or_self, if_false]

theorem percentDecodeOnce_encodes {part raw : Bytes} (h : Encodes part raw)
    (hplain : ∀ b ∈ part, b ≠ slash ∧ b ≠ backslash) (rest : Bytes) :
    percentDecodeOnce (raw ++ rest) = (part ++ ·) <$> percentDecodeOnce rest := by
  induction h with
  | nil =>
    rw [List.nil_append]
    exact (id_map _).symm
  | literal hb _ ih =>
    rw [List.cons_append, percentDecodeOnce_literal hb,
      ih fun c hc => hplain c (List.mem_cons_of_mem _ hc)]
    cases percentDecodeOnce rest <;> rfl
  | escaped hb _ ih =>
    obtain ⟨hslash, hback⟩ := hplain _ List.mem_cons_self
    simp only [List.cons_append]
    rw [percentDecodeOnce_escape hb hslash hback,
      ih fun c hc => hplain c (List.mem_cons_of_mem _ hc)]
    cases percentDecodeOnce rest <;> rfl

theorem percentDecodeOnce_slashes (n : Nat) (rest : Bytes) :
    percentDecodeOnce (List.replicate n slash ++ rest) =
      (List.replicate n slash ++ ·) <$> percentDecodeOnce rest := by
  induction n with
  | zero =>
    rw [List.replicate_zero, List.nil_append]
    exact (id_map _).symm
  | succ n ih =>
    rw [List.replicate_succ, List.cons_append, percentDecodeOnce_literal (by decide), ih]
    cases percentDecodeOnce rest <;> rfl

theorem percentDecodeOnce_spelling {parts : List Bytes} {raw : Bytes} (h : Spelling parts raw)
    (hplain : ∀ part ∈ parts, ∀ b ∈ part, b ≠ slash ∧ b ≠ backslash) :
    ∃ x, percentDecodeOnce raw = .ok x ∧ Spaced (· = ·) parts x := by
  induction h with
  | nil => exact ⟨[], rfl, .nil⟩
  | last h slashes =>
    refine ⟨_, ?_, .last rfl slashes⟩
    have hslashes := percentDecodeOnce_slashes slashes []
    rw [List.append_nil] at hslashes
    rw [percentDecodeOnce_encodes h (hplain _ List.mem_cons_self), hslashes]
    simp only [percentDecodeOnce, Functor.map, Except.map, List.append_nil]
  | cons h slashes _ ih =>
    obtain ⟨x, hx, hspaced⟩ := ih fun part hp => hplain part (List.mem_cons_of_mem _ hp)
    refine ⟨_, ?_, .cons rfl slashes hspaced⟩
    rw [percentDecodeOnce_encodes h (hplain _ List.mem_cons_self), percentDecodeOnce_slashes, hx]
    rfl

end Decoding

section Written

variable {parts : List Bytes} {x : Bytes}

theorem spaced_splitOn (h : Spaced (· = ·) parts x)
    (hparts : ∀ part ∈ parts, part ≠ [] ∧ slash ∉ part) :
    (x.splitOn slash).filter (· ≠ []) = parts ∧ (x.splitOn slash).headD [] = parts.headD [] := by
  induction h with
  | nil => exact ⟨rfl, rfl⟩
  | last h slashes =>
    subst h
    obtain ⟨hne, hsep⟩ := hparts _ List.mem_cons_self
    cases slashes with
    | zero =>
      rw [List.replicate_zero, List.append_nil]
      exact ⟨Split.filter_splitOn_part hne hsep, by rw [List.splitOn_eq_singleton hsep]⟩
    | succ slashes =>
      rw [List.replicate_succ]
      have hrest : ((List.replicate slashes slash ++ []).splitOn slash).filter (· ≠ []) = _ :=
        Split.filter_splitOn_replicate slashes []
      rw [List.append_nil] at hrest
      refine ⟨?_, ?_⟩
      · rw [Split.filter_splitOn_append, Split.filter_splitOn_part hne hsep, hrest]
        rfl
      · rw [List.splitOn_append_cons_self, List.splitOn_eq_singleton hsep]
        rfl
  | cons h slashes _ ih =>
    subst h
    obtain ⟨hne, hsep⟩ := hparts _ List.mem_cons_self
    obtain ⟨ih, -⟩ := ih fun part hp => hparts part (List.mem_cons_of_mem _ hp)
    rw [List.replicate_succ, List.cons_append]
    refine ⟨?_, ?_⟩
    · rw [Split.filter_splitOn_append, Split.filter_splitOn_part hne hsep,
        Split.filter_splitOn_replicate, ih]
      rfl
    · rw [List.splitOn_append_cons_self, List.splitOn_eq_singleton hsep]
      rfl

end Written

theorem decodeResidualLoop_no_escape (x : Bytes) (h : escapes x = []) :
    decodeResidualLoop x = .ok (x, false) := by
  induction x using decode.induct with
  | case1 => rfl
  | case2 a | case3 a b => simp [decodeResidualLoop, Functor.map, Except.map]
  | case4 h' l rest byte he ih => simp [escapes_cons_escape he] at h
  | case5 h' l rest he ih =>
    rw [escapes_cons_malformed he] at h
    rw [show (37 : UInt8) = percent from rfl, decodeResidualLoop_malformed he, ih h]
    rfl
  | case6 a h' l rest ha ih =>
    rw [escapes_cons_literal ha] at h
    rw [decodeResidualLoop_literal ha, ih h]
    rfl

theorem validateResidualEncoding_no_escape {x : Bytes} (h : escapes x = []) :
    validateResidualEncoding x = .ok () := by
  have honce : decodeResidualOnce x = .ok none := by
    rw [decodeResidualOnce, decodeResidualLoop_no_escape x h]
    rfl
  rw [validateResidualEncoding]
  by_cases hp : percent ∉ x
  · rw [if_pos hp]
  · rw [if_neg hp, maxResidualDecodePasses, residualPasses, honce]
    rfl

theorem validateDecodedBytes_plain {x : Bytes} (h : ∀ b ∈ x, 32 ≤ b ∧ b ≠ 127 ∧ b ≠ backslash) :
    validateDecodedBytes x = .ok () := by
  induction x with
  | nil => rfl
  | cons b x ih =>
    obtain ⟨hlow, hdel, hback⟩ := h b List.mem_cons_self
    have hzero : b ≠ 0 := by
      rintro rfl
      exact absurd hlow (by decide)
    have hcontrol : ¬ b ≤ 31 := by
      rw [UInt8.le_iff_toNat_le] at hlow ⊢
      simp only [UInt8.reduceToNat] at hlow ⊢
      omega
    rw [validateDecodedBytes, if_neg hzero, if_neg hback, if_neg (not_or.mpr ⟨hcontrol, hdel⟩)]
    exact ih fun c hc => h c (List.mem_cons_of_mem _ hc)

theorem checkDots_noDots {parts : List Bytes} (h : ∀ part ∈ parts, part ≠ [dot] ∧
    part ≠ [dot, dot]) :
    checkDots parts = .ok () := by
  induction parts with
  | nil => rfl
  | cons part parts ih =>
    obtain ⟨hone, htwo⟩ := h part List.mem_cons_self
    rw [checkDots, if_neg hone, if_neg htwo]
    exact ih fun c hc => h c (List.mem_cons_of_mem _ hc)

theorem joinComponents_valid {parts : List Bytes}
    (h : ∀ part ∈ parts, Utf8.Valid part) (acc : Bytes) :
    ∃ p, joinComponents acc (parts.map .normal) = .ok p := by
  induction parts generalizing acc with
  | nil => exact ⟨acc, rfl⟩
  | cons part parts ih =>
    rw [List.map_cons, joinComponents, if_pos (h part List.mem_cons_self)]
    exact ih (fun c hc => h c (List.mem_cons_of_mem _ hc)) _

section Names

variable {parts : List Bytes} {x : Bytes}

theorem SafeName.separated (h : SafeName parts) : ∀ part ∈ parts, part ≠ [] ∧ slash ∉ part :=
  fun part hp => ⟨h.nonempty part hp, fun hm => (h.plain part hp slash hm).2.2.1 rfl⟩

theorem mem_splitOn_spaced (h : SafeName parts) (hx : Spaced (· = ·) parts x) {piece : Bytes}
    (hp : piece ∈ x.splitOn slash) : piece = [] ∨ piece ∈ parts := by
  by_cases he : piece = []
  · exact Or.inl he
  · right
    rw [← (spaced_splitOn hx h.separated).1, List.mem_filter]
    exact ⟨hp, by simpa using he⟩

theorem SafeName.escapes_part (h : SafeName parts) : ∀ part ∈ parts, escapes part = [] := by
  intro part hp
  have hsub := escapes_part_subset slash_literal.1 slash_literal.2 parts part hp
  rw [escapes_eq_nil_of_no_escape _ h.noEscape] at hsub
  exact List.subset_nil.mp hsub

/-- A decoded spelling passes every check on the way, and only its separators
are collapsed. -/
theorem spaced_accepted (h : SafeName parts) (hx : Spaced (· = ·) parts x) :
    validateDecodedBytes x = .ok () ∧ Utf8.Valid x ∧ validateResidualEncoding x = .ok () ∧
      validatePlatformPrefix x = .ok () ∧
      validateComponents x = .ok ([slash].intercalate parts) := by
  have hjoin : [slash].intercalate (x.splitOn slash) = x := List.intercalate_splitOn slash
  obtain ⟨hfilter, hfirst⟩ := spaced_splitOn hx h.separated
  refine ⟨validateDecodedBytes_plain fun b hb => ?_,
    ?_, validateResidualEncoding_no_escape ?_, ?_, ?_⟩
  · rw [← hjoin] at hb
    obtain rfl | ⟨piece, hp, hb⟩ := Split.mem_intercalate hb
    · decide
    · obtain rfl | hp := mem_splitOn_spaced h hx hp
      · cases hb
      · obtain ⟨hlow, hdel, -, hback⟩ := h.plain piece hp b hb
        exact ⟨hlow, hdel, hback⟩
  · rw [← hjoin]
    refine Utf8.valid_intercalate (by decide) _ fun piece hp => ?_
    obtain rfl | hp := mem_splitOn_spaced h hx hp
    · exact Utf8.valid_nil
    · exact h.utf8 piece hp
  · rw [← hjoin]
    refine escapes_intercalate_eq_nil slash_literal.1 slash_literal.2 fun piece hp => ?_
    obtain rfl | hp := mem_splitOn_spaced h hx hp
    · rfl
    · exact h.escapes_part piece hp
  · have hdrive : hasPlatformPrefix (parts.headD []) = false := by
      cases parts with
      | nil => rfl
      | cons part parts =>
        obtain _ | ⟨a, _ | ⟨b, rest⟩⟩ := part
        · rfl
        · rfl
        · rw [List.headD_cons, hasPlatformPrefix, Bool.and_eq_false_iff]
          by_cases hb : b = colon
          · subst hb
            exact Or.inl (h.noDrive a rest rfl)
          · exact Or.inr (beq_eq_false_iff_ne.mpr hb)
    rw [validatePlatformPrefix, hfirst, hdrive]
    rfl
  · have hhead : x.head? ≠ some slash := by
      intro hs
      obtain ⟨others, ho⟩ := Split.splitOn_eq_nil_cons hs
      rw [ho, List.headD_cons] at hfirst
      cases hx with
      | nil => cases hs
      | last _ _ | cons _ _ _ => exact h.nonempty _ List.mem_cons_self hfirst.symm
    have hdots : ∀ piece ∈ x.splitOn slash, piece ≠ [dot] ∧ piece ≠ [dot, dot] := by
      intro piece hp
      obtain rfl | hp := mem_splitOn_spaced h hx hp
      · exact ⟨by simp, by simp⟩
      · exact h.noDots piece hp
    obtain ⟨p, hp⟩ := joinComponents_valid h.utf8 []
    have hjoined := joinComponents_ok h.nonempty hp
    rw [if_pos rfl] at hjoined
    rw [validateComponents, if_neg hhead, checkDots_noDots hdots,
      components_eq hhead hdots, hfilter]
    exact hjoined ▸ hp

end Names

/-- Every safe file name is reachable under every spelling, and all of them
give the callback one key. -/
theorem normalize_static_path_reaches {parts : List Bytes} (h : SafeName parts) {raw : Bytes}
    (hraw : Spelling parts raw) :
    normalizeStaticPath raw = .ok ([slash].intercalate parts) ∧
      ∀ other, Spelling parts other → normalizeStaticPath other = normalizeStaticPath raw := by
  have hreach : ∀ text, Spelling parts text →
    normalizeStaticPath text = .ok ([slash].intercalate parts) := by
    intro text htext
    obtain ⟨x, hdecode, hx⟩ := percentDecodeOnce_spelling htext fun part hp b hb =>
      (h.plain part hp b hb).2.2
    obtain ⟨hbytes, hutf8, hresidual, hdrive, hcomponents⟩ := spaced_accepted h hx
    simp only [normalizeStaticPath, hdecode, hbytes,
      hutf8, hresidual, hdrive, hcomponents, bind, Except.bind,
      not_true_eq_false, if_false]
  exact ⟨hreach raw hraw, fun other hother => (hreach other hother).trans (hreach raw hraw).symm⟩

/-- A lone separator, the spelling of no component with one after it, is taken
for an absolute path. -/
theorem lone_slash_rejected :
    ¬ ∀ parts body raw, SafeName parts → Spelling parts body → raw = body ∨ raw = body ++ [slash] →
      normalizeStaticPath raw = .ok ([slash].intercalate parts) := by
  intro hall
  have hnone : SafeName [] := by
    refine ⟨by simp, by simp, by simp, by simp, by simp, ?_⟩
    exact fun _ _ _ hin => List.not_mem_nil (hin.subset List.mem_cons_self)
  have hreached := hall [] [] [slash] hnone .nil (Or.inr rfl)
  have hrejected : normalizeStaticPath [slash] = .error .absolutePath := by decide +kernel
  rw [hrejected] at hreached
  cases hreached

def accented : List Bytes := [[99, 115, 115], [195, 169]]

theorem safeName_accented : SafeName accented where
  nonempty := by decide
  utf8 := by decide +kernel
  plain := by decide +kernel
  noDots := by decide +kernel
  noDrive := by simp [accented, colon]
  noEscape high low _ hin := by
    have hpercent : percent ∈ [slash].intercalate accented := hin.subset List.mem_cons_self
    exact absurd hpercent (by decide +kernel)

/-- The name `css/é` spelled as `c%73s//%C3%a9/`. -/
theorem normalize_static_path_reaches_accented :
    normalizeStaticPath (text "c%73s//%C3%a9/") = .ok ([slash].intercalate accented) := by
  have hspelling : Spelling accented
      ([99, 37, 55, 51, 115] ++ ([47, 47] ++ ([37, 67, 51, 37, 97, 57] ++ [47]))) := by
    refine .cons (.literal (by decide) (.escaped (by decide) (.literal (by decide) .nil))) 1
      (.last (.escaped (by decide) (.escaped (by decide) .nil)) 1)
  have htext : text "c%73s//%C3%a9/" =
      [99, 37, 55, 51, 115] ++ ([47, 47] ++ ([37, 67, 51, 37, 97, 57] ++ [47])) := by decide +kernel
  rw [htext]
  exact (normalize_static_path_reaches safeName_accented hspelling).1

end LeptosWasi.StaticReachability
