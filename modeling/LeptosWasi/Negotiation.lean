import Mathlib.Tactic.NormNum
import LeptosWasi.HttpUtil
import LeptosWasi.Library.Accept

namespace LeptosWasi.Negotiation

open Http Policy HttpUtil Accept

def htmlTypes : List Bytes := [text "text/html", text "application/xhtml+xml"]

def IsHtml (r : MediaRange) : Prop := r.typeName ∈ htmlTypes

def InLowerCase (r : MediaRange) : Prop := r.mediaType.item.render ∈ htmlTypes

/-- Some range has an HTML type and a weight that is absent or not zero. -/
def AsksForHtml (lines : List FieldLine) : Prop := ∃ r ∈ ranges lines, IsHtml r ∧ r.acceptable

def Plain (lines : List FieldLine) : Prop := ∃ r ∈ ranges lines, InLowerCase r ∧ r.acceptable

def Overlooked (lines : List FieldLine) : Prop :=
  ∃ r ∈ ranges lines, IsHtml r ∧ ¬ InLowerCase r ∧ r.acceptable

def Misread (lines : List FieldLine) : Prop :=
  ∃ r ∈ ranges lines, InLowerCase r ∧ ∃ w ∈ r.weight, w.item.upper ∧ w.item.value.isZero

/-- The case of letters does not change the answer. -/
def ReadAsMeant (lines : List FieldLine) : Prop := Plain lines ∨ (Overlooked lines ↔ Misread lines)

section Weight

theorem digit_value (d : Fin 10) : (digit d).toNat - 48 = d := by
  have hall : ∀ d : Fin 10, (digit d).toNat - 48 = d := by decide
  exact hall d

theorem isAsciiDigit_digit (d : Fin 10) : isAsciiDigit (digit d) = true := by
  have hall : ∀ d : Fin 10, isAsciiDigit (digit d) = true := by decide
  exact hall d

theorem digits_pos_iff (n : Nat) (ds : List (Fin 10)) :
    0 < (ds.map digit).foldl (fun n b => 10 * n + (b.toNat - 48)) n ↔ 0 < n ∨ ∃ d ∈ ds, d ≠ 0 := by
  induction ds generalizing n with
  | nil => simp
  | cons d ds ih =>
    have hd : 0 < 10 * n + (d : Nat) ↔ 0 < n ∨ d ≠ 0 := by
      rw [ne_eq, Fin.ext_iff, Fin.val_zero]
      omega
    rw [List.map_cons, List.foldl_cons, ih, digit_value, hd, or_assoc]
    simp

/-- Three decimals are too few for a number to round to zero. -/
theorem isPositive_decimal (n k : Nat) (hk : k ≤ 3) :
    (F32.decimal false n (0 - (k : Int))).isPositive = decide (0 < n) := by
  rw [F32.isPositive, Bool.not_false, Bool.true_and,
    decide_eq_decide, zero_sub, zpow_neg, zpow_natCast]
  constructor
  · intro h
    by_contra hn
    obtain rfl : n = 0 := by omega
    norm_num at h
  · intro h
    have hn : (1 : Rat) ≤ n := by exact_mod_cast h
    have hpow : (10 : Rat) ^ k ≤ 10 ^ 3 := pow_le_pow_right₀ (by norm_num) hk
    have hinv : ((10 : Rat) ^ 3)⁻¹ ≤ ((10 : Rat) ^ k)⁻¹ := inv_anti₀ (by positivity) hpow
    calc (1 : Rat) / 2 ^ 150 < 1 * ((10 : Rat) ^ 3)⁻¹ := by norm_num
      _ ≤ n * ((10 : Rat) ^ k)⁻¹ := mul_le_mul hn hinv (by positivity) (by positivity)

theorem parseF32_point (d : Fin 10) (ds : List (Fin 10)) (hd : digit d = 48 ∨ digit d = 49) :
    parseF32 (digit d :: 46 :: ds.map digit) =
      some (.decimal false (digitsValue ((d :: ds).map digit)) (0 - (ds.length : Int))) := by
  have hall : ∀ b ∈ ds.map digit, isAsciiDigit b = true := by
    intro b hb
    obtain ⟨d, -, rfl⟩ := List.mem_map.mp hb
    exact isAsciiDigit_digit d
  have htake : (ds.map digit).takeWhile isAsciiDigit = ds.map digit :=
    List.takeWhile_eq_self_iff.mpr hall
  have hdrop : (ds.map digit).dropWhile isAsciiDigit = [] := List.dropWhile_eq_nil_iff.mpr hall
  have hnumber : parseNumber false (digit d :: 46 :: ds.map digit) =
      some (.decimal false (digitsValue ((d :: ds).map digit)) (0 - (ds.length : Int))) := by
    have hpoint : isAsciiDigit 46 = false := by decide
    simp [parseNumber, isAsciiDigit_digit, hpoint, htake, hdrop, parseExponent]
  obtain hd | hd := hd <;> rw [hd] at hnumber ⊢ <;> exact hnumber

theorem parseF32_weight (q : QValue) :
    ∃ f, parseF32 q.render = some f ∧ f.isPositive = !q.isZero := by
  have hvalue : ∀ (d : Fin 10) (ds : List (Fin 10)),
      0 < digitsValue ((d :: ds).map digit) ↔ d ≠ 0 ∨ ∃ d ∈ ds, d ≠ 0 := by
    intro d ds
    rw [digitsValue, digits_pos_iff]
    simp
  cases q with
  | zero => exact ⟨.decimal false 0 (0 - (0 : Nat)), rfl, isPositive_decimal 0 0 (by decide)⟩
  | one => exact ⟨.decimal false 1 (0 - (0 : Nat)), rfl, isPositive_decimal 1 0 (by decide)⟩
  | zeroPoint decimals =>
    refine ⟨_, parseF32_point 0 decimals.digits (Or.inl rfl), ?_⟩
    rw [isPositive_decimal _ _ decimals.bound, Bool.eq_iff_iff,
      decide_eq_true_iff, hvalue 0 decimals.digits]
    simp [QValue.isZero]
  | onePoint zeros =>
    have hrender :
      (QValue.onePoint zeros).render = digit 1 :: 46 :: (List.replicate zeros 0).map digit := by
      rw [List.map_replicate]
      rfl
    rw [hrender]
    refine ⟨_, parseF32_point 1 (List.replicate zeros 0) (Or.inr rfl), ?_⟩
    rw [isPositive_decimal _ _ (by rw [List.length_replicate]; omega),
      Bool.eq_iff_iff, decide_eq_true_iff,
      hvalue 1 _]
    simp [QValue.isZero]

end Weight

section Range

theorem trim_render {α : Type} {render : α → Bytes} (p : Padded α) (h : render p.item ⊆ itemBytes) :
    trim (p.render render) = render p.item := p.strip h

theorem stripPrefix_parameter (p : Parameter) : stripPrefix (text "q=") p.render = none := by
  have hequals : (61 : UInt8) ∉ tokenBytes := by decide
  rw [stripPrefix, if_neg]
  intro hprefix
  obtain ⟨rest, hrest⟩ := List.isPrefixOf_iff_prefix.mp hprefix
  cases hname : p.name.bytes with
  | nil => exact p.name.nonempty hname
  | cons b name =>
    rw [Parameter.render, hname, show text "q=" = [113, 61] by decide] at hrest
    cases name with
    | nil =>
      apply p.reserved
      rw [hname, ← (List.cons.inj hrest).1]
      decide
    | cons c name =>
      have hc : 61 = c := (List.cons.inj (List.cons.inj hrest).2).1
      exact hequals (hc ▸ p.name.valid c (by rw [hname]; simp))

theorem stripPrefix_weight (w : Weight) :
    stripPrefix (text "q=") w.render = if w.upper then none else some w.value.render := by
  rw [stripPrefix, show text "q=" = [113, 61] by decide, Weight.render]
  cases w.upper <;> simp [List.isPrefixOf]

theorem qualities_suffixes (r : MediaRange) :
    (r.suffixes.filterMap fun field => stripPrefix (text "q=") (trim field)) =
      (r.weight.bind fun w => if w.item.upper then none else some w.item.value.render).toList := by
  have hparameter : ∀ p : Padded (Option Parameter),
      stripPrefix (text "q=") (trim (p.render MediaRange.renderParameter)) = none := by
    intro p
    rw [trim_render p (MediaRange.renderParameter_subset p.item)]
    cases p.item with
    | none => decide
    | some parameter => exact stripPrefix_parameter parameter
  have hparameters : (r.parameters.map (Padded.render MediaRange.renderParameter)).filterMap
      (fun field => stripPrefix (text "q=") (trim field)) = [] := by
    rw [List.filterMap_map, List.filterMap_eq_nil_iff]
    exact fun p _ => hparameter p
  rw [MediaRange.suffixes, List.filterMap_append, hparameters, List.nil_append]
  cases r.weight with
  | none => rfl
  | some w =>
    have hw : stripPrefix (text "q=") (trim (w.render Weight.render)) =
        if w.item.upper then none else some w.item.value.render := by
      rw [trim_render w w.item.render_subset, stripPrefix_weight]
    simp only [Option.map_some, Option.toList_some, List.filterMap_cons, hw, Option.bind_some]
    cases w.item.upper <;> rfl

/-- What `accepts_html` makes of one range: the type must be in lower case,
and a weight whose name is not counts as absent. -/
def Seen (s : MediaType × Option Weight) : Prop :=
  s.1.render ∈ htmlTypes ∧ ∀ w ∈ s.2, w.upper ∨ w.value.isZero = false

theorem acceptsMediaRange_render (r : MediaRange) :
    acceptsMediaRange r.render = true ↔ Seen r.spelling := by
  have hfields : r.render.splitOn semicolon = r.mediaType.render MediaType.render :: r.suffixes :=
    r.splitOn_render
  have hweight : ((r.weight.bind fun w =>
    if w.item.upper then none else some w.item.value.render).toList.findSome?
      parseF32).all F32.isPositive = true ↔
        ∀ w ∈ r.weight.map Padded.item, w.upper ∨ w.value.isZero = false := by
    cases r.weight with
    | none => simp
    | some w =>
      obtain ⟨f, hf, hpositive⟩ := parseF32_weight w.item.value
      cases hupper : w.item.upper with
      | true => simp [hupper]
      | false => simp [hupper, hf, hpositive]
  rw [acceptsMediaRange, hfields]
  simp only [List.headD_cons, List.tail_cons, qualities_suffixes,
    trim_render r.mediaType r.mediaType.item.render_subset,
    Bool.and_eq_true, hweight, Bool.or_eq_true, beq_iff_eq]
  rw [and_comm]
  simp [Seen, MediaRange.spelling, htmlTypes]

theorem acceptsMediaRange_empty (blank : Blank) : acceptsMediaRange blank.bytes = false := by
  have hsplit : blank.bytes.splitOn semicolon = [blank.bytes] := by
    apply List.splitOn_eq_singleton
    intro hm
    exact absurd (blank.valid _ hm) (by decide)
  have htrim : trim blank.bytes = [] := by
    have h : trim ((⟨blank, [], .none⟩ : Padded Bytes).render id) = [] :=
      trim_render _ (List.nil_subset _)
    simpa [Padded.render, Blank.none] using h
  rw [acceptsMediaRange, hsplit]
  simp only [List.headD_cons, htrim]
  rw [Bool.and_eq_false_iff]
  exact Or.inr (by decide)

end Range

section Headers

variable {headers : HeaderMap} {lines : List FieldLine}

theorem toStr_render (l : FieldLine) : HeaderValue.toStr l.render = some l.render := by
  have hvisible :
    ((44 :: 59 :: fieldBytes).all fun b => decide (32 ≤ b ∧ b < 127 ∨ b = 9)) = true := by decide
  rw [HeaderValue.toStr, if_pos]
  rw [List.all_eq_true] at hvisible ⊢
  exact fun b hb => hvisible b (l.render_subset hb)

theorem acceptsHtml_iff (h : headers.getAll .accept = lines.map FieldLine.render) :
    acceptsHtml headers = true ↔ ∃ r ∈ ranges lines, Seen r.spelling := by
  have helement : ∀ e : Element, acceptsMediaRange e.render = true ↔
      ∃ r, e.toRange = some r ∧ Seen r.spelling := by
    intro e
    cases e with
    | empty blank => simp [Element.render, Element.toRange, acceptsMediaRange_empty]
    | range r => simp [Element.render, Element.toRange, acceptsMediaRange_render]
  have hline : ∀ l : FieldLine, (l.render.splitOn comma).any acceptsMediaRange = true ↔
      ∃ e ∈ l.elements, ∃ r, e.toRange = some r ∧ Seen r.spelling := by
    intro l
    rw [show comma = 44 from rfl, l.splitOn_render, List.any_map, List.any_eq_true]
    exact exists_congr fun e => and_congr_right fun _ => helement e
  have hvalues :
    (headers.getAll .accept).filterMap HeaderValue.toStr = lines.map FieldLine.render := by
    simp [h, toStr_render]
  rw [acceptsHtml, hvalues, List.any_map, List.any_eq_true]
  simp only [Function.comp_apply, hline, ranges, List.mem_flatMap, List.mem_filterMap]
  constructor
  · rintro ⟨l, hl, e, he, r, hr, hseen⟩
    exact ⟨r, ⟨l, hl, e, he, hr⟩, hseen⟩
  · rintro ⟨r, ⟨l, hl, e, he, hr⟩, hseen⟩
    exact ⟨l, hl, e, he, r, hr, hseen⟩

theorem lower_htmlTypes {name : Bytes} (h : name ∈ htmlTypes) : name.map lower = name := by
  have hall : ∀ name ∈ htmlTypes, name.map lower = name := by decide
  exact hall name h

theorem InLowerCase.isHtml {r : MediaRange} (h : InLowerCase r) : IsHtml r := by
  rw [IsHtml, MediaRange.typeName, lower_htmlTypes h]
  exact h

theorem asksForHtml_iff : AsksForHtml lines ↔ Plain lines ∨ Overlooked lines := by
  constructor
  · rintro ⟨r, hr, hhtml, hacceptable⟩
    by_cases hcase : InLowerCase r
    · exact Or.inl ⟨r, hr, hcase, hacceptable⟩
    · exact Or.inr ⟨r, hr, hhtml, hcase, hacceptable⟩
  · rintro (⟨r, hr, hcase, hacceptable⟩ | ⟨r, hr, hhtml, -, hacceptable⟩)
    · exact ⟨r, hr, hcase.isHtml, hacceptable⟩
    · exact ⟨r, hr, hhtml, hacceptable⟩

/-- A range that is seen is acceptable, or its weight is misread. -/
theorem seen_iff (r : MediaRange) : Seen r.spelling ↔ InLowerCase r ∧ r.acceptable ∨
    InLowerCase r ∧ ∃ w ∈ r.weight, w.item.upper ∧ w.item.value.isZero := by
  rw [Seen, ← and_or_left]
  refine and_congr_right fun _ => ?_
  rw [MediaRange.acceptable, MediaRange.spelling]
  cases r.weight with
  | none => simp
  | some w => cases hzero : w.item.value.isZero <;> simp [hzero]

theorem acceptsHtml_plain_or_misread (h : headers.getAll .accept = lines.map FieldLine.render) :
    acceptsHtml headers = true ↔ Plain lines ∨ Misread lines := by
  rw [acceptsHtml_iff h]
  simp only [seen_iff, and_or_left, exists_or]
  rfl

theorem acceptsHtml_spelling (h : headers.getAll .accept = lines.map FieldLine.render) :
    acceptsHtml headers = true ↔ ∃ s ∈ (ranges lines).map MediaRange.spelling, Seen s := by
  rw [acceptsHtml_iff h]
  simp only [List.mem_map, exists_exists_and_eq_and]

theorem asksForHtml_meaning :
    AsksForHtml lines ↔ ∃ m ∈ (ranges lines).map MediaRange.meaning, m.1 ∈ htmlTypes ∧ m.2 := by
  simp only [List.mem_map, exists_exists_and_eq_and]
  rfl

theorem readAsMeant_iff (h : headers.getAll .accept = lines.map FieldLine.render) :
    (acceptsHtml headers = true ↔ AsksForHtml lines) ↔ ReadAsMeant lines := by
  rw [acceptsHtml_plain_or_misread h, asksForHtml_iff, ReadAsMeant]
  tauto

end Headers

/-- `accepts_html` answers as the grammar of `Accept` has it exactly when no
upper case letter misleads it. Order, whitespace, parameters and field lines
never matter. -/
theorem accepts_html_iff {headers : HeaderMap} {lines : List FieldLine}
    (h : headers.getAll .accept = lines.map FieldLine.render) :
    ((acceptsHtml headers = true ↔ AsksForHtml lines) ↔ ReadAsMeant lines) ∧
    ∀ (headers' : HeaderMap) (lines' : List FieldLine),
      headers'.getAll .accept = lines'.map FieldLine.render →
      (((ranges lines).map MediaRange.spelling).Perm ((ranges lines').map MediaRange.spelling) ∨
        ReadAsMeant lines ∧ ReadAsMeant lines' ∧
          ((ranges lines).map MediaRange.meaning).Perm ((ranges lines').map MediaRange.meaning)) →
      acceptsHtml headers' = acceptsHtml headers := by
  refine ⟨readAsMeant_iff h, fun headers' lines' h' hsame => Bool.eq_iff_iff.mpr ?_⟩
  obtain hspelling | ⟨hread, hread', hmeaning⟩ := hsame
  · rw [acceptsHtml_spelling h, acceptsHtml_spelling h']
    exact exists_congr fun s => and_congr_left fun _ => hspelling.mem_iff.symm
  · rw [(readAsMeant_iff h).mpr hread, (readAsMeant_iff h').mpr hread',
      asksForHtml_meaning, asksForHtml_meaning]
    exact exists_congr fun m => and_congr_left fun _ => hmeaning.mem_iff.symm

def htmlRange : MediaRange where
  mediaType :=
    ⟨.none, ⟨.ofBytes (text "text") (by decide), .ofBytes (text "html") (by decide)⟩, .space⟩
  parameters :=
    [⟨.space, some ⟨.ofBytes (text "charset") (by decide), .ofBytes (text "utf-8") (by decide),
    by decide⟩, .none⟩]
  weight := none

def jsonRange : MediaRange where
  mediaType :=
    ⟨.space, ⟨.ofBytes (text "application") (by decide), .ofBytes (text "json") (by decide)⟩, .none⟩
  parameters := []
  weight := some (.bare ⟨true, .zeroPoint ⟨[⟨5, by decide⟩], by decide⟩⟩)

def acceptHeaders (value : String) : HeaderMap := (∅ : HeaderMap).insert .accept (text value)

/-- A type in lower case decides, whatever stands beside it. -/
theorem accepts_html_iff_plain :
    acceptsHtml (acceptHeaders "text/html ; charset=utf-8, application/json;Q=0.5") = true ∧
      AsksForHtml [⟨.range htmlRange, [.range jsonRange]⟩] := by
  have hlines : (acceptHeaders "text/html ; charset=utf-8, application/json;Q=0.5").getAll .accept =
      [⟨.range htmlRange, [.range jsonRange]⟩].map FieldLine.render := by decide +kernel
  obtain ⟨hread, -⟩ := accepts_html_iff hlines
  have hplain : Plain [⟨.range htmlRange, [.range jsonRange]⟩] :=
    ⟨htmlRange, by simp [ranges, FieldLine.elements, Element.toRange],
      by unfold InLowerCase; decide +kernel, rfl⟩
  have hasks : AsksForHtml [⟨.range htmlRange, [.range jsonRange]⟩] :=
    asksForHtml_iff.mpr (Or.inl hplain)
  exact ⟨(hread.mpr (Or.inl hplain)).mpr hasks, hasks⟩

def shoutedRange : MediaRange where
  mediaType := .bare ⟨.ofBytes (text "TEXT") (by decide), .ofBytes (text "HTML") (by decide)⟩
  parameters := []
  weight := none

def refusedRange : MediaRange where
  mediaType := .bare ⟨.ofBytes (text "text") (by decide), .ofBytes (text "html") (by decide)⟩
  parameters := []
  weight := some (.bare ⟨true, .zero⟩)

/-- A type in upper case is overlooked, and a refusal with its weight in upper
case is taken for consent. -/
theorem upper_case_misleads :
    (acceptHeaders "TEXT/HTML").getAll .accept = [(⟨.range shoutedRange, []⟩ : FieldLine).render] ∧
    AsksForHtml [⟨.range shoutedRange, []⟩] ∧ acceptsHtml (acceptHeaders "TEXT/HTML") = false ∧
    (acceptHeaders "text/html;Q=0").getAll .accept =
    [(⟨.range refusedRange, []⟩ : FieldLine).render] ∧
    ¬ AsksForHtml [⟨.range refusedRange, []⟩] ∧
    acceptsHtml (acceptHeaders "text/html;Q=0") = true := by
  refine ⟨by decide +kernel, ?_, by decide +kernel, by decide +kernel, ?_, by decide +kernel⟩
  · exact ⟨shoutedRange, by simp [ranges, FieldLine.elements, Element.toRange],
      by unfold IsHtml; decide +kernel, rfl⟩
  · rintro ⟨r, hr, -, hacceptable⟩
    obtain rfl : r = refusedRange := by simpa [ranges, FieldLine.elements, Element.toRange] using hr
    revert hacceptable
    decide

end LeptosWasi.Negotiation
