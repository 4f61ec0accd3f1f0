import Mathlib.Data.List.TakeWhile
import LeptosWasi.Library.Split
import LeptosWasi.Policy

namespace LeptosWasi.ContentLengthPolicy

open Http Policy

def lineItems (line : HeaderValue) : List Bytes := (line.splitOn comma).map trim

def lengthItems (headers : HeaderMap) : List Bytes :=
  (headers.getAll .contentLength).flatMap lineItems

structure Denotes (item : Bytes) (n : Nat) : Prop where
  nonempty : item ≠ []
  digits : item.all isAsciiDigit
  value : digitsValue item = n
  bound : n < 2 ^ 64

/-- The headers agree on a declared length. -/
structure Declares (headers : HeaderMap) (n : Nat) : Prop where
  present : headers.getAll .contentLength ≠ []
  visible : ∀ line ∈ headers.getAll .contentLength, (HeaderValue.toStr line).isSome
  agree : ∀ item ∈ lengthItems headers, Denotes item n

theorem Denotes.unique {item : Bytes} {n m : Nat}
    (hn : Denotes item n) (hm : Denotes item m) : n = m := by
  rw [← hn.value, ← hm.value]

section Loops

variable {α : Type} {f : Option Nat → List α → Except RequestPolicyError (Option Nat)}
  {P : α → Nat → Prop}

theorem agreeing_loop (hnil : ∀ parsed, f parsed [] = .ok parsed)
    (hcons : ∀ parsed x xs r, f parsed (x :: xs) = .ok r ↔
      ∃ n, P x n ∧ (∀ m ∈ parsed, m = n) ∧ f (some n) xs = .ok r)
    (parsed : Option Nat) (xs : List α) (r : Option Nat) :
    f parsed xs = .ok r ↔
      (xs = [] ∧ r = parsed) ∨
        (xs ≠ [] ∧ ∃ n, r = some n ∧ (∀ m ∈ parsed, m = n) ∧ ∀ x ∈ xs, P x n) := by
  induction xs generalizing parsed with
  | nil =>
    rw [hnil, Except.ok.injEq]
    simp [eq_comm]
  | cons x xs ih =>
    rw [hcons]
    constructor
    · rintro ⟨n, hx, hparsed, hrest⟩
      refine Or.inr ⟨List.cons_ne_nil x xs, n, ?_⟩
      obtain ⟨rfl, hr⟩ | ⟨-, k, hr, hk, hall⟩ := (ih _).mp hrest
      · exact ⟨hr, hparsed, by simpa using hx⟩
      · obtain rfl := hk n rfl
        exact ⟨hr, hparsed, List.forall_mem_cons.mpr ⟨hx, hall⟩⟩
    · rintro (⟨h, -⟩ | ⟨-, n, hr, hparsed, hall⟩)
      · cases h
      · obtain ⟨hx, hxs⟩ := List.forall_mem_cons.mp hall
        refine ⟨n, hx, hparsed, (ih _).mpr ?_⟩
        by_cases hnil' : xs = []
        · exact Or.inl ⟨hnil', hr⟩
        · exact Or.inr ⟨hnil', n, hr, by simp, hxs⟩

end Loops

theorem error_ne_ok {ε α : Type} {e : ε} {a : α} : (Except.error e : Except ε α) ≠ .ok a := by
  intro h
  cases h

theorem parseU64_eq_some_iff (item : Bytes) (n : Nat) :
    parseU64 item = some n ↔ digitsValue item = n ∧ n < 2 ^ 64 := by
  rw [parseU64]
  split_ifs with h
  · rw [Option.some.injEq]
    exact ⟨fun he => ⟨he, he ▸ h⟩, And.left⟩
  · refine iff_of_false not_false ?_
    rintro ⟨he, hn⟩
    exact h (he ▸ hn)

theorem parseLengthItems_cons (parsed : Option Nat)
    (item : Bytes) (rest : List Bytes) (r : Option Nat) :
    parseLengthItems parsed (item :: rest) = .ok r ↔
      ∃ n, Denotes (trim item) n ∧ (∀ m ∈ parsed, m = n) ∧
        parseLengthItems (some n) rest = .ok r := by
  rw [parseLengthItems]
  by_cases hdigits : trim item = [] ∨ (!(trim item).all isAsciiDigit) = true
  · rw [if_pos hdigits]
    refine iff_of_false error_ne_ok ?_
    rintro ⟨n, hn, -⟩
    obtain h | h := hdigits
    · exact hn.nonempty h
    · rw [hn.digits] at h
      cases h
  · rw [if_neg hdigits]
    simp only [not_or, Bool.not_eq_true', Bool.not_eq_false] at hdigits
    cases hp : parseU64 (trim item) with
    | none =>
      refine iff_of_false error_ne_ok ?_
      rintro ⟨n, hn, -⟩
      rw [(parseU64_eq_some_iff (trim item) n).mpr ⟨hn.value, hn.bound⟩] at hp
      cases hp
    | some n =>
      obtain ⟨hvalue, hbound⟩ := (parseU64_eq_some_iff (trim item) n).mp hp
      have hn : Denotes (trim item) n := ⟨hdigits.1, hdigits.2, hvalue, hbound⟩
      have hconflict : parsed.any (· ≠ n) = true ↔ ¬ ∀ m ∈ parsed, m = n := by
        simp [Option.any_eq_true]
      simp only
      split_ifs with hc
      · refine iff_of_false not_false ?_
        rintro ⟨k, hk, hm, -⟩
        obtain rfl := hn.unique hk
        exact hconflict.mp hc hm
      · rw [hconflict, not_not] at hc
        constructor
        · exact fun h => ⟨n, hn, hc, h⟩
        · rintro ⟨k, hk, -, hr⟩
          rwa [hn.unique hk]

theorem parseLengthItems_ok_iff (parsed : Option Nat) (items : List Bytes) (r : Option Nat) :
    parseLengthItems parsed items = .ok r ↔
      (items = [] ∧ r = parsed) ∨
        (items ≠ [] ∧ ∃ n, r = some n ∧ (∀ m ∈ parsed, m = n) ∧
          ∀ item ∈ items, Denotes (trim item) n) :=
  agreeing_loop (fun _ => rfl) parseLengthItems_cons parsed items r

/-- What one field line must be for the length it declares. -/
def LineDeclares (line : HeaderValue) (n : Nat) : Prop :=
  (HeaderValue.toStr line).isSome ∧ ∀ item ∈ lineItems line, Denotes item n

theorem parseLengthLines_cons (parsed : Option Nat) (line : HeaderValue) (rest : List HeaderValue)
    (r : Option Nat) :
    parseLengthLines parsed (line :: rest) = .ok r ↔
      ∃ n, LineDeclares line n ∧ (∀ m ∈ parsed, m = n) ∧
        parseLengthLines (some n) rest = .ok r := by
  rw [parseLengthLines]
  cases hline : HeaderValue.toStr line with
  | none =>
    refine iff_of_false error_ne_ok ?_
    rintro ⟨n, hn, -⟩
    have hvisible := hn.1
    rw [hline] at hvisible
    cases hvisible
  | some value =>
    obtain rfl := HeaderValue.toStr_eq_self hline
    have hdeclares : ∀ n, LineDeclares value n ↔
      ∀ piece ∈ value.splitOn comma, Denotes (trim piece) n :=
      fun n => by simp [LineDeclares, lineItems, hline]
    have hitems := parseLengthItems_ok_iff parsed (value.splitOn comma)
    simp only [List.splitOn_ne_nil, false_and, false_or, ne_eq, not_false_eq_true, true_and]
      at hitems
    cases hp : parseLengthItems parsed (value.splitOn comma) with
    | error e =>
      simp only [hp, bind, Except.bind]
      refine iff_of_false error_ne_ok ?_
      rintro ⟨n, hn, hm, -⟩
      rw [(hitems (some n)).mpr ⟨n, rfl, hm, (hdeclares n).mp hn⟩] at hp
      cases hp
    | ok parsed' =>
      obtain ⟨n, rfl, hm, hall⟩ := (hitems parsed').mp hp
      simp only [hp, bind, Except.bind]
      constructor
      · exact fun h => ⟨n, (hdeclares n).mpr hall, hm, h⟩
      · rintro ⟨k, hk, hmk, hr⟩
        rw [(hitems (some k)).mpr ⟨k, rfl, hmk, (hdeclares k).mp hk⟩] at hp
        obtain rfl := Option.some.inj (Except.ok.inj hp)
        exact hr

theorem parseLengthLines_ok_iff (parsed : Option Nat) (lines : List HeaderValue) (r : Option Nat) :
    parseLengthLines parsed lines = .ok r ↔
      (lines = [] ∧ r = parsed) ∨
        (lines ≠ [] ∧ ∃ n, r = some n ∧ (∀ m ∈ parsed, m = n) ∧
          ∀ line ∈ lines, LineDeclares line n) :=
  agreeing_loop (fun _ => rfl) parseLengthLines_cons parsed lines r

theorem lineDeclares_iff {headers : HeaderMap} {n : Nat}
    (hpresent : headers.getAll .contentLength ≠ []) :
    (∀ line ∈ headers.getAll .contentLength, LineDeclares line n) ↔ Declares headers n := by
  constructor
  · intro h
    refine ⟨hpresent, fun line hline => (h line hline).1, fun item hitem => ?_⟩
    obtain ⟨line, hline, hi⟩ := List.mem_flatMap.mp hitem
    exact (h line hline).2 item hi
  · intro h line hline
    exact ⟨h.visible line hline,
      fun item hi => h.agree item (List.mem_flatMap.mpr ⟨line, hline, hi⟩)⟩

theorem parseLengthLines_some_iff (headers : HeaderMap) (n : Nat) :
    parseLengthLines none (headers.getAll .contentLength) = .ok (some n) ↔ Declares headers n := by
  rw [parseLengthLines_ok_iff]
  constructor
  · rintro (⟨-, h⟩ | ⟨hpresent, k, hk, -, hall⟩)
    · cases h
    · obtain rfl := Option.some.inj hk
      exact (lineDeclares_iff hpresent).mp hall
  · intro h
    exact Or.inr ⟨h.present, n, rfl, by simp, (lineDeclares_iff h.present).mpr h⟩

theorem parseLengthLines_none_iff (headers : HeaderMap) :
    parseLengthLines none (headers.getAll .contentLength) = .ok none ↔
      headers.getAll .contentLength = [] := by
  rw [parseLengthLines_ok_iff]
  simp

theorem lineItems_ne_nil (line : HeaderValue) : lineItems line ≠ [] := by
  rw [lineItems, ne_eq, List.map_eq_nil_iff]
  exact List.splitOn_ne_nil _ _

theorem lengthItems_eq_nil_iff (headers : HeaderMap) :
    lengthItems headers = [] ↔ headers.getAll .contentLength = [] := by
  rw [lengthItems, List.flatMap_eq_nil_iff]
  constructor
  · intro h
    exact List.eq_nil_iff_forall_not_mem.mpr fun line hline => lineItems_ne_nil line (h line hline)
  · intro h line hline
    rw [h] at hline
    cases hline

theorem mem_dropWhile_or {p : UInt8 → Bool} {s : Bytes} {b : UInt8} (h : b ∈ s) :
    p b = true ∨ b ∈ s.dropWhile p := by
  rw [← List.takeWhile_append_dropWhile (p := p) (l := s), List.mem_append] at h
  exact h.imp_left fun hb => List.mem_takeWhile_imp hb

theorem isBlank_or_mem_trim {s : Bytes} {b : UInt8} (h : b ∈ s) :
    isBlank b = true ∨ b ∈ trim s := by
  obtain hb | hb := mem_dropWhile_or (p := isBlank) h
  · exact Or.inl hb
  · rw [trim, List.mem_reverse]
    exact mem_dropWhile_or (List.mem_reverse.mpr hb)

theorem toStr_of_denotes {line : HeaderValue} {n : Nat}
    (h : ∀ item ∈ lineItems line, Denotes item n) :
    (HeaderValue.toStr line).isSome := by
  rw [HeaderValue.toStr, if_pos]
  · rfl
  rw [List.all_eq_true]
  intro b hb
  have hparts : b ∈ [comma].intercalate (line.splitOn comma) := by rwa [List.intercalate_splitOn]
  obtain rfl | ⟨piece, hpiece, hb⟩ := Split.mem_intercalate hparts
  · decide
  · obtain hblank | htrim := isBlank_or_mem_trim hb
    · simp only [isBlank, Bool.or_eq_true, beq_iff_eq] at hblank
      obtain rfl | rfl := hblank <;> decide
    · have hdigits := (h (trim piece) (List.mem_map_of_mem hpiece)).digits
      have hdigit := List.all_eq_true.mp hdigits b htrim
      simp only [isAsciiDigit, decide_eq_true_eq, UInt8.le_iff_toNat_le, UInt8.lt_iff_toNat_lt]
        at hdigit ⊢
      have h48 : (48 : UInt8).toNat = 48 := rfl
      have h57 : (57 : UInt8).toNat = 57 := rfl
      have h32 : (32 : UInt8).toNat = 32 := rfl
      have h127 : (127 : UInt8).toNat = 127 := rfl
      omega

/-- The declared length is a matter of the items, not of the lines they are
spread over. -/
theorem declares_iff_items (headers : HeaderMap) (n : Nat) :
    Declares headers n ↔ lengthItems headers ≠ [] ∧
    ∀ item ∈ lengthItems headers, Denotes item n := by
  rw [ne_eq, lengthItems_eq_nil_iff]
  refine ⟨fun h => ⟨h.present, h.agree⟩,
    fun ⟨hpresent, hagree⟩ => ⟨hpresent, fun line hline => ?_, hagree⟩⟩
  exact toStr_of_denotes fun item hi => hagree item (List.mem_flatMap.mpr ⟨line, hline, hi⟩)

theorem declares_congr {headers other : HeaderMap}
    (hitems : ∀ item, item ∈ lengthItems other ↔ item ∈ lengthItems headers) (n : Nat) :
    Declares other n ↔ Declares headers n := by
  rw [declares_iff_items, declares_iff_items]
  refine and_congr (not_congr ?_) (forall_congr' fun item => imp_congr_left (hitems item))
  simp only [List.eq_nil_iff_forall_not_mem, hitems]

theorem Declares.unique {headers : HeaderMap} {n m : Nat} (hn : Declares headers n)
    (hm : Declares headers m) : n = m := by
  obtain ⟨item, hitem⟩ := List.exists_mem_of_ne_nil _ ((declares_iff_items headers n).mp hn).1
  exact (hn.agree item hitem).unique (hm.agree item hitem)

theorem validateContentLengthFor_cases (bits : Nat) (headers : HeaderMap) {limit : Nat}
    (hlimit : limit < 2 ^ bits) :
    (headers.getAll .contentLength = [] ∧ validateContentLengthFor bits headers limit = .ok none) ∨
    (∃ n, Declares headers n ∧ validateContentLengthFor bits headers limit =
      if limit < n then .error (.bodyTooLarge limit) else .ok (some n)) ∨
    (headers.getAll .contentLength ≠ [] ∧ (∀ n, ¬ Declares headers n) ∧
      ∃ e : RequestPolicyError, e.status = .badRequest ∧
        validateContentLengthFor bits headers limit = .error e) := by
  rw [validateContentLengthFor]
  cases hparsed : parseLengthLines none (headers.getAll .contentLength) with
  | error e =>
    refine Or.inr (Or.inr ⟨fun hnil => ?_, fun n hn => ?_, e, parseLengthLines_error hparsed, rfl⟩)
    · rw [(parseLengthLines_none_iff headers).mpr hnil] at hparsed
      cases hparsed
    · rw [(parseLengthLines_some_iff headers n).mpr hn] at hparsed
      cases hparsed
  | ok parsed =>
    cases parsed with
    | none => exact Or.inl ⟨(parseLengthLines_none_iff headers).mp hparsed, rfl⟩
    | some n =>
      refine Or.inr (Or.inl ⟨n, (parseLengthLines_some_iff headers n).mp hparsed, ?_⟩)
      by_cases hn : limit < n
      · rw [if_pos hn]
        simp only [bind, Except.bind, Option.any_some, hn, decide_true, if_true]
        rfl
      · -- The number fits the width of a length because the limit does.
        have hfits : usizeTryFrom bits n = some n := if_pos (by omega)
        rw [if_neg hn]
        simp only [bind, Except.bind, Option.any_some,
          hn, decide_false, Bool.false_eq_true, if_false,
          Option.map_some, hfits, Option.getD_some]
        rfl

section Outcome

variable {bits : Nat} {headers : HeaderMap} {limit : Nat}

theorem validateContentLengthFor_none_iff (hlimit : limit < 2 ^ bits) :
    validateContentLengthFor bits headers limit = .ok none ↔
    headers.getAll .contentLength = [] := by
  obtain ⟨hnil, h⟩ | ⟨n, hn, h⟩ | ⟨hpresent, -, e, -, h⟩ :=
    validateContentLengthFor_cases bits headers hlimit
  · exact iff_of_true h hnil
  · refine iff_of_false (fun hok => ?_) hn.present
    rw [h] at hok
    split_ifs at hok
    cases hok
  · refine iff_of_false (fun hok => ?_) hpresent
    rw [h] at hok
    cases hok

theorem validateContentLengthFor_some_iff (hlimit : limit < 2 ^ bits) (n : Nat) :
    validateContentLengthFor bits headers limit = .ok (some n) ↔
    Declares headers n ∧ n ≤ limit := by
  obtain ⟨hnil, h⟩ | ⟨k, hk, h⟩ | ⟨-, hno, e, -, h⟩ :=
    validateContentLengthFor_cases bits headers hlimit
  · refine iff_of_false (fun hok => ?_) fun hn => hn.1.present hnil
    rw [h] at hok
    cases hok
  · rw [h]
    split_ifs with hover
    · refine iff_of_false (fun hok => nomatch hok) fun ⟨hn, hle⟩ => ?_
      rw [hk.unique hn] at hover
      omega
    · constructor
      · intro hok
        obtain rfl := Option.some.inj (Except.ok.inj hok)
        exact ⟨hk, Nat.le_of_not_lt hover⟩
      · rintro ⟨hn, -⟩
        rw [hk.unique hn]
  · refine iff_of_false (fun hok => ?_) fun hn => hno n hn.1
    rw [h] at hok
    cases hok

theorem validateContentLengthFor_tooLarge_iff (hlimit : limit < 2 ^ bits) (reported : Nat) :
    validateContentLengthFor bits headers limit = .error (.bodyTooLarge reported) ↔
      reported = limit ∧ ∃ n, Declares headers n ∧ limit < n := by
  obtain ⟨hnil, h⟩ | ⟨k, hk, h⟩ | ⟨-, hno, e, he, h⟩ :=
    validateContentLengthFor_cases bits headers hlimit
  · refine iff_of_false (fun herr => ?_) fun ⟨_, n, hn, _⟩ => hn.present hnil
    rw [h] at herr
    cases herr
  · rw [h]
    split_ifs with hover
    · refine ⟨fun herr => ?_, fun ⟨hr, _⟩ => by rw [hr]⟩
      cases herr
      exact ⟨rfl, k, hk, hover⟩
    · refine iff_of_false (fun herr => nomatch herr) fun ⟨_, n, hn, hlt⟩ => hover ?_
      rwa [hk.unique hn]
  · refine iff_of_false (fun herr => ?_) fun ⟨_, n, hn, _⟩ => hno n hn
    rw [h] at herr
    cases herr
    have hcode : 413 = 400 := congrArg StatusCode.code he
    omega

/-- What the client sees of the check: the length it declared, or a status. -/
def outcome (bits : Nat) (headers : HeaderMap) (limit : Nat) : Except StatusCode (Option Nat) :=
  (validateContentLengthFor bits headers limit).mapError RequestPolicyError.status

theorem outcome_congr (hlimit : limit < 2 ^ bits) {other : HeaderMap}
    (hitems : ∀ item, item ∈ lengthItems other ↔ item ∈ lengthItems headers) :
    outcome bits other limit = outcome bits headers limit := by
  have hlines : other.getAll .contentLength = [] ↔ headers.getAll .contentLength = [] := by
    rw [← lengthItems_eq_nil_iff, ← lengthItems_eq_nil_iff]
    simp only [List.eq_nil_iff_forall_not_mem, hitems]
  have hdeclares := declares_congr hitems
  rw [outcome, outcome]
  obtain ⟨hnil, h⟩ | ⟨n, hn, h⟩ | ⟨hpresent, hno, e, he, h⟩ :=
    validateContentLengthFor_cases bits headers hlimit
  · rw [h, (validateContentLengthFor_none_iff hlimit).mpr (hlines.mpr hnil)]
  · rw [h]
    split_ifs with hover
    · rw [(validateContentLengthFor_tooLarge_iff hlimit limit).mpr
        ⟨rfl, n, (hdeclares n).mpr hn, hover⟩]
    · rw [(validateContentLengthFor_some_iff hlimit n).mpr
        ⟨(hdeclares n).mpr hn, Nat.le_of_not_lt hover⟩]
  · obtain ⟨hnil, -⟩ | ⟨n, hn, -⟩ | ⟨-, -, e', he', h'⟩ :=
      validateContentLengthFor_cases bits other hlimit
    · exact absurd (hlines.mp hnil) hpresent
    · exact absurd ((hdeclares n).mp hn) (hno n)
    · rw [h, h', Except.mapError, Except.mapError, he, he']

end Outcome

/-- The `Content-Length` policy, for every width of a length that holds the
limit. -/
theorem validate_content_length_iff (bits : Nat) (headers : HeaderMap) (limit : Nat)
    (hlimit : limit < 2 ^ bits) :
    (validateContentLengthFor bits headers limit = .ok none ↔ headers.getAll .contentLength = []) ∧
    (∀ n, validateContentLengthFor bits headers limit = .ok (some n) ↔
      Declares headers n ∧ n ≤ limit) ∧
    (∀ reported, validateContentLengthFor bits headers limit = .error (.bodyTooLarge reported) ↔
      reported = limit ∧ ∃ n, Declares headers n ∧ limit < n) ∧
    (headers.getAll .contentLength ≠ [] → (∀ n, ¬ Declares headers n) →
      ∃ e : RequestPolicyError, e.status = .badRequest ∧
        validateContentLengthFor bits headers limit = .error e) ∧
    (∀ other : HeaderMap, (∀ item, item ∈ lengthItems other ↔ item ∈ lengthItems headers) →
      outcome bits other limit = outcome bits headers limit) := by
  refine ⟨validateContentLengthFor_none_iff hlimit, validateContentLengthFor_some_iff hlimit,
    validateContentLengthFor_tooLarge_iff hlimit,
    fun hpresent hno => ?_, fun _ => outcome_congr hlimit⟩
  obtain ⟨hnil, -⟩ | ⟨n, hn, -⟩ | ⟨-, -, he⟩ := validateContentLengthFor_cases bits headers hlimit
  · exact absurd hnil hpresent
  · exact absurd hn (hno n)
  · exact he

def repeatedLength : HeaderMap :=
  ((∅ : HeaderMap).append .contentLength (text "5")).append .contentLength (text "005 ,5")

theorem validate_content_length_repeated :
    Declares repeatedLength 5 ∧ validateContentLengthFor 32 repeatedLength 16 = .ok (some 5) := by
  have hvalid : validateContentLengthFor 32 repeatedLength 16 = .ok (some 5) := by decide +kernel
  exact ⟨(((validate_content_length_iff 32 repeatedLength 16 (by decide)).2.1 5).mp hvalid).1,
    hvalid⟩

end LeptosWasi.ContentLengthPolicy
