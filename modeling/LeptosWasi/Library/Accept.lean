import Mathlib.Data.List.TakeWhile
import LeptosWasi.Library.Split

/-! The `Accept` field of HTTP semantics: media ranges, weights and their texts. -/

namespace Accept

def tokenBytes : List UInt8 :=
  [33, 35, 36, 37, 38, 39, 42, 43, 45, 46, 94, 95, 96, 124, 126] ++
    (List.range' 48 10 ++ List.range' 65 26 ++ List.range' 97 26).map UInt8.ofNat

def isBlank (b : UInt8) : Bool := b == 32 || b == 9

def lower (b : UInt8) : UInt8 := if 65 ≤ b ∧ b ≤ 90 then b + 32 else b

structure Token where
  bytes : List UInt8
  nonempty : bytes ≠ []
  valid : ∀ b ∈ bytes, b ∈ tokenBytes

/-- A token of given bytes, which are checked. -/
def Token.ofBytes (bytes : List UInt8)
    (h : bytes ≠ [] ∧ (bytes.all fun b => decide (b ∈ tokenBytes)) = true) : Token :=
  ⟨bytes, h.1, fun b hb => of_decide_eq_true (List.all_eq_true.mp h.2 b hb)⟩

structure Blank where
  bytes : List UInt8
  valid : ∀ b ∈ bytes, isBlank b

def Blank.none : Blank := ⟨[], by simp⟩
def Blank.space : Blank := ⟨[32], by simp [isBlank]⟩

/-- An item of a list with the optional whitespace around it. -/
structure Padded (α : Type) where
  before : Blank
  item : α
  after : Blank

def Padded.bare {α : Type} (item : α) : Padded α := ⟨.none, item, .none⟩

def Padded.render {α : Type} (text : α → List UInt8) (p : Padded α) : List UInt8 :=
  p.before.bytes ++ text p.item ++ p.after.bytes

structure MediaType where
  type : Token
  subtype : Token

def MediaType.render (t : MediaType) : List UInt8 := t.type.bytes ++ 47 :: t.subtype.bytes

/-- A parameter. The name `q` belongs to the weight. -/
structure Parameter where
  name : Token
  value : Token
  reserved : name.bytes.map lower ≠ [113]

def Parameter.render (p : Parameter) : List UInt8 := p.name.bytes ++ 61 :: p.value.bytes

def digit (d : Fin 10) : UInt8 := UInt8.ofNat (48 + d)

structure Decimals where
  digits : List (Fin 10)
  bound : digits.length ≤ 3

inductive QValue where
  | zero
  | zeroPoint (decimals : Decimals)
  | one
  | onePoint (zeros : Fin 4)

namespace QValue

def render : QValue → List UInt8
  | zero => [48]
  | zeroPoint decimals => 48 :: 46 :: decimals.digits.map digit
  | one => [49]
  | onePoint zeros => 49 :: 46 :: List.replicate zeros 48

def isZero : QValue → Bool
  | zero => true
  | zeroPoint decimals => decimals.digits.all (· == 0)
  | one | onePoint _ => false

end QValue

structure Weight where
  upper : Bool
  value : QValue

def Weight.render (w : Weight) : List UInt8 := (if w.upper then 81 else 113) :: 61 :: w.value.render

structure MediaRange where
  mediaType : Padded MediaType
  parameters : List (Padded (Option Parameter))
  weight : Option (Padded Weight)

namespace MediaRange

def renderParameter (p : Option Parameter) : List UInt8 := p.elim [] Parameter.render

def suffixes (r : MediaRange) : List (List UInt8) :=
  r.parameters.map (Padded.render renderParameter) ++
    (r.weight.map (Padded.render Weight.render)).toList

def render (r : MediaRange) : List UInt8 :=
  [59].intercalate (r.mediaType.render MediaType.render :: r.suffixes)

def typeName (r : MediaRange) : List UInt8 := r.mediaType.item.render.map lower

/-- An absent weight counts as one. -/
def acceptable (r : MediaRange) : Bool := r.weight.all fun w => !w.item.value.isZero

def spelling (r : MediaRange) : MediaType × Option Weight :=
  (r.mediaType.item, r.weight.map Padded.item)

/-- What a range says, in any case. -/
def meaning (r : MediaRange) : List UInt8 × Bool := (r.typeName, r.acceptable)

end MediaRange

/-- An element of the list of a field line, which may be empty. -/
inductive Element where
  | empty (blank : Blank)
  | range (r : MediaRange)

def Element.render : Element → List UInt8
  | .empty blank => blank.bytes
  | .range r => r.render

def Element.toRange : Element → Option MediaRange
  | .empty _ => none
  | .range r => some r

structure FieldLine where
  first : Element
  others : List Element

namespace FieldLine

def elements (l : FieldLine) : List Element := l.first :: l.others

def render (l : FieldLine) : List UInt8 := [44].intercalate (l.elements.map Element.render)

end FieldLine

def ranges (lines : List FieldLine) : List MediaRange :=
  lines.flatMap fun line => line.elements.filterMap Element.toRange

def itemBytes : List UInt8 := 47 :: 61 :: tokenBytes

section Bytes

theorem item_ne {b : UInt8} (h : b ∈ itemBytes) : b ≠ 44 ∧ b ≠ 59 ∧ isBlank b = false := by
  have hall : (itemBytes.all fun b => decide (b ≠ 44 ∧ b ≠ 59 ∧ isBlank b = false)) = true := by
    decide
  exact of_decide_eq_true (List.all_eq_true.mp hall b h)

theorem item_of_token {b : UInt8} (h : b ∈ tokenBytes) : b ∈ itemBytes :=
  List.mem_cons_of_mem _ (List.mem_cons_of_mem _ h)

theorem digit_mem (d : Fin 10) : digit d ∈ tokenBytes := by
  have hall : ∀ d : Fin 10, digit d ∈ tokenBytes := by decide
  exact hall d

theorem MediaType.render_subset (t : MediaType) : t.render ⊆ itemBytes := by
  intro b hb
  rw [MediaType.render, List.mem_append, List.mem_cons] at hb
  obtain hb | rfl | hb := hb
  · exact item_of_token (t.type.valid b hb)
  · decide
  · exact item_of_token (t.subtype.valid b hb)

theorem Parameter.render_subset (p : Parameter) : p.render ⊆ itemBytes := by
  intro b hb
  rw [Parameter.render, List.mem_append, List.mem_cons] at hb
  obtain hb | rfl | hb := hb
  · exact item_of_token (p.name.valid b hb)
  · decide
  · exact item_of_token (p.value.valid b hb)

theorem QValue.render_subset (q : QValue) : q.render ⊆ itemBytes := by
  intro b hb
  cases q with
  | zero | one =>
    obtain rfl := List.mem_singleton.mp hb
    decide
  | zeroPoint decimals =>
    rw [QValue.render, List.mem_cons, List.mem_cons] at hb
    obtain rfl | rfl | hb := hb
    · decide
    · decide
    · obtain ⟨d, -, rfl⟩ := List.mem_map.mp hb
      exact item_of_token (digit_mem d)
  | onePoint zeros =>
    rw [QValue.render, List.mem_cons, List.mem_cons] at hb
    obtain rfl | rfl | hb := hb
    · decide
    · decide
    · rw [(List.mem_replicate.mp hb).2]
      decide

theorem Weight.render_subset (w : Weight) : w.render ⊆ itemBytes := by
  intro b hb
  rw [Weight.render, List.mem_cons, List.mem_cons] at hb
  obtain rfl | rfl | hb := hb
  · cases w.upper <;> decide
  · decide
  · exact w.value.render_subset hb

end Bytes

section Split

theorem dropWhile_padded {α : Type} {p : α → Bool}
    {before xs : List α} (hbefore : ∀ a ∈ before, p a)
    (hhead : ∀ a ∈ xs.head?, p a = false) : (before ++ xs).dropWhile p = xs := by
  rw [List.dropWhile_append_of_pos hbefore]
  cases xs with
  | nil => rfl
  | cons x xs => exact List.dropWhile_cons_of_neg (by simp [hhead x rfl])

theorem strip_padded {α : Type} {p : α → Bool} {before xs after : List α}
    (hbefore : ∀ a ∈ before, p a)
    (hafter : ∀ a ∈ after, p a) (hxs : ∀ a ∈ xs, p a = false) :
    (((before ++ xs ++ after).dropWhile p).reverse.dropWhile p).reverse = xs := by
  cases xs with
  | nil =>
    have hall : ∀ a ∈ before ++ after, p a :=
      fun a ha => (List.mem_append.mp ha).elim (hbefore a) (hafter a)
    rw [List.append_nil, List.dropWhile_eq_nil_iff.mpr hall]
    rfl
  | cons x xs =>
    have hfirst : ∀ a ∈ (x :: xs ++ after).head?, p a = false := by
      rintro a ⟨rfl⟩
      exact hxs _ List.mem_cons_self
    have hlast : ∀ a ∈ (x :: xs).reverse.head?, p a = false := by
      intro a ha
      exact hxs a (List.mem_reverse.mp (List.mem_of_mem_head? ha))
    rw [List.append_assoc, dropWhile_padded hbefore hfirst, List.reverse_append,
      dropWhile_padded (fun a ha => hafter a (List.mem_reverse.mp ha)) hlast, List.reverse_reverse]

theorem Padded.strip {α : Type} {text : α → List UInt8}
    (p : Padded α) (h : text p.item ⊆ itemBytes) :
    (((p.render text).dropWhile isBlank).reverse.dropWhile isBlank).reverse = text p.item :=
  strip_padded p.before.valid p.after.valid fun _ hb => (item_ne (h hb)).2.2

def fieldBytes : List UInt8 := 9 :: 32 :: itemBytes

theorem field_of_blank {b : UInt8} (h : isBlank b = true) : b ∈ fieldBytes := by
  rw [isBlank, Bool.or_eq_true, beq_iff_eq, beq_iff_eq] at h
  obtain rfl | rfl := h <;> decide

theorem Padded.render_subset {α : Type} {text : α → List UInt8}
    (p : Padded α) (h : text p.item ⊆ itemBytes) :
    p.render text ⊆ fieldBytes := by
  intro b hb
  rw [Padded.render, List.mem_append, List.mem_append] at hb
  obtain (hb | hb) | hb := hb
  · exact field_of_blank (p.before.valid b hb)
  · exact List.mem_cons_of_mem _ (List.mem_cons_of_mem _ (h hb))
  · exact field_of_blank (p.after.valid b hb)

theorem MediaRange.renderParameter_subset (p : Option Parameter) :
    renderParameter p ⊆ itemBytes := by
  cases p with
  | none => exact List.nil_subset _
  | some p => exact p.render_subset

theorem MediaRange.field_subset (r : MediaRange) :
    ∀ field ∈ r.mediaType.render MediaType.render :: r.suffixes, field ⊆ fieldBytes := by
  intro field hf
  rw [List.mem_cons, suffixes, List.mem_append, List.mem_map,
    Option.mem_toList, Option.map_eq_some_iff] at hf
  obtain rfl | ⟨p, -, rfl⟩ | ⟨w, -, rfl⟩ := hf
  · exact r.mediaType.render_subset r.mediaType.item.render_subset
  · exact p.render_subset (renderParameter_subset p.item)
  · exact w.render_subset w.item.render_subset

theorem MediaRange.splitOn_render (r : MediaRange) :
    r.render.splitOn 59 = r.mediaType.render MediaType.render :: r.suffixes := by
  apply List.splitOn_intercalate 59 _ (List.cons_ne_nil _ _)
  intro field hf hm
  exact absurd (r.field_subset field hf hm) (by decide)

theorem Element.render_subset (e : Element) : e.render ⊆ 59 :: fieldBytes := by
  intro b hb
  cases e with
  | empty blank => exact List.mem_cons_of_mem _ (field_of_blank (blank.valid b hb))
  | range r =>
    obtain rfl | ⟨field, hf, hb⟩ := Split.mem_intercalate hb
    · exact List.mem_cons_self
    · exact List.mem_cons_of_mem _ (r.field_subset field hf hb)

theorem FieldLine.splitOn_render (l : FieldLine) :
    l.render.splitOn 44 = l.elements.map Element.render := by
  apply List.splitOn_intercalate 44 _ (by simp [elements])
  intro text ht hm
  obtain ⟨e, -, rfl⟩ := List.mem_map.mp ht
  exact absurd (e.render_subset hm) (by decide)

theorem FieldLine.render_subset (l : FieldLine) : l.render ⊆ 44 :: 59 :: fieldBytes := by
  intro b hb
  obtain rfl | ⟨text, ht, hb⟩ := Split.mem_intercalate hb
  · exact List.mem_cons_self
  · obtain ⟨e, -, rfl⟩ := List.mem_map.mp ht
    exact List.mem_cons_of_mem _ (e.render_subset hb)

end Split

end Accept
