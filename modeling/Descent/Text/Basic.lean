/-!
# Text

A text is a list of characters that knows how many bytes its UTF-8 encoding has.
Parsing measures progress in bytes and cuts at byte offsets, so the size is kept
with the characters and moves along when the text is cut: comparing the sizes of an
input and of a remainder costs nothing, however long they are.

`Text.chars` is the view every operation is described by (`chars_cons`, `chars_append`);
two texts with the same characters are equal (`Text.ext`).
-/

namespace Descent

/-! ### Bytes of characters -/

/-- The number of bytes of the UTF-8 encoding of `cs`. -/
def byteSize (cs : List Char) : Nat := cs.foldl (fun n c => n + c.utf8Size) 0

theorem foldl_utf8Size (cs : List Char) (n : Nat) :
    cs.foldl (fun n c => n + c.utf8Size) n = n + byteSize cs := by
  unfold byteSize
  induction cs generalizing n with
  | nil => simp
  | cons c cs ih => rw [List.foldl_cons, List.foldl_cons, ih, ih (0 + c.utf8Size)]; omega

@[simp] theorem byteSize_nil : byteSize [] = 0 := rfl

@[simp] theorem byteSize_cons (c : Char) (cs : List Char) :
    byteSize (c :: cs) = c.utf8Size + byteSize cs := by
  rw [byteSize, List.foldl_cons, foldl_utf8Size, Nat.zero_add]

@[simp] theorem byteSize_append (cs ds : List Char) :
    byteSize (cs ++ ds) = byteSize cs + byteSize ds := by
  induction cs with
  | nil => simp
  | cons c cs ih => simp [ih, Nat.add_assoc]

/-- Every character has at least one byte. -/
theorem length_le_byteSize (cs : List Char) : cs.length ≤ byteSize cs := by
  induction cs with
  | nil => simp
  | cons c cs ih => have := c.utf8Size_pos; simp only [byteSize_cons, List.length_cons]; omega

@[simp] theorem byteSize_eq_zero {cs : List Char} : byteSize cs = 0 ↔ cs = [] := by
  constructor
  · intro h
    exact List.eq_nil_of_length_eq_zero (by have := length_le_byteSize cs; omega)
  · rintro rfl; rfl

/-- The count is the size the string of these characters reports. -/
theorem byteSize_eq_utf8ByteSize (cs : List Char) :
    byteSize cs = (String.ofList cs).utf8ByteSize := by
  induction cs with
  | nil => simp
  | cons c cs ih =>
    rw [byteSize_cons, ih, show c :: cs = [c] ++ cs from rfl, String.ofList_append,
      String.utf8ByteSize_append, ← String.singleton_eq_ofList, String.utf8ByteSize_singleton]

/-! ### Texts -/

/-- A text: its characters, and the bytes they take. -/
structure Text where
  /-- The characters, first to last. -/
  chars : List Char
  /-- The number of bytes in UTF-8. -/
  size : Nat
  /-- The size is that of the characters. -/
  size_eq : size = byteSize chars

namespace Text

@[ext] theorem ext {s t : Text} (h : s.chars = t.chars) : s = t := by
  cases s with
  | mk cs n hn =>
    cases t with
    | mk ds m hm => subst hn hm; cases h; rfl

theorem chars_inj {s t : Text} : s.chars = t.chars ↔ s = t := ⟨ext, fun h => h ▸ rfl⟩

instance : DecidableEq Text := fun s t =>
  decidable_of_iff (s.chars == t.chars) (by rw [beq_iff_eq, chars_inj])

/-- The text of a list of characters. -/
def ofList (cs : List Char) : Text := ⟨cs, byteSize cs, rfl⟩

/-- The text of a string. -/
def ofString (s : String) : Text := ofList s.toList

/-- The string of a text. -/
protected def toString (s : Text) : String := String.ofList s.chars

instance : ToString Text := ⟨Text.toString⟩

@[simp] theorem chars_ofList (cs : List Char) : (ofList cs).chars = cs := rfl

@[simp] theorem size_ofList (cs : List Char) : (ofList cs).size = byteSize cs := rfl

@[simp] theorem ofList_chars (s : Text) : ofList s.chars = s := ext rfl

@[simp] theorem ofString_toString (s : Text) : ofString s.toString = s := by
  simp [ofString, Text.toString]

@[simp] theorem toString_ofString (s : String) : (ofString s).toString = s := by
  simp [ofString, Text.toString]

/-- The size is the one that the string of the text reports. -/
theorem size_eq_utf8ByteSize (s : Text) : s.size = s.toString.utf8ByteSize :=
  s.size_eq.trans (byteSize_eq_utf8ByteSize s.chars)

/-- The number of characters. -/
def length (s : Text) : Nat := s.chars.length

/-! ### Building texts -/

/-- The text without characters. -/
def empty : Text := ⟨[], 0, rfl⟩

instance : EmptyCollection Text := ⟨empty⟩

/-- The text of `s` behind the character `c`. -/
def cons (c : Char) (s : Text) : Text :=
  ⟨c :: s.chars, c.utf8Size + s.size, by rw [byteSize_cons, s.size_eq]⟩

/-- The text of the single character `c`. -/
def singleton (c : Char) : Text := cons c ∅

instance : Append Text where
  append s t := ⟨s.chars ++ t.chars, s.size + t.size, by rw [byteSize_append, s.size_eq, t.size_eq]⟩

@[simp] theorem chars_empty : (∅ : Text).chars = [] := rfl

@[simp] theorem size_empty : (∅ : Text).size = 0 := rfl

@[simp] theorem chars_cons (c : Char) (s : Text) : (cons c s).chars = c :: s.chars := rfl

@[simp] theorem size_cons (c : Char) (s : Text) : (cons c s).size = c.utf8Size + s.size := rfl

@[simp] theorem chars_singleton (c : Char) : (singleton c).chars = [c] := rfl

@[simp] theorem chars_append (s t : Text) : (s ++ t).chars = s.chars ++ t.chars := rfl

@[simp] theorem size_append (s t : Text) : (s ++ t).size = s.size + t.size := rfl

@[simp] theorem empty_append (s : Text) : ∅ ++ s = s := ext rfl

@[simp] theorem append_empty (s : Text) : s ++ ∅ = s := ext (List.append_nil _)

theorem append_assoc (s t u : Text) : s ++ t ++ u = s ++ (t ++ u) := ext (List.append_assoc _ _ _)

@[simp] theorem cons_append (c : Char) (s t : Text) : cons c s ++ t = cons c (s ++ t) := ext rfl

theorem append_right_inj (s : Text) {t u : Text} : s ++ t = s ++ u ↔ t = u := by
  simp [← chars_inj]

theorem toString_append (s t : Text) : (s ++ t).toString = s.toString ++ t.toString :=
  String.ofList_append

theorem ofString_append (v w : String) : ofString (v ++ w) = ofString v ++ ofString w :=
  ext String.toList_append

@[simp] theorem size_eq_zero {s : Text} : s.size = 0 ↔ s = ∅ := by
  rw [s.size_eq, byteSize_eq_zero, ← chars_inj, chars_empty]

/-- A text is empty, or has a first character in front of a text. -/
@[elab_as_elim, induction_eliminator, cases_eliminator]
theorem induction {motive : Text → Prop} (empty : motive ∅)
    (cons : ∀ c s, motive s → motive (cons c s)) (s : Text) : motive s := by
  rw [← ofList_chars s]
  induction s.chars with
  | nil => exact empty
  | cons c cs ih =>
    rw [show ofList (c :: cs) = Text.cons c (ofList cs) from ext rfl]
    exact cons c _ ih

/-! ### Taking texts apart -/

/-- Whether there is no character left. -/
def isEmpty (s : Text) : Bool := s.chars.isEmpty

@[simp] theorem isEmpty_iff {s : Text} : s.isEmpty = true ↔ s = ∅ := by
  rw [isEmpty, List.isEmpty_iff, ← chars_inj, chars_empty]

/-- The first character and what follows it. -/
def uncons? (s : Text) : Option (Char × Text) :=
  match s with
  | ⟨[], _, _⟩ => none
  | ⟨c :: cs, n, h⟩ => some (c, ⟨cs, n - c.utf8Size, by rw [h, byteSize_cons]; omega⟩)

@[simp] theorem uncons?_empty : uncons? ∅ = none := rfl

@[simp] theorem uncons?_cons (c : Char) (s : Text) : uncons? (cons c s) = some (c, s) := by
  simp only [uncons?, cons, Option.some.injEq, Prod.mk.injEq, true_and]
  exact ext rfl

end Text

end Descent
