import Descent.Text.Basic

/-!
# Cutting texts

A text is cut in front of a character: after so many characters (`take`, `drop`), in
front of the first one that fails a test (`takeWhile`, `dropWhile`), behind a given text
(`dropPrefix?`), at a byte offset (`takeBytes?`), or in front of a remainder of a given
size (`segment?`). The last three may fail, and `dropPrefix?_eq_some`,
`takeBytes?_eq_some` and `segment?_eq_some` say exactly when they do not: the cut is
found if and only if the text can be written as a concatenation of that form.
-/

namespace Descent

namespace Text

/-! ### After characters -/

/-- The first `n` characters, or all of them when there are fewer. -/
def take (n : Nat) (s : Text) : Text := ofList (s.chars.take n)

/-- What follows the first `n` characters. -/
def drop (n : Nat) (s : Text) : Text :=
  ⟨s.chars.drop n, s.size - byteSize (s.chars.take n), by
    have h := byteSize_append (s.chars.take n) (s.chars.drop n)
    rw [List.take_append_drop, ← s.size_eq] at h
    omega⟩

@[simp] theorem chars_take (n : Nat) (s : Text) : (s.take n).chars = s.chars.take n := rfl

@[simp] theorem chars_drop (n : Nat) (s : Text) : (s.drop n).chars = s.chars.drop n := rfl

@[simp] theorem take_append_drop (n : Nat) (s : Text) : s.take n ++ s.drop n = s :=
  ext (List.take_append_drop n s.chars)

/-! ### In front of the first character that fails a test -/

/-- The longest front part whose characters all satisfy `p`. -/
def takeWhile (p : Char → Bool) (s : Text) : Text := ofList (s.chars.takeWhile p)

/-- What follows the longest front part whose characters all satisfy `p`. -/
def dropWhile (p : Char → Bool) (s : Text) : Text :=
  ⟨s.chars.dropWhile p, s.size - byteSize (s.chars.takeWhile p), by
    have h := byteSize_append (s.chars.takeWhile p) (s.chars.dropWhile p)
    rw [List.takeWhile_append_dropWhile, ← s.size_eq] at h
    omega⟩

@[simp] theorem chars_takeWhile (p : Char → Bool) (s : Text) :
    (s.takeWhile p).chars = s.chars.takeWhile p := rfl

@[simp] theorem chars_dropWhile (p : Char → Bool) (s : Text) :
    (s.dropWhile p).chars = s.chars.dropWhile p := rfl

@[simp] theorem takeWhile_append_dropWhile (p : Char → Bool) (s : Text) :
    s.takeWhile p ++ s.dropWhile p = s := ext List.takeWhile_append_dropWhile

/-! ### Behind a given text -/

/-- What follows `w` in a text that begins with it. -/
def dropPrefix? (s w : Text) : Option Text :=
  if w.chars.isPrefixOf s.chars then some (s.drop w.length) else none

theorem dropPrefix?_eq_some {w s t : Text} : s.dropPrefix? w = some t ↔ s = w ++ t := by
  simp only [dropPrefix?, List.isPrefixOf_iff_prefix, Option.ite_none_right_eq_some,
    Option.some.injEq, ← chars_inj, chars_drop, chars_append, length]
  constructor
  · rintro ⟨⟨u, hu⟩, h⟩
    rw [← hu, List.drop_left] at h
    rw [← hu, h]
  · intro h
    rw [h]
    exact ⟨List.prefix_append _ _, List.drop_left⟩

theorem dropPrefix?_eq_none {w s : Text} : s.dropPrefix? w = none ↔ ∀ t, s ≠ w ++ t := by
  rw [Option.eq_none_iff_forall_ne_some]
  exact forall_congr' fun t => not_congr dropPrefix?_eq_some

/-! ### At a byte offset -/

/-- Moves characters of `n` bytes in all from the front of `cs` onto `front`, if the
`n`-th byte ends a character. -/
def cutBytes (front : List Char) : Nat → List Char → Option (List Char)
  | 0, _ => some front
  | _ + 1, [] => none
  | n + 1, c :: cs =>
    if c.utf8Size ≤ n + 1 then cutBytes (c :: front) (n + 1 - c.utf8Size) cs else none

theorem cutBytes_eq_some {front cs ds : List Char} {n : Nat} :
    cutBytes front n cs = some ds ↔
      ∃ us vs, cs = us ++ vs ∧ byteSize us = n ∧ ds = us.reverse ++ front := by
  induction cs generalizing front n with
  | nil =>
    cases n with
    | zero =>
      simp only [cutBytes, Option.some.injEq]
      constructor
      · rintro rfl; exact ⟨[], [], rfl, rfl, rfl⟩
      · rintro ⟨us, vs, h, -, rfl⟩
        rw [(List.append_eq_nil_iff.mp h.symm).1]; rfl
    | succ n =>
      simp only [cutBytes, reduceCtorEq, false_iff]
      rintro ⟨us, vs, h, hn, -⟩
      rw [(List.append_eq_nil_iff.mp h.symm).1] at hn
      simp at hn
  | cons c cs ih =>
    have hc := c.utf8Size_pos
    cases n with
    | zero =>
      simp only [cutBytes, Option.some.injEq, byteSize_eq_zero]
      constructor
      · rintro rfl; exact ⟨[], c :: cs, rfl, rfl, rfl⟩
      · rintro ⟨us, vs, -, rfl, rfl⟩; rfl
    | succ n =>
      rw [cutBytes, Option.ite_none_right_eq_some, ih]
      constructor
      · rintro ⟨hle, us, vs, rfl, hn, rfl⟩
        exact ⟨c :: us, vs, rfl, by rw [byteSize_cons]; omega, by simp⟩
      · rintro ⟨us, vs, h, hn, rfl⟩
        cases us with
        | nil => simp at hn
        | cons d us =>
          obtain ⟨rfl, rfl⟩ := List.cons.inj h
          rw [byteSize_cons] at hn
          exact ⟨by omega, us, vs, rfl, by omega, by simp⟩

/-- The front part of exactly `n` bytes; none when the text is shorter or the cut would
fall inside a character. -/
def takeBytes? (s : Text) (n : Nat) : Option Text :=
  match h : cutBytes [] n s.chars with
  | none => none
  | some front => some ⟨front.reverse, n, by
      obtain ⟨us, vs, -, hn, rfl⟩ := cutBytes_eq_some.mp h
      simp [hn]⟩

/-- A front part of `n` bytes is found exactly when there is one. -/
theorem takeBytes?_eq_some {n : Nat} {s t : Text} :
    s.takeBytes? n = some t ↔ t.size = n ∧ ∃ u, s = t ++ u := by
  unfold takeBytes?
  split
  · next h =>
    simp only [reduceCtorEq, false_iff]
    rintro ⟨hn, u, rfl⟩
    have : cutBytes [] n (t ++ u).chars = some t.chars.reverse :=
      cutBytes_eq_some.mpr ⟨t.chars, u.chars, rfl, by rw [← hn, t.size_eq], by simp⟩
    rw [h] at this
    cases this
  · next front h =>
    obtain ⟨us, vs, hs, hn, rfl⟩ := cutBytes_eq_some.mp h
    rw [Option.some.injEq, ← chars_inj]
    constructor
    · intro ht
      simp only [List.append_nil, List.reverse_reverse] at ht
      refine ⟨by rw [t.size_eq, ← ht, hn], ofList vs, ext ?_⟩
      rw [hs, chars_append, ← ht, chars_ofList]
    · rintro ⟨ht, u, rfl⟩
      have hlen : us = t.chars := by
        have h₂ : cutBytes [] n (us ++ vs) = some t.chars.reverse :=
          cutBytes_eq_some.mpr ⟨t.chars, u.chars, hs.symm, by rw [← ht, t.size_eq], by simp⟩
        rw [← hs, h, Option.some.injEq] at h₂
        simpa using h₂
      simp [hlen]

/-- The part of `s` in front of a remainder of the size of `rest`: none when that is the
longer of the two, or when the cut would fall inside a character. -/
def segment? (s rest : Text) : Option Text :=
  if rest.size ≤ s.size then s.takeBytes? (s.size - rest.size) else none

/-- The segment is the part in front of any text of the size of `rest` that ends `s`. -/
theorem segment?_eq_some {s rest text : Text} :
    s.segment? rest = some text ↔ ∃ u : Text, u.size = rest.size ∧ s = text ++ u := by
  rw [segment?, Option.ite_none_right_eq_some, takeBytes?_eq_some]
  constructor
  · rintro ⟨hle, hsize, u, rfl⟩
    rw [size_append] at hle hsize
    exact ⟨u, by omega, rfl⟩
  · rintro ⟨u, hu, rfl⟩
    rw [size_append]
    exact ⟨by omega, by omega, u, rfl⟩

/-- There is none where no text that ends `s` has the size of `rest`. -/
theorem segment?_eq_none {s rest : Text} :
    s.segment? rest = none ↔ ∀ t u : Text, s = t ++ u → u.size ≠ rest.size := by
  rw [Option.eq_none_iff_forall_ne_some]
  constructor
  · intro h t u hs hu
    exact h t (segment?_eq_some.mpr ⟨u, hu, hs⟩)
  · intro h t ht
    obtain ⟨u, hu, hs⟩ := segment?_eq_some.mp ht
    exact h t u hs hu

@[simp] theorem segment?_append (t u : Text) : (t ++ u).segment? u = some t :=
  segment?_eq_some.mpr ⟨u, rfl, rfl⟩

end Text

end Descent
