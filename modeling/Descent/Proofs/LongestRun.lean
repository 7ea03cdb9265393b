import Descent.Text.Cut
import Mathlib.Data.List.TakeWhile

/-!
# Longest runs

`takeWhile` and `dropWhile` cut a text behind the longest run of characters that pass a
test. This module says so: a cut `s = a ++ r` is that one exactly when all of `a` passes
(`Text.All`) and `r` does not go on with a character that passes (`Text.Stops`). Every
statement about greedy parsers rests on `takeWhile_append_of_stops` and
`dropWhile_append_of_stops`.
-/

namespace Descent

namespace Text

variable {p : Char → Bool} {c : Char} {a r s : Text}

/-- Every character of the text passes the test. -/
def All (p : Char → Bool) (s : Text) : Prop := ∀ c ∈ s.chars, p c = true

/-- The text does not begin with a character that passes the test. -/
def Stops (p : Char → Bool) (s : Text) : Prop := ∀ c ∈ s.chars.head?, p c = false

instance : Decidable (All p s) := decidable_of_iff (s.chars.all p = true) List.all_eq_true

theorem all_empty : All p ∅ := fun _ h => absurd h List.not_mem_nil

theorem all_singleton (h : p c = true) : All p (singleton c) := by
  intro d hd
  rw [chars_singleton, List.mem_singleton] at hd
  exact hd ▸ h

theorem all_append : All p (a ++ s) ↔ All p a ∧ All p s := by
  simp only [All, chars_append, List.mem_append]
  constructor
  · exact fun h => ⟨fun c hc => h c (Or.inl hc), fun c hc => h c (Or.inr hc)⟩
  · rintro ⟨ha, hs⟩ c (hc | hc)
    · exact ha c hc
    · exact hs c hc

theorem stops_empty : Stops p ∅ := fun _ h => by simp at h

theorem stops_cons : Stops p (cons c s) ↔ p c = false := by
  constructor
  · exact fun h => h c rfl
  · rintro h _ ⟨⟩
    exact h

/-- To stop either of two tests is to stop both. -/
theorem stops_or {q : Char → Bool} : Stops (fun c => p c || q c) s ↔ Stops p s ∧ Stops q s := by
  simp only [Stops, Bool.or_eq_false_iff]
  exact ⟨fun h => ⟨fun c hc => (h c hc).1, fun c hc => (h c hc).2⟩,
    fun h c hc => ⟨h.1 c hc, h.2 c hc⟩⟩

/-! ### The cut -/

theorem takeWhile_cons_pos (h : p c = true) : takeWhile p (cons c s) = cons c (takeWhile p s) :=
  ext (List.takeWhile_cons_of_pos h)

theorem takeWhile_cons_neg (h : p c = false) : takeWhile p (cons c s) = ∅ :=
  ext (List.takeWhile_cons_of_neg (by rw [h]; exact Bool.false_ne_true))

theorem dropWhile_cons_pos (h : p c = true) : dropWhile p (cons c s) = dropWhile p s :=
  ext (List.dropWhile_cons_of_pos h)

theorem dropWhile_cons_neg (h : p c = false) : dropWhile p (cons c s) = cons c s :=
  ext (List.dropWhile_cons_of_neg (by rw [h]; exact Bool.false_ne_true))

theorem all_takeWhile (s : Text) (p : Char → Bool) : All p (takeWhile p s) :=
  fun _ h => List.mem_takeWhile_imp h

theorem stops_dropWhile (s : Text) (p : Char → Bool) : Stops p (dropWhile p s) := by
  intro c hc
  have := List.head?_dropWhile_not p s.chars
  rw [chars_dropWhile, Option.mem_def] at hc
  rw [hc] at this
  exact Bool.eq_false_iff.mpr (by simpa using this)

theorem takeWhile_of_stops (h : Stops p s) : takeWhile p s = ∅ := by
  cases s with
  | empty => rfl
  | cons c s => exact takeWhile_cons_neg (stops_cons.mp h)

theorem dropWhile_of_stops (h : Stops p s) : dropWhile p s = s := by
  cases s with
  | empty => rfl
  | cons c s => exact dropWhile_cons_neg (stops_cons.mp h)

/-- No run is found exactly where the text does not begin with a character that passes. -/
theorem takeWhile_eq_empty : takeWhile p s = ∅ ↔ Stops p s := by
  constructor
  · intro h
    rw [← takeWhile_append_dropWhile p s, h, empty_append]
    exact stops_dropWhile s p
  · exact takeWhile_of_stops

instance : Decidable (Stops p s) := decidable_of_iff (takeWhile p s = ∅) takeWhile_eq_empty

theorem takeWhile_append_of_all (ha : All p a) : takeWhile p (a ++ s) = a ++ takeWhile p s :=
  ext (List.takeWhile_append_of_pos ha)

theorem dropWhile_append_of_all (ha : All p a) : dropWhile p (a ++ s) = dropWhile p s :=
  ext (List.dropWhile_append_of_pos ha)

/-- The run in front of a text that stops it is the longest one. -/
theorem takeWhile_append_of_stops (ha : All p a) (hr : Stops p r) : takeWhile p (a ++ r) = a := by
  rw [takeWhile_append_of_all ha, takeWhile_of_stops hr, append_empty]

theorem dropWhile_append_of_stops (ha : All p a) (hr : Stops p r) : dropWhile p (a ++ r) = r := by
  rw [dropWhile_append_of_all ha, dropWhile_of_stops hr]

/-- A text that is not empty and passes a test stops every test that excludes it. -/
theorem stops_append_of_all {q : Char → Bool} (hne : a ≠ ∅) (ha : All p a)
    (hq : ∀ c, p c = true → q c = false) : Stops q (a ++ s) := by
  cases a with
  | empty => exact absurd rfl hne
  | cons c a =>
    rw [cons_append, stops_cons]
    exact hq c (ha c (List.mem_cons_self ..))

end Text

end Descent
