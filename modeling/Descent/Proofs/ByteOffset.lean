import Descent.Proofs.Consumed
import Descent.Text.Offset

/-!
# Byte offsets

An offset into a text that does not lie behind its end is a boundary (`Text.IsBoundary`), or it
falls inside a character (`Text.InsideCharacter`), and never both. So a text can be cut at every
other offset (`Text.takeBytes?_eq_none`), and the part in front of a remainder can be cut off
unless the remainder is the longer of the two, or the cut would fall inside a character
(`Text.segment?_eq_none_iff`).

For `consumed` this says what it does with every parser, whatever that leaves: it never asks for
a cut that cannot be made, and what it cuts off has exactly the bytes that are missing in the
remainder (`consumed_byte_exact`).
-/

namespace Descent

namespace Text

variable {s t u : Text} {n : Nat}

/-- The offset falls inside a character: some of its bytes are in front of the offset, and some
behind. -/
def InsideCharacter (s : Text) (n : Nat) : Prop :=
  ∃ t c u, s = t ++ cons c u ∧ t.size < n ∧ n < t.size + c.utf8Size

/-- Behind a further character the offsets inside characters are the same, counted from there. -/
theorem InsideCharacter.cons (h : s.InsideCharacter n) (c : Char) :
    (cons c s).InsideCharacter (c.utf8Size + n) := by
  obtain ⟨t, d, u, rfl, hlt, hlt'⟩ := h
  refine ⟨Text.cons c t, d, u, (cons_append c t _).symm, ?_, ?_⟩
  · rw [size_cons]
    omega
  · rw [size_cons]
    omega

/-- An offset that is not behind the end is a boundary, or falls inside a character. -/
theorem isBoundary_or_insideCharacter (h : n ≤ s.size) :
    s.IsBoundary n ∨ s.InsideCharacter n := by
  induction s generalizing n with
  | empty => exact Or.inl ⟨∅, ∅, rfl, (Nat.le_zero.mp h).symm⟩
  | cons c s ih =>
    -- in front of the character, inside it, or behind it
    by_cases hzero : n = 0
    · exact Or.inl ⟨∅, cons c s, (empty_append _).symm, hzero.symm⟩
    by_cases hinside : n < c.utf8Size
    · refine Or.inr ⟨∅, c, s, (empty_append _).symm, Nat.pos_of_ne_zero hzero, ?_⟩
      rw [size_empty]
      omega
    obtain ⟨m, rfl⟩ : ∃ m, n = c.utf8Size + m := ⟨n - c.utf8Size, by omega⟩
    rw [size_cons] at h
    obtain ⟨t, u, rfl, rfl⟩ | hs := ih (Nat.le_of_add_le_add_left h)
    · exact Or.inl ⟨cons c t, u, (cons_append c t u).symm, rfl⟩
    · exact Or.inr (hs.cons c)

/-- The size of a front part does not fall inside a character. -/
theorem not_insideCharacter_append (t u : Text) : ¬ (t ++ u).InsideCharacter t.size := by
  rintro ⟨v, c, w, h, hlt, hlt'⟩
  rw [t.size_eq, v.size_eq] at hlt hlt'
  rcases List.append_eq_append_iff.mp (congrArg chars h) with ⟨b, hv, -⟩ | ⟨b, ht, hb⟩
  · -- the front part is not longer than what is in front of the character
    rw [hv, byteSize_append] at hlt
    omega
  · rw [ht, byteSize_append] at hlt hlt'
    cases b with
    | nil => exact absurd hlt (by simp)
    | cons d b =>
      -- or it has the character in it
      obtain ⟨rfl, -⟩ := List.cons.inj hb
      rw [byteSize_cons] at hlt'
      omega

/-- No cut is found behind the end and inside characters, and nowhere else. -/
theorem takeBytes?_eq_none :
    s.takeBytes? n = none ↔ s.size < n ∨ s.InsideCharacter n := by
  rw [Option.eq_none_iff_forall_ne_some]
  constructor
  · intro h
    by_cases hlt : s.size < n
    · exact Or.inl hlt
    obtain ⟨t, u, hs, ht⟩ | hinside := isBoundary_or_insideCharacter (Nat.not_lt.mp hlt)
    · exact absurd (takeBytes?_eq_some.mpr ⟨ht, u, hs⟩) (h t)
    · exact Or.inr hinside
  · rintro h t ht
    obtain ⟨rfl, u, rfl⟩ := takeBytes?_eq_some.mp ht
    rcases h with hlt | hinside
    · rw [size_append] at hlt
      omega
    · exact not_insideCharacter_append t u hinside

/-- There is no part in front of a remainder that is too long, or would begin inside a
character. -/
theorem segment?_eq_none_iff {rest : Text} :
    s.segment? rest = none ↔ s.size < rest.size ∨ s.InsideCharacter (s.size - rest.size) := by
  unfold segment?
  split
  · next hle =>
    rw [takeBytes?_eq_none]
    constructor
    · rintro (hlt | hinside)
      · omega
      · exact Or.inr hinside
    · rintro (hlt | hinside)
      · omega
      · exact Or.inr hinside
  · next hlt => exact iff_of_true rfl (Or.inl (Nat.not_le.mp hlt))

/-- The part in front of a remainder is the cut behind as many bytes as the text has more, or
behind none if it has fewer, provided that the sizes add up. -/
theorem segment?_eq_filter (s rest : Text) :
    s.segment? rest =
      (s.takeBytes? (s.size - rest.size)).filter fun t => t.size + rest.size == s.size := by
  apply Option.ext
  intro t
  rw [segment?, Option.ite_none_right_eq_some, Option.filter_eq_some_iff, beq_iff_eq]
  constructor
  · rintro ⟨hle, ht⟩
    refine ⟨ht, ?_⟩
    rw [(takeBytes?_eq_some.mp ht).1]
    omega
  · rintro ⟨ht, hsize⟩
    exact ⟨by omega, ht⟩

end Text

namespace Parser

variable {α : Type}

/-- **Consumed text is cut off exactly.** Whatever the parser leaves, a text that has nothing to
do with the input, a longer one or a shorter one:
* its failures are those of `consumed p`, word for word;
* `consumed p` cuts the input behind the bytes that were consumed, none if the remainder is the
  longer of the two, and checks that the sizes add up to that of the input;
* so the remainder is found invalid if it is longer than the input, or if the cut would fall
  inside a character;
* otherwise it is left as it is, and the value comes with the front part of the input that has
  the bytes by which the remainder is shorter. -/
theorem consumed_byte_exact (p : Parser α) (s : Text) :
    (∀ e, p.parse s = .failure e → (consumed p).parse s = .failure e) ∧
    ∀ a, p.parse s = .success a →
      ((consumed p).parse s =
        match (s.takeBytes? (a.consumed s)).filter fun t => t.size + a.rest.size == s.size with
        | some t => .success ⟨(a.value, t), a.rest⟩
        | none => .failure (.breach .invalidRest)) ∧
      (s.size < a.rest.size ∨ s.InsideCharacter (s.size - a.rest.size) →
        (consumed p).parse s = .failure (.breach .invalidRest)) ∧
      (¬ (s.size < a.rest.size ∨ s.InsideCharacter (s.size - a.rest.size)) →
        ∃ t u, s = t ++ u ∧ t.size + a.rest.size = s.size ∧
          (consumed p).parse s = .success ⟨(a.value, t), a.rest⟩) := by
  refine ⟨fun e he => ?_, fun a ha => ⟨?_, fun h => ?_, fun h => ?_⟩⟩
  · rw [parse, run_consumed_of_failure he]
  · rw [parse_consumed_of_success ha, Text.segment?_eq_filter]
    rfl
  · rw [parse_consumed_of_success ha, Text.segment?_eq_none_iff.mpr h]
  · rw [← Text.segment?_eq_none_iff] at h
    obtain ⟨t, ht⟩ := Option.ne_none_iff_exists'.mp h
    obtain ⟨u, hu, hs⟩ := Text.segment?_eq_some.mp ht
    refine ⟨t, u, hs, ?_, ?_⟩
    · rw [hs, Text.size_append, hu]
    · rw [parse_consumed_of_success ha, ht]

/-- Remainders of the text `éa` that are no part of it: `x` stands for the one byte behind `é`, of
two bytes the first is inside of it, and four are too many. -/
theorem foreign_rests_of_two_characters :
    (fail "no" : Parser Unit).parse (.ofString "éa") = .failure (.labelled "no") ∧
    (consumed (fail "no" : Parser Unit)).parse (.ofString "éa") = .failure (.labelled "no") ∧
    (consumed (ofFn fun _ => .success ⟨(), .ofString "xy"⟩)).parse (.ofString "éa") =
      .failure (.breach .invalidRest) ∧
    (consumed (ofFn fun _ => .success ⟨(), .ofString "wxyz"⟩)).parse (.ofString "éa") =
      .failure (.breach .invalidRest) ∧
    ∃ t u : Text, .ofString "éa" = t ++ u ∧ t.size = 2 ∧
      (consumed (ofFn fun _ => .success ⟨(), .ofString "x"⟩)).parse (.ofString "éa") =
        .success ⟨((), t), .ofString "x"⟩ := by
  have hsplit : (Text.ofString "éa").InsideCharacter 1 :=
    ⟨∅, 'é', .ofString "a", rfl, by decide, by decide⟩
  have hcut : ¬ (Text.ofString "éa").InsideCharacter 2 :=
    Text.not_insideCharacter_append (.ofString "é") (.ofString "a")
  have hfail : (fail "no" : Parser Unit).parse (.ofString "éa") = .failure (.labelled "no") := rfl
  have hreject (rest : Text) (h : (Text.ofString "éa").size < rest.size ∨
      (Text.ofString "éa").InsideCharacter ((Text.ofString "éa").size - rest.size)) :
      (consumed (ofFn fun _ => .success ⟨(), rest⟩)).parse (.ofString "éa") =
        .failure (.breach .invalidRest) :=
    ((consumed_byte_exact (ofFn fun _ => .success ⟨(), rest⟩) _).2 _ rfl).2.1 h
  obtain ⟨-, haccept⟩ :=
    consumed_byte_exact (ofFn fun _ => .success ⟨(), .ofString "x"⟩) (.ofString "éa")
  obtain ⟨t, u, hs, hsize, hx⟩ := (haccept _ rfl).2.2 (not_or_intro (by decide) hcut)
  refine ⟨hfail, (consumed_byte_exact _ _).1 _ hfail, hreject _ (Or.inr hsplit),
    hreject _ (Or.inl (by decide)), t, u, hs, ?_, hx⟩
  change t.size + 1 = 3 at hsize
  omega

end Parser

end Descent
