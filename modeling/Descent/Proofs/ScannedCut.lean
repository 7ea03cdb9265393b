import Descent.Proofs.Keyword
import Descent.Proofs.Scan

/-!
# Cuts at scanned offsets

A scan adds up the bytes of the characters it goes past, and the text is then cut at that many
bytes. Characters have one to four bytes, so a sum that is off by one would cut a character in
two, or cut at the wrong one.

It is never off. A boundary is what the standard library calls a valid position of the encoded
string (`Text.isBoundary_iff_isValid`), and the scans find boundaries. In front of the offset
that is found for a test all characters pass it, and the character at the offset does not
(`Text.test_of_offsetWhile`), by induction along the characters that are gone past. What a
literal text that is not found shows of the input is cut off in the same way, behind as many
characters as the literal text has, or at the end (`scanned_cuts_exact`).
-/

namespace Descent

namespace Text

variable {p : Char → Bool} {c : Char} {s t u : Text} {n : Nat}

/-- The boundaries of a text are the positions at which its encoding can be cut. -/
theorem isBoundary_iff_isValid : s.IsBoundary n ↔ (String.Pos.Raw.mk n).IsValid s.toString := by
  rw [String.Pos.Raw.isValid_iff_exists_append]
  constructor
  · rintro ⟨t, u, rfl, rfl⟩
    exact ⟨t.toString, u.toString, toString_append t u, congrArg _ t.size_eq_utf8ByteSize⟩
  · rintro ⟨v, w, hs, hn⟩
    refine ⟨ofString v, ofString w, ?_, ?_⟩
    · rw [← ofString_append, ← hs, ofString_toString]
    · rw [size_eq_utf8ByteSize, toString_ofString]
      exact (congrArg String.Pos.Raw.byteIdx hn).symm

theorem offsetWhile_cons :
    (cons c s).offsetWhile p = if p c = true then c.utf8Size + s.offsetWhile p else 0 := by
  simp only [offsetWhile_eq]
  split
  · next hc => rw [takeWhile_cons_pos hc, size_cons]
  · next hc => rw [takeWhile_cons_neg (Bool.eq_false_iff.mpr hc), size_empty]

/-- A character in front of the offset that is found passes the test, and the one at the offset
does not. -/
theorem test_of_offsetWhile :
    (t.size < (t ++ cons c u).offsetWhile p → p c = true) ∧
    (t.size = (t ++ cons c u).offsetWhile p → p c = false) := by
  induction t with
  | empty =>
    rw [empty_append, offsetWhile_cons, size_empty]
    have hpos := c.utf8Size_pos
    split
    · next hc => exact ⟨fun _ => hc, fun h => by omega⟩
    · next hc => exact ⟨fun h => absurd h (Nat.lt_irrefl 0), fun _ => Bool.eq_false_iff.mpr hc⟩
  | cons d t ih =>
    rw [cons_append, offsetWhile_cons, size_cons]
    have hpos := d.utf8Size_pos
    split
    · rw [Nat.add_lt_add_iff_left, Nat.add_left_cancel_iff]
      exact ih
    · -- the scan ends at `d`, in front of the character
      exact ⟨fun h => by omega, fun h => by omega⟩

end Text

namespace Parser

/-- **Cuts at scanned offsets are safe and exact.** For every test and every text `s`
* the offset found for the test is a position at which the encoding of `s` can be cut;
* each character in front of it passes the test, and the character at it, if there is one, does
  not;
* the runs of characters that pass the test are cut off there.

And where `s` does not begin with the literal text `w`
* the offset behind as many characters as `w` has is a position at which the encoding of `s` can
  be cut;
* the message shows the part `x` of `s` in front of it, which has as many characters as `w`, or
  as `s` if these are fewer, and is never `w`. -/
theorem scanned_cuts_exact :
    (∀ (test : Char → Bool) (s : Text),
      (String.Pos.Raw.mk (s.offsetWhile test)).IsValid s.toString ∧
      (∀ t c u, s = t ++ .cons c u →
        (t.size < s.offsetWhile test → test c = true) ∧
        (t.size = s.offsetWhile test → test c = false)) ∧
      ∃ t u, s = t ++ u ∧ t.size = s.offsetWhile test ∧
        (zeroOrMoreChars test).parse s = .success ⟨t, u⟩ ∧
        ∀ label, (oneOrMoreChars test label).parse s =
          if t = ∅ then .failure (.labelled s!"{label}: {s}") else .success ⟨t, u⟩) ∧
    ∀ w s : Text, ¬ w.IsPrefix s →
      (String.Pos.Raw.mk (s.offsetAfter w.length)).IsValid s.toString ∧
      ∃ x u, s = x ++ u ∧ x.size = s.offsetAfter w.length ∧
        x.length = min w.length s.length ∧ x ≠ w ∧
        (literal w).parse s = .failure (.labelled s!"expected '{w}', got '{x}' instead") := by
  refine ⟨fun test s => ⟨?_, ?_, ?_⟩, fun w s hw => ⟨?_, ?_⟩⟩
  · exact Text.isBoundary_iff_isValid.mp (s.isBoundary_offsetWhile test)
  · rintro t c u rfl
    exact Text.test_of_offsetWhile
  · refine ⟨s.takeWhile test, s.dropWhile test, (s.takeWhile_append_dropWhile test).symm,
      (s.offsetWhile_eq test).symm, ?_, fun label => ?_⟩
    · rw [parse, run_zeroOrMoreChars, Run.outcome_of]
    · rw [parse, run_oneOrMoreChars, Run.outcome_of]
      simp only [Text.isEmpty_iff]
  · exact Text.isBoundary_iff_isValid.mp (s.isBoundary_offsetAfter w.length)
  · have hcut : s = s.take w.length ++ s.drop w.length := (s.take_append_drop w.length).symm
    refine ⟨s.take w.length, s.drop w.length, hcut, (s.offsetAfter_eq w.length).symm,
      List.length_take, fun hx => hw ⟨s.drop w.length, ?_⟩, ?_⟩
    · rw [hx] at hcut
      exact hcut
    · rw [parse, run_literal_of_forall_ne (Text.not_isPrefix.mp hw), Run.outcome_of]

/-- In `hé ho` the word in front of the space has two characters of three bytes, and in
`こんばんは世界`, of seven characters, the first five are shown for a literal text of five. -/
theorem cuts_between_wide_characters :
    (Text.ofString "hé ho" = .ofString "h" ++ .cons 'é' (.ofString " ho") ∧
      (Text.ofString "h").size < (Text.ofString "hé ho").offsetWhile (· != ' ') ∧
      ('é' != ' ') = true) ∧
    (Text.ofString "hé ho" = .ofString "hé" ++ .cons ' ' (.ofString "ho") ∧
      (Text.ofString "hé").size = (Text.ofString "hé ho").offsetWhile (· != ' ') ∧
      (' ' != ' ') = false) ∧
    ¬ (Text.ofString "こんにちは").IsPrefix (.ofString "こんばんは世界") ∧
    (literal (.ofString "こんにちは")).parse (.ofString "こんばんは世界") =
      .failure (.labelled "expected 'こんにちは', got 'こんばんは' instead") := by
  have hletter : Text.ofString "hé ho" = .ofString "h" ++ .cons 'é' (.ofString " ho") := by decide
  have hfront : (Text.ofString "h").size < (Text.ofString "hé ho").offsetWhile (· != ' ') := by
    decide
  have hspace : Text.ofString "hé ho" = .ofString "hé" ++ .cons ' ' (.ofString "ho") := by decide
  have hat : (Text.ofString "hé").size = (Text.ofString "hé ho").offsetWhile (· != ' ') := by
    decide
  have hw : ¬ (Text.ofString "こんにちは").IsPrefix (.ofString "こんばんは世界") := by decide
  obtain ⟨-, htest, -⟩ := scanned_cuts_exact.1 (· != ' ') (.ofString "hé ho")
  obtain ⟨-, x, u, hs, -, hlength, -, hmessage⟩ := scanned_cuts_exact.2 _ _ hw
  have hx : x = .ofString "こんばんは" := by
    have hfive : x.chars.length = 5 := hlength
    apply Text.ext
    calc x.chars
        = (x ++ u).chars.take 5 := (List.take_left' hfive).symm
      _ = (Text.ofString "こんばんは世界").chars.take 5 := by rw [hs]
      _ = (Text.ofString "こんばんは").chars := rfl
  refine ⟨⟨hletter, hfront, (htest _ _ _ hletter).1 hfront⟩,
    ⟨hspace, hat, (htest _ _ _ hspace).2 hat⟩, hw, ?_⟩
  rw [hmessage, hx]
  rfl

end Parser

end Descent
