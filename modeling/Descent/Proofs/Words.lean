import Descent.Arith.Formats
import Descent.Proofs.Fault
import Descent.Proofs.Unrolling

/-!
# Words with spaces between them

If a space does not belong to a word, `words` finds the words of a text that are written one
after the other with spaces between them (`Splits`), however many there are, up to the first
character that is neither a space nor part of a word. There is only one way to write a text so
(`words_eq_split`): each round of the repetition takes one word with the spaces behind it
(`parse_word_eq_success`), so that the rounds follow the words (`Spaced.advances`,
`splits_of_advances`). The attempt that ends the repetition may have skipped spaces in front of
the first word only; behind a word there are none left to skip.
-/

namespace Descent

namespace Arith

open Descent.Parser

variable {test : Char → Bool} {label : String} {s t r w : Text} {ws : List Text} {e : ParseError}

/-! ### Words and spaces -/

/-- `Spaced test t ws r`: the text `t` is the words `ws`, with one space or more behind each but
the last and any number of spaces behind that, and in front of `r`, which begins with neither a
space nor a character of a word. -/
inductive Spaced (test : Char → Bool) : Text → List Text → Text → Prop where
  /-- One word, the spaces behind it, and what ends them. -/
  | last {w r : Text} (k : Nat) : w ≠ ∅ → w.All test → r.Stops isSpace → r.Stops test →
      Spaced test (w ++ (blank k ++ r)) [w] r
  /-- A word, at least one space, and further words. -/
  | more {w t r : Text} {ws : List Text} (k : Nat) : w ≠ ∅ → w.All test → Spaced test t ws r →
      Spaced test (w ++ (blank (k + 1) ++ t)) (w :: ws) r

/-- `Splits test s ws r`: behind any number of spaces the text `s` is the words `ws` with spaces
between them, in front of `r`. -/
def Splits (test : Char → Bool) (s : Text) (ws : List Text) (r : Text) : Prop :=
  ∃ j t, s = blank j ++ t ∧ Spaced test t ws r

theorem blank_zero_append (s : Text) : blank 0 ++ s = s := Text.empty_append s

theorem blank_succ_append (k : Nat) (s : Text) : blank (k + 1) ++ s = .cons ' ' (blank k ++ s) :=
  Text.ext rfl

/-- A character of a word is no space. -/
theorem isSpace_of_test (hsep : test ' ' = false) {c : Char} (h : test c = true) :
    isSpace c = false := beq_eq_false_of_test h hsep

/-- Words begin with a character of a word. -/
theorem Spaced.eq_cons (h : Spaced test t ws r) : ∃ c u, t = .cons c u ∧ test c = true := by
  have hword {w : Text} (hne : w ≠ ∅) (hall : w.All test) (u : Text) :
      ∃ c v, w ++ u = .cons c v ∧ test c = true := by
    cases w with
    | empty => exact absurd rfl hne
    | cons c w => exact ⟨c, w ++ u, Text.cons_append c w u, hall c (List.mem_cons_self ..)⟩
  cases h with
  | last k hne hall => exact hword hne hall _
  | more k hne hall => exact hword hne hall _

theorem Spaced.stops_isSpace (h : Spaced test t ws r) (hsep : test ' ' = false) :
    t.Stops isSpace := by
  obtain ⟨c, u, rfl, hc⟩ := h.eq_cons
  exact Text.stops_cons.mpr (isSpace_of_test hsep hc)

theorem Spaced.not_stops (h : Spaced test t ws r) : ¬ t.Stops test := by
  obtain ⟨c, u, rfl, hc⟩ := h.eq_cons
  rw [Text.stops_cons, hc]
  exact Bool.noConfusion

theorem Spaced.ne_nil (h : Spaced test t ws r) : ws ≠ [] := by
  cases h with
  | last => exact List.cons_ne_nil _ _
  | more => exact List.cons_ne_nil _ _

/-- Behind the words there is neither a space nor a further word. -/
theorem Spaced.stops_rest (h : Spaced test t ws r) : r.Stops isSpace ∧ r.Stops test := by
  induction h with
  | last k hne hall hspace hstop => exact ⟨hspace, hstop⟩
  | more k hne hall _ ih => exact ih

/-! ### One word -/

/-- A word is taken with all the spaces around it, and up to where it ends. -/
theorem parse_word_eq_success (hsep : test ' ' = false) :
    (word test label).parse s = .success ⟨w, r⟩ ↔
      ∃ j k, s = blank j ++ (w ++ (blank k ++ r)) ∧ w ≠ ∅ ∧ w.All test ∧
        (blank k ++ r).Stops test ∧ r.Stops isSpace := by
  rw [word, parse_trimmed_eq_success]
  constructor
  · rintro ⟨a, t, b, ha, -, hb, hr, rfl, h⟩
    obtain ⟨hne, hall, hstop, rfl⟩ := parse_oneOrMoreChars_eq_success.mp h
    rw [eq_blank_of_all hb] at hstop ⊢
    rw [eq_blank_of_all ha]
    exact ⟨_, _, rfl, hne, hall, hstop, hr⟩
  · rintro ⟨j, k, rfl, hne, hall, hstop, hr⟩
    exact ⟨blank j, _, blank k, all_blank j,
      Text.stops_append_of_all hne hall fun _ => isSpace_of_test hsep, all_blank k, hr, rfl,
      parse_oneOrMoreChars_eq_success.mpr ⟨hne, hall, hstop, rfl⟩⟩

/-- Where there is none the text is shown without the spaces in front. -/
theorem parse_word_eq_failure :
    (word test label).parse s = .failure e ↔
      (s.dropWhile isSpace).Stops test ∧ e = .labelled s!"{label}: {s.dropWhile isSpace}" := by
  rw [word, parse_trimmed_eq_failure, parse_oneOrMoreChars_eq_failure]

theorem leavesSuffix_word (hsep : test ' ' = false) : (word test label).LeavesSuffix := by
  rintro s ⟨w, r⟩ h
  obtain ⟨j, k, rfl, -⟩ := (parse_word_eq_success hsep).mp h
  refine ⟨blank j ++ (w ++ blank k), ?_⟩
  rw [Text.append_assoc, Text.append_assoc]

theorem consumes_word (hsep : test ' ' = false) : (word test label).Consumes := by
  rintro s ⟨w, r⟩ h
  obtain ⟨j, k, rfl, hne, -⟩ := (parse_word_eq_success hsep).mp h
  have : w.size ≠ 0 := fun hzero => hne (Text.size_eq_zero.mp hzero)
  simp only [Text.size_append]
  omega

/-! ### The rounds follow the words -/

/-- Behind any number of spaces the repetition advances over the words. -/
theorem Spaced.advances (h : Spaced test t ws r) (hsep : test ' ' = false) (label : String)
    (j : Nat) : ∃ ts, Advances (word test label) (blank j ++ t) ts ws r := by
  induction h generalizing j with
  | @last w r k hne hall hspace hstop =>
    have hparse : (word test label).parse (blank j ++ (w ++ (blank k ++ r))) = .success ⟨w, r⟩ :=
      (parse_word_eq_success hsep).mpr
        ⟨j, k, rfl, hne, hall, stops_spaces_append (all_blank k) hsep hstop, hspace⟩
    exact ⟨_, .step hparse (consumes_word hsep _ _ hparse) (.refl _)⟩
  | @more w t r ws k hne hall h ih =>
    obtain ⟨ts, hadv⟩ := ih 0
    rw [blank_zero_append] at hadv
    have hend : (blank (k + 1) ++ t).Stops test := by
      rw [blank_succ_append, Text.stops_cons]
      exact hsep
    have hparse : (word test label).parse (blank j ++ (w ++ (blank (k + 1) ++ t))) =
        .success ⟨w, t⟩ :=
      (parse_word_eq_success hsep).mpr
        ⟨j, k + 1, rfl, hne, hall, hend, h.stops_isSpace hsep⟩
    exact ⟨_, .step hparse (consumes_word hsep _ _ hparse) hadv⟩

/-- A text over which the repetition advances is split into the words it finds. -/
theorem splits_of_advances (hsep : test ' ' = false) {ts : List Text}
    (h : Advances (word test label) s ts ws r) (hws : ws ≠ [])
    (hstop : (r.dropWhile isSpace).Stops test) : Splits test s ws r := by
  induction h with
  | refl s => exact absurd rfl hws
  | @step s r a ts ws ha hlt hadv ih =>
    obtain ⟨j, k, rfl, hne, hall, hend, hspace⟩ := (parse_word_eq_success hsep).mp ha
    by_cases hnil : ws = []
    · subst hnil
      cases hadv
      rw [Text.dropWhile_of_stops hspace] at hstop
      exact ⟨j, _, rfl, .last k hne hall hspace hstop⟩
    · obtain ⟨i, t, ht, hspaced⟩ := ih hnil hstop
      -- the spaces in front of the next word belong to this one
      cases i with
      | succ i =>
        rw [ht, blank_succ_append, Text.stops_cons] at hspace
        cases hspace
      | zero =>
        rw [blank_zero_append] at ht
        rw [ht] at hend ⊢
        cases k with
        | zero =>
          rw [blank_zero_append] at hend
          exact absurd hend hspaced.not_stops
        | succ k => exact ⟨j, _, rfl, .more k hne hall hspaced⟩

/-! ### All words -/

theorem parse_words_eq_success (hsep : test ' ' = false) :
    (words test label).parse s = .success ⟨ws, r⟩ ↔ Splits test s ws r := by
  rw [words, (leavesSuffix_word hsep).parse_oneOrMore_eq_success]
  constructor
  · rintro ⟨hws, ⟨ts, hadv⟩, m, hm⟩
    exact splits_of_advances hsep hadv hws (parse_word_eq_failure.mp hm).1
  · rintro ⟨j, t, rfl, h⟩
    obtain ⟨hspace, hstop⟩ := h.stops_rest
    refine ⟨h.ne_nil, h.advances hsep label j, _, parse_word_eq_failure.mpr ⟨?_, rfl⟩⟩
    rwa [Text.dropWhile_of_stops hspace]

/-- No words are found where the first one is not. -/
theorem parse_words_eq_failure (hsep : test ' ' = false) :
    (words test label).parse s = .failure e ↔
      ∃ j t, s = blank j ++ t ∧ t.Stops isSpace ∧ t.Stops test ∧
        e = .labelled s!"{label}: {t}" := by
  have hbreach (s : Text) (b : Breach) : (word test label).parse s ≠ .failure (.breach b) := by
    intro h
    cases (parse_word_eq_failure.mp h).2
  rw [words, (consumes_word hsep).parse_oneOrMore_eq_failure hbreach,
    parse_word_eq_failure]
  constructor
  · rintro ⟨hstop, he⟩
    refine ⟨(s.takeWhile isSpace).length, s.dropWhile isSpace, ?_, s.stops_dropWhile isSpace,
      hstop, he⟩
    rw [← eq_blank_of_all (s.all_takeWhile isSpace), s.takeWhile_append_dropWhile isSpace]
  · rintro ⟨j, t, rfl, hspace, hstop, he⟩
    rw [Text.dropWhile_append_of_stops (all_blank j) hspace]
    exact ⟨hstop, he⟩

/-- Words are found where the first character that is no space belongs to one. -/
theorem exists_parse_words_eq_success (hsep : test ' ' = false) :
    (∃ a, (words test label).parse s = .success a) ↔
      ∃ j c t, s = blank j ++ .cons c t ∧ test c = true := by
  constructor
  · rintro ⟨⟨ws, r⟩, h⟩
    obtain ⟨j, t, rfl, hspaced⟩ := (parse_words_eq_success hsep).mp h
    obtain ⟨c, u, rfl, hc⟩ := hspaced.eq_cons
    exact ⟨j, c, u, rfl, hc⟩
  · rintro ⟨j, c, t, rfl, hc⟩
    cases ho : (words test label).parse (blank j ++ .cons c t) with
    | success a => exact ⟨a, rfl⟩
    | failure e =>
      -- the text that was shown would begin with the character
      obtain ⟨i, u, hu, hspace, hstop, -⟩ := (parse_words_eq_failure hsep).mp ho
      have hdrop := congrArg (Text.dropWhile isSpace) hu
      rw [Text.dropWhile_append_of_stops (all_blank j)
          (Text.stops_cons.mpr (isSpace_of_test hsep hc)),
        Text.dropWhile_append_of_stops (all_blank i) hspace] at hdrop
      rw [← hdrop, Text.stops_cons, hc] at hstop
      cases hstop

/-- The count is the number of words. -/
theorem wordCount_eq_map (test : Char → Bool) (label : String) :
    wordCount test label = (words test label).map List.length := by
  rw [wordCount, fold]
  congr 1
  funext ws
  rw [List.foldl_add_const]
  omega

theorem parse_wordCount_eq_success {n : Nat} :
    (wordCount test label).parse s = .success ⟨n, r⟩ ↔
      ∃ ws, (words test label).parse s = .success ⟨ws, r⟩ ∧ n = ws.length := by
  rw [wordCount_eq_map, parse_map_eq_success]
  constructor
  · rintro ⟨⟨ws, r⟩, h, ⟨⟩⟩
    exact ⟨ws, h, rfl⟩
  · rintro ⟨ws, h, rfl⟩
    exact ⟨⟨ws, r⟩, h, rfl⟩

/-- **A text is split into its words.** If a space belongs to no word, then of every text `s`
* the words `ws` are found, and `r` left, exactly if `s` is these words with spaces between
  them, in front of `r`, and there is at most one way to split it so;
* words are found exactly if the first character that is no space belongs to a word;
* otherwise the failure is a mismatch that shows the text without the spaces in front, and
  never a breach;
* the count is that of the words. -/
theorem words_eq_split (hsep : test ' ' = false) (label : String) (s : Text) :
    (∀ ws r, (words test label).parse s = .success ⟨ws, r⟩ ↔ Splits test s ws r) ∧
    (∀ ws r ws' r', Splits test s ws r → Splits test s ws' r' → ws = ws' ∧ r = r') ∧
    ((∃ a, (words test label).parse s = .success a) ↔
      ∃ j c t, s = blank j ++ .cons c t ∧ test c = true) ∧
    (∀ e, (words test label).parse s = .failure e ↔
      ∃ j t, s = blank j ++ t ∧ t.Stops isSpace ∧ t.Stops test ∧
        e = .labelled s!"{label}: {t}") ∧
    (∀ n, (words test label).parse s ≠ .failure (.breach (.noProgress n))) ∧
    ∀ n r, (wordCount test label).parse s = .success ⟨n, r⟩ ↔
      ∃ ws, (words test label).parse s = .success ⟨ws, r⟩ ∧ n = ws.length := by
  refine ⟨fun ws r => parse_words_eq_success hsep, fun ws r ws' r' h h' => ?_,
    exists_parse_words_eq_success hsep, fun e => parse_words_eq_failure hsep, fun n h => ?_,
    fun n r => parse_wordCount_eq_success⟩
  · have hparse : (words test label).parse s = .success ⟨ws, r⟩ :=
      (parse_words_eq_success hsep).mpr h
    rw [(parse_words_eq_success hsep).mpr h'] at hparse
    cases hparse
    exact ⟨rfl, rfl⟩
  · obtain ⟨_, _, _, _, _, he⟩ := (parse_words_eq_failure hsep).mp h
    cases he

/-- Four words with one space or two between them; and a text that begins with none. -/
theorem words_of_sentence :
    Char.isAlpha ' ' = false ∧
    (words Char.isAlpha "expected a word").parse (.ofString " the quick  brown fox !") =
      .success ⟨[.ofString "the", .ofString "quick", .ofString "brown", .ofString "fox"],
        .ofString "!"⟩ ∧
    (wordCount Char.isAlpha "expected a word").parse (.ofString " the quick  brown fox !") =
      .success ⟨4, .ofString "!"⟩ ∧
    (words Char.isAlpha "expected a word").parse (.ofString "  7 up") =
      .failure (.labelled "expected a word: 7 up") := by
  have hsep : Char.isAlpha ' ' = false := by decide
  have hsplits : Splits Char.isAlpha (.ofString " the quick  brown fox !")
      [.ofString "the", .ofString "quick", .ofString "brown", .ofString "fox"]
      (.ofString "!") :=
    ⟨1, _, by decide,
      .more (w := .ofString "the") 0 (by decide) (by decide) <|
      .more (w := .ofString "quick") 1 (by decide) (by decide) <|
      .more (w := .ofString "brown") 0 (by decide) (by decide) <|
      .last (w := .ofString "fox") 1 (by decide) (by decide) (by decide) (by decide)⟩
  obtain ⟨hwords, -, -, -, -, hcount⟩ :=
    words_eq_split hsep "expected a word" (.ofString " the quick  brown fox !")
  obtain ⟨-, -, -, hfailure, -⟩ := words_eq_split hsep "expected a word" (.ofString "  7 up")
  have hparse := (hwords _ _).mpr hsplits
  exact ⟨hsep, hparse, (hcount _ _).mpr ⟨_, hparse, rfl⟩, (hfailure _).mpr
    ⟨2, .ofString "7 up", by decide, by decide, by decide, rfl⟩⟩

end Arith

end Descent
