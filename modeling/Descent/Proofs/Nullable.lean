import Descent.Proofs.Inversion
import Descent.Proofs.Suffix

/-!
# Repeating what never mismatches

A repetition comes to a good end in one way only: its parser mismatches behind a success.
So the repetition of a parser that never mismatches ends in a breach, whatever the parser
leaves (`NeverMismatches.exists_breach_oneOrMore`). If it leaves suffixes, too, the parser
is `Nullable`: at the end of the text, at the latest, it succeeds on nothing, unless it is
in breach itself, and then the repetition finds no progress (`repetition_of_nullable`).
Options and repetitions that may take nothing are such parsers, whatever they are made of,
and so are the sequences of such parsers.
-/

namespace Descent

namespace Parser

variable {α : Type} {p : Parser α} {s : Text}

/-- On every text the parser succeeds or is in breach. -/
def NeverMismatches (p : Parser α) : Prop := ∀ s m, p.parse s ≠ .failure (.mismatch m)

/-- The parser takes what it can from the front of any text, and be it nothing. -/
structure Nullable (p : Parser α) : Prop where
  /-- A success leaves a suffix. -/
  leavesSuffix : p.LeavesSuffix
  /-- There is a success, or a breach. -/
  neverMismatches : p.NeverMismatches

/-! ### Parsers that never mismatch -/

theorem neverMismatches_optional (p : Parser α) : (optional p).NeverMismatches := by
  intro s m h
  obtain ⟨-, h⟩ | ⟨-, h⟩ := Run.outcome_orElse_eq_failure.mp h
  · cases h
  · cases h

theorem neverMismatches_zeroOrMore (p : Parser α) : (zeroOrMore p).NeverMismatches := by
  intro s m h
  exact neverMismatches_optional (oneOrMore p) s m (Run.outcome_map_eq_failure.mp h)

theorem neverMismatches_sequence {ps : List (Parser α)} (h : ∀ p ∈ ps, p.NeverMismatches) :
    (sequence ps).NeverMismatches := by
  induction ps with
  | nil =>
    intro s m hm
    cases hm
  | cons p ps ih =>
    obtain ⟨hp, hps⟩ := List.forall_mem_cons.mp h
    intro s m hm
    rw [sequence_cons] at hm
    obtain hm | ⟨a, -, hm⟩ := parse_lift2_eq_failure.mp hm
    · exact hp s m hm
    · exact ih hps a.rest m hm

theorem nullable_pure (a : α) : (Parser.pure a).Nullable :=
  ⟨leavesSuffix_pure a, fun _ _ h => by cases h⟩

theorem nullable_zeroOrMoreChars (test : Char → Bool) : (zeroOrMoreChars test).Nullable :=
  ⟨leavesSuffix_zeroOrMoreChars test, fun _ _ h => by cases h⟩

theorem LeavesSuffix.nullable_optional (hp : p.LeavesSuffix) : (Parser.optional p).Nullable :=
  ⟨hp.optional, neverMismatches_optional p⟩

theorem LeavesSuffix.nullable_zeroOrMore (hp : p.LeavesSuffix) :
    (Parser.zeroOrMore p).Nullable := ⟨hp.zeroOrMore, neverMismatches_zeroOrMore p⟩

theorem nullable_sequence {ps : List (Parser α)} (h : ∀ p ∈ ps, p.Nullable) :
    (sequence ps).Nullable :=
  ⟨leavesSuffix_sequence fun p hp => (h p hp).leavesSuffix,
    neverMismatches_sequence fun p hp => (h p hp).neverMismatches⟩

/-! ### Their repetitions -/

/-- No round ends well, and none ends in a mismatch. -/
theorem NeverMismatches.exists_breach_rounds (hp : p.NeverMismatches) (n k : Nat) (s : Text) :
    ∃ b, (rounds p n k s).outcome = .failure (.breach b) := by
  fun_induction rounds p n k s with
  | case1 n k s a h hlt ih =>
    obtain ⟨b, hb⟩ := ih
    exact ⟨b, Run.outcome_map_eq_failure.mpr hb⟩
  | case2 n k s a h hlt heq => exact ⟨.noProgress k, rfl⟩
  | case3 k s a h hlt hne => exact ⟨.runaway, rfl⟩
  | case4 k s a h hlt hne n ih =>
    obtain ⟨b, hb⟩ := ih
    exact ⟨b, Run.outcome_map_eq_failure.mpr hb⟩
  | case5 n k s e h =>
    cases e with
    | mismatch m => exact absurd h (hp s m)
    | breach b => exact ⟨b, rfl⟩

theorem NeverMismatches.exists_breach_oneOrMore (hp : p.NeverMismatches) (s : Text) :
    ∃ b, (oneOrMore p).parse s = .failure (.breach b) := by
  rw [parse, run_oneOrMore]
  exact hp.exists_breach_rounds patience 0 s

/-- There is no mismatch for a repetition that may take nothing to absorb. -/
theorem NeverMismatches.run_zeroOrMore (hp : p.NeverMismatches) (s : Text) :
    (zeroOrMore p).run s = (oneOrMore p).run s := by
  obtain ⟨b, hb⟩ := hp.exists_breach_oneOrMore s
  rw [Parser.run_zeroOrMore, Run.orElse_of_breach hb]

/-- Where a nullable parser stalls, it succeeds on nothing or is in breach, and that
settles its repetition. -/
theorem Nullable.parse_oneOrMore (hp : p.Nullable) {ts : List Text} {vs : List α} {t : Text}
    (hadv : Advances p s ts vs t) (hst : p.Stalls t) :
    (∃ a, p.parse t = .success a ∧ a.rest.size = t.size) ∧
        (oneOrMore p).parse s = .failure (.breach (.noProgress vs.length)) ∨
      ∃ b, p.parse t = .failure (.breach b) ∧
        (oneOrMore p).parse s = .failure (.breach b) := by
  have hrun := hp.leavesSuffix.run_oneOrMore hadv hst
  rcases ho : p.parse t with a | ⟨m | b⟩
  · rw [ho] at hrun
    have hsize : a.rest.size = t.size :=
      Nat.le_antisymm (hp.leavesSuffix.size_le ho) (hst a ho)
    exact Or.inl ⟨⟨a, rfl, hsize⟩, by rw [parse, hrun]⟩
  · exact absurd ho (hp.neverMismatches t m)
  · rw [ho] at hrun
    exact Or.inr ⟨b, rfl, by rw [parse, hrun]⟩

/-- **Repetitions of nullable parsers are rejected.** If a parser leaves suffixes and never
mismatches, then from every text `s` it advances over some texts `ts` to a text `t` where
it stalls, and its repetition, with or without a first success, does not succeed: it ends
in `noProgress` with the number of the successes that took something, if the parser
succeeds on `t` with all of it left; and otherwise in the breach that the parser itself
ends in on `t`.

Such parsers are `pure`, options, repetitions that may take nothing, runs of characters
that may be empty, and sequences of such parsers; and a repetition of repetitions that may
take nothing never succeeds, whatever is repeated. -/
theorem repetition_of_nullable :
    (∀ {α : Type} {p : Parser α}, p.Nullable → ∀ s, ∃ ts vs t,
      Advances p s ts vs t ∧ p.Stalls t ∧
      ∀ q, q = oneOrMore p ∨ q = zeroOrMore p →
        (∃ a, p.parse t = .success a ∧ a.rest.size = t.size) ∧
            q.parse s = .failure (.breach (.noProgress vs.length)) ∨
          ∃ b, p.parse t = .failure (.breach b) ∧ q.parse s = .failure (.breach b)) ∧
    (∀ {α : Type} (a : α), (Parser.pure a).Nullable) ∧
    (∀ {α : Type} {p : Parser α}, p.LeavesSuffix →
      (optional p).Nullable ∧ (zeroOrMore p).Nullable) ∧
    (∀ test, (zeroOrMoreChars test).Nullable) ∧
    (∀ {α : Type} {ps : List (Parser α)}, (∀ p ∈ ps, p.Nullable) → (sequence ps).Nullable) ∧
    ∀ {α : Type} (p : Parser α) s a, (zeroOrMore (zeroOrMore p)).parse s ≠ .success a := by
  refine ⟨fun {_ p} hp s => ?_, nullable_pure,
    fun hp => ⟨hp.nullable_optional, hp.nullable_zeroOrMore⟩, nullable_zeroOrMoreChars,
    nullable_sequence, fun p s a ha => ?_⟩
  · obtain ⟨ts, vs, t, hadv, hst⟩ := exists_advances p s
    refine ⟨ts, vs, t, hadv, hst, fun q hq => ?_⟩
    have hparse : q.parse s = (oneOrMore p).parse s := by
      rcases hq with rfl | rfl
      · rfl
      · rw [parse, hp.neverMismatches.run_zeroOrMore, parse]
    rw [hparse]
    exact hp.parse_oneOrMore hadv hst
  · have hp := neverMismatches_zeroOrMore p
    obtain ⟨b, hb⟩ := hp.exists_breach_oneOrMore s
    rw [parse, hp.run_zeroOrMore, ← parse, hb] at ha
    cases ha

/-- Runs of spaces, repeated on a text of two spaces and an `x`: one success took something,
and behind it there is no progress. -/
theorem noProgress_behind_spaces :
    Arith.spaces.Nullable ∧
    (oneOrMore Arith.spaces).parse (.ofString "  x") = .failure (.breach (.noProgress 1)) ∧
    (zeroOrMore Arith.spaces).parse (.ofString "  x") = .failure (.breach (.noProgress 1)) := by
  have hnull : Arith.spaces.Nullable := nullable_zeroOrMoreChars Arith.isSpace
  obtain ⟨ts, vs, t, hadv, hst, hends⟩ := repetition_of_nullable.1 hnull (.ofString "  x")
  have hfirst : Arith.spaces.parse (.ofString "  x") =
      .success ⟨.ofString "  ", .ofString "x"⟩ := by decide
  have hsecond : Arith.spaces.parse (.ofString "x") = .success ⟨∅, .ofString "x"⟩ := by decide
  obtain ⟨hlength, rfl⟩ : vs.length = 1 ∧ t = .ofString "x" := by
    cases hadv with
    | refl => exact absurd (hst _ hfirst) (by decide)
    | step ha _ hadv =>
      cases hfirst.symm.trans ha
      cases hadv with
      | refl => exact ⟨rfl, rfl⟩
      | step ha hlt _ =>
        cases hsecond.symm.trans ha
        exact absurd hlt (Nat.lt_irrefl _)
  refine ⟨hnull, ?_, ?_⟩
  · obtain ⟨-, h⟩ | ⟨b, hb, -⟩ := hends _ (Or.inl rfl)
    · rw [h, hlength]
    · cases hsecond.symm.trans hb
  · obtain ⟨-, h⟩ | ⟨b, hb, -⟩ := hends _ (Or.inr rfl)
    · rw [h, hlength]
    · cases hsecond.symm.trans hb

end Parser

end Descent
