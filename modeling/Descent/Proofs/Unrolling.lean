import Descent.Proofs.Suffix

/-!
# The first round of a repetition, on its own

A repetition is the parser and behind it the repetition that may take nothing, as long as
the way ends where the parser fails: the two have the same run, whether that is a success
or not (`LeavesSuffix.run_lift2_cons_at_failure`). If the way ends without progress the
two say so with counts of their own, since the repetition behind the parser does not know
of the success in front of it (`oneOrMore_unrolled`).
-/

namespace Descent

namespace Parser

variable {α : Type} {p : Parser α} {s t : Text} {ts : List Text} {vs : List α}

/-- On every success the parser takes something. -/
def Consumes (p : Parser α) : Prop := ∀ s a, p.parse s = .success a → a.rest.size < s.size

/-- Where the way of a repetition ends in a failure of the parser, the first round may be
set apart. -/
theorem LeavesSuffix.run_lift2_cons_at_failure (hp : p.LeavesSuffix)
    (hadv : Advances p s ts vs t) {e : ParseError} (he : p.parse t = .failure e) :
    (lift2 List.cons p (Parser.zeroOrMore p)).run s = (Parser.oneOrMore p).run s := by
  have hst : p.Stalls t := stalls_of_failure he
  rw [run_lift2, hp.run_oneOrMore hadv hst, he]
  cases hadv with
  | refl =>
    rw [Run.andThen_of_failure he]
    cases e <;> simp
  | step ha hlt hadv =>
    rw [Run.andThen_of_success ha, hp.run_zeroOrMore hadv hst, he]
    -- a mismatch in the first round of the repetition behind the parser is absorbed
    cases e with
    | mismatch m =>
      cases hadv with
      | refl => simp [Run.map, Run.after, Success.map]
      | step => simp [Run.map, Run.after, Success.map]
    | breach b => simp [Run.map, Run.after]

/-- Where it ends without progress, the success of the first round is not counted by the
repetition behind it. -/
theorem LeavesSuffix.parse_lift2_cons_at_success (hp : p.LeavesSuffix)
    (hadv : Advances p s ts vs t) (hst : p.Stalls t) {a : Success α}
    (ha : p.parse t = .success a) :
    (lift2 List.cons p (Parser.zeroOrMore p)).parse s =
      .failure (.breach (.noProgress (vs.length - 1))) := by
  rw [parse, run_lift2]
  cases hadv with
  | refl =>
    -- the round that was set apart found no progress, and the next one does so again
    have hrest : a.rest = s := hp.rest_eq ha (hst a ha)
    rw [Run.andThen_of_success ha, hrest, hp.run_zeroOrMore (.refl s) hst, ha]
    rfl
  | step hb hlt hadv =>
    rw [Run.andThen_of_success hb, hp.run_zeroOrMore hadv hst, ha]
    rfl

theorem LeavesSuffix.parse_oneOrMore_at_success (hp : p.LeavesSuffix)
    (hadv : Advances p s ts vs t) (hst : p.Stalls t) {a : Success α}
    (ha : p.parse t = .success a) :
    (Parser.oneOrMore p).parse s = .failure (.breach (.noProgress vs.length)) := by
  rw [parse, hp.run_oneOrMore hadv hst, ha]

/-- Where the parser fails, its repetition ends with what it has found, if that is
something, or fails in the same way. -/
theorem LeavesSuffix.parse_oneOrMore_at_failure (hp : p.LeavesSuffix)
    (hadv : Advances p s ts vs t) {e : ParseError} (he : p.parse t = .failure e) :
    (Parser.oneOrMore p).parse s = .success ⟨vs, t⟩ ∨
      (Parser.oneOrMore p).parse s = .failure e := by
  rw [parse, hp.run_oneOrMore hadv (stalls_of_failure he), he]
  rcases e with m | b
  · by_cases hvs : vs = []
    · simp [hvs]
    · simp [hvs]
  · simp

theorem Consumes.oneOrMore_eq (hc : p.Consumes) (hp : p.LeavesSuffix) :
    oneOrMore p = lift2 List.cons p (zeroOrMore p) := by
  apply ext
  intro s
  obtain ⟨ts, vs, t, hadv, hst⟩ := exists_advances p s
  cases ho : p.parse t with
  | failure e => exact (hp.run_lift2_cons_at_failure hadv ho).symm
  | success a => exact absurd (hst a ho) (Nat.not_le.mpr (hc t a ho))

/-- Where every success takes something, and nothing is a breach, a repetition fails exactly as
its parser does. -/
theorem Consumes.parse_oneOrMore_eq_failure (hc : p.Consumes)
    (hb : ∀ s b, p.parse s ≠ .failure (.breach b)) {e : ParseError} :
    (oneOrMore p).parse s = .failure e ↔ p.parse s = .failure e := by
  constructor
  · intro h
    obtain ⟨ts, vs, t, hadv, hst⟩ := exists_advances p s
    rcases ho : p.parse t with a | ⟨m | b⟩
    · exact absurd (hst a ho) (Nat.not_le.mpr (hc t a ho))
    · by_cases hvs : vs = []
      · subst hvs
        cases hadv
        rw [parse_oneOrMore_of_failure ho] at h
        cases h
        exact ho
      · rw [parse, hadv.run_oneOrMore hvs ho] at h
        cases h
    · exact absurd ho (hb t b)
  · exact parse_oneOrMore_of_failure

/-- **The first round of a repetition may be set apart.** From every text `s` a parser that
leaves suffixes advances, with the values `vs`, to a text `t` where it stalls. Between its
repetition and the parser with the repetition behind it that may take nothing there is no
difference if the parser fails on `t`: both have the values and leave `t`, or both fail as
the parser does. If it succeeds on `t`, without progress, the repetition counts the values,
and the other one counts them without the first.

If the parser takes something on every success the two are equal, and so they are for the
parser with a trace: it is invoked on the same texts in the same order. -/
theorem oneOrMore_unrolled (hp : p.LeavesSuffix) :
    (∀ s, ∃ ts vs t, Advances p s ts vs t ∧ p.Stalls t ∧
      (∀ e, p.parse t = .failure e →
        (lift2 List.cons p (zeroOrMore p)).parse s = (oneOrMore p).parse s ∧
        ((oneOrMore p).parse s = .success ⟨vs, t⟩ ∨ (oneOrMore p).parse s = .failure e)) ∧
      ∀ a, p.parse t = .success a →
        (oneOrMore p).parse s = .failure (.breach (.noProgress vs.length)) ∧
        (vs.length = 0 → (lift2 List.cons p (zeroOrMore p)).parse s =
          .failure (.breach (.noProgress 0))) ∧
        ∀ m, vs.length = m + 1 → (lift2 List.cons p (zeroOrMore p)).parse s =
          .failure (.breach (.noProgress m))) ∧
    (p.Consumes → oneOrMore p = lift2 List.cons p (zeroOrMore p) ∧
      ∀ label, oneOrMore (traced label p) =
        lift2 List.cons (traced label p) (zeroOrMore (traced label p))) := by
  refine ⟨fun s => ?_, fun hc => ⟨hc.oneOrMore_eq hp, fun label => ?_⟩⟩
  · obtain ⟨ts, vs, t, hadv, hst⟩ := exists_advances p s
    refine ⟨ts, vs, t, hadv, hst, fun e he => ⟨?_, hp.parse_oneOrMore_at_failure hadv he⟩,
      fun a ha => ?_⟩
    · rw [parse, parse, hp.run_lift2_cons_at_failure hadv he]
    · have hcount := hp.parse_lift2_cons_at_success hadv hst ha
      refine ⟨hp.parse_oneOrMore_at_success hadv hst ha, fun h => ?_, fun m h => ?_⟩
      · rw [hcount, h]
      · rw [hcount, h, Nat.add_sub_cancel]
  · have hc' : (traced label p).Consumes := hc
    exact hc'.oneOrMore_eq (hp.traced label)

/-- Runs of spaces are found in two spaces and an `x` once, and then without progress: the
success is counted, or was set apart. Characters are found in the same way and order by
both. -/
theorem unrolled_spaces_and_characters :
    Arith.spaces.LeavesSuffix ∧
    (oneOrMore Arith.spaces).parse (.ofString "  x") = .failure (.breach (.noProgress 1)) ∧
    (lift2 List.cons Arith.spaces (zeroOrMore Arith.spaces)).parse (.ofString "  x") =
      .failure (.breach (.noProgress 0)) ∧
    symbol.LeavesSuffix ∧ symbol.Consumes ∧
    oneOrMore (traced "symbol" symbol) =
      lift2 List.cons (traced "symbol" symbol) (zeroOrMore (traced "symbol" symbol)) := by
  have hspaces : Arith.spaces.LeavesSuffix := leavesSuffix_zeroOrMoreChars Arith.isSpace
  have hfirst : Arith.spaces.parse (.ofString "  x") =
      .success ⟨.ofString "  ", .ofString "x"⟩ := by decide
  have hsecond : Arith.spaces.parse (.ofString "x") = .success ⟨∅, .ofString "x"⟩ := by decide
  have hway : Advances Arith.spaces (.ofString "  x") [.ofString "  x"] [.ofString "  "]
      (.ofString "x") := .step hfirst (by decide) (.refl _)
  have hend : Arith.spaces.Stalls (.ofString "x") := by
    intro a ha
    cases hsecond.symm.trans ha
    exact Nat.le_refl _
  have hsymbol : symbol.Consumes := by
    intro s a ha
    cases s with
    | empty => cases ha
    | cons c s =>
      cases ha
      have := c.utf8Size_pos
      simp
      omega
  obtain ⟨ts, vs, t, hadv, hst, -, hcount⟩ := (oneOrMore_unrolled hspaces).1 (.ofString "  x")
  obtain ⟨-, rfl, rfl⟩ := hadv.unique hst hway hend
  obtain ⟨hone, -, hunrolled⟩ := hcount _ hsecond
  exact ⟨hspaces, hone, hunrolled 0 rfl, leavesSuffix_symbol, hsymbol,
    ((oneOrMore_unrolled leavesSuffix_symbol).2 hsymbol).2 "symbol"⟩

end Parser

end Descent
