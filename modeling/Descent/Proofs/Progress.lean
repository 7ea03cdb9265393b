import Descent.Proofs.Repetition

/-!
# Progress of repetitions

What counts as progress is that the size of what is left changes. A success with a
remainder as long as the text it was parsed from ends the repetition, wherever on its way
that happens (`Proceeds.run_of_eq`). A longer remainder is told apart from it, although
no byte of the text has been consumed then, either: the repetition goes on behind it, and
may end in a success with more text than it was given (`parse_repetition_regrowing`).

So a repetition that succeeds has consumed something unless it lengthened the text
(`repetition_of_consumed_eq_zero`).
-/

namespace Descent

namespace Parser

variable {α : Type} {p : Parser α} {m n k : Nat} {s t u : Text} {ts us : List Text}
variable {vs ws : List α}

/-! ### Where a repetition gets to -/

theorem Proceeds.trans (h : Proceeds p m s ts vs t) (h' : Proceeds p n t us ws u) :
    Proceeds p (m + n) s (ts ++ us) (vs ++ ws) u := by
  induction h with
  | refl s => rwa [Nat.zero_add]
  | shorten ha hlt _ ih => exact .shorten ha hlt (ih h')
  | lengthen ha hgt _ ih =>
    rw [Nat.add_right_comm]
    exact .lengthen ha hgt (ih h')

/-- The repetition, from where it gets to before patience is lost. -/
theorem Proceeds.run_oneOrMore (h : Proceeds p m s ts vs t) (hm : m ≤ patience) :
    (oneOrMore p).run s = ((rounds p (patience - m) vs.length t).map (vs ++ ·)).after
      (ts.flatMap fun u => (p.run u).log) := by
  have hrounds := rounds_of_proceeds (n := patience - m) (k := 0) h
  rwa [Nat.sub_add_cancel hm, Nat.zero_add, ← Parser.run_oneOrMore] at hrounds

/-- A round begins with an invocation on the text it starts from. -/
theorem exists_log_rounds (p : Parser α) (n k : Nat) (s : Text) :
    ∃ l, (rounds p n k s).log = (p.run s).log ++ l := by
  cases ho : p.parse s with
  | failure e => exact ⟨[], by rw [rounds_of_failure ho, List.append_nil]⟩
  | success a =>
    obtain ⟨b, hrun⟩ | ⟨m, hrun⟩ := rounds_of_success (n := n) (k := k) ho
    · exact ⟨[], by rw [hrun, List.append_nil]⟩
    · exact ⟨_, by rw [hrun, Run.log_after]⟩

/-- A repetition that may take nothing invokes its parser as one that may not. -/
theorem log_run_zeroOrMore (p : Parser α) (s : Text) :
    ((zeroOrMore p).run s).log = ((oneOrMore p).run s).log := by
  rw [run_zeroOrMore, Run.orElse]
  split
  · rw [Run.log_after, Run.log_of, List.append_nil]
  · rfl

/-- The parser is invoked on all texts the repetition gets to, in their order. -/
theorem Proceeds.isPrefix_log (h : Proceeds p m s ts vs t) (hm : m ≤ patience) :
    ((ts ++ [t]).flatMap fun u => (p.run u).log) <+: ((oneOrMore p).run s).log := by
  obtain ⟨l, hl⟩ := exists_log_rounds p (patience - m) vs.length t
  refine ⟨l, ?_⟩
  rw [h.run_oneOrMore hm, Run.log_after, Run.log_map, hl]
  simp

/-! ### Where it ends -/

/-- A remainder as long as the text ends the repetition, and nothing absorbs it. -/
theorem Proceeds.run_of_eq (h : Proceeds p m s ts vs t) (hm : m ≤ patience) {a : Success α}
    (ha : p.parse t = .success a) (heq : a.rest.size = t.size) :
    (oneOrMore p).run s = ⟨(ts ++ [t]).flatMap fun u => (p.run u).log,
      .failure (.breach (.noProgress vs.length))⟩ := by
  rw [h.run_oneOrMore hm, rounds_of_eq ha heq]
  simp [Run.map, Run.after]

/-- Advancing takes bytes. -/
theorem Advances.size_le (h : Advances p s ts vs t) : t.size ≤ s.size := by
  induction h with
  | refl s => exact Nat.le_refl _
  | step _ hlt _ ih => exact Nat.le_trans ih (Nat.le_of_lt hlt)

theorem Advances.size_lt (h : Advances p s ts vs t) (hvs : vs ≠ []) : t.size < s.size := by
  cases h with
  | refl s => exact absurd rfl hvs
  | step _ hlt h => exact Nat.lt_of_le_of_lt h.size_le hlt

/-- A repetition that succeeds has consumed something, or it came, advancing, to a text
that the parser lengthens. -/
theorem size_lt_or_exists_lengthened {b : Success (List α)}
    (h : (oneOrMore p).parse s = .success b) :
    b.rest.size < s.size ∨ ∃ ts vs t a, Advances p s ts vs t ∧ p.parse t = .success a ∧
      t.size < a.rest.size := by
  obtain ⟨ts, vs, t, hadv, hst⟩ := exists_advances p s
  rw [parse, Parser.run_oneOrMore, rounds_of_advances hadv, Nat.zero_add] at h
  cases ho : p.parse t with
  | success a =>
    rcases Nat.lt_or_eq_of_le (hst a ho) with hlt | heq
    · exact Or.inr ⟨ts, vs, t, a, hadv, ho, hlt⟩
    · rw [rounds_of_eq ho heq.symm] at h
      cases h
  | failure e =>
    rw [rounds_of_failure ho] at h
    by_cases hk : (e.isRecoverable && vs.length != 0) = true
    · rw [if_pos hk] at h
      cases h
      rw [Bool.and_eq_true, bne_iff_ne] at hk
      exact Or.inl (hadv.size_lt fun hnil => hk.2 (congrArg List.length hnil))
    · rw [if_neg hk] at h
      cases h

/-- **Consuming nothing ends a repetition, unless the text was lengthened.** Wherever the
repetition of `p` gets to, with or without a first success, `p` is invoked there. If `p`
succeeds there and has consumed nothing, then
* the repetition ends in `noProgress`, with the number of the successes before and without
  another invocation, unless the remainder is longer than the text;
* it goes on behind the remainder if that is longer.
And a repetition that succeeds leaves fewer bytes than it was given, unless its way led to
a text that `p` lengthened. -/
theorem repetition_of_consumed_eq_zero (p : Parser α) (s : Text) :
    (∀ q, q = oneOrMore p ∨ q = zeroOrMore p →
      ∀ m ts vs t, Proceeds p m s ts vs t → m ≤ patience →
      ((ts ++ [t]).flatMap fun u => (p.run u).log) <+: (q.run s).log ∧
      ∀ a, p.parse t = .success a → a.consumed t = 0 →
        (a.rest.size ≤ t.size →
          q.run s = ⟨(ts ++ [t]).flatMap fun u => (p.run u).log,
            .failure (.breach (.noProgress vs.length))⟩) ∧
        (t.size < a.rest.size →
          Proceeds p (m + 1) s (ts ++ [t]) (vs ++ [a.value]) a.rest)) ∧
    ∀ b, (oneOrMore p).parse s = .success b →
      b.rest.size < s.size ∨ ∃ ts vs t a, Advances p s ts vs t ∧ p.parse t = .success a ∧
        t.size < a.rest.size := by
  refine ⟨fun q hq m ts vs t h hm => ⟨?_, fun a ha hc => ⟨fun hle => ?_, fun hgt => ?_⟩⟩,
    fun b hb => size_lt_or_exists_lengthened hb⟩
  · have hlog : (q.run s).log = ((oneOrMore p).run s).log := by
      rcases hq with rfl | rfl
      · rfl
      · exact log_run_zeroOrMore p s
    rw [hlog]
    exact h.isPrefix_log hm
  · have heq : a.rest.size = t.size := by
      rw [Success.consumed] at hc
      omega
    have hrun := h.run_of_eq hm ha heq
    rcases hq with rfl | rfl
    · exact hrun
    · rw [run_zeroOrMore, hrun]
      rfl
  · exact h.trans (.lengthen ha hgt (.refl _))

/-- Takes an `a`, and leaves `bcd` whatever stood behind it. -/
def regrowing : Parser Unit :=
  (char 'a').bind fun _ => ofFn fun _ => .success ⟨(), .ofString "bcd"⟩

/-- On `a` it succeeds without having consumed a byte, and its repetition succeeds, too,
leaving more than it was given. -/
theorem parse_repetition_regrowing :
    regrowing.parse (.singleton 'a') = .success ⟨(), .ofString "bcd"⟩ ∧
    Success.consumed ⟨(), .ofString "bcd"⟩ (.singleton 'a') = 0 ∧
    (oneOrMore regrowing).parse (.singleton 'a') = .success ⟨[()], .ofString "bcd"⟩ ∧
    (zeroOrMore regrowing).parse (.singleton 'a') = .success ⟨[()], .ofString "bcd"⟩ ∧
    (Text.singleton 'a').size < (Text.ofString "bcd").size := by
  have hfirst : regrowing.parse (.singleton 'a') = .success ⟨(), .ofString "bcd"⟩ := by decide
  have hgrows : (Text.singleton 'a').size < (Text.ofString "bcd").size := by decide
  have hthen : ∃ message,
      regrowing.parse (.ofString "bcd") = .failure (.mismatch message) := ⟨_, rfl⟩
  obtain ⟨message, hthen⟩ := hthen
  have hone : (oneOrMore regrowing).run (.singleton 'a') =
      ⟨[], .success ⟨[()], .ofString "bcd"⟩⟩ := by
    rw [(Proceeds.lengthen hfirst hgrows (.refl _)).run_oneOrMore (by decide),
      rounds_of_failure hthen]
    rfl
  refine ⟨hfirst, by decide, by rw [parse, hone], ?_, hgrows⟩
  rw [parse, run_zeroOrMore, hone]
  rfl

end Parser

end Descent
