import Descent.Proofs.OrderedChoice
import Descent.Proofs.Progress
import Descent.Proofs.Suffix

/-!
# Repetitions of repetitions

A repetition that succeeds has taken all it can: its parser mismatches on what is left
(`LeavesSuffix.parse_oneOrMore_cases`). So there is nothing in it for a second
repetition, and a repetition that is repeated has one round at most: what it finds in this
round is all it finds, and where there is none it fails as the repetition does
(`repetition_maximal`).
-/

namespace Descent

namespace Parser

variable {α : Type} {p : Parser α} {s : Text}

/-! ### One round -/

theorem parse_zeroOrMore (p : Parser α) (s : Text) :
    (zeroOrMore p).parse s =
      match (oneOrMore p).parse s with
      | .failure (.mismatch _) => .success ⟨[], s⟩
      | o => o := by
  rw [parse, run_zeroOrMore, parse]
  rcases ho : ((oneOrMore p).run s).outcome with a | ⟨m | b⟩
  · rw [Run.orElse_of_success ho, ho]
  · rw [Run.orElse_of_mismatch ho]
    rfl
  · rw [Run.orElse_of_breach ho, ho]

theorem Mismatches.oneOrMore (h : p.Mismatches s) : (Parser.oneOrMore p).Mismatches s := by
  obtain ⟨m, hm⟩ := h
  exact ⟨m, parse_oneOrMore_of_failure hm⟩

theorem Mismatches.parse_zeroOrMore (h : p.Mismatches s) :
    (zeroOrMore p).parse s = .success ⟨[], s⟩ := by
  obtain ⟨m, hm⟩ := h.oneOrMore
  rw [Parser.parse_zeroOrMore, hm]

/-- The first success, if the parser mismatches behind it. -/
theorem parse_oneOrMore_of_mismatches {a : Success α} (h : p.parse s = .success a)
    (hlt : a.rest.size < s.size) (hm : p.Mismatches a.rest) :
    (oneOrMore p).parse s = .success ⟨[a.value], a.rest⟩ := by
  obtain ⟨m, hm⟩ := hm
  rw [parse, run_oneOrMore, rounds_of_lt h hlt, rounds_of_failure hm]
  rfl

/-! ### The end of a repetition -/

/-- A repetition succeeds, having taken something, and leaves what its parser mismatches on;
or it mismatches as its parser does; or it is in breach. -/
theorem LeavesSuffix.parse_oneOrMore_cases (hp : p.LeavesSuffix) (s : Text) :
    (∃ vs t, (Parser.oneOrMore p).parse s = .success ⟨vs, t⟩ ∧ vs ≠ [] ∧ t.size < s.size ∧
      p.Mismatches t) ∨
    (∃ m, (Parser.oneOrMore p).parse s = .failure (.mismatch m) ∧
      p.parse s = .failure (.mismatch m)) ∨
    ∃ b, (Parser.oneOrMore p).parse s = .failure (.breach b) := by
  obtain ⟨ts, vs, t, hadv, hst⟩ := exists_advances p s
  rw [parse, hp.run_oneOrMore hadv hst]
  rcases ho : p.parse t with a | ⟨m | b⟩
  · exact Or.inr (Or.inr ⟨_, rfl⟩)
  · cases hadv with
    | refl => exact Or.inr (Or.inl ⟨m, by simp, ho⟩)
    | @step _ _ a _ vs _ hlt hadv =>
      have hlt' : t.size < s.size := Nat.lt_of_le_of_lt hadv.size_le hlt
      exact Or.inl ⟨a.value :: vs, t, by simp, List.cons_ne_nil _ _, hlt', m, ho⟩
  · exact Or.inr (Or.inr ⟨b, rfl⟩)

/-- What a repetition leaves, with a first success or without, its parser mismatches on. -/
theorem LeavesSuffix.mismatches_rest (hp : p.LeavesSuffix) {b : Success (List α)}
    (h : (Parser.oneOrMore p).parse s = .success b ∨ (Parser.zeroOrMore p).parse s = .success b) :
    p.Mismatches b.rest := by
  rw [parse_zeroOrMore] at h
  obtain ⟨vs, t, ho, -, -, hm⟩ | ⟨m, ho, hm⟩ | ⟨c, ho⟩ := hp.parse_oneOrMore_cases s
  · simp only [ho, or_self, Outcome.success.injEq] at h
    rwa [← h]
  · simp only [ho, reduceCtorEq, false_or, Outcome.success.injEq] at h
    rw [← h]
    exact ⟨m, hm⟩
  · simp [ho] at h

/-! ### A repetition, repeated -/

theorem LeavesSuffix.parse_oneOrMore_oneOrMore (hp : p.LeavesSuffix) (s : Text) :
    (Parser.oneOrMore (Parser.oneOrMore p)).parse s =
      ((Parser.oneOrMore p).map fun vs => [vs]).parse s := by
  rw [parse_map]
  obtain ⟨vs, t, ho, -, hlt, hm⟩ | ⟨m, ho, -⟩ | ⟨b, ho⟩ := hp.parse_oneOrMore_cases s
  · rw [parse_oneOrMore_of_mismatches ho hlt hm.oneOrMore, ho]
    rfl
  · rw [parse_oneOrMore_of_failure ho, ho]
    rfl
  · rw [parse_oneOrMore_of_failure ho, ho]
    rfl

theorem LeavesSuffix.parse_zeroOrMore_oneOrMore (hp : p.LeavesSuffix) (s : Text) :
    (Parser.zeroOrMore (Parser.oneOrMore p)).parse s =
      ((Parser.zeroOrMore p).map fun vs => if vs = [] then [] else [vs]).parse s := by
  rw [parse_map, parse_zeroOrMore, parse_zeroOrMore, hp.parse_oneOrMore_oneOrMore, parse_map]
  obtain ⟨vs, t, ho, hvs, -, -⟩ | ⟨m, ho, -⟩ | ⟨b, ho⟩ := hp.parse_oneOrMore_cases s
  · simp [ho, hvs, Success.map]
  · simp [ho, Success.map]
  · simp [ho]

/-- **Repetitions are maximal.** What the repetition of a parser that leaves suffixes has
left, with a first success or without, the parser mismatches on, and to repeat it there
finds nothing and leaves all. Therefore to repeat the repetition finds, in one round, what
the repetition finds; where that finds nothing there is no round; and the failures are the
same, with the same counts. -/
theorem repetition_maximal (hp : p.LeavesSuffix) :
    (∀ s b, (oneOrMore p).parse s = .success b ∨ (zeroOrMore p).parse s = .success b →
      p.Mismatches b.rest ∧ (zeroOrMore p).parse b.rest = .success ⟨[], b.rest⟩) ∧
    (∀ s, (oneOrMore (oneOrMore p)).parse s = ((oneOrMore p).map fun vs => [vs]).parse s) ∧
    ∀ s, (zeroOrMore (oneOrMore p)).parse s =
      ((zeroOrMore p).map fun vs => if vs = [] then [] else [vs]).parse s := by
  refine ⟨fun s b h => ?_, hp.parse_oneOrMore_oneOrMore, hp.parse_zeroOrMore_oneOrMore⟩
  have hm := hp.mismatches_rest h
  exact ⟨hm, hm.parse_zeroOrMore⟩

/-- Letters `a`, repeated, in `aab`; and characters at the end of the text. -/
theorem repetition_maximal_letters :
    (char 'a').LeavesSuffix ∧
    (oneOrMore (char 'a')).parse (.ofString "aab") = .success ⟨['a', 'a'], .ofString "b"⟩ ∧
    (char 'a').Mismatches (.ofString "b") ∧
    (zeroOrMore (char 'a')).parse (.ofString "b") = .success ⟨[], .ofString "b"⟩ ∧
    (oneOrMore (oneOrMore (char 'a'))).parse (.ofString "aab") =
      .success ⟨[['a', 'a']], .ofString "b"⟩ ∧
    (zeroOrMore (oneOrMore (char 'a'))).parse (.ofString "b") =
      .success ⟨[], .ofString "b"⟩ := by
  have hp : (char 'a').LeavesSuffix := leavesSuffix_symbolIf _ _
  obtain ⟨m, hend⟩ : (char 'a').Mismatches (.ofString "b") := ⟨_, rfl⟩
  have hfirst : (char 'a').parse (.ofString "aab") = .success ⟨'a', .ofString "ab"⟩ := rfl
  have hsecond : (char 'a').parse (.ofString "ab") = .success ⟨'a', .ofString "b"⟩ := rfl
  have hway : Advances (char 'a') (.ofString "aab") [.ofString "aab", .ofString "ab"] ['a', 'a']
      (.ofString "b") := .step hfirst (by decide) (.step hsecond (by decide) (.refl _))
  have hone : (oneOrMore (char 'a')).parse (.ofString "aab") =
      .success ⟨['a', 'a'], .ofString "b"⟩ := by
    rw [parse, hp.run_oneOrMore hway (stalls_of_failure hend), hend]
    rfl
  obtain ⟨hmaximal, hnested, hnested'⟩ := repetition_maximal hp
  obtain ⟨hm, hzero⟩ := hmaximal _ _ (Or.inl hone)
  refine ⟨hp, hone, hm, hzero, ?_, ?_⟩
  · rw [hnested, parse_map, hone]
    rfl
  · rw [hnested', parse_map, hzero]
    rfl

end Parser

end Descent
