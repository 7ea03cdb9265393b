import Descent.Parser.Chars
import Descent.Parser.Choice

/-!
# Laws of ordered choice

A choice runs its alternatives in order, each on the input of the choice, up to the first
one that does not mismatch, and that one decides (`run_anyOf_cases`). Its alternatives can
therefore be grouped in any way (`Groups.anyOf_nested`): a group that is tried through
mismatches like a single alternative, and what its mismatch said is forgotten in the end.
An alternative that always mismatches does nothing, and a second copy of an alternative is
reached only where the first one mismatched.

Options, repetitions that may take nothing, and the choice between two parsers are choices
of this kind (`optional_eq_or`, `zeroOrMore_eq_or`, `or_eq_anyOf`).
-/

namespace Descent

namespace Parser

variable {α : Type} {p : Parser α} {ps qs : List (Parser α)} {s : Text}

/-- The parser ends in a mismatch on the text. -/
def Mismatches (p : Parser α) (s : Text) : Prop := ∃ m, p.parse s = .failure (.mismatch m)

theorem not_mismatches_of_success {a : Success α} (h : p.parse s = .success a) :
    ¬ p.Mismatches s := by
  intro hm
  obtain ⟨m, hm⟩ := hm
  rw [h] at hm
  cases hm

theorem not_mismatches_of_breach {b : Breach} (h : p.parse s = .failure (.breach b)) :
    ¬ p.Mismatches s := by
  intro hm
  obtain ⟨m, hm⟩ := hm
  rw [h] at hm
  cases hm

/-! ### One alternative -/

/-- After a mismatch the other alternatives are tried. -/
theorem run_anyOf_cons_of_mismatches (h : p.Mismatches s) :
    (anyOf (p :: ps)).run s = ((anyOf ps).run s).after (p.run s).log := by
  obtain ⟨m, hm⟩ := h
  rw [run_anyOf_cons, Run.orElse_of_mismatch hm]

/-- Anything else decides. -/
theorem run_anyOf_cons_of_not_mismatches (h : ¬ p.Mismatches s) :
    (anyOf (p :: ps)).run s = p.run s := by
  rw [run_anyOf_cons, Run.orElse_of_not_mismatch h]

theorem parse_anyOf_cons_of_mismatches (h : p.Mismatches s) :
    (anyOf (p :: ps)).parse s = (anyOf ps).parse s := by
  rw [parse, run_anyOf_cons_of_mismatches h, Run.outcome_after, parse]

theorem parse_anyOf_cons_of_not_mismatches (h : ¬ p.Mismatches s) :
    (anyOf (p :: ps)).parse s = p.parse s := by
  rw [parse, run_anyOf_cons_of_not_mismatches h, parse]

/-! ### The first alternative that does not mismatch -/

/-- Alternatives that mismatch leave it to those behind them. -/
theorem run_anyOf_append_of_mismatches (h : ∀ p ∈ ps, p.Mismatches s) (qs : List (Parser α)) :
    (anyOf (ps ++ qs)).run s = ((anyOf qs).run s).after (ps.flatMap fun p => (p.run s).log) := by
  induction ps with
  | nil => rfl
  | cons p ps ih =>
    obtain ⟨hp, hps⟩ := List.forall_mem_cons.mp h
    rw [List.cons_append, run_anyOf_cons_of_mismatches hp, ih hps, Run.after_after,
      List.flatMap_cons]

theorem parse_anyOf_append_of_mismatches (h : ∀ p ∈ ps, p.Mismatches s)
    (qs : List (Parser α)) : (anyOf (ps ++ qs)).parse s = (anyOf qs).parse s := by
  rw [parse, run_anyOf_append_of_mismatches h, Run.outcome_after, parse]

/-- Where all alternatives mismatch, that is what is said. -/
theorem run_anyOf_of_mismatches (h : ∀ p ∈ ps, p.Mismatches s) :
    (anyOf ps).run s = ⟨ps.flatMap fun p => (p.run s).log, .failure .noneMatched⟩ := by
  have happend := run_anyOf_append_of_mismatches h []
  rwa [List.append_nil, run_anyOf_nil, Run.after_of] at happend

theorem parse_anyOf_of_mismatches (h : ∀ p ∈ ps, p.Mismatches s) :
    (anyOf ps).parse s = .failure .noneMatched := by
  rw [parse, run_anyOf_of_mismatches h]

/-- The first one that does not mismatch decides, and those behind it are not tried. -/
theorem run_anyOf_of_first (h : ∀ q ∈ ps, q.Mismatches s) (hp : ¬ p.Mismatches s)
    (qs : List (Parser α)) :
    (anyOf (ps ++ p :: qs)).run s =
      ⟨(ps ++ [p]).flatMap fun q => (q.run s).log, p.parse s⟩ := by
  rw [run_anyOf_append_of_mismatches h, run_anyOf_cons_of_not_mismatches hp, List.flatMap_append,
    List.flatMap_singleton]
  rfl

/-- All alternatives mismatch, or there is a first one that does not. -/
theorem exists_first_or_mismatches (ps : List (Parser α)) (s : Text) :
    (∀ p ∈ ps, p.Mismatches s) ∨ ∃ before p behind, ps = before ++ p :: behind ∧
      (∀ q ∈ before, q.Mismatches s) ∧ ¬ p.Mismatches s := by
  induction ps with
  | nil => exact Or.inl fun _ h => absurd h List.not_mem_nil
  | cons p ps ih =>
    by_cases hp : p.Mismatches s
    · obtain hps | ⟨before, q, behind, rfl, hbefore, hq⟩ := ih
      · exact Or.inl (List.forall_mem_cons.mpr ⟨hp, hps⟩)
      · exact Or.inr ⟨p :: before, q, behind, rfl, List.forall_mem_cons.mpr ⟨hp, hbefore⟩, hq⟩
    · exact Or.inr ⟨[], p, ps, rfl, fun _ h => absurd h List.not_mem_nil, hp⟩

/-- Either all alternatives are tried and mismatch, or they are tried up to the first one
that does not, which decides. Each is tried on the input of the choice. -/
theorem run_anyOf_cases (ps : List (Parser α)) (s : Text) :
    ((∀ p ∈ ps, p.Mismatches s) ∧
      (anyOf ps).run s = ⟨ps.flatMap fun p => (p.run s).log, .failure .noneMatched⟩) ∨
    ∃ before p behind, ps = before ++ p :: behind ∧ (∀ q ∈ before, q.Mismatches s) ∧
      ¬ p.Mismatches s ∧
      (anyOf ps).run s = ⟨(before ++ [p]).flatMap fun q => (q.run s).log, p.parse s⟩ := by
  obtain hps | ⟨before, p, behind, rfl, hbefore, hp⟩ := exists_first_or_mismatches ps s
  · exact Or.inl ⟨hps, run_anyOf_of_mismatches hps⟩
  · exact Or.inr ⟨before, p, behind, rfl, hbefore, hp, run_anyOf_of_first hbefore hp behind⟩

/-- The letter `c` is not tried any more. -/
example : ((anyOf [traced "a" (char 'a'), traced "b" (char 'b'), traced "c" (char 'c')]).run
    (.ofString "bc")).log.calls = [("a", .ofString "bc"), ("b", .ofString "bc")] := by decide

/-! ### Groups of alternatives -/

/-- The alternatives of one list, and behind them those of another. -/
theorem run_anyOf_append (ps qs : List (Parser α)) (s : Text) :
    (anyOf (ps ++ qs)).run s = ((anyOf ps).run s).orElse fun _ => (anyOf qs).run s := by
  induction ps with
  | nil => rfl
  | cons p ps ih =>
    rw [List.cons_append, run_anyOf_cons, ih, run_anyOf_cons, Run.orElse_orElse]

/-- Alternatives in groups: in a list of alternatives there may be groups, which are such
lists themselves, and may be empty. -/
inductive Groups (α : Type) where
  /-- Nothing. -/
  | nil
  /-- An alternative in front of others. -/
  | alternative (p : Parser α) (others : Groups α)
  /-- A group in front of other alternatives. -/
  | group (inner others : Groups α)

namespace Groups

/-- The alternatives in order, without the groups. -/
def flat : Groups α → List (Parser α)
  | nil => []
  | alternative p others => p :: others.flat
  | group inner others => inner.flat ++ others.flat

/-- The alternatives in order, with a choice for each group. -/
def nested : Groups α → List (Parser α)
  | nil => []
  | alternative p others => p :: others.nested
  | group inner others => anyOf inner.nested :: others.nested

/-- How the alternatives are grouped does not matter. -/
theorem anyOf_nested (g : Groups α) : anyOf g.nested = anyOf g.flat := by
  induction g with
  | nil => rfl
  | alternative p others ih =>
    apply ext
    intro s
    rw [nested, flat, run_anyOf_cons, run_anyOf_cons, ih]
  | group inner others ihi iho =>
    apply ext
    intro s
    rw [nested, flat, run_anyOf_cons, run_anyOf_append, ihi, iho]

end Groups

/-- Groups of groups of letters, one of them empty. -/
example : anyOf [char 'a', anyOf [anyOf [], anyOf [char 'b', char 'c']], char 'd'] =
    anyOf [char 'a', char 'b', char 'c', char 'd'] :=
  Groups.anyOf_nested (.alternative (char 'a') (.group (.group .nil (.group
    (.alternative (char 'b') (.alternative (char 'c') .nil)) .nil))
    (.alternative (char 'd') .nil)))

theorem anyOf_map_anyOf (gs : List (List (Parser α))) :
    anyOf (gs.map anyOf) = anyOf gs.flatten := by
  induction gs with
  | nil => rfl
  | cons g gs ih =>
    apply ext
    intro s
    rw [List.map_cons, List.flatten_cons, run_anyOf_cons, run_anyOf_append, ih]

/-! ### Alternatives that do nothing -/

/-- An alternative that mismatches may be left out, but for what it logs. -/
theorem parse_anyOf_insert (h : p.Mismatches s) (ps qs : List (Parser α)) :
    (anyOf (ps ++ p :: qs)).parse s = (anyOf (ps ++ qs)).parse s := by
  rw [parse, parse, run_anyOf_append, run_anyOf_append]
  apply Run.outcome_orElse_congr
  exact parse_anyOf_cons_of_mismatches h

/-- Behind an alternative that does not mismatch nothing is tried. -/
theorem run_anyOf_append_of_mem (hp : p ∈ ps) (h : ¬ p.Mismatches s) (qs : List (Parser α)) :
    (anyOf (ps ++ qs)).run s = (anyOf ps).run s := by
  rw [run_anyOf_append]
  obtain ⟨hps, -⟩ | ⟨before, q, behind, -, -, hq, hrun⟩ := run_anyOf_cases ps s
  · exact absurd (hps p hp) h
  · refine Run.orElse_of_not_mismatch ?_ _
    rw [hrun]
    exact hq

/-- An alternative that stands further in front as well may be left out. -/
theorem parse_anyOf_duplicate (hp : p ∈ ps) (qs : List (Parser α)) (s : Text) :
    (anyOf (ps ++ p :: qs)).parse s = (anyOf (ps ++ qs)).parse s := by
  by_cases h : p.Mismatches s
  · exact parse_anyOf_insert h ps qs
  · rw [parse, parse, run_anyOf_append_of_mem hp h, run_anyOf_append_of_mem hp h]

/-- A parser that does nothing but fail may be left out. -/
theorem anyOf_insert_fail (ps : List (Parser α)) (message : String) (qs : List (Parser α)) :
    anyOf (ps ++ fail message :: qs) = anyOf (ps ++ qs) := by
  apply ext
  intro s
  rw [run_anyOf_append, run_anyOf_cons, run_fail, Run.mismatch_orElse, ← run_anyOf_append]

/-- What is done with the value of the choice may be done with that of each alternative. -/
theorem map_anyOf {β : Type} (f : α → β) (ps : List (Parser α)) :
    (anyOf ps).map f = anyOf (ps.map (Parser.map f)) := by
  induction ps with
  | nil => rfl
  | cons p ps ih =>
    apply ext
    intro s
    rw [List.map_cons, run_anyOf_cons, ← ih, run_map, run_anyOf_cons, Run.orElse_map]
    rfl

/-! ### Other choices -/

theorem or_eq_anyOf (p q : Parser α) : p.or q = anyOf [p, q] := rfl

theorem map_or {β : Type} (f : α → β) (p q : Parser α) :
    (p.or q).map f = (p.map f).or (q.map f) := map_anyOf f [p, q]

theorem or_assoc (p q r : Parser α) : (p.or q).or r = p.or (q.or r) :=
  (Groups.anyOf_nested (.group (.alternative p (.alternative q .nil)) (.alternative r .nil))).trans
    (Groups.anyOf_nested (.alternative p
      (.group (.alternative q (.alternative r .nil)) .nil))).symm

theorem optional_eq_or (p : Parser α) : optional p = (p.map some).or (.pure none) := rfl

theorem zeroOrMore_eq_or (p : Parser α) : zeroOrMore p = (oneOrMore p).or (.pure []) := by
  apply ext
  intro s
  rw [run_zeroOrMore, run_or, run_pure, Run.success_orElse]

/-- **The laws of ordered choice.** Alternatives may be put into groups, groups within groups
and empty ones included; `or` is the choice of two, and may be taken from the left or from
the right. What does nothing but fail may be put in anywhere, and an alternative that stands
further in front as well may be left out. An option is a choice of this kind, with `none` at
the end; and a repetition that may take nothing is one of the repetition that takes something
and the empty list.

In each run of a choice the alternatives are tried in order, up to and including the first
one that does not mismatch, and those behind it are not: the log is made of the logs that
the ones that were tried have on the input of the choice. -/
theorem orderedChoice_laws :
    (∀ g : Groups α, anyOf g.nested = anyOf g.flat) ∧
    (∀ gs : List (List (Parser α)), anyOf (gs.map anyOf) = anyOf gs.flatten) ∧
    (∀ a b : Parser α, a.or b = anyOf [a, b]) ∧
    (∀ a b c : Parser α, (a.or b).or c = a.or (b.or c)) ∧
    (∀ (ps : List (Parser α)) m qs, anyOf (ps ++ fail m :: qs) = anyOf (ps ++ qs)) ∧
    (∀ (ps : List (Parser α)) p qs rs s,
      (anyOf (ps ++ p :: (qs ++ p :: rs))).parse s = (anyOf (ps ++ p :: (qs ++ rs))).parse s) ∧
    (∀ p : Parser α, optional p = (p.map some).or (.pure none)) ∧
    (∀ p : Parser α, zeroOrMore p = (oneOrMore p).or (.pure [])) ∧
    ∀ (ps : List (Parser α)) s,
      ((∀ p ∈ ps, p.Mismatches s) ∧
        (anyOf ps).run s = ⟨ps.flatMap fun p => (p.run s).log, .failure .noneMatched⟩) ∨
      ∃ before p behind, ps = before ++ p :: behind ∧ (∀ q ∈ before, q.Mismatches s) ∧
        ¬ p.Mismatches s ∧
        (anyOf ps).run s = ⟨(before ++ [p]).flatMap fun q => (q.run s).log, p.parse s⟩ := by
  refine ⟨Groups.anyOf_nested, anyOf_map_anyOf, or_eq_anyOf, or_assoc, anyOf_insert_fail,
    fun ps p qs rs s => ?_, optional_eq_or, zeroOrMore_eq_or, run_anyOf_cases⟩
  have hmem : p ∈ ps ++ p :: qs := List.mem_append_right _ (List.mem_cons_self ..)
  simpa using parse_anyOf_duplicate hmem rs s

end Parser

end Descent
