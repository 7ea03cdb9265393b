import Descent.Parser.Sequence
import Descent.Proofs.Inversion
import Descent.Proofs.Repetition
import Descent.Proofs.Sequencing

/-!
# Folds

A fold with a seed goes from the left, value by value, so that it can be stopped behind any
parser of a sequence and taken up again with what was reached as the seed
(`fold_sequence_append`).

A fold without a seed takes the first value for it, and is in breach where there is none. That
is no matter for repetitions: one that succeeds has found something
(`value_ne_nil_of_oneOrMore`). So a fold of a repetition is never in breach for want of values,
and needs a seed only where the seed does something (`fold1_eq_fold`).
-/

namespace Descent

namespace Parser

variable {α β : Type}

/-! ### What a repetition finds -/

section Repetition

variable {p : Parser α} {s : Text} {e : ParseError}

/-- A repetition that succeeds has found something. -/
theorem value_ne_nil_of_oneOrMore {b : Success (List α)} (h : (oneOrMore p).parse s = .success b) :
    b.value ≠ [] := by
  rw [parse, run_oneOrMore] at h
  cases ho : p.parse s with
  | failure e =>
    rw [rounds_of_failure ho] at h
    simp at h
  | success a =>
    obtain ⟨c, hrun⟩ | ⟨m, hrun⟩ := rounds_of_success (n := patience) (k := 0) ho
    · rw [hrun] at h
      cases h
    · rw [hrun] at h
      obtain ⟨c, -, rfl⟩ := Run.outcome_map_eq_success.mp h
      exact List.cons_ne_nil _ _

/-- The failures of the rounds are those of the parser, and the breaches of repetitions. -/
theorem outcome_rounds_eq_failure {n k : Nat} (h : (rounds p n k s).outcome = .failure e) :
    (∃ t, p.parse t = .failure e) ∨ (∃ j, e = .breach (.noProgress j)) ∨ e = .breach .runaway := by
  fun_induction rounds p n k s with
  | case1 n k s a ho hlt ih => exact ih (Run.outcome_map_eq_failure.mp h)
  | case2 n k s a ho hlt heq =>
    cases h
    exact Or.inr (Or.inl ⟨k, rfl⟩)
  | case3 k s a ho hlt hne =>
    cases h
    exact Or.inr (Or.inr rfl)
  | case4 k s a ho hlt hne n ih => exact ih (Run.outcome_map_eq_failure.mp h)
  | case5 n k s e' ho =>
    refine Or.inl ⟨s, ?_⟩
    split at h
    · cases h
    · cases h
      exact ho

end Repetition

/-! ### With a seed -/

theorem fold_sequence_append (ps qs : List (Parser α)) (combine : β → α → β) (seed : β) :
    (sequence (ps ++ qs)).fold combine seed =
      ((sequence ps).fold combine seed).bind fun acc => (sequence qs).fold combine acc := by
  calc (sequence (ps ++ qs)).fold combine seed
    _ = lift2 (fun xs ys => (xs ++ ys).foldl combine seed) (sequence ps) (sequence qs) := by
      rw [fold, sequence_append, map_lift2]
    _ = lift2 (fun xs ys => ys.foldl combine (xs.foldl combine seed)) (sequence ps)
          (sequence qs) := by
      simp only [List.foldl_append]
    _ = ((sequence ps).fold combine seed).bind fun acc => (sequence qs).fold combine acc := by
      rw [fold, map_bind]
      rfl

/-- The digits of a number, from left to right. -/
example : ((sequence [char '1', char '2', char '3']).fold
    (fun n c => 10 * n + (c.toNat - '0'.toNat)) 0).parse (.ofString "123!") =
      .success ⟨123, .ofString "!"⟩ := by decide

/-! ### From the first value -/

section First

variable {p : Parser (List α)} {combine : α → α → α} {s t : Text} {v : α} {e : ParseError}

theorem parse_fold1_eq_success :
    (p.fold1 combine).parse s = .success ⟨v, t⟩ ↔
      ∃ x xs, p.parse s = .success ⟨x :: xs, t⟩ ∧ v = xs.foldl combine x := by
  rw [parse, run_fold1, Run.outcome_andThen_eq_success]
  constructor
  · rintro ⟨⟨_ | ⟨x, xs⟩, r⟩, ha, h⟩
    · cases h
    · cases h
      exact ⟨x, xs, ha, rfl⟩
  · rintro ⟨x, xs, ha, rfl⟩
    exact ⟨_, ha, rfl⟩

theorem parse_fold1_eq_failure :
    (p.fold1 combine).parse s = .failure e ↔ p.parse s = .failure e ∨
      (∃ t, p.parse s = .success ⟨[], t⟩) ∧ e = .breach .emptyFold := by
  rw [parse, run_fold1, Run.outcome_andThen_eq_failure]
  constructor
  · rintro (h | ⟨⟨_ | ⟨x, xs⟩, r⟩, ha, h⟩)
    · exact Or.inl h
    · cases h
      exact Or.inr ⟨⟨r, ha⟩, rfl⟩
    · cases h
  · rintro (h | ⟨⟨t, ht⟩, rfl⟩)
    · exact Or.inl h
    · exact Or.inr ⟨_, ht, rfl⟩

/-- Where there is always something to fold, a seed that does nothing may be put in front. -/
theorem fold1_eq_fold (hp : ∀ s a, p.parse s = .success a → a.value ≠ []) {seed : α}
    (hseed : ∀ x, combine seed x = x) : p.fold1 combine = p.fold combine seed := by
  apply ext
  intro s
  rw [run_fold1, run_fold]
  cases ho : p.parse s with
  | failure e =>
    rw [Run.andThen_of_failure ho]
    exact Run.ext rfl (Run.outcome_map_eq_failure.mpr ho).symm
  | success a =>
    obtain ⟨values, r⟩ := a
    rw [Run.andThen_of_success ho]
    cases values with
    | nil => exact absurd rfl (hp s _ ho)
    | cons x xs =>
      have hfold : (x :: xs).foldl combine seed = xs.foldl combine x := by
        rw [List.foldl_cons, hseed]
      rw [Run.after_of]
      refine Run.ext rfl (Run.outcome_map_eq_success.mpr ⟨_, ho, ?_⟩).symm
      rw [Success.map, hfold]

end First

/-- A repetition does not give a fold nothing to fold. -/
theorem parse_fold1_oneOrMore_ne_emptyFold {p : Parser α}
    (hp : ∀ s, p.parse s ≠ .failure (.breach .emptyFold)) (combine : α → α → α) (s : Text) :
    ((oneOrMore p).fold1 combine).parse s ≠ .failure (.breach .emptyFold) := by
  intro h
  obtain h | ⟨⟨t, ht⟩, -⟩ := parse_fold1_eq_failure.mp h
  · rw [parse, run_oneOrMore] at h
    obtain ⟨t, ht⟩ | ⟨j, hj⟩ | haway := outcome_rounds_eq_failure h
    · exact hp t ht
    · cases hj
    · cases haway
  · exact value_ne_nil_of_oneOrMore ht rfl

/-- **The laws of folds.** To fold the values of two sequences put together is to fold those of
the one, and to go on from there with those of the other. A fold from the first value is in
breach of being given none exactly where the list is empty, or its parser is in that breach; it
fails in any other way exactly as its parser does; and it succeeds with the fold of the tail
from the head. The fold of a repetition from its first value is in that breach only if the
repeated parser is; and it is the fold with a seed, if the seed leaves what it is combined with
as it is. -/
theorem fold_laws :
    (∀ (ps qs : List (Parser α)) (combine : β → α → β) seed,
      (sequence (ps ++ qs)).fold combine seed =
        ((sequence ps).fold combine seed).bind fun acc => (sequence qs).fold combine acc) ∧
    (∀ (p : Parser (List α)) (combine : α → α → α) s,
      ((p.fold1 combine).parse s = .failure (.breach .emptyFold) ↔
        p.parse s = .failure (.breach .emptyFold) ∨ ∃ t, p.parse s = .success ⟨[], t⟩) ∧
      (∀ e, e ≠ .breach .emptyFold →
        ((p.fold1 combine).parse s = .failure e ↔ p.parse s = .failure e)) ∧
      ∀ v t, (p.fold1 combine).parse s = .success ⟨v, t⟩ ↔
        ∃ x xs, p.parse s = .success ⟨x :: xs, t⟩ ∧ v = xs.foldl combine x) ∧
    (∀ (p : Parser α) (combine : α → α → α),
      (∀ s, p.parse s ≠ .failure (.breach .emptyFold)) →
      ∀ s, ((oneOrMore p).fold1 combine).parse s ≠ .failure (.breach .emptyFold)) ∧
    ∀ (p : Parser α) (combine : α → α → α) seed, (∀ x, combine seed x = x) →
      (oneOrMore p).fold1 combine = (oneOrMore p).fold combine seed := by
  refine ⟨fold_sequence_append, fun p combine s => ⟨?_, fun e he => ?_,
      fun v t => parse_fold1_eq_success⟩,
    fun p combine hp => parse_fold1_oneOrMore_ne_emptyFold hp combine,
    fun p combine seed hseed => fold1_eq_fold (fun _ _ => value_ne_nil_of_oneOrMore) hseed⟩
  · rw [parse_fold1_eq_failure]
    simp
  · rw [parse_fold1_eq_failure]
    simp [he]

/-- Strings put together: of an empty list, of a letter that is missing, and of a repetition,
which the empty string may begin. -/
theorem strings_folded :
    ((Parser.pure []).fold1 (· ++ ·)).parse (.ofString "b") =
      (.failure (.breach .emptyFold) : Outcome String) ∧
    ((.labelled "expected 'a' but got 'b'") : ParseError) ≠ .breach .emptyFold ∧
    ((sequence [(char 'a').map String.singleton]).fold1 (· ++ ·)).parse (.ofString "b") =
      .failure (.labelled "expected 'a' but got 'b'") ∧
    (∀ s, ((char 'a').map String.singleton).parse s ≠ .failure (.breach .emptyFold)) ∧
    ((oneOrMore ((char 'a').map String.singleton)).fold1 (· ++ ·)).parse (.ofString "b") ≠
      .failure (.breach .emptyFold) ∧
    (∀ w, "" ++ w = w) ∧
    (oneOrMore ((char 'a').map String.singleton)).fold1 (· ++ ·) =
      (oneOrMore ((char 'a').map String.singleton)).fold (· ++ ·) "" := by
  obtain ⟨-, hfold1, hnever, hseed⟩ := fold_laws (α := String) (β := String)
  have hchar : ∀ s, ((char 'a').map String.singleton).parse s ≠ .failure (.breach .emptyFold) := by
    intro s
    cases s with
    | empty => decide
    | cons c s =>
      intro h
      rw [parse_map, parse, char, run_symbolIf_cons] at h
      split at h
      · cases h
      · cases h
  have hmissing : (sequence [(char 'a').map String.singleton]).parse (.ofString "b") =
      .failure (.labelled "expected 'a' but got 'b'") := by decide
  have hne : (.labelled "expected 'a' but got 'b'" : ParseError) ≠ .breach .emptyFold := by decide
  have hempty : ∀ w, "" ++ w = w := fun w => String.empty_append
  exact ⟨(hfold1 _ _ _).1.mpr (Or.inr ⟨_, rfl⟩), hne, ((hfold1 _ _ _).2.1 _ hne).mpr hmissing,
    hchar, hnever _ _ hchar _, hempty, hseed _ _ _ hempty⟩

end Parser

end Descent
