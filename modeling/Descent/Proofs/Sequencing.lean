import Descent.Parser.Chars
import Descent.Proofs.Currying

/-!
# What a sequence runs

A sequence hands the text on through its parsers: each of them is run on what the one before
it left, as long as they succeed (`Threads`). If all succeed it lists their values. If not, the
first failure is the failure of the sequence, and no parser behind it is run.

Since nothing but the text is handed on, it does not matter where a list of parsers is cut:
each part may be a sequence of its own, and the lists of values be put together afterwards
(`sequence_append`, `sequence_map_sequence`). These are equations of parsers, so that the
first failure and the log are the same as well, wherever the failure is.
-/

namespace Descent

namespace Parser

variable {α : Type} {p : Parser α} {ps : List (Parser α)} {s t : Text} {ts : List Text}
  {vs : List α}

/-! ### In a row -/

/-- `Threads ps s ts vs t`: the parsers `ps` succeed in a row, the first on `s` and each other
on what the one before it left. The texts they are given are `ts`, the values they find `vs`,
and `t` is what the last one leaves. -/
inductive Threads : List (Parser α) → Text → List Text → List α → Text → Prop where
  /-- Nothing was run. -/
  | nil (s : Text) : Threads [] s [] [] s
  /-- A success, and what comes behind it. -/
  | cons {p : Parser α} {ps : List (Parser α)} {s t : Text} {a : Success α} {ts : List Text}
      {vs : List α} :
      p.parse s = .success a → Threads ps a.rest ts vs t →
      Threads (p :: ps) s (s :: ts) (a.value :: vs) t

/-- The logs of parsers, one after the other, each on the text in its place. -/
def logs (ps : List (Parser α)) (ts : List Text) : Log :=
  (List.zipWith (fun p t => (p.run t).log) ps ts).flatten

/-! ### One more parser in front -/

theorem run_sequence_cons_of_success {a : Success α} (h : p.parse s = .success a)
    (ps : List (Parser α)) :
    (sequence (p :: ps)).run s =
      (((sequence ps).run a.rest).map (a.value :: ·)).after (p.run s).log := by
  rw [sequence_cons, run_lift2, Run.andThen_of_success h]

theorem run_sequence_cons_of_failure {e : ParseError} (h : p.parse s = .failure e)
    (ps : List (Parser α)) :
    (sequence (p :: ps)).run s = ⟨(p.run s).log, .failure e⟩ := by
  rw [sequence_cons, run_lift2, Run.andThen_of_failure h]

/-! ### The way of a sequence -/

/-- Behind parsers that succeed, the sequence goes on with the others where they stopped. -/
theorem Threads.run_sequence_append (h : Threads ps s ts vs t) (qs : List (Parser α)) :
    (sequence (ps ++ qs)).run s =
      (((sequence qs).run t).map (vs ++ ·)).after (logs ps ts) := by
  induction h with
  | nil s => exact (Run.map_id ((sequence qs).run s)).symm
  | cons ha _ ih =>
    rw [List.cons_append, run_sequence_cons_of_success ha, ih, Run.map_after, Run.map_map,
      Run.after_after]
    rfl

/-- A sequence of parsers that succeed lists what they find. -/
theorem Threads.run_sequence (h : Threads ps s ts vs t) :
    (sequence ps).run s = ⟨logs ps ts, .success ⟨vs, t⟩⟩ := by
  have happend := h.run_sequence_append []
  rw [List.append_nil] at happend
  rw [happend, sequence_nil, run_pure, Run.map_of, Run.after_of, Outcome.map_success, Success.map,
    List.append_nil]

/-- The first failure ends a sequence, and those behind it are not run. -/
theorem Threads.run_sequence_of_failure (h : Threads ps s ts vs t) {e : ParseError}
    (he : p.parse t = .failure e) (qs : List (Parser α)) :
    (sequence (ps ++ p :: qs)).run s = ⟨logs ps ts ++ (p.run t).log, .failure e⟩ := by
  rw [h.run_sequence_append, run_sequence_cons_of_failure he]
  rfl

/-- All the parsers of a list succeed in a row, or there is a first one that fails. -/
theorem exists_threads_or_failure (ps : List (Parser α)) (s : Text) :
    (∃ ts vs t, Threads ps s ts vs t) ∨
    ∃ before p behind ts vs t e, ps = before ++ p :: behind ∧ Threads before s ts vs t ∧
      p.parse t = .failure e := by
  induction ps generalizing s with
  | nil => exact Or.inl ⟨[], [], s, .nil s⟩
  | cons p ps ih =>
    cases ho : p.parse s with
    | failure e => exact Or.inr ⟨[], p, ps, [], [], s, e, rfl, .nil s, ho⟩
    | success a =>
      obtain ⟨ts, vs, t, h⟩ | ⟨before, q, behind, ts, vs, t, e, rfl, h, he⟩ := ih a.rest
      · exact Or.inl ⟨s :: ts, a.value :: vs, t, .cons ho h⟩
      · exact Or.inr
          ⟨p :: before, q, behind, s :: ts, a.value :: vs, t, e, rfl, .cons ho h, he⟩

theorem parse_sequence_eq_success :
    (sequence ps).parse s = .success ⟨vs, t⟩ ↔ ∃ ts, Threads ps s ts vs t := by
  constructor
  · intro hs
    obtain ⟨ts, vs', t', h⟩ | ⟨before, p, behind, ts, vs', t', e, rfl, h, he⟩ :=
      exists_threads_or_failure ps s
    · rw [parse, h.run_sequence] at hs
      cases hs
      exact ⟨ts, h⟩
    · rw [parse, h.run_sequence_of_failure he] at hs
      cases hs
  · intro hts
    obtain ⟨ts, h⟩ := hts
    rw [parse, h.run_sequence]

/-! ### Lists put together -/

theorem sequence_append (ps qs : List (Parser α)) :
    sequence (ps ++ qs) = lift2 (· ++ ·) (sequence ps) (sequence qs) := by
  induction ps with
  | nil =>
    have hnil : lift2 (· ++ ·) (.pure []) (sequence qs) = (sequence qs).map id := rfl
    rw [List.nil_append, sequence_nil, hnil, map_id]
  | cons p ps ih =>
    calc sequence (p :: (ps ++ qs))
      _ = lift2 List.cons p (lift2 (· ++ ·) (sequence ps) (sequence qs)) := by
        rw [sequence_cons, ih]
      _ = lift2 (fun x bs => x.1 :: (x.2 ++ bs)) (lift2 Prod.mk p (sequence ps)) (sequence qs) :=
        (lift2_lift2 _ _ _ _ _).symm
      _ = lift2 (· ++ ·) ((lift2 Prod.mk p (sequence ps)).map fun x => x.1 :: x.2)
            (sequence qs) := by
        rw [lift2_map_left]
        rfl
      _ = lift2 (· ++ ·) (sequence (p :: ps)) (sequence qs) := by
        rw [map_lift2, sequence_cons]

theorem sequence_map_sequence (gs : List (List (Parser α))) :
    (sequence (gs.map sequence)).map List.flatten = sequence gs.flatten := by
  induction gs with
  | nil => rfl
  | cons g gs ih =>
    calc (sequence (sequence g :: gs.map sequence)).map List.flatten
      _ = lift2 (fun as bs => as ++ bs.flatten) (sequence g) (sequence (gs.map sequence)) := by
        rw [sequence_cons, map_lift2]
        rfl
      _ = lift2 (· ++ ·) (sequence g) (sequence gs.flatten) := by
        rw [← ih, lift2_map_right]
      _ = sequence (g ++ gs.flatten) := (sequence_append _ _).symm

/-- **What a sequence runs.** On every text, either all its parsers succeed, each on what the
one before left, and then the sequence succeeds with their values in order and leaves what the
last one left; or one of them is the first to fail, and then this is the failure of the
sequence. The log is made of the logs that the parsers have on these texts, up to that one,
each once and in order.

And the sequence of two lists put together is the sequence of the one and of the other, with
the values put together; the sequence of no parsers finds nothing; and a sequence of sequences
is, but for the lists within the list, the sequence of all their parsers. -/
theorem sequence_laws :
    (∀ (ps : List (Parser α)) s,
      (∃ ts vs t, Threads ps s ts vs t ∧
        (sequence ps).run s = ⟨logs ps ts, .success ⟨vs, t⟩⟩) ∨
      ∃ before p behind ts vs t e, ps = before ++ p :: behind ∧ Threads before s ts vs t ∧
        p.parse t = .failure e ∧
        (sequence ps).run s = ⟨logs before ts ++ (p.run t).log, .failure e⟩) ∧
    (∀ (ps : List (Parser α)) s vs t,
      (sequence ps).parse s = .success ⟨vs, t⟩ ↔ ∃ ts, Threads ps s ts vs t) ∧
    (∀ ps qs : List (Parser α),
      sequence (ps ++ qs) = lift2 (· ++ ·) (sequence ps) (sequence qs)) ∧
    sequence ([] : List (Parser α)) = .pure [] ∧
    ∀ gs : List (List (Parser α)),
      (sequence (gs.map sequence)).map List.flatten = sequence gs.flatten := by
  refine ⟨fun ps s => ?_, fun _ _ _ _ => parse_sequence_eq_success, sequence_append,
    sequence_nil, sequence_map_sequence⟩
  obtain ⟨ts, vs, t, h⟩ | ⟨before, p, behind, ts, vs, t, e, rfl, h, he⟩ :=
    exists_threads_or_failure ps s
  · exact Or.inl ⟨ts, vs, t, h, h.run_sequence⟩
  · exact Or.inr ⟨before, p, behind, ts, vs, t, e, rfl, h, he, h.run_sequence_of_failure he behind⟩

/-- The letter `c` is not asked for any more. -/
example : ((sequence [traced "a" (char 'a'), traced "!" (char '!'), traced "c" (char 'c')]).run
    (.ofString "abc")).log.calls = [("a", .ofString "abc"), ("!", .ofString "bc")] := by decide

end Parser

end Descent
