import Descent.Proofs.Consumed
import Descent.Proofs.Inversion
import Descent.Proofs.Laws
import Descent.Proofs.OrderedChoice
import Descent.Proofs.Suffix

/-!
# Consumed text, piece by piece

What several parsers consume in a row can be asked of each of them, or of all together. If
the parsers leave suffixes the answers agree: the pieces, put one behind the other, are the
text that was consumed in all, and nothing of the input is lost between them or counted
twice (`segments_make_up`). To ask for the pieces does not change what is parsed: it leaves
the same remainders, so that a repetition advances as before (`Advances.consumed`), and it
makes no error of its own.
-/

namespace Descent

/-- The texts one behind the other. -/
def Text.join (ts : List Text) : Text := ts.foldr (· ++ ·) ∅

namespace Parser

variable {α β γ : Type} {p : Parser α} {q : Parser β} {s t r : Text}

/-- Values, each with the text it was parsed from, become the values with the text all of
them were parsed from. -/
def assemble (segments : List (α × Text)) : List α × Text :=
  (segments.map Prod.fst, Text.join (segments.map Prod.snd))

example : assemble [('é', .ofString "é "), ('b', .ofString "b")] =
    (['é', 'b'], .ofString "é b") := by decide

/-- `MakesUp q q'`: the segments that `q` finds make up what `q'` finds. The two parsers do
the same on every text, but that where `q` succeeds with segments, `q'` succeeds with what
they make up; and its text is the input, up to the remainder. -/
structure MakesUp (q : Parser (List (α × Text))) (q' : Parser (List α × Text)) : Prop where
  /-- The segments put together are what `q'` finds, and the errors are the same. -/
  map_assemble : q.map assemble = q'
  /-- The text is what stands in front of the remainder. -/
  eq_append : ∀ s vs t r, q'.parse s = .success ⟨(vs, t), r⟩ → s = t ++ r

/-! ### Two parsers in a row -/

/-- What is consumed stands in front of the remainder. -/
theorem LeavesSuffix.eq_append_of_consumed (hp : p.LeavesSuffix) {v : α}
    (h : (Parser.consumed p).parse s = .success ⟨(v, t), r⟩) : s = t ++ r := by
  cases ho : p.parse s with
  | failure e =>
    rw [parse, run_consumed_of_failure ho] at h
    cases h
  | success a =>
    obtain ⟨u, hu⟩ := hp s a ho
    rw [parse, run_consumed_of_suffix ho hu] at h
    cases h
    exact hu

theorem LeavesSuffix.consumed (hp : p.LeavesSuffix) : (Parser.consumed p).LeavesSuffix :=
  hp.keeps.consumed (Or.inr hp)

theorem consumed_pure (a : α) : consumed (.pure a) = .pure (a, ∅) := by
  apply ext
  intro s
  have h : (Parser.pure a).parse s = .success ⟨a, s⟩ := rfl
  rw [run_consumed_of_suffix h (Text.empty_append s).symm]
  rfl

/-- Two parsers in a row consume what the one consumes, and behind it what the other does. -/
theorem consumed_lift2 (f : α → β → γ) (hp : p.LeavesSuffix) (hq : q.LeavesSuffix) :
    consumed (lift2 f p q) =
      lift2 (fun a b => (f a.1 b.1, a.2 ++ b.2)) (consumed p) (consumed q) := by
  apply ext
  intro s
  cases ho : p.parse s with
  | failure e =>
    have hrun : (lift2 f p q).run s = ⟨(p.run s).log, .failure e⟩ := by
      rw [run_lift2, Run.andThen_of_failure ho]
    rw [run_consumed, hrun, run_lift2, run_consumed_of_failure ho]
    rfl
  | success a =>
    obtain ⟨u, hu⟩ := hp s a ho
    have hrun : (lift2 f p q).run s = ((q.run a.rest).map (f a.value)).after (p.run s).log := by
      rw [run_lift2, Run.andThen_of_success ho]
    rw [run_lift2, run_consumed_of_suffix ho hu, Run.andThen_of_success rfl]
    cases hb : q.parse a.rest with
    | failure e =>
      have hparse : (lift2 f p q).parse s = .failure e := by
        rw [parse, hrun, Run.outcome_after]
        exact Run.outcome_map_eq_failure.mpr hb
      rw [run_consumed_of_failure hparse, run_consumed_of_failure hb, hrun]
      rfl
    | success b =>
      obtain ⟨w, hw⟩ := hq a.rest b hb
      have hparse : (lift2 f p q).parse s = .success ⟨f a.value b.value, b.rest⟩ := by
        rw [parse, hrun, Run.outcome_after]
        exact Run.outcome_map_eq_success.mpr ⟨b, hb, rfl⟩
      have hs : s = (u ++ w) ++ b.rest := by rw [Text.append_assoc, ← hw, ← hu]
      rw [run_consumed_of_suffix hparse hs, run_consumed_of_suffix hb hw, hrun]
      rfl

/-! ### Sequences -/

theorem assemble_sequence {ps : List (Parser α)} (h : ∀ p ∈ ps, p.LeavesSuffix) :
    (sequence (ps.map consumed)).map assemble = consumed (sequence ps) := by
  induction ps with
  | nil =>
    rw [List.map_nil, sequence_nil, sequence_nil, consumed_pure]
    rfl
  | cons p ps ih =>
    obtain ⟨hp, hps⟩ := List.forall_mem_cons.mp h
    rw [List.map_cons, sequence_cons, sequence_cons,
      consumed_lift2 _ hp (leavesSuffix_sequence hps), ← ih hps, map_lift2, lift2_map_right]
    rfl

/-! ### Repetitions -/

/-- The segments make up what the parser advances over. -/
theorem Advances.consumed (hp : p.LeavesSuffix) {ts : List Text} {vs : List α}
    (h : Advances p s ts vs t) :
    ∃ segments, Advances (Parser.consumed p) s ts segments t ∧
      segments.map Prod.fst = vs ∧ s = Text.join (segments.map Prod.snd) ++ t := by
  induction h with
  | refl s => exact ⟨[], .refl s, rfl, (Text.empty_append s).symm⟩
  | @step s t a ts vs ha hlt _ ih =>
    obtain ⟨segments, hadv, hvs, ht⟩ := ih
    obtain ⟨u, hu⟩ := hp s a ha
    have hparse : (Parser.consumed p).parse s = .success ⟨(a.value, u), a.rest⟩ := by
      rw [parse, run_consumed_of_suffix ha hu]
    refine ⟨(a.value, u) :: segments, .step hparse hlt hadv, ?_, ?_⟩
    · rw [List.map_cons, hvs]
    · calc s = u ++ a.rest := hu
        _ = u ++ (Text.join (segments.map Prod.snd) ++ t) := by rw [← ht]
        _ = (u ++ Text.join (segments.map Prod.snd)) ++ t := (Text.append_assoc _ _ _).symm

theorem Stalls.consumed (h : p.Stalls t) : (Parser.consumed p).Stalls t := by
  intro b hb
  obtain ⟨a, ha, hb⟩ := Run.outcome_andThen_eq_success.mp hb
  split at hb
  · cases hb
    exact h a ha
  · cases hb

theorem log_run_consumed (p : Parser α) (s : Text) :
    ((consumed p).run s).log = (p.run s).log := by
  rw [run_consumed]
  refine Run.log_andThen_of_forall (fun a => ?_) (p.run s)
  cases s.segment? a.rest with
  | none => rfl
  | some t => rfl

theorem assemble_oneOrMore (hp : p.LeavesSuffix) :
    (oneOrMore (consumed p)).map assemble = consumed (oneOrMore p) := by
  apply ext
  intro s
  obtain ⟨ts, vs, t, hadv, hst⟩ := exists_advances p s
  obtain ⟨segments, hadv', hvs, hs⟩ := hadv.consumed hp
  have hrun := hp.run_oneOrMore hadv hst
  have hrun' := hp.consumed.run_oneOrMore hadv' hst.consumed
  simp only [log_run_consumed] at hrun'
  rw [run_map, hrun']
  -- where the parser stalls it settles both repetitions in the same way
  rcases ho : p.parse t with a | ⟨m | b⟩
  · obtain ⟨u, hu⟩ := hp t a ho
    have ho' : (consumed p).parse t = .success ⟨(a.value, u), a.rest⟩ := by
      rw [parse, run_consumed_of_suffix ho hu]
    have hlength : segments.length = vs.length := by rw [← hvs, List.length_map]
    rw [ho] at hrun
    rw [ho', hlength, run_consumed, hrun]
    rfl
  · have ho' : (consumed p).parse t = .failure (.mismatch m) := by
      rw [parse, run_consumed_of_failure ho]
    rw [ho] at hrun
    rw [ho']
    cases segments with
    | nil =>
      obtain rfl : vs = [] := hvs.symm
      rw [run_consumed, hrun]
      rfl
    | cons segment segments =>
      have hne : vs ≠ [] := by
        rw [← hvs]
        exact List.cons_ne_nil _ _
      dsimp only at hrun ⊢
      rw [if_neg hne] at hrun
      have hparse : (oneOrMore p).parse s = .success ⟨vs, t⟩ := by rw [parse, hrun]
      rw [if_neg (List.cons_ne_nil _ _), run_consumed_of_suffix hparse hs, hrun, ← hvs]
      rfl
  · have ho' : (consumed p).parse t = .failure (.breach b) := by
      rw [parse, run_consumed_of_failure ho]
    rw [ho] at hrun
    rw [ho', run_consumed, hrun]
    rfl

/-- What a choice consumes is what its alternatives do: to ask for it never mismatches. -/
theorem consumed_anyOf (ps : List (Parser α)) :
    consumed (anyOf ps) = anyOf (ps.map consumed) := by
  induction ps with
  | nil => rfl
  | cons p ps ih =>
    apply ext
    intro s
    rw [run_consumed, run_anyOf_cons, Run.orElse_andThen, List.map_cons, run_anyOf_cons, ← ih]
    · rfl
    · intro a h
      obtain ⟨m, hm⟩ := h
      cases hseg : s.segment? a.rest with
      | none =>
        rw [hseg] at hm
        cases hm
      | some t =>
        rw [hseg] at hm
        cases hm

/-- Where a parser that mismatches is replaced by a value, nothing is consumed. -/
theorem consumed_or_pure (p : Parser α) (a : α) :
    consumed (p.or (.pure a)) = (consumed p).or (.pure (a, ∅)) := by
  rw [or_eq_anyOf, consumed_anyOf, List.map_cons, List.map_singleton, consumed_pure, or_eq_anyOf]

theorem assemble_zeroOrMore (hp : p.LeavesSuffix) :
    (zeroOrMore (consumed p)).map assemble = consumed (zeroOrMore p) := by
  calc (zeroOrMore (consumed p)).map assemble
    _ = ((oneOrMore (consumed p)).map assemble).or (.pure ([], ∅)) := by
      rw [zeroOrMore_eq_or, map_or]
      rfl
    _ = consumed (zeroOrMore p) := by
      rw [assemble_oneOrMore hp, ← consumed_or_pure, zeroOrMore_eq_or]

/-! ### Segments -/

/-- **What is consumed piece by piece makes up what is consumed.** Of parsers that leave
suffixes, in a sequence or repeated, with or without a first success, the texts that each
success consumed can be asked for, or the text that all of them consumed. The answers come
on the same texts, with the same values and remainder, and where there is none the error is
the same; the pieces in their order are the whole; and the whole is what stands in front of
the remainder. -/
theorem segments_make_up :
    (∀ {ps : List (Parser α)}, (∀ p ∈ ps, p.LeavesSuffix) →
      MakesUp (sequence (ps.map consumed)) (consumed (sequence ps))) ∧
    ∀ {p : Parser α}, p.LeavesSuffix →
      MakesUp (oneOrMore (consumed p)) (consumed (oneOrMore p)) ∧
      MakesUp (zeroOrMore (consumed p)) (consumed (zeroOrMore p)) := by
  refine ⟨fun {ps} hps => ⟨assemble_sequence hps, fun s vs t r h => ?_⟩, fun {p} hp =>
    ⟨⟨assemble_oneOrMore hp, fun s vs t r h => ?_⟩,
      ⟨assemble_zeroOrMore hp, fun s vs t r h => ?_⟩⟩⟩
  · exact (leavesSuffix_sequence hps).eq_append_of_consumed h
  · exact hp.oneOrMore.eq_append_of_consumed h
  · exact hp.zeroOrMore.eq_append_of_consumed h

/-- Of `é7x` two characters, in a sequence, one of them of two bytes; and characters
repeated. -/
theorem segments_of_characters :
    (∀ p ∈ [char 'é', symbol], p.LeavesSuffix) ∧ symbol.LeavesSuffix ∧
    MakesUp (sequence ([char 'é', symbol].map consumed)) (consumed (sequence [char 'é', symbol])) ∧
    MakesUp (oneOrMore (consumed symbol)) (consumed (oneOrMore symbol)) ∧
    MakesUp (zeroOrMore (consumed symbol)) (consumed (zeroOrMore symbol)) ∧
    (sequence ([char 'é', symbol].map consumed)).parse (.ofString "é7x") =
      .success ⟨[('é', .ofString "é"), ('7', .ofString "7")], .ofString "x"⟩ ∧
    (consumed (sequence [char 'é', symbol])).parse (.ofString "é7x") =
      .success ⟨(['é', '7'], .ofString "é7"), .ofString "x"⟩ := by
  have hps : ∀ p ∈ [char 'é', symbol], p.LeavesSuffix := by
    intro p hp
    obtain rfl | hp := List.mem_cons.mp hp
    · exact leavesSuffix_symbolIf _ _
    · obtain rfl := List.mem_singleton.mp hp
      exact leavesSuffix_symbol
  obtain ⟨hone, hzero⟩ := segments_make_up.2 leavesSuffix_symbol
  exact ⟨hps, leavesSuffix_symbol, segments_make_up.1 hps, hone, hzero, by decide, by decide⟩

end Parser

end Descent
