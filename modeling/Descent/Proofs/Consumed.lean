import Descent.Parser.Basic
import Descent.Proofs.Inversion

/-!
# Which text was consumed

`consumed` does not compare the remainder with the input: it looks for the front part
behind which as many bytes are left as the remainder has (`parse_consumed_of_success`).
If the remainder is a suffix of the input, that is the text in front of it. If it is not,
but some suffix has its size, then `consumed` succeeds all the same, with a text that does
not give the input together with the remainder; only where no suffix has its size is the
remainder found invalid (`parse_consumed_of_size`).
-/

namespace Descent

namespace Parser

variable {α : Type} {p : Parser α} {s : Text} {a : Success α}

theorem parse_consumed_of_success (h : p.parse s = .success a) :
    (consumed p).parse s =
      match s.segment? a.rest with
      | some t => .success ⟨(a.value, t), a.rest⟩
      | none => .failure (.breach .invalidRest) := by
  rw [parse, run_consumed, Run.andThen_of_success h, Run.outcome_after]
  cases s.segment? a.rest with
  | some t => rfl
  | none => rfl

/-- A remainder that is a suffix is left alone, and the text in front of it found. -/
theorem run_consumed_of_suffix (h : p.parse s = .success a) {t : Text} (hs : s = t ++ a.rest) :
    (consumed p).run s = ⟨(p.run s).log, .success ⟨(a.value, t), a.rest⟩⟩ := by
  have hseg : s.segment? a.rest = some t := Text.segment?_eq_some.mpr ⟨a.rest, rfl, hs⟩
  rw [run_consumed, Run.andThen_of_success h, hseg, Run.after_of]

theorem run_consumed_of_failure {e : ParseError} (h : p.parse s = .failure e) :
    (consumed p).run s = ⟨(p.run s).log, .failure e⟩ := by
  rw [run_consumed, Run.andThen_of_failure h]

theorem parse_consumed_eq_success (h : p.parse s = .success a) {b : Success (α × Text)} :
    (consumed p).parse s = .success b ↔
      ∃ t u : Text, s = t ++ u ∧ u.size = a.rest.size ∧ b = ⟨(a.value, t), a.rest⟩ := by
  rw [parse_consumed_of_success h]
  cases hseg : s.segment? a.rest with
  | some t =>
    obtain ⟨u, hu, hs⟩ := Text.segment?_eq_some.mp hseg
    constructor
    · rintro ⟨⟩
      exact ⟨t, u, hs, hu, rfl⟩
    · rintro ⟨t', u', hs', hu', rfl⟩
      obtain rfl : t' = t :=
        Option.some.inj ((Text.segment?_eq_some.mpr ⟨u', hu', hs'⟩).symm.trans hseg)
      rfl
  | none =>
    constructor
    · rintro ⟨⟩
    · rintro ⟨t, u, hs, hu, -⟩
      exact absurd hu (Text.segment?_eq_none.mp hseg t u hs)

theorem parse_consumed_eq_invalidRest (h : p.parse s = .success a) :
    (consumed p).parse s = .failure (.breach .invalidRest) ↔
      ∀ t u : Text, s = t ++ u → u.size ≠ a.rest.size := by
  rw [parse_consumed_of_success h, ← Text.segment?_eq_none]
  cases s.segment? a.rest with
  | some t => simp
  | none => simp

/-- **Consumed text is found by size.** Where `p` succeeds on `s` with the remainder `r`,
`consumed p`
* succeeds exactly with the front parts of `s` in front of a suffix of the size of `r`,
  and leaves `r`;
* finds `r` invalid exactly where no suffix of `s` has its size;
* splits `s` into the consumed text and `r` if `r` is a suffix of `s`;
* succeeds without splitting it so exactly where `r` is no suffix, but some suffix has
  its size. -/
theorem parse_consumed_of_size (h : p.parse s = .success a) :
    (∀ b, (consumed p).parse s = .success b ↔
      ∃ t u : Text, s = t ++ u ∧ u.size = a.rest.size ∧ b = ⟨(a.value, t), a.rest⟩) ∧
    ((consumed p).parse s = .failure (.breach .invalidRest) ↔
      ∀ t u : Text, s = t ++ u → u.size ≠ a.rest.size) ∧
    (∀ t : Text, s = t ++ a.rest → (consumed p).parse s = .success ⟨(a.value, t), a.rest⟩) ∧
    ((∃ t : Text, (consumed p).parse s = .success ⟨(a.value, t), a.rest⟩ ∧ s ≠ t ++ a.rest) ↔
      (∀ t : Text, s ≠ t ++ a.rest) ∧ ∃ t u : Text, s = t ++ u ∧ u.size = a.rest.size) := by
  have hsuffix {t : Text} (hs : s = t ++ a.rest) :
      (consumed p).parse s = .success ⟨(a.value, t), a.rest⟩ :=
    (parse_consumed_eq_success h).mpr ⟨t, a.rest, hs, rfl, rfl⟩
  refine ⟨fun b => parse_consumed_eq_success h, parse_consumed_eq_invalidRest h,
    fun t hs => hsuffix hs, ?_, ?_⟩
  · rintro ⟨t, ht, hne⟩
    refine ⟨fun t' hs => hne ?_, ?_⟩
    · -- the front part in front of the suffix is the one that was found
      obtain ⟨⟩ := (hsuffix hs).symm.trans ht
      exact hs
    · obtain ⟨t', u, hs, hu, -⟩ := (parse_consumed_eq_success h).mp ht
      exact ⟨t', u, hs, hu⟩
  · rintro ⟨hne, t, u, hs, hu⟩
    exact ⟨t, (parse_consumed_eq_success h).mpr ⟨t, u, hs, hu, rfl⟩, hne t⟩

/-- On `éa` a remainder of two bytes is invalid: the suffixes have three bytes, one or
none. -/
theorem invalidRest_within_character :
    (ofFn fun _ => .success ⟨(), .ofString "xy"⟩).parse (.ofString "éa") =
      .success ⟨(), .ofString "xy"⟩ ∧
    ∀ t u : Text, .ofString "éa" = t ++ u → u.size ≠ 2 := by
  have h : (ofFn fun _ => .success ⟨(), .ofString "xy"⟩).parse (.ofString "éa") =
      .success ⟨(), .ofString "xy"⟩ := rfl
  exact ⟨h, (parse_consumed_of_size h).2.1.mp (by decide)⟩

/-- On `a`, the remainder `x` passes for a suffix: nothing is consumed, and nothing put in
front of `x` gives `a`. -/
theorem consumed_passes_foreign_rest :
    (ofFn fun _ => .success ⟨(), .singleton 'x'⟩).parse (.singleton 'a') =
      .success ⟨(), .singleton 'x'⟩ ∧
    (consumed (ofFn fun _ => .success ⟨(), .singleton 'x'⟩)).parse (.singleton 'a') =
      .success ⟨((), ∅), .singleton 'x'⟩ ∧
    ∀ t : Text, .singleton 'a' ≠ t ++ .singleton 'x' := by
  refine ⟨rfl, by decide, fun t h => ?_⟩
  have hlast := congrArg (fun s : Text => s.chars.getLast?) h
  simp at hlast

end Parser

end Descent
