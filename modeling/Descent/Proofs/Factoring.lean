import Descent.Proofs.OrderedChoice

/-!
# Choices and what goes on

A choice and what stands in front of it, or behind it, may be taken together in two ways.

In front, a parser may be run once, and then the alternatives be tried on what it left; or
each alternative may run it for itself. As long as the parser does not mismatch there is no
difference, and if it does, only the message differs (`left_factoring`).

Behind, what goes on may stand behind the choice, or behind each of the alternatives. This does
make a difference, for a choice commits itself to the first alternative that succeeds
(`Commits`). If what goes on then mismatches, the alternatives behind are not tried any more,
while they are if it belongs to the alternative. In all other cases there is no difference
(`choice_commits`).
-/

namespace Descent

namespace Parser

variable {α β : Type} {p : Parser α} {ps before behind : List (Parser α)} {a : Success α}
  {f : α → Parser β} {fs : List (α → Parser β)} {s : Text}

/-! ### Going on -/

theorem parse_bind_of_success (h : p.parse s = .success a) (f : α → Parser β) :
    (p.bind f).parse s = (f a.value).parse a.rest := by
  rw [parse, run_bind, Run.andThen_of_success h, Run.outcome_after, parse]

theorem parse_bind_of_failure {e : ParseError} (h : p.parse s = .failure e) (f : α → Parser β) :
    (p.bind f).parse s = .failure e := by
  rw [parse, run_bind, Run.andThen_of_failure h]

theorem Mismatches.bind (h : p.Mismatches s) (f : α → Parser β) : (p.bind f).Mismatches s := by
  obtain ⟨m, hm⟩ := h
  exact ⟨m, parse_bind_of_failure hm f⟩

/-- Behind a success, what goes on decides whether there is a mismatch. -/
theorem mismatches_bind_of_success (h : p.parse s = .success a) :
    (p.bind f).Mismatches s ↔ (f a.value).Mismatches a.rest := by
  rw [Mismatches, parse_bind_of_success h, Mismatches]

theorem mismatches_map_bind (h : ∀ q ∈ ps, q.Mismatches s) (f : α → Parser β) :
    ∀ q ∈ ps.map fun q => q.bind f, q.Mismatches s := by
  intro q hq
  obtain ⟨p, hp, rfl⟩ := List.mem_map.mp hq
  exact (h p hp).bind f

/-! ### In front of a choice -/

/-- Where the parser in front succeeds, all alternatives start behind it. -/
theorem parse_anyOf_map_bind_of_success (h : p.parse s = .success a)
    (fs : List (α → Parser β)) :
    (anyOf (fs.map p.bind)).parse s = (anyOf (fs.map fun f => f a.value)).parse a.rest := by
  induction fs with
  | nil => rfl
  | cons f fs ih =>
    rw [List.map_cons, List.map_cons]
    by_cases hf : (f a.value).Mismatches a.rest
    · have hpf : (p.bind f).Mismatches s := (mismatches_bind_of_success h).mpr hf
      rw [parse_anyOf_cons_of_mismatches hpf, ih, parse_anyOf_cons_of_mismatches hf]
    · have hpf : ¬ (p.bind f).Mismatches s := mt (mismatches_bind_of_success h).mp hf
      rw [parse_anyOf_cons_of_not_mismatches hpf, parse_bind_of_success h,
        parse_anyOf_cons_of_not_mismatches hf]

theorem parse_anyOf_map_bind_of_mismatches (h : p.Mismatches s) (fs : List (α → Parser β)) :
    (anyOf (fs.map p.bind)).parse s = .failure .noneMatched := by
  apply parse_anyOf_of_mismatches
  intro q hq
  obtain ⟨f, -, rfl⟩ := List.mem_map.mp hq
  exact h.bind f

/-- A breach of the parser in front ends the choice in its first alternative. -/
theorem parse_anyOf_map_bind_of_breach {b : Breach} (h : p.parse s = .failure (.breach b))
    (hfs : fs ≠ []) : (anyOf (fs.map p.bind)).parse s = .failure (.breach b) := by
  obtain ⟨f, fs, rfl⟩ := List.exists_cons_of_ne_nil hfs
  have hf : (p.bind f).parse s = .failure (.breach b) := parse_bind_of_failure h f
  rw [List.map_cons, parse_anyOf_cons_of_not_mismatches (not_mismatches_of_breach hf), hf]

/-- **What all alternatives begin with may be set in front of the choice.** If the parser that
is set in front succeeds, or is in breach, the result is the same, errors included. If it
mismatches, so do both: the choice says that none matched, and the parser in front, set apart,
says what it says. -/
theorem left_factoring (p : Parser α) (hfs : fs ≠ []) (s : Text) :
    (¬ p.Mismatches s → (anyOf (fs.map fun f => p.bind f)).parse s =
      (p.bind fun v => anyOf (fs.map fun f => f v)).parse s) ∧
    ∀ m, p.parse s = .failure (.mismatch m) →
      (anyOf (fs.map fun f => p.bind f)).parse s = .failure .noneMatched ∧
      (p.bind fun v => anyOf (fs.map fun f => f v)).parse s = .failure (.mismatch m) := by
  constructor
  · intro h
    rcases ho : p.parse s with a | ⟨m | b⟩
    · rw [parse_anyOf_map_bind_of_success ho, parse_bind_of_success ho]
    · exact absurd ⟨m, ho⟩ h
    · rw [parse_anyOf_map_bind_of_breach ho hfs, parse_bind_of_failure ho]
  · intro m hm
    exact ⟨parse_anyOf_map_bind_of_mismatches ⟨m, hm⟩ fs, parse_bind_of_failure hm _⟩

/-- A sign in front of an `a` or a `b`, where the `b` is found and where the sign is missing. -/
theorem left_factoring_sign :
    [fun _ => char 'a', fun _ : Char => char 'b'] ≠ [] ∧
    ¬ (char '-').Mismatches (.ofString "-b") ∧
    (anyOf ([fun _ => char 'a', fun _ => char 'b'].map fun f => (char '-').bind f)).parse
      (.ofString "-b") = .success ⟨'b', ∅⟩ ∧
    (char '-').parse (.ofString "b") = .failure (.labelled "expected '-' but got 'b'") ∧
    (anyOf ([fun _ => char 'a', fun _ => char 'b'].map fun f => (char '-').bind f)).parse
      (.ofString "b") = .failure (.labelled "none matched") := by
  have hne : [fun _ => char 'a', fun _ : Char => char 'b'] ≠ [] := List.cons_ne_nil _ _
  have hsign : ¬ (char '-').Mismatches (.ofString "-b") := by
    intro h
    obtain ⟨m, hm⟩ := h
    cases hm
  have hmissing : (char '-').parse (.ofString "b") =
      .failure (.labelled "expected '-' but got 'b'") := by decide
  obtain ⟨hfound, -⟩ := left_factoring (char '-') hne (.ofString "-b")
  obtain ⟨-, hnone⟩ := left_factoring (char '-') hne (.ofString "b")
  refine ⟨hne, hsign, ?_, hmissing, (hnone _ hmissing).1⟩
  rw [hfound hsign]
  decide

/-! ### Behind a choice -/

/-- On the text `s` the choice between `ps` commits itself to `p`: the alternatives `before` it
mismatch, and it succeeds with `a`. Those `behind` it are not tried. -/
structure Commits (ps : List (Parser α)) (s : Text) (before : List (Parser α)) (p : Parser α)
    (behind : List (Parser α)) (a : Success α) : Prop where
  eq_append : ps = before ++ p :: behind
  mismatches : ∀ q ∈ before, q.Mismatches s
  parse_eq : p.parse s = .success a

namespace Commits

theorem run_anyOf (h : Commits ps s before p behind a) :
    (anyOf ps).run s = ⟨(before ++ [p]).flatMap fun q => (q.run s).log, .success a⟩ := by
  rw [h.eq_append, run_anyOf_of_first h.mismatches (not_mismatches_of_success h.parse_eq),
    h.parse_eq]

/-- What goes on behind the choice goes on behind the alternative. -/
theorem run_bind_anyOf (h : Commits ps s before p behind a) (f : α → Parser β) :
    ((anyOf ps).bind f).run s =
      ((f a.value).run a.rest).after ((before ++ [p]).flatMap fun q => (q.run s).log) := by
  rw [run_bind, h.run_anyOf, Run.andThen_of_success rfl]

/-- Where it goes on behind each alternative, those in front still mismatch. -/
theorem parse_anyOf_map_bind (h : Commits ps s before p behind a) (f : α → Parser β) :
    (anyOf (ps.map fun q => q.bind f)).parse s =
      (anyOf (p.bind f :: behind.map fun q => q.bind f)).parse s := by
  rw [h.eq_append, List.map_append, List.map_cons,
    parse_anyOf_append_of_mismatches (mismatches_map_bind h.mismatches f)]

/-- If it mismatches there, the alternatives behind are tried after all. -/
theorem parse_anyOf_map_bind_of_mismatches (h : Commits ps s before p behind a)
    (hf : (f a.value).Mismatches a.rest) :
    (anyOf (ps.map fun q => q.bind f)).parse s =
      (anyOf (behind.map fun q => q.bind f)).parse s := by
  have hpf : (p.bind f).Mismatches s := (mismatches_bind_of_success h.parse_eq).mpr hf
  rw [h.parse_anyOf_map_bind, parse_anyOf_cons_of_mismatches hpf]

/-- Otherwise it makes no difference. -/
theorem parse_bind_anyOf (h : Commits ps s before p behind a)
    (hf : ¬ (f a.value).Mismatches a.rest) :
    ((anyOf ps).bind f).parse s = (anyOf (ps.map fun q => q.bind f)).parse s := by
  have hpf : ¬ (p.bind f).Mismatches s := mt (mismatches_bind_of_success h.parse_eq).mp hf
  rw [h.parse_anyOf_map_bind, parse_anyOf_cons_of_not_mismatches hpf,
    parse_bind_of_success h.parse_eq, parse, h.run_bind_anyOf, Run.outcome_after, parse]

end Commits

/-- A choice commits itself to an alternative, or fails; and then it fails in the same way
with anything behind the alternatives. -/
theorem exists_commits_or_failure (ps : List (Parser α)) (s : Text) :
    (∃ before p behind a, Commits ps s before p behind a) ∨
    ∃ e, (anyOf ps).parse s = .failure e ∧
      ∀ f : α → Parser β, (anyOf (ps.map fun q => q.bind f)).parse s = .failure e := by
  obtain hps | ⟨before, p, behind, rfl, hbefore, hp⟩ := exists_first_or_mismatches ps s
  · exact Or.inr ⟨.noneMatched, parse_anyOf_of_mismatches hps,
      fun f => parse_anyOf_of_mismatches (mismatches_map_bind hps f)⟩
  · rcases ho : p.parse s with a | ⟨m | b⟩
    · exact Or.inl ⟨before, p, behind, a, rfl, hbefore, ho⟩
    · exact absurd ⟨m, ho⟩ hp
    · refine Or.inr ⟨.breach b, by rw [parse, run_anyOf_of_first hbefore hp, ho], fun f => ?_⟩
      have hpf : (p.bind f).parse s = .failure (.breach b) := parse_bind_of_failure ho f
      rw [List.map_append, List.map_cons,
        parse_anyOf_append_of_mismatches (mismatches_map_bind hbefore f),
        parse_anyOf_cons_of_not_mismatches (not_mismatches_of_breach hpf), hpf]

/-- Where what goes on does not mismatch behind the alternative that is found, it may stand
behind each of them. -/
theorem parse_bind_anyOf (h : ∀ before p behind a, Commits ps s before p behind a →
    ¬ (f a.value).Mismatches a.rest) :
    ((anyOf ps).bind f).parse s = (anyOf (ps.map fun q => q.bind f)).parse s := by
  obtain ⟨before, p, behind, a, hc⟩ | ⟨e, he, hmap⟩ := exists_commits_or_failure (β := β) ps s
  · exact hc.parse_bind_anyOf (h before p behind a hc)
  · rw [parse_bind_of_failure he, hmap]

/-- If there is no mismatch behind the choice, there is no difference. -/
theorem parse_bind_anyOf_of_not_mismatches (h : ¬ ((anyOf ps).bind f).Mismatches s) :
    ((anyOf ps).bind f).parse s = (anyOf (ps.map fun q => q.bind f)).parse s := by
  refine parse_bind_anyOf fun before p behind a hc hf => h ?_
  have hchoice : (anyOf ps).parse s = .success a := by rw [parse, hc.run_anyOf]
  exact (mismatches_bind_of_success hchoice).mpr hf

/-- **A choice commits itself to its first success.** What goes on behind a choice may as well
go on behind each alternative, unless the first alternative that does not mismatch succeeds and
what goes on mismatches behind it. In that case the mismatch is the result where it goes on
behind the choice, and of the alternatives only those up to that one are run; where it goes on
behind each of them, the alternatives behind that one are the result. So a success or a breach
behind a choice is one with the alternatives, too. -/
theorem choice_commits (ps : List (Parser α)) (f : α → Parser β) (s : Text) :
    (∀ before p behind a m, Commits ps s before p behind a →
      (f a.value).parse a.rest = .failure (.mismatch m) →
      ((anyOf ps).bind f).run s =
        ⟨((before ++ [p]).flatMap fun q => (q.run s).log) ++ ((f a.value).run a.rest).log,
          .failure (.mismatch m)⟩ ∧
      (anyOf (ps.map fun q => q.bind f)).parse s =
        (anyOf (behind.map fun q => q.bind f)).parse s) ∧
    ((∀ before p behind a, Commits ps s before p behind a → ¬ (f a.value).Mismatches a.rest) →
      ((anyOf ps).bind f).parse s = (anyOf (ps.map fun q => q.bind f)).parse s) ∧
    (∀ b, ((anyOf ps).bind f).parse s = .success b →
      (anyOf (ps.map fun q => q.bind f)).parse s = .success b) ∧
    ∀ c, ((anyOf ps).bind f).parse s = .failure (.breach c) →
      (anyOf (ps.map fun q => q.bind f)).parse s = .failure (.breach c) := by
  refine ⟨fun before p behind a m hc hf => ⟨?_, hc.parse_anyOf_map_bind_of_mismatches ⟨m, hf⟩⟩,
    parse_bind_anyOf, fun b hb => ?_, fun c hb => ?_⟩
  · rw [hc.run_bind_anyOf]
    exact Run.ext rfl hf
  · rw [← parse_bind_anyOf_of_not_mismatches (not_mismatches_of_success hb), hb]
  · rw [← parse_bind_anyOf_of_not_mismatches (not_mismatches_of_breach hb), hb]

/-- The shorter of two words is tried first; behind it a `c` is missing in `abc`, though not
behind the longer one. In `ac!` it is found. -/
theorem choice_commits_to_shorter_word :
    Commits (["a", "ab"].map fun w => literal (.ofString w)) (.ofString "abc") []
      (literal (.ofString "a")) [literal (.ofString "ab")] ⟨.ofString "a", .ofString "bc"⟩ ∧
    (char 'c').parse (.ofString "bc") = .failure (.labelled "expected 'c' but got 'b'") ∧
    ((anyOf (["a", "ab"].map fun w => literal (.ofString w))).bind fun _ => char 'c').run
      (.ofString "abc") = .of (.failure (.labelled "expected 'c' but got 'b'")) ∧
    (anyOf ((["a", "ab"].map fun w => literal (.ofString w)).map fun q =>
      q.bind fun _ => char 'c')).parse (.ofString "abc") = .success ⟨'c', ∅⟩ ∧
    (∀ before p behind a,
      Commits (["a", "ab"].map fun w => literal (.ofString w)) (.ofString "ac!") before p behind a →
      ¬ (char 'c').Mismatches a.rest) ∧
    (anyOf ((["a", "ab"].map fun w => literal (.ofString w)).map fun q =>
      q.bind fun _ => char 'c')).parse (.ofString "ac!") = .success ⟨'c', .ofString "!"⟩ := by
  obtain ⟨hstrand, -⟩ := choice_commits (["a", "ab"].map fun w => literal (.ofString w))
    (fun _ => char 'c') (.ofString "abc")
  obtain ⟨-, hsame, -⟩ := choice_commits (["a", "ab"].map fun w => literal (.ofString w))
    (fun _ => char 'c') (.ofString "ac!")
  have hcommits : Commits (["a", "ab"].map fun w => literal (.ofString w)) (.ofString "abc") []
      (literal (.ofString "a")) [literal (.ofString "ab")] ⟨.ofString "a", .ofString "bc"⟩ :=
    ⟨rfl, fun _ h => absurd h List.not_mem_nil, by decide⟩
  have hmissing : (char 'c').parse (.ofString "bc") =
      .failure (.labelled "expected 'c' but got 'b'") := by decide
  have hfound : ∀ before p behind a,
      Commits (["a", "ab"].map fun w => literal (.ofString w)) (.ofString "ac!") before p behind a →
      ¬ (char 'c').Mismatches a.rest := by
    intro before p behind a hc
    have hchoice : (anyOf (["a", "ab"].map fun w => literal (.ofString w))).parse
        (.ofString "ac!") = .success ⟨.ofString "a", .ofString "c!"⟩ := by decide
    rw [parse, hc.run_anyOf] at hchoice
    cases hchoice
    have hc : (char 'c').parse (.ofString "c!") = .success ⟨'c', .ofString "!"⟩ := by decide
    exact not_mismatches_of_success hc
  obtain ⟨hrun, hparse⟩ := hstrand _ _ _ _ _ hcommits hmissing
  refine ⟨hcommits, hmissing, hrun, ?_, hfound, ?_⟩
  · rw [hparse]
    decide
  · rw [← hsame hfound]
    decide

end Parser

end Descent
