import Descent.Proofs.ArithGrammar
import Descent.Proofs.Breach
import Descent.Proofs.Numeral
import Descent.Proofs.Inversion

/-!
# Parsers work on suffixes

A parser made of combinators, whose functions at the leaves return suffixes of their
inputs, never makes up text: every node is invoked on a suffix of the input, and every
success leaves one (`Run.Within`). The bytes in front of the remainder can therefore be
counted by a difference of sizes, and cut off at a character, so that `consumed` never
finds the remainder invalid.

Of a parser that was not put together from combinators nothing is known but what it leaves
(`LeavesSuffix`); that alone is an invariant, too, so that what is put together from such
parsers leaves suffixes as they do.
-/

namespace Descent

/-- `t.IsSuffix s`: the text `s` ends in `t`. -/
def Text.IsSuffix (t s : Text) : Prop := ∃ u, s = u ++ t

namespace Text.IsSuffix

theorem refl (s : Text) : s.IsSuffix s := ⟨∅, (Text.empty_append s).symm⟩

theorem trans {s t u : Text} (h : u.IsSuffix t) (h' : t.IsSuffix s) : u.IsSuffix s := by
  obtain ⟨v, rfl⟩ := h
  obtain ⟨w, rfl⟩ := h'
  exact ⟨w ++ v, (Text.append_assoc w v u).symm⟩

end Text.IsSuffix

variable {α β : Type} {raises : Form → Breach → Prop}

/-- The run on `s` stays within `s`: a success leaves a suffix of it, and every traced
parser was invoked on one. -/
structure Run.Within (s : Text) (r : Run α) : Prop where
  rest : ∀ a, r.outcome = .success a → a.rest.IsSuffix s
  calls : ∀ label t, .enter label t ∈ r.log → t.IsSuffix s

namespace Run.Within

variable {s t : Text} {r : Run α}

theorem of_failure (e : ParseError) : Within s (.of (.failure e) : Run α) :=
  ⟨fun _ h => (by cases h), fun _ _ h => absurd h List.not_mem_nil⟩

theorem of_success (v : α) (h : t.IsSuffix s) : Within s (.of (.success ⟨v, t⟩)) := by
  refine ⟨fun a ha => ?_, fun _ _ h => absurd h List.not_mem_nil⟩
  cases ha
  exact h

/-- A run that stays within a suffix stays within the text. -/
theorem mono (h : Within t r) (ht : t.IsSuffix s) : Within s r :=
  ⟨fun a ha => (h.rest a ha).trans ht, fun label u hu => (h.calls label u hu).trans ht⟩

theorem map (f : α → β) (h : Within s r) : Within s (r.map f) := by
  refine ⟨fun b hb => ?_, h.calls⟩
  obtain ⟨a, ha, rfl⟩ := outcome_map_eq_success.mp hb
  exact h.rest a ha

theorem after {l : Log} (hl : ∀ label t, .enter label t ∈ l → t.IsSuffix s) (h : Within s r) :
    Within s (r.after l) := by
  refine ⟨h.rest, fun label t ht => ?_⟩
  rcases List.mem_append.mp ht with ht | ht
  · exact hl label t ht
  · exact h.calls label t ht

/-- What goes on with a success works on what that left. -/
theorem andThen {k : Success α → Run β} (h : Within s r)
    (hk : ∀ a, r.outcome = .success a → Within a.rest (k a)) : Within s (r.andThen k) := by
  cases ho : r.outcome with
  | success a =>
    rw [andThen_of_success ho]
    exact ((hk a ho).mono (h.rest a ho)).after h.calls
  | failure e =>
    rw [andThen_of_failure ho]
    exact ⟨fun _ hb => (by cases hb), h.calls⟩

/-- What goes on after a mismatch works on the input again. -/
theorem orElse {k : Unit → Run α} (h : Within s r) (hk : ∀ x, Within s (k x)) :
    Within s (r.orElse k) := by
  rcases ho : r.outcome with a | ⟨m | b⟩
  · rw [orElse_of_success ho]
    exact h
  · rw [orElse_of_mismatch ho]
    exact (hk ()).after h.calls
  · rw [orElse_of_breach ho]
    exact h

theorem traced {label : String} {p : Parser α} (h : Within s (p.run s)) :
    Within s ((p.traced label).run s) := by
  refine ⟨h.rest, fun label' t ht => ?_⟩
  rw [Parser.log_run_traced] at ht
  rcases List.mem_cons.mp ht with ht | ht
  · cases ht
    exact .refl s
  · rcases List.mem_append.mp ht with ht | ht
    · exact h.calls label' t ht
    · cases List.mem_singleton.mp ht

end Run.Within

/-- That runs stay within their texts is an invariant, whatever is raised. -/
def Invariant.within (raises : Form → Breach → Prop) : Invariant raises where
  Holds _ s r := r.Within s
  success v h := .of_success v h
  mismatch _ := .of_failure _
  breach _ := .of_failure _
  map f h := h.map f
  andThen h hk := h.andThen hk
  orElse h hk := h.orElse hk
  weaken _ h := h
  traced _ h := h.traced

/-! ### Remainders -/

/-- The invariant that successes leave suffixes, whatever is raised. -/
def Invariant.leavesSuffix (raises : Form → Breach → Prop) : Invariant raises where
  Holds _ s r := ∀ a, r.outcome = .success a → a.rest.IsSuffix s
  success v h a ha := by
    cases ha
    exact h
  mismatch _ _ ha := by cases ha
  breach _ _ ha := by cases ha
  map f h b hb := by
    obtain ⟨a, ha, rfl⟩ := Run.outcome_map_eq_success.mp hb
    exact h a ha
  andThen h hk b hb := by
    obtain ⟨a, ha, hb⟩ := Run.outcome_andThen_eq_success.mp hb
    exact (hk a ha b hb).trans (h a ha)
  orElse h hk b hb := by
    obtain hb | ⟨-, hb⟩ := Run.outcome_orElse_eq_success.mp hb
    · exact h b hb
    · exact hk () b hb
  weaken _ h := h
  traced _ h := h

namespace Parser

theorem leavesSuffix_pure (a : α) : (Parser.pure a).LeavesSuffix := by
  intro s b hb
  cases hb
  exact Text.IsSuffix.refl s

theorem leavesSuffix_zeroOrMoreChars (test : Char → Bool) :
    (zeroOrMoreChars test).LeavesSuffix := by
  intro s b hb
  rw [parse, run_zeroOrMoreChars] at hb
  cases hb
  exact ⟨s.takeWhile test, (s.takeWhile_append_dropWhile test).symm⟩

theorem leavesSuffix_symbolIf (test : Char → Bool) (message : Char → String) :
    (symbolIf test message).LeavesSuffix := by
  have h : (Invariant.leavesSuffix Form.Raises).Keeps (fun _ => True) (symbolIf test message) :=
    Invariant.keeps_symbolIf _ test message
  exact h

/-- To leave suffixes is to keep the invariant. -/
theorem LeavesSuffix.keeps {p : Parser α} (hp : p.LeavesSuffix) :
    (Invariant.leavesSuffix Form.Raises).Keeps (fun _ => True) p := hp

theorem LeavesSuffix.optional {p : Parser α} (hp : p.LeavesSuffix) :
    (Parser.optional p).LeavesSuffix := hp.keeps.optional

theorem LeavesSuffix.oneOrMore {p : Parser α} (hp : p.LeavesSuffix) :
    (Parser.oneOrMore p).LeavesSuffix := hp.keeps.oneOrMore (fun _ => trivial) trivial

theorem LeavesSuffix.zeroOrMore {p : Parser α} (hp : p.LeavesSuffix) :
    (Parser.zeroOrMore p).LeavesSuffix := hp.oneOrMore.optional.keeps.map _

theorem leavesSuffix_sequence {ps : List (Parser α)} (h : ∀ p ∈ ps, p.LeavesSuffix) :
    (sequence ps).LeavesSuffix := Invariant.keeps_sequence fun p hp => (h p hp).keeps

end Parser

/-! ### Functions at the leaves -/

/-- Wherever the function succeeds, it leaves a suffix of its text. -/
def LeavesSuffix (f : Text → Outcome α) : Prop := (Parser.ofFn f).LeavesSuffix

theorem Form.Raises.eq_ofFn {form : Form} (h : form.Raises .invalidRest) (hne : form ≠ .consumed) :
    form = .ofFn := by
  cases form with
  | ofFn => rfl
  | consumed => exact absurd rfl hne
  | _ => exact h.elim

namespace Grammar

theorem within_watched (g : Grammar α) (hg : g.Leaves LeavesSuffix) (s : Text) :
    (g.watched.run s).Within s := by
  refine (Invariant.within Form.Raises).holds_watched (P := LeavesSuffix) (fun f hf s => ?_)
    (fun _ _ _ h => h) (Or.inl trivial) g hg s
  cases h : f s with
  | failure e => rw [Parser.run_ofFn, h]; exact .of_failure e
  | success a => rw [Parser.run_ofFn, h]; exact .of_success a.value (hf s a h)

theorem leavesSuffix_watched (g : Grammar α) (hg : g.Leaves LeavesSuffix) :
    g.watched.LeavesSuffix := fun s => (g.within_watched hg s).rest

theorem leavesSuffix_of_leaves (g : Grammar α) (hg : g.Leaves LeavesSuffix) :
    g.parser.LeavesSuffix :=
  fun s a ha => g.leavesSuffix_watched hg s a ((g.parse_watched s).trans ha)

/-- Nodes that leave suffixes do not make `consumed` raise a breach. -/
theorem accounts_watched_of_leavesSuffix (g : Grammar α) (hg : g.Leaves LeavesSuffix) :
    (Invariant.accounts fun form b => form.Raises b ∧ form ≠ .consumed).Clean g.watched :=
  Invariant.holds_watched (P := LeavesSuffix)
    (fun f _ => Invariant.keeps_accounts_ofFn f fun _ => ⟨trivial, by decide⟩)
    (fun _ _ hform h => ⟨h, hform⟩) (Or.inr leavesSuffix_watched) g hg

/-- **Parsers work on suffixes.** If the functions at the leaves of a grammar leave
suffixes, then on every text `s`
* a success of the parser leaves a suffix of `s`, and the number of bytes consumed is the
  size of the text in front of it;
* every node is invoked on a suffix of `s`;
* the first invocation to end in an invalid remainder is not of a `consumed` node, but of
  a function at a leaf, and there is one if the parser ends so. -/
theorem parse_of_leaves_suffix (g : Grammar α) (hg : g.Leaves LeavesSuffix) (s : Text) :
    (∀ a, g.parser.parse s = .success a →
      ∃ t, s = t ++ a.rest ∧ a.consumed s = t.size ∧ a.consumed s + a.rest.size = s.size) ∧
    (∀ label t, .enter label t ∈ (g.watched.run s).log → ∃ u, s = u ++ t) ∧
    (∀ (l : Log) (form : Form) (m : Log),
      (g.watched.run s).log = l ++ .leave form.name (some .invalidRest) :: m → Log.Quiet l →
      form = .ofFn) ∧
    (g.parser.parse s = .failure (.breach .invalidRest) →
      ∃ l m : Log, (g.watched.run s).log = l ++ .leave Form.ofFn.name (some .invalidRest) :: m ∧
        Log.Quiet l) := by
  have hwithin := g.within_watched hg s
  have hacc := g.accounts_watched_of_leavesSuffix hg s
  refine ⟨fun a ha => ?_, hwithin.calls, fun l form m hlog hq => ?_, fun hb => ?_⟩
  · obtain ⟨t, ht⟩ := g.leavesSuffix_of_leaves hg s a ha
    have hsize : s.size = t.size + a.rest.size := by rw [ht, Text.size_append]
    refine ⟨t, ht, ?_, ?_⟩
    · rw [Success.consumed]; omega
    · rw [Success.consumed]; omega
  · obtain ⟨hform, hne⟩ := hacc.raises_of_quiet hlog hq
    exact hform.eq_ofFn hne
  · obtain ⟨l, form, m, hlog, hq, hform, hne⟩ := hacc.exists_raised ((g.parse_watched s).trans hb)
    rw [hform.eq_ofFn hne] at hlog
    exact ⟨l, m, hlog, hq⟩

/-- The parsers of arithmetic are those of grammars without a function at a leaf, and what they
leave on any text is what stands behind the bytes they consumed. On the text `7` the parser of
numbers consumes one byte; and if a function follows that calls the remainder invalid, it is on
record as the first to do so. -/
theorem invalidRest_behind_number :
    (binaryOperator.parser = Arith.binaryOperator ∧ binaryOperator.Leaves LeavesSuffix ∧
      ∀ s a, Arith.binaryOperator.parse s = .success a →
        ∃ t, s = t ++ a.rest ∧ a.consumed s = t.size ∧ a.consumed s + a.rest.size = s.size) ∧
    (operate.parser = Arith.operate ∧ operate.Leaves LeavesSuffix ∧
      ∀ s a, Arith.operate.parse s = .success a →
        ∃ t, s = t ++ a.rest ∧ a.consumed s = t.size ∧ a.consumed s + a.rest.size = s.size) ∧
    (number.parser = Arith.number ∧ number.Leaves LeavesSuffix ∧
      ∃ t, Text.singleton '7' = t ++ ∅ ∧
        Success.consumed ⟨(7 : Int64), ∅⟩ (.singleton '7') = t.size ∧ t.size = 1) ∧
    (Grammar.lift2 (fun v (_ : Unit) => v) number
        (.ofFn fun _ => .failure (.breach .invalidRest))).Leaves LeavesSuffix ∧
    ∃ l m : Log, ((Grammar.lift2 (fun v (_ : Unit) => v) number
        (.ofFn fun _ => .failure (.breach .invalidRest))).watched.run (.singleton '7')).log =
      l ++ .leave Form.ofFn.name (some .invalidRest) :: m ∧ Log.Quiet l := by
  have hseven : number.parser.parse (.singleton '7') = .success ⟨7, ∅⟩ := by
    rw [parser_number]
    exact Arith.parse_number_eq_success.mpr
      ⟨∅, ⟨.none, .singleton '7', by decide, Text.all_singleton rfl⟩, ∅, Text.all_empty,
        Text.all_empty, Text.stops_empty, Text.stops_empty, by decide, Text.ext rfl⟩
  have hleaves : (Grammar.lift2 (fun v (_ : Unit) => v) number
      (.ofFn fun _ => .failure (.breach .invalidRest))).Leaves LeavesSuffix :=
    ⟨leaves_number, fun _ _ h => by cases h⟩
  refine ⟨⟨parser_binaryOperator, leaves_binaryOperator, fun s => ?_⟩,
    ⟨parser_operate, leaves_operate, fun s => ?_⟩, ⟨parser_number, leaves_number, ?_⟩, hleaves, ?_⟩
  · rw [← parser_binaryOperator]
    exact (parse_of_leaves_suffix binaryOperator leaves_binaryOperator s).1
  · rw [← parser_operate]
    exact (parse_of_leaves_suffix operate leaves_operate s).1
  · obtain ⟨t, ht, hcount, hsize⟩ :=
      (parse_of_leaves_suffix number leaves_number _).1 _ hseven
    refine ⟨t, ht, hcount, ?_⟩
    rw [← hcount]
    rfl
  · refine (parse_of_leaves_suffix _ hleaves _).2.2.2 ?_
    change ((number.parser.run _).andThen _).outcome = _
    rw [Run.andThen_of_success hseven]
    rfl

end Grammar

end Descent
