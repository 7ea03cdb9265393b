import Descent.Proofs.Repetition
import Descent.Proofs.Grammar

/-!
# Invariants of runs

An invariant is a property of the runs on a text that composing them keeps (`Invariant`).
It is told which breaches a parser may make by itself, other than by passing one on; what
a node may make by itself is decided by its form, and once the node is traced the breach
is on record and no longer its own. `Invariant.holds_watched` is the induction over
grammars, made once for all invariants: what holds at the leaves holds of every watched
grammar.
-/

namespace Descent

/-- `form.Raises b`: a node of the form may make the breach `b` by itself. A repetition
finds no progress, or too much of it, a fold without a seed finds nothing, `consumed` a
remainder that is no suffix; and a function may end in any breach it likes. -/
def Form.Raises : Form → Breach → Prop
  | oneOrMore, .noProgress _ => True
  | oneOrMore, .runaway => True
  | zeroOrMore, .noProgress _ => True
  | zeroOrMore, .runaway => True
  | fold1, .emptyFold => True
  | consumed, .invalidRest => True
  | ofFn, _ => True
  | _, _ => False

/-- A property of the runs on a text that composition keeps, where a parser may itself
make the breaches `own`, and a node of a form the breaches it `raises`. -/
structure Invariant (raises : Form → Breach → Prop) where
  /-- The property. -/
  Holds {α : Type} (own : Breach → Prop) (s : Text) (r : Run α) : Prop
  /-- A success that leaves a suffix. -/
  success {α : Type} {own : Breach → Prop} {s t : Text} (v : α) :
    (∃ u, s = u ++ t) → Holds own s (.of (.success ⟨v, t⟩))
  /-- A mismatch. -/
  mismatch {α : Type} {own : Breach → Prop} {s : Text} (m : Option String) :
    Holds own s (.of (.failure (.mismatch m)) : Run α)
  /-- A breach of one's own. -/
  breach {α : Type} {own : Breach → Prop} {s : Text} {b : Breach} :
    own b → Holds own s (.of (.failure (.breach b)) : Run α)
  /-- Another value. -/
  map {α β : Type} {own : Breach → Prop} {s : Text} {r : Run α} (f : α → β) :
    Holds own s r → Holds own s (r.map f)
  /-- Going on after a success. -/
  andThen {α β : Type} {own : Breach → Prop} {s : Text} {r : Run α} {k : Success α → Run β} :
    Holds own s r → (∀ a, r.outcome = .success a → Holds own a.rest (k a)) →
    Holds own s (r.andThen k)
  /-- Going on after a mismatch. -/
  orElse {α : Type} {own : Breach → Prop} {s : Text} {r : Run α} {k : Unit → Run α} :
    Holds own s r → (∀ x, Holds own s (k x)) → Holds own s (r.orElse k)
  /-- More breaches of one's own. -/
  weaken {α : Type} {own own' : Breach → Prop} {s : Text} {r : Run α} :
    (∀ b, own b → own' b) → Holds own s r → Holds own' s r
  /-- What a traced node raised is on record. -/
  traced {α : Type} {p : Parser α} {s : Text} (form : Form) :
    Holds (raises form) s (p.run s) → Holds (fun _ => False) s ((p.traced form.name).run s)

namespace Invariant

variable {raises : Form → Breach → Prop} (I : Invariant raises) {own : Breach → Prop}
variable {α β γ δ ε ζ : Type}

/-- The invariant holds of all runs of the parser. -/
def Keeps (own : Breach → Prop) (p : Parser α) : Prop := ∀ s, I.Holds own s (p.run s)

/-- The invariant holds of the parser, which makes no breach by itself. -/
abbrev Clean (p : Parser α) : Prop := I.Keeps (fun _ => False) p

/-- A success that leaves everything. -/
theorem stay (v : α) (s : Text) : I.Holds own s (.of (.success ⟨v, s⟩)) :=
  I.success v ⟨∅, (Text.empty_append s).symm⟩

variable {I}

theorem Clean.keeps {p : Parser α} (hp : I.Clean p) : I.Keeps own p := by
  intro s
  exact I.weaken (fun _ h => h.elim) (hp s)

/-! ### Combinators -/

section Combinators

variable {p : Parser α} {q : Parser β} {r : Parser γ} {t : Parser δ} {u : Parser ε}

theorem Keeps.map (hp : I.Keeps own p) (f : α → β) : I.Keeps own (p.map f) := by
  intro s
  exact I.map f (hp s)

theorem Keeps.bind {f : α → Parser β} (hp : I.Keeps own p) (hf : ∀ a, I.Keeps own (f a)) :
    I.Keeps own (p.bind f) := by
  intro s
  exact I.andThen (hp s) fun a _ => hf a.value a.rest

theorem Keeps.ap {pf : Parser (α → β)} (hf : I.Keeps own pf) (hp : I.Keeps own p) :
    I.Keeps own (pf.ap p) := by
  intro s
  exact I.andThen (hf s) fun f _ => I.map f.value (hp f.rest)

theorem Keeps.lift2 (f : α → β → γ) (hp : I.Keeps own p) (hq : I.Keeps own q) :
    I.Keeps own (.lift2 f p q) := by
  intro s
  exact I.andThen (hp s) fun a _ => I.map (f a.value) (hq a.rest)

theorem Keeps.lift3 (f : α → β → γ → δ) (hp : I.Keeps own p) (hq : I.Keeps own q)
    (hr : I.Keeps own r) : I.Keeps own (.lift3 f p q r) := by
  intro s
  exact I.andThen (hp s) fun a _ => hq.lift2 (f a.value) hr a.rest

theorem Keeps.lift4 (f : α → β → γ → δ → ε) (hp : I.Keeps own p) (hq : I.Keeps own q)
    (hr : I.Keeps own r) (ht : I.Keeps own t) : I.Keeps own (.lift4 f p q r t) := by
  intro s
  exact I.andThen (hp s) fun a _ => hq.lift3 (f a.value) hr ht a.rest

theorem Keeps.lift5 (f : α → β → γ → δ → ε → ζ) (hp : I.Keeps own p) (hq : I.Keeps own q)
    (hr : I.Keeps own r) (ht : I.Keeps own t) (hu : I.Keeps own u) :
    I.Keeps own (.lift5 f p q r t u) := by
  intro s
  exact I.andThen (hp s) fun a _ => hq.lift4 (f a.value) hr ht hu a.rest

theorem Keeps.fold1 {p : Parser (List α)} (hp : I.Keeps own p) (h : own .emptyFold)
    (combine : α → α → α) : I.Keeps own (p.fold1 combine) := by
  refine hp.bind fun values s => ?_
  cases values with
  | nil => exact I.breach h
  | cons first others => exact I.stay _ s

/-- What has been consumed is found, unless the parser leaves no suffix. -/
theorem Keeps.consumed (hp : I.Keeps own p) (h : own .invalidRest ∨ p.LeavesSuffix) :
    I.Keeps own (.consumed p) := by
  intro s
  rw [Parser.run_consumed]
  refine I.andThen (hp s) fun a ha => ?_
  split
  · exact I.stay _ a.rest
  · next hnone =>
    rcases h with h | h
    · exact I.breach h
    · obtain ⟨w, hw⟩ := h s a ha
      rw [hw, Text.segment?_append] at hnone
      cases hnone

theorem Keeps.or {q : Parser α} (hp : I.Keeps own p) (hq : I.Keeps own q) :
    I.Keeps own (p.or q) := by
  intro s
  exact I.orElse (hp s) fun _ => I.orElse (hq s) fun _ => I.mismatch _

theorem Keeps.optional (hp : I.Keeps own p) : I.Keeps own (.optional p) := by
  intro s
  exact I.orElse (I.map some (hp s)) fun _ => I.stay none s

theorem keeps_anyOf {ps : List (Parser α)} (h : ∀ p ∈ ps, I.Keeps own p) :
    I.Keeps own (.anyOf ps) := by
  induction ps with
  | nil => exact fun s => I.mismatch _
  | cons p ps ih =>
    obtain ⟨hp, hps⟩ := List.forall_mem_cons.mp h
    exact fun s => I.orElse (hp s) fun _ => ih hps s

theorem keeps_sequence {ps : List (Parser α)} (h : ∀ p ∈ ps, I.Keeps own p) :
    I.Keeps own (.sequence ps) := by
  induction ps with
  | nil => exact fun s => I.stay [] s
  | cons p ps ih =>
    obtain ⟨hp, hps⟩ := List.forall_mem_cons.mp h
    rw [Parser.sequence_cons]
    exact hp.lift2 _ (ih hps)

/-! ### Repetition -/

theorem holds_after {s : Text} {r : Run α} {a : Success α} {k : Run β} (hr : I.Holds own s r)
    (ha : r.outcome = .success a) (hk : I.Holds own a.rest k) : I.Holds own s (k.after r.log) := by
  rw [← Run.andThen_of_success ha fun _ => k]
  refine I.andThen hr fun b hb => ?_
  obtain rfl : a = b := Outcome.success.inj (ha.symm.trans hb)
  exact hk

theorem holds_failure {s : Text} {r : Run α} {e : ParseError} (hr : I.Holds own s r)
    (he : r.outcome = .failure e) : I.Holds own s (⟨r.log, .failure e⟩ : Run β) := by
  rw [← Run.andThen_of_failure he fun _ => .of (.failure .noneMatched)]
  exact I.andThen hr fun a ha => by rw [he] at ha; cases ha

/-- The rounds of a repetition add the breaches of repetitions. -/
theorem Keeps.rounds (hp : I.Keeps own p) (hstill : ∀ k, own (.noProgress k)) (haway : own .runaway)
    (n k : Nat) (s : Text) : I.Holds own s (Parser.rounds p n k s) := by
  -- along the recursion of the rounds: one case for each way a round can end
  fun_induction Parser.rounds p n k s with
  | case1 n k s a h hlt ih => exact holds_after (hp s) h (I.map _ ih)
  | case2 n k s a h hlt heq =>
    rw [← Run.after_of]
    exact holds_after (hp s) h (I.breach (hstill k))
  | case3 k s a h hlt hne =>
    rw [← Run.after_of]
    exact holds_after (hp s) h (I.breach haway)
  | case4 k s a h hlt hne n ih => exact holds_after (hp s) h (I.map _ ih)
  | case5 n k s e h =>
    by_cases hk : (e.isRecoverable && k != 0) = true
    · rw [if_pos hk]
      rw [Bool.and_eq_true] at hk
      cases e with
      | breach b => exact absurd hk.1 Bool.false_ne_true
      | mismatch m =>
        have hrun : (⟨(p.run s).log, .failure (.mismatch m)⟩ : Run (List α)).orElse
            (fun _ => .of (.success ⟨[], s⟩)) = ⟨(p.run s).log, .success ⟨[], s⟩⟩ :=
          Run.after_of _ _
        rw [← hrun]
        exact I.orElse (holds_failure (hp s) h) fun _ => I.stay [] s
    · rw [if_neg hk]
      exact holds_failure (hp s) h

theorem Keeps.oneOrMore (hp : I.Keeps own p) (hstill : ∀ k, own (.noProgress k))
    (haway : own .runaway) : I.Keeps own (.oneOrMore p) := by
  intro s
  rw [Parser.run_oneOrMore]
  exact hp.rounds hstill haway _ _ s

end Combinators

/-! ### Leaves -/

section Leaves

variable (I)

theorem keeps_symbol : I.Keeps own .symbol := by
  intro s
  cases s with
  | empty => exact I.mismatch _
  | cons c s =>
    rw [Parser.run_symbol_cons]
    exact I.success c ⟨.singleton c, Text.ext rfl⟩

theorem keeps_symbolIf (test : Char → Bool) (message : Char → String) :
    I.Keeps own (.symbolIf test message) := by
  refine I.keeps_symbol.bind fun c s => ?_
  split
  · exact I.stay c s
  · exact I.mismatch _

theorem keeps_literal (wanted : Text) : I.Keeps own (.literal wanted) := by
  intro s
  rw [Parser.literal, Parser.run_ofFn]
  cases h : s.dropPrefix? wanted with
  | some rest => exact I.success wanted ⟨wanted, Text.dropPrefix?_eq_some.mp h⟩
  | none => exact I.mismatch _

theorem holds_cut (test : Char → Bool) (s : Text) :
    I.Holds own s (.of (.success ⟨s.takeWhile test, s.dropWhile test⟩)) :=
  I.success _ ⟨s.takeWhile test, (s.takeWhile_append_dropWhile test).symm⟩

theorem keeps_oneOrMoreChars (test : Char → Bool) (label : String) :
    I.Keeps own (.oneOrMoreChars test label) := by
  intro s
  rw [Parser.run_oneOrMoreChars]
  split
  · exact I.mismatch _
  · exact I.holds_cut test s

theorem keeps_zeroOrMoreChars (test : Char → Bool) : I.Keeps own (.zeroOrMoreChars test) := by
  intro s
  rw [Parser.run_zeroOrMoreChars]
  exact I.holds_cut test s

end Leaves

/-! ### Grammars -/

/-- A node that is traced makes no breach by itself. -/
theorem Keeps.node {p : Parser α} (form : Form) (hp : I.Keeps (raises form) p) :
    I.Clean (Grammar.node true form p) := fun s => I.traced form (hp s)

/-- **What holds at the leaves holds of every watched grammar.** The forms may raise what
they do raise; but `consumed` need not, if grammars with such leaves leave suffixes. -/
theorem holds_watched {P : {α : Type} → (Text → Outcome α) → Prop}
    (hleaf : ∀ {α : Type} (f : Text → Outcome α), P f → I.Keeps (raises .ofFn) (.ofFn f))
    (hraises : ∀ form b, form ≠ .consumed → form.Raises b → raises form b)
    (hconsumed : raises .consumed .invalidRest ∨
      ∀ {α : Type} (g : Grammar α), g.Leaves P → g.watched.LeavesSuffix)
    (g : Grammar α) (hg : g.Leaves P) : I.Clean g.watched := by
  have hcut {α : Type} (g : Grammar α) (hg : g.Leaves P) :
      raises .consumed .invalidRest ∨ g.watched.LeavesSuffix := hconsumed.imp id fun h => h g hg
  have hmore {form : Form} (hform : form = .oneOrMore ∨ form = .zeroOrMore) :
      (∀ k, raises form (.noProgress k)) ∧ raises form .runaway := by
    rcases hform with rfl | rfl
    · exact ⟨fun k => hraises _ _ (by decide) trivial, hraises _ _ (by decide) trivial⟩
    · exact ⟨fun k => hraises _ _ (by decide) trivial, hraises _ _ (by decide) trivial⟩
  induction g with
  | symbol => exact .node _ I.keeps_symbol
  | char wanted => exact .node _ (I.keeps_symbolIf _ _)
  | literal wanted => exact .node _ (I.keeps_literal wanted)
  | satisfy test label => exact .node _ (I.keeps_symbolIf _ _)
  | oneOrMoreChars test label => exact .node _ (I.keeps_oneOrMoreChars test label)
  | zeroOrMoreChars test => exact .node _ (I.keeps_zeroOrMoreChars test)
  | pure a => exact .node _ (I.stay a)
  | fail message => exact .node _ fun _ => I.mismatch _
  | ofFn f => exact .node _ (hleaf f hg)
  | map f p ihp => exact .node _ ((ihp hg).keeps.map f)
  | ap pf pa ihf iha => exact .node _ ((ihf hg.1).keeps.ap (iha hg.2).keeps)
  | bind p f ihp ihf => exact .node _ ((ihp hg.1).keeps.bind fun a => (ihf a (hg.2 a)).keeps)
  | lift2 f p q ihp ihq => exact .node _ ((ihp hg.1).keeps.lift2 f (ihq hg.2).keeps)
  | lift3 f p q r ihp ihq ihr =>
    exact .node _ ((ihp hg.1).keeps.lift3 f (ihq hg.2.1).keeps (ihr hg.2.2).keeps)
  | lift4 f p q r t ihp ihq ihr iht =>
    exact .node _ ((ihp hg.1).keeps.lift4 f (ihq hg.2.1).keeps (ihr hg.2.2.1).keeps
      (iht hg.2.2.2).keeps)
  | lift5 f p q r t u ihp ihq ihr iht ihu =>
    exact .node _ ((ihp hg.1).keeps.lift5 f (ihq hg.2.1).keeps (ihr hg.2.2.1).keeps
      (iht hg.2.2.2.1).keeps (ihu hg.2.2.2.2).keeps)
  | fold p combine seed ihp => exact .node _ ((ihp hg).keeps.map _)
  | fold1 p combine ihp =>
    exact .node _ ((ihp hg).keeps.fold1 (hraises .fold1 _ (by decide) trivial) combine)
  | sequence ps ih =>
    refine .node _ (keeps_sequence fun p hp => ?_)
    obtain ⟨i, rfl⟩ := List.mem_ofFn.mp hp
    exact (ih i (hg i)).keeps
  | anyOf ps ih =>
    refine .node _ (keeps_anyOf fun p hp => ?_)
    obtain ⟨i, rfl⟩ := List.mem_ofFn.mp hp
    exact (ih i (hg i)).keeps
  | or p q ihp ihq => exact .node _ ((ihp hg.1).keeps.or (ihq hg.2).keeps)
  | optional p ihp => exact .node _ (ihp hg).keeps.optional
  | oneOrMore p ihp =>
    obtain ⟨hstill, haway⟩ := hmore (Or.inl rfl)
    exact .node _ ((ihp hg).keeps.oneOrMore hstill haway)
  | zeroOrMore p ihp =>
    obtain ⟨hstill, haway⟩ := hmore (Or.inr rfl)
    exact .node _ (((ihp hg).keeps.oneOrMore hstill haway).optional.map _)
  | consumed p ihp => exact .node _ ((ihp hg).keeps.consumed (hcut p hg))

end Invariant

end Descent
