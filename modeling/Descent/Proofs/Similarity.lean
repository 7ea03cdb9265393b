import Descent.Proofs.Grammar
import Descent.Proofs.Repetition
import Mathlib.Data.List.Forall2

/-!
# Parsers that do alike

Two parsers are similar when on every text their runs have similar logs and similar
outcomes: the same success, the same breach, or a mismatch each. How much of a message
and of a log counts is the matter of a `View`. Whatever the view, every combinator makes
similar parsers of similar parsers: what it does next depends on values, remainders and
the kind of an error, and never on a message or a log.

The view that looks at outcomes alone shows that watching a grammar changes nothing
(`parse_watched`).
-/

namespace Descent

/-- What counts as the same when runs are compared. -/
structure View where
  /-- The messages that count as the same. -/
  SameMessage : Option String → Option String → Prop
  /-- The logs that count as the same. -/
  SameLog : Log → Log → Prop
  /-- A message counts as itself. -/
  message_refl (m : Option String) : SameMessage m m
  /-- Nothing counts as nothing. -/
  log_nil : SameLog [] []
  /-- Logs count as the same when their parts do. -/
  log_append {l l' m m' : Log} : SameLog l l' → SameLog m m' → SameLog (l ++ m) (l' ++ m')

namespace View

variable {v : View} {α β γ δ ε ζ : Type}

/-- Outcomes that count as the same. -/
inductive Alike (v : View) : Outcome α → Outcome α → Prop where
  /-- The same success. -/
  | success (a : Success α) : Alike v (.success a) (.success a)
  /-- Mismatches, with messages that count as the same. -/
  | mismatch {m m' : Option String} :
      v.SameMessage m m' → Alike v (.failure (.mismatch m)) (.failure (.mismatch m'))
  /-- The same breach. -/
  | breach (b : Breach) : Alike v (.failure (.breach b)) (.failure (.breach b))

/-- Runs that count as the same. -/
structure Runs (v : View) (r r' : Run α) : Prop where
  log : v.SameLog r.log r'.log
  outcome : v.Alike r.outcome r'.outcome

/-- Parsers whose runs count as the same. -/
def Similar (v : View) (p q : Parser α) : Prop := ∀ s, v.Runs (p.run s) (q.run s)

theorem Alike.refl : ∀ o : Outcome α, v.Alike o o
  | .success a => .success a
  | .failure (.mismatch m) => .mismatch (v.message_refl m)
  | .failure (.breach b) => .breach b

theorem Alike.map {o o' : Outcome α} (h : v.Alike o o') (f : α → β) :
    v.Alike (o.map f) (o'.map f) := by
  cases h with
  | success a => exact .success _
  | mismatch hm => exact .mismatch hm
  | breach b => exact .breach b

/-! ### Runs -/

namespace Runs

theorem of {o o' : Outcome α} (h : v.Alike o o') : v.Runs (.of o) (.of o') := ⟨v.log_nil, h⟩

theorem after {l l' : Log} {r r' : Run α} (hl : v.SameLog l l') (h : v.Runs r r') :
    v.Runs (r.after l) (r'.after l') := ⟨v.log_append hl h.log, h.outcome⟩

theorem map {r r' : Run α} (h : v.Runs r r') (f : α → β) : v.Runs (r.map f) (r'.map f) :=
  ⟨h.log, h.outcome.map f⟩

theorem andThen {r r' : Run α} {k k' : Success α → Run β} (h : v.Runs r r')
    (hk : ∀ a, v.Runs (k a) (k' a)) : v.Runs (r.andThen k) (r'.andThen k') := by
  obtain ⟨l, o⟩ := r
  obtain ⟨l', o'⟩ := r'
  obtain ⟨hl, ho⟩ := h
  cases ho with
  | success a => exact after hl (hk a)
  | mismatch hm => exact ⟨hl, .mismatch hm⟩
  | breach b => exact ⟨hl, .breach b⟩

theorem orElse {r r' : Run α} {k k' : Unit → Run α} (h : v.Runs r r')
    (hk : ∀ x, v.Runs (k x) (k' x)) : v.Runs (r.orElse k) (r'.orElse k') := by
  obtain ⟨l, o⟩ := r
  obtain ⟨l', o'⟩ := r'
  obtain ⟨hl, ho⟩ := h
  cases ho with
  | success a => exact ⟨hl, .success a⟩
  | mismatch hm => exact after hl (hk ())
  | breach b => exact ⟨hl, .breach b⟩

end Runs

/-- Where one run succeeds the other has the same success. -/
theorem Runs.parse_eq_success {p p' : Parser α} {s : Text} {a : Success α}
    (h : v.Runs (p.run s) (p'.run s)) (ha : (p.run s).outcome = .success a) :
    p'.parse s = .success a := by
  have ho := h.outcome
  rw [ha] at ho
  rw [Parser.parse]
  generalize (p'.run s).outcome = o' at ho
  cases ho
  rfl

/-! ### Parsers -/

namespace Similar

variable {p p' : Parser α} {q q' : Parser β} {r r' : Parser γ} {t t' : Parser δ}
  {u u' : Parser ε}

theorem of_outcome {f f' : Text → Outcome α} (h : ∀ s, v.Alike (f s) (f' s)) :
    v.Similar (.ofFn f) (.ofFn f') := fun s => .of (h s)

theorem map (hp : v.Similar p p') (f : α → β) : v.Similar (p.map f) (p'.map f) := by
  intro s
  exact (hp s).map f

theorem ap {pf pf' : Parser (α → β)} (hf : v.Similar pf pf') (hp : v.Similar p p') :
    v.Similar (pf.ap p) (pf'.ap p') := by
  intro s
  exact (hf s).andThen fun f => (hp f.rest).map f.value

theorem bind {f f' : α → Parser β} (hp : v.Similar p p') (hf : ∀ a, v.Similar (f a) (f' a)) :
    v.Similar (p.bind f) (p'.bind f') := by
  intro s
  exact (hp s).andThen fun a => hf a.value a.rest

theorem lift2 (f : α → β → γ) (hp : v.Similar p p') (hq : v.Similar q q') :
    v.Similar (.lift2 f p q) (.lift2 f p' q') := by
  intro s
  exact (hp s).andThen fun a => (hq a.rest).map (f a.value)

theorem lift3 (f : α → β → γ → δ) (hp : v.Similar p p') (hq : v.Similar q q')
    (hr : v.Similar r r') : v.Similar (.lift3 f p q r) (.lift3 f p' q' r') := by
  intro s
  exact (hp s).andThen fun a => hq.lift2 (f a.value) hr a.rest

theorem lift4 (f : α → β → γ → δ → ε) (hp : v.Similar p p') (hq : v.Similar q q')
    (hr : v.Similar r r') (ht : v.Similar t t') :
    v.Similar (.lift4 f p q r t) (.lift4 f p' q' r' t') := by
  intro s
  exact (hp s).andThen fun a => hq.lift3 (f a.value) hr ht a.rest

theorem lift5 (f : α → β → γ → δ → ε → ζ) (hp : v.Similar p p') (hq : v.Similar q q')
    (hr : v.Similar r r') (ht : v.Similar t t') (hu : v.Similar u u') :
    v.Similar (.lift5 f p q r t u) (.lift5 f p' q' r' t' u') := by
  intro s
  exact (hp s).andThen fun a => hq.lift4 (f a.value) hr ht hu a.rest

theorem fold {p p' : Parser (List α)} (hp : v.Similar p p') (combine : β → α → β) (seed : β) :
    v.Similar (p.fold combine seed) (p'.fold combine seed) := hp.map _

theorem fold1 {p p' : Parser (List α)} (hp : v.Similar p p') (combine : α → α → α) :
    v.Similar (p.fold1 combine) (p'.fold1 combine) :=
  hp.bind fun _ => of_outcome fun _ => .refl _

theorem consumed (hp : v.Similar p p') : v.Similar (.consumed p) (.consumed p') := by
  intro s
  rw [Parser.run_consumed, Parser.run_consumed]
  refine (hp s).andThen fun a => ?_
  split
  · exact .of (.refl _)
  · exact .of (.refl _)

theorem or {q q' : Parser α} (hp : v.Similar p p') (hq : v.Similar q q') :
    v.Similar (p.or q) (p'.or q') := by
  intro s
  exact (hp s).orElse fun _ => (hq s).orElse fun _ => .of (.refl _)

theorem optional (hp : v.Similar p p') : v.Similar (.optional p) (.optional p') := by
  intro s
  exact ((hp s).map some).orElse fun _ => .of (.refl _)

/-- Sequences of similar parsers are similar. -/
theorem sequence {ps ps' : List (Parser α)} (h : List.Forall₂ v.Similar ps ps') :
    v.Similar (.sequence ps) (.sequence ps') := by
  induction h with
  | nil => exact of_outcome fun _ => .refl _
  | cons hp _ ih =>
    rw [Parser.sequence_cons, Parser.sequence_cons]
    exact hp.lift2 _ ih

/-- Choices of similar parsers are similar. -/
theorem anyOf {ps ps' : List (Parser α)} (h : List.Forall₂ v.Similar ps ps') :
    v.Similar (.anyOf ps) (.anyOf ps') := by
  induction h with
  | nil => exact of_outcome fun _ => .refl _
  | cons hp _ ih => exact fun s => (hp s).orElse fun _ => ih s

/-- Two repetitions of similar parsers stay in step: they go through the same texts and
stop on the same one. -/
theorem rounds (hp : v.Similar p p') (n k : Nat) (s : Text) :
    v.Runs (Parser.rounds p n k s) (Parser.rounds p' n k s) := by
  fun_induction Parser.rounds p n k s with
  | case1 n k s a h hlt ih =>
    rw [Parser.rounds_of_lt ((hp s).parse_eq_success h) hlt]
    exact .after (hp s).log (ih.map _)
  | case2 n k s a h hlt heq =>
    rw [Parser.rounds_of_eq ((hp s).parse_eq_success h) heq]
    exact ⟨(hp s).log, .breach _⟩
  | case3 k s a h hlt hne =>
    rw [Parser.rounds_of_gt_zero ((hp s).parse_eq_success h) (by omega)]
    exact ⟨(hp s).log, .breach _⟩
  | case4 k s a h hlt hne n ih =>
    rw [Parser.rounds_of_gt ((hp s).parse_eq_success h) (by omega)]
    exact .after (hp s).log (ih.map _)
  | case5 n k s e h =>
    have ho := (hp s).outcome
    rw [h] at ho
    generalize ho' : (p'.run s).outcome = o' at ho
    cases ho with
    | mismatch hm =>
      rw [Parser.rounds_of_failure ho']
      cases k with
      | zero => exact ⟨(hp s).log, .mismatch hm⟩
      | succ k => exact ⟨(hp s).log, .success _⟩
    | breach b =>
      rw [Parser.rounds_of_failure ho']
      exact ⟨(hp s).log, .breach b⟩

theorem oneOrMore (hp : v.Similar p p') : v.Similar (.oneOrMore p) (.oneOrMore p') := by
  intro s
  rw [Parser.run_oneOrMore, Parser.run_oneOrMore]
  exact hp.rounds _ _ s

theorem zeroOrMore (hp : v.Similar p p') : v.Similar (.zeroOrMore p) (.zeroOrMore p') :=
  hp.oneOrMore.optional.map _

end Similar

end View

/-! ### Watching -/

/-- The view of outcomes: the logs do not count, and the messages do. -/
def View.ofOutcomes : View where
  SameMessage m m' := m = m'
  SameLog _ _ := True
  message_refl _ := rfl
  log_nil := trivial
  log_append _ _ := trivial

theorem View.Alike.eq {α : Type} {o o' : Outcome α} (h : View.ofOutcomes.Alike o o') : o = o' := by
  cases h with
  | success a => rfl
  | mismatch hm => rw [show _ = _ from hm]
  | breach b => rfl

/-- A node that is traced has the outcomes of one that is not. -/
theorem View.Similar.node {α : Type} {p p' : Parser α} (form : Form)
    (hp : View.ofOutcomes.Similar p p') :
    View.ofOutcomes.Similar (Grammar.node true form p) (Grammar.node false form p') := by
  intro s
  exact ⟨trivial, (hp s).outcome⟩

/-- Numbered parsers are compared number by number. -/
theorem forall₂_ofFn {α β : Type} {R : α → β → Prop} {n : Nat} {f : Fin n → α} {g : Fin n → β}
    (h : ∀ i, R (f i) (g i)) : List.Forall₂ R (List.ofFn f) (List.ofFn g) := by
  rw [List.forall₂_iff_get]
  refine ⟨by rw [List.length_ofFn, List.length_ofFn], fun i h₁ h₂ => ?_⟩
  rw [List.get_ofFn, List.get_ofFn]
  exact h _

namespace Grammar

theorem watched_similar {α : Type} (g : Grammar α) :
    View.ofOutcomes.Similar g.watched g.parser := by
  unfold watched parser
  induction g with
  | symbol => exact .node _ fun s => ⟨trivial, .refl _⟩
  | char => exact .node _ fun s => ⟨trivial, .refl _⟩
  | literal => exact .node _ fun s => ⟨trivial, .refl _⟩
  | satisfy => exact .node _ fun s => ⟨trivial, .refl _⟩
  | oneOrMoreChars => exact .node _ fun s => ⟨trivial, .refl _⟩
  | zeroOrMoreChars => exact .node _ fun s => ⟨trivial, .refl _⟩
  | pure => exact .node _ fun s => ⟨trivial, .refl _⟩
  | fail => exact .node _ fun s => ⟨trivial, .refl _⟩
  | ofFn => exact .node _ fun s => ⟨trivial, .refl _⟩
  | map f p ihp => exact .node _ (ihp.map f)
  | ap pf pa ihf iha => exact .node _ (ihf.ap iha)
  | bind p f ihp ihf => exact .node _ (ihp.bind ihf)
  | lift2 f p q ihp ihq => exact .node _ (ihp.lift2 f ihq)
  | lift3 f p q r ihp ihq ihr => exact .node _ (ihp.lift3 f ihq ihr)
  | lift4 f p q r t ihp ihq ihr iht => exact .node _ (ihp.lift4 f ihq ihr iht)
  | lift5 f p q r t u ihp ihq ihr iht ihu => exact .node _ (ihp.lift5 f ihq ihr iht ihu)
  | fold p combine seed ihp => exact .node _ (ihp.fold combine seed)
  | fold1 p combine ihp => exact .node _ (ihp.fold1 combine)
  | sequence ps ih => exact .node _ (.sequence (forall₂_ofFn ih))
  | anyOf ps ih => exact .node _ (.anyOf (forall₂_ofFn ih))
  | or p q ihp ihq => exact .node _ (ihp.or ihq)
  | optional p ihp => exact .node _ ihp.optional
  | oneOrMore p ihp => exact .node _ ihp.oneOrMore
  | zeroOrMore p ihp => exact .node _ ihp.zeroOrMore
  | consumed p ihp => exact .node _ ihp.consumed

/-- **Watching changes nothing**: the outcomes of the watched parser are the parser's. -/
theorem parse_watched {α : Type} (g : Grammar α) (s : Text) :
    g.watched.parse s = g.parser.parse s :=
  (g.watched_similar s).outcome.eq

end Grammar

end Descent
