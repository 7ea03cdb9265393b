import Descent.Arith.Expression
import Descent.Proofs.Similarity

/-!
# The wording of failures

What a mismatch says is for the reader of the message. No parser reads it: two parsers
that were put together in the same way, from parts that are similar but for the messages,
are similar but for the messages (`SameShape.similar`). In particular the labels and
messages of the leaves that take one can be replaced anywhere in a parser, and it goes on
to invoke the same parsers on the same texts, with the same success, the same breach or a
mismatch as before (`wording_irrelevant`).

A parser handed on by reference, or boxed, is the parser, so neither is a way of putting
parsers together.
-/

namespace Descent

/-- The view for which no message counts, and of a log nothing but the invocations. -/
def View.wordless : View where
  SameMessage _ _ := True
  SameLog l l' := Log.calls l = Log.calls l'
  message_refl _ := trivial
  log_nil := rfl
  log_append h h' := by rw [Log.calls_append, Log.calls_append, h, h']

namespace Parser

variable {α β γ δ ε ζ : Type}

/-! ### Putting parsers together -/

/-- `SameShape R p q`: the parsers `p` and `q` are put together in the same way, from
parts that `R` relates and parts they share. -/
inductive SameShape (R : {α : Type} → Parser α → Parser α → Prop) :
    {α : Type} → Parser α → Parser α → Prop where
  /-- The two are related parts. -/
  | part {α : Type} {p p' : Parser α} : R p p' → SameShape R p p'
  /-- The two share a part. -/
  | same {α : Type} (p : Parser α) : SameShape R p p
  | map {α β : Type} (f : α → β) {p p' : Parser α} :
      SameShape R p p' → SameShape R (p.map f) (p'.map f)
  | ap {α β : Type} {pf pf' : Parser (α → β)} {p p' : Parser α} :
      SameShape R pf pf' → SameShape R p p' → SameShape R (pf.ap p) (pf'.ap p')
  | bind {α β : Type} {p p' : Parser α} {f f' : α → Parser β} :
      SameShape R p p' → (∀ a, SameShape R (f a) (f' a)) → SameShape R (p.bind f) (p'.bind f')
  | lift2 {α β γ : Type} (f : α → β → γ) {p p' : Parser α} {q q' : Parser β} :
      SameShape R p p' → SameShape R q q' → SameShape R (.lift2 f p q) (.lift2 f p' q')
  | lift3 {α β γ δ : Type} (f : α → β → γ → δ) {p p' : Parser α} {q q' : Parser β}
      {r r' : Parser γ} :
      SameShape R p p' → SameShape R q q' → SameShape R r r' →
      SameShape R (.lift3 f p q r) (.lift3 f p' q' r')
  | lift4 {α β γ δ ε : Type} (f : α → β → γ → δ → ε) {p p' : Parser α} {q q' : Parser β}
      {r r' : Parser γ} {t t' : Parser δ} :
      SameShape R p p' → SameShape R q q' → SameShape R r r' → SameShape R t t' →
      SameShape R (.lift4 f p q r t) (.lift4 f p' q' r' t')
  | lift5 {α β γ δ ε ζ : Type} (f : α → β → γ → δ → ε → ζ) {p p' : Parser α}
      {q q' : Parser β} {r r' : Parser γ} {t t' : Parser δ} {u u' : Parser ε} :
      SameShape R p p' → SameShape R q q' → SameShape R r r' → SameShape R t t' →
      SameShape R u u' → SameShape R (.lift5 f p q r t u) (.lift5 f p' q' r' t' u')
  | fold {α β : Type} (combine : β → α → β) (seed : β) {p p' : Parser (List α)} :
      SameShape R p p' → SameShape R (p.fold combine seed) (p'.fold combine seed)
  | fold1 {α : Type} (combine : α → α → α) {p p' : Parser (List α)} :
      SameShape R p p' → SameShape R (p.fold1 combine) (p'.fold1 combine)
  | sequence {α : Type} {n : Nat} {ps ps' : Fin n → Parser α} :
      (∀ i, SameShape R (ps i) (ps' i)) →
      SameShape R (.sequence (List.ofFn ps)) (.sequence (List.ofFn ps'))
  | anyOf {α : Type} {n : Nat} {ps ps' : Fin n → Parser α} :
      (∀ i, SameShape R (ps i) (ps' i)) →
      SameShape R (.anyOf (List.ofFn ps)) (.anyOf (List.ofFn ps'))
  | or {α : Type} {p p' q q' : Parser α} :
      SameShape R p p' → SameShape R q q' → SameShape R (p.or q) (p'.or q')
  | optional {α : Type} {p p' : Parser α} :
      SameShape R p p' → SameShape R (.optional p) (.optional p')
  | oneOrMore {α : Type} {p p' : Parser α} :
      SameShape R p p' → SameShape R (.oneOrMore p) (.oneOrMore p')
  | zeroOrMore {α : Type} {p p' : Parser α} :
      SameShape R p p' → SameShape R (.zeroOrMore p) (.zeroOrMore p')
  | consumed {α : Type} {p p' : Parser α} :
      SameShape R p p' → SameShape R (.consumed p) (.consumed p')
  | trimmed {α : Type} {p p' : Parser α} :
      SameShape R p p' → SameShape R (Arith.trimmed p) (Arith.trimmed p')
  | traced {α : Type} (label : String) {p p' : Parser α} :
      SameShape R p p' → SameShape R (p.traced label) (p'.traced label)

/-- `Reworded p q`: the leaves `p` and `q` differ in their label or message at most. -/
inductive Reworded : {α : Type} → Parser α → Parser α → Prop where
  | satisfy (test : Char → Bool) (label label' : String) :
      Reworded (.satisfy test label) (.satisfy test label')
  | oneOrMoreChars (test : Char → Bool) (label label' : String) :
      Reworded (.oneOrMoreChars test label) (.oneOrMoreChars test label')
  | fail {α : Type} (message message' : String) :
      Reworded (.fail message : Parser α) (.fail message')

end Parser

namespace View

variable {α : Type} {p p' : Parser α}

theorem Alike.success_iff {v : View} {o o' : Outcome α} (h : v.Alike o o') (a : Success α) :
    o = .success a ↔ o' = .success a := by
  cases h with
  | success b => exact Iff.rfl
  | mismatch _ => simp
  | breach b => simp

theorem Alike.mismatch_iff {v : View} {o o' : Outcome α} (h : v.Alike o o') :
    (∃ m, o = .failure (.mismatch m)) ↔ ∃ m, o' = .failure (.mismatch m) := by
  cases h with
  | success b => exact Iff.rfl
  | mismatch _ => simp
  | breach b => exact Iff.rfl

theorem Alike.breach_iff {v : View} {o o' : Outcome α} (h : v.Alike o o') (b : Breach) :
    o = .failure (.breach b) ↔ o' = .failure (.breach b) := by
  cases h with
  | success b => exact Iff.rfl
  | mismatch _ => simp
  | breach b => exact Iff.rfl

theorem Similar.refl {v : View} (hlog : ∀ l, v.SameLog l l) (p : Parser α) : v.Similar p p := by
  intro s
  exact ⟨hlog _, .refl _⟩

theorem Similar.trimmed {v : View} (hp : v.Similar p p') :
    v.Similar (Arith.trimmed p) (Arith.trimmed p') := by
  have hspaces : v.Similar Arith.spaces Arith.spaces := of_outcome fun _ => .refl _
  exact hspaces.lift3 _ hp hspaces

/-- Where the invocations are the same they are the same when the parsers are traced. -/
theorem Similar.traced (hp : View.wordless.Similar p p') (label : String) :
    View.wordless.Similar (p.traced label) (p'.traced label) := by
  intro s
  have hcalls : Log.calls (p.run s).log = Log.calls (p'.run s).log := (hp s).log
  refine ⟨?_, (hp s).outcome⟩
  change Log.calls _ = Log.calls _
  rw [Parser.log_run_traced, Parser.log_run_traced]
  simp only [Log.calls, List.filterMap_cons, List.filterMap_append, List.filterMap_nil,
    Event.call?, List.append_nil] at hcalls ⊢
  rw [hcalls]

end View

namespace Parser

variable {α : Type} {p q : Parser α} {R : {α : Type} → Parser α → Parser α → Prop}

/-- Parsers put together in the same way from similar parts are similar. -/
theorem SameShape.similar
    (hpart : ∀ {α : Type} {p q : Parser α}, R p q → View.wordless.Similar p q)
    (h : SameShape R p q) : View.wordless.Similar p q := by
  induction h with
  | part h => exact hpart h
  | same p => exact .refl (fun _ => rfl) p
  | map f _ ihp => exact ihp.map f
  | ap _ _ ihf ihp => exact ihf.ap ihp
  | bind _ _ ihp ihf => exact ihp.bind ihf
  | lift2 f _ _ ihp ihq => exact ihp.lift2 f ihq
  | lift3 f _ _ _ ihp ihq ihr => exact ihp.lift3 f ihq ihr
  | lift4 f _ _ _ _ ihp ihq ihr iht => exact ihp.lift4 f ihq ihr iht
  | lift5 f _ _ _ _ _ ihp ihq ihr iht ihu => exact ihp.lift5 f ihq ihr iht ihu
  | fold combine seed _ ihp => exact ihp.fold combine seed
  | fold1 combine _ ihp => exact ihp.fold1 combine
  | sequence _ ih => exact .sequence (forall₂_ofFn ih)
  | anyOf _ ih => exact .anyOf (forall₂_ofFn ih)
  | or _ _ ihp ihq => exact ihp.or ihq
  | optional _ ihp => exact ihp.optional
  | oneOrMore _ ihp => exact ihp.oneOrMore
  | zeroOrMore _ ihp => exact ihp.zeroOrMore
  | consumed _ ihp => exact ihp.consumed
  | trimmed _ ihp => exact ihp.trimmed
  | traced label _ ihp => exact ihp.traced label

theorem Reworded.similar (h : Reworded p q) : View.wordless.Similar p q := by
  intro s
  cases h with
  | satisfy test label label' =>
    cases s with
    | empty => exact .of (.refl _)
    | cons c s =>
      rw [Parser.satisfy, Parser.satisfy, run_symbolIf_cons, run_symbolIf_cons]
      split
      · exact .of (.refl _)
      · exact .of (.mismatch trivial)
  | oneOrMoreChars test label label' =>
    rw [run_oneOrMoreChars, run_oneOrMoreChars]
    split
    · exact .of (.mismatch trivial)
    · exact .of (.refl _)
  | fail message message' => exact .of (.mismatch trivial)

/-- **Messages do not influence parsing.** Call two parsers similar when on every text
they invoke the same traced parsers on the same texts in the same order, and end in the
same success, in a mismatch each, or in the same breach. Then what is put together in the
same way from similar parsers is similar, whatever the combinators. And if a parser is
put together as another one, but for labels and messages of its leaves, then on every text
the invocations, the value and the remainder, the breach, and whether there is a mismatch,
are the same. -/
theorem wording_irrelevant :
    (∀ {α : Type} {p q : Parser α},
      SameShape View.wordless.Similar p q → View.wordless.Similar p q) ∧
    ∀ {α : Type} {p q : Parser α}, SameShape Reworded p q → ∀ s,
      Log.calls (p.run s).log = Log.calls (q.run s).log ∧
      (∀ a, p.parse s = .success a ↔ q.parse s = .success a) ∧
      ((∃ m, p.parse s = .failure (.mismatch m)) ↔
        ∃ m, q.parse s = .failure (.mismatch m)) ∧
      ∀ b, p.parse s = .failure (.breach b) ↔ q.parse s = .failure (.breach b) := by
  refine ⟨fun h => h.similar id, fun h s => ?_⟩
  obtain ⟨hlog, ho⟩ := h.similar Reworded.similar s
  exact ⟨hlog, ho.success_iff, ho.mismatch_iff, ho.breach_iff⟩

/-- A run of characters that is given no label is one that is given any, in other words. -/
example (test : Char → Bool) (label : String) :
    SameShape Reworded (unlabelledChars test) (oneOrMoreChars test label) :=
  .part (.oneOrMoreChars _ _ _)

/-- The parser of digits, with other words for a missing one. -/
example : SameShape Reworded Arith.digits
    ((oneOrMore ((satisfy Arith.isDigit "no digit").map String.singleton)).fold1 (· ++ ·)) :=
  .fold1 _ (.oneOrMore (.map _ (.part (.satisfy _ _ _))))

end Parser

end Descent
