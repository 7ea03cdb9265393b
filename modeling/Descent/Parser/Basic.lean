import Descent.Run
import Descent.Text.Cut

/-!
# Parsers and their algebra

A parser is a function from a text to a run. This module has the parsers that read
nothing (`pure`, `fail`), the ones that compute with what other parsers found (`map`,
`ap`, `bind`, `lift2` to `lift5`), the way to make a parser from any function of the
text (`ofFn`), tracing (`traced`), and the way to get at the text a parser took
(`consumed`).

Parsers that run one after the other hand the remainder on: the second starts where the
first stopped. The first failure ends the composition and is its failure, word for word.
-/

namespace Descent

/-- A parser: what it does on each text. -/
structure Parser (α : Type) where
  /-- The run of the parser on a text. -/
  run : Text → Run α

namespace Parser

variable {α β γ δ ε ζ : Type}

/-- Parsers with the same runs are equal. -/
@[ext] theorem ext {p q : Parser α} (h : ∀ s, p.run s = q.run s) : p = q := by
  cases p; cases q; congr; exact funext h

/-- The outcome of the parser on a text. -/
def parse (p : Parser α) (s : Text) : Outcome α := (p.run s).outcome

/-! ### Leaves -/

/-- The untraced parser with the given outcomes. -/
def ofFn (f : Text → Outcome α) : Parser α := ⟨fun s => .of (f s)⟩

/-- Succeeds with `a`, reading nothing. -/
protected def pure (a : α) : Parser α := ofFn fun s => .success ⟨a, s⟩

/-- Fails with the message, whatever the text. -/
def fail (message : String) : Parser α := ofFn fun _ => .failure (.labelled message)

@[simp] theorem run_ofFn (f : Text → Outcome α) (s : Text) : (ofFn f).run s = .of (f s) := rfl

@[simp] theorem run_pure (a : α) (s : Text) :
    (Parser.pure a).run s = .of (.success ⟨a, s⟩) := rfl

@[simp] theorem run_fail (message : String) (s : Text) :
    (fail message : Parser α).run s = .of (.failure (.labelled message)) := rfl

/-! ### Computing with values -/

/-- The parser with `f` applied to its value. -/
def map (f : α → β) (p : Parser α) : Parser β := ⟨fun s => (p.run s).map f⟩

/-- Parses a function, then an argument, and applies the one to the other. -/
def ap (pf : Parser (α → β)) (pa : Parser α) : Parser β :=
  ⟨fun s => (pf.run s).andThen fun f => (pa.run f.rest).map f.value⟩

/-- Parses with `p`, then with the parser that `f` makes of the value. -/
protected def bind (p : Parser α) (f : α → Parser β) : Parser β :=
  ⟨fun s => (p.run s).andThen fun a => (f a.value).run a.rest⟩

@[simp] theorem run_map (f : α → β) (p : Parser α) (s : Text) :
    (p.map f).run s = (p.run s).map f := rfl

@[simp] theorem run_ap (pf : Parser (α → β)) (pa : Parser α) (s : Text) :
    (pf.ap pa).run s = (pf.run s).andThen fun f => (pa.run f.rest).map f.value := rfl

@[simp] theorem run_bind (p : Parser α) (f : α → Parser β) (s : Text) :
    (p.bind f).run s = (p.run s).andThen fun a => (f a.value).run a.rest := rfl

instance : Monad Parser where
  pure := Parser.pure
  bind := Parser.bind
  map := Parser.map
  seq pf pa := pf.ap (pa ())

@[simp] theorem pure_def (a : α) : (pure a : Parser α) = Parser.pure a := rfl

@[simp] theorem bind_def (p : Parser α) (f : α → Parser β) : p >>= f = p.bind f := rfl

@[simp] theorem map_def (f : α → β) (p : Parser α) : f <$> p = p.map f := rfl

@[simp] theorem seq_def (pf : Parser (α → β)) (pa : Parser α) : pf <*> pa = pf.ap pa := rfl

/-! ### Functions of several values -/

/-- Parses two values in a row and combines them. -/
def lift2 (f : α → β → γ) (p : Parser α) (q : Parser β) : Parser γ :=
  ⟨fun s => (p.run s).andThen fun a => (q.run a.rest).map (f a.value)⟩

/-- Parses three values in a row and combines them. -/
def lift3 (f : α → β → γ → δ) (p : Parser α) (q : Parser β) (r : Parser γ) : Parser δ :=
  ⟨fun s => (p.run s).andThen fun a => (lift2 (f a.value) q r).run a.rest⟩

/-- Parses four values in a row and combines them. -/
def lift4 (f : α → β → γ → δ → ε) (p : Parser α) (q : Parser β) (r : Parser γ)
    (t : Parser δ) : Parser ε :=
  ⟨fun s => (p.run s).andThen fun a => (lift3 (f a.value) q r t).run a.rest⟩

/-- Parses five values in a row and combines them. -/
def lift5 (f : α → β → γ → δ → ε → ζ) (p : Parser α) (q : Parser β) (r : Parser γ)
    (t : Parser δ) (u : Parser ε) : Parser ζ :=
  ⟨fun s => (p.run s).andThen fun a => (lift4 (f a.value) q r t u).run a.rest⟩

@[simp] theorem run_lift2 (f : α → β → γ) (p : Parser α) (q : Parser β) (s : Text) :
    (lift2 f p q).run s = (p.run s).andThen fun a => (q.run a.rest).map (f a.value) := rfl

@[simp] theorem run_lift3 (f : α → β → γ → δ) (p : Parser α) (q : Parser β) (r : Parser γ)
    (s : Text) : (lift3 f p q r).run s =
      (p.run s).andThen fun a => (lift2 (f a.value) q r).run a.rest := rfl

@[simp] theorem run_lift4 (f : α → β → γ → δ → ε) (p : Parser α) (q : Parser β)
    (r : Parser γ) (t : Parser δ) (s : Text) : (lift4 f p q r t).run s =
      (p.run s).andThen fun a => (lift3 (f a.value) q r t).run a.rest := rfl

@[simp] theorem run_lift5 (f : α → β → γ → δ → ε → ζ) (p : Parser α) (q : Parser β)
    (r : Parser γ) (t : Parser δ) (u : Parser ε) (s : Text) : (lift5 f p q r t u).run s =
      (p.run s).andThen fun a => (lift4 (f a.value) q r t u).run a.rest := rfl

/-! ### Tracing -/

/-- The parser, writing to the log when it starts and when it ends. -/
def traced (label : String) (p : Parser α) : Parser α :=
  ⟨fun s =>
    let r := p.run s
    ⟨.enter label s :: (r.log ++ [.leave label r.outcome.breach?]), r.outcome⟩⟩

@[simp] theorem log_run_traced (label : String) (p : Parser α) (s : Text) :
    ((traced label p).run s).log =
      .enter label s :: ((p.run s).log ++ [.leave label (p.run s).outcome.breach?]) := rfl

@[simp] theorem outcome_run_traced (label : String) (p : Parser α) (s : Text) :
    ((traced label p).run s).outcome = (p.run s).outcome := rfl

/-! ### Consumed text

The text a parser took is the front part of its input that has as many bytes as the input
has more than the remainder (`Text.segment?`). When there is no such front part the
remainder cannot be a suffix of the input, and the parser is in breach. -/

/-- The value of the parser, and the text it took. -/
def consumed (p : Parser α) : Parser (α × Text) :=
  ⟨fun s => (p.run s).andThen fun a =>
    match s.segment? a.rest with
    | some text => .of (.success ⟨(a.value, text), a.rest⟩)
    | none => .of (.failure (.breach .invalidRest))⟩

theorem run_consumed (p : Parser α) (s : Text) :
    (consumed p).run s = (p.run s).andThen fun a =>
      match s.segment? a.rest with
      | some text => .of (.success ⟨(a.value, text), a.rest⟩)
      | none => .of (.failure (.breach .invalidRest)) := rfl

end Parser

end Descent
