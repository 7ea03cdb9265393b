import Descent.Parser.Basic

/-!
# Ordered choice and repetition

The parsers that absorb mismatches. Alternatives are tried in order, each on the input the
choice was given, and the first one that does not end in a mismatch decides: there is no
way back into an alternative that succeeded, and no way past one that breached its
contract. A choice that runs out of alternatives forgets their messages
(`ParseError.noneMatched`).

`oneOrMore p` runs `p` on its input, then on what that run left, and so on, until `p`
mismatches. Every success has to change the size of what is left: a remainder as long as
the input would come back for ever, and ends the repetition in `Breach.noProgress`.

A parser that leaves a suffix of its input shortens it with every success, so the
repetition ends after at most one success a character. A parser may also make up a
remainder longer than its input; that is progress too, and nothing in the text bounds how
often it can be made. The repetition is therefore given up, in `Breach.runaway`, when the
remainder has been lengthened `patience` times and is lengthened once more. Shortening
does not count.
-/

namespace Descent

namespace Parser

variable {α : Type}

/-! ### Choice -/

/-- The first of the alternatives that does not mismatch. -/
def anyOf : List (Parser α) → Parser α
  | [] => ofFn fun _ => .failure .noneMatched
  | p :: ps => ⟨fun s => (p.run s).orElse fun _ => (anyOf ps).run s⟩

/-- The first of two alternatives that does not mismatch. -/
def or (p q : Parser α) : Parser α :=
  ⟨fun s => (p.run s).orElse fun _ => (q.run s).orElse fun _ => .of (.failure .noneMatched)⟩

/-- The parser's value, or none and all of the input if the parser mismatches. -/
def optional (p : Parser α) : Parser (Option α) :=
  ⟨fun s => ((p.run s).map some).orElse fun _ => .of (.success ⟨none, s⟩)⟩

@[simp] theorem run_anyOf_nil (s : Text) :
    (anyOf [] : Parser α).run s = .of (.failure .noneMatched) := rfl

@[simp] theorem run_anyOf_cons (p : Parser α) (ps : List (Parser α)) (s : Text) :
    (anyOf (p :: ps)).run s = (p.run s).orElse fun _ => (anyOf ps).run s := rfl

@[simp] theorem run_or (p q : Parser α) (s : Text) :
    (p.or q).run s =
      (p.run s).orElse fun _ => (q.run s).orElse fun _ => .of (.failure .noneMatched) := rfl

@[simp] theorem run_optional (p : Parser α) (s : Text) :
    (optional p).run s =
      ((p.run s).map some).orElse fun _ => .of (.success ⟨none, s⟩) := rfl

/-! ### Repetition -/

/-- How often a repeated parser may lengthen what is left of the text: `2⁶⁴` times, more
often than any machine gets to. -/
def patience : Nat := 0x10000000000000000

/-- Runs `p` again and again; `log` and `values` are what it wrote and found so far, last
first, and `n` is how often it may still lengthen the text. -/
def oneOrMoreLoop (p : Parser α) (n : Nat) (log : Log) (values : List α) (s : Text) :
    Run (List α) :=
  let r := p.run s
  let log := Log.write log r.log
  match r.outcome with
  | .success a =>
    if a.rest.size < s.size then oneOrMoreLoop p n log (a.value :: values) a.rest
    else if a.rest.size = s.size then
      ⟨log.reverse, .failure (.breach (.noProgress values.length))⟩
    else match n with
      | 0 => ⟨log.reverse, .failure (.breach .runaway)⟩
      | n + 1 => oneOrMoreLoop p n log (a.value :: values) a.rest
  | .failure e =>
    ⟨log.reverse,
      if e.isRecoverable && !values.isEmpty then .success ⟨values.reverse, s⟩ else .failure e⟩
termination_by (n, s.size)

/-- Runs the parser until it mismatches, at least once successfully. -/
def oneOrMore (p : Parser α) : Parser (List α) := ⟨oneOrMoreLoop p patience [] []⟩

/-- Runs the parser until it mismatches, which it may do at once. -/
def zeroOrMore (p : Parser α) : Parser (List α) :=
  (optional (oneOrMore p)).map fun values => values.getD []

/-! ### Rounds

The loop said without what it has kept: `rounds p n k s` is what the repetition does on
`s` behind `k` successes. -/

/-- The rounds of a repetition on `s` behind `k` successes, the text being lengthened
`n` times at most. -/
def rounds (p : Parser α) (n k : Nat) (s : Text) : Run (List α) :=
  match (p.run s).outcome with
  | .success a =>
    if a.rest.size < s.size then
      ((rounds p n (k + 1) a.rest).map (a.value :: ·)).after (p.run s).log
    else if a.rest.size = s.size then
      ⟨(p.run s).log, .failure (.breach (.noProgress k))⟩
    else match n with
      | 0 => ⟨(p.run s).log, .failure (.breach .runaway)⟩
      | n + 1 => ((rounds p n (k + 1) a.rest).map (a.value :: ·)).after (p.run s).log
  | .failure e =>
    ⟨(p.run s).log, if e.isRecoverable && k != 0 then .success ⟨[], s⟩ else .failure e⟩
termination_by (n, s.size)

theorem oneOrMoreLoop_eq (p : Parser α) (n : Nat) (log : Log) (values : List α) (s : Text) :
    oneOrMoreLoop p n log values s =
      ((rounds p n values.length s).map (values.reverse ++ ·)).after log.reverse := by
  fun_induction oneOrMoreLoop p n log values s with
  | case1 n log values s r log' a h hlt ih =>
    rw [ih, rounds.eq_def p n values.length s]
    simp [r, log', h, hlt, Function.comp_def]
  | case2 n log values s r log' a h hlt heq =>
    rw [rounds]
    simp [r, log', h, heq, Run.map, Run.after]
  | case3 log values s r log' a h hlt hne =>
    rw [rounds]
    simp [r, log', h, hlt, hne, Run.map, Run.after]
  | case4 log values s r log' a h hlt hne n ih =>
    rw [ih, rounds.eq_def p (n + 1) values.length s]
    simp [r, log', h, hlt, hne, Function.comp_def]
  | case5 n log values s r log' e h =>
    rw [rounds]
    cases values <;> cases e <;>
      simp [r, log', h, Run.map, Run.after, Success.map, ParseError.isRecoverable]

theorem run_oneOrMore (p : Parser α) (s : Text) :
    (oneOrMore p).run s = rounds p patience 0 s := by
  simp only [oneOrMore, oneOrMoreLoop_eq]
  simp [show ((fun x => x) : List α → List α) = id from rfl]

/-- Where the first round mismatches, no round has taken place. -/
theorem run_zeroOrMore (p : Parser α) (s : Text) :
    (zeroOrMore p).run s =
      ((oneOrMore p).run s).orElse fun _ => .of (.success ⟨[], s⟩) := by
  simp [zeroOrMore, Run.orElse_map, Function.comp_def, Success.map,
    show ((fun values => values) : List α → List α) = id from rfl]

end Parser

end Descent
