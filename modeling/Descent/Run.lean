import Descent.Outcome

/-!
# Runs

A run is what there is to observe of a parser on an input: its outcome, and the log that
the traced parsers inside it kept. A traced parser writes an `Event.enter` with the text
it is given when it starts, and an `Event.leave` when it ends; untraced parsers write
nothing. Two runs are equal when neither the outcome nor the log tells them apart.

Runs are composed in two ways: `Run.andThen` goes on with the success of the first run,
`Run.orElse` goes on when the first run ended in a mismatch. Both put the logs one after
the other.
-/

namespace Descent

/-! ### Logs -/

/-- A line of a log. -/
inductive Event where
  /-- The parser traced as `label` starts on `input`. -/
  | enter (label : String) (input : Text)
  /-- The parser traced as `label` ends, in `breach?` if it ends in a breach. -/
  | leave (label : String) (breach? : Option Breach)
  deriving DecidableEq

/-- A log, first event first. -/
abbrev Log := List Event

/-- The invocation an event starts: the label and the input. -/
def Event.call? : Event → Option (String × Text)
  | enter label input => some (label, input)
  | leave _ _ => none

/-- The invocations in a log, in order. -/
def Log.calls (log : Log) : List (String × Text) := log.filterMap Event.call?

@[simp] theorem Log.calls_append (l m : Log) : Log.calls (l ++ m) = Log.calls l ++ Log.calls m :=
  List.filterMap_append

/-- The log `log`, kept last event first, with the events of `later` written to it. -/
def Log.write (log later : Log) : Log := later.reverseAux log

@[simp] theorem Log.write_eq (log later : Log) : Log.write log later = later.reverse ++ log :=
  List.reverseAux_eq

/-! ### Runs -/

/-- The run of a parser on an input. -/
structure Run (α : Type) where
  /-- What the traced parsers wrote. -/
  log : Log
  /-- How the parse ended. -/
  outcome : Outcome α
  deriving DecidableEq

namespace Run

variable {α β γ : Type}

@[ext] theorem ext {r r' : Run α} (log : r.log = r'.log) (outcome : r.outcome = r'.outcome) :
    r = r' := by
  cases r; cases r'; cases log; cases outcome; rfl

/-- The run with outcome `o` in which nothing is traced. -/
def of (o : Outcome α) : Run α := ⟨[], o⟩

/-- The run `r` behind the events of `log`. -/
def after (log : Log) (r : Run α) : Run α := ⟨log ++ r.log, r.outcome⟩

/-- The run with another value, if there is one. -/
def map (f : α → β) (r : Run α) : Run β := ⟨r.log, r.outcome.map f⟩

/-- Goes on with `k` from a success; a failure ends both. -/
def andThen (r : Run α) (k : Success α → Run β) : Run β :=
  match r.outcome with
  | .success s => (k s).after r.log
  | .failure e => ⟨r.log, .failure e⟩

/-- Goes on with `k` after a mismatch; a success or a breach ends both. -/
def orElse (r : Run α) (k : Unit → Run α) : Run α :=
  match r.outcome with
  | .failure (.mismatch _) => (k ()).after r.log
  | _ => r

/-! ### Logs in front -/

@[simp] theorem log_of (o : Outcome α) : (of o).log = [] := rfl

@[simp] theorem outcome_of (o : Outcome α) : (of o).outcome = o := rfl

@[simp] theorem log_after (l : Log) (r : Run α) : (r.after l).log = l ++ r.log := rfl

@[simp] theorem outcome_after (l : Log) (r : Run α) : (r.after l).outcome = r.outcome := rfl

@[simp] theorem after_nil (r : Run α) : r.after [] = r := rfl

@[simp] theorem after_after (l m : Log) (r : Run α) : (r.after m).after l = r.after (l ++ m) := by
  simp [after]

/-! ### Mapping -/

@[simp] theorem log_map (f : α → β) (r : Run α) : (r.map f).log = r.log := rfl

@[simp] theorem outcome_map (f : α → β) (r : Run α) : (r.map f).outcome = r.outcome.map f := rfl

@[simp] theorem map_of (f : α → β) (o : Outcome α) : (of o).map f = of (o.map f) := rfl

@[simp] theorem map_after (f : α → β) (l : Log) (r : Run α) :
    (r.after l).map f = (r.map f).after l := rfl

@[simp] theorem map_id (r : Run α) : r.map id = r := by simp [map]

@[simp] theorem map_map (g : β → γ) (f : α → β) (r : Run α) :
    (r.map f).map g = r.map (g ∘ f) := by simp [map]

/-! ### Going on after a success -/

@[simp] theorem success_andThen (s : Success α) (k : Success α → Run β) :
    (of (.success s)).andThen k = k s := rfl

@[simp] theorem failure_andThen (e : ParseError) (k : Success α → Run β) :
    (of (.failure e)).andThen k = of (.failure e) := rfl

@[simp] theorem after_andThen (l : Log) (r : Run α) (k : Success α → Run β) :
    (r.after l).andThen k = (r.andThen k).after l := by
  unfold andThen after
  cases r.outcome <;> simp

@[simp] theorem map_andThen (f : α → β) (r : Run α) (k : Success β → Run γ) :
    (r.map f).andThen k = r.andThen fun s => k (s.map f) := by
  unfold andThen map
  cases r.outcome <;> rfl

theorem andThen_map (f : β → γ) (r : Run α) (k : Success α → Run β) :
    (r.andThen k).map f = r.andThen fun s => (k s).map f := by
  unfold andThen
  cases r.outcome <;> rfl

theorem andThen_andThen (r : Run α) (k : Success α → Run β) (m : Success β → Run γ) :
    (r.andThen k).andThen m = r.andThen fun s => (k s).andThen m := by
  cases h : r.outcome with
  | success s => simp [andThen, h]; cases (k s).outcome <;> simp [after]
  | failure e => simp [andThen, h]

/-- Going on by succeeding with what was found changes nothing but the value. -/
theorem andThen_success (f : α → β) (r : Run α) :
    (r.andThen fun s => of (.success (s.map f))) = r.map f := by
  unfold andThen map
  cases r.outcome <;> simp [after]

/-! ### Going on after a mismatch -/

@[simp] theorem success_orElse (s : Success α) (k : Unit → Run α) :
    (of (.success s)).orElse k = of (.success s) := rfl

@[simp] theorem mismatch_orElse (m : Option String) (k : Unit → Run α) :
    (of (.failure (.mismatch m))).orElse k = k () := rfl

@[simp] theorem breach_orElse (b : Breach) (k : Unit → Run α) :
    (of (.failure (.breach b))).orElse k = of (.failure (.breach b)) := rfl

theorem orElse_orElse (r : Run α) (k m : Unit → Run α) :
    (r.orElse k).orElse m = r.orElse fun _ => (k ()).orElse m := by
  rcases h : r.outcome with s | e | b
  · simp [orElse, h]
  · simp [orElse, h]
    rcases (k ()).outcome with s | e | b <;> simp [after]
  · simp [orElse, h]

theorem orElse_map (f : α → β) (r : Run α) (k : Unit → Run α) :
    (r.orElse k).map f = (r.map f).orElse fun _ => (k ()).map f := by
  rcases h : r.outcome with s | e | b <;> simp [orElse, map, h, after]

/-! ### By outcome -/

theorem after_of (l : Log) (o : Outcome α) : (of o).after l = ⟨l, o⟩ := by
  rw [after, log_of, List.append_nil, outcome_of]

theorem andThen_of_success {r : Run α} {a : Success α} (h : r.outcome = .success a)
    (k : Success α → Run β) : r.andThen k = (k a).after r.log := by
  rw [andThen, h]

theorem andThen_of_failure {r : Run α} {e : ParseError} (h : r.outcome = .failure e)
    (k : Success α → Run β) : r.andThen k = ⟨r.log, .failure e⟩ := by
  rw [andThen, h]

/-- What goes on without a trace adds nothing to the log. -/
theorem log_andThen_of_forall {k : Success α → Run β} (hk : ∀ a, (k a).log = []) (r : Run α) :
    (r.andThen k).log = r.log := by
  cases h : r.outcome with
  | success a => rw [andThen_of_success h, log_after, hk, List.append_nil]
  | failure e => rw [andThen_of_failure h]

theorem orElse_of_success {r : Run α} {a : Success α} (h : r.outcome = .success a)
    (k : Unit → Run α) : r.orElse k = r := by
  rw [orElse, h]

theorem orElse_of_breach {r : Run α} {b : Breach} (h : r.outcome = .failure (.breach b))
    (k : Unit → Run α) : r.orElse k = r := by
  rw [orElse, h]

theorem orElse_of_mismatch {r : Run α} {m : Option String}
    (h : r.outcome = .failure (.mismatch m)) (k : Unit → Run α) :
    r.orElse k = (k ()).after r.log := by
  rw [orElse, h]

theorem orElse_of_not_mismatch {r : Run α} (h : ¬ ∃ m, r.outcome = .failure (.mismatch m))
    (k : Unit → Run α) : r.orElse k = r := by
  rcases ho : r.outcome with a | ⟨m | b⟩
  · exact orElse_of_success ho k
  · exact absurd ⟨m, ho⟩ h
  · exact orElse_of_breach ho k

/-- To go on from a choice with what never mismatches is to go on so from each side of it. -/
theorem orElse_andThen {k : Success α → Run β}
    (hk : ∀ a, ¬ ∃ e, (k a).outcome = .failure (.mismatch e)) (r : Run α) (m : Unit → Run α) :
    (r.orElse m).andThen k = (r.andThen k).orElse fun _ => (m ()).andThen k := by
  rcases ho : r.outcome with a | ⟨e | b⟩
  · have hr : (r.andThen k).outcome = (k a).outcome := by
      rw [andThen_of_success ho, outcome_after]
    have hnot : ¬ ∃ e, (r.andThen k).outcome = .failure (.mismatch e) := by
      rw [hr]
      exact hk a
    rw [orElse_of_success ho, orElse_of_not_mismatch hnot]
  · have hr : (r.andThen k).outcome = .failure (.mismatch e) := by rw [andThen_of_failure ho]
    rw [orElse_of_mismatch ho, orElse_of_mismatch hr, after_andThen, andThen_of_failure ho]
  · have hr : (r.andThen k).outcome = .failure (.breach b) := by rw [andThen_of_failure ho]
    rw [orElse_of_breach ho, orElse_of_breach hr]

/-- The outcome does not depend on what is logged after the mismatch. -/
theorem outcome_orElse_congr (r : Run α) {k k' : Unit → Run α}
    (h : (k ()).outcome = (k' ()).outcome) : (r.orElse k).outcome = (r.orElse k').outcome := by
  unfold orElse
  split
  · exact h
  · rfl

end Run

end Descent
