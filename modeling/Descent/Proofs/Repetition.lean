import Descent.Parser.Chars
import Descent.Parser.Choice

/-!
# Repetition, step by step

A repetition of `p` goes from text to text as long as `p` succeeds and leaves another
size (`Proceeds`). On its way it does nothing but collect values and logs
(`rounds_of_proceeds`). As long as `p` shortens what is left it advances (`Advances`), and
every text advances to one where `p` does so no more (`Stalls`, `exists_advances`).

The ways of a single round, `rounds_of_lt` to `rounds_of_failure`, hold of any parser.
For a parser that leaves a suffix of its input (`LeavesSuffix`) a success that does not
shorten the text leaves all of it, and every step takes a character at least. That gives
the number of rounds and all the ends of a repetition.
-/

namespace Descent

namespace Parser

variable {α : Type} {p : Parser α} {n k : Nat} {s t : Text} {ts : List Text} {vs : List α}

/-! ### One round -/

/-- A success that shortens the text is kept, and the next round starts behind it. -/
theorem rounds_of_lt {a : Success α} (h : p.parse s = .success a) (hlt : a.rest.size < s.size) :
    rounds p n k s = ((rounds p n (k + 1) a.rest).map (a.value :: ·)).after (p.run s).log := by
  rw [rounds.eq_def p n k s]
  rw [parse] at h
  simp [h, hlt]

/-- A success that leaves as many bytes as it was given ends the repetition. -/
theorem rounds_of_eq {a : Success α} (h : p.parse s = .success a) (heq : a.rest.size = s.size) :
    rounds p n k s = ⟨(p.run s).log, .failure (.breach (.noProgress k))⟩ := by
  rw [rounds]
  rw [parse] at h
  simp [h, heq]

/-- A success that lengthens the text is kept as long as patience lasts. -/
theorem rounds_of_gt {a : Success α} (h : p.parse s = .success a) (hgt : s.size < a.rest.size) :
    rounds p (n + 1) k s =
      ((rounds p n (k + 1) a.rest).map (a.value :: ·)).after (p.run s).log := by
  rw [rounds.eq_def p (n + 1) k s]
  rw [parse] at h
  simp [h, Nat.lt_asymm hgt, Nat.ne_of_gt hgt]

/-- One that lengthens the text once more ends the repetition. -/
theorem rounds_of_gt_zero {a : Success α} (h : p.parse s = .success a)
    (hgt : s.size < a.rest.size) :
    rounds p 0 k s = ⟨(p.run s).log, .failure (.breach .runaway)⟩ := by
  rw [rounds]
  rw [parse] at h
  simp [h, Nat.lt_asymm hgt, Nat.ne_of_gt hgt]

/-- Behind a success the repetition is in breach, or it goes on, with the value in front of
what it finds then. -/
theorem rounds_of_success {a : Success α} (h : p.parse s = .success a) :
    (∃ b, rounds p n k s = ⟨(p.run s).log, .failure (.breach b)⟩) ∨
      ∃ m, rounds p n k s =
        ((rounds p m (k + 1) a.rest).map (a.value :: ·)).after (p.run s).log := by
  rcases Nat.lt_trichotomy a.rest.size s.size with hlt | heq | hgt
  · exact Or.inr ⟨n, rounds_of_lt h hlt⟩
  · exact Or.inl ⟨_, rounds_of_eq h heq⟩
  · cases n with
    | zero => exact Or.inl ⟨_, rounds_of_gt_zero h hgt⟩
    | succ n => exact Or.inr ⟨n, rounds_of_gt h hgt⟩

/-- A failure ends the repetition; a mismatch behind a success leaves what came before. -/
theorem rounds_of_failure {e : ParseError} (h : p.parse s = .failure e) :
    rounds p n k s =
      ⟨(p.run s).log, if e.isRecoverable && k != 0 then .success ⟨[], s⟩ else .failure e⟩ := by
  rw [rounds]
  rw [parse] at h
  simp [h]

/-! ### Many rounds -/

/-- `Proceeds p n s ts vs t`: `p` succeeds on each of `ts` with a remainder of another
size, the first being `s` and each other the remainder of the one before; the values are
`vs`, and `t` is the last remainder. Of the remainders `n` are longer than what was
parsed, the others shorter. -/
inductive Proceeds (p : Parser α) : Nat → Text → List Text → List α → Text → Prop where
  /-- Nothing was run. -/
  | refl (s : Text) : Proceeds p 0 s [] [] s
  /-- A success that shortens the text, and what comes behind it. -/
  | shorten {n : Nat} {s t : Text} {a : Success α} {ts : List Text} {vs : List α} :
      p.parse s = .success a → a.rest.size < s.size → Proceeds p n a.rest ts vs t →
      Proceeds p n s (s :: ts) (a.value :: vs) t
  /-- A success that lengthens the text, and what comes behind it. -/
  | lengthen {n : Nat} {s t : Text} {a : Success α} {ts : List Text} {vs : List α} :
      p.parse s = .success a → s.size < a.rest.size → Proceeds p n a.rest ts vs t →
      Proceeds p (n + 1) s (s :: ts) (a.value :: vs) t

/-- Proceeding, the repetition collects the values and the logs. -/
theorem rounds_of_proceeds {m : Nat} (h : Proceeds p m s ts vs t) :
    rounds p (n + m) k s = ((rounds p n (k + vs.length) t).map (vs ++ ·)).after
      (ts.flatMap fun u => (p.run u).log) := by
  induction h generalizing k with
  | refl s => simp [show ((fun x => x) : List α → List α) = id from rfl]
  | shorten ha hlt _ ih =>
    rw [rounds_of_lt ha hlt, ih]
    simp [Function.comp_def, Nat.add_assoc, Nat.add_comm 1]
  | lengthen ha hgt _ ih =>
    rw [← Nat.add_assoc, rounds_of_gt ha hgt, ih]
    simp [Function.comp_def, Nat.add_assoc, Nat.add_comm 1]

/-- `Advances p s ts vs t`: `p` succeeds with a shorter remainder on each of `ts`, the
first being `s` and each other the remainder of the one before; the values are `vs`, and
`t` is the last remainder. -/
inductive Advances (p : Parser α) : Text → List Text → List α → Text → Prop where
  /-- Nothing was run. -/
  | refl (s : Text) : Advances p s [] [] s
  /-- A success that shortens the text, and what comes behind it. -/
  | step {s t : Text} {a : Success α} {ts : List Text} {vs : List α} :
      p.parse s = .success a → a.rest.size < s.size → Advances p a.rest ts vs t →
      Advances p s (s :: ts) (a.value :: vs) t

/-- The parser does not succeed on `t` with a shorter remainder. -/
def Stalls (p : Parser α) (t : Text) : Prop :=
  ∀ a, p.parse t = .success a → t.size ≤ a.rest.size

/-- Every text advances to one where the parser stalls. -/
theorem exists_advances (p : Parser α) (s : Text) :
    ∃ ts vs t, Advances p s ts vs t ∧ p.Stalls t := by
  -- on the bytes left: each step has fewer of them
  induction hn : s.size using Nat.strongRecOn generalizing s with
  | _ n ih =>
    by_cases h : p.Stalls s
    · exact ⟨[], [], s, .refl s, h⟩
    · obtain ⟨a, ha, hlt⟩ : ∃ a, p.parse s = .success a ∧ a.rest.size < s.size := by
        simpa [Stalls] using h
      obtain ⟨ts, vs, t, hadv, hst⟩ := ih a.rest.size (hn ▸ hlt) a.rest rfl
      exact ⟨s :: ts, a.value :: vs, t, .step ha hlt hadv, hst⟩

theorem stalls_of_failure {e : ParseError} (h : p.parse t = .failure e) : p.Stalls t := by
  intro a ha
  rw [h] at ha
  cases ha

/-- The way of a repetition is the only one that ends where the parser stalls. -/
theorem Advances.unique {ts' : List Text} {vs' : List α} {t' : Text} (h : Advances p s ts vs t)
    (hst : p.Stalls t) (h' : Advances p s ts' vs' t') (hst' : p.Stalls t') :
    ts = ts' ∧ vs = vs' ∧ t = t' := by
  induction h generalizing ts' vs' with
  | refl s =>
    cases h' with
    | refl => exact ⟨rfl, rfl, rfl⟩
    | step ha hlt _ => exact absurd hlt (Nat.not_lt.mpr (hst _ ha))
  | step ha hlt _ ih =>
    cases h' with
    | refl => exact absurd hlt (Nat.not_lt.mpr (hst' _ ha))
    | step hb _ h' =>
      obtain rfl := Outcome.success.inj (ha.symm.trans hb)
      obtain ⟨rfl, rfl, rfl⟩ := ih hst h'
      exact ⟨rfl, rfl, rfl⟩

theorem Advances.length_eq (h : Advances p s ts vs t) : ts.length = vs.length := by
  induction h with
  | refl s => rfl
  | step _ _ _ ih => rw [List.length_cons, List.length_cons, ih]

/-- To advance is to proceed without lengthening the text. -/
theorem Advances.proceeds (h : Advances p s ts vs t) : Proceeds p 0 s ts vs t := by
  induction h with
  | refl s => exact .refl s
  | step ha hlt _ ih => exact .shorten ha hlt ih

theorem rounds_of_advances (h : Advances p s ts vs t) :
    rounds p n k s = ((rounds p n (k + vs.length) t).map (vs ++ ·)).after
      (ts.flatMap fun u => (p.run u).log) := rounds_of_proceeds h.proceeds

/-- Where the parser mismatches, a repetition that may take nothing ends well, with what
was collected on the way there. -/
theorem Advances.run_zeroOrMore (h : Advances p s ts vs t) {m : Option String}
    (hm : p.parse t = .failure (.mismatch m)) :
    (zeroOrMore p).run s = ⟨(ts ++ [t]).flatMap fun u => (p.run u).log, .success ⟨vs, t⟩⟩ := by
  rw [Parser.run_zeroOrMore, run_oneOrMore, rounds_of_advances h, rounds_of_failure hm]
  cases h with
  | refl => simp [Run.map, Run.after, Run.orElse]
  | step ha hlt hadv =>
    simp [Run.map, Run.after, Run.orElse, Success.map, ParseError.isRecoverable]

/-- So does a repetition that must take something, if something was collected. -/
theorem Advances.run_oneOrMore (h : Advances p s ts vs t) (hvs : vs ≠ []) {m : Option String}
    (hm : p.parse t = .failure (.mismatch m)) :
    (oneOrMore p).run s = ⟨(ts ++ [t]).flatMap fun u => (p.run u).log, .success ⟨vs, t⟩⟩ := by
  rw [Parser.run_oneOrMore, rounds_of_advances h, rounds_of_failure hm]
  simp [Run.map, Run.after, Success.map, ParseError.isRecoverable, hvs]

/-- A failure in the first round is that of the repetition. -/
theorem parse_oneOrMore_of_failure {e : ParseError} (h : p.parse s = .failure e) :
    (oneOrMore p).parse s = .failure e := by
  rw [parse, Parser.run_oneOrMore, rounds_of_failure h]
  simp

/-! ### Parsers that leave a suffix -/

/-- Wherever the parser succeeds, the remainder is a suffix of the input. -/
def LeavesSuffix (p : Parser α) : Prop := ∀ s a, p.parse s = .success a → ∃ u, s = u ++ a.rest

theorem LeavesSuffix.size_le (hp : p.LeavesSuffix) {a : Success α} (h : p.parse s = .success a) :
    a.rest.size ≤ s.size := by
  obtain ⟨u, hu⟩ := hp s a h
  rw [hu, Text.size_append]
  exact Nat.le_add_left _ _

/-- A success that takes nothing of the text leaves all of it. -/
theorem LeavesSuffix.rest_eq (hp : p.LeavesSuffix) {a : Success α} (h : p.parse s = .success a)
    (hle : s.size ≤ a.rest.size) : a.rest = s := by
  obtain ⟨u, hu⟩ := hp s a h
  have hsize : u.size = 0 := by
    have := congrArg Text.size hu
    rw [Text.size_append] at this
    omega
  rw [Text.size_eq_zero.mp hsize, Text.empty_append] at hu
  exact hu.symm

/-- A remainder with fewer bytes has fewer characters. -/
theorem LeavesSuffix.length_lt (hp : p.LeavesSuffix) {a : Success α} (h : p.parse s = .success a)
    (hlt : a.rest.size < s.size) : a.rest.length < s.length := by
  obtain ⟨u, rfl⟩ := hp s a h
  have hu : u ≠ ∅ := by
    rintro rfl
    rw [Text.empty_append] at hlt
    exact Nat.lt_irrefl _ hlt
  have : 0 < u.chars.length :=
    List.length_pos_iff.mpr fun hnil => hu (Text.chars_inj.mp hnil)
  rw [Text.length, Text.length, Text.chars_append, List.length_append]
  omega

/-- Every step takes a character at least. -/
theorem LeavesSuffix.length_advances (hp : p.LeavesSuffix) (h : Advances p s ts vs t) :
    ts.length + t.length ≤ s.length := by
  induction h with
  | refl s => simp
  | step ha hlt _ ih =>
    have := hp.length_lt ha hlt
    rw [List.length_cons]
    omega

/-- Where the parser stalls, the repetition is settled. -/
theorem LeavesSuffix.rounds_of_stalls (hp : p.LeavesSuffix) (h : p.Stalls t) :
    rounds p n k t = ⟨(p.run t).log,
      match p.parse t with
      | .success _ => .failure (.breach (.noProgress k))
      | .failure e => if e.isRecoverable && k != 0 then .success ⟨[], t⟩ else .failure e⟩ := by
  cases ho : p.parse t with
  | success a => exact rounds_of_eq ho (Nat.le_antisymm (hp.size_le ho) (h a ho))
  | failure e => exact rounds_of_failure ho

/-- The run of a repetition that advances over `ts` to a text `t` where it stalls. -/
theorem LeavesSuffix.run_oneOrMore (hp : p.LeavesSuffix) (hadv : Advances p s ts vs t)
    (hst : p.Stalls t) :
    (oneOrMore p).run s = ⟨(ts ++ [t]).flatMap fun u => (p.run u).log,
      match p.parse t with
      | .success _ => .failure (.breach (.noProgress vs.length))
      | .failure (.mismatch m) => if vs = [] then .failure (.mismatch m) else .success ⟨vs, t⟩
      | .failure (.breach b) => .failure (.breach b)⟩ := by
  rw [Parser.run_oneOrMore, rounds_of_advances hadv, hp.rounds_of_stalls hst]
  -- on the outcome where it stalls, and on whether there was a success before
  rcases p.parse t with a | ⟨m | b⟩ <;> cases vs <;>
    simp [Run.map, Run.after, Success.map, ParseError.isRecoverable]

/-- The same for a repetition that may take nothing. -/
theorem LeavesSuffix.run_zeroOrMore (hp : p.LeavesSuffix) (hadv : Advances p s ts vs t)
    (hst : p.Stalls t) :
    (zeroOrMore p).run s = ⟨(ts ++ [t]).flatMap fun u => (p.run u).log,
      match p.parse t with
      | .success _ => .failure (.breach (.noProgress vs.length))
      | .failure (.mismatch _) => if vs = [] then .success ⟨[], s⟩ else .success ⟨vs, t⟩
      | .failure (.breach b) => .failure (.breach b)⟩ := by
  rw [Parser.run_zeroOrMore, hp.run_oneOrMore hadv hst]
  rcases p.parse t with a | ⟨m | b⟩ <;> cases vs <;> simp [Run.orElse, Run.after]

/-- A repetition succeeds with what it collected on its way to a text where the parser
mismatches. -/
theorem LeavesSuffix.parse_oneOrMore_eq_success (hp : p.LeavesSuffix) :
    (oneOrMore p).parse s = .success ⟨vs, t⟩ ↔
      vs ≠ [] ∧ (∃ ts, Advances p s ts vs t) ∧ ∃ m, p.parse t = .failure (.mismatch m) := by
  constructor
  · intro h
    obtain ⟨ts, vs', t', hadv, hst⟩ := exists_advances p s
    rw [parse, hp.run_oneOrMore hadv hst] at h
    rcases ho : p.parse t' with a | ⟨m | b⟩ <;> simp only [ho] at h
    · cases h
    · split at h
      · cases h
      · next hvs =>
        cases h
        exact ⟨hvs, ⟨ts, hadv⟩, m, ho⟩
    · cases h
  · rintro ⟨hvs, ⟨ts, hadv⟩, m, hm⟩
    rw [parse, hadv.run_oneOrMore hvs hm]

/-! ### Tracing

It changes neither what a parser leaves nor how far it advances. -/

theorem LeavesSuffix.traced (hp : p.LeavesSuffix) (label : String) :
    (Parser.traced label p).LeavesSuffix := hp

theorem Stalls.traced (h : p.Stalls t) (label : String) : (Parser.traced label p).Stalls t := h

theorem Advances.traced (h : Advances p s ts vs t) (label : String) :
    Advances (Parser.traced label p) s ts vs t := by
  induction h with
  | refl s => exact .refl s
  | step ha hlt _ ih => exact .step ha hlt ih

/-! ### Repetitions -/

/-- **A repetition, exactly**: from `s` the parser advances over `ts` to a text `t` where
it stalls, and that takes no more than one invocation a character and one. The outcome of
the repetition is settled by the values `vs` collected and by the outcome on `t`. The
parser is invoked on `ts` and on `t`, in this order, and on nothing else. -/
theorem run_repetition_of_leavesSuffix (hp : p.LeavesSuffix) (s : Text) :
    ∃ ts vs t, Advances p s ts vs t ∧ p.Stalls t ∧ ts.length = vs.length ∧
      (ts ++ [t]).length ≤ s.length + 1 ∧
      ((oneOrMore p).parse s =
        match p.parse t with
        | .success _ => .failure (.breach (.noProgress vs.length))
        | .failure (.mismatch m) =>
          if vs = [] then .failure (.mismatch m) else .success ⟨vs, t⟩
        | .failure (.breach b) => .failure (.breach b)) ∧
      ((zeroOrMore p).parse s =
        match p.parse t with
        | .success _ => .failure (.breach (.noProgress vs.length))
        | .failure (.mismatch _) => if vs = [] then .success ⟨[], s⟩ else .success ⟨vs, t⟩
        | .failure (.breach b) => .failure (.breach b)) ∧
      ∀ label,
        ((oneOrMore (traced label p)).run s).log =
          ((ts ++ [t]).flatMap fun u => ((traced label p).run u).log) ∧
        ((zeroOrMore (traced label p)).run s).log =
          (ts ++ [t]).flatMap fun u => ((traced label p).run u).log := by
  obtain ⟨ts, vs, t, hadv, hst⟩ := exists_advances p s
  refine ⟨ts, vs, t, hadv, hst, hadv.length_eq, ?_, ?_, ?_, fun label => ⟨?_, ?_⟩⟩
  · have := hp.length_advances hadv
    rw [List.length_append, List.length_singleton]
    omega
  · rw [parse, hp.run_oneOrMore hadv hst]
  · rw [parse, hp.run_zeroOrMore hadv hst]
  · rw [(hp.traced label).run_oneOrMore (hadv.traced label) (hst.traced label)]
  · rw [(hp.traced label).run_zeroOrMore (hadv.traced label) (hst.traced label)]

theorem leavesSuffix_symbol : symbol.LeavesSuffix := by
  intro s a ha
  cases s with
  | empty => cases ha
  | cons c s =>
    rw [parse, run_symbol_cons] at ha
    cases ha
    exact ⟨.singleton c, Text.ext rfl⟩

/-- Any characters at all, of the text `é`: there is one, and the mismatch behind it ends
the repetition. -/
theorem run_repetition_symbol :
    symbol.LeavesSuffix ∧
    (oneOrMore symbol).parse (.singleton 'é') = .success ⟨['é'], ∅⟩ ∧
    Log.calls ((zeroOrMore (traced "symbol" symbol)).run (.singleton 'é')).log =
      [("symbol", .singleton 'é'), ("symbol", ∅)] := by
  obtain ⟨ts, vs, t, hadv, hst, -, -, hone, -, hlog⟩ :=
    run_repetition_of_leavesSuffix leavesSuffix_symbol (.singleton 'é')
  have hsymbol : symbol.parse (.singleton 'é') = .success ⟨'é', ∅⟩ := rfl
  cases hadv with
  | refl => exact absurd (hst _ hsymbol) (by decide)
  | step ha _ hadv =>
    cases hsymbol.symm.trans ha
    cases hadv with
    | refl =>
      rw [hone, (hlog "symbol").2]
      exact ⟨leavesSuffix_symbol, rfl, rfl⟩
    | step ha => cases ha

end Parser

end Descent
