import Descent.Arith.Formats
import Descent.Proofs.Factoring
import Descent.Proofs.Scan
import Descent.Proofs.Sequencing

/-!
# Records, written and parsed

A record is written as the number of its characters, in decimal with any number of zeros in
front, and the characters (`Record.text`). Where the text behind the digits does not go on with
a digit, exactly so many characters are taken, whatever they are and however many bytes they
have, and where there are not so many the failure is that of a character at the end of the text
(`parse_record_header`, `parse_characters_of_le`, `parse_characters_of_lt`). All this is said of
numbers up to `capacity`; what is done about a greater one is left open, and does not matter.

Records written one after the other are parsed back, as long as none of them is empty but the
last. The characters of an empty one do not keep its digits apart from those of the next: they
are zeros, and read as zeros in front of the next number. So an empty record in front of another
one is lost, and that is all that can be lost (`parse_records_written`).
-/

namespace Descent

namespace Arith

open Descent.Parser

variable {overflow : Parser String} {limit n : Nat} {label : String} {s w d tail : Text}

/-! ### Counted characters -/

/-- One more character is asked for, and there is one. -/
theorem parse_sequence_symbol_cons (n : Nat) (c : Char) (w : Text) :
    (Parser.sequence (List.replicate (n + 1) symbol)).parse (.cons c w) =
      ((Parser.sequence (List.replicate n symbol)).parse w).map (c :: ·) := by
  have hfirst : symbol.parse (.cons c w) = .success ⟨c, w⟩ := by
    rw [parse, run_symbol_cons, Run.outcome_of]
  rw [List.replicate_succ, parse, run_sequence_cons_of_success hfirst]
  rfl

theorem parse_sequence_symbol_of_le (h : n ≤ w.length) :
    (Parser.sequence (List.replicate n symbol)).parse w = .success ⟨w.chars.take n, w.drop n⟩ := by
  induction w generalizing n with
  | empty =>
    obtain rfl : n = 0 := Nat.le_zero.mp h
    rfl
  | cons c w ih =>
    cases n with
    | zero => rfl
    | succ n =>
      have hdrop : (Text.cons c w).drop (n + 1) = w.drop n := Text.ext rfl
      rw [parse_sequence_symbol_cons, ih (Nat.le_of_succ_le_succ h), hdrop]
      rfl

theorem parse_sequence_symbol_of_lt (h : w.length < n) {e : ParseError}
    (he : symbol.parse ∅ = .failure e) :
    (Parser.sequence (List.replicate n symbol)).parse w = .failure e := by
  induction w generalizing n with
  | empty =>
    obtain ⟨n, rfl⟩ := Nat.exists_eq_succ_of_ne_zero (Nat.ne_of_gt h)
    rw [List.replicate_succ, parse, run_sequence_cons_of_failure he]
  | cons c w ih =>
    obtain ⟨n, rfl⟩ := Nat.exists_eq_succ_of_ne_zero (Nat.ne_of_gt (Nat.zero_lt_of_lt h))
    rw [parse_sequence_symbol_cons, ih (Nat.lt_of_succ_lt_succ h), Outcome.map_failure]

/-- As many characters as are asked for are taken, if there are so many. -/
theorem parse_characters_of_le (hroom : n ≤ capacity) (h : n ≤ w.length) :
    (characters overflow n).parse w = .success ⟨(w.take n).toString, w.drop n⟩ := by
  rw [characters, if_pos hroom, parse_map, parse_sequence_symbol_of_le h]
  rfl

/-- If there are fewer, one is missing at the end of the text. -/
theorem parse_characters_of_lt (hroom : n ≤ capacity) (h : w.length < n) {e : ParseError}
    (he : symbol.parse ∅ = .failure e) : (characters overflow n).parse w = .failure e := by
  rw [characters, if_pos hroom, parse_map, parse_sequence_symbol_of_lt h he, Outcome.map_failure]

theorem parse_characters_append (hroom : w.length ≤ capacity) (s : Text) :
    (characters overflow w.length).parse (w ++ s) = .success ⟨w.toString, s⟩ := by
  have htake : (w ++ s).take w.length = w := Text.ext List.take_left
  have hdrop : (w ++ s).drop w.length = s := Text.ext List.drop_left
  have hle : w.length ≤ (w ++ s).length := by
    rw [Text.length, Text.length, Text.chars_append, List.length_append]
    omega
  rw [parse_characters_of_le hroom hle, htake, hdrop]

/-! ### The count in front -/

/-- A number in decimal, with zeros in front of it. -/
def header (zeros n : Nat) : Text := .ofList (List.replicate zeros '0') ++ .ofString (toString n)

theorem chars_header (zeros n : Nat) :
    (header zeros n).chars = List.replicate zeros '0' ++ Nat.toDigits 10 n := by
  have hdigits : toString n = String.ofList (Nat.toDigits 10 n) := Nat.toString_eq_ofList_toDigits
  rw [header, hdigits, Text.chars_append, Text.chars_ofList, Text.ofString, Text.chars_ofList,
    String.toList_ofList]

theorem header_ne_empty (zeros n : Nat) : header zeros n ≠ ∅ := by
  rw [← Text.chars_inj.ne, chars_header]
  exact List.append_ne_nil_of_right_ne_nil _ Nat.toDigits_ne_nil

theorem all_header (zeros n : Nat) : (header zeros n).All isDigit := by
  intro c hc
  rw [chars_header, List.mem_append] at hc
  rcases hc with hc | hc
  · rw [(List.mem_replicate.mp hc).2]
    rfl
  · exact Nat.isDigit_of_mem_toDigits (by decide) (by decide) hc

/-- Zeros in front of a number do not change it. -/
theorem ofDigitChars_header (zeros n : Nat) :
    Nat.ofDigitChars 10 (header zeros n).chars 0 = n := by
  rw [chars_header, Nat.ofDigitChars_append, Nat.ofDigitChars_replicate_zero, Nat.mul_zero,
    Nat.ofDigitChars_ten_toDigits]

/-- The number zero in front of another number is some zeros more. -/
theorem header_zero_append (i j n : Nat) : header i 0 ++ header j n = header (i + (j + 1)) n := by
  apply Text.ext
  have hzero : Nat.toDigits 10 0 = List.replicate 1 '0' := rfl
  rw [Text.chars_append, chars_header, chars_header, chars_header, hzero, List.append_assoc,
    ← List.append_assoc (List.replicate 1 '0'), List.replicate_append_replicate,
    ← List.append_assoc, List.replicate_append_replicate, Nat.add_comm 1]

/-! ### One record -/

/-- Behind digits that end where they end, a record is what they count. -/
theorem parse_record_digits (hne : d ≠ ∅) (hall : d.All isDigit) (hw : w.Stops isDigit) :
    (record overflow limit label).parse (d ++ w) = (counted overflow limit d).parse w :=
  parse_bind_of_success (parse_oneOrMoreChars_eq_success.mpr ⟨hne, hall, hw, rfl⟩) _

theorem parse_record_header (zeros : Nat) (hn : n ≤ limit) (hw : w.Stops isDigit) :
    (record overflow limit label).parse (header zeros n ++ w) =
      (characters overflow n).parse w := by
  rw [parse_record_digits (header_ne_empty zeros n) (all_header zeros n) hw, counted,
    ofDigitChars_header, if_pos hn]

theorem parse_record_of_limit_lt (zeros : Nat) (hn : limit < n) (hw : w.Stops isDigit) :
    (record overflow limit label).parse (header zeros n ++ w) =
      .failure (.labelled "count too large") := by
  rw [parse_record_digits (header_ne_empty zeros n) (all_header zeros n) hw, counted,
    ofDigitChars_header, if_neg (Nat.not_le.mpr hn)]
  rfl

/-! ### Records in a row -/

/-- A record as it is written: how many zeros stand in front of its count, and its characters,
the first of which is no digit, and which there can be a list of. -/
structure Record where
  /-- How many zeros stand in front. -/
  zeros : Nat
  /-- The characters. -/
  body : Text
  /-- The count ends where the characters begin. -/
  body_stops : body.Stops isDigit
  /-- There can be a list of the characters. -/
  body_room : body.length ≤ capacity

namespace Record

/-- The record as it is written. -/
def text (r : Record) : Text := header r.zeros r.body.length ++ r.body

/-- A record without characters is some zeros, and stands for zeros in front of the next. -/
def withZeros (r next : Record) : Record := { next with zeros := r.zeros + (next.zeros + 1) }

theorem text_append_of_empty {r : Record} (h : r.body = ∅) (next : Record) :
    r.text ++ next.text = (r.withZeros next).text := by
  have hlength : r.body.length = 0 := congrArg Text.length h
  rw [text, text, text, withZeros, hlength, h, Text.append_empty, ← Text.append_assoc,
    header_zero_append]

/-- The count ends in front of a record's characters, or of what follows if there are none. -/
theorem stops_body_append (r : Record) (hs : r.body = ∅ → s.Stops isDigit) :
    (r.body ++ s).Stops isDigit := by
  have hstop := r.body_stops
  cases hbody : r.body with
  | empty =>
    rw [Text.empty_append]
    exact hs hbody
  | cons c w =>
    rw [hbody, Text.stops_cons] at hstop
    rwa [Text.cons_append, Text.stops_cons]

/-- Where it ends, a record is parsed back from the front of a text. -/
theorem parse_text_append (r : Record) (hlimit : r.body.length ≤ limit)
    (hs : (r.body ++ s).Stops isDigit) :
    (record overflow limit label).parse (r.text ++ s) = .success ⟨r.body.toString, s⟩ := by
  rw [text, Text.append_assoc, parse_record_header r.zeros hlimit hs,
    parse_characters_append r.body_room]

theorem size_lt (r : Record) (s : Text) : s.size < (r.text ++ s).size := by
  have : (header r.zeros r.body.length).size ≠ 0 := fun h =>
    header_ne_empty _ _ (Text.size_eq_zero.mp h)
  rw [text, Text.size_append, Text.size_append]
  omega

end Record

/-- Records, one after the other. -/
def recordsText : List Record → Text
  | [] => ∅
  | r :: rs => r.text ++ recordsText rs

/-- What is found of records: their characters, but for the empty ones in front of others. -/
def kept : List Record → List String
  | [] => []
  | [r] => [r.body.toString]
  | r :: next :: rs =>
    if r.body = ∅ then kept (next :: rs) else r.body.toString :: kept (next :: rs)

theorem kept_withZeros (r next : Record) (rs : List Record) :
    kept (r.withZeros next :: rs) = kept (next :: rs) := by
  cases rs with
  | nil => rfl
  | cons after rs => rfl

theorem kept_ne_nil (r : Record) (rs : List Record) : kept (r :: rs) ≠ [] := by
  induction rs generalizing r with
  | nil => exact List.cons_ne_nil _ _
  | cons next rs ih =>
    rw [kept]
    split
    · exact ih next
    · exact List.cons_ne_nil _ _

/-- Where no record is empty but the last, all are found. -/
theorem kept_eq_map {rs : List Record} (h : ∀ r ∈ rs.dropLast, r.body ≠ ∅) :
    kept rs = rs.map fun r => r.body.toString := by
  induction rs with
  | nil => rfl
  | cons r rs ih =>
    cases rs with
    | nil => rfl
    | cons next rs =>
      rw [List.dropLast_cons_cons, List.forall_mem_cons] at h
      rw [kept, if_neg h.1, ih h.2]
      rfl

/-- The repetition advances over records, and finds what is kept of them. -/
theorem advances_record (r : Record) (rs : List Record)
    (hlimit : ∀ q ∈ r :: rs, q.body.length ≤ limit) (htail : tail.Stops isDigit)
    (label : String) :
    ∃ ts, Advances (record overflow limit label) (recordsText (r :: rs) ++ tail) ts (kept (r :: rs))
      tail := by
  -- on the records behind the first one, in front of which there may be more and more zeros
  induction rs generalizing r with
  | nil =>
    have hparse : (record overflow limit label).parse (r.text ++ tail) =
        .success ⟨r.body.toString, tail⟩ :=
      r.parse_text_append (hlimit r (List.mem_cons_self ..)) (r.stops_body_append fun _ => htail)
    rw [recordsText, recordsText, Text.append_empty]
    exact ⟨_, .step hparse (r.size_lt tail) (.refl tail)⟩
  | cons next rs ih =>
    obtain ⟨hr, hrs⟩ := List.forall_mem_cons.mp hlimit
    by_cases hempty : r.body = ∅
    · have htext : recordsText (r :: next :: rs) = recordsText (r.withZeros next :: rs) := by
        rw [recordsText, recordsText, recordsText, ← Text.append_assoc,
          Record.text_append_of_empty hempty]
      rw [htext, kept, if_pos hempty, ← kept_withZeros r]
      exact ih _ (List.forall_mem_cons.mpr (List.forall_mem_cons.mp hrs))
    · have hparse : (record overflow limit label).parse
          (r.text ++ (recordsText (next :: rs) ++ tail)) =
            .success ⟨r.body.toString, recordsText (next :: rs) ++ tail⟩ :=
        r.parse_text_append hr (r.stops_body_append fun h => absurd h hempty)
      obtain ⟨ts, hadv⟩ := ih next hrs
      rw [recordsText, Text.append_assoc, kept, if_neg hempty]
      exact ⟨_, .step hparse (r.size_lt _) hadv⟩

/-- A text that does not begin with a digit is no record. -/
theorem parse_record_of_stops (htail : tail.Stops isDigit) :
    (record overflow limit label).parse tail = .failure (.labelled s!"{label}: {tail}") :=
  parse_bind_of_failure (parse_oneOrMoreChars_eq_failure.mpr ⟨htail, rfl⟩) _

theorem parse_oneOrMore_record (r : Record) (rs : List Record)
    (hlimit : ∀ q ∈ r :: rs, q.body.length ≤ limit) (htail : tail.Stops isDigit) :
    (oneOrMore (record overflow limit label)).parse (recordsText (r :: rs) ++ tail) =
      .success ⟨kept (r :: rs), tail⟩ := by
  obtain ⟨ts, hadv⟩ := advances_record r rs hlimit htail label
  rw [parse, hadv.run_oneOrMore (kept_ne_nil r rs) (parse_record_of_stops htail)]

theorem parse_zeroOrMore_record {rs : List Record} (hlimit : ∀ r ∈ rs, r.body.length ≤ limit)
    (htail : tail.Stops isDigit) :
    (zeroOrMore (record overflow limit label)).parse (recordsText rs ++ tail) =
      .success ⟨kept rs, tail⟩ := by
  obtain ⟨ts, hadv⟩ : ∃ ts, Advances (record overflow limit label) (recordsText rs ++ tail) ts
      (kept rs) tail := by
    cases rs with
    | nil =>
      rw [recordsText, Text.empty_append]
      exact ⟨[], .refl tail⟩
    | cons r rs => exact advances_record r rs hlimit htail label
  rw [parse, hadv.run_zeroOrMore (parse_record_of_stops htail)]

/-- **Records are parsed back.** Let a number be written in decimal, with any number of zeros in
front, and behind it a text `w` that does not begin with a digit. If the number is accepted, and
there can be a list of so many characters, a record is parsed from that exactly if `w` has so many
characters, which are found, and what follows them is left; if it has fewer, the failure is that
of a character at the end of the text. If the number is not accepted the failure says so. Nothing
is said of a number that is accepted although there is no room for so many characters.

Therefore records written one after the other are parsed back in order, in front of a text that
does not begin with a digit. But this is not so of an empty record in front of another one: it
is not found. If there are none of these, all records are found. -/
theorem parse_records_written (overflow : Parser String) (limit : Nat) (label : String) :
    (∀ zeros n w, Text.Stops isDigit w →
      (n ≤ limit → n ≤ capacity → n ≤ w.length →
        (record overflow limit label).parse (header zeros n ++ w) =
          .success ⟨(w.take n).toString, w.drop n⟩) ∧
      (n ≤ limit → n ≤ capacity → w.length < n → ∃ e, symbol.parse ∅ = .failure e ∧
        (record overflow limit label).parse (header zeros n ++ w) = .failure e) ∧
      (limit < n → (record overflow limit label).parse (header zeros n ++ w) =
        .failure (.labelled "count too large"))) ∧
    ∀ (rs : List Record) tail, (∀ r ∈ rs, r.body.length ≤ limit) → Text.Stops isDigit tail →
      (zeroOrMore (record overflow limit label)).parse (recordsText rs ++ tail) =
        .success ⟨kept rs, tail⟩ ∧
      (rs ≠ [] → (oneOrMore (record overflow limit label)).parse (recordsText rs ++ tail) =
        .success ⟨kept rs, tail⟩) ∧
      ((∀ r ∈ rs.dropLast, r.body ≠ ∅) → kept rs = rs.map fun r => r.body.toString) := by
  refine ⟨fun zeros n w hw => ⟨fun hn hroom hle => ?_, fun hn hroom hlt => ?_, fun hn => ?_⟩,
    fun rs tail hlimit htail => ⟨parse_zeroOrMore_record hlimit htail, fun hrs => ?_,
      kept_eq_map⟩⟩
  · rw [parse_record_header zeros hn hw, parse_characters_of_le hroom hle]
  · rw [parse_record_header zeros hn hw]
    exact ⟨_, rfl, parse_characters_of_lt hroom hlt rfl⟩
  · exact parse_record_of_limit_lt zeros hn hw
  · obtain ⟨r, rs, rfl⟩ := List.exists_cons_of_ne_nil hrs
    exact parse_oneOrMore_record r rs hlimit htail

/-- Where every number of 64 bits is accepted: a record of three characters, and one that has too
few; and three records, the count of the second one with zeros in front, in front of a bracket.
Where no number above `10000` is: one that is too large. -/
theorem parse_records_brackets :
    (record (fail "capacity overflow") 0xFFFFFFFFFFFFFFFF "expected a count").parse
      (.ofString "3abçd") = .success ⟨"abç", .ofString "d"⟩ ∧
    (∃ e, symbol.parse ∅ = .failure e ∧
      (record (fail "capacity overflow") 0xFFFFFFFFFFFFFFFF "expected a count").parse
        (.ofString "5ab") = .failure e) ∧
    (oneOrMore (record (fail "capacity overflow") 0xFFFFFFFFFFFFFFFF "expected a count")).parse
      (.ofString "3abç002 10]") = .success ⟨["abç", " 1", ""], .ofString "]"⟩ ∧
    (record (fail "capacity overflow") 10000 "expected a count").parse (.ofString "10001a") =
      .failure (.labelled "count too large") := by
  obtain ⟨hone, hmany⟩ :=
    parse_records_written (fail "capacity overflow") 0xFFFFFFFFFFFFFFFF "expected a count"
  obtain ⟨hbound, -⟩ :=
    parse_records_written (fail "capacity overflow") 10000 "expected a count"
  obtain ⟨hfound, -, -⟩ := hone 0 3 (.ofString "abçd") (by decide)
  obtain ⟨-, hmissing, -⟩ := hone 0 5 (.ofString "ab") (by decide)
  obtain ⟨-, -, hlarge⟩ := hbound 0 10001 (.ofString "a") (by decide)
  let rs : List Record := [⟨0, .ofString "abç", by decide, by decide⟩,
    ⟨2, .ofString " 1", by decide, by decide⟩, ⟨0, ∅, by decide, by decide⟩]
  obtain ⟨-, hrs, hkept⟩ := hmany rs (.ofString "]") (by decide) (by decide)
  have hrs := hrs (List.cons_ne_nil _ _)
  rw [hkept (by decide)] at hrs
  exact ⟨hfound (by decide) (by decide) (by decide), hmissing (by decide) (by decide) (by decide),
    hrs, hlarge (by decide)⟩

/-- The records of an empty text and of `a`, one behind the other: only the second is found. -/
theorem empty_record_lost :
    (∅ : Text).Stops isDigit ∧ (Text.singleton 'a').Stops isDigit ∧
    (header 0 0 ++ ∅) ++ (header 0 1 ++ .singleton 'a') = .ofString "01a" ∧
    (zeroOrMore (record (fail "capacity overflow") 10000 "expected a count")).parse
      (.ofString "01a") = .success ⟨["a"], ∅⟩ ∧
    (zeroOrMore (record (fail "capacity overflow") 10000 "expected a count")).parse
      (.ofString "01a") ≠ .success ⟨["", "a"], ∅⟩ := by
  let rs : List Record := [⟨0, ∅, by decide, by decide⟩, ⟨0, .singleton 'a', by decide, by decide⟩]
  have hparse : (zeroOrMore (record (fail "capacity overflow") 10000 "expected a count")).parse
      (recordsText rs ++ ∅) = .success ⟨["a"], ∅⟩ :=
    parse_zeroOrMore_record (by decide) Text.stops_empty
  have htext : recordsText rs ++ ∅ = .ofString "01a" := by decide
  rw [htext] at hparse
  refine ⟨Text.stops_empty, by decide, by decide, hparse, ?_⟩
  rw [hparse]
  decide

end Arith

end Descent
