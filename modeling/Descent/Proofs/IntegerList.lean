import Descent.Arith.Formats
import Descent.Proofs.Fault

/-!
# Lists of integers, written and parsed

A list of integers that is written in decimal, with any number of spaces around each of the
integers, is parsed back, whatever follows it that could not belong to it
(`parse_integerList_written`). The repetition behind the first integer advances over the
others (`advances_furtherItem`) and comes to an end where no further one stands. If it ends
at a comma it has taken the comma and found no number behind it; that attempt counts for
nothing, and the comma is still there for the option that looks for it.
-/

namespace Descent

namespace Arith

open Descent.Parser

variable {r tail : Text}

/-! ### Writing -/

/-- An integer of a list as it is written: the spaces in front of it and behind it are
counted. -/
structure Entry where
  /-- How many spaces stand in front of the integer. -/
  before : Nat
  /-- The integer. -/
  value : Int64
  /-- How many spaces stand behind the integer. -/
  behind : Nat

/-- The integer in decimal, between its spaces. -/
def Entry.text (e : Entry) : Text :=
  blank e.before ++ (.ofString (toString e.value) ++ blank e.behind)

/-- The entries, each behind a comma. -/
def furtherEntries : List Entry → Text
  | [] => ∅
  | e :: es => .cons ',' (e.text ++ furtherEntries es)

/-- The text `tail`, behind a comma or not. -/
def closing : Bool → Text → Text
  | true, tail => .cons ',' tail
  | false, tail => tail

/-- The entries with commas between them, and `tail` behind them; if `comma` says so there
is a comma behind the last entry, too. -/
def writtenList (e : Entry) (es : List Entry) (comma : Bool) (tail : Text) : Text :=
  e.text ++ (furtherEntries es ++ closing comma tail)

example : writtenList ⟨0, 1, 0⟩ [⟨1, -2, 1⟩, ⟨0, 3, 0⟩] true (.ofString "]") =
    .ofString "1, -2 ,3,]" := by decide

/-- Whether a list may go on with the character, or the integer or the spaces at its end. -/
def continuesList (c : Char) : Bool := isSpace c || isDigit c || isSign c || c == ','

/-! ### Parsing entries -/

/-- An entry is parsed back where it ends. -/
theorem parse_item_entry (e : Entry) (hspace : r.Stops isSpace) (hdigit : r.Stops isDigit) :
    item.parse (e.text ++ r) = .success ⟨e.value, r⟩ := by
  have hnumber : number.parse (.ofString (toString e.value) ++ (blank e.behind ++ r)) =
      .success ⟨e.value, r⟩ := by
    have h := parse_number_toString e.value Text.all_empty (all_blank e.behind) hspace
      (stops_spaces_append (all_blank e.behind) rfl hdigit)
    rwa [Text.empty_append] at h
  have hstops : (.ofString (toString e.value) ++ (blank e.behind ++ r) : Text).Stops isSpace := by
    rw [toString_eq_text]
    exact Numeral.stops_isSpace _ _
  refine parse_trimmed_eq_success.mpr ⟨blank e.before, _, ∅, all_blank e.before, hstops,
    Text.all_empty, hspace, ?_, ?_⟩
  · rw [Entry.text, Text.append_assoc, Text.append_assoc]
  · rw [Text.empty_append]
    exact hnumber

theorem parse_furtherItem_entry (e : Entry) (hspace : r.Stops isSpace) (hdigit : r.Stops isDigit) :
    furtherItem.parse (.cons ',' (e.text ++ r)) = .success ⟨e.value, r⟩ := by
  rw [parse, furtherItem, run_lift2, run_char_cons, Run.success_andThen, Run.outcome_map, ← parse,
    parse_item_entry e hspace hdigit]
  rfl

/-- A comma stops what a comma does not belong to, and where there is no further entry the
text behind does. -/
theorem stops_furtherEntries {q : Char → Bool} (es : List Entry) (hq : q ',' = false)
    (hr : r.Stops q) : (furtherEntries es ++ r).Stops q := by
  cases es with
  | nil =>
    rw [furtherEntries, Text.empty_append]
    exact hr
  | cons e es =>
    rw [furtherEntries, Text.cons_append, Text.stops_cons]
    exact hq

/-- The repetition of further items advances over the entries. -/
theorem advances_furtherItem (es : List Entry) (hspace : r.Stops isSpace)
    (hdigit : r.Stops isDigit) :
    ∃ ts, Advances furtherItem (furtherEntries es ++ r) ts (es.map Entry.value) r := by
  induction es with
  | nil =>
    refine ⟨[], ?_⟩
    rw [furtherEntries, Text.empty_append]
    exact .refl r
  | cons e es ih =>
    obtain ⟨ts, hadv⟩ := ih
    have htext : furtherEntries (e :: es) ++ r =
        .cons ',' (e.text ++ (furtherEntries es ++ r)) := by
      rw [furtherEntries, Text.cons_append, Text.append_assoc]
    have hparse := parse_furtherItem_entry e (stops_furtherEntries es rfl hspace)
      (stops_furtherEntries es rfl hdigit)
    have hlt : (furtherEntries es ++ r).size <
        (Text.cons ',' (e.text ++ (furtherEntries es ++ r))).size := by
      have := Char.utf8Size_pos ','
      rw [Text.size_cons, Text.size_append e.text]
      omega
    rw [htext]
    exact ⟨_, .step hparse hlt hadv⟩

/-! ### The end of the list -/

/-- A text that does not begin with a space, a sign or a digit is no item. -/
theorem parse_item_of_stops (hspace : tail.Stops isSpace) (hdigit : tail.Stops isDigit)
    (hsign : tail.Stops isSign) : ∃ m, item.parse tail = .failure (.mismatch m) := by
  have hfault : NumberFault (∅ ++ (Sign.none.text ++ tail)) (unsatisfied "expected a digit" tail) :=
    .noDigit Text.all_empty (by rwa [Sign.text_none_append]) (fun _ => hsign) hdigit
  rw [Text.empty_append, Sign.text_none_append] at hfault
  refine ⟨some (unsatisfied "expected a digit" tail), parse_trimmed_eq_failure.mpr ?_⟩
  rw [Text.dropWhile_of_stops hspace]
  exact hfault.parse_number

theorem stops_closing {q : Char → Bool} (comma : Bool) (hq : q ',' = false) (h : tail.Stops q) :
    (closing comma tail).Stops q := by
  cases comma with
  | true => exact Text.stops_cons.mpr hq
  | false => exact h

/-- Where no entry follows, no further item is found, with a comma or without. -/
theorem parse_furtherItem_closing (comma : Bool) (hspace : tail.Stops isSpace)
    (hdigit : tail.Stops isDigit) (hsign : tail.Stops isSign) (hcomma : tail.Stops (· == ',')) :
    ∃ m, furtherItem.parse (closing comma tail) = .failure (.mismatch m) := by
  cases comma with
  | true =>
    -- the comma is taken, and what follows it is no item
    obtain ⟨m, hm⟩ := parse_item_of_stops hspace hdigit hsign
    refine ⟨m, parse_lift2_eq_failure.mpr (Or.inr ⟨⟨',', tail⟩, ?_, hm⟩)⟩
    rw [closing, parse, run_char_cons, Run.outcome_of]
  | false =>
    obtain ⟨m, hm⟩ := parse_char_of_stops hcomma
    exact ⟨m, parse_lift2_eq_failure.mpr (Or.inl hm)⟩

/-- The comma that may stand behind the entries is taken. -/
theorem parse_optional_comma_closing (comma : Bool) (hcomma : tail.Stops (· == ',')) :
    ∃ found, (optional (char ',')).parse (closing comma tail) = .success ⟨found, tail⟩ := by
  cases comma with
  | true =>
    refine ⟨some ',', ?_⟩
    rw [closing, parse, run_optional, run_char_cons]
    rfl
  | false =>
    obtain ⟨m, hm⟩ := parse_char_of_stops hcomma
    refine ⟨none, ?_⟩
    rw [closing, parse, run_optional, Run.orElse_of_mismatch (Run.outcome_map_eq_failure.mpr hm)]
    rfl

/-- **A written list is parsed back.** A list of integers, at least one, in decimal with any
number of spaces around each and with commas between them, with a comma behind it or
without, is parsed from every text that begins with it and could not go on with it: the
integers are found in their order, and what is left is what follows the list. -/
theorem parse_integerList_written (e : Entry) (es : List Entry) (comma : Bool)
    (h : tail.Stops continuesList) :
    integerList.parse (writtenList e es comma tail) =
      .success ⟨(e :: es).map Entry.value, tail⟩ := by
  obtain ⟨hrest, hcomma⟩ := Text.stops_or.mp h
  obtain ⟨hrest, hsign⟩ := Text.stops_or.mp hrest
  obtain ⟨hspace, hdigit⟩ := Text.stops_or.mp hrest
  have hspace' : (closing comma tail).Stops isSpace := stops_closing comma rfl hspace
  have hdigit' : (closing comma tail).Stops isDigit := stops_closing comma rfl hdigit
  have hfirst : item.parse (writtenList e es comma tail) =
      .success ⟨e.value, furtherEntries es ++ closing comma tail⟩ :=
    parse_item_entry e (stops_furtherEntries es rfl hspace') (stops_furtherEntries es rfl hdigit')
  have hothers : (zeroOrMore furtherItem).parse (furtherEntries es ++ closing comma tail) =
      .success ⟨es.map Entry.value, closing comma tail⟩ := by
    obtain ⟨ts, hadv⟩ := advances_furtherItem es hspace' hdigit'
    obtain ⟨m, hm⟩ := parse_furtherItem_closing comma hspace hdigit hsign hcomma
    rw [parse, hadv.run_zeroOrMore hm]
  obtain ⟨found, hclosing⟩ := parse_optional_comma_closing comma hcomma
  exact parse_lift3_eq_success.mpr ⟨_, _, _, hfirst, hothers, hclosing, rfl⟩

/-- Three integers, the least one among them, in front of a bracket. -/
theorem parse_integerList_brackets :
    (Text.ofString "]").Stops continuesList ∧
    integerList.parse (.ofString "1,  -9223372036854775808 ,3,]") =
      .success ⟨[1, -9223372036854775808, 3], .ofString "]"⟩ := by
  have hstops : (Text.ofString "]").Stops continuesList := by decide
  have htext : writtenList ⟨0, 1, 0⟩ [⟨2, -9223372036854775808, 1⟩, ⟨0, 3, 0⟩] true
      (.ofString "]") = .ofString "1,  -9223372036854775808 ,3,]" := rfl
  refine ⟨hstops, ?_⟩
  rw [← htext]
  exact parse_integerList_written _ _ _ hstops

end Arith

end Descent
