import Descent.Proofs.Fault
import Descent.Proofs.Keyword
import Mathlib.Data.List.Nodup

/-!
# Longest matches

A choice of keywords takes the first one that begins the text. This is the longest one as
well, whatever the text, as long as no word stands behind a proper prefix of it
(`isLongestPrefix_of_pairwise`). If one does, the text of that word shows the difference: what
is found there is the shorter word, or another one in front of it
(`pairwise_of_isLongestPrefix`).

The tokens of the operators are in such an order, `**` in front of `*`. So an operator is
found by its token, the longest one behind the spaces.
-/

namespace Descent

namespace Text

variable {s v w : Text} {ws : List Text}

/-- Of the words of a list that begin the text `s`, `w` is the longest. -/
structure IsLongestPrefix (w : Text) (ws : List Text) (s : Text) : Prop where
  mem : w ∈ ws
  isPrefix : w.IsPrefix s
  size_le : ∀ v ∈ ws, v.IsPrefix s → v.size ≤ w.size

theorem IsLongestPrefix.unique (hv : v.IsLongestPrefix ws s) (hw : w.IsLongestPrefix ws s) :
    v = w := by
  have hle : v.size ≤ w.size := hw.size_le v hv.mem hv.isPrefix
  have hge : w.size ≤ v.size := hv.size_le w hw.mem hw.isPrefix
  exact hv.isPrefix.eq_of_size_eq hw.isPrefix (Nat.le_antisymm hle hge)

end Text

namespace Parser

variable {κ : Type} {word : κ → Text} {x : κ} {xs : List κ} {r s : Text}

/-- If no word stands behind a proper prefix of it, the word found is the longest. -/
theorem isLongestPrefix_of_pairwise
    (hxs : xs.Pairwise fun x y => ¬ (word x).IsProperPrefix (word y))
    (h : (anyOf (xs.map (keyword word))).parse s = .success ⟨x, r⟩) :
    (word x).IsLongestPrefix (xs.map word) s := by
  obtain ⟨before, behind, rfl, hs, hbefore⟩ := parse_anyOf_keyword_eq_success.mp h
  have hx : (word x).IsPrefix s := ⟨r, hs⟩
  obtain ⟨-, hbehind, -⟩ := List.pairwise_append.mp hxs
  have hnot := (List.pairwise_cons.mp hbehind).1
  refine ⟨by simp, hx, fun v hv hvs => ?_⟩
  obtain ⟨y, hy, rfl⟩ := List.mem_map.mp hv
  rw [List.mem_append, List.mem_cons] at hy
  obtain hy | rfl | hy := hy
  · exact absurd hvs (hbefore y hy)
  · exact Nat.le_refl _
  · -- of the two words one begins the other
    cases hvs.total hx with
    | inl hyx => exact hyx.size_le
    | inr hxy =>
      by_cases heq : word x = word y
      · rw [heq]
      · exact absurd ⟨hxy, heq⟩ (hnot y hy)

/-- If a word stands behind a proper prefix of it, it is not found where it is the text. -/
theorem pairwise_of_isLongestPrefix {ws : List Text} (hws : ws.Nodup)
    (h : ∀ s w r, (anyOf (ws.map literal)).parse s = .success ⟨w, r⟩ → w.IsLongestPrefix ws s) :
    ws.Pairwise fun w v => ¬ w.IsProperPrefix v := by
  rw [List.pairwise_iff_forall_sublist]
  intro w v hwv hproper
  obtain ⟨front, back, rfl, hw, hv⟩ := List.cons_sublist_iff.mp hwv
  rw [List.singleton_sublist] at hv
  -- on the text `v` the choice ends in the words in front of `v`, since `w` is one of them
  have hfront : (anyOf ((front ++ back).map literal)).parse v =
      (anyOf (front.map literal)).parse v := by
    have hmatch : ¬ (literal w).Mismatches v := fun hm => mismatches_literal.mp hm hproper.1
    rw [List.map_append, parse, run_anyOf_append_of_mem (List.mem_map_of_mem hw) hmatch, parse]
  rcases ho : (anyOf (front.map literal)).parse v with ⟨u, r⟩ | e
  · have hlongest := h v u r (hfront.trans ho)
    have hle := hlongest.size_le v (List.mem_append_right _ hv) v.isPrefix_refl
    have huv : u = v := hlongest.isPrefix.eq_of_size_le hle
    rw [← keyword_id] at ho
    obtain ⟨before, behind, hsplit, -⟩ := parse_anyOf_keyword_eq_success.mp ho
    have hmem : v ∈ front := by simp [hsplit, huv]
    exact (List.nodup_append.mp hws).2.2 v hmem v hv rfl
  · rw [← keyword_id] at ho
    exact (parse_anyOf_keyword_eq_failure.mp ho).1 w hw hproper.1

/-- Words that differ, none of them behind a proper prefix of it, are found exactly where
they are the longest. -/
theorem parse_anyOf_keyword_eq_success_iff_longest (hinj : Function.Injective word)
    (hxs : xs.Pairwise fun x y => ¬ (word x).IsProperPrefix (word y)) :
    (anyOf (xs.map (keyword word))).parse s = .success ⟨x, r⟩ ↔
      (word x).IsLongestPrefix (xs.map word) s ∧ s = word x ++ r := by
  constructor
  · intro h
    obtain ⟨_, _, -, hs, -⟩ := parse_anyOf_keyword_eq_success.mp h
    exact ⟨isLongestPrefix_of_pairwise hxs h, hs⟩
  · intro h
    obtain ⟨hlongest, hs⟩ := h
    rcases ho : (anyOf (xs.map (keyword word))).parse s with ⟨y, t⟩ | e
    · obtain ⟨_, _, -, ht, -⟩ := parse_anyOf_keyword_eq_success.mp ho
      have hyx : y = x := hinj ((isLongestPrefix_of_pairwise hxs ho).unique hlongest)
      rw [hyx, hs, Text.append_right_inj] at ht
      rw [hyx, ht]
    · obtain ⟨y, hy, hyx⟩ := List.mem_map.mp hlongest.mem
      exact absurd (hyx ▸ hlongest.isPrefix) ((parse_anyOf_keyword_eq_failure.mp ho).1 y hy)

end Parser

namespace Arith

open Descent.Parser

/-! ### Operators -/

theorem Operator.token_injective : Function.Injective Operator.token := by
  intro op o h
  have hnodup : (all.map token).Nodup := by decide
  exact List.inj_on_of_nodup_map hnodup op.mem_all o.mem_all h

/-- No token stands behind a proper prefix of it. -/
theorem Operator.pairwise_all :
    all.Pairwise fun op o => ¬ op.token.IsProperPrefix o.token := by decide

/-- An operator is found by the longest token behind the spaces. -/
theorem parse_binaryOperator_eq_success_iff_longest {op : Operator} {s r : Text} :
    binaryOperator.parse s = .success ⟨op, r⟩ ↔
      op.token.IsLongestPrefix (Operator.all.map Operator.token) (s.dropWhile isSpace) ∧
        ∃ t, s.dropWhile isSpace = op.token ++ t ∧ r = t.dropWhile isSpace := by
  rw [binaryOperator, parse_trimmed_eq_success_iff, operatorToken_eq]
  simp only [parse_anyOf_keyword_eq_success_iff_longest Operator.token_injective
    Operator.pairwise_all]
  constructor
  · intro h
    obtain ⟨t, ⟨hlongest, hs⟩, hr⟩ := h
    exact ⟨hlongest, t, hs, hr⟩
  · intro h
    obtain ⟨hlongest, t, hs, hr⟩ := h
    exact ⟨t, ⟨hlongest, hs⟩, hr⟩

/-- It is found where its token stands behind the spaces, unless the token goes on. -/
theorem exists_parse_binaryOperator_eq_success {op : Operator} {s : Text} :
    (∃ r, binaryOperator.parse s = .success ⟨op, r⟩) ↔
      ∃ t, s.dropWhile isSpace = op.token ++ t ∧ op.Ends t := by
  simp only [binaryOperator, parse_trimmed_eq_success_iff, parse_anyOf_all_eq_success]
  constructor
  · intro h
    obtain ⟨_, t, ht, -⟩ := h
    exact ⟨t, ht⟩
  · intro h
    obtain ⟨t, ht⟩ := h
    exact ⟨_, t, ht, rfl⟩

/-- **A choice of literal texts takes the first one that begins the text**, and says that
none matched where none does. If the literal texts differ, the one it takes is on every text
the longest that begins the text exactly if none of them stands behind a proper prefix of it.

So it is with the tokens of the operators: behind the spaces in front, the operator whose
token is the longest that begins the text is found, and the spaces behind it are skipped. It
is the power if that text begins with `**`, and the product if it begins with `*` and no
second `*` follows. -/
theorem literal_choice_longest :
    (∀ (ws : List Text) s,
      (∀ w r, (anyOf (ws.map literal)).parse s = .success ⟨w, r⟩ ↔
        ∃ before behind, ws = before ++ w :: behind ∧ s = w ++ r ∧
          ∀ v ∈ before, ¬ v.IsPrefix s) ∧
      ∀ e, (anyOf (ws.map literal)).parse s = .failure e ↔
        (∀ w ∈ ws, ¬ w.IsPrefix s) ∧ e = .labelled "none matched") ∧
    (∀ ws : List Text, ws.Nodup →
      ((∀ s w r, (anyOf (ws.map literal)).parse s = .success ⟨w, r⟩ → w.IsLongestPrefix ws s) ↔
        ws.Pairwise fun w v => ¬ w.IsProperPrefix v)) ∧
    (∀ s op r, binaryOperator.parse s = .success ⟨op, r⟩ ↔
      op.token.IsLongestPrefix (Operator.all.map Operator.token) (s.dropWhile isSpace) ∧
        ∃ t, s.dropWhile isSpace = op.token ++ t ∧ r = t.dropWhile isSpace) ∧
    (∀ s e, binaryOperator.parse s = .failure e ↔
      (∀ op : Operator, ¬ op.token.IsPrefix (s.dropWhile isSpace)) ∧
        e = .labelled "none matched") ∧
    ∀ s,
      ((∃ r, binaryOperator.parse s = .success ⟨.pow, r⟩) ↔
        ∃ t, s.dropWhile isSpace = .ofString "**" ++ t) ∧
      ((∃ r, binaryOperator.parse s = .success ⟨.mul, r⟩) ↔
        ∃ t, s.dropWhile isSpace = .ofString "*" ++ t ∧ t.Stops (· == '*')) := by
  refine ⟨fun ws s => ?_, fun ws hws => ⟨pairwise_of_isLongestPrefix hws, fun h s w r ho => ?_⟩,
    fun s op r => parse_binaryOperator_eq_success_iff_longest, fun s e => ?_, fun s => ⟨?_, ?_⟩⟩
  · rw [← keyword_id]
    exact ⟨fun w r => parse_anyOf_keyword_eq_success, fun e => parse_anyOf_keyword_eq_failure⟩
  · rw [← keyword_id] at ho
    have hlongest : (id w).IsLongestPrefix (ws.map id) s := isLongestPrefix_of_pairwise h ho
    rwa [List.map_id] at hlongest
  · simp only [Text.not_isPrefix]
    exact parse_binaryOperator_eq_failure
  · rw [exists_parse_binaryOperator_eq_success]
    exact exists_congr fun t => and_iff_left fun h => nomatch h
  · rw [exists_parse_binaryOperator_eq_success]
    exact exists_congr fun t => and_congr_right fun _ => forall_prop_of_true rfl

/-- The longest is always found if `letrec` stands in front of `let`, and not otherwise. -/
theorem letrec_in_front_of_let :
    (["letrec", "let", "in"].map Text.ofString).Nodup ∧
    (∀ s w r, (anyOf ((["letrec", "let", "in"].map Text.ofString).map literal)).parse s =
      .success ⟨w, r⟩ → w.IsLongestPrefix (["letrec", "let", "in"].map Text.ofString) s) ∧
    (["let", "letrec", "in"].map Text.ofString).Nodup ∧
    ¬ ∀ s w r, (anyOf ((["let", "letrec", "in"].map Text.ofString).map literal)).parse s =
      .success ⟨w, r⟩ → w.IsLongestPrefix (["let", "letrec", "in"].map Text.ofString) s := by
  obtain ⟨-, hlongest, -⟩ := literal_choice_longest
  have hgood : (["letrec", "let", "in"].map Text.ofString).Nodup := by decide
  have hbad : (["let", "letrec", "in"].map Text.ofString).Nodup := by decide
  refine ⟨hgood, (hlongest _ hgood).mpr (by decide), hbad, fun h => ?_⟩
  exact absurd ((hlongest _ hbad).mp h) (by decide)

end Arith

end Descent
