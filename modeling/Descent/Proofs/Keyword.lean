import Descent.Proofs.Inversion
import Descent.Proofs.OrderedChoice

/-!
# Keywords

A literal text succeeds exactly on the texts that begin with it (`Text.IsPrefix`), and
mismatches on all others. A keyword is a literal text that stands for a value. A choice of
keywords takes the first one whose word begins the text, and fails, with nothing to say,
where none of them does (`parse_anyOf_keyword_eq_success`,
`parse_anyOf_keyword_eq_failure`). What is found need not be the longest word that begins the
text: a word that stands behind a proper prefix of it is never reached.
-/

namespace Descent

/-! ### Prefixes -/

namespace Text

variable {s v w : Text}

/-- The text `s` begins with the text `w`. -/
def IsPrefix (w s : Text) : Prop := ∃ t, s = w ++ t

/-- The text `s` begins with the text `w`, and goes on. -/
def IsProperPrefix (w s : Text) : Prop := w.IsPrefix s ∧ w ≠ s

theorem not_isPrefix : ¬ w.IsPrefix s ↔ ∀ t, s ≠ w ++ t := not_exists

theorem isPrefix_refl (w : Text) : w.IsPrefix w := ⟨∅, (append_empty w).symm⟩

theorem isPrefix_iff_chars : w.IsPrefix s ↔ w.chars <+: s.chars := by
  constructor
  · intro h
    obtain ⟨t, rfl⟩ := h
    exact List.prefix_append _ _
  · intro h
    obtain ⟨cs, hcs⟩ := h
    exact ⟨ofList cs, ext hcs.symm⟩

instance : Decidable (IsPrefix w s) :=
  decidable_of_iff (w.chars.isPrefixOf s.chars = true)
    (List.isPrefixOf_iff_prefix.trans isPrefix_iff_chars.symm)

instance : Decidable (IsProperPrefix w s) := decidable_of_iff (w.IsPrefix s ∧ w ≠ s) Iff.rfl

theorem IsPrefix.size_le (h : w.IsPrefix s) : w.size ≤ s.size := by
  obtain ⟨t, rfl⟩ := h
  rw [size_append]
  omega

/-- Of two texts that begin a text one begins the other. -/
theorem IsPrefix.total (hv : v.IsPrefix s) (hw : w.IsPrefix s) : v.IsPrefix w ∨ w.IsPrefix v := by
  rw [isPrefix_iff_chars] at hv hw
  rw [isPrefix_iff_chars, isPrefix_iff_chars]
  exact List.prefix_or_prefix_of_prefix hv hw

theorem IsPrefix.eq_of_size_le (h : w.IsPrefix s) (hle : s.size ≤ w.size) : w = s := by
  obtain ⟨t, rfl⟩ := h
  rw [size_append] at hle
  have ht : t = ∅ := size_eq_zero.mp (by omega)
  rw [ht, append_empty]

/-- There is one prefix of each size. -/
theorem IsPrefix.eq_of_size_eq (hv : v.IsPrefix s) (hw : w.IsPrefix s) (h : v.size = w.size) :
    v = w := by
  cases hv.total hw with
  | inl hvw => exact hvw.eq_of_size_le (Nat.le_of_eq h.symm)
  | inr hwv => exact (hwv.eq_of_size_le (Nat.le_of_eq h)).symm

end Text

namespace Parser

variable {κ : Type} {word : κ → Text} {x y : κ} {xs : List κ} {v w r s : Text}

/-! ### Literal texts -/

theorem parse_literal_eq_success :
    (literal w).parse s = .success ⟨v, r⟩ ↔ v = w ∧ s = w ++ r := by
  by_cases h : w.IsPrefix s
  · obtain ⟨t, rfl⟩ := h
    rw [parse, run_literal_append, Run.outcome_of, Outcome.success.injEq, Success.mk.injEq,
      Text.append_right_inj, eq_comm]
  · rw [parse, run_literal_of_forall_ne (Text.not_isPrefix.mp h)]
    constructor
    · intro hv
      cases hv
    · intro hv
      exact absurd ⟨r, hv.2⟩ h

theorem mismatches_literal : (literal w).Mismatches s ↔ ¬ w.IsPrefix s := by
  constructor
  · intro h hw
    obtain ⟨m, hm⟩ := h
    obtain ⟨t, ht⟩ := hw
    rw [parse_literal_eq_success.mpr ⟨rfl, ht⟩] at hm
    cases hm
  · intro h
    rw [Mismatches, parse, run_literal_of_forall_ne (Text.not_isPrefix.mp h)]
    exact ⟨_, rfl⟩

/-! ### Keywords -/

/-- Takes the word of `x`, which stands for `x`. -/
def keyword (word : κ → Text) (x : κ) : Parser κ := (literal (word x)).map fun _ => x

theorem parse_keyword_eq_success :
    (keyword word x).parse s = .success ⟨y, r⟩ ↔ y = x ∧ s = word x ++ r := by
  rw [keyword, parse_map_eq_success]
  constructor
  · intro h
    obtain ⟨⟨v, t⟩, hv, hy⟩ := h
    cases hy
    exact ⟨rfl, (parse_literal_eq_success.mp hv).2⟩
  · intro h
    obtain ⟨rfl, hs⟩ := h
    exact ⟨⟨word y, r⟩, parse_literal_eq_success.mpr ⟨rfl, hs⟩, rfl⟩

theorem mismatches_keyword : (keyword word x).Mismatches s ↔ ¬ (word x).IsPrefix s := by
  rw [← mismatches_literal, Mismatches, Mismatches, keyword]
  exact exists_congr fun m => Run.outcome_map_eq_failure

/-- A literal text is a keyword that stands for itself. -/
theorem keyword_id : keyword id = literal := by
  funext w
  apply ext
  intro s
  rw [keyword, run_map, id_eq]
  by_cases h : w.IsPrefix s
  · obtain ⟨t, rfl⟩ := h
    rw [run_literal_append]
    rfl
  · rw [run_literal_of_forall_ne (Text.not_isPrefix.mp h)]
    rfl

/-- A choice of keywords takes the first one that begins the text. -/
theorem parse_anyOf_keyword_eq_success :
    (anyOf (xs.map (keyword word))).parse s = .success ⟨x, r⟩ ↔
      ∃ before behind, xs = before ++ x :: behind ∧ s = word x ++ r ∧
        ∀ y ∈ before, ¬ (word y).IsPrefix s := by
  induction xs with
  | nil =>
    constructor
    · intro h
      cases h
    · intro h
      obtain ⟨before, behind, h, -⟩ := h
      exact absurd h.symm (by simp)
  | cons y ys ih =>
    rw [List.map_cons, parse_anyOf_cons_eq_success, parse_keyword_eq_success,
      ← Mismatches, mismatches_keyword, ih]
    constructor
    · intro h
      obtain ⟨rfl, hs⟩ | ⟨hy, before, behind, rfl, hs, hbefore⟩ := h
      · exact ⟨[], ys, rfl, hs, fun _ h => absurd h List.not_mem_nil⟩
      · exact ⟨y :: before, behind, rfl, hs, List.forall_mem_cons.mpr ⟨hy, hbefore⟩⟩
    · intro h
      obtain ⟨before, behind, h, hs, hbefore⟩ := h
      cases before with
      | nil =>
        obtain ⟨rfl, rfl⟩ := List.cons.inj h
        exact Or.inl ⟨rfl, hs⟩
      | cons z before =>
        obtain ⟨rfl, rfl⟩ := List.cons.inj h
        obtain ⟨hy, hbefore⟩ := List.forall_mem_cons.mp hbefore
        exact Or.inr ⟨hy, before, behind, rfl, hs, hbefore⟩

/-- It fails where none of them begins the text, and says no more. -/
theorem parse_anyOf_keyword_eq_failure {e : ParseError} :
    (anyOf (xs.map (keyword word))).parse s = .failure e ↔
      (∀ x ∈ xs, ¬ (word x).IsPrefix s) ∧ e = .noneMatched := by
  induction xs with
  | nil => simp [parse, eq_comm]
  | cons y ys ih =>
    rw [List.map_cons, List.forall_mem_cons]
    by_cases hy : (word y).IsPrefix s
    · obtain ⟨t, ht⟩ := hy
      have hfirst : (keyword word y).parse s = .success ⟨y, t⟩ :=
        parse_keyword_eq_success.mpr ⟨rfl, ht⟩
      rw [parse_anyOf_cons_eq_success.mpr (Or.inl hfirst)]
      constructor
      · intro h
        cases h
      · intro h
        exact absurd ⟨t, ht⟩ h.1.1
    · rw [parse, run_anyOf_cons_of_mismatches (mismatches_keyword.mpr hy), Run.outcome_after,
        and_assoc, ← ih]
      exact (and_iff_right hy).symm

end Parser

end Descent
