import Descent.Parser.Chars
import Descent.Parser.Sequence
import Descent.Proofs.Laws

/-!
# Parsers in a row

There are three ways to run parsers in a row and put their values together: `lift2` to
`lift5` apply a function of that many arguments, `sequence` makes a list of the values, and
`ap` gives a curried function one argument after the other. They are one operation
(`sequence_lift_ap_agree`). For a sequence of any length this takes the curried functions of
any number of arguments (`Curried`), and the induction on the parsers is about a function
that has been given some of its arguments already (`apList_map_curry`).

The equations are between parsers: what is parsed, what is left, the first error and the
log are the same on every text.
-/

namespace Descent

/-- The functions of `n` arguments of type `α`, one after the other, to `β`. -/
def Curried (α β : Type) : Nat → Type
  | 0 => β
  | n + 1 => α → Curried α β n

/-- The function of `n` arguments that does with them what `f` does with the list of them. -/
def curry {α β : Type} (f : List α → β) : (n : Nat) → Curried α β n
  | 0 => f []
  | n + 1 => fun a => curry (fun as => f (a :: as)) n

example (a b c : Char) : (curry id 3 : Curried Char (List Char) 3) a b c = [a, b, c] := rfl

namespace Parser

variable {α β γ δ ε ζ : Type}

/-! ### One more argument -/

theorem map_ap (f : α → β → γ) (p : Parser α) (q : Parser β) : (p.map f).ap q = lift2 f p q := by
  apply ext
  intro s
  rw [run_ap, run_map, Run.map_andThen, run_lift2]
  rfl

theorem lift2_ap (f : α → β → γ → δ) (p : Parser α) (q : Parser β) (r : Parser γ) :
    (lift2 f p q).ap r = lift3 f p q r := by
  apply ext
  intro s
  rw [run_ap, run_lift2, Run.andThen_andThen, run_lift3]
  simp only [Run.map_andThen, run_lift2]
  rfl

theorem lift3_ap (f : α → β → γ → δ → ε) (p : Parser α) (q : Parser β) (r : Parser γ)
    (t : Parser δ) : (lift3 f p q r).ap t = lift4 f p q r t := by
  apply ext
  intro s
  rw [run_ap, run_lift3, Run.andThen_andThen, run_lift4]
  simp only [← lift2_ap, run_ap]

theorem lift4_ap (f : α → β → γ → δ → ε → ζ) (p : Parser α) (q : Parser β) (r : Parser γ)
    (t : Parser δ) (u : Parser ε) : (lift4 f p q r t).ap u = lift5 f p q r t u := by
  apply ext
  intro s
  rw [run_ap, run_lift4, Run.andThen_andThen, run_lift5]
  simp only [← lift3_ap, run_ap]

/-! ### Any number of arguments -/

/-- Gives the function that `p` finds what the parsers of a list find, one after the other,
by an `ap` for each of them. -/
def apList : (ps : List (Parser α)) → Parser (Curried α β ps.length) → Parser β
  | [], p => p
  | q :: qs, p => apList qs (p.ap q)

/-- Of three parsers in a row the first two or the last two may be taken together. -/
theorem lift2_lift2 (f : α → β → γ) (g : δ → ε → β) (p : Parser α) (q : Parser δ) (r : Parser ε) :
    lift2 (fun x e => f x.1 (g x.2 e)) (lift2 Prod.mk p q) r = lift2 f p (lift2 g q r) := by
  apply ext
  intro s
  rw [run_lift2, run_lift2, Run.andThen_andThen, run_lift2]
  simp only [Run.map_andThen, run_lift2, Run.andThen_map, Run.map_map]
  rfl

/-- A function that has the arguments `c` already is given the others one by one. If it
makes of all of them what `k c` makes of the list of the others, then so it is when the
others come from a sequence. -/
theorem apList_map_curry (ps : List (Parser α)) (p : Parser γ) (k : γ → List α → β) :
    apList ps (p.map fun c => curry (k c) ps.length) = lift2 k p (sequence ps) := by
  induction ps generalizing γ with
  | nil =>
    apply ext
    intro s
    rw [run_lift2]
    exact (Run.andThen_success (fun c => k c []) (p.run s)).symm
  | cons q qs ih =>
    calc apList (q :: qs) (p.map fun c => curry (k c) (qs.length + 1))
      _ = apList qs ((p.map fun c a => curry (fun as => k c (a :: as)) qs.length).ap q) := rfl
      _ = apList qs ((lift2 Prod.mk p q).map fun x =>
            curry (fun as => k x.1 (x.2 :: as)) qs.length) := by rw [map_ap, map_lift2]
      _ = lift2 (fun x as => k x.1 (x.2 :: as)) (lift2 Prod.mk p q) (sequence qs) := ih _ _
      _ = lift2 k p (sequence (q :: qs)) := by rw [sequence_cons, ← lift2_lift2]

/-- What `f` makes of the values of a sequence, its curried form makes of them one by one. -/
theorem map_sequence (f : List α → β) (ps : List (Parser α)) :
    (sequence ps).map f = apList ps (.pure (curry f ps.length)) := by
  have hmap : (Parser.pure ()).map (fun _ => curry f ps.length) = .pure (curry f ps.length) := rfl
  have hlift : lift2 (fun _ => f) (.pure ()) (sequence ps) = (sequence ps).map f := rfl
  rw [← hlift, ← apList_map_curry, hmap]

/-! ### Two to five arguments -/

theorem lift2_eq_ap (f : α → β → γ) (p : Parser α) (q : Parser β) :
    lift2 f p q = ((Parser.pure f).ap p).ap q := by
  rw [pure_ap, map_ap]

theorem lift3_eq_ap (f : α → β → γ → δ) (p : Parser α) (q : Parser β) (r : Parser γ) :
    lift3 f p q r = (((Parser.pure f).ap p).ap q).ap r := by
  rw [← lift2_eq_ap, lift2_ap]

theorem lift4_eq_ap (f : α → β → γ → δ → ε) (p : Parser α) (q : Parser β) (r : Parser γ)
    (t : Parser δ) : lift4 f p q r t = ((((Parser.pure f).ap p).ap q).ap r).ap t := by
  rw [← lift3_eq_ap, lift3_ap]

theorem lift5_eq_ap (f : α → β → γ → δ → ε → ζ) (p : Parser α) (q : Parser β) (r : Parser γ)
    (t : Parser δ) (u : Parser ε) :
    lift5 f p q r t u = (((((Parser.pure f).ap p).ap q).ap r).ap t).ap u := by
  rw [← lift4_eq_ap, lift4_ap]

/-- Where `f` is the curried form of `g`, to give it the values one by one is to give `g` the
list of them. -/
theorem apList_pure (ps : List (Parser α)) {g : List α → β} {f : Curried α β ps.length}
    (h : curry g ps.length = f) : apList ps (.pure f) = (sequence ps).map g := by
  rw [← h, map_sequence]

theorem lift2_eq_map_sequence {f : α → α → β} {g : List α → β} (h : ∀ a b, g [a, b] = f a b)
    (p q : Parser α) : lift2 f p q = (sequence [p, q]).map g := by
  have hf : curry g 2 = f := by
    funext a b
    exact h a b
  rw [lift2_eq_ap]
  exact apList_pure [p, q] hf

theorem lift3_eq_map_sequence {f : α → α → α → β} {g : List α → β}
    (h : ∀ a b c, g [a, b, c] = f a b c) (p q r : Parser α) :
    lift3 f p q r = (sequence [p, q, r]).map g := by
  have hf : curry g 3 = f := by
    funext a b c
    exact h a b c
  rw [lift3_eq_ap]
  exact apList_pure [p, q, r] hf

theorem lift4_eq_map_sequence {f : α → α → α → α → β} {g : List α → β}
    (h : ∀ a b c d, g [a, b, c, d] = f a b c d) (p q r t : Parser α) :
    lift4 f p q r t = (sequence [p, q, r, t]).map g := by
  have hf : curry g 4 = f := by
    funext a b c d
    exact h a b c d
  rw [lift4_eq_ap]
  exact apList_pure [p, q, r, t] hf

theorem lift5_eq_map_sequence {f : α → α → α → α → α → β} {g : List α → β}
    (h : ∀ a b c d e, g [a, b, c, d, e] = f a b c d e) (p q r t u : Parser α) :
    lift5 f p q r t u = (sequence [p, q, r, t, u]).map g := by
  have hf : curry g 5 = f := by
    funext a b c d e
    exact h a b c d e
  rw [lift5_eq_ap]
  exact apList_pure [p, q, r, t, u] hf

/-- **Parsers in a row, three ways.** A sequence of any number of parsers is what comes of
giving their values, by one `ap` after the other, to the curried function that lists its
arguments. A function of two to five arguments that is lifted to parsers is that function,
curried, given their values by `ap`; and where the values are of one type, it is what the
function, applied to a list of so many arguments, makes of the sequence. -/
theorem sequence_lift_ap_agree :
    (∀ ps : List (Parser α), sequence ps = apList ps (.pure (curry id ps.length))) ∧
    (∀ (f : α → β → γ) p q, lift2 f p q = ((Parser.pure f).ap p).ap q) ∧
    (∀ (f : α → β → γ → δ) p q r, lift3 f p q r = (((Parser.pure f).ap p).ap q).ap r) ∧
    (∀ (f : α → β → γ → δ → ε) p q r t,
      lift4 f p q r t = ((((Parser.pure f).ap p).ap q).ap r).ap t) ∧
    (∀ (f : α → β → γ → δ → ε → ζ) p q r t u,
      lift5 f p q r t u = (((((Parser.pure f).ap p).ap q).ap r).ap t).ap u) ∧
    ∀ g : List α → β,
      (∀ f, (∀ a b, g [a, b] = f a b) → ∀ p q, lift2 f p q = (sequence [p, q]).map g) ∧
      (∀ f, (∀ a b c, g [a, b, c] = f a b c) → ∀ p q r,
        lift3 f p q r = (sequence [p, q, r]).map g) ∧
      (∀ f, (∀ a b c d, g [a, b, c, d] = f a b c d) → ∀ p q r t,
        lift4 f p q r t = (sequence [p, q, r, t]).map g) ∧
      ∀ f, (∀ a b c d e, g [a, b, c, d, e] = f a b c d e) → ∀ p q r t u,
        lift5 f p q r t u = (sequence [p, q, r, t, u]).map g := by
  refine ⟨fun ps => ?_, lift2_eq_ap, lift3_eq_ap, lift4_eq_ap, lift5_eq_ap, fun g =>
    ⟨fun f h => lift2_eq_map_sequence h, fun f h => lift3_eq_map_sequence h,
      fun f h => lift4_eq_map_sequence h, fun f h => lift5_eq_map_sequence h⟩⟩
  rw [← map_sequence, map_id]

/-- Characters put together into a string, two to five of them; five of `héllo!`. -/
theorem lift_characters :
    lift2 (fun a b => String.ofList [a, b]) (char 'h') symbol =
      (sequence [char 'h', symbol]).map String.ofList ∧
    lift3 (fun a b c => String.ofList [a, b, c]) symbol symbol (char 'l') =
      (sequence [symbol, symbol, char 'l']).map String.ofList ∧
    lift4 (fun a b c d => String.ofList [a, b, c, d]) symbol symbol symbol symbol =
      (sequence [symbol, symbol, symbol, symbol]).map String.ofList ∧
    lift5 (fun a b c d e => String.ofList [a, b, c, d, e]) symbol symbol symbol symbol symbol =
      (sequence [symbol, symbol, symbol, symbol, symbol]).map String.ofList ∧
    (lift5 (fun a b c d e => String.ofList [a, b, c, d, e]) symbol symbol symbol symbol
      symbol).parse (.ofString "héllo!") = .success ⟨"héllo", .ofString "!"⟩ := by
  obtain ⟨-, -, -, -, -, hlist⟩ := sequence_lift_ap_agree (α := Char) (β := String) (γ := Unit)
    (δ := Unit) (ε := Unit) (ζ := Unit)
  obtain ⟨h2, h3, h4, h5⟩ := hlist String.ofList
  exact ⟨h2 _ (fun _ _ => rfl) _ _, h3 _ (fun _ _ _ => rfl) _ _ _,
    h4 _ (fun _ _ _ _ => rfl) _ _ _ _, h5 _ (fun _ _ _ _ _ => rfl) _ _ _ _ _, by decide⟩

end Parser

end Descent
