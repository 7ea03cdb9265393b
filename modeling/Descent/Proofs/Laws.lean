import Descent.Parser.Basic

/-!
# Laws of the algebra

Parsers that go on from one another are a monad (`monad_laws`), with `map` and `ap` the
ones that `bind` and `pure` give, and so an applicative functor (`applicative_laws`). The
laws are equations between parsers, and equal parsers have the same run on every text:
the same success or the same error, and the same log, so that the traced parsers inside
are invoked on the same texts in the same order. No side condition is asked of a parser:
it may fail in any way, and leave whatever it likes.

The equations follow from those of runs: going on is associative (`Run.andThen_andThen`),
and succeeding with what was found is its unit (`Run.success_andThen`,
`Run.andThen_success`).
-/

namespace Descent

namespace Parser

variable {α β γ δ : Type}

/-! ### Going on -/

theorem pure_bind (a : α) (f : α → Parser β) : (Parser.pure a).bind f = f a := by
  apply ext
  intro s
  rw [run_bind, run_pure, Run.success_andThen]

theorem bind_assoc (p : Parser α) (f : α → Parser β) (g : β → Parser γ) :
    (p.bind f).bind g = p.bind fun a => (f a).bind g := by
  apply ext
  intro s
  rw [run_bind, run_bind, Run.andThen_andThen, run_bind]
  rfl

/-- Nothing goes on behind a failure. -/
theorem fail_bind (message : String) (f : α → Parser β) :
    (fail message).bind f = fail message := by
  apply ext
  intro s
  rw [run_bind, run_fail, Run.failure_andThen, run_fail]

/-! ### Computing with values -/

@[simp] theorem map_id (p : Parser α) : p.map id = p := by
  apply ext
  intro s
  rw [run_map, Run.map_id]

/-- To compute with a value is to go on by succeeding with the result. -/
theorem bind_pure_comp (f : α → β) (p : Parser α) :
    (p.bind fun a => .pure (f a)) = p.map f := by
  apply ext
  intro s
  rw [run_bind, run_map, ← Run.andThen_success]
  rfl

theorem bind_pure (p : Parser α) : p.bind .pure = p := by
  have h := bind_pure_comp id p
  rwa [map_id] at h

/-- To apply a function that was parsed is to go on by computing with it. -/
theorem bind_map (pf : Parser (α → β)) (pa : Parser α) :
    (pf.bind fun f => pa.map f) = pf.ap pa := rfl

theorem map_bind (f : α → β) (p : Parser α) (g : β → Parser γ) :
    (p.map f).bind g = p.bind fun a => g (f a) := by
  apply ext
  intro s
  rw [run_bind, run_map, Run.map_andThen, run_bind]
  rfl

/-- The laws of maps and of `ap` follow from those of `bind`, to which both come down. -/
instance : LawfulMonad Parser :=
  LawfulMonad.mk' Parser map_id pure_bind bind_assoc (fun _ _ => rfl) (fun _ _ => rfl)
    (fun _ _ => rfl) bind_pure_comp bind_map

theorem map_map (g : β → γ) (f : α → β) (p : Parser α) : (p.map f).map g = p.map (g ∘ f) :=
  (comp_map f g p).symm

/-- To apply a function that was not parsed is to compute with it. -/
theorem pure_ap (f : α → β) (p : Parser α) : (Parser.pure f).ap p = p.map f := pure_seq f p

theorem map_lift2 (g : γ → δ) (f : α → β → γ) (p : Parser α) (q : Parser β) :
    (lift2 f p q).map g = lift2 (fun a b => g (f a b)) p q := by
  apply ext
  intro s
  rw [run_map, run_lift2, Run.andThen_map, run_lift2]
  simp only [Run.map_map]
  rfl

theorem lift2_map_left (f : γ → β → δ) (g : α → γ) (p : Parser α) (q : Parser β) :
    lift2 f (p.map g) q = lift2 (fun a b => f (g a) b) p q := by
  apply ext
  intro s
  rw [run_lift2, run_map, Run.map_andThen, run_lift2]
  rfl

theorem lift2_map_right (f : α → γ → δ) (g : β → γ) (p : Parser α) (q : Parser β) :
    lift2 f p (q.map g) = lift2 (fun a b => f a (g b)) p q := by
  apply ext
  intro s
  rw [run_lift2, run_lift2]
  simp only [run_map, Run.map_map]
  rfl

/-! ### The laws -/

/-- **Parsers are a monad**: `pure` is a unit of `bind` on either side, `bind` is
associative, and `fail` ends what would go on. And it is the monad of `map` and `ap`:
to map is to go on with `pure`, to apply is to go on with `map`. -/
theorem monad_laws :
    (∀ (a : α) (g : α → Parser β), (Parser.pure a).bind g = g a) ∧
    (∀ p : Parser α, p.bind .pure = p) ∧
    (∀ (p : Parser α) (g : α → Parser β) (h : β → Parser γ),
      (p.bind g).bind h = p.bind fun x => (g x).bind h) ∧
    (∀ (message : String) (g : α → Parser β), (fail message).bind g = fail message) ∧
    (∀ (p : Parser α) (f : α → β), p.map f = p.bind fun x => .pure (f x)) ∧
    (∀ (pf : Parser (α → β)) (pa : Parser α), pf.ap pa = pf.bind fun f => pa.map f) := by
  refine ⟨pure_bind, bind_pure, bind_assoc, fail_bind, fun p f => ?_, fun pf pa => ?_⟩
  · rw [bind_pure_comp]
  · rw [bind_map]

/-- **Parsers are an applicative functor**: `map` keeps the identity and composition;
`pure` gives the identity and the functions of values, and may stand on either side of
what it is applied to; and three parsers in a row are composed alike whichever two are
taken together first. -/
theorem applicative_laws :
    (∀ p : Parser α, p.map id = p) ∧
    (∀ (p : Parser α) (f : α → β) (g : β → γ), (p.map f).map g = p.map (g ∘ f)) ∧
    (∀ p : Parser α, (Parser.pure id).ap p = p) ∧
    (∀ (f : α → β) (a : α), (Parser.pure f).ap (.pure a) = .pure (f a)) ∧
    (∀ (u : Parser (α → β)) (y : α), u.ap (.pure y) = (Parser.pure fun k => k y).ap u) ∧
    (∀ (u : Parser (β → γ)) (v : Parser (α → β)) (w : Parser α),
      (((Parser.pure Function.comp).ap u).ap v).ap w = u.ap (v.ap w)) := by
  refine ⟨map_id, fun p f g => ?_, fun p => ?_, fun f a => ?_, fun u y => ?_, fun u v w => ?_⟩
  · exact (comp_map f g p).symm
  · rw [pure_ap, map_id]
  · rw [pure_ap]
    exact map_pure f a
  · calc u.ap (.pure y) = u.map fun k => k y := seq_pure u y
      _ = (Parser.pure fun k => k y).ap u := (pure_ap _ u).symm
  · calc (((Parser.pure Function.comp).ap u).ap v).ap w
      _ = ((u.map Function.comp).ap v).ap w := by rw [pure_ap]
      _ = u.ap (v.ap w) := (seq_assoc w v u).symm

end Parser

end Descent
