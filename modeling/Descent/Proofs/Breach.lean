import Descent.Proofs.Invariant
import Descent.Proofs.Similarity

/-!
# Breaches are never absorbed

Once an invocation anywhere in a run ends in a breach, nothing else is invoked: the
invocations under way end one after the other in the same breach, and so does the whole
run. And a run ends in a breach only if one invocation raised it, of a form that can
(`Form.Raises`). Both are read off the log of the watched parser, of which the invariant
`Run.Accounts` gives the shape.
-/

namespace Descent

/-- The breach an event reports. -/
def Event.breach? : Event → Option Breach
  | enter _ _ => none
  | leave _ cause? => cause?

namespace Log

/-- No event of the log reports a breach. -/
def Quiet (log : Log) : Prop := ∀ e ∈ log, e.breach? = none

/-- All that happens is that invocations end in the breach. -/
def Unwinds (b : Breach) (log : Log) : Prop := ∀ e ∈ log, ∃ label, e = .leave label (some b)

theorem quiet_nil : Quiet [] := fun _ h => absurd h List.not_mem_nil

theorem quiet_cons {e : Event} {log : Log} : Quiet (e :: log) ↔ e.breach? = none ∧ Quiet log :=
  List.forall_mem_cons

theorem quiet_append {l m : Log} : Quiet (l ++ m) ↔ Quiet l ∧ Quiet m := List.forall_mem_append

/-- There is one way to cut a log at its first breach. -/
theorem Quiet.cut_unique {l l' m m' : Log} {e e' : Event} (hl : Quiet l) (hl' : Quiet l')
    (he : e.breach? ≠ none) (he' : e'.breach? ≠ none) (h : l ++ e :: m = l' ++ e' :: m') :
    e = e' := by
  rcases List.append_eq_append_iff.mp h with ⟨w, rfl, hw⟩ | ⟨w, rfl, hw⟩
  · cases w with
    | nil => exact (List.cons.inj hw).1
    | cons d w =>
      obtain ⟨rfl, -⟩ := List.cons.inj hw
      exact absurd (hl' _ (List.mem_append_right _ (List.mem_cons_self ..))) he
  · cases w with
    | nil => exact (List.cons.inj hw).1.symm
    | cons d w =>
      obtain ⟨rfl, -⟩ := List.cons.inj hw
      exact absurd (hl _ (List.mem_append_right _ (List.mem_cons_self ..))) he'

theorem Unwinds.calls_eq_nil {b : Breach} {log : Log} (h : Unwinds b log) : calls log = [] := by
  rw [calls, List.filterMap_eq_nil_iff]
  intro e he
  obtain ⟨label, rfl⟩ := h e he
  rfl

end Log

/-! ### The log accounts for the outcome -/

variable {α β : Type} {raises : Form → Breach → Prop} {own : Breach → Prop}

/-- The log of the run accounts for its outcome: no breach is on record and the run ends
in none, or in one of the parser's own; or the run ends in a breach that a node of a form
that raises it was the first to end in, and nothing but ends of invocations follow. -/
inductive Run.Accounts (raises : Form → Breach → Prop) (own : Breach → Prop) (r : Run α) :
    Prop where
  /-- There was no breach. -/
  | quiet : Log.Quiet r.log → r.outcome.breach? = none → Accounts raises own r
  /-- The parser made the breach. -/
  | raised {b : Breach} :
      Log.Quiet r.log → r.outcome = .failure (.breach b) → own b → Accounts raises own r
  /-- A node made the breach. -/
  | passed {b : Breach} {form : Form} {l m : Log} :
      r.log = l ++ .leave form.name (some b) :: m → Log.Quiet l → Log.Unwinds b m →
      raises form b → r.outcome = .failure (.breach b) → Accounts raises own r

namespace Run.Accounts

theorem after {l : Log} {r : Run α} (hl : Log.Quiet l) (h : Accounts raises own r) :
    Accounts raises own (r.after l) := by
  cases h with
  | quiet hlog ho => exact .quiet (Log.quiet_append.mpr ⟨hl, hlog⟩) ho
  | raised hlog ho hb => exact .raised (Log.quiet_append.mpr ⟨hl, hlog⟩) ho hb
  | passed hlog hq hm hb ho =>
    refine .passed ?_ (Log.quiet_append.mpr ⟨hl, hq⟩) hm hb ho
    rw [log_after, hlog, List.append_assoc]

/-- Where the log accounts for a breach, it does so of any run with that log that ends in
it. -/
theorem of_breach {r : Run α} {b : Breach} (h : Accounts raises own r)
    (hb : r.outcome = .failure (.breach b)) :
    Accounts raises own (⟨r.log, .failure (.breach b)⟩ : Run β) := by
  cases h with
  | quiet _ ho => rw [hb] at ho; cases ho
  | raised hlog ho hown =>
    rw [hb] at ho
    cases ho
    exact .raised hlog rfl hown
  | passed hlog hq hm hraises ho =>
    rw [hb] at ho
    cases ho
    exact .passed hlog hq hm hraises rfl

/-- A run that does not end in a breach has none on record. -/
theorem log_quiet {r : Run α} (h : Accounts raises own r) (hb : r.outcome.breach? = none) :
    Log.Quiet r.log := by
  cases h with
  | quiet hlog _ => exact hlog
  | raised _ ho _ => rw [ho] at hb; cases hb
  | passed _ _ _ _ ho => rw [ho] at hb; cases hb

theorem map (f : α → β) {r : Run α} (h : Accounts raises own r) :
    Accounts raises own (r.map f) := by
  rcases ho : r.outcome with a | ⟨m | b⟩
  · exact .quiet (h.log_quiet (by rw [ho]; rfl)) (by rw [outcome_map, ho]; rfl)
  · exact .quiet (h.log_quiet (by rw [ho]; rfl)) (by rw [outcome_map, ho]; rfl)
  · rw [Run.map, ho]
    exact h.of_breach ho

theorem andThen {r : Run α} {k : Success α → Run β} (h : Accounts raises own r)
    (hk : ∀ a, r.outcome = .success a → Accounts raises own (k a)) :
    Accounts raises own (r.andThen k) := by
  rcases ho : r.outcome with a | ⟨m | b⟩
  · rw [andThen_of_success ho]
    exact (hk a ho).after (h.log_quiet (by rw [ho]; rfl))
  · rw [andThen_of_failure ho]
    exact .quiet (h.log_quiet (by rw [ho]; rfl)) rfl
  · rw [andThen_of_failure ho]
    exact h.of_breach ho

theorem orElse {r : Run α} {k : Unit → Run α} (h : Accounts raises own r)
    (hk : ∀ x, Accounts raises own (k x)) : Accounts raises own (r.orElse k) := by
  rcases ho : r.outcome with a | ⟨m | b⟩
  · rw [orElse_of_success ho]
    exact h
  · rw [orElse_of_mismatch ho]
    exact (hk ()).after (h.log_quiet (by rw [ho]; rfl))
  · rw [orElse_of_breach ho]
    exact h

theorem weaken {own' : Breach → Prop} (hown : ∀ b, own b → own' b) {r : Run α}
    (h : Accounts raises own r) : Accounts raises own' r := by
  cases h with
  | quiet hlog ho => exact .quiet hlog ho
  | raised hlog ho hb => exact .raised hlog ho (hown _ hb)
  | passed hlog hq hm hraises ho => exact .passed hlog hq hm hraises ho

/-- The end of a traced node goes on record behind what is there: as the first end in a
breach where the node raised it, and as one more where it passed it on. -/
theorem traced (form : Form) {p : Parser α} {s : Text}
    (h : Accounts raises (raises form) (p.run s)) :
    Accounts raises (fun _ => False) ((p.traced form.name).run s) := by
  cases h with
  | quiet hlog ho =>
    refine .quiet ?_ ho
    rw [Parser.log_run_traced, ho]
    exact Log.quiet_cons.mpr ⟨rfl, Log.quiet_append.mpr
      ⟨hlog, Log.quiet_cons.mpr ⟨rfl, Log.quiet_nil⟩⟩⟩
  | raised hlog ho hb =>
    refine .passed (l := .enter form.name s :: (p.run s).log) (m := []) ?_
      (Log.quiet_cons.mpr ⟨rfl, hlog⟩) (fun _ h => absurd h List.not_mem_nil) hb ho
    rw [Parser.log_run_traced, ho]
    rfl
  | @passed b f l m hlog hq hm hraises ho =>
    refine .passed (l := .enter form.name s :: l) (m := m ++ [.leave form.name (some b)]) ?_
      (Log.quiet_cons.mpr ⟨rfl, hq⟩) ?_ hraises ho
    · rw [Parser.log_run_traced, ho, hlog]
      simp [Outcome.breach?, ParseError.breach?]
    · intro e he
      rcases List.mem_append.mp he with he | he
      · exact hm e he
      · exact ⟨form.name, List.mem_singleton.mp he⟩

end Run.Accounts

/-- That the log accounts for the outcome is an invariant. -/
def Invariant.accounts (raises : Form → Breach → Prop) : Invariant raises where
  Holds own _ r := r.Accounts raises own
  success _ _ := .quiet Log.quiet_nil rfl
  mismatch _ := .quiet Log.quiet_nil rfl
  breach hb := .raised Log.quiet_nil rfl hb
  map f h := h.map f
  andThen h hk := h.andThen hk
  orElse h hk := h.orElse hk
  weaken hown h := h.weaken hown
  traced form h := h.traced form

theorem Invariant.keeps_accounts_ofFn (f : Text → Outcome α) (h : ∀ b, own b) :
    (Invariant.accounts raises).Keeps own (.ofFn f) := by
  intro s
  rw [Parser.run_ofFn]
  rcases f s with a | ⟨m | b⟩
  · exact .quiet Log.quiet_nil rfl
  · exact .quiet Log.quiet_nil rfl
  · exact .raised Log.quiet_nil rfl (h b)

/-! ### What the log says -/

/-- Behind the first breach on record the log does nothing but unwind it. -/
theorem Run.Accounts.unwinds {r : Run α} (h : Accounts raises own r) {l m : Log} {label : String}
    {b : Breach} (hlog : r.log = l ++ .leave label (some b) :: m) :
    r.outcome = .failure (.breach b) ∧ Log.Unwinds b m := by
  have hmem : .leave label (some b) ∈ r.log := by
    rw [hlog]; exact List.mem_append_right _ (List.mem_cons_self ..)
  cases h with
  | quiet hquiet _ => cases hquiet _ hmem
  | raised hquiet _ _ => cases hquiet _ hmem
  | @passed b' form l' m' hlog' hl' hm' _ ho =>
    -- the event comes no earlier than the first breach
    rcases List.append_eq_append_iff.mp (hlog'.symm.trans hlog) with ⟨w, rfl, hw⟩ | ⟨w, rfl, hw⟩
    · cases w with
      | nil =>
        obtain ⟨heq, rfl⟩ := List.cons.inj hw
        cases heq
        exact ⟨ho, hm'⟩
      | cons e w =>
        obtain ⟨rfl, rfl⟩ := List.cons.inj hw
        obtain ⟨_, heq⟩ := hm' _ (List.mem_append_right _ (List.mem_cons_self ..))
        cases heq
        exact ⟨ho, fun e he => hm' e (List.mem_append_right _ (List.mem_cons_of_mem _ he))⟩
    · cases w with
      | nil =>
        obtain ⟨heq, rfl⟩ := List.cons.inj hw
        cases heq
        exact ⟨ho, hm'⟩
      | cons e w =>
        obtain ⟨rfl, -⟩ := List.cons.inj hw
        cases hl' _ (List.mem_append_right _ (List.mem_cons_self ..))

/-- The node whose end is the first breach on record is of a form that raises it. -/
theorem Run.Accounts.raises_of_quiet {r : Run α} (h : Accounts raises own r) {l m : Log}
    {form : Form} {b : Breach} (hlog : r.log = l ++ .leave form.name (some b) :: m)
    (hl : Log.Quiet l) : raises form b := by
  have hmem : .leave form.name (some b) ∈ r.log := by
    rw [hlog]; exact List.mem_append_right _ (List.mem_cons_self ..)
  cases h with
  | quiet hquiet _ => cases hquiet _ hmem
  | raised hquiet _ _ => cases hquiet _ hmem
  | passed hlog' hl' _ hraises _ =>
    have heq := hl'.cut_unique hl (by simp [Event.breach?]) (by simp [Event.breach?])
      (hlog'.symm.trans hlog)
    rw [Event.leave.injEq, Option.some.injEq] at heq
    obtain ⟨hname, rfl⟩ := heq
    exact Form.name_injective hname ▸ hraises

/-- A breach that is not the parser's own was raised by the first node on record. -/
theorem Run.Accounts.exists_raised {r : Run α} (h : Accounts raises (fun _ => False) r) {b : Breach}
    (hb : r.outcome = .failure (.breach b)) :
    ∃ l form m, r.log = l ++ .leave form.name (some b) :: m ∧ Log.Quiet l ∧ raises form b := by
  cases h with
  | quiet _ ho => rw [hb] at ho; cases ho
  | raised _ _ hown => exact hown.elim
  | passed hlog hq _ hraises ho =>
    rw [hb] at ho
    cases ho
    exact ⟨_, _, _, hlog, hq, hraises⟩

namespace Grammar

theorem accounts_watched (g : Grammar α) : (Invariant.accounts Form.Raises).Clean g.watched :=
  Invariant.holds_watched (P := fun _ => True)
    (fun f _ => Invariant.keeps_accounts_ofFn f fun _ => trivial) (fun _ _ _ h => h)
    (Or.inl trivial) g (g.leaves_of_forall fun _ => trivial)

/-- **Breaches are never absorbed.** If an invocation of any node, at any point of the
run, ends in a breach, then the parser's outcome is that breach, and nothing is invoked
behind that point. And if the parser ends in a breach, then some node was the first to
end in it, and its form is one that raises it. -/
theorem parse_of_breach (g : Grammar α) (s : Text) :
    (∀ l label b m, (g.watched.run s).log = l ++ .leave label (some b) :: m →
      g.parser.parse s = .failure (.breach b) ∧ Log.Unwinds b m ∧ Log.calls m = []) ∧
    ∀ b, g.parser.parse s = .failure (.breach b) →
      ∃ (l : Log) (form : Form) (m : Log),
        (g.watched.run s).log = l ++ .leave form.name (some b) :: m ∧
        Log.Quiet l ∧ form.Raises b := by
  have hacc := g.accounts_watched s
  constructor
  · intro l label b m hlog
    obtain ⟨ho, hm⟩ := hacc.unwinds hlog
    exact ⟨(g.parse_watched s).symm.trans ho, hm, hm.calls_eq_nil⟩
  · intro b hb
    exact hacc.exists_raised ((g.parse_watched s).trans hb)

end Grammar

end Descent
