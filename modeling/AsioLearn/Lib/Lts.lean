import Mathlib.Data.List.Basic
import Mathlib.Tactic.TypeStar

/-!
# Runs of a labelled transition system

A system is a partial step function `step : σ → ε → Option σ`: the event says which party moves
and how, `none` says that it cannot. A run is a list of events (`run`), so a theorem about every
run is a theorem about every interleaving.

Results:
* `run_append`: runs compose.
* `meets_of_forall`, `meets_before`: conditions on the events alone, and on the start of a run.
* `run_invariant`: what every step preserves holds after every run.
* `run_invariant_of_meets`: the same, where only steps meeting a condition preserve it and every
  step of the run meets it (`Meets`).
* `meets_iff`: when the first step that does not meet the condition also leads to a bad state, the
  condition is exact: all steps meet it if and only if every state on the way is good.
* `meets_iff_step`, `meets_iff_each`: the same for the steps that are taken, and for what each step
  does, and not only for where it leads.
* `run_refines`: a step-by-step simulation carries over to runs.
* `outputs`, `run_outputs`: what the steps of a run put out, and what relates it to the state after.
* `run_balance`: what comes in is put out, but for what the state holds back.
* `CanReach`: some run leads to a state with a property, with its rules `CanReach.here`,
  `CanReach.before` and `CanReach.trans`.
-/

namespace AsioLearn.Lib.Lts

variable {σ ε : Type*}

/-- Take the events in order; `none` as soon as one cannot be taken. -/
def run (step : σ → ε → Option σ) : σ → List ε → Option σ
  | s, [] => some s
  | s, e :: es => (step s e).bind fun s' => run step s' es

/-- Every step of the run meets `C`, a condition on the state before it and the event. -/
def Meets (step : σ → ε → Option σ) (C : σ → ε → Prop) : σ → List ε → Prop
  | _, [] => True
  | s, e :: es => C s e ∧ ∀ s', step s e = some s' → Meets step C s' es

variable {step : σ → ε → Option σ} {C : σ → ε → Prop}

@[simp]
theorem run_nil (s : σ) : run step s [] = some s := rfl

theorem run_cons (s : σ) (e : ε) (es : List ε) :
    run step s (e :: es) = (step s e).bind fun s' => run step s' es := rfl

theorem run_cons_eq_some {s t : σ} {e : ε} {es : List ε} :
    run step s (e :: es) = some t ↔ ∃ s', step s e = some s' ∧ run step s' es = some t := by
  rw [run_cons, Option.bind_eq_some_iff]

theorem run_append (s : σ) (es fs : List ε) :
    run step s (es ++ fs) = (run step s es).bind fun s' => run step s' fs := by
  induction es generalizing s with
  | nil => rfl
  | cons e es ih =>
    rw [List.cons_append, run_cons, run_cons]
    cases step s e with
    | none => rfl
    | some s' => exact ih s'

/-- One step more. -/
theorem run_snoc {s t u : σ} {e : ε} {es : List ε} (h : run step s es = some t)
    (hstep : step t e = some u) : run step s (es ++ [e]) = some u := by
  rw [run_append, h, Option.bind_some, run_cons, hstep]
  rfl

/-- A condition on the events alone. -/
theorem meets_of_forall {D : ε → Prop} {s : σ} {es : List ε} (h : ∀ e ∈ es, D e) :
    Meets step (fun _ e => D e) s es := by
  induction es generalizing s with
  | nil => trivial
  | cons e es ih =>
    exact ⟨h e List.mem_cons_self, fun s' _ => ih fun e' he' => h e' (List.mem_cons_of_mem e he')⟩

theorem meets_cons {s s' : σ} {e : ε} {es : List ε} (hC : C s e) (h : step s e = some s')
    (hm : Meets step C s' es) : Meets step C s (e :: es) := by
  refine ⟨hC, fun u hu => ?_⟩
  obtain rfl := Option.some.inj (h.symm.trans hu)
  exact hm

theorem meets_snoc {s t : σ} {e : ε} {es : List ε} (hm : Meets step C s es)
    (h : run step s es = some t) (hC : C t e) : Meets step C s (es ++ [e]) := by
  induction es generalizing s with
  | nil =>
    obtain rfl := Option.some.inj h
    exact ⟨hC, fun _ _ => trivial⟩
  | cons e' es ih =>
    obtain ⟨s', h1, h2⟩ := run_cons_eq_some.mp h
    exact meets_cons hm.1 h1 (ih (hm.2 s' h1) h2)

/-- The condition of a run can be tried out. -/
instance decidableMeets [∀ s e, Decidable (C s e)] :
    ∀ (s : σ) (es : List ε), Decidable (Meets step C s es)
  | _, [] => isTrue trivial
  | s, e :: es =>
    match h : step s e with
    | none =>
      decidable_of_iff (C s e) ⟨fun hC => ⟨hC, fun s' hs => by rw [h] at hs; cases hs⟩, And.left⟩
    | some s' =>
      have := decidableMeets s' es
      decidable_of_iff (C s e ∧ Meets step C s' es)
        ⟨fun hm => meets_cons hm.1 h hm.2, fun hm => ⟨hm.1, hm.2 s' h⟩⟩

theorem meets_before {s : σ} {es fs : List ε} (hm : Meets step C s (es ++ fs)) :
    Meets step C s es := by
  induction es generalizing s with
  | nil => trivial
  | cons e es ih => exact ⟨hm.1, fun s' h => ih (hm.2 s' h)⟩

theorem meets_after {s t : σ} {es fs : List ε} (hm : Meets step C s (es ++ fs))
    (h : run step s es = some t) : Meets step C t fs := by
  induction es generalizing s with
  | nil =>
    obtain rfl := Option.some.inj h
    exact hm
  | cons e es ih =>
    obtain ⟨s', h1, h2⟩ := run_cons_eq_some.mp h
    exact ih (hm.2 s' h1) h2

/-- **Invariant rule**, for the runs all of whose steps meet `C`. -/
theorem run_invariant_of_meets {I : σ → Prop}
    (hstep : ∀ s e s', I s → C s e → step s e = some s' → I s') {s t : σ} {es : List ε}
    (h0 : I s) (hm : Meets step C s es) (h : run step s es = some t) : I t := by
  induction es generalizing s with
  | nil =>
    obtain rfl := Option.some.inj h
    exact h0
  | cons e es ih =>
    obtain ⟨s', h1, h2⟩ := run_cons_eq_some.mp h
    exact ih (hstep s e s' h0 hm.1 h1) (hm.2 s' h1) h2

/-- **Invariant rule**: what every step preserves holds after every run. -/
theorem run_invariant {I : σ → Prop} (hstep : ∀ s e s', I s → step s e = some s' → I s')
    {s t : σ} {es : List ε} (h0 : I s) (h : run step s es = some t) : I t :=
  run_invariant_of_meets (fun s e s' hI _ => hstep s e s' hI) h0
    (meets_of_forall (D := fun _ => True) fun _ _ => trivial) h

/-- **An exact condition.** Steps meeting `C` keep the invariant, the invariant makes a state good
(`W`), and a step that does not meet `C` leads to a state that is not. -/
theorem meets_iff {I W : σ → Prop}
    (hstep : ∀ s e s', I s → C s e → step s e = some s' → I s') (hgood : ∀ s, I s → W s)
    (hbad : ∀ s e s', I s → ¬ C s e → step s e = some s' → ¬ W s') {s t : σ} {es : List ε}
    (h0 : I s) (h : run step s es = some t) :
    (∀ es₁ es₂ u, es = es₁ ++ es₂ → run step s es₁ = some u → W u) ↔ Meets step C s es := by
  constructor
  · intro hall
    induction es generalizing s with
    | nil => trivial
    | cons e es ih =>
      obtain ⟨s', h1, h2⟩ := run_cons_eq_some.mp h
      have hC : C s e := by
        by_contra hC
        refine hbad s e s' h0 hC h1 (hall [e] es s' rfl ?_)
        exact run_cons_eq_some.mpr ⟨s', h1, rfl⟩
      refine ⟨hC, fun u hu => ?_⟩
      obtain rfl := Option.some.inj (h1.symm.trans hu)
      refine ih (hstep s e s' h0 hC h1) h2 fun es₁ es₂ u hes hu => ?_
      exact hall (e :: es₁) es₂ u (by rw [hes, List.cons_append])
        (run_cons_eq_some.mpr ⟨s', h1, hu⟩)
  · rintro hm es₁ es₂ u rfl hu
    exact hgood u (run_invariant_of_meets hstep h0 (meets_before hm) hu)

/-- **An exact condition on the steps taken.** Steps that meet `C` keep the invariant, and in a
state that has it a step is good (`W`) exactly when it meets `C`. -/
theorem meets_iff_step {I : σ → Prop} {W : σ → ε → σ → Prop}
    (hstep : ∀ s e s', I s → C s e → step s e = some s' → I s')
    (hiff : ∀ s e s', I s → step s e = some s' → (W s e s' ↔ C s e)) {s t : σ} {es : List ε}
    (h0 : I s) (h : run step s es = some t) :
    (∀ es₁ e es₂ u v, es = es₁ ++ e :: es₂ → run step s es₁ = some u → step u e = some v →
      W u e v) ↔ Meets step C s es := by
  constructor
  · intro hall
    induction es generalizing s with
    | nil => trivial
    | cons e es ih =>
      obtain ⟨s', h1, h2⟩ := run_cons_eq_some.mp h
      have hC : C s e := (hiff s e s' h0 h1).mp (hall [] e es s s' rfl rfl h1)
      refine ⟨hC, fun u hu => ?_⟩
      obtain rfl := Option.some.inj (h1.symm.trans hu)
      refine ih (hstep s e s' h0 hC h1) h2 fun es₁ e' es₂ u v hes hu hv => ?_
      exact hall (e :: es₁) e' es₂ u v (by rw [hes, List.cons_append])
        (run_cons_eq_some.mpr ⟨s', h1, hu⟩) hv
  · rintro hm es₁ e es₂ u v rfl hu hv
    have hI : I u := run_invariant_of_meets hstep h0 (meets_before hm) hu
    exact (hiff u e v hI hv).mpr (meets_after hm hu).1

/-- **An exact condition on each step.** Steps that meet `C` keep the invariant, and in a state that
has it a step does what it should (`P`) exactly when it meets `C`. The last step need not lead
anywhere. -/
theorem meets_iff_each {I : σ → Prop} {P : σ → ε → Prop}
    (hstep : ∀ s e s', I s → C s e → step s e = some s' → I s')
    (hiff : ∀ s e, I s → (P s e ↔ C s e)) {s : σ} {es : List ε} (h0 : I s) :
    (∀ es₁ es₂ u, es = es₁ ++ es₂ → run step s es₁ = some u → I u ∧ ∀ e ∈ es₂.head?, P u e) ↔
      Meets step C s es := by
  constructor
  · intro hall
    induction es generalizing s with
    | nil => trivial
    | cons e es ih =>
      have hC : C s e := (hiff s e h0).mp ((hall [] (e :: es) s rfl rfl).2 e rfl)
      refine ⟨hC, fun s' h1 => ih (hstep s e s' h0 hC h1) fun es₁ es₂ u hes hu => ?_⟩
      exact hall (e :: es₁) es₂ u (by rw [hes, List.cons_append])
        (run_cons_eq_some.mpr ⟨s', h1, hu⟩)
  · rintro hm es₁ es₂ u rfl hu
    have hI : I u := run_invariant_of_meets hstep h0 (meets_before hm) hu
    refine ⟨hI, fun e he => (hiff u e hI).mpr ?_⟩
    have hrest := meets_after hm hu
    cases es₂ with
    | nil => cases he
    | cons e' es₂ =>
      obtain rfl := Option.some.inj he
      exact hrest.1

/-- **Simulation.** If every step of a system with invariant `I` is a run of an abstract system,
then so is every run. -/
theorem run_refines {τ ζ : Type*} {astep : τ → ζ → Option τ} {abs : σ → τ} {I : σ → Prop}
    (hsim : ∀ s e s', I s → step s e = some s' →
      I s' ∧ ∃ os, run astep (abs s) os = some (abs s')) {s t : σ} {es : List ε} (h0 : I s)
    (h : run step s es = some t) : I t ∧ ∃ os, run astep (abs s) os = some (abs t) := by
  induction es generalizing s with
  | nil =>
    obtain rfl := Option.some.inj h
    exact ⟨h0, [], rfl⟩
  | cons e es ih =>
    obtain ⟨s', h1, h2⟩ := run_cons_eq_some.mp h
    obtain ⟨hI, os, hos⟩ := hsim s e s' h0 h1
    obtain ⟨hIt, os', hos'⟩ := ih hI h2
    refine ⟨hIt, os ++ os', ?_⟩
    rw [run_append, hos]
    exact hos'

/-! ## What a run puts out -/

/-- What the steps of a run put out, in order; the steps behind one that cannot be taken put out
nothing. -/
def outputs {α : Type*} (step : σ → ε → Option σ) (out : σ → ε → List α) : σ → List ε → List α
  | _, [] => []
  | s, e :: es =>
    match step s e with
    | none => out s e
    | some s' => out s e ++ outputs step out s' es

theorem outputs_cons {α : Type*} {out : σ → ε → List α} {s s' : σ} {e : ε} {es : List ε}
    (h : step s e = some s') :
    outputs step out s (e :: es) = out s e ++ outputs step out s' es := by
  rw [outputs, h]

/-- **History rule**: a relation of what has been put out to the state, kept by every step, holds
after every run. -/
theorem run_outputs {α : Type*} {out : σ → ε → List α} {R : List α → σ → Prop}
    (hstep : ∀ xs s e s', R xs s → step s e = some s' → R (xs ++ out s e) s') {s t : σ}
    {es : List ε} (h0 : R [] s) (h : run step s es = some t) : R (outputs step out s es) t := by
  suffices hall : ∀ (es : List ε) (xs : List α) s, R xs s → run step s es = some t →
      R (xs ++ outputs step out s es) t from hall es [] s h0 h
  intro es
  induction es with
  | nil =>
    intro xs s hs h
    obtain rfl := Option.some.inj h
    rwa [outputs, List.append_nil]
  | cons e es ih =>
    intro xs s hs h
    obtain ⟨s', h1, h2⟩ := run_cons_eq_some.mp h
    rw [outputs_cons h1, ← List.append_assoc]
    exact ih _ s' (hstep xs s e s' hs h1) h2

/-- **Balance rule**: what comes in with the events is put out in that order, but for what the state
holds back. -/
theorem run_balance {α : Type*} {out : σ → ε → List α} {inp : ε → List α} {hold : σ → List α}
    (hstep : ∀ s e s', step s e = some s' → out s e ++ hold s' = hold s ++ inp e) {s t : σ}
    {es : List ε} (h : run step s es = some t) :
    outputs step out s es ++ hold t = hold s ++ es.flatMap inp := by
  induction es generalizing s with
  | nil =>
    obtain rfl := Option.some.inj h
    rw [outputs, List.nil_append, List.flatMap_nil, List.append_nil]
  | cons e es ih =>
    obtain ⟨s', h1, h2⟩ := run_cons_eq_some.mp h
    rw [outputs_cons h1, List.append_assoc, ih h2, ← List.append_assoc, hstep s e s' h1,
      List.flatMap_cons, List.append_assoc]

/-- A part of what a run puts out. -/
theorem outputs_filterMap {α β : Type*} (f : α → Option β) (out : σ → ε → List α) (s : σ)
    (es : List ε) : outputs step (fun s e => (out s e).filterMap f) s es =
      (outputs step out s es).filterMap f := by
  induction es generalizing s with
  | nil => rfl
  | cons e es ih =>
    unfold outputs
    cases step s e with
    | none => rfl
    | some s' =>
      dsimp only
      rw [ih s', List.filterMap_append]

/-! ## Reaching a state -/

/-- Some run leads from `s` to a state in `P`. -/
def CanReach (step : σ → ε → Option σ) (P : σ → Prop) (s : σ) : Prop :=
  ∃ es t, run step s es = some t ∧ P t

theorem CanReach.here {P : σ → Prop} {s : σ} (h : P s) : CanReach step P s := ⟨[], s, rfl, h⟩

/-- One step nearer. -/
theorem CanReach.before {P : σ → Prop} {s t : σ} {e : ε} (h : step s e = some t)
    (ht : CanReach step P t) : CanReach step P s := by
  obtain ⟨es, u, hrun, hu⟩ := ht
  exact ⟨e :: es, u, run_cons_eq_some.mpr ⟨t, h, hrun⟩, hu⟩

theorem CanReach.trans {P Q : σ → Prop} {s : σ} (h : CanReach step P s)
    (hPQ : ∀ t, P t → CanReach step Q t) : CanReach step Q s := by
  obtain ⟨es, t, hrun, ht⟩ := h
  obtain ⟨fs, u, hrun', hu⟩ := hPQ t ht
  refine ⟨es ++ fs, u, ?_, hu⟩
  rw [run_append, hrun]
  exact hrun'

end AsioLearn.Lib.Lts
