/-!
# Runs of a step function

A system is a total step function over labels; a label that is not enabled
leaves the state as it is. `run` folds the step over a list of labels, and
`Along` says that every label of the list meets a condition in the state where
it is taken. An invariant is proved for one step and holds of every run.
-/

namespace Gammaboard.Lib

universe u v

variable {σ : Type u} {ε : Type v} (step : σ → ε → σ)

/-- The state after the labels. -/
def run (s : σ) (es : List ε) : σ := es.foldl step s

/-- Every label meets `ok` in the state where it is taken. -/
def Along (ok : σ → ε → Prop) : σ → List ε → Prop
  | _, [] => True
  | s, e :: es => ok s e ∧ Along ok (step s e) es

instance (ok : σ → ε → Prop) [∀ s e, Decidable (ok s e)] :
    ∀ (s : σ) (es : List ε), Decidable (Along step ok s es)
  | _, [] => inferInstanceAs (Decidable True)
  | s, e :: es =>
    have := instDecidableAlong ok (step s e) es
    inferInstanceAs (Decidable (ok s e ∧ Along step ok (step s e) es))

@[simp] theorem run_nil (s : σ) : run step s [] = s := rfl

@[simp] theorem run_cons (s : σ) (e : ε) (es : List ε) :
    run step s (e :: es) = run step (step s e) es := rfl

theorem run_append (s : σ) (es fs : List ε) :
    run step s (es ++ fs) = run step (run step s es) fs := List.foldl_append

theorem along_append {ok : σ → ε → Prop} {s : σ} {es fs : List ε} :
    Along step ok s (es ++ fs) ↔ Along step ok s es ∧ Along step ok (run step s es) fs := by
  induction es generalizing s with
  | nil => simp [Along]
  | cons e es ih => simp [Along, ih, and_assoc]

theorem Along.mono {ok ok' : σ → ε → Prop} (h : ∀ s e, ok s e → ok' s e) {s : σ} {es : List ε}
    (hes : Along step ok s es) : Along step ok' s es := by
  induction es generalizing s with
  | nil => trivial
  | cons e es ih => exact ⟨h s e hes.1, ih hes.2⟩

/-- A condition on the labels alone. -/
theorem along_of_forall {ok : ε → Prop} {s : σ} {es : List ε} (h : ∀ e ∈ es, ok e) :
    Along step (fun _ e => ok e) s es := by
  induction es generalizing s with
  | nil => trivial
  | cons e es ih =>
    exact ⟨h e List.mem_cons_self, ih fun e' he' => h e' (List.mem_cons_of_mem _ he')⟩

variable {step}

/-- What holds at the start and is kept by every step that meets the condition holds after
every run whose steps all meet it. -/
theorem run_invariant {ok : σ → ε → Prop} {I : σ → Prop}
    (hstep : ∀ s e, I s → ok s e → I (step s e)) {s : σ} {es : List ε}
    (hs : I s) (hes : Along step ok s es) : I (run step s es) := by
  induction es generalizing s with
  | nil => exact hs
  | cons e es ih => exact ih (hstep s e hs hes.1) hes.2

/-- `run_invariant` for a system every step of which keeps the invariant. -/
theorem run_invariant' {I : σ → Prop} (hstep : ∀ s e, I s → I (step s e)) {s : σ}
    (es : List ε) (hs : I s) : I (run step s es) := by
  induction es generalizing s with
  | nil => exact hs
  | cons e es ih => exact ih (hstep s e hs)

/-- A reflexive and transitive relation that every step from an invariant state refines
relates the ends of every run. -/
theorem run_rel {I : σ → Prop} {R : σ → σ → Prop} (hrefl : ∀ s, R s s)
    (htrans : ∀ a b c, R a b → R b c → R a c) (hinv : ∀ s e, I s → I (step s e))
    (hstep : ∀ s e, I s → R s (step s e)) {s : σ} (es : List ε) (hs : I s) :
    R s (run step s es) := by
  induction es generalizing s with
  | nil => exact hrefl s
  | cons e es ih => exact htrans _ _ _ (hstep s e hs) (ih (hinv s e hs))

end Gammaboard.Lib
