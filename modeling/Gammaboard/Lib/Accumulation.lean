/-!
# Accumulations

The ways in which parts of a list of samples are accumulated one by one and
merged. What holds of an empty accumulator and is kept by a sample and by a merge
holds of every accumulation, of the samples in their order.
-/

namespace Gammaboard.Lib

inductive Accumulation (S : Type) where
  | new
  | push (part : Accumulation S) (sample : S)
  | merge (left right : Accumulation S)

namespace Accumulation

variable {S T E : Type}

/-- Samples pushed one after the other onto an empty accumulator. -/
def ofList (l : List S) : Accumulation S := l.foldl push new

def samples : Accumulation S → List S
  | .new => []
  | .push part sample => part.samples ++ [sample]
  | .merge left right => left.samples ++ right.samples

theorem samples_foldl (l : List S) (part : Accumulation S) :
    (l.foldl push part).samples = part.samples ++ l := by
  induction l generalizing part with
  | nil => simp
  | cons x l ih => rw [List.foldl_cons, ih, samples, List.append_assoc, List.singleton_append]

@[simp] theorem samples_ofList (l : List S) : (ofList l).samples = l := samples_foldl l .new

variable (init : Except E T) (push : T → S → Except E T) (merge : T → T → Except E T)

def run : Accumulation S → Except E T
  | .new => init
  | .push part sample => do
    let t ← part.run
    push t sample
  | .merge left right => do
    let t ← left.run
    let u ← right.run
    merge t u

/-- What an empty accumulator satisfies and each step keeps. -/
structure Keeps (I : List S → T → Prop) : Prop where
  init : ∀ {t}, init = .ok t → I [] t
  push : ∀ {l t x t'}, I l t → push t x = .ok t' → I (l ++ [x]) t'
  merge : ∀ {l t l' u t'}, I l t → I l' u → merge t u = .ok t' → I (l ++ l') t'

variable {init push merge} {I : List S → T → Prop}

theorem Keeps.run (keeps : Keeps init push merge I) :
    ∀ {tree : Accumulation S} {t : T}, tree.run init push merge = .ok t → I tree.samples t
  | .new, _, h => keeps.init h
  | .push part sample, t, h => by
    unfold Accumulation.run at h
    cases hpart : part.run init push merge with
    | error e =>
      rw [hpart] at h
      cases h
    | ok u =>
      rw [hpart] at h
      exact keeps.push (keeps.run hpart) h
  | .merge left right, t, h => by
    unfold Accumulation.run at h
    cases hleft : left.run init push merge with
    | error e =>
      rw [hleft] at h
      cases h
    | ok u =>
      cases hright : right.run init push merge with
      | error e =>
        rw [hleft, hright] at h
        cases h
      | ok v =>
        rw [hleft, hright] at h
        exact keeps.merge (keeps.run hleft) (keeps.run hright) h

/-- Every step succeeds as long as the samples so far are acceptable. -/
structure Succeeds (init : Except E T) (push : T → S → Except E T) (merge : T → T → Except E T)
    (I : List S → T → Prop) (Q : List S → Prop) : Prop where
  left : ∀ {l l'}, Q (l ++ l') → Q l
  right : ∀ {l l'}, Q (l ++ l') → Q l'
  init : Q [] → ∃ t, init = .ok t
  push : ∀ {l t x}, I l t → Q (l ++ [x]) → ∃ t', push t x = .ok t'
  merge : ∀ {l t l' u}, I l t → I l' u → Q (l ++ l') → ∃ t', merge t u = .ok t'

theorem Succeeds.run {Q : List S → Prop} (succeeds : Succeeds init push merge I Q)
    (keeps : Keeps init push merge I) :
    ∀ {tree : Accumulation S}, Q tree.samples → ∃ t, tree.run init push merge = .ok t
  | .new, h => succeeds.init h
  | .push part sample, h => by
    obtain ⟨t, ht⟩ : ∃ t, part.run init push merge = .ok t := succeeds.run keeps (succeeds.left h)
    obtain ⟨t', ht'⟩ := succeeds.push (keeps.run ht) h
    refine ⟨t', ?_⟩
    rw [Accumulation.run, ht]
    exact ht'
  | .merge left right, h => by
    obtain ⟨t, ht⟩ : ∃ t, left.run init push merge = .ok t := succeeds.run keeps (succeeds.left h)
    obtain ⟨u, hu⟩ : ∃ u, right.run init push merge = .ok u :=
      succeeds.run keeps (succeeds.right h)
    obtain ⟨t', ht'⟩ := succeeds.merge (keeps.run ht) (keeps.run hu) h
    refine ⟨t', ?_⟩
    rw [Accumulation.run, ht, hu]
    exact ht'

end Accumulation

end Gammaboard.Lib
