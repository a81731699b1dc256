import Gammaboard.Config.RunDefinition
import Gammaboard.Lib.Results
import Mathlib.Data.List.Forall2

/-!
# The sources of a definition

Where the child sources of a document stand, and what rewriting them one by one leaves as it was.
-/

namespace Gammaboard.Config

open Lib (bind_eq_ok)

variable {F D : Type}

def Toml.runOf (v : Toml F D) : Option (Toml F D) := v.get "run"

/-- The child sources of a document, that of `child` first. -/
def Toml.sources (v : Toml F D) : List (Toml F D) :=
  ((v.get "child").bind Toml.runOf).toList
    ++ (((v.get "children").bind Toml.asArray).getD []).filterMap Toml.runOf

section

variable {f g : Toml F D → Except String (Toml F D)}

/-- A rewritten run, or no run. -/
inductive RunMapped (f : Toml F D → Except String (Toml F D)) (v v' : Toml F D) : Prop where
  | absent (h : v.runOf = none) (hsame : v' = v)
  | rewritten {entries : List (String × Toml F D)} {source source' : Toml F D}
      (hv : v = .table entries) (hrun : entries.lookup "run" = some source)
      (hf : f source = .ok source') (hv' : v' = .table (setKey "run" source' entries))

theorem RunMapped.runs {v v' : Toml F D} (h : RunMapped f v v') :
    (v.runOf = none ∧ v'.runOf = none) ∨
      ∃ s s', v.runOf = some s ∧ v'.runOf = some s' ∧ f s = .ok s' := by
  cases h with
  | absent hrun hsame => exact .inl ⟨hrun, by rw [hsame]; exact hrun⟩
  | rewritten hv hrun hf hv' =>
    subst hv hv'
    exact .inr ⟨_, _, hrun, lookup_setKey hrun, hf⟩

theorem RunMapped.congr {v v' : Toml F D} (h : RunMapped f v v')
    (hg : ∀ s s', v.runOf = some s → f s = .ok s' → g s = .ok s') : RunMapped g v v' := by
  cases h with
  | absent hrun hsame => exact .absent hrun hsame
  | rewritten hv hrun hf hv' =>
    exact .rewritten hv hrun (hg _ _ (by rw [hv]; exact hrun) hf) hv'

theorem mapM_congr {α β : Type} {f g : α → Except String β} {xs : List α}
    (h : ∀ x ∈ xs, f x = g x) : xs.mapM f = xs.mapM g := by
  induction xs with
  | nil => rfl
  | cons x xs ih =>
    rw [List.mapM_cons, List.mapM_cons, h x List.mem_cons_self,
      ih fun y hy => h y (List.mem_cons_of_mem _ hy)]

/-- A document and the same with its sources rewritten. -/
structure SourcesMapped (f : Toml F D → Except String (Toml F D))
    (entries entries' : List (String × Toml F D)) : Prop where
  keys : entries'.map Prod.fst = entries.map Prod.fst
  others : ∀ key, key ≠ "child" → key ≠ "children" → entries'.lookup key = entries.lookup key
  child : entries.lookup "child" = none ∧ entries'.lookup "child" = none ∨
    ∃ c c', entries.lookup "child" = some c ∧ entries'.lookup "child" = some c' ∧ RunMapped f c c'
  children : (∃ items items', entries.lookup "children" = some (.array items) ∧
      entries'.lookup "children" = some (.array items') ∧ List.Forall₂ (RunMapped f) items items') ∨
    (entries'.lookup "children" = entries.lookup "children" ∧
      ∀ items, entries.lookup "children" ≠ some (.array items))

variable {entries entries' : List (String × Toml F D)}

/-- The sources are rewritten one by one. -/
theorem SourcesMapped.sources (h : SourcesMapped f entries entries') :
    List.Forall₂ (fun s s' => f s = .ok s') (Toml.table entries).sources
      (Toml.table entries').sources := by
  apply List.rel_append
  · rcases h.child with ⟨hc, hc'⟩ | ⟨c, c', hc, hc', hrun⟩
    · have hget : (Toml.table entries).get "child" = none := hc
      have hget' : (Toml.table entries').get "child" = none := hc'
      rw [hget, hget']
      exact .nil
    · have hget : (Toml.table entries).get "child" = some c := hc
      have hget' : (Toml.table entries').get "child" = some c' := hc'
      rw [hget, hget', Option.bind_some, Option.bind_some]
      rcases hrun.runs with ⟨hs, hs'⟩ | ⟨s, s', hs, hs', hf⟩
      · rw [hs, hs']
        exact .nil
      · rw [hs, hs']
        exact .cons hf .nil
  · rcases h.children with ⟨items, items', hi, hi', hitems⟩ | ⟨hsame, hother⟩
    · have hget : (Toml.table entries).get "children" = some (.array items) := hi
      have hget' : (Toml.table entries').get "children" = some (.array items') := hi'
      rw [hget, hget']
      show List.Forall₂ _ (items.filterMap Toml.runOf) (items'.filterMap Toml.runOf)
      clear hi hi' hget hget'
      induction hitems with
      | nil => exact .nil
      | cons hrun _ ih =>
        rcases hrun.runs with ⟨hs, hs'⟩ | ⟨s, s', hs, hs', hf⟩
        · rw [List.filterMap_cons_none hs, List.filterMap_cons_none hs']
          exact ih
        · rw [List.filterMap_cons_some hs, List.filterMap_cons_some hs']
          exact .cons hf ih
    · have hnone : ∀ v : Option (Toml F D), (∀ items, v ≠ some (.array items)) →
          (v.bind Toml.asArray).getD [] = [] := by
        intro v hv
        cases v with
        | none => rfl
        | some v =>
          cases v <;> first | rfl | exact absurd rfl (hv _)
      have hget : (Toml.table entries').get "children" = (Toml.table entries).get "children" := hsame
      rw [hget, hnone ((Toml.table entries).get "children") hother]
      exact .nil

end

end Gammaboard.Config
