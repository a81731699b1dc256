import Mathlib.Data.List.Basic
import Mathlib.Tactic.Common

/-!
# Results

What a computation that succeeds has computed on its way. A list of calls has its results
when all succeed, and nothing when one does not.
-/

namespace Gammaboard.Lib

theorem map_eq_ok {ε α β : Type} {x : Except ε α} {f : α → β} {b : β} (h : x.map f = .ok b) :
    ∃ a, x = .ok a ∧ f a = b := by
  cases x with
  | error e => cases h
  | ok a => exact ⟨a, rfl, Except.ok.inj h⟩

/-- What a computation that succeeded has computed on its way. -/
theorem bind_eq_ok {ε α β : Type} {x : Except ε α} {f : α → Except ε β} {b : β}
    (h : (x >>= f) = .ok b) : ∃ a, x = .ok a ∧ f a = .ok b := by
  cases x with
  | error e => cases h
  | ok a => exact ⟨a, rfl, h⟩

theorem bind_eq_ok_iff {ε α β : Type} {x : Except ε α} {f : α → Except ε β} {b : β} :
    (x >>= f) = .ok b ↔ ∃ a, x = .ok a ∧ f a = .ok b := by
  constructor
  · exact bind_eq_ok
  · rintro ⟨a, rfl, h⟩
    exact h

/-- Two computations that fail with one error, or succeed with related results. -/
inductive Agree {ε α β : Type} (R : α → β → Prop) : Except ε α → Except ε β → Prop
  | error (e : ε) : Agree R (.error e) (.error e)
  | ok {a : α} {b : β} (h : R a b) : Agree R (.ok a) (.ok b)

namespace Agree

variable {ε α β γ δ : Type} {R : α → β → Prop} {S : γ → δ → Prop}

theorem refl {R : α → α → Prop} {x : Except ε α} (h : ∀ a, R a a) : Agree R x x := by
  cases x with
  | error e => exact .error e
  | ok a => exact .ok (h a)

theorem bind {x : Except ε α} {y : Except ε β} {f : α → Except ε γ} {g : β → Except ε δ}
    (h : Agree R x y) (hfg : ∀ a b, R a b → Agree S (f a) (g b)) : Agree S (x >>= f) (y >>= g) := by
  cases h with
  | error e => exact .error e
  | ok h => exact hfg _ _ h

theorem ok_left {x : Except ε α} {y : Except ε β} {a : α} (h : Agree R x y) (hx : x = .ok a) :
    ∃ b, y = .ok b ∧ R a b := by
  cases h with
  | error e => cases hx
  | ok h =>
    cases hx
    exact ⟨_, rfl, h⟩

end Agree

theorem mapM_eq_ok {ε α β : Type} {f : α → Except ε β} {g : α → β} :
    ∀ {l : List α}, (∀ a ∈ l, f a = .ok (g a)) → l.mapM f = .ok (l.map g)
  | [], _ => rfl
  | a :: l, h => by
    rw [List.mapM_cons, h a List.mem_cons_self,
      mapM_eq_ok fun b hb => h b (List.mem_cons_of_mem _ hb)]
    rfl

theorem mapM_congr {ε α β : Type} {f g : α → Except ε β} :
    ∀ {l : List α}, (∀ a ∈ l, f a = g a) → l.mapM f = l.mapM g
  | [], _ => rfl
  | a :: l, h => by
    rw [List.mapM_cons, List.mapM_cons, h a List.mem_cons_self,
      mapM_congr fun b hb => h b (List.mem_cons_of_mem _ hb)]

theorem ok_of_mapM {ε α β : Type} {f : α → Except ε β} :
    ∀ {l : List α} {r : List β}, l.mapM f = .ok r → ∀ {a : α}, a ∈ l → ∃ b, f a = .ok b
  | [], _, _, _, ha => absurd ha List.not_mem_nil
  | a :: l, r, h, c, hc => by
    rw [List.mapM_cons] at h
    cases hf : f a with
    | error e =>
      rw [hf] at h
      cases h
    | ok b =>
      rw [hf] at h
      cases hl : l.mapM f with
      | error e =>
        rw [hl] at h
        cases h
      | ok others =>
        rcases List.mem_cons.1 hc with rfl | hc
        · exact ⟨b, hf⟩
        · exact ok_of_mapM hl hc

/-- What a call returns is among the results. -/
theorem mem_of_mapM {ε α β : Type} {f : α → Except ε β} :
    ∀ {l : List α} {r : List β}, l.mapM f = .ok r → ∀ {a : α}, a ∈ l → ∃ b ∈ r, f a = .ok b
  | a :: l, r, h, c, hc => by
    rw [List.mapM_cons] at h
    obtain ⟨b, hb, h⟩ := bind_eq_ok h
    obtain ⟨others, hothers, h⟩ := bind_eq_ok h
    cases h
    rcases List.mem_cons.1 hc with rfl | hc
    · exact ⟨b, List.mem_cons_self, hb⟩
    · obtain ⟨d, hd, hfd⟩ := mem_of_mapM hothers hc
      exact ⟨d, List.mem_cons_of_mem _ hd, hfd⟩

theorem mapM_eq_some {α β : Type} {f : α → Option β} {g : α → β} :
    ∀ {l : List α}, (∀ a ∈ l, f a = some (g a)) → l.mapM f = some (l.map g)
  | [], _ => rfl
  | a :: l, h => by
    rw [List.mapM_cons, h a List.mem_cons_self,
      mapM_eq_some fun b hb => h b (List.mem_cons_of_mem _ hb)]
    rfl

theorem mapM_eq_none {α β : Type} {f : α → Option β} {a : α} (hnone : f a = none) :
    ∀ {l : List α}, a ∈ l → l.mapM f = none
  | b :: l, h => by
    rw [List.mapM_cons]
    cases hf : f b with
    | none => rfl
    | some c =>
      have hmem : a ∈ l := (List.mem_cons.1 h).resolve_left fun heq => by
        rw [← heq, hnone] at hf
        cases hf
      rw [mapM_eq_none hnone hmem]
      rfl

end Gammaboard.Lib
