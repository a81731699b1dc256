import Mathlib.Data.List.Basic
import Mathlib.Tactic.Common

/-!
# Training in windows

A model that samples are drawn from, that is told a value for each of them, and that is updated
after every window of samples. What it is told takes effect with the update. So the samples of a
window do not depend on how draws and values are mixed inside it, and neither does the model.
-/

namespace Gammaboard.Lib

variable {M R S V E : Type}

theorem zip_append_longer {xs ys : List S} {ws : List V} (h : ws.length ≤ xs.length) :
    (xs ++ ys).zip ws = xs.zip ws := by
  induction xs generalizing ws with
  | nil =>
    obtain rfl : ws = [] := List.length_eq_zero_iff.1 (Nat.le_zero.1 h)
    rw [List.zip_nil_right, List.zip_nil_right]
  | cons x xs ih =>
    cases ws with
    | nil => rfl
    | cons w ws =>
      rw [List.cons_append, List.zip_cons_cons, List.zip_cons_cons, ih (Nat.le_of_succ_le_succ h)]

theorem zip_append_split {xs : List S} {ws us : List V} (h : ws.length ≤ xs.length) :
    xs.zip (ws ++ us) = xs.zip ws ++ (xs.drop ws.length).zip us := by
  induction xs generalizing ws with
  | nil =>
    obtain rfl : ws = [] := List.length_eq_zero_iff.1 (Nat.le_zero.1 h)
    rfl
  | cons x xs ih =>
    cases ws with
    | nil => rfl
    | cons w ws =>
      rw [List.cons_append, List.zip_cons_cons, List.zip_cons_cons, ih (Nat.le_of_succ_le_succ h)]
      rfl

/-- The operations of a model, with the generator its samples come from. -/
structure Learner (M R S V E : Type) where
  sample : M → R → S × R
  observe : M → S → V → Except E M
  update : M → Nat → M
  /-- Values take effect with the next update. -/
  sample_observe : ∀ {m m' : M} {s : S} {v : V}, observe m s v = .ok m' →
    ∀ r, sample m' r = sample m r

namespace Learner

variable (L : Learner M R S V E)

def draws (m : M) : Nat → R → List S × R
  | 0, r => ([], r)
  | n + 1, r => ((L.sample m r).1 :: (draws m n (L.sample m r).2).1, (draws m n (L.sample m r).2).2)

def observeAll : M → List (S × V) → Except E M
  | m, [] => .ok m
  | m, (s, v) :: rest =>
    match L.observe m s v with
    | .error e => .error e
    | .ok m => observeAll m rest

variable {L} {m m' : M} {r : R}

@[simp]
theorem length_draws (n : Nat) : (L.draws m n r).1.length = n := by
  induction n generalizing r with
  | zero => rfl
  | succ n ih => simp [draws, ih]

theorem draws_add (n k : Nat) :
    L.draws m (n + k) r = ((L.draws m n r).1 ++ (L.draws m k (L.draws m n r).2).1,
      (L.draws m k (L.draws m n r).2).2) := by
  induction n generalizing r with
  | zero => simp [draws]
  | succ n ih =>
    rw [Nat.succ_add]
    simp only [draws, ih, List.cons_append]

theorem draws_observe {s : S} {v : V} (h : L.observe m s v = .ok m') (n : Nat) :
    L.draws m' n r = L.draws m n r := by
  induction n generalizing r with
  | zero => rfl
  | succ n ih => simp only [draws, L.sample_observe h, ih]

theorem draws_observeAll {xs : List (S × V)} (h : L.observeAll m xs = .ok m') (n : Nat) :
    L.draws m' n r = L.draws m n r := by
  induction xs generalizing m with
  | nil =>
    cases h
    rfl
  | cons x xs ih =>
    obtain ⟨s, v⟩ := x
    unfold observeAll at h
    split at h
    · cases h
    · rename_i m₁ hobserve
      rw [ih h, draws_observe hobserve]

theorem observeAll_append {xs ys : List (S × V)} (h : L.observeAll m xs = .ok m') :
    L.observeAll m (xs ++ ys) = L.observeAll m' ys := by
  induction xs generalizing m with
  | nil =>
    cases h
    rfl
  | cons x xs ih =>
    obtain ⟨s, v⟩ := x
    unfold observeAll at h
    split at h
    · cases h
    · rename_i m₁ hobserve
      rw [List.cons_append, observeAll, hobserve]
      exact ih h

/-! ## Windows -/

variable (L) (size : Nat) (m₀ : M) (r₀ : R)

/-- Model and generator at the start of a window, and the values told before it. -/
inductive Trains : Nat → M → R → List V → Prop where
  | start : Trains 0 m₀ r₀ []
  | window {k : Nat} {m m' : M} {r : R} {vs ws : List V} (before : Trains k m r vs)
      (full : ws.length = size)
      (observed : L.observeAll m ((L.draws m size r).1.zip ws) = .ok m') :
      Trains (k + 1) (L.update m' ((k + 1) * size)) (L.draws m size r).2 (vs ++ ws)

/-- In window `k`: the values `ws` were told for the samples drawn first, `pending` are the
samples drawn since. -/
structure Amid (k : Nat) (vs ws : List V) (m : M) (r : R) (pending : List S) : Prop where
  below : ws.length < size
  inside : ws.length + pending.length ≤ size
  derived : ∃ base rng, L.Trains size m₀ r₀ k base rng vs ∧
    r = (L.draws base (ws.length + pending.length) rng).2 ∧
    pending = (L.draws base (ws.length + pending.length) rng).1.drop ws.length ∧
    L.observeAll base ((L.draws base (ws.length + pending.length) rng).1.zip ws) = .ok m

variable {L size m₀ r₀} {k : Nat} {vs ws : List V} {pending : List S}

theorem Trains.length (h : L.Trains size m₀ r₀ k m r vs) : vs.length = k * size := by
  induction h with
  | start => simp
  | window before full observed ih => rw [List.length_append, ih, full, Nat.succ_mul]

/-- The values told decide model and generator. -/
theorem Trains.unique {r' : R} (h : L.Trains size m₀ r₀ k m r vs)
    (h' : L.Trains size m₀ r₀ k m' r' vs) : m = m' ∧ r = r' := by
  induction h generalizing m' r' with
  | start =>
    cases h'
    exact ⟨rfl, rfl⟩
  | @window k base m₁ rng vs ws before full observed ih =>
    generalize hall : vs ++ ws = all at h'
    cases h' with
    | @window _ base' m₁' rng' vs' ws' before' full' observed' =>
      have hlen : vs.length = vs'.length := by rw [before.length, before'.length]
      obtain ⟨rfl, rfl⟩ := List.append_inj hall hlen
      obtain ⟨rfl, rfl⟩ := ih before'
      rw [observed] at observed'
      cases observed'
      exact ⟨rfl, rfl⟩

theorem amid_start (hsize : 0 < size) : L.Amid size m₀ r₀ 0 [] [] m₀ r₀ [] :=
  ⟨hsize, Nat.zero_le _, m₀, r₀, .start, rfl, rfl, rfl⟩

/-- More samples of the window. -/
theorem Amid.draw (h : L.Amid size m₀ r₀ k vs ws m r pending) {n : Nat}
    (hn : ws.length + pending.length + n ≤ size) :
    L.Amid size m₀ r₀ k vs ws m (L.draws m n r).2 (pending ++ (L.draws m n r).1) := by
  obtain ⟨base, rng, htrains, hr, hpending, hobserved⟩ := h.derived
  have hdraws : L.draws m n r = L.draws base n r := draws_observeAll hobserved n
  have hadd := draws_add (L := L) (m := base) (r := rng) (ws.length + pending.length) n
  rw [← hr, ← hdraws] at hadd
  have hlen : ws.length + (pending ++ (L.draws m n r).1).length =
      ws.length + pending.length + n := by
    rw [List.length_append, length_draws, Nat.add_assoc]
  refine ⟨h.below, hlen ▸ hn, base, rng, htrains, ?_, ?_, ?_⟩
  · rw [hlen, hadd]
  · rw [hlen, hadd, List.drop_append_of_le_length (by rw [length_draws]; omega), ← hpending]
  · rw [hlen, hadd, zip_append_longer (by rw [length_draws]; omega)]
    exact hobserved

/-- Values for the samples drawn first. They may complete the window, never cross its end. -/
theorem Amid.observe (h : L.Amid size m₀ r₀ k vs ws m r pending) {us : List V}
    (hus : us.length ≤ pending.length) (hobserve : L.observeAll m (pending.zip us) = .ok m') :
    (ws.length + us.length < size ∧
      L.Amid size m₀ r₀ k vs (ws ++ us) m' r (pending.drop us.length)) ∨
    (ws.length + us.length = size ∧ pending.length = us.length ∧
      L.Amid size m₀ r₀ (k + 1) (vs ++ (ws ++ us)) [] (L.update m' ((k + 1) * size)) r []) := by
  obtain ⟨base, rng, htrains, hr, hpending, hobserved⟩ := h.derived
  have hinside := h.inside
  have hbelow := h.below
  have hall : L.observeAll base
      ((L.draws base (ws.length + pending.length) rng).1.zip (ws ++ us)) = .ok m' := by
    rw [zip_append_split (by rw [length_draws]; omega), ← hpending, observeAll_append hobserved]
    exact hobserve
  by_cases hfull : ws.length + us.length = size
  · have hsame : pending.length = us.length := by omega
    refine .inr ⟨hfull, hsame, ?_⟩
    have hwindow : ws.length + pending.length = size := by omega
    rw [hwindow] at hr hall
    have hnext := htrains.window (by rw [List.length_append]; exact hfull) hall
    exact ⟨by rw [List.length_nil]; omega, Nat.zero_le _, _, _, hnext, hr, rfl, rfl⟩
  · have hlen : (ws ++ us).length + (pending.drop us.length).length =
        ws.length + pending.length := by
      rw [List.length_append, List.length_drop]
      omega
    refine .inl ⟨by omega, ?_, ?_, base, rng, htrains, ?_, ?_, ?_⟩
    · rw [List.length_append]
      omega
    · omega
    · rw [hlen]
      exact hr
    · rw [hlen, List.length_append, ← List.drop_drop, ← hpending]
    · rw [hlen]
      exact hall

/-- **The mixing does not matter.** Two courses of draws and values with the same values told are
at the same model, and with as many samples drawn at the same generator. -/
theorem Amid.unique {k' : Nat} {vs' ws' : List V} {r' : R} {pending' : List S}
    (h : L.Amid size m₀ r₀ k vs ws m r pending)
    (h' : L.Amid size m₀ r₀ k' vs' ws' m' r' pending') (hvalues : vs ++ ws = vs' ++ ws') :
    m = m' ∧ (pending.length = pending'.length → r = r' ∧ pending = pending') := by
  obtain ⟨base, rng, htrains, hr, hpending, hobserved⟩ := h.derived
  obtain ⟨base', rng', htrains', hr', hpending', hobserved'⟩ := h'.derived
  have hbelow := h.below
  have hbelow' := h'.below
  have hlen := congrArg List.length hvalues
  rw [List.length_append, List.length_append, htrains.length, htrains'.length] at hlen
  obtain rfl : k = k' := by
    have hk : (k * size + ws.length) / size = k := by
      rw [Nat.mul_comm, Nat.mul_add_div (by omega), Nat.div_eq_of_lt hbelow, Nat.add_zero]
    have hk' : (k' * size + ws'.length) / size = k' := by
      rw [Nat.mul_comm, Nat.mul_add_div (by omega), Nat.div_eq_of_lt hbelow', Nat.add_zero]
    rw [← hk, ← hk', hlen]
  obtain ⟨rfl, rfl⟩ := List.append_inj hvalues (by rw [htrains.length, htrains'.length])
  obtain ⟨rfl, rfl⟩ := htrains.unique htrains'
  refine ⟨?_, fun hsame => ?_⟩
  · have hzip : ∀ n, (L.draws base (ws.length + n) rng).1.zip ws =
        (L.draws base ws.length rng).1.zip ws := by
      intro n
      rw [draws_add, zip_append_longer (Nat.le_of_eq (length_draws _).symm)]
    rw [hzip] at hobserved hobserved'
    rw [hobserved] at hobserved'
    cases hobserved'
    rfl
  · rw [hr, hr', hpending, hpending', hsame]
    exact ⟨rfl, rfl⟩

end Learner

end Gammaboard.Lib
