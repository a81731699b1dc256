import Gammaboard.Lib.OrdMap
import Mathlib.Algebra.BigOperators.Group.List.Basic
import Mathlib.Data.List.Perm.Basic
import Mathlib.Tactic.Ring

/-!
# Filling quotas

Items stand at places and every place has a quota. An item stays where its
place has quota left; the items that do not stay fill what is left of the
quotas. When the quotas add up to the number of items every place gets exactly
its quota, and items that meet the quotas already all stay.
-/

namespace Gammaboard.Lib.Quota

universe u v

variable {α : Type u} {ι : Type v} [LinearOrder ι]

/-- What a place may still get. -/
def quota (quotas : OrdMap ι Nat) (p : ι) : Nat := (OrdMap.get p quotas).getD 0

def total (quotas : OrdMap ι Nat) : Nat := (quotas.map (·.2)).sum

/-- The items that stay, the items that do not, and the quotas left. -/
def keep (place : α → ι) : List α → OrdMap ι Nat → List α × List α × OrdMap ι Nat
  | [], quotas => ([], [], quotas)
  | x :: items, quotas =>
    match OrdMap.get (place x) quotas with
    | some (n + 1) =>
      let (kept, moved, left) := keep place items (OrdMap.insert (place x) n quotas)
      (x :: kept, moved, left)
    | _ =>
      let (kept, moved, left) := keep place items quotas
      (kept, x :: moved, left)

/-- Every place as often as its quota. -/
def targets (quotas : OrdMap ι Nat) : List ι := quotas.flatMap fun e => List.replicate e.2 e.1

/-- The items with the places they get. -/
def fill (place : α → ι) (items : List α) (quotas : OrdMap ι Nat) : List (α × ι) :=
  let (kept, moved, left) := keep place items quotas
  kept.map (fun x => (x, place x)) ++ moved.zip (targets left)

variable {place : α → ι} {items : List α} {quotas : OrdMap ι Nat} {p : ι} {n : Nat}

theorem quota_insert {q : ι} : quota (OrdMap.insert p n quotas) q = if p = q then n else quota quotas q := by
  unfold quota
  rw [OrdMap.get_insert]
  split <;> rfl

theorem total_insert (hkeys : OrdMap.Ascending quotas) (h : OrdMap.get p quotas = some (n + 1)) :
    total (OrdMap.insert p n quotas) + 1 = total quotas := by
  induction quotas with
  | nil => cases h
  | cons e quotas ih =>
    obtain ⟨hlt, hrest⟩ := List.pairwise_cons.1 hkeys
    rw [OrdMap.get_cons] at h
    unfold OrdMap.insert
    split at h
    · rename_i he
      obtain ⟨q, k⟩ := e
      cases h
      subst he
      simp [total]
      omega
    · rename_i hne
      have hlt : e.1 < p := hlt p (OrdMap.mem_keys.2 ⟨_, OrdMap.mem_of_get h⟩)
      rw [if_pos hlt]
      have := ih hrest h
      simp only [total, List.map_cons, List.sum_cons] at this ⊢
      omega

theorem keys_insert_of_get {x : Nat} (h : OrdMap.get p quotas = some x) (hkeys : OrdMap.Ascending quotas) :
    OrdMap.keys (OrdMap.insert p n quotas) = OrdMap.keys quotas := by
  induction quotas with
  | nil => cases h
  | cons e quotas ih =>
    obtain ⟨hlt, hrest⟩ := List.pairwise_cons.1 hkeys
    rw [OrdMap.get_cons] at h
    unfold OrdMap.insert
    split at h
    · rename_i he
      simp [he]
    · have hlt : e.1 < p := hlt p (OrdMap.mem_keys.2 ⟨_, OrdMap.mem_of_get h⟩)
      rw [if_pos hlt, OrdMap.keys_cons, OrdMap.keys_cons, ih h hrest]

theorem keep_perm : ((keep place items quotas).1 ++ (keep place items quotas).2.1).Perm items := by
  induction items generalizing quotas with
  | nil => exact List.Perm.refl _
  | cons x items ih =>
    unfold keep
    split
    · exact ih.cons x
    · exact List.perm_middle.trans (ih.cons x)

/-- Quotas are used up by the items that stay. -/
theorem quota_left :
    (keep place items quotas).1.countP (place · = p) + quota (keep place items quotas).2.2 p =
      quota quotas p := by
  induction items generalizing quotas with
  | nil => simp [keep]
  | cons x items ih =>
    unfold keep
    split
    · rename_i n hn
      have := @ih (OrdMap.insert (place x) n quotas)
      rw [quota_insert] at this
      change (x :: (keep place items (OrdMap.insert (place x) n quotas)).1).countP (place · = p) +
        quota (keep place items (OrdMap.insert (place x) n quotas)).2.2 p = quota quotas p
      rw [List.countP_cons]
      simp only [decide_eq_true_eq]
      split at this
      · rename_i hp
        have hq : quota quotas p = n + 1 := by rw [← hp, quota, hn, Option.getD_some]
        rw [if_pos hp]
        omega
      · rename_i hp
        rw [if_neg hp]
        omega
    · exact ih

theorem total_left (hkeys : OrdMap.Ascending quotas) :
    (keep place items quotas).1.length + total (keep place items quotas).2.2 = total quotas ∧
      OrdMap.keys (keep place items quotas).2.2 = OrdMap.keys quotas := by
  induction items generalizing quotas with
  | nil => simp [keep]
  | cons x items ih =>
    unfold keep
    split
    · rename_i n hn
      obtain ⟨hsum, hk⟩ := @ih (OrdMap.insert (place x) n quotas) hkeys.insert
      have := total_insert hkeys hn
      refine ⟨?_, hk.trans (keys_insert_of_get hn hkeys)⟩
      change (x :: (keep place items (OrdMap.insert (place x) n quotas)).1).length +
        total (keep place items (OrdMap.insert (place x) n quotas)).2.2 = total quotas
      rw [List.length_cons]
      omega
    · exact ih hkeys

omit [LinearOrder ι] in
theorem length_targets : (targets quotas).length = total quotas := by
  simp [targets, total, List.length_flatMap]

theorem count_targets (h : (OrdMap.keys quotas).Nodup) : (targets quotas).count p = quota quotas p := by
  induction quotas with
  | nil => simp [targets, quota]
  | cons e quotas ih =>
    obtain ⟨hnot, hrest⟩ := List.nodup_cons.1 h
    have hcons : targets (e :: quotas) = List.replicate e.2 e.1 ++ targets quotas := rfl
    rw [hcons, List.count_append, List.count_replicate, ih hrest]
    unfold quota
    rw [OrdMap.get_cons]
    by_cases hp : e.1 = p
    · have hnone : OrdMap.get p quotas = none := OrdMap.get_eq_none.2 (by rwa [← hp])
      simp [hp, hnone]
    · simp [hp]

section Exact

variable (hkeys : OrdMap.Ascending quotas) (htotal : total quotas = items.length)
include hkeys htotal

theorem length_moved :
    (keep place items quotas).2.1.length = (targets (keep place items quotas).2.2).length := by
  have hperm := (@keep_perm α ι _ place items quotas).length_eq
  have hsum := (@total_left α ι _ place items quotas hkeys).1
  rw [List.length_append] at hperm
  rw [length_targets]
  omega

theorem fill_perm : ((fill place items quotas).map (·.1)).Perm items := by
  unfold fill
  dsimp only
  rw [List.map_append, List.map_map, List.map_fst_zip (length_moved hkeys htotal).le]
  have : ((fun e : α × ι => e.1) ∘ fun x => (x, place x)) = id := rfl
  rw [this, List.map_id]
  exact keep_perm

/-- Every place gets its quota. -/
theorem count_fill (p : ι) : (fill place items quotas).countP (·.2 = p) = quota quotas p := by
  have hleft := @quota_left α ι _ place items quotas p
  have hcount : (targets (keep place items quotas).2.2).count p =
      quota (keep place items quotas).2.2 p := by
    refine count_targets ?_
    rw [(total_left hkeys).2]
    exact hkeys.nodup
  have hzip : ((keep place items quotas).2.1.zip (targets (keep place items quotas).2.2)).countP
      (·.2 = p) = (targets (keep place items quotas).2.2).count p := by
    conv_rhs => rw [← List.map_snd_zip (@length_moved α ι _ place items quotas hkeys htotal).ge]
    rw [List.count, List.countP_map]
    congr 1
  unfold fill
  dsimp only
  rw [List.countP_append, List.countP_map, hzip, hcount]
  exact hleft

end Exact

/-- Items within the quotas all stay. -/
theorem keep_of_le (h : ∀ p, items.countP (place · = p) ≤ quota quotas p) :
    (keep place items quotas).1 = items ∧ (keep place items quotas).2.1 = [] := by
  induction items generalizing quotas with
  | nil => exact ⟨rfl, rfl⟩
  | cons x items ih =>
    have hx := h (place x)
    rw [List.countP_cons_of_pos (by simp)] at hx
    unfold quota at hx
    unfold keep
    split
    · rename_i n hn
      obtain ⟨hkept, hmoved⟩ := @ih (OrdMap.insert (place x) n quotas) fun p => by
        have hp := h p
        rw [quota_insert]
        split
        · rename_i heq
          rw [hn] at hx
          rw [← heq]
          exact Nat.le_of_succ_le_succ hx
        · rename_i hne
          rwa [List.countP_cons_of_neg (by simpa using hne)] at hp
      exact ⟨congrArg (x :: ·) hkept, hmoved⟩
    · rename_i hnone
      cases hget : OrdMap.get (place x) quotas with
      | none =>
        rw [hget] at hx
        exact absurd hx (Nat.not_succ_le_zero _)
      | some n =>
        cases n with
        | zero =>
          rw [hget] at hx
          exact absurd hx (Nat.not_succ_le_zero _)
        | succ n => exact absurd hget (hnone n)

theorem fill_of_le (h : ∀ p, items.countP (place · = p) ≤ quota quotas p) :
    fill place items quotas = items.map fun x => (x, place x) := by
  obtain ⟨hkept, hmoved⟩ := keep_of_le h
  unfold fill
  dsimp only
  rw [hkept, hmoved, List.zip_nil_left, List.append_nil]

/-! ## Even shares -/

/-- Shares of a number that differ by at most one; the first places get the larger ones. -/
def evenShares (count : Nat) (places : List ι) : OrdMap ι Nat :=
  OrdMap.collect (places.mapIdx fun i p =>
    (p, count / places.length + if i < count % places.length then 1 else 0))

variable {places : List ι} {count : Nat}

theorem sum_shares (n q r : Nat) :
    ((List.range n).map fun i => q + if i < r then 1 else 0).sum = n * q + min n r := by
  induction n with
  | zero => simp
  | succ n ih =>
    rw [List.range_succ, List.map_append, List.sum_append, ih, Nat.succ_mul]
    simp only [List.map_cons, List.map_nil, List.sum_cons, List.sum_nil]
    split <;> omega

theorem ascending_evenShares : OrdMap.Ascending (evenShares count places) :=
  OrdMap.ascending_collect

/-- The share of the place at index `i`. -/
def share (count n i : Nat) : Nat := count / n + if i < count % n then 1 else 0

omit [LinearOrder ι] in
theorem map_fst_mapIdx (f : Nat → Nat) : (places.mapIdx fun i p => (p, f i)).map (·.1) = places :=
  List.ext_getElem (by simp) (by simp)

theorem evenShares_eq (h : places.Pairwise (· < ·)) :
    evenShares count places = places.mapIdx fun i p => (p, share count places.length i) := by
  refine OrdMap.collect_of_ascending ?_
  rw [OrdMap.Ascending, OrdMap.keys, map_fst_mapIdx]
  exact h

theorem total_evenShares (h : places.Pairwise (· < ·)) (hne : places ≠ []) :
    total (evenShares count places) = count := by
  have hpos : 0 < places.length := List.length_pos_iff.2 hne
  have hvalues : (evenShares count places).map (·.2) =
      (List.range places.length).map (share count places.length) := by
    rw [evenShares_eq h]
    exact List.ext_getElem (by simp) (by simp)
  rw [total, hvalues]
  unfold share
  rw [sum_shares, Nat.min_eq_right (Nat.mod_lt count hpos).le]
  exact Nat.div_add_mod count places.length

/-- Two shares differ by at most one. -/
theorem quota_evenShares (h : places.Pairwise (· < ·)) (hp : p ∈ places) :
    count / places.length ≤ quota (evenShares count places) p ∧
      quota (evenShares count places) p ≤ count / places.length + 1 := by
  obtain ⟨i, hi, rfl⟩ := List.getElem_of_mem hp
  have hmem : (places[i], share count places.length i) ∈ evenShares count places := by
    rw [evenShares_eq h, List.mem_mapIdx]
    exact ⟨i, hi, rfl⟩
  rw [quota, OrdMap.get_eq_some_of_mem ascending_evenShares hmem, Option.getD_some, share]
  split <;> omega

theorem quota_evenShares_of_notMem (hp : p ∉ places) : quota (evenShares count places) p = 0 := by
  have hkeys : p ∉ OrdMap.keys (evenShares count places) := by
    unfold evenShares
    rwa [OrdMap.mem_keys_collect, OrdMap.keys, map_fst_mapIdx]
  rw [quota, OrdMap.get_eq_none.2 hkeys, Option.getD_none]

end Gammaboard.Lib.Quota
