import Gammaboard.Lib.OrdMap
import Mathlib.Data.List.Dedup

/-!
# Tallies

A map with a value for every key: the first sample of a key makes it, the others
are added to it. The value of a key is that of its own samples, so the tallies of
two parts of a list, merged key by key, are the tally of the list.
-/

namespace Gammaboard.Lib

namespace OrdMap

variable {κ α : Type*} [LinearOrder κ]

/-- Maps are their entries. -/
theorem Ascending.ext {m n : OrdMap κ α} (hm : Ascending m) (hn : Ascending n)
    (h : ∀ i, get i m = get i n) : m = n := by
  induction m generalizing n with
  | nil =>
    cases n with
    | nil => rfl
    | cons e n =>
      have hget := h e.1
      rw [get_cons, if_pos rfl] at hget
      cases hget
  | cons e m ih =>
    obtain ⟨hlt, hm⟩ := List.pairwise_cons.1 hm
    cases n with
    | nil =>
      have hget := h e.1
      rw [get_cons, if_pos rfl] at hget
      cases hget
    | cons f n =>
      obtain ⟨hlt', hn⟩ := List.pairwise_cons.1 hn
      -- neither first key can be smaller: it would be missing in the other map
      have hef : e.1 = f.1 := by
        have he := h e.1
        have hf := h f.1
        rw [get_cons, get_cons, if_pos rfl] at he
        rw [get_cons, get_cons, if_pos rfl] at hf
        by_contra hne
        rw [if_neg (Ne.symm hne)] at he
        rw [if_neg hne] at hf
        have hle : f.1 < e.1 := hlt' e.1 (isSome_get.1 (by rw [← he]; rfl))
        have hle' : e.1 < f.1 := hlt f.1 (isSome_get.1 (by rw [hf]; rfl))
        exact lt_asymm hle hle'
      have hsnd : e.2 = f.2 := by
        have he := h e.1
        rw [get_cons, get_cons, if_pos rfl, if_pos hef.symm] at he
        exact Option.some.inj he
      rw [ih hm hn fun i => ?_, Prod.ext hef hsnd]
      by_cases hi : e.1 = i
      · subst hi
        rw [get_eq_none.2 fun hmem => lt_irrefl _ (hlt _ hmem),
          get_eq_none.2 fun hmem => (hlt' _ hmem).ne hef.symm]
      · have hget := h i
        rwa [get_cons, get_cons, if_neg hi, if_neg (hef ▸ hi)] at hget

end OrdMap

namespace Tally

open OrdMap

variable {κ σ S : Type*} [LinearOrder κ] (key : S → κ) (new : S → σ) (add : σ → S → σ)
  (merge : σ → σ → σ)

def upsert (m : OrdMap κ σ) (x : S) : OrdMap κ σ :=
  match get (key x) m with
  | some s => insert (key x) (add s x) m
  | none => insert (key x) (new x) m

/-- The values of the keys of a list. -/
def tally (l : List S) : OrdMap κ σ := l.foldl (upsert key new add) []

def mergeEntry (m : OrdMap κ σ) (e : κ × σ) : OrdMap κ σ :=
  match get e.1 m with
  | some s => insert e.1 (merge s e.2) m
  | none => insert e.1 e.2 m

/-- The value of the samples of one key. -/
def total : List S → Option σ
  | [] => none
  | x :: l => some (l.foldl add (new x))

variable {key new add merge}

theorem total_concat (l : List S) (x : S) :
    total new add (l ++ [x]) = some ((total new add l).elim (new x) fun s => add s x) := by
  cases l with
  | nil => rfl
  | cons y l => simp [total]

theorem tally_concat (l : List S) (x : S) :
    tally key new add (l ++ [x]) = upsert key new add (tally key new add l) x := by
  unfold tally
  rw [List.foldl_append]
  rfl

theorem ascending_upsert {m : OrdMap κ σ} (h : Ascending m) (x : S) :
    Ascending (upsert key new add m x) := by
  unfold upsert
  cases get (key x) m <;> exact h.insert

theorem ascending_tally (l : List S) : Ascending (tally key new add l) := by
  induction l using List.reverseRecOn with
  | nil => exact List.Pairwise.nil
  | append_singleton l x ih =>
    rw [tally_concat]
    exact ascending_upsert ih x

theorem mem_keys_upsert {m : OrdMap κ σ} {i : κ} {x : S} :
    i ∈ keys (upsert key new add m x) ↔ i = key x ∨ i ∈ keys m := by
  unfold upsert
  cases get (key x) m <;> exact mem_keys_insert

theorem mem_keys_tally {l : List S} {i : κ} :
    i ∈ keys (tally key new add l) ↔ i ∈ l.map key := by
  induction l using List.reverseRecOn with
  | nil => simp [tally]
  | append_singleton l x ih =>
    rw [tally_concat, mem_keys_upsert, ih]
    simp [or_comm]

/-- The value of a key is that of its samples. -/
theorem get_tally (l : List S) (i : κ) :
    get i (tally key new add l) = total new add (l.filter fun x => key x = i) := by
  induction l using List.reverseRecOn with
  | nil => rfl
  | append_singleton l x ih =>
    rw [tally_concat, List.filter_append]
    unfold upsert
    by_cases hi : key x = i
    · subst hi
      rw [List.filter_cons_of_pos (by simp), List.filter_nil, total_concat, ← ih]
      cases get (key x) (tally key new add l) with
      | none => exact get_insert.trans (if_pos rfl)
      | some s => exact get_insert.trans (if_pos rfl)
    · rw [List.filter_cons_of_neg (by simpa using hi), List.filter_nil, List.append_nil, ← ih]
      cases get (key x) (tally key new add l) with
      | none => exact get_insert.trans (if_neg hi)
      | some s => exact get_insert.trans (if_neg hi)

theorem ascending_merge {m n : OrdMap κ σ} (h : Ascending m) :
    Ascending (n.foldl (mergeEntry merge) m) := by
  induction n generalizing m with
  | nil => exact h
  | cons e n ih =>
    refine ih ?_
    unfold mergeEntry
    cases get e.1 m <;> exact h.insert

theorem get_merge {m n : OrdMap κ σ} (hn : (keys n).Nodup) (i : κ) :
    get i (n.foldl (mergeEntry merge) m) =
      match get i m, get i n with
      | some s, some t => some (merge s t)
      | s, none => s
      | none, t => t := by
  induction n generalizing m with
  | nil =>
    show get i m = _
    cases get i m <;> rfl
  | cons e n ih =>
    obtain ⟨hnot, hn⟩ := List.nodup_cons.1 hn
    rw [List.foldl_cons, ih hn, get_cons]
    have hentry : get i (mergeEntry merge m e) =
        if e.1 = i then some ((get i m).elim e.2 fun s => merge s e.2) else get i m := by
      unfold mergeEntry
      by_cases hi : e.1 = i
      · subst hi
        rw [if_pos rfl]
        cases get e.1 m <;> exact get_insert.trans (if_pos rfl)
      · rw [if_neg hi]
        cases get e.1 m <;> exact get_insert.trans (if_neg hi)
    rw [hentry]
    by_cases hi : e.1 = i
    · subst hi
      rw [if_pos rfl, if_pos rfl, get_eq_none.2 hnot]
      cases get e.1 m <;> rfl
    · rw [if_neg hi, if_neg hi]

/-- The tallies of two parts, merged. -/
theorem merge_tally
    (hmerge : ∀ (l : List S) (x y : S) (l' : List S),
      merge (l.foldl add (new x)) (l'.foldl add (new y)) = (l ++ y :: l').foldl add (new x))
    (l l' : List S) :
    (tally key new add l').foldl (mergeEntry merge) (tally key new add l) =
      tally key new add (l ++ l') := by
  refine (ascending_merge (ascending_tally l)).ext (ascending_tally _) fun i => ?_
  rw [get_merge (ascending_tally l').nodup, get_tally, get_tally, get_tally, List.filter_append]
  cases l.filter fun x => key x = i with
  | nil => cases l'.filter fun x => key x = i <;> rfl
  | cons x own =>
    cases l'.filter fun x => key x = i with
    | nil => simp [total]
    | cons y others => exact congrArg some (hmerge own x y others)

/-- There is one entry for every key. -/
theorem length_tally [DecidableEq κ] (l : List S) :
    (tally key new add l).length = (l.map key).dedup.length := by
  have hperm : (keys (tally key new add l)).Perm (l.map key).dedup :=
    (List.perm_ext_iff_of_nodup (ascending_tally l).nodup (List.nodup_dedup _)).2 fun i => by
      rw [mem_keys_tally, List.mem_dedup]
  rw [← hperm.length_eq]
  exact (List.length_map _).symm

end Tally

end Gammaboard.Lib
