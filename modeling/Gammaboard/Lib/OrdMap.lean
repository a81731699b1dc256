import Mathlib.Data.List.Induction
import Mathlib.Data.List.Sort
import Mathlib.Order.Basic

/-!
# Maps by ascending key

A map from linearly ordered keys is the list of its entries with ascending
keys. Entries collected one after the other keep the last value of every key.
-/

namespace Gammaboard.Lib

universe u v

/-- The entries of a map, by ascending key. -/
abbrev OrdMap (κ : Type u) (α : Type v) := List (κ × α)

namespace OrdMap

variable {κ : Type u} {α : Type v}

def keys (m : OrdMap κ α) : List κ := m.map (·.1)

@[simp] theorem keys_nil : keys ([] : OrdMap κ α) = [] := rfl

@[simp] theorem keys_cons (e : κ × α) (m : OrdMap κ α) : keys (e :: m) = e.1 :: keys m := rfl

theorem mem_keys {m : OrdMap κ α} {i : κ} : i ∈ keys m ↔ ∃ x, (i, x) ∈ m := by
  simp [keys]

variable [LinearOrder κ]

def insert (i : κ) (x : α) : OrdMap κ α → OrdMap κ α
  | [] => [(i, x)]
  | e :: m =>
    if e.1 < i then e :: insert i x m
    else if e.1 = i then (i, x) :: m
    else (i, x) :: e :: m

def get (i : κ) (m : OrdMap κ α) : Option α := (m.find? (·.1 == i)).map (·.2)

/-- `BTreeMap::remove`, without the value it returns. -/
def erase (i : κ) (m : OrdMap κ α) : OrdMap κ α := m.filter (·.1 != i)

def insertAll (m : OrdMap κ α) (entries : List (κ × α)) : OrdMap κ α :=
  entries.foldl (fun m e => insert e.1 e.2 m) m

/-- The map of the entries; of two entries of one key the later one stays. -/
def collect (entries : List (κ × α)) : OrdMap κ α := insertAll [] entries

/-- The keys ascend. -/
def Ascending (m : OrdMap κ α) : Prop := (keys m).Pairwise (· < ·)

variable {i j : κ} {x : α} {m : OrdMap κ α} {es fs : List (κ × α)}

@[simp] theorem get_nil : get i ([] : OrdMap κ α) = none := rfl

theorem get_cons (e : κ × α) : get i (e :: m) = if e.1 = i then some e.2 else get i m := by
  unfold get
  rw [List.find?_cons]
  by_cases h : e.1 = i
  · simp [h]
  · simp [h, beq_eq_false_iff_ne.2 h]

theorem mem_keys_insert : j ∈ keys (insert i x m) ↔ j = i ∨ j ∈ keys m := by
  induction m with
  | nil => simp [insert, keys]
  | cons e m ih =>
    unfold insert
    split
    · have : keys (e :: insert i x m) = e.1 :: keys (insert i x m) := rfl
      rw [this, List.mem_cons, ih]
      simp only [keys, List.map_cons, List.mem_cons]
      tauto
    split
    · rename_i h
      simp [keys, h]
    · simp [keys]

theorem Ascending.insert (h : Ascending m) : Ascending (insert i x m) := by
  induction m with
  | nil => exact List.pairwise_singleton _ _
  | cons e m ih =>
    obtain ⟨hlt, hm⟩ := List.pairwise_cons.1 h
    unfold OrdMap.insert
    split
    · rename_i hei
      refine List.pairwise_cons.2 ⟨fun j hj => ?_, ih hm⟩
      rcases mem_keys_insert.1 hj with rfl | hj
      · exact hei
      · exact hlt j hj
    split
    · rename_i heq
      exact List.pairwise_cons.2 ⟨heq ▸ hlt, hm⟩
    · rename_i hnlt hne
      have hie : i < e.1 := lt_of_le_of_ne (not_lt.1 hnlt) (Ne.symm hne)
      refine List.pairwise_cons.2 ⟨fun j hj => ?_, h⟩
      rcases List.mem_cons.1 hj with rfl | hj
      · exact hie
      · exact hie.trans (hlt j hj)

theorem get_insert : get j (insert i x m) = if i = j then some x else get j m := by
  induction m with
  | nil => simp [insert, get_cons]
  | cons e m ih =>
    unfold insert
    split
    · rename_i hlt
      rw [get_cons, ih, get_cons]
      by_cases hij : i = j
      · subst hij
        simp [hlt.ne]
      · simp [hij]
    split
    · rename_i he
      rw [get_cons, get_cons, he]
      split <;> rfl
    · rw [get_cons]

theorem Ascending.insertAll (h : Ascending m) : Ascending (insertAll m es) := by
  unfold OrdMap.insertAll
  induction es generalizing m with
  | nil => exact h
  | cons e es ih => exact ih h.insert

theorem get_insertAll : get i (insertAll m es) = (get i (collect es)).or (get i m) := by
  unfold collect insertAll
  induction es using List.reverseRecOn with
  | nil => simp
  | append_singleton es e ih =>
    simp only [List.foldl_append, List.foldl_cons, List.foldl_nil, get_insert]
    split
    · rfl
    · exact ih

/-- The later entries win. -/
theorem get_collect_append :
    get i (collect (es ++ fs)) = (get i (collect fs)).or (get i (collect es)) := by
  rw [← get_insertAll]
  unfold collect insertAll
  rw [List.foldl_append]

theorem mem_keys_insertAll : i ∈ keys (insertAll m es) ↔ i ∈ keys m ∨ i ∈ keys es := by
  unfold insertAll
  induction es generalizing m with
  | nil => simp [keys]
  | cons e es ih =>
    rw [List.foldl_cons, ih, mem_keys_insert]
    simp only [keys, List.map_cons, List.mem_cons]
    tauto

@[simp] theorem mem_keys_collect : i ∈ keys (collect es) ↔ i ∈ keys es := by
  unfold collect
  rw [mem_keys_insertAll]
  simp

theorem ascending_collect : Ascending (collect es) :=
  Ascending.insertAll List.Pairwise.nil

theorem insert_of_lt (h : ∀ j ∈ keys m, j < i) : insert i x m = m ++ [(i, x)] := by
  induction m with
  | nil => rfl
  | cons e m ih =>
    unfold insert
    rw [if_pos (h e.1 List.mem_cons_self), ih fun j hj => h j (List.mem_cons_of_mem _ hj),
      List.cons_append]

theorem collect_of_ascending (h : Ascending es) : collect es = es := by
  induction es using List.reverseRecOn with
  | nil => rfl
  | append_singleton es e ih =>
    unfold Ascending keys at h
    rw [List.map_append, List.pairwise_append] at h
    obtain ⟨hes, -, hlast⟩ := h
    have hinit : insertAll [] es = es := ih hes
    unfold collect insertAll
    rw [List.foldl_append]
    show insert e.1 e.2 (insertAll [] es) = es ++ [e]
    rw [hinit, insert_of_lt fun j hj => hlast j hj e.1 (by simp)]

theorem Ascending.nodup (h : Ascending m) : (keys m).Nodup := List.Pairwise.imp ne_of_lt h

theorem Ascending.filter (h : Ascending m) (p : κ × α → Bool) : Ascending (m.filter p) :=
  h.sublist (List.filter_sublist.map _)

theorem get_of_mem (h : (keys m).Nodup) (hx : (i, x) ∈ m) : get i m = some x := by
  induction m with
  | nil => cases hx
  | cons e m ih =>
    obtain ⟨hnot, hm⟩ := List.nodup_cons.1 h
    rw [get_cons]
    rcases List.mem_cons.1 hx with rfl | hx
    · rw [if_pos rfl]
    · have hi : i ∈ keys m := mem_keys.2 ⟨x, hx⟩
      rw [if_neg (ne_of_mem_of_not_mem hi hnot).symm, ih hm hx]

theorem get_eq_some_of_mem (h : Ascending m) (hx : (i, x) ∈ m) : get i m = some x :=
  get_of_mem h.nodup hx

theorem mem_of_get (h : get i m = some x) : (i, x) ∈ m := by
  unfold get at h
  obtain ⟨e, he, rfl⟩ := Option.map_eq_some_iff.1 h
  have hi := List.find?_some he
  rw [beq_iff_eq] at hi
  exact hi ▸ List.mem_of_find?_eq_some he

theorem get_eq_none : get i m = none ↔ i ∉ keys m := by
  unfold get keys
  simp only [Option.map_eq_none_iff, List.find?_eq_none, List.mem_map, not_exists, not_and,
    beq_iff_eq]

theorem isSome_get : (get i m).isSome ↔ i ∈ keys m := by
  rw [← not_iff_not, Bool.not_eq_true, Option.isSome_eq_false_iff, Option.isNone_iff_eq_none,
    get_eq_none]

/-- Entries of distinct keys are all kept. -/
theorem get_collect (h : (keys es).Nodup) : get i (collect es) = get i es := by
  induction es using List.reverseRecOn with
  | nil => rfl
  | append_singleton es e ih =>
    unfold keys at h
    rw [List.map_append, List.nodup_append] at h
    obtain ⟨hes, -, hdisjoint⟩ := h
    rw [get_collect_append, ih hes]
    unfold get
    rw [List.find?_append]
    by_cases he : e.1 = i
    · have : es.find? (·.1 == i) = none := by
        rw [List.find?_eq_none]
        intro f hf
        rw [beq_iff_eq]
        exact fun hfi => hdisjoint f.1 (List.mem_map_of_mem hf) e.1 (by simp) (hfi.trans he.symm)
      simp [this, collect, insertAll, insert, he]
    · simp [collect, insertAll, insert, he]

theorem mem_of_mem_insert {e : κ × α} (he : e ∈ insert i x m) : e = (i, x) ∨ e ∈ m := by
  induction m with
  | nil => exact .inl (List.mem_singleton.1 he)
  | cons a m ih =>
    unfold insert at he
    split at he
    · rcases List.mem_cons.1 he with rfl | he
      · exact .inr List.mem_cons_self
      · exact (ih he).imp_right (List.mem_cons_of_mem a)
    split at he
    · exact (List.mem_cons.1 he).imp_right (List.mem_cons_of_mem a)
    · exact List.mem_cons.1 he

theorem length_insert (h : Ascending m) :
    (insert i x m).length = if i ∈ keys m then m.length else m.length + 1 := by
  induction m with
  | nil => rfl
  | cons e m ih =>
    obtain ⟨hlt, hm⟩ := List.pairwise_cons.1 h
    unfold insert
    split
    · rename_i hei
      rw [List.length_cons, ih hm]
      simp only [keys_cons, List.mem_cons, hei.ne', false_or, List.length_cons]
      split <;> rfl
    · split
      · rename_i heq
        rw [if_pos (by simp [heq])]
        rfl
      · rename_i hnlt hne
        have hie : i < e.1 := lt_of_le_of_ne (not_lt.1 hnlt) (Ne.symm hne)
        have hnot : i ∉ keys (e :: m) := by
          rw [keys_cons, List.mem_cons, not_or]
          exact ⟨Ne.symm hne, fun hi => lt_asymm hie (hlt i hi)⟩
        rw [if_neg hnot]
        rfl

theorem mem_of_mem_collect {e : κ × α} (h : e ∈ collect es) : e ∈ es := by
  unfold collect insertAll at h
  induction es using List.reverseRecOn with
  | nil => cases h
  | append_singleton es a ih =>
    rw [List.foldl_append] at h
    rcases mem_of_mem_insert h with rfl | h
    · exact List.mem_append_right es (List.mem_singleton_self _)
    · exact List.mem_append_left _ (ih h)

theorem get_filter (h : Ascending m) (p : κ × α → Bool) :
    get i (m.filter p) = (get i m).filter fun x => p (i, x) := by
  induction m with
  | nil => rfl
  | cons e m ih =>
    obtain ⟨hlt, hm⟩ := List.pairwise_cons.1 h
    have hlt : ∀ j ∈ keys m, e.1 < j := hlt
    rw [List.filter_cons, get_cons]
    by_cases he : e.1 = i
    · subst he
      have hnone : get e.1 m = none := get_eq_none.2 fun hmem => lt_irrefl _ (hlt _ hmem)
      rw [if_pos rfl, Option.filter_some]
      split
      · rw [get_cons, if_pos rfl]
      · rw [ih hm, hnone, Option.filter_none]
    · rw [if_neg he]
      split
      · rw [get_cons, if_neg he, ih hm]
      · exact ih hm

theorem collect_perm (h : (keys es).Nodup) : (collect es).Perm es := by
  refine (List.perm_ext_iff_of_nodup ascending_collect.nodup.of_map h.of_map).2 fun e => ?_
  constructor
  · intro he
    have hget := get_eq_some_of_mem ascending_collect he
    rw [get_collect h] at hget
    exact mem_of_get hget
  · intro he
    have hget := get_of_mem h he
    rw [← get_collect h] at hget
    exact mem_of_get hget

/-- New values under the old keys. -/
theorem map_collect {β : Type*} (f : κ → α → β) :
    (collect es).map (fun e => (e.1, f e.1 e.2)) = collect (es.map fun e => (e.1, f e.1 e.2)) := by
  have hinsert : ∀ (m : OrdMap κ α) (e : κ × α), (insert e.1 e.2 m).map (fun e => (e.1, f e.1 e.2)) =
      insert e.1 (f e.1 e.2) (m.map fun e => (e.1, f e.1 e.2)) := by
    intro m e
    induction m with
    | nil => rfl
    | cons a m ih =>
      rw [List.map_cons]
      unfold insert
      split
      · rw [List.map_cons, ih]
      · split <;> rfl
  have key : ∀ m : OrdMap κ α, (insertAll m es).map (fun e => (e.1, f e.1 e.2)) =
      insertAll (m.map fun e => (e.1, f e.1 e.2)) (es.map fun e => (e.1, f e.1 e.2)) := by
    induction es with
    | nil => exact fun _ => rfl
    | cons e es ih =>
      intro m
      unfold insertAll at ih ⊢
      rw [List.map_cons, List.foldl_cons, List.foldl_cons, ih, hinsert]
  exact key []

theorem get_erase : get j (erase i m) = if i = j then none else get j m := by
  induction m with
  | nil => simp [erase]
  | cons e m ih =>
    unfold erase at ih ⊢
    rw [List.filter_cons, get_cons]
    by_cases hei : e.1 = i
    · simp only [hei, bne_self_eq_false, Bool.false_eq_true, if_false, ih]
      split <;> rfl
    · simp only [bne_iff_ne, ne_eq, hei, not_false_eq_true, if_true]
      rw [get_cons, ih]
      by_cases hij : i = j
      · subst hij
        simp [hei]
      · simp [hij]

/-- The entries of some keys, where the map has them. -/
def project (ks : List κ) (m : OrdMap κ α) : List (κ × α) :=
  ks.filterMap fun k => (get k m).map fun x => (k, x)

theorem keys_project (ks : List κ) (m : OrdMap κ α) :
    (project ks m).map (·.1) = ks.filter fun k => (get k m).isSome := by
  induction ks with
  | nil => rfl
  | cons k ks ih =>
    unfold project at ih ⊢
    rw [List.filterMap_cons, List.filter_cons]
    cases get k m with
    | none => exact ih
    | some x => exact congrArg (List.cons k) ih

theorem get_project {ks : List κ} (hk : i ∈ ks) : get i (project ks m) = get i m := by
  induction ks with
  | nil => exact absurd hk List.not_mem_nil
  | cons k ks ih =>
    unfold project at ih ⊢
    rw [List.filterMap_cons]
    by_cases heq : k = i
    · subst heq
      cases hget : get k m with
      | some x => exact (get_cons _).trans (if_pos rfl)
      | none =>
        rw [Option.map_none]
        by_cases hmem : k ∈ ks
        · rw [ih hmem, hget]
        · refine get_eq_none.2 fun hin => hmem ?_
          have hkeys := keys_project ks m
          unfold project at hkeys
          rw [keys, hkeys] at hin
          exact (List.mem_filter.1 hin).1
    · have hrest := ih ((List.mem_cons.1 hk).resolve_left (Ne.symm heq))
      cases get k m with
      | some x => exact (get_cons _).trans ((if_neg heq).trans hrest)
      | none => exact hrest

end OrdMap

end Gammaboard.Lib
