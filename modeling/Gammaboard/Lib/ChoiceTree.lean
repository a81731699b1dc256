import Mathlib.Algebra.BigOperators.Field
import Mathlib.Algebra.BigOperators.Fin
import Mathlib.Algebra.BigOperators.Ring.Finset
import Mathlib.Algebra.CharZero.Defs
import Mathlib.Data.Fintype.BigOperators

/-!
# Trees of choices

At every node of a tree one of its children is chosen, each with the same
probability, until a leaf is reached. A path is the labels of the choices, its
weight the product of the numbers of children. The mass of a query, the values
at some positions of a path, is computed down the tree; it is the sum of the
inverse weights of the paths that match.
-/

namespace Gammaboard.Lib

/-- A node has so many labelled children. -/
inductive ChoiceTree (α : Type) where
  | leaf
  | node (n : Nat) (label : Fin n → α) (child : Fin n → ChoiceTree α)

/-- The values at some positions of a path. -/
abbrev PathQuery (α : Type) := Nat → Option α

namespace PathQuery

variable {α : Type}

/-- What is asked below the first position. -/
def rest (q : PathQuery α) : PathQuery α := fun i => q (i + 1)

def Matches (q : PathQuery α) (path : List α) : Prop := ∀ i v, q i = some v → path[i]? = some v

/-- What is asked of the first position. -/
def Admits (q : PathQuery α) (a : α) : Prop := ∀ v, q 0 = some v → v = a

/-- The query for one path. -/
def ofPath (path : List α) : PathQuery α := fun i => path[i]?

theorem matches_cons {q : PathQuery α} {a : α} {path : List α} :
    q.Matches (a :: path) ↔ q.Admits a ∧ q.rest.Matches path := by
  constructor
  · intro h
    refine ⟨fun v hv => ?_, fun i v hv => ?_⟩
    · have hhead := h 0 v hv
      rw [List.getElem?_cons_zero, Option.some.injEq] at hhead
      exact hhead.symm
    · have htail := h (i + 1) v hv
      rwa [List.getElem?_cons_succ] at htail
  · rintro ⟨hadmits, hrest⟩ i v hv
    cases i with
    | zero => rw [List.getElem?_cons_zero, hadmits v hv]
    | succ i =>
      rw [List.getElem?_cons_succ]
      exact hrest i v hv

theorem matches_nil {q : PathQuery α} : q.Matches [] ↔ ∀ i, q i = none := by
  constructor
  · intro h i
    cases hi : q i with
    | none => rfl
    | some v => cases h i v hi
  · intro h i v hv
    rw [h i] at hv
    cases hv

theorem ofPath_matches {path path' : List α} : (ofPath path).Matches path' ↔ path <+: path' := by
  rw [List.prefix_iff_getElem?]
  constructor
  · intro h i hi
    exact h i _ (List.getElem?_eq_getElem hi)
  · intro h i v hv
    obtain ⟨hi, rfl⟩ := List.getElem?_eq_some_iff.1 hv
    exact h i hi

/-- One more value is fixed. -/
theorem update_matches {q : PathQuery α} {d : Nat} {v : α} {path : List α} (hd : q d = none) :
    PathQuery.Matches (Function.update q d (some v)) path ↔ q.Matches path ∧ path[d]? = some v := by
  constructor
  · intro h
    refine ⟨fun i w hw => h i w ?_, h d v ?_⟩
    · have hne : i ≠ d := by
        rintro rfl
        rw [hd] at hw
        cases hw
      rwa [Function.update_of_ne hne]
    · rw [Function.update_self]
  · rintro ⟨hmatches, hat⟩ i w hw
    by_cases hi : i = d
    · rw [hi, Function.update_self, Option.some.injEq] at hw
      rw [hi, ← hw]
      exact hat
    · rw [Function.update_of_ne hi] at hw
      exact hmatches i w hw

end PathQuery

namespace ChoiceTree

variable {α : Type}

/-- Every node has a child, and no two of one label. -/
def Proper : ChoiceTree α → Prop
  | leaf => True
  | node n label child => 0 < n ∧ Function.Injective label ∧ ∀ i, (child i).Proper

section Paths

variable [DecidableEq α]

def paths : ChoiceTree α → Finset (List α)
  | leaf => {[]}
  | node _ label child => Finset.univ.biUnion fun i => (child i).paths.image (label i :: ·)

theorem mem_paths_node {n : Nat} {label : Fin n → α} {child : Fin n → ChoiceTree α}
    {path : List α} : path ∈ (node n label child).paths ↔
      ∃ i, ∃ tail ∈ (child i).paths, label i :: tail = path := by
  rw [paths, Finset.mem_biUnion]
  constructor
  · rintro ⟨i, -, hi⟩
    obtain ⟨tail, htail, heq⟩ := Finset.mem_image.1 hi
    exact ⟨i, tail, htail, heq⟩
  · rintro ⟨i, tail, htail, heq⟩
    exact ⟨i, Finset.mem_univ i, Finset.mem_image.2 ⟨tail, htail, heq⟩⟩

/-- No path continues another. -/
theorem eq_of_isPrefix {t : ChoiceTree α} (h : t.Proper) {path path' : List α}
    (hpath : path ∈ t.paths) (hpath' : path' ∈ t.paths) (hle : path <+: path') : path = path' := by
  induction t generalizing path path' with
  | leaf =>
    rw [paths, Finset.mem_singleton] at hpath hpath'
    rw [hpath, hpath']
  | node n label child ih =>
    obtain ⟨i, tail, htail, rfl⟩ := mem_paths_node.1 hpath
    obtain ⟨j, tail', htail', rfl⟩ := mem_paths_node.1 hpath'
    obtain ⟨hlabel, hrest⟩ := List.cons_prefix_cons.1 hle
    have hij : i = j := h.2.1 hlabel
    subst hij
    rw [ih i (h.2.2 i) htail htail' hrest]

end Paths

/-! ## Weights -/

variable {K : Type} [Field K]

/-- A path to a leaf, with its weight. -/
inductive Walk : ChoiceTree α → List α → K → Prop where
  | leaf : Walk leaf [] 1
  | node {n : Nat} {label : Fin n → α} {child : Fin n → ChoiceTree α} {path : List α} {weight : K}
      (i : Fin n) (h : Walk (child i) path weight) :
      Walk (node n label child) (label i :: path) (n * weight)

namespace Walk

theorem leaf_iff {path : List α} {weight : K} :
    Walk ChoiceTree.leaf path weight ↔ path = [] ∧ weight = 1 := by
  constructor
  · intro h
    cases h
    exact ⟨rfl, rfl⟩
  · rintro ⟨rfl, rfl⟩
    exact .leaf

/-- The walks of a node are those of its children. -/
theorem node_iff {n : Nat} {label : Fin n → α} {child : Fin n → ChoiceTree α} {path : List α}
    {weight : K} : Walk (ChoiceTree.node n label child) path weight ↔
      ∃ i tail w, Walk (child i) tail w ∧ path = label i :: tail ∧ weight = n * w := by
  constructor
  · intro h
    cases h with
    | node i h => exact ⟨i, _, _, h, rfl, rfl⟩
  · rintro ⟨i, tail, w, h, rfl, rfl⟩
    exact .node i h

/-- A path has one weight. -/
theorem unique {t : ChoiceTree α} (ht : t.Proper) {path : List α} {weight weight' : K}
    (h : Walk t path weight) (h' : Walk t path weight') : weight = weight' := by
  induction h generalizing weight' with
  | leaf =>
    cases h'
    rfl
  | @node n label child path weight i h ih =>
    obtain ⟨j, tail, w, hw, hpath, rfl⟩ := node_iff.1 h'
    obtain ⟨hlabel, rfl⟩ := List.cons.inj hpath
    have hij : i = j := ht.2.1 hlabel
    subst hij
    rw [ih (ht.2.2 i) hw]

variable [DecidableEq α]

theorem mem_paths {t : ChoiceTree α} {path : List α} {weight : K} (h : Walk t path weight) :
    path ∈ t.paths := by
  induction h with
  | leaf => exact Finset.mem_singleton_self _
  | node i _ ih => exact mem_paths_node.2 ⟨i, _, ih, rfl⟩

theorem exists_of_mem {t : ChoiceTree α} {path : List α} (h : path ∈ t.paths) :
    ∃ weight : K, Walk t path weight := by
  induction t generalizing path with
  | leaf =>
    rw [Finset.mem_singleton.1 h]
    exact ⟨1, .leaf⟩
  | node n label child ih =>
    obtain ⟨i, tail, htail, rfl⟩ := mem_paths_node.1 h
    obtain ⟨weight, hweight⟩ := ih i htail
    exact ⟨n * weight, .node i hweight⟩

/-- The weight is a function of the path. -/
theorem exists_weight {t : ChoiceTree α} (ht : t.Proper) :
    ∃ w : List α → K, ∀ path weight, Walk t path weight ↔ path ∈ t.paths ∧ weight = w path := by
  have hchoice : ∀ path, ∃ weight : K, path ∈ t.paths → Walk t path weight := by
    intro path
    by_cases hmem : path ∈ t.paths
    · obtain ⟨weight, hweight⟩ := exists_of_mem (K := K) hmem
      exact ⟨weight, fun _ => hweight⟩
    · exact ⟨0, fun h => absurd h hmem⟩
  choose w hw using hchoice
  refine ⟨w, fun path weight => ⟨fun h => ⟨h.mem_paths, ?_⟩, ?_⟩⟩
  · exact h.unique ht (hw path h.mem_paths)
  · rintro ⟨hmem, rfl⟩
    exact hw path hmem

end Walk

/-! ## Masses -/

open Classical in
/-- The mass of a query, down the tree. -/
noncomputable def mass : ChoiceTree α → PathQuery α → K
  | leaf, q => if ∀ i, q i = none then 1 else 0
  | node n label child, q =>
    (∑ i, if q.Admits (label i) then (child i).mass q.rest else 0) / n

section Node

variable {n : Nat} {label : Fin n → α} {child : Fin n → ChoiceTree α} {q : PathQuery α}

/-- Nothing is asked of the first position. -/
theorem mass_node_none (h : q 0 = none) :
    (node n label child).mass q = (∑ i, (child i).mass q.rest : K) / n := by
  classical
  have hadmits : ∀ i, q.Admits (label i) := fun i v hv => by
    rw [h] at hv
    cases hv
  rw [mass, Finset.sum_congr rfl fun i _ => if_pos (hadmits i)]

/-- One child is asked for. -/
theorem mass_node_some (hlabel : Function.Injective label) {i : Fin n}
    (h : q 0 = some (label i)) :
    (node n label child).mass q = ((child i).mass q.rest : K) / n := by
  classical
  rw [mass]
  congr 1
  rw [Finset.sum_eq_single i]
  · refine if_pos fun v hv => ?_
    rw [h, Option.some.injEq] at hv
    exact hv.symm
  · intro j _ hne
    exact if_neg fun hadmits => hne (hlabel (hadmits _ h)).symm
  · exact fun hno => absurd (Finset.mem_univ i) hno

/-- No child is asked for. -/
theorem mass_node_absent {v : α} (h : q 0 = some v) (hv : ∀ i, label i ≠ v) :
    (node n label child).mass q = (0 : K) := by
  classical
  rw [mass, Finset.sum_eq_zero, zero_div]
  exact fun i _ => if_neg fun hadmits => hv i (hadmits v h).symm

end Node

/-! ## Nodes of lists -/

section List

/-- The node with the listed children. -/
def ofList (l : List (α × ChoiceTree α)) : ChoiceTree α :=
  node l.length (fun i => (l.get i).1) fun i => (l.get i).2

variable {l : List (α × ChoiceTree α)} {q : PathQuery α}

theorem injective_label (hnodup : (l.map (·.1)).Nodup) :
    Function.Injective fun i : Fin l.length => (l.get i).1 := by
  intro i j hij
  have heq : l.get i = l.get j :=
    List.inj_on_of_nodup_map hnodup (List.get_mem l i) (List.get_mem l j) hij
  exact (hnodup.of_map).injective_get heq

theorem proper_ofList (hne : l ≠ []) (hnodup : (l.map (·.1)).Nodup) (h : ∀ b ∈ l, b.2.Proper) :
    (ofList l).Proper :=
  ⟨List.length_pos_of_ne_nil hne, injective_label hnodup, fun i => h _ (List.get_mem l i)⟩

theorem mem_paths_ofList [DecidableEq α] {path : List α} :
    path ∈ (ofList l).paths ↔ ∃ b ∈ l, ∃ tail ∈ b.2.paths, b.1 :: tail = path := by
  rw [ofList, mem_paths_node]
  constructor
  · rintro ⟨i, h⟩
    exact ⟨_, List.get_mem l i, h⟩
  · rintro ⟨b, hb, h⟩
    obtain ⟨i, rfl⟩ := List.get_of_mem hb
    exact ⟨i, h⟩

theorem walk_ofList {path : List α} {weight : K} : Walk (ofList l) path weight ↔
    ∃ b ∈ l, ∃ tail w, Walk b.2 tail w ∧ path = b.1 :: tail ∧ weight = l.length * w := by
  rw [ofList, Walk.node_iff]
  constructor
  · rintro ⟨i, h⟩
    exact ⟨_, List.get_mem l i, h⟩
  · rintro ⟨b, hb, h⟩
    obtain ⟨i, rfl⟩ := List.get_of_mem hb
    exact ⟨i, h⟩

theorem mass_ofList_none (h : q 0 = none) :
    (ofList l).mass q = ((l.map fun b => b.2.mass q.rest).sum / l.length : K) := by
  rw [ofList, mass_node_none h, ← Fin.sum_univ_fun_getElem]
  rfl

theorem mass_ofList_some (hnodup : (l.map (·.1)).Nodup) {b : α × ChoiceTree α} (hb : b ∈ l)
    (h : q 0 = some b.1) : (ofList l).mass q = (b.2.mass q.rest / l.length : K) := by
  obtain ⟨i, rfl⟩ := List.get_of_mem hb
  exact mass_node_some (injective_label hnodup) h

theorem mass_ofList_absent {v : α} (h : q 0 = some v) (hv : v ∉ l.map (·.1)) :
    (ofList l).mass q = (0 : K) :=
  mass_node_absent h fun i heq => hv (List.mem_map.2 ⟨_, List.get_mem l i, heq⟩)

end List

variable [DecidableEq α] [CharZero K]

/-- The mass of a query is the sum of the inverse weights of the paths that match. -/
theorem mass_eq_sum {t : ChoiceTree α} (ht : t.Proper) {w : List α → K}
    (hw : ∀ path ∈ t.paths, Walk t path (w path)) (q : PathQuery α) [DecidablePred q.Matches] :
    t.mass q = ∑ path ∈ t.paths with q.Matches path, (w path)⁻¹ := by
  classical
  rw [Finset.sum_filter]
  induction t generalizing w q with
  | leaf =>
    have hone : w [] = 1 := (Walk.leaf_iff.1 (hw [] (Finset.mem_singleton_self _))).2
    rw [paths, Finset.sum_singleton, hone, inv_one, mass]
    exact if_congr PathQuery.matches_nil.symm rfl rfl
  | node n label child ih =>
    have hn : (n : K) ≠ 0 := Nat.cast_ne_zero.2 ht.1.ne'
    have hdisjoint : Set.PairwiseDisjoint (Finset.univ : Finset (Fin n)) fun i =>
        (child i).paths.image (label i :: ·) := by
      intro i _ j _ hne
      refine Finset.disjoint_left.2 fun path hi hj => hne ?_
      obtain ⟨tail, -, rfl⟩ := Finset.mem_image.1 hi
      obtain ⟨tail', -, heq⟩ := Finset.mem_image.1 hj
      exact ht.2.1 (List.cons.inj heq).1.symm
    rw [paths, Finset.sum_biUnion hdisjoint, mass, Finset.sum_div]
    refine Finset.sum_congr rfl fun i _ => ?_
    rw [Finset.sum_image fun tail _ tail' _ heq => (List.cons.inj heq).2]
    by_cases hadmits : q.Admits (label i)
    · have hbelow : ∀ tail ∈ (child i).paths, Walk (child i) tail (w (label i :: tail) / n) := by
        intro tail htail
        obtain ⟨j, tail', weight, hwalk, hpath, hweight⟩ :=
          Walk.node_iff.1 (hw _ (mem_paths_node.2 ⟨i, tail, htail, rfl⟩))
        obtain ⟨hlabel, rfl⟩ := List.cons.inj hpath
        rw [hweight, mul_div_cancel_left₀ _ hn, ht.2.1 hlabel]
        exact hwalk
      rw [if_pos hadmits, ih i (ht.2.2 i) hbelow, Finset.sum_div]
      refine Finset.sum_congr rfl fun tail _ => ?_
      by_cases hmatches : q.rest.Matches tail
      · rw [if_pos hmatches, if_pos (PathQuery.matches_cons.2 ⟨hadmits, hmatches⟩), inv_div,
          div_right_comm, div_self hn, one_div]
      · rw [if_neg hmatches, if_neg fun h => hmatches (PathQuery.matches_cons.1 h).2, zero_div]
    · rw [if_neg hadmits, zero_div, Finset.sum_eq_zero]
      exact fun tail _ => if_neg fun h => hadmits (PathQuery.matches_cons.1 h).1

omit [DecidableEq α] in
/-- All paths together have mass one. -/
theorem mass_all {t : ChoiceTree α} (ht : t.Proper) : t.mass (fun _ => none) = (1 : K) := by
  induction t with
  | leaf => exact if_pos fun _ => rfl
  | node n label child ih =>
    have hn : (n : K) ≠ 0 := Nat.cast_ne_zero.2 ht.1.ne'
    have hrest : PathQuery.rest (fun _ => none : PathQuery α) = fun _ => none := rfl
    rw [mass_node_none rfl, hrest, Finset.sum_congr rfl fun i _ => ih i (ht.2.2 i),
      Finset.sum_const, Finset.card_univ, Fintype.card_fin, nsmul_eq_mul, mul_one, div_self hn]

/-- The masses of the paths sum to one. -/
theorem sum_mass_ofPath {t : ChoiceTree α} (ht : t.Proper) :
    ∑ path ∈ t.paths, t.mass (PathQuery.ofPath path) = (1 : K) := by
  classical
  obtain ⟨w, hwalk⟩ := Walk.exists_weight (K := K) ht
  have hw : ∀ path ∈ t.paths, Walk t path (w path) := fun path hpath =>
    (hwalk path _).2 ⟨hpath, rfl⟩
  have hone : ∀ path ∈ t.paths, t.mass (PathQuery.ofPath path) = (w path)⁻¹ := by
    intro path hpath
    have hfilter : t.paths.filter (PathQuery.ofPath path).Matches = {path} := by
      refine Finset.eq_singleton_iff_unique_mem.2 ⟨?_, fun path' hpath' => ?_⟩
      · exact Finset.mem_filter.2 ⟨hpath, PathQuery.ofPath_matches.2 (List.prefix_refl _)⟩
      · obtain ⟨hmem, hmatches⟩ := Finset.mem_filter.1 hpath'
        exact (eq_of_isPrefix ht hpath hmem (PathQuery.ofPath_matches.1 hmatches)).symm
    rw [mass_eq_sum ht hw, hfilter, Finset.sum_singleton]
  have hall := mass_eq_sum ht hw (fun _ => none)
  rw [mass_all ht, Finset.filter_true_of_mem fun path _ i v hv => by cases hv] at hall
  rw [Finset.sum_congr rfl hone, hall]

/-- Fixing one more position that the paths have, and summing over its values, gives the mass. -/
theorem sum_mass_update {t : ChoiceTree α} (ht : t.Proper) {q : PathQuery α} {d : Nat}
    (hd : q d = none) {values : Finset α}
    (hvalues : ∀ path ∈ t.paths, q.Matches path → ∃ v ∈ values, path[d]? = some v) :
    ∑ v ∈ values, t.mass (Function.update q d (some v)) = (t.mass q : K) := by
  classical
  obtain ⟨w, hwalk⟩ := Walk.exists_weight (K := K) ht
  have hw : ∀ path ∈ t.paths, Walk t path (w path) := fun path hpath =>
    (hwalk path _).2 ⟨hpath, rfl⟩
  rw [mass_eq_sum ht hw q, Finset.sum_congr rfl fun v _ => mass_eq_sum ht hw _]
  rw [← Finset.sum_biUnion]
  · refine Finset.sum_congr (Finset.ext fun path => ?_) fun _ _ => rfl
    rw [Finset.mem_biUnion, Finset.mem_filter]
    constructor
    · rintro ⟨v, -, hv⟩
      obtain ⟨hmem, hmatches⟩ := Finset.mem_filter.1 hv
      exact ⟨hmem, ((PathQuery.update_matches hd).1 hmatches).1⟩
    · rintro ⟨hmem, hmatches⟩
      obtain ⟨v, hv, hat⟩ := hvalues path hmem hmatches
      exact ⟨v, hv, Finset.mem_filter.2 ⟨hmem, (PathQuery.update_matches hd).2 ⟨hmatches, hat⟩⟩⟩
  · intro v _ v' _ hne
    refine Finset.disjoint_left.2 fun path hv hv' => hne ?_
    have hat := ((PathQuery.update_matches hd).1 (Finset.mem_filter.1 hv).2).2
    have hat' := ((PathQuery.update_matches hd).1 (Finset.mem_filter.1 hv').2).2
    exact Option.some.inj (hat.symm.trans hat')

end ChoiceTree

end Gammaboard.Lib
