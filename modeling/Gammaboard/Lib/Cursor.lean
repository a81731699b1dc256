import Mathlib.Data.List.Sort
import Mathlib.Data.List.TakeWhile
import Mathlib.Order.Lattice

/-!
# A cursor over an ascending table

A table whose rows have strictly ascending keys, read in order by a consumer
that remembers the key of the last row it has consumed. `settled` is what the
cursor has passed and `frontier` what is still ahead.
-/

namespace Gammaboard.Lib

universe u v

variable {α : Type u} {κ : Type v} [LinearOrder κ] (key : α → κ)

/-- The keys ascend strictly. -/
def Ascends (l : List α) : Prop := l.Pairwise fun a b => key a < key b

/-- What the cursor has passed. -/
def settled (c : κ) (l : List α) : List α := l.filter fun x => key x ≤ c

/-- What is still ahead of the cursor. -/
def frontier (c : κ) (l : List α) : List α := l.filter fun x => c < key x

variable {key} {l m : List α} {c : κ}

@[simp] theorem mem_settled {x : α} : x ∈ settled key c l ↔ x ∈ l ∧ key x ≤ c := by
  simp [settled]

@[simp] theorem mem_frontier {x : α} : x ∈ frontier key c l ↔ x ∈ l ∧ c < key x := by
  simp [frontier]

@[simp] theorem settled_nil : settled key c [] = [] := rfl

@[simp] theorem frontier_nil : frontier key c [] = [] := rfl

theorem settled_append : settled key c (l ++ m) = settled key c l ++ settled key c m :=
  List.filter_append ..

theorem frontier_append : frontier key c (l ++ m) = frontier key c l ++ frontier key c m :=
  List.filter_append ..

theorem settled_eq_self (h : ∀ x ∈ l, key x ≤ c) : settled key c l = l :=
  List.filter_eq_self.2 fun x hx => by simp [h x hx]

theorem settled_eq_nil (h : ∀ x ∈ l, c < key x) : settled key c l = [] :=
  List.filter_eq_nil_iff.2 fun x hx => by simp [h x hx]

theorem frontier_eq_self (h : ∀ x ∈ l, c < key x) : frontier key c l = l :=
  List.filter_eq_self.2 fun x hx => by simp [h x hx]

theorem frontier_eq_nil (h : ∀ x ∈ l, key x ≤ c) : frontier key c l = [] :=
  List.filter_eq_nil_iff.2 fun x hx => by simp [h x hx]

/-- Tests that agree on a list take the same first elements of it. -/
theorem takeWhile_congr_of_mem {p q : α → Bool} {l : List α} (h : ∀ x ∈ l, p x = q x) :
    l.takeWhile p = l.takeWhile q := by
  induction l with
  | nil => rfl
  | cons x l ih =>
    rw [List.takeWhile_cons, List.takeWhile_cons, h x List.mem_cons_self,
      ih fun y hy => h y (List.mem_cons_of_mem _ hy)]

namespace Ascends

theorem sublist (h : Ascends key l) (hm : m.Sublist l) : Ascends key m := List.Pairwise.sublist hm h

theorem settled (h : Ascends key l) : Ascends key (settled key c l) := h.sublist List.filter_sublist

theorem frontier (h : Ascends key l) : Ascends key (frontier key c l) :=
  h.sublist List.filter_sublist

theorem nodup (h : Ascends key l) : l.Nodup :=
  h.imp fun hab heq => absurd (heq ▸ hab) (lt_irrefl _)

theorem nodup_map (h : Ascends key l) : (l.map key).Nodup :=
  (List.pairwise_map.2 h).imp fun hab => hab.ne

/-- An element is found by its key. -/
theorem eq_of_key (h : Ascends key l) {x y : α} (hx : x ∈ l) (hy : y ∈ l) (hk : key x = key y) :
    x = y :=
  List.inj_on_of_nodup_map h.nodup_map hx hy hk

theorem append (h : Ascends key l) (hm : Ascends key m) (hlm : ∀ x ∈ l, ∀ y ∈ m, key x < key y) :
    Ascends key (l ++ m) :=
  List.pairwise_append.2 ⟨h, hm, hlm⟩

/-- A row with a new key goes to its place. -/
theorem orderedInsert (h : Ascends key l) {x : α} (hx : ∀ y ∈ l, key y ≠ key x) :
    Ascends key (l.orderedInsert (fun a b => key a ≤ key b) x) := by
  induction l with
  | nil => exact List.pairwise_singleton _ _
  | cons y l ih =>
    obtain ⟨hy, hl⟩ := List.pairwise_cons.1 h
    by_cases hle : key x ≤ key y
    · rw [List.orderedInsert_cons, if_pos hle]
      have hlt : key x < key y := lt_of_le_of_ne hle (hx y List.mem_cons_self).symm
      refine List.pairwise_cons.2 ⟨fun z hz => ?_, h⟩
      rcases List.mem_cons.1 hz with rfl | hz
      · exact hlt
      · exact hlt.trans (hy z hz)
    · rw [List.orderedInsert_cons, if_neg hle]
      refine List.pairwise_cons.2 ⟨fun z hz => ?_, ih hl fun z hz => hx z (List.mem_cons_of_mem _ hz)⟩
      rcases (List.mem_orderedInsert _).1 hz with rfl | hz
      · exact not_le.1 hle
      · exact hy z hz

/-- Two ascending tables with the same rows are the same table. -/
theorem eq_of_mem_iff (h : Ascends key l) (h' : Ascends key m) (hmem : ∀ x, x ∈ l ↔ x ∈ m) :
    l = m := by
  have hperm : l.Perm m := (List.perm_ext_iff_of_nodup h.nodup h'.nodup).2 hmem
  refine hperm.eq_of_pairwise (fun a b _ _ hab hba => ?_) h h'
  exact absurd hba hab.asymm

/-- The cursor splits the table. -/
theorem settled_append_frontier (h : Ascends key l) :
    Lib.settled key c l ++ Lib.frontier key c l = l := by
  have hsorted : Ascends key (Lib.settled key c l ++ Lib.frontier key c l) := by
    refine h.settled.append h.frontier fun x hx y hy => ?_
    exact (mem_settled.1 hx).2.trans_lt (mem_frontier.1 hy).2
  refine hsorted.eq_of_mem_iff h fun x => ?_
  rcases le_or_gt (key x) c with hx | hx
  · simp [hx, hx.not_gt]
  · simp [hx, hx.not_ge]

/-- Consuming a nonempty part of the frontier moves the cursor to its last row. -/
theorem advance (h : Ascends key l) {done rest : List α} {x : α}
    (hf : Lib.frontier key c l = done ++ rest) (hx : done.getLast? = some x) :
    Lib.settled key (key x) l = Lib.settled key c l ++ done ∧
      Lib.frontier key (key x) l = rest := by
  have hsplit := h.settled_append_frontier (c := c)
  have hfront : Ascends key (done ++ rest) := hf ▸ h.frontier
  obtain ⟨init, rfl⟩ := List.getLast?_eq_some_iff.1 hx
  have hbelow : ∀ y ∈ Lib.settled key c l, key y ≤ key x := by
    intro y hy
    have hxf : x ∈ Lib.frontier key c l := by simp [hf]
    exact ((mem_settled.1 hy).2.trans_lt (mem_frontier.1 hxf).2).le
  have hdone : ∀ y ∈ init ++ [x], key y ≤ key x := by
    intro y hy
    rcases List.mem_append.1 hy with hy | hy
    · exact ((List.pairwise_append.1 (List.pairwise_append.1 hfront).1).2.2 y hy x
        (List.mem_singleton.2 rfl)).le
    · rw [List.mem_singleton.1 hy]
  have hrest : ∀ y ∈ rest, key x < key y := fun y hy =>
    (List.pairwise_append.1 hfront).2.2 x (by simp) y hy
  rw [hf] at hsplit
  constructor
  · calc Lib.settled key (key x) l
        = Lib.settled key (key x) (Lib.settled key c l ++ (init ++ [x] ++ rest)) := by rw [hsplit]
      _ = Lib.settled key c l ++ (init ++ [x] ++ []) := by
        rw [settled_append, settled_append, settled_eq_self hbelow, settled_eq_self hdone,
          settled_eq_nil hrest]
      _ = Lib.settled key c l ++ (init ++ [x]) := by simp
  · calc Lib.frontier key (key x) l
        = Lib.frontier key (key x) (Lib.settled key c l ++ (init ++ [x] ++ rest)) := by rw [hsplit]
      _ = rest := by
        rw [frontier_append, frontier_append, frontier_eq_nil hbelow, frontier_eq_nil hdone,
          frontier_eq_self hrest]
        rfl

/-- The rows that pass a test and lie before the first row that fails it. -/
theorem filter_before_first [Std.LawfulOrderMin κ] (h : Ascends key l)
    (q : α → Bool) :
    (l.filter fun x =>
        q x && ((l.filter fun y => !q y).map key).min?.all fun first => decide (key x < first)) =
      l.takeWhile q := by
  induction l with
  | nil => rfl
  | cons x l ih =>
    obtain ⟨hx, hl⟩ := List.pairwise_cons.1 h
    by_cases hq : q x = true
    · have hfirst : ((x :: l).filter fun y => !q y) = l.filter fun y => !q y := by simp [hq]
      have hkeep : (((l.filter fun y => !q y).map key).min?.all fun first => decide (key x < first))
          = true := by
        cases hmin : ((l.filter fun y => !q y).map key).min? with
        | none => rfl
        | some first =>
          obtain ⟨y, hy, rfl⟩ := List.mem_map.1 (List.min?_mem hmin)
          simpa using hx y (List.mem_filter.1 hy).1
      rw [hfirst, List.filter_cons, if_pos (by simp [hq, hkeep]), List.takeWhile_cons, if_pos hq,
        ih hl]
    · have hmin : (((x :: l).filter fun y => !q y).map key).min? = some (key x) := by
        rw [List.filter_cons, if_pos (by simp [hq]), List.map_cons]
        refine List.min?_eq_some_iff.2 ⟨List.mem_cons_self, fun k hk => ?_⟩
        rcases List.mem_cons.1 hk with rfl | hk
        · exact le_rfl
        · obtain ⟨y, hy, rfl⟩ := List.mem_map.1 hk
          exact (hx y (List.mem_filter.1 hy).1).le
      rw [hmin, List.takeWhile_cons, if_neg hq]
      refine List.filter_eq_nil_iff.2 fun y hy => ?_
      have hle : key x ≤ key y := by
        rcases List.mem_cons.1 hy with rfl | hy
        · exact le_rfl
        · exact (hx y hy).le
      simp [hle.not_gt]

/-- Two tables that agree below a bound have the same first rows that pass a test, when only rows
below the bound pass it. -/
theorem takeWhile_agree (h : Ascends key l) (h' : Ascends key m) {b : κ}
    (hagree : ∀ x, key x < b → (x ∈ l ↔ x ∈ m)) {p : α → Bool} (hp : ∀ x, p x = true → key x < b)
    (n : Nat) : (l.take n).takeWhile p = (m.take n).takeWhile p := by
  induction l generalizing m n with
  | nil =>
    cases m with
    | nil => rfl
    | cons y m =>
      have hy : ¬ p y = true := fun hy => by simpa using (hagree y (hp y hy)).2
      cases n <;> simp [hy]
  | cons x l ih =>
    obtain ⟨hx, hl⟩ := List.pairwise_cons.1 h
    cases m with
    | nil =>
      have hx : ¬ p x = true := fun hx => by simpa using (hagree x (hp x hx)).1
      cases n <;> simp [hx]
    | cons y m =>
      obtain ⟨hy, hm⟩ := List.pairwise_cons.1 h'
      cases n with
      | zero => rfl
      | succ n =>
        by_cases hxb : key x < b
        · -- the least row of each table is in the other, so they are the same
          have hxy : x = y := by
            rcases List.mem_cons.1 ((hagree x hxb).1 (by simp)) with hxy | hxm
            · exact hxy
            · have hlt := hy x hxm
              rcases List.mem_cons.1 ((hagree y (hlt.trans hxb)).2 (by simp)) with hyx | hyl
              · exact hyx.symm
              · exact absurd (hx y hyl) hlt.not_gt
          subst hxy
          have hrest := ih hl hm (fun z hz => ?_) n
          · simp only [List.take_succ_cons, List.takeWhile_cons, hrest]
          · constructor
            · intro hzl
              rcases List.mem_cons.1 ((hagree z hz).1 (List.mem_cons_of_mem _ hzl)) with rfl | hzm
              · exact absurd (hx z hzl) (lt_irrefl _)
              · exact hzm
            · intro hzm
              rcases List.mem_cons.1 ((hagree z hz).2 (List.mem_cons_of_mem _ hzm)) with rfl | hzl
              · exact absurd (hy z hzm) (lt_irrefl _)
              · exact hzl
        · have hpx : ¬ p x = true := fun hpx => hxb (hp x hpx)
          have hpy : ¬ p y = true := by
            intro hpy
            rcases List.mem_cons.1 ((hagree y (hp y hpy)).2 (by simp)) with rfl | hyl
            · exact hpx hpy
            · exact hxb ((hx y hyl).trans (hp y hpy))
          simp [hpx, hpy]

end Ascends

end Gammaboard.Lib
