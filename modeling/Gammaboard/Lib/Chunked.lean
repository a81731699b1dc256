import Mathlib.Data.List.Basic
import Mathlib.Data.List.TakeDrop

/-!
# A stream that arrives in pieces

A buffered source of elements: what is buffered, and the reads to come. `readUntil` collects up
to a delimiter, `readExact` a given number. What they return depends on the contents of the
source alone, however it is cut into reads.
-/

namespace Gammaboard.Lib

/-- A buffer and the reads to come; a read brings something, and the source ends after the last. -/
structure Chunked (α : Type) where
  buffer : List α
  reads : List {c : List α // c ≠ []}

namespace Chunked

variable {α : Type}

/-- All that is still to be taken. -/
def contents (s : Chunked α) : List α := s.buffer ++ (s.reads.map (·.1)).flatten

/-- An empty buffer is refilled by the next read. -/
def fillBuf (s : Chunked α) : Chunked α :=
  match s.buffer, s.reads with
  | [], c :: cs => ⟨c.1, cs⟩
  | _, _ => s

def consume (s : Chunked α) (n : Nat) : Chunked α := { s with buffer := s.buffer.drop n }

@[simp]
theorem contents_fillBuf (s : Chunked α) : s.fillBuf.contents = s.contents := by
  obtain ⟨buffer, reads⟩ := s
  cases buffer with
  | nil => cases reads <;> simp [fillBuf, contents]
  | cons a buffer => rfl

theorem buffer_fillBuf_eq_nil (s : Chunked α) : s.fillBuf.buffer = [] ↔ s.contents = [] := by
  obtain ⟨buffer, reads⟩ := s
  cases buffer with
  | nil =>
    cases reads with
    | nil => simp [fillBuf, contents]
    | cons c cs => simp [fillBuf, contents, c.2]
  | cons a buffer => simp [fillBuf, contents]

theorem contents_consume {s : Chunked α} {n : Nat} (h : n ≤ s.buffer.length) :
    (s.consume n).contents = s.contents.drop n := by
  unfold contents consume
  rw [List.drop_append_of_le_length h]

theorem take_contents {s : Chunked α} {n : Nat} (h : n ≤ s.buffer.length) :
    s.contents.take n = s.buffer.take n := by
  unfold contents
  rw [List.take_append_of_le_length h]

/-! ## A given number of elements -/

/-- Take `left` more elements, or nothing when the source ends before. -/
def readExact : Nat → Nat → List α → Chunked α → Option (List α × Chunked α)
  | _, 0, taken, s => some (taken, s)
  | 0, _ + 1, _, _ => none
  | fuel + 1, left + 1, taken, s =>
    if s.fillBuf.buffer = [] then none
    else
      let count := min s.fillBuf.buffer.length (left + 1)
      readExact fuel (left + 1 - count) (taken ++ s.fillBuf.buffer.take count)
        (s.fillBuf.consume count)

theorem readExact_append {fuel : Nat} (taken : List α) {xs rest : List α} {s : Chunked α}
    (hs : s.contents = xs ++ rest) (hfuel : xs.length ≤ fuel) :
    ∃ s', readExact fuel xs.length taken s = some (taken ++ xs, s') ∧ s'.contents = rest := by
  induction fuel generalizing taken xs s with
  | zero =>
    obtain rfl : xs = [] := List.length_eq_zero_iff.1 (by omega)
    exact ⟨s, by simp [readExact], by simpa using hs⟩
  | succ fuel ih =>
    cases xs with
    | nil => exact ⟨s, by simp [readExact], by simpa using hs⟩
    | cons x xs =>
      have hbuf : s.fillBuf.buffer ≠ [] := by
        rw [ne_eq, buffer_fillBuf_eq_nil, hs]
        simp
      have hpos : 0 < s.fillBuf.buffer.length := List.length_pos_iff.2 hbuf
      obtain ⟨count, hcount⟩ : ∃ count, count = min s.fillBuf.buffer.length (xs.length + 1) :=
        ⟨_, rfl⟩
      have hle : count ≤ s.fillBuf.buffer.length := by omega
      have hlen : count ≤ (x :: xs).length := by
        rw [List.length_cons]
        omega
      have htake : s.fillBuf.buffer.take count = (x :: xs).take count := by
        rw [← take_contents hle, contents_fillBuf, hs, List.take_append_of_le_length hlen]
      have hdrop : (s.fillBuf.consume count).contents = (x :: xs).drop count ++ rest := by
        rw [contents_consume hle, contents_fillBuf, hs, List.drop_append_of_le_length hlen]
      obtain ⟨s', hread, hrest⟩ := ih (taken ++ s.fillBuf.buffer.take count) hdrop (by
        rw [List.length_drop, List.length_cons]
        rw [List.length_cons] at hfuel
        omega)
      refine ⟨s', ?_, hrest⟩
      rw [List.length_drop, List.length_cons, htake] at hread
      simp only [List.length_cons, readExact, if_neg hbuf, ← hcount, htake]
      rw [hread, List.append_assoc, List.take_append_drop]

theorem readExact_shortens {fuel left : Nat} {taken out : List α} {s s' : Chunked α}
    (h : readExact fuel left taken s = some (out, s')) :
    s'.contents.length ≤ s.contents.length := by
  induction fuel generalizing left taken s with
  | zero =>
    cases left with
    | zero =>
      cases h
      exact Nat.le_refl _
    | succ left => cases h
  | succ fuel ih =>
    cases left with
    | zero =>
      cases h
      exact Nat.le_refl _
    | succ left =>
      unfold readExact at h
      split at h
      · cases h
      · have hle := ih h
        rw [contents_consume (Nat.min_le_left _ _), contents_fillBuf, List.length_drop] at hle
        omega

/-! ## Up to a delimiter -/

/-- How a search for the delimiter ends. -/
inductive Until (α : Type) where
  | found (taken : List α) (s : Chunked α)
  | ended (taken : List α) (s : Chunked α)
  | exceeds
  | stuck

variable [DecidableEq α]

/-- Take everything up to and with the delimiter, `limit` elements at most. At the limit the
search takes nothing more and looks at the same buffer again. -/
def readUntil (delimiter : α) (limit : Nat) : Nat → List α → Chunked α → Until α
  | 0, _, _ => .stuck
  | fuel + 1, taken, s =>
    if s.fillBuf.buffer = [] then .ended taken s.fillBuf
    else
      let remaining := limit - taken.length
      let position := s.fillBuf.buffer.findIdx? (· == delimiter)
      let count := match position with
        | some index => index + 1
        | none => min s.fillBuf.buffer.length remaining
      if remaining < count then .exceeds
      else if position.isSome then
        .found (taken ++ s.fillBuf.buffer.take count) (s.fillBuf.consume count)
      else
        readUntil delimiter limit fuel (taken ++ s.fillBuf.buffer.take count)
          (s.fillBuf.consume count)

theorem position_of_append {delimiter : α} {xs rest : List α} {s : Chunked α}
    (hs : s.contents = xs ++ delimiter :: rest) (hxs : delimiter ∉ xs) :
    (s.fillBuf.buffer.findIdx? (· == delimiter) = some xs.length ∧
      xs.length + 1 ≤ s.fillBuf.buffer.length) ∨
    (s.fillBuf.buffer.findIdx? (· == delimiter) = none ∧
      s.fillBuf.buffer.length ≤ xs.length) := by
  obtain ⟨later, hlater⟩ : ∃ later, s.fillBuf.buffer ++ later = xs ++ delimiter :: rest :=
    ⟨_, (contents_fillBuf s).trans hs⟩
  generalize s.fillBuf.buffer = buffer at hlater
  rcases List.append_eq_append_iff.1 hlater with ⟨ys, hys, -⟩ | ⟨ys, hys, htail⟩
  · -- the buffer stops before the delimiter
    refine .inr ⟨?_, ?_⟩
    · rw [List.findIdx?_eq_none_iff]
      intro x hx
      have hmem : x ∈ xs := hys ▸ List.mem_append_left _ hx
      simp only [beq_eq_false_iff_ne, ne_eq]
      rintro rfl
      exact hxs hmem
    · rw [hys, List.length_append]
      omega
  · cases ys with
    | nil =>
      refine .inr ⟨?_, by simp [hys]⟩
      rw [List.findIdx?_eq_none_iff, hys, List.append_nil]
      intro x hx
      simp only [beq_eq_false_iff_ne, ne_eq]
      rintro rfl
      exact hxs hx
    | cons y ys =>
      obtain ⟨rfl, -⟩ := List.cons.inj htail
      refine .inl ⟨?_, by simp [hys]⟩
      have hnone : xs.findIdx? (· == delimiter) = none := by
        rw [List.findIdx?_eq_none_iff]
        intro x hx
        simp only [beq_eq_false_iff_ne, ne_eq]
        rintro rfl
        exact hxs hx
      simp [hys, List.findIdx?_append, hnone, List.findIdx?_cons]

/-- A line within the limit is found in every cutting of the source. -/
theorem readUntil_append {delimiter : α} {limit fuel : Nat} {xs rest : List α}
    {s : Chunked α} (hs : s.contents = xs ++ delimiter :: rest) (hxs : delimiter ∉ xs)
    (taken : List α) (hlimit : taken.length + xs.length + 1 ≤ limit) (hfuel : xs.length < fuel) :
    ∃ s', readUntil delimiter limit fuel taken s = .found (taken ++ xs ++ [delimiter]) s' ∧
      s'.contents = rest := by
  induction fuel generalizing taken xs s with
  | zero => omega
  | succ fuel ih =>
    have hbuf : s.fillBuf.buffer ≠ [] := by
      rw [ne_eq, buffer_fillBuf_eq_nil, hs]
      simp
    have hpos : 0 < s.fillBuf.buffer.length := List.length_pos_iff.2 hbuf
    have hfilled := (contents_fillBuf s).trans hs
    rcases position_of_append hs hxs with ⟨hposition, hlen⟩ | ⟨hposition, hlen⟩
    · refine ⟨s.fillBuf.consume (xs.length + 1), ?_, ?_⟩
      · have htake : s.fillBuf.buffer.take (xs.length + 1) = xs ++ [delimiter] := by
          rw [← take_contents hlen, hfilled, List.take_append]
          simp
        have hnot : ¬ limit - taken.length < xs.length + 1 := by omega
        simp only [readUntil, if_neg hbuf, hposition, if_neg hnot, Option.isSome_some, if_true,
          htake, List.append_assoc]
      · rw [contents_consume hlen, hfilled, List.drop_append]
        simp
    · have hcount : min s.fillBuf.buffer.length (limit - taken.length) =
          s.fillBuf.buffer.length := by omega
      have hnot : ¬ limit - taken.length < s.fillBuf.buffer.length := by omega
      have htake : s.fillBuf.buffer = xs.take s.fillBuf.buffer.length := by
        have h := take_contents (Nat.le_refl s.fillBuf.buffer.length)
        rw [hfilled, List.take_append_of_le_length hlen, List.take_length] at h
        exact h.symm
      have hrest : (s.fillBuf.consume s.fillBuf.buffer.length).contents =
          xs.drop s.fillBuf.buffer.length ++ delimiter :: rest := by
        rw [contents_consume (Nat.le_refl _), hfilled, List.drop_append_of_le_length hlen]
      obtain ⟨s', hread, hs'⟩ := ih hrest (fun h => hxs (List.mem_of_mem_drop h))
        (taken ++ s.fillBuf.buffer)
        (by rw [List.length_append, List.length_drop]; omega)
        (by rw [List.length_drop]; omega)
      refine ⟨s', ?_, hs'⟩
      simp only [readUntil, if_neg hbuf, hposition, hcount, if_neg hnot, Option.isSome_none,
        List.take_length, Bool.false_eq_true, if_false]
      rw [hread, List.append_assoc taken, htake, List.length_take, Nat.min_eq_left hlen,
        List.take_append_drop]

/-- What is found is the first line, and within the limit. -/
theorem readUntil_found {delimiter : α} {limit fuel : Nat} {taken out xs rest : List α}
    {s s' : Chunked α} (h : readUntil delimiter limit fuel taken s = .found out s')
    (hs : s.contents = xs ++ delimiter :: rest) (hxs : delimiter ∉ xs) :
    taken.length + xs.length + 1 ≤ limit := by
  induction fuel generalizing taken xs s with
  | zero => cases h
  | succ fuel ih =>
    have hfilled := (contents_fillBuf s).trans hs
    unfold readUntil at h
    split at h
    · cases h
    · rcases position_of_append hs hxs with ⟨hposition, hlen⟩ | ⟨hposition, hlen⟩
      · simp only [hposition] at h
        split at h
        · cases h
        · omega
      · simp only [hposition] at h
        split at h
        · cases h
        · simp only [Option.isSome_none, Bool.false_eq_true, if_false] at h
          have hcount : min s.fillBuf.buffer.length (limit - taken.length) ≤
            s.fillBuf.buffer.length := by omega
          have hrest := contents_consume hcount
          rw [hfilled, List.drop_append_of_le_length (by omega)] at hrest
          have := ih h hrest (fun h => hxs (List.mem_of_mem_drop h))
          rw [List.length_append, List.length_take, List.length_drop] at this
          omega

/-- A search that finds the delimiter leaves less than there was. -/
theorem readUntil_shortens {delimiter : α} {limit fuel : Nat} {taken out : List α}
    {s s' : Chunked α} (h : readUntil delimiter limit fuel taken s = .found out s') :
    s'.contents.length < s.contents.length := by
  induction fuel generalizing taken s with
  | zero => cases h
  | succ fuel ih =>
    have hlen : s.contents.length = s.fillBuf.contents.length := by rw [contents_fillBuf]
    have hle : s.fillBuf.buffer.length ≤ s.fillBuf.contents.length := by simp [contents]
    unfold readUntil at h
    split at h
    · cases h
    · cases hposition : s.fillBuf.buffer.findIdx? (· == delimiter) with
      | some index =>
        have hindex : index < s.fillBuf.buffer.length :=
          (List.findIdx?_eq_some_iff_findIdx_eq.1 hposition).1
        simp only [hposition, Option.isSome_some, if_true] at h
        split at h
        · cases h
        · cases h
          rw [contents_consume (by omega), List.length_drop]
          omega
      | none =>
        simp only [hposition, Option.isSome_none, Bool.false_eq_true, if_false] at h
        split at h
        · cases h
        · have hless := ih h
          rw [contents_consume (by omega), List.length_drop] at hless
          omega

/-- The search ends only where no delimiter is left. -/
theorem readUntil_ended {delimiter : α} {limit fuel : Nat} {taken out : List α}
    {s s' : Chunked α} (h : readUntil delimiter limit fuel taken s = .ended out s') :
    delimiter ∉ s.contents := by
  induction fuel generalizing taken s with
  | zero => cases h
  | succ fuel ih =>
    unfold readUntil at h
    split at h
    · rename_i hempty
      rw [(buffer_fillBuf_eq_nil s).1 hempty]
      exact List.not_mem_nil
    · cases hposition : s.fillBuf.buffer.findIdx? (· == delimiter) with
      | some index =>
        simp only [hposition, Option.isSome_some, if_true] at h
        split at h <;> cases h
      | none =>
        simp only [hposition, Option.isSome_none, Bool.false_eq_true, if_false] at h
        split at h
        · cases h
        · have hlater := ih h
          rw [contents_consume (Nat.min_le_left _ _), contents_fillBuf] at hlater
          intro hmem
          rw [← List.take_append_drop (min s.fillBuf.buffer.length (limit - taken.length))
            s.contents] at hmem
          rcases List.mem_append.1 hmem with hmem | hmem
          · rw [← contents_fillBuf, take_contents (Nat.min_le_left _ _)] at hmem
            have hnot := List.findIdx?_eq_none_iff.1 hposition _ (List.mem_of_mem_take hmem)
            simp at hnot
          · exact hlater hmem

end Chunked

end Gammaboard.Lib
