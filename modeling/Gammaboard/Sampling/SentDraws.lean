import Gammaboard.Sampling.ProcessGeneration
import Mathlib.Data.Int.Order.Basic

/-!
# Draws as a worker sends them

A draw is sent as three columns and the offsets that cut two of them into rows. Decoding a reply
gives the rows of the only draw it can be the text of, and an error where there is none. It never
panics: the offsets are read before they are used, and what they delimit is in the block.
-/

namespace Gammaboard.Sampling

open Gammaboard.Core Gammaboard.Lib Gammaboard.Utils
open Gammaboard.Runners (Generation)

variable {N R α : Type}

namespace Columns

/-- The columns one after the other. -/
def bytes (c : Columns) : List UInt8 :=
  c.discrete.flatMap i64ToLeBytes ++
    (c.continuous.flatMap F64.toLeBytes ++ c.weights.flatMap F64.toLeBytes)

/-- Integers of 64 bits, and weights that are positive and finite. -/
structure Valid (c : Columns) : Prop where
  discrete : ∀ v ∈ c.discrete, -2 ^ 63 ≤ v ∧ v < 2 ^ 63
  weights : ∀ w ∈ c.weights, w.isFinite = true ∧ w.leZero = false

end Columns

structure Sent where
  columns : Columns
  discreteOffsets : List Nat
  continuousOffsets : List Nat
  trainingRemaining : Option Nat

namespace Sent

def nrSamples (s : Sent) : Nat := s.columns.weights.length

/-- The part of a column between an offset and the next. -/
def part (values : List α) (offsets : List Nat) (index : Nat) : List α :=
  (values.drop (offsets.getD index 0)).take (offsets.getD (index + 1) 0 - offsets.getD index 0)

def row (s : Sent) (index : Nat) (weight : F64) : List Int × List F64 × F64 :=
  (part s.columns.discrete s.discreteOffsets index,
    part s.columns.continuous s.continuousOffsets index, weight)

def rows (s : Sent) : List (List Int × List F64 × F64) := s.columns.weights.mapIdx s.row

@[simp] theorem length_rows (s : Sent) : s.rows.length = s.nrSamples := List.length_mapIdx

/-- The draw as the queue takes it. -/
def batch (s : Sent) : LatentBatch (LatentBatchPayload F64 R) :=
  ⟨s.nrSamples, (IndexedBatchBuilder.new.pushAll s.rows).finish⟩

end Sent

/-- The offsets of `n` rows, of a column of the given length. -/
structure Delimits (offsets : List Nat) (n total : Nat) : Prop where
  length : offsets.length = n + 1
  start : offsets.head? = some 0
  ascending : offsets.Pairwise (· ≤ ·)
  stop : offsets.getLast? = some total

/-- The offsets of `n` rows of one width. -/
def uniformOffsets (n width : Nat) : List Nat := (List.range (n + 1)).map (· * width)

/-- The offsets a reply gives, or those of the fixed width where it gives none. -/
inductive OffsetsOf (response : Json N) (field : String) (n fixedWidth : Nat) : List Nat → Prop where
  | given {items : List (Json N)} {offsets : List Nat}
      (h : response.get? field = some (.array items))
      (hitems : items.map Json.asU64 = offsets.map some) :
      OffsetsOf response field n fixedWidth offsets
  | omitted (h : response.get? field = none) :
      OffsetsOf response field n fixedWidth (uniformOffsets n fixedWidth)

/-- The reply and its block are those of the draw. -/
structure Sends (domain : Utils.Domain) (maxSamples : Nat) (response : Json N) (binary : List UInt8)
    (s : Sent) : Prop where
  kind : (response.get? "kind").bind Json.asStr = some "batch"
  count : (response.get? "nr_samples").bind Json.asU64 = some s.nrSamples
  positive : 0 < s.nrSamples
  bounded : s.nrSamples ≤ maxSamples
  training : s.trainingRemaining = none ∧
      (response.get? "training_remaining" = none ∨
        response.get? "training_remaining" = some .null) ∨
    ∃ m, s.trainingRemaining = some m ∧ s.nrSamples ≤ m ∧
      (response.get? "training_remaining").bind Json.asU64 = some m
  discreteOffsets : OffsetsOf response "xs_discrete_offsets" s.nrSamples
    (domain.fixedDiscreteDepth.getD 0) s.discreteOffsets
  continuousOffsets : OffsetsOf response "xs_continuous_offsets" s.nrSamples
    (domain.fixedContinuousDims.getD 0) s.continuousOffsets
  discreteRows : Delimits s.discreteOffsets s.nrSamples s.columns.discrete.length
  continuousRows : Delimits s.continuousOffsets s.nrSamples s.columns.continuous.length
  valid : s.columns.Valid
  block : binary = s.columns.bytes
  /-- No block is longer. -/
  fits : binary.length < usizeLimit

/-! ## The words of a block -/

theorem F64.fromLeBytes_toLeBytes (x : F64) : F64.fromLeBytes x.toLeBytes = x := by
  have hlt : x.bits.toNat < 256 ^ 8 := x.bits.toNat_lt
  unfold F64.fromLeBytes F64.toLeBytes
  rw [leNat_leBytes hlt, UInt64.ofNat_toNat]

theorem F64.toLeBytes_fromLeBytes {bytes : List UInt8} (h : bytes.length = 8) :
    (F64.fromLeBytes bytes).toLeBytes = bytes := by
  have hlt := leNat_lt bytes
  rw [h] at hlt
  have hbits : (UInt64.ofNat (leNat bytes)).toNat = leNat bytes := by
    rw [UInt64.toNat_ofNat']
    exact Nat.mod_eq_of_lt hlt
  have hback := leBytes_leNat bytes
  rw [h] at hback
  unfold F64.fromLeBytes F64.toLeBytes
  dsimp only
  rw [hbits, hback]

theorem i64FromLeBytes_range {bytes : List UInt8} (h : bytes.length = 8) :
    -2 ^ 63 ≤ i64FromLeBytes bytes ∧ i64FromLeBytes bytes < 2 ^ 63 := by
  have hlt := leNat_lt bytes
  rw [h] at hlt
  unfold i64FromLeBytes
  split <;> omega

theorem i64FromLeBytes_toLeBytes {v : Int} (h : -2 ^ 63 ≤ v ∧ v < 2 ^ 63) :
    i64FromLeBytes (i64ToLeBytes v) = v := by
  have hlt : (v % 2 ^ 64).toNat < 256 ^ 8 := by omega
  unfold i64FromLeBytes i64ToLeBytes
  rw [leNat_leBytes hlt]
  split <;> omega

theorem i64ToLeBytes_fromLeBytes {bytes : List UInt8} (h : bytes.length = 8) :
    i64ToLeBytes (i64FromLeBytes bytes) = bytes := by
  have hlt := leNat_lt bytes
  have hback := leBytes_leNat bytes
  rw [h] at hlt hback
  have hword : (i64FromLeBytes bytes % 2 ^ 64).toNat = leNat bytes := by
    unfold i64FromLeBytes
    split <;> omega
  unfold i64ToLeBytes
  rw [hword, hback]

theorem length_toLeBytes (x : F64) : x.toLeBytes.length = 8 := length_leBytes _ _

theorem length_i64ToLeBytes (v : Int) : (i64ToLeBytes v).length = 8 := length_leBytes _ _

theorem readLe_eq_ok {fromLeBytes : List UInt8 → α} {bytes : List UInt8} {byteOffset count : Nat}
    {values : List α} {next : Nat} :
    readLe fromLeBytes bytes byteOffset count = .ok (values, next) ↔
      next = byteOffset + count * 8 ∧ next ≤ bytes.length ∧ next < usizeLimit ∧
        values = (chunksExact 8 ((bytes.drop byteOffset).take (count * 8))).map fromLeBytes := by
  unfold readLe checkedBinaryEnd
  split
  · exact ⟨(fun h => by cases h), fun h => by omega⟩
  · split
    · exact ⟨(fun h => by cases h), fun h => by omega⟩
    · rw [Except.bind]
      split
      · exact ⟨(fun h => by cases h), fun h => by omega⟩
      · rw [Nat.add_sub_cancel_left]
        constructor
        · intro h
          cases h
          exact ⟨rfl, by omega, by omega, rfl⟩
        · rintro ⟨rfl, -, -, rfl⟩
          rfl

theorem ofReader_eq_ok {read : Except String α} {a : α} : ofReader read = .ok a ↔ read = .ok a := by
  cases read with
  | error e => exact ⟨(fun h => by cases h), fun h => by cases h⟩
  | ok b =>
    unfold ofReader
    rw [Except.mapError]
    exact ⟨(fun h => by cases h; rfl), fun h => by cases h; rfl⟩

theorem checkWeights_eq_ok {index : Nat} {weights : List F64} :
    checkWeights index weights = .ok () ↔
      ∀ w ∈ weights, w.isFinite = true ∧ w.leZero = false := by
  induction weights generalizing index with
  | nil => simp [checkWeights]
  | cons weight weights ih =>
    rw [checkWeights, List.forall_mem_cons]
    split
    · rename_i hbad
      rw [Bool.or_eq_true, Bool.not_eq_true'] at hbad
      refine ⟨(fun h => by cases h), fun h => ?_⟩
      obtain ⟨⟨hfinite, hpositive⟩, -⟩ := h
      rw [hfinite, hpositive] at hbad
      simp at hbad
    · rename_i hgood
      rw [Bool.or_eq_true, Bool.not_eq_true', not_or, Bool.not_eq_false, Bool.not_eq_true] at hgood
      rw [ih]
      exact ⟨fun h => ⟨hgood, h⟩, fun h => h.2⟩

namespace Columns

theorem length_bytes (c : Columns) : c.bytes.length =
    (c.discrete.length + c.continuous.length + c.weights.length) * 8 := by
  unfold bytes
  rw [List.length_append, List.length_append, length_words length_i64ToLeBytes,
    length_words length_toLeBytes, length_words length_toLeBytes]
  omega

end Columns

theorem read_ints {values : List Int} (h : ∀ v ∈ values, -2 ^ 63 ≤ v ∧ v < 2 ^ 63) :
    (chunksExact 8 (values.flatMap i64ToLeBytes)).map i64FromLeBytes = values := by
  rw [chunksExact_words (by decide) length_i64ToLeBytes, List.map_map]
  induction values with
  | nil => rfl
  | cons v values ih =>
    rw [List.forall_mem_cons] at h
    rw [List.map_cons, ih h.2, Function.comp_apply, i64FromLeBytes_toLeBytes h.1]

theorem read_floats (values : List F64) :
    (chunksExact 8 (values.flatMap F64.toLeBytes)).map F64.fromLeBytes = values := by
  rw [chunksExact_words (by decide) length_toLeBytes, List.map_map]
  exact (List.map_congr_left fun x _ => F64.fromLeBytes_toLeBytes x).trans (List.map_id _)

/-- The columns that are read are those the block was put together from. -/
theorem readColumns_eq_ok {binary : List UInt8} {discreteLen continuousLen nrSamples : Nat}
    {c : Columns} : readColumns binary discreteLen continuousLen nrSamples = .ok c ↔
      binary = c.bytes ∧ binary.length < usizeLimit ∧ c.Valid ∧ c.discrete.length = discreteLen ∧
        c.continuous.length = continuousLen ∧ c.weights.length = nrSamples := by
  unfold readColumns readLeI64 readLeF64
  simp only [bind_eq_ok_iff, Prod.exists, ofReader_eq_ok, readLe_eq_ok]
  constructor
  · rintro ⟨discrete, next, ⟨rfl, hdiscrete, -, rfl⟩, continuous, next', ⟨rfl, hcontinuous, -, rfl⟩,
      weights, last, ⟨rfl, hweights, hlimit, rfl⟩, _, hchecked, h⟩
    split at h
    · cases h
    · rename_i hlast
      cases h
      rw [ne_eq, not_not] at hlast
      rw [Nat.zero_add] at *
      rw [checkWeights_eq_ok] at hchecked
      have hfirst : ((binary.drop 0).take (discreteLen * 8)).length = discreteLen * 8 := by
        rw [List.length_take, List.length_drop]
        omega
      have hsecond : ((binary.drop (discreteLen * 8)).take (continuousLen * 8)).length =
          continuousLen * 8 := by
        rw [List.length_take, List.length_drop]
        omega
      have hthird : ((binary.drop (discreteLen * 8 + continuousLen * 8)).take
          (nrSamples * 8)).length = nrSamples * 8 := by
        rw [List.length_take, List.length_drop]
        omega
      have hblock : binary = (binary.drop 0).take (discreteLen * 8) ++
          ((binary.drop (discreteLen * 8)).take (continuousLen * 8) ++
            (binary.drop (discreteLen * 8 + continuousLen * 8)).take (nrSamples * 8)) := by
        have hrest : ((binary.drop (discreteLen * 8 + continuousLen * 8)).take (nrSamples * 8)) =
            binary.drop (discreteLen * 8 + continuousLen * 8) := by
          apply List.take_of_length_le
          rw [List.length_drop]
          omega
        rw [hrest, ← List.drop_drop, List.take_append_drop, List.drop_zero, List.take_append_drop]
      refine ⟨?_, by omega, ⟨?_, hchecked⟩, ?_, ?_, ?_⟩
      · unfold Columns.bytes
        dsimp only
        rw [words_chunksExact (by decide) (fun _ h => i64ToLeBytes_fromLeBytes h) hfirst,
          words_chunksExact (by decide) (fun _ h => F64.toLeBytes_fromLeBytes h) hsecond,
          words_chunksExact (by decide) (fun _ h => F64.toLeBytes_fromLeBytes h) hthird]
        exact hblock
      · intro v hv
        obtain ⟨word, hword, rfl⟩ := List.mem_map.1 hv
        exact i64FromLeBytes_range (length_of_mem_chunksExact hfirst hword)
      · rw [List.length_map, length_chunksExact (by decide) hfirst]
      · rw [List.length_map, length_chunksExact (by decide) hsecond]
      · rw [List.length_map, length_chunksExact (by decide) hthird]
  · rintro ⟨hblock, hlimit, hvalid, rfl, rfl, rfl⟩
    have hlength := c.length_bytes
    rw [← hblock] at hlength
    have hfirst := length_words length_i64ToLeBytes c.discrete
    have hsecond := length_words length_toLeBytes c.continuous
    have hthird := length_words length_toLeBytes c.weights
    have hdiscrete : (chunksExact 8 ((binary.drop 0).take (c.discrete.length * 8))).map
        i64FromLeBytes = c.discrete := by
      rw [hblock, Columns.bytes, List.drop_zero, List.take_left' hfirst, read_ints hvalid.discrete]
    have hcontinuous : (chunksExact 8 ((binary.drop (c.discrete.length * 8)).take
        (c.continuous.length * 8))).map F64.fromLeBytes = c.continuous := by
      rw [hblock, Columns.bytes, List.drop_left' hfirst, List.take_left' hsecond, read_floats]
    have hweights : (chunksExact 8 ((binary.drop (c.discrete.length * 8 +
        c.continuous.length * 8)).take (c.weights.length * 8))).map F64.fromLeBytes =
          c.weights := by
      rw [hblock, Columns.bytes, ← List.drop_drop, List.drop_left' hfirst,
        List.drop_left' hsecond, List.take_of_length_le hthird.le, read_floats]
    refine ⟨c.discrete, _, ⟨rfl, by omega, by omega, hdiscrete.symm⟩, c.continuous, _,
      ⟨rfl, by omega, by omega, ?_⟩, c.weights, _, ⟨rfl, by omega, by omega, ?_⟩, (),
      checkWeights_eq_ok.2 hvalid.weights, ?_⟩
    · rw [Nat.zero_add, hcontinuous]
    · rw [Nat.zero_add, hweights]
    · rw [if_neg (by omega)]
      rfl

/-! ## The offsets of a reply -/

theorem cons_of_map_asU64 {value : Json N} {items : List (Json N)} {offsets : List Nat}
    (h : (value :: items).map Json.asU64 = offsets.map some) :
    ∃ o rest, offsets = o :: rest ∧ value.asU64 = some o ∧ items.map Json.asU64 = rest.map some := by
  cases offsets with
  | nil => cases h
  | cons o rest =>
    rw [List.map_cons, List.map_cons] at h
    injection h with hhead htail
    exact ⟨o, rest, rfl, hhead, htail⟩

theorem parseOffsets_eq_ok {field adapter : String} {valuesLen index previous : Nat}
    {items : List (Json N)} {offsets : List Nat} :
    parseOffsets field adapter valuesLen index previous items = .ok offsets ↔
      items.map Json.asU64 = offsets.map some ∧ (index = 0 → ∀ o ∈ offsets.head?, o = 0) ∧
        (previous :: offsets).IsChain (· ≤ ·) ∧ ∀ o ∈ offsets, o ≤ valuesLen := by
  induction items generalizing index previous offsets with
  | nil =>
    rw [parseOffsets]
    constructor
    · intro h
      cases h
      simp
    · rintro ⟨h, -⟩
      cases offsets with
      | nil => rfl
      | cons o offsets => cases h
  | cons value items ih =>
    rw [parseOffsets]
    constructor
    · intro h
      split at h
      · cases h
      · rename_i offset hvalue
        split at h
        · cases h
        · rename_i hstart
          split at h
          · cases h
          · rename_i hascends
            split at h
            · cases h
            · rename_i hwithin
              obtain ⟨rest, hrest, rfl⟩ := map_eq_ok h
              obtain ⟨hitems, -, hchain, hbelow⟩ := ih.1 hrest
              refine ⟨?_, ?_, ?_, ?_⟩
              · rw [List.map_cons, List.map_cons, hvalue, hitems]
              · intro hindex o ho
                rw [List.head?_cons, Option.mem_some_iff] at ho
                omega
              · rw [List.isChain_cons_cons]
                exact ⟨by omega, hchain⟩
              · rw [List.forall_mem_cons]
                exact ⟨by omega, hbelow⟩
    · rintro ⟨hitems, hstart, hchain, hbelow⟩
      obtain ⟨o, rest, rfl, hvalue, hrest⟩ := cons_of_map_asU64 hitems
      rw [List.isChain_cons_cons] at hchain
      rw [List.forall_mem_cons] at hbelow
      have hfirst : index = 0 → o = 0 := fun hindex => hstart hindex o rfl
      have hlater : index + 1 = 0 → ∀ o ∈ rest.head?, o = 0 := by omega
      rw [hvalue]
      dsimp only
      rw [if_neg (by omega), if_neg (by omega), if_neg (by omega),
        ih.2 ⟨hrest, hlater, hchain.2, hbelow.2⟩]
      rfl

theorem fixedOffsets_eq {fixedWidth : Nat} {indices : List Nat}
    (h : ∀ index ∈ indices, index * fixedWidth < usizeLimit) :
    fixedOffsets fixedWidth indices = .ok (indices.map (· * fixedWidth)) := by
  induction indices with
  | nil => rfl
  | cons index indices ih =>
    rw [List.forall_mem_cons] at h
    rw [fixedOffsets, if_neg (by omega), ih h.2]
    rfl

theorem getLast?_uniformOffsets (n width : Nat) :
    (uniformOffsets n width).getLast? = some (n * width) := by
  unfold uniformOffsets
  rw [List.range_succ, List.map_append, List.map_singleton, List.getLast?_append,
    List.getLast?_singleton]
  rfl

theorem delimits_uniformOffsets (n width : Nat) : Delimits (uniformOffsets n width) n (n * width) where
  length := by rw [uniformOffsets, List.length_map, List.length_range]
  start := by rw [uniformOffsets, List.range_succ_eq_map, List.map_cons, Nat.zero_mul]; rfl
  ascending := by
    rw [uniformOffsets, List.pairwise_map]
    exact List.pairwise_lt_range.imp fun h => Nat.mul_le_mul_right _ h.le
  stop := getLast?_uniformOffsets n width

theorem Delimits.total_of_uniform {n width total : Nat} (h : Delimits (uniformOffsets n width) n total) :
    total = n * width := by
  have hstop := h.stop
  rw [getLast?_uniformOffsets] at hstop
  exact (Option.some.inj hstop).symm

theorem Delimits.le_total {offsets : List Nat} {n total : Nat} (h : Delimits offsets n total) :
    ∀ o ∈ offsets, o ≤ total := by
  intro o ho
  have hne : offsets ≠ [] := List.ne_nil_of_mem ho
  have hlast : offsets.getLast hne = total := by
    have hstop := h.stop
    rw [List.getLast?_eq_some_getLast hne] at hstop
    exact Option.some.inj hstop
  rw [← hlast]
  exact h.ascending.rel_getLast_of_rel_getLast_getLast ho le_rfl

section Offsets

variable {response : Json N} {field adapter : String} {n fixedWidth valuesLen : Nat}
  {offsets : List Nat}

/-- The offsets that are parsed are those of the reply, and they delimit the column. -/
theorem parseProcessOffsets_eq_ok (hn : n + 1 < usizeLimit) (hvalues : valuesLen < usizeMax) :
    parseProcessOffsets response field n fixedWidth valuesLen adapter = .ok offsets ↔
      OffsetsOf response field n fixedWidth offsets ∧ Delimits offsets n valuesLen := by
  have hlimit : usizeLimit = usizeMax + 1 := rfl
  unfold parseProcessOffsets
  cases hraw : response.get? field with
  | none =>
    dsimp only
    have hfixed : n * fixedWidth < usizeMax →
        fixedOffsets fixedWidth (List.range (n + 1)) = .ok (uniformOffsets n fixedWidth) := by
      intro hlt
      apply fixedOffsets_eq
      intro index hindex
      rw [List.mem_range] at hindex
      have hle : index * fixedWidth ≤ n * fixedWidth := Nat.mul_le_mul_right _ (by omega)
      omega
    split
    · rename_i hlen
      refine ⟨(fun h => by cases h), fun h => ?_⟩
      obtain ⟨hoffsets, hdelimits⟩ := h
      cases hoffsets with
      | given h' _ =>
        rw [hraw] at h'
        cases h'
      | omitted _ =>
        have htotal := hdelimits.total_of_uniform
        unfold saturatingMul at hlen
        omega
    · rename_i hlen
      rw [ne_eq, not_not] at hlen
      have htotal : valuesLen = n * fixedWidth := by
        unfold saturatingMul at hlen
        omega
      rw [hfixed (by omega)]
      constructor
      · intro h
        cases h
        exact ⟨.omitted hraw, htotal ▸ delimits_uniformOffsets n fixedWidth⟩
      · rintro ⟨hoffsets, -⟩
        cases hoffsets with
        | given h' _ =>
          rw [hraw] at h'
          cases h'
        | omitted _ => rfl
  | some raw =>
    dsimp only
    have hgiven : ∀ {offsets : List Nat}, OffsetsOf response field n fixedWidth offsets ↔
        ∃ items, raw = .array items ∧ items.map Json.asU64 = offsets.map some := by
      intro offsets
      constructor
      · intro h
        cases h with
        | given h' hitems =>
          rw [hraw] at h'
          exact ⟨_, Option.some.inj h', hitems⟩
        | omitted h' =>
          rw [hraw] at h'
          cases h'
      · rintro ⟨items, rfl, hitems⟩
        exact .given hraw hitems
    rw [hgiven]
    cases hitems : raw.asArray with
    | none =>
      refine ⟨(fun h => by cases h), ?_⟩
      rintro ⟨⟨items, rfl, -⟩, -⟩
      cases hitems
    | some items =>
      obtain rfl : raw = .array items := by
        cases raw with
        | array given => rw [Option.some.inj hitems]
        | null | bool _ | number _ | string _ | object _ => cases hitems
      dsimp only
      rw [if_neg (by omega)]
      constructor
      · intro h
        split at h
        · cases h
        · rename_i hlength
          rw [ne_eq, not_not] at hlength
          obtain ⟨parsed, hparsed, h⟩ := bind_eq_ok h
          split at h
          · cases h
          · rename_i hlast
            rw [ne_eq, not_not] at hlast
            cases h
            obtain ⟨hmap, hstart, hchain, -⟩ := parseOffsets_eq_ok.1 hparsed
            have hcount : offsets.length = n + 1 := by
              have hboth := congrArg List.length hmap
              rw [List.length_map, List.length_map] at hboth
              omega
            refine ⟨⟨items, rfl, hmap⟩, hcount, ?_, ?_, hlast⟩
            · cases offsets with
              | nil => cases hcount
              | cons o offsets =>
                rw [List.head?_cons, hstart rfl o rfl]
            · exact (List.isChain_iff_pairwise.1 hchain).of_cons
      · rintro ⟨⟨_, heq, hmap⟩, hdelimits⟩
        cases heq
        have hcount : items.length = n + 1 := by
          have hboth := congrArg List.length hmap
          rw [List.length_map, List.length_map, hdelimits.length] at hboth
          exact hboth
        have hparsed : parseOffsets field adapter valuesLen 0 0 items = .ok offsets := by
          refine parseOffsets_eq_ok.2 ⟨hmap, ?_, ?_, hdelimits.le_total⟩
          · intro _ o ho
            rw [hdelimits.start, Option.mem_some_iff] at ho
            exact ho.symm
          · rw [List.isChain_iff_pairwise, List.pairwise_cons]
            exact ⟨fun o _ => Nat.zero_le o, hdelimits.ascending⟩
        rw [if_neg (by omega), hparsed, Except.bind, if_neg (by rw [hdelimits.stop]; simp)]

/-- Offsets that delimit a column give its length. -/
theorem OffsetsOf.totalLen (h : OffsetsOf response field n fixedWidth offsets)
    (hdelimits : Delimits offsets n valuesLen) (hvalues : valuesLen < usizeMax) :
    offsetsTotalLen response field n fixedWidth = .ok valuesLen := by
  unfold offsetsTotalLen
  cases h with
  | given h hitems =>
    rename_i items
    have hlast : items.getLast?.bind Json.asU64 = some valuesLen := by
      have hboth := congrArg List.getLast? hitems
      rw [List.getLast?_map, List.getLast?_map, hdelimits.stop] at hboth
      cases hitem : items.getLast? with
      | none =>
        rw [hitem] at hboth
        cases hboth
      | some item =>
        rw [hitem, Option.map_some, Option.map_some] at hboth
        rw [Option.bind_some, Option.some.inj hboth]
    rw [h, Option.bind_some, Json.asArray]
    dsimp only
    rw [hlast]
  | omitted h =>
    have htotal := hdelimits.total_of_uniform
    rw [h, Option.bind_none, saturatingMul, Nat.min_eq_left (by omega), htotal]

/-- Where the reply gives no offsets, the length is that of the fixed width. -/
theorem offsetsTotalLen_omitted (h : response.get? field = none) :
    offsetsTotalLen response field n fixedWidth = .ok (saturatingMul n fixedWidth) := by
  unfold offsetsTotalLen
  rw [h, Option.bind_none]

end Offsets

/-! ## The rows -/

theorem rowSlice_eq {values : List α} {offsets : List Nat} {n index : Nat}
    (h : Delimits offsets n values.length) (hindex : index < n) :
    rowSlice values offsets index = .ok (Sent.part values offsets index) := by
  have hlength := h.length
  have hget : ∀ i < offsets.length, offsets[i]? = some (offsets.getD i 0) := by
    intro i hi
    rw [List.getD_eq_getElem?_getD, List.getElem?_eq_getElem hi, Option.getD_some]
  have hstart := hget index (by omega)
  have hstop := hget (index + 1) (by omega)
  have hascends : offsets.getD index 0 ≤ offsets.getD (index + 1) 0 := by
    obtain ⟨hlt, heq⟩ := List.getElem?_eq_some_iff.1 hstart
    obtain ⟨hlt', heq'⟩ := List.getElem?_eq_some_iff.1 hstop
    rw [← heq, ← heq']
    exact List.pairwise_iff_getElem.1 h.ascending index (index + 1) hlt hlt' (by omega)
  have hwithin : offsets.getD (index + 1) 0 ≤ values.length :=
    h.le_total _ (List.mem_of_getElem? hstop)
  unfold rowSlice Sent.part
  rw [hstart, hstop]
  dsimp only
  rw [if_pos ⟨hascends, hwithin⟩]

theorem pushRows_eq {s : Sent} {left index : Nat} (builder : IndexedBatchBuilder F64)
    (hleft : index + left = s.nrSamples)
    (hdiscrete : Delimits s.discreteOffsets s.nrSamples s.columns.discrete.length)
    (hcontinuous : Delimits s.continuousOffsets s.nrSamples s.columns.continuous.length) :
    pushRows s.columns s.discreteOffsets s.continuousOffsets left index builder =
      .ok (builder.pushAll (s.rows.drop index)) := by
  induction left generalizing index builder with
  | zero =>
    rw [List.drop_eq_nil_of_le (by rw [Sent.length_rows]; omega)]
    rfl
  | succ left ih =>
    have hlt : index < s.columns.weights.length := by
      have hn : s.nrSamples = s.columns.weights.length := rfl
      omega
    have hrow : s.rows.drop index =
        s.row index s.columns.weights[index] :: s.rows.drop (index + 1) := by
      rw [← List.cons_getElem_drop_succ (l := s.rows) (n := index)
        (h := by rw [Sent.length_rows]; exact hlt)]
      unfold Sent.rows
      rw [List.getElem_mapIdx]
    rw [pushRows, rowSlice_eq hdiscrete (by omega), rowSlice_eq hcontinuous (by omega)]
    simp only [bind, Except.bind, List.getElem?_eq_getElem hlt]
    rw [ih _ (by omega), hrow]
    rfl

/-! ## Rows of fixed width -/

namespace IndexedBatchBuilder

variable {F : Type}

/-- The builder with other columns. -/
def withColumns (b : IndexedBatchBuilder F) (layouts : List Nat) (values weights : List F) :
    IndexedBatchBuilder F :=
  { b with continuousLayouts := layouts, continuousValues := values, weights }

theorem pushDiscrete_withColumns (b : IndexedBatchBuilder F) (discrete : List Int)
    (layouts : List Nat) (values weights : List F) :
    (b.withColumns layouts values weights).pushDiscrete discrete =
      (b.pushDiscrete discrete).withColumns layouts values weights := by
  unfold pushDiscrete withColumns
  dsimp only
  split
  · cases b.emptySignature <;> rfl
  · cases b.discreteIndex discrete <;> rfl

theorem foldl_withColumns (b : IndexedBatchBuilder F) (parts : List (List Int))
    (layouts : List Nat) (values weights : List F) :
    parts.foldl (fun b part => b.pushDiscrete part) (b.withColumns layouts values weights) =
      (parts.foldl (fun b part => b.pushDiscrete part) b).withColumns layouts values weights := by
  induction parts generalizing b with
  | nil => rfl
  | cons part parts ih => rw [List.foldl_cons, pushDiscrete_withColumns, ih, List.foldl_cons]

/-- Rows pushed one by one push their paths, and their columns come one after the other. -/
theorem pushAll_eq (b : IndexedBatchBuilder F) (samples : List (List Int × List F × F)) :
    b.pushAll samples =
      ((samples.map (·.1)).foldl (fun b part => b.pushDiscrete part) b).withColumns
        (b.continuousLayouts ++ samples.map (·.2.1.length))
        (b.continuousValues ++ samples.flatMap (·.2.1)) (b.weights ++ samples.map (·.2.2)) := by
  induction samples generalizing b with
  | nil =>
    rw [List.map_nil, List.map_nil, List.map_nil, List.flatMap_nil, List.append_nil,
      List.append_nil, List.append_nil]
    rfl
  | cons row samples ih =>
    have hsame := sameColumns_pushDiscrete row.1 b
    have hpush : b.push row.1 row.2.1 row.2.2 = (b.pushDiscrete row.1).withColumns
        (b.continuousLayouts ++ [row.2.1.length]) (b.continuousValues ++ row.2.1)
        (b.weights ++ [row.2.2]) := by
      unfold push withColumns
      dsimp only
      rw [hsame.layouts, hsame.values, hsame.weights]
    have hnext := ih (b.push row.1 row.2.1 row.2.2)
    rw [hpush] at hnext
    rw [foldl_withColumns] at hnext
    rw [pushAll, List.foldl_cons, hpush]
    refine hnext.trans ?_
    simp [withColumns]

/-- Rows without a path all have the first place. -/
theorem foldl_pushDiscrete_nil (n : Nat) :
    (List.replicate (n + 1) []).foldl (fun b part => b.pushDiscrete part)
        (new : IndexedBatchBuilder F) =
      { (new : IndexedBatchBuilder F) with
        discreteSignatures := [[]]
        emptySignature := some 0
        discreteMap := List.replicate (n + 1) 0 } := by
  induction n with
  | zero => rfl
  | succ n ih =>
    rw [List.replicate_succ', List.foldl_append, ih, List.replicate_succ' (n := n + 1) (a := 0)]
    rfl

/-- Arrays of fixed width are written as their rows are one by one. -/
theorem fromHomogeneous_eq {discrete : List Int} {discreteDims continuousDims : Nat}
    {continuousValues weights : List F} (hweights : weights ≠ [])
    (hdiscrete : discrete.length = weights.length * discreteDims)
    (hcontinuous : continuousValues.length = weights.length * continuousDims) :
    (fromHomogeneous discrete discreteDims continuousValues continuousDims weights :
        LatentBatchPayload F R) =
      (new.pushAll (homogeneousRows discrete discreteDims continuousValues continuousDims
        weights)).finish := by
  have hzip : ((rows continuousDims weights.length continuousValues).zip weights).length =
      weights.length := by
    rw [List.length_zip, length_rows, Nat.min_self]
  have hpaths : (homogeneousRows discrete discreteDims continuousValues continuousDims weights).map
      (·.1) = rows discreteDims weights.length discrete :=
    List.map_fst_zip (by rw [length_rows, hzip])
  have hrest : (homogeneousRows discrete discreteDims continuousValues continuousDims weights).map
      (·.2) = (rows continuousDims weights.length continuousValues).zip weights :=
    List.map_snd_zip (by rw [length_rows, hzip])
  have hvalues : (homogeneousRows discrete discreteDims continuousValues continuousDims
      weights).map (·.2.1) = rows continuousDims weights.length continuousValues := by
    have hfst := congrArg (List.map (·.1)) hrest
    rw [List.map_map, List.map_fst_zip (by rw [length_rows])] at hfst
    exact hfst
  have hlast : (homogeneousRows discrete discreteDims continuousValues continuousDims
      weights).map (·.2.2) = weights := by
    have hsnd := congrArg (List.map (·.2)) hrest
    rw [List.map_map, List.map_snd_zip (by rw [length_rows])] at hsnd
    exact hsnd
  have hlayouts : (homogeneousRows discrete discreteDims continuousValues continuousDims
      weights).map (·.2.1.length) = List.replicate weights.length continuousDims := by
    rw [← length_of_mem_rows hcontinuous, ← hvalues, List.map_map]
    rfl
  have hflat : (homogeneousRows discrete discreteDims continuousValues continuousDims
      weights).flatMap (·.2.1) = continuousValues := by
    rw [List.flatMap_def, hvalues, flatten_rows hcontinuous]
  rw [pushAll_eq, hpaths, hlayouts, hflat, hlast]
  unfold fromHomogeneous
  dsimp only
  by_cases hdims : discreteDims = 0
  · obtain ⟨n, hn⟩ : ∃ n, weights.length = n + 1 :=
      Nat.exists_eq_succ_of_ne_zero fun h => hweights (List.eq_nil_of_length_eq_zero h)
    rw [if_pos hdims, hdims, rows_zero, hn, foldl_pushDiscrete_nil]
    rfl
  · have hcount : discrete.length / discreteDims = weights.length := by
      rw [hdiscrete, Nat.mul_div_cancel _ (Nat.pos_of_ne_zero hdims)]
    have hfold := foldl_withColumns new (rows discreteDims weights.length discrete)
      (List.replicate weights.length continuousDims) continuousValues weights
    rw [if_neg hdims, hcount]
    exact congrArg IndexedBatchBuilder.finish hfold

end IndexedBatchBuilder

theorem getD_uniformOffsets {n width index : Nat} (h : index ≤ n) :
    (uniformOffsets n width).getD index 0 = index * width := by
  have hlt : index < (List.range (n + 1)).length := by
    rw [List.length_range]
    omega
  rw [uniformOffsets, List.getD_eq_getElem?_getD, List.getElem?_map, List.getElem?_eq_getElem hlt,
    List.getElem_range]
  rfl

theorem part_uniformOffsets {values : List α} {n width index : Nat} (h : index < n) :
    Sent.part values (uniformOffsets n width) index = (values.drop (index * width)).take width := by
  have hwidth : (index + 1) * width - index * width = width := by
    rw [Nat.succ_mul, Nat.add_sub_cancel_left]
  unfold Sent.part
  rw [getD_uniformOffsets h.le, getD_uniformOffsets h, hwidth]

theorem getElem?_rows {width n index : Nat} {values : List α} (h : index < n) :
    (IndexedBatchBuilder.rows width n values)[index]? =
      some ((values.drop (index * width)).take width) := by
  induction n generalizing index values with
  | zero => omega
  | succ n ih =>
    rw [IndexedBatchBuilder.rows]
    cases index with
    | zero => rw [Nat.zero_mul, List.drop_zero, List.getElem?_cons_zero]
    | succ index =>
      rw [List.getElem?_cons_succ, ih (by omega), List.drop_drop, Nat.succ_mul, Nat.add_comm]

/-- Uniform offsets cut columns into rows of fixed width. -/
theorem rows_uniform (c : Columns) (discreteDims continuousDims : Nat)
    (trainingRemaining : Option Nat) :
    (⟨c, uniformOffsets c.weights.length discreteDims, uniformOffsets c.weights.length continuousDims,
      trainingRemaining⟩ : Sent).rows =
        IndexedBatchBuilder.homogeneousRows c.discrete discreteDims c.continuous continuousDims
          c.weights := by
  apply List.ext_getElem?
  intro index
  unfold Sent.rows IndexedBatchBuilder.homogeneousRows
  dsimp only
  by_cases hindex : index < c.weights.length
  · have hrest : ((IndexedBatchBuilder.rows continuousDims c.weights.length c.continuous).zip
        c.weights)[index]? = some ((c.continuous.drop (index * continuousDims)).take continuousDims,
          c.weights[index]) :=
      List.getElem?_zip_eq_some.2 ⟨getElem?_rows hindex, List.getElem?_eq_getElem hindex⟩
    have hzip : ((IndexedBatchBuilder.rows discreteDims c.weights.length c.discrete).zip
        ((IndexedBatchBuilder.rows continuousDims c.weights.length c.continuous).zip
          c.weights))[index]? = some ((c.discrete.drop (index * discreteDims)).take discreteDims,
            (c.continuous.drop (index * continuousDims)).take continuousDims, c.weights[index]) :=
      List.getElem?_zip_eq_some.2 ⟨getElem?_rows hindex, hrest⟩
    rw [List.getElem?_mapIdx, List.getElem?_eq_getElem hindex, Option.map_some, hzip]
    unfold Sent.row
    dsimp only
    rw [part_uniformOffsets hindex, part_uniformOffsets hindex]
  · have hlength : c.weights.length ≤ index := by omega
    rw [List.getElem?_eq_none (by rw [List.length_mapIdx]; exact hlength),
      List.getElem?_eq_none (by
        rw [List.length_zip, List.length_zip, IndexedBatchBuilder.length_rows]
        omega)]

/-! ## Decoding -/

section Decoding

variable {domain : Utils.Domain} {maxSamples : Nat} {response : Json N} {binary : List UInt8}

theorem fixedRectangularDims_eq_some {dims : Nat × Nat} :
    domain.fixedRectangularDims = some dims ↔
      domain.fixedContinuousDims = some dims.1 ∧ domain.fixedDiscreteDepth = some dims.2 := by
  unfold Utils.Domain.fixedRectangularDims
  cases domain.fixedContinuousDims with
  | none => simp
  | some continuousDims =>
    cases domain.fixedDiscreteDepth with
    | none => simp
    | some discreteDims => simp [Prod.ext_iff]

theorem OffsetsOf.eq_uniform {field : String} {n fixedWidth : Nat} {offsets : List Nat}
    (h : OffsetsOf response field n fixedWidth offsets) (hnone : response.get? field = none) :
    offsets = uniformOffsets n fixedWidth := by
  cases h with
  | given h _ =>
    rw [hnone] at h
    cases h
  | omitted _ => rfl

/-- The payload is that of the rows, whichever way it is built. -/
theorem decodePayload_eq_ok {nrSamples discreteLen continuousLen : Nat} {c : Columns}
    {payload : LatentBatchPayload F64 R} (trainingRemaining : Option Nat)
    (hpositive : 0 < nrSamples) (hn : nrSamples + 1 < usizeLimit)
    (hdiscreteMax : discreteLen < usizeMax) (hcontinuousMax : continuousLen < usizeMax)
    (hdiscrete : c.discrete.length = discreteLen)
    (hcontinuous : c.continuous.length = continuousLen) (hweights : c.weights.length = nrSamples)
    (hdiscreteLen : offsetsTotalLen response "xs_discrete_offsets" nrSamples
      (domain.fixedDiscreteDepth.getD 0) = .ok discreteLen)
    (hcontinuousLen : offsetsTotalLen response "xs_continuous_offsets" nrSamples
      (domain.fixedContinuousDims.getD 0) = .ok continuousLen) :
    decodePayload domain response nrSamples discreteLen continuousLen c = .ok payload ↔
      ∃ discreteOffsets continuousOffsets,
        OffsetsOf response "xs_discrete_offsets" nrSamples (domain.fixedDiscreteDepth.getD 0)
          discreteOffsets ∧
        OffsetsOf response "xs_continuous_offsets" nrSamples (domain.fixedContinuousDims.getD 0)
          continuousOffsets ∧
        Delimits discreteOffsets nrSamples discreteLen ∧
        Delimits continuousOffsets nrSamples continuousLen ∧
        payload = (IndexedBatchBuilder.new.pushAll
          (Sent.rows ⟨c, discreteOffsets, continuousOffsets, trainingRemaining⟩)).finish := by
  subst hdiscrete hcontinuous hweights
  unfold decodePayload
  dsimp only
  cases hdims : domain.fixedRectangularDims.filter fun _ =>
      (response.get? "xs_discrete_offsets").isNone &&
        (response.get? "xs_continuous_offsets").isNone with
  | none =>
    dsimp only
    simp only [bind_eq_ok_iff, parseProcessOffsets_eq_ok hn hdiscreteMax,
      parseProcessOffsets_eq_ok hn hcontinuousMax]
    constructor
    · rintro ⟨discreteOffsets, ⟨hd, hd'⟩, continuousOffsets, ⟨hc, hc'⟩, builder, hbuilder, h⟩
      have hpush := pushRows_eq (s := ⟨c, discreteOffsets, continuousOffsets, trainingRemaining⟩)
        .new (Nat.zero_add _) hd' hc'
      cases h
      rw [List.drop_zero] at hpush
      obtain rfl := Except.ok.inj (hbuilder.symm.trans hpush)
      exact ⟨discreteOffsets, continuousOffsets, hd, hc, hd', hc', rfl⟩
    · rintro ⟨discreteOffsets, continuousOffsets, hd, hc, hd', hc', rfl⟩
      have hpush := pushRows_eq (s := ⟨c, discreteOffsets, continuousOffsets, trainingRemaining⟩)
        .new (Nat.zero_add _) hd' hc'
      rw [List.drop_zero] at hpush
      exact ⟨discreteOffsets, ⟨hd, hd'⟩, continuousOffsets, ⟨hc, hc'⟩, _, hpush, rfl⟩
  | some dims =>
    dsimp only
    obtain ⟨hfixed, hnone⟩ := Option.filter_eq_some_iff.1 hdims
    rw [Bool.and_eq_true, Option.isNone_iff_eq_none, Option.isNone_iff_eq_none] at hnone
    obtain ⟨hnodiscrete, hnocontinuous⟩ := hnone
    obtain ⟨hcontinuousDims, hdiscreteDims⟩ := fixedRectangularDims_eq_some.1 hfixed
    rw [hdiscreteDims, Option.getD_some] at hdiscreteLen ⊢
    rw [hcontinuousDims, Option.getD_some] at hcontinuousLen ⊢
    have hd : c.discrete.length = c.weights.length * dims.2 := by
      have hlen := Except.ok.inj
        (hdiscreteLen.symm.trans (offsetsTotalLen_omitted hnodiscrete))
      unfold saturatingMul at hlen
      omega
    have hc : c.continuous.length = c.weights.length * dims.1 := by
      have hlen := Except.ok.inj
        (hcontinuousLen.symm.trans (offsetsTotalLen_omitted hnocontinuous))
      unfold saturatingMul at hlen
      omega
    have hpayload := IndexedBatchBuilder.fromHomogeneous_eq (R := R)
      (List.ne_nil_of_length_pos hpositive) hd hc
    rw [← rows_uniform c dims.2 dims.1 trainingRemaining] at hpayload
    rw [hpayload]
    constructor
    · intro h
      cases h
      exact ⟨_, _, .omitted hnodiscrete, .omitted hnocontinuous, hd ▸ delimits_uniformOffsets _ _,
        hc ▸ delimits_uniformOffsets _ _, rfl⟩
    · rintro ⟨discreteOffsets, continuousOffsets, hdo, hco, -, -, rfl⟩
      rw [hdo.eq_uniform hnodiscrete, hco.eq_uniform hnocontinuous]

theorem decodeSampleCount_eq_ok {n : Nat} : decodeSampleCount maxSamples response = .ok n ↔
    (response.get? "nr_samples").bind Json.asU64 = some n ∧ 0 < n ∧ n ≤ maxSamples := by
  unfold decodeSampleCount
  cases hcount : ((response.get? "nr_samples").bind Json.asU64).filter
      fun n => decide (0 < n ∧ n ≤ maxSamples) with
  | none =>
    refine ⟨(fun h => by cases h), fun h => ?_⟩
    obtain ⟨hgiven, hrange⟩ := h
    rw [hgiven, Option.filter_some, if_pos (decide_eq_true hrange)] at hcount
    cases hcount
  | some m =>
    rw [Option.filter_eq_some_iff, decide_eq_true_iff] at hcount
    dsimp only
    constructor
    · intro h
      cases h
      exact hcount
    · rintro ⟨hgiven, -⟩
      rw [Option.some.inj (hcount.1.symm.trans hgiven)]

theorem decodeTrainingRemaining_eq_ok {n : Nat} {remaining : Option Nat} :
    decodeTrainingRemaining n response = .ok remaining ↔
      remaining = none ∧ (response.get? "training_remaining" = none ∨
          response.get? "training_remaining" = some .null) ∨
        ∃ m, remaining = some m ∧ n ≤ m ∧
          (response.get? "training_remaining").bind Json.asU64 = some m := by
  unfold decodeTrainingRemaining
  split
  · rename_i hfield
    rw [hfield]
    constructor
    · intro h
      cases h
      exact .inl ⟨rfl, .inl rfl⟩
    · rintro (⟨rfl, -⟩ | ⟨m, -, -, h⟩)
      · rfl
      · cases h
  · rename_i hfield
    rw [hfield]
    constructor
    · intro h
      cases h
      exact .inl ⟨rfl, .inr rfl⟩
    · rintro (⟨rfl, -⟩ | ⟨m, -, -, h⟩)
      · rfl
      · cases h
  · rename_i value hnull hfield
    have hother : ¬(some value = none ∨ some value = some .null) := by
      rintro (h | h)
      · cases h
      · exact hnull (Option.some.inj h)
    rw [hfield, Option.bind_some]
    cases hcount : value.asU64.filter fun m => decide (n ≤ m) with
    | none =>
      refine ⟨(fun h => by cases h), ?_⟩
      rintro (⟨-, h⟩ | ⟨m, rfl, hle, h⟩)
      · exact absurd h hother
      · rw [h, Option.filter_some, if_pos (decide_eq_true hle)] at hcount
        cases hcount
    | some m =>
      rw [Option.filter_eq_some_iff, decide_eq_true_iff] at hcount
      constructor
      · intro h
        cases h
        exact .inr ⟨m, rfl, hcount.2, hcount.1⟩
      · rintro (⟨-, h⟩ | ⟨m', rfl, -, h⟩)
        · exact absurd h hother
        · rw [Option.some.inj (hcount.1.symm.trans h)]

/-- A batch is decoded exactly when it has been sent, and it is the rows that were sent. -/
theorem decodeBatch_eq_ok {g : Generation (LatentBatchPayload F64 R)}
    (hkind : (response.get? "kind").bind Json.asStr = some "batch") :
    decodeBatch domain maxSamples response binary = .ok g ↔
      ∃ s : Sent, Sends domain maxSamples response binary s ∧
        g = .batch s.batch s.trainingRemaining := by
  unfold decodeBatch
  simp only [bind_eq_ok_iff, decodeSampleCount_eq_ok, decodeTrainingRemaining_eq_ok,
    readColumns_eq_ok]
  constructor
  · rintro ⟨n, ⟨hcount, hpositive, hbounded⟩, remaining, htraining, discreteLen, hdiscreteLen,
      continuousLen, hcontinuousLen, c, ⟨hblock, hfits, hvalid, hdiscrete, hcontinuous, hweights⟩,
      payload, hpayload, h⟩
    have hlength := c.length_bytes
    rw [← hblock] at hlength
    have hlimit : usizeLimit = usizeMax + 1 := rfl
    have hwords : 8 ≤ usizeLimit := by decide
    obtain ⟨discreteOffsets, continuousOffsets, hd, hc, hd', hc', rfl⟩ :=
      (decodePayload_eq_ok remaining hpositive (by omega) (by omega)
        (by omega) hdiscrete hcontinuous hweights hdiscreteLen hcontinuousLen).1 hpayload
    subst hdiscrete hcontinuous hweights
    cases h
    exact ⟨⟨c, discreteOffsets, continuousOffsets, remaining⟩,
      ⟨hkind, hcount, hpositive, hbounded, htraining, hd, hc, hd', hc', hvalid, hblock, hfits⟩, rfl⟩
  · rintro ⟨s, hs, rfl⟩
    have hlength := s.columns.length_bytes
    rw [← hs.block] at hlength
    have hlimit : usizeLimit = usizeMax + 1 := rfl
    have hwords : 8 ≤ usizeLimit := by decide
    have hfits := hs.fits
    have hpositive := hs.positive
    have hn : s.nrSamples = s.columns.weights.length := rfl
    have hdiscreteLen := hs.discreteOffsets.totalLen hs.discreteRows (by omega)
    have hcontinuousLen := hs.continuousOffsets.totalLen hs.continuousRows (by omega)
    refine ⟨s.nrSamples, ⟨hs.count, hs.positive, hs.bounded⟩, s.trainingRemaining, hs.training, _,
      hdiscreteLen, _, hcontinuousLen, s.columns,
      ⟨hs.block, hs.fits, hs.valid, rfl, rfl, rfl⟩, _, ?_, rfl⟩
    exact (decodePayload_eq_ok s.trainingRemaining hpositive (by omega)
      (by omega) (by omega) rfl rfl rfl hdiscreteLen hcontinuousLen).2
        ⟨_, _, hs.discreteOffsets, hs.continuousOffsets, hs.discreteRows, hs.continuousRows, rfl⟩

end Decoding

end Gammaboard.Sampling
