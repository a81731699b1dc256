import Gammaboard.Runners.ParameterScan
import Gammaboard.Runners.TrialParameters

/-!
# New trials of the Egobox optimizer

`suggest_egobox_candidates` and its fallback in `runners/hyperparameter_tuning.rs`. A point the
optimizer suggests is taken unless a trial has it already; otherwise 64 random points are tried
and then, when every domain is finite, all of its points one after the other. The search keeps one
map and changes it in place. Random numbers and the optimizer are third-party: `draws` are the
points drawn for a trial, `suggested` the rows of the optimizer.
-/

namespace Gammaboard.Runners

open Gammaboard.Config Gammaboard.Core Gammaboard.Lib Gammaboard.Utils

/-! ## Trials -/

inductive ControllerChildState where
  | planned
  | pending
  | active
  | completed
  | failed
  deriving DecidableEq, Repr

structure OptimizerTrialCandidate (W : Type) where
  index : Nat
  parameters : Replacements W

structure OptimizerObservation (W V : Type) where
  parameters : Replacements W
  objectiveValue : V

structure PreviousTrial (W V : Type) where
  index : Nat
  status : ControllerChildState
  parameters : Replacements W
  objectiveValue : Option V

/-- The float operations on encoded points. -/
structure EncodedFloats (F : Type) extends Floats F where
  /-- `(left - right).abs() < 1e-9` -/
  close : F → F → Bool
  /-- `(left as f64 - value).abs() < (right as f64 - value).abs()` -/
  closer : F → Int64 → Int64 → Bool
  /-- `value.round().clamp(0.0, max_index as f64) as usize` -/
  roundIndex : F → Nat → Nat
  close_self : ∀ {x}, isFinite x → close x x

variable {F D V : Type}

abbrev ParameterDomains (F D : Type) := OrdMap String (HyperparameterTuningParameterDomain F D)

abbrev TrialPoint (F D : Type) := OrdMap String (Toml F D)

section

variable [Add F] [Sub F] [Mul F] [Div F] [NatCast F] [DecidableEq D] (floats : EncodedFloats F)

/-- The two encoded points agree. -/
def nearPoint (point candidate : List F) : Bool :=
  point.length == candidate.length && (point.zip candidate).all fun (l, r) => floats.close l r

def containsEncoded (existing : List (List F)) (candidate : List F) : Bool :=
  existing.any fun point => nearPoint floats point candidate

/-! ## Decoding -/

/-- `take_closest_i64`: of equally close values the first one. -/
def takeClosest (value : F) : List Int64 → Int64
  | [] => 0
  | first :: rest => rest.foldl (fun best v => if floats.closer value v best then v else best) first

/-- `f64::clamp` -/
def clampFloat (min max value : F) : F :=
  if floats.le value min && !floats.eq value min then min
  else if floats.le max value && !floats.eq max value then max
  else value

def decodeParameterValue (domain : HyperparameterTuningParameterDomain F D) (value : F) :
    Except StoreError (Toml F D) :=
  match domain with
  | .float min max => .ok (.float (clampFloat floats min max value))
  | .integer domain => do
    let values ← domain.integerDomainValues
    return .integer (takeClosest floats value values)
  | .categorical source => do
    let values ← categoricalDomainValues floats.toFloats source
    match values[floats.roundIndex value (values.length - 1)]? with
    | some v => return v
    | none => .error (.store "index out of bounds")

/-- `ParameterEncoder::decode` -/
def decode (domains : ParameterDomains F D) (encoded : List F) :
    Except StoreError (TrialPoint F D) :=
  if encoded.length ≠ domains.length then
    .error (.store ("egobox suggested " ++ toString encoded.length ++ " parameters, expected " ++
      toString domains.length))
  else
    (domains.zip encoded).mapM fun e => do
      let value ← decodeParameterValue floats e.1.2 e.2
      return (e.1.1, value)

/-! ## The search -/

variable (domains : ParameterDomains F D) (existing : List (List F))

/-- The loop of `find_distinct_finite_point` over the values of one name; `next` is the search
below. -/
def tryValues (next : TrialPoint F D → Except StoreError (Option (TrialPoint F D) × TrialPoint F D))
    (name : String) : List (Toml F D) → TrialPoint F D →
      Except StoreError (Option (TrialPoint F D) × TrialPoint F D)
  | [], point => return (none, OrdMap.erase name point)
  | value :: values, point => do
    let result ← next (OrdMap.insert name value point)
    if result.1.isSome then return result else tryValues next name values result.2

/-- `find_distinct_finite_point`, with the map it leaves behind. -/
def findDistinctFinitePoint : List (String × List (Toml F D)) → TrialPoint F D →
    Except StoreError (Option (TrialPoint F D) × TrialPoint F D)
  | [], point => do
    let encoded ← encode floats.toFloats domains point
    return (if containsEncoded floats existing encoded then none else some point, point)
  | (name, values) :: rest, point =>
    tryValues (findDistinctFinitePoint rest) name values point

/-- The values of every domain, if all are finite. -/
def finiteValues : ParameterDomains F D →
    Except StoreError (Option (List (String × List (Toml F D))))
  | [] => return some []
  | (name, domain) :: rest =>
    match domain with
    | .float _ _ => return none
    | .integer domain => do
      let values ← domain.integerDomainValues
      let others ← finiteValues rest
      return others.map ((name, values.map .integer) :: ·)
    | .categorical source => do
      let values ← categoricalDomainValues floats.toFloats source
      let others ← finiteValues rest
      return others.map ((name, values) :: ·)

def firstDistinctFinitePoint : Except StoreError (Option (TrialPoint F D)) := do
  let values ← finiteValues floats domains
  match values with
  | none => return none
  | some values => do
    let result ← findDistinctFinitePoint floats domains existing values []
    return result.1

/-! ## Random points -/

/-- The loop of `random_distinct_point`: a new point, and the last one that was not new. -/
def firstNewDraw (draws : Nat → Except StoreError (TrialPoint F D)) :
    List Nat → Option (TrialPoint F D) →
      Except StoreError (Option (TrialPoint F D) × Option (TrialPoint F D))
  | [], last => return (none, last)
  | k :: ks, last => do
    let point ← draws k
    let encoded ← encode floats.toFloats domains point
    if containsEncoded floats existing encoded then firstNewDraw draws ks (some point)
    else return (some point, last)

/-- The end of `random_distinct_point`: no drawn point was new. -/
def finitePointOr (last : Option (TrialPoint F D)) : Except StoreError (TrialPoint F D) := do
  let found ← firstDistinctFinitePoint floats domains existing
  match found.or last with
  | some point => return point
  | none => .error (.store "failed to sample egobox fallback point")

def randomDistinctPoint (draws : Nat → Except StoreError (TrialPoint F D)) :
    Except StoreError (TrialPoint F D) := do
  let drawn ← firstNewDraw floats domains existing draws (List.range 64) none
  match drawn.1 with
  | some point => return point
  | none => finitePointOr floats domains existing drawn.2

end

/-! ## The candidates -/

section

variable [Add F] [Sub F] [Mul F] [Div F] [NatCast F] [DecidableEq D] (floats : EncodedFloats F)
  (domains : ParameterDomains F D) (draws : Nat → Nat → Except StoreError (TrialPoint F D))

/-- One candidate for each index, each of them known to the later ones. -/
def chooseCandidates
    (choose : Nat → Nat → List (List F) → Except StoreError (TrialPoint F D)) :
    List (List F) → Nat → List Nat → Except StoreError (List (OptimizerTrialCandidate (Toml F D)))
  | _, _, [] => return []
  | existing, offset, index :: indices => do
    let parameters ← choose offset index existing
    let encoded ← encode floats.toFloats domains parameters
    let others ← chooseCandidates choose (existing ++ [encoded]) (offset + 1) indices
    return ⟨index, parameters⟩ :: others

/-- The points of the trials that have a child. -/
def existingEncodedPoints (existingTrialIndices : List Nat)
    (previousTrials : OrdMap Nat (PreviousTrial (Toml F D) V)) : Except StoreError (List (List F)) :=
  (existingTrialIndices.filterMap fun index => OrdMap.get index previousTrials).mapM fun trial =>
    encode floats.toFloats domains trial.parameters

def egoboxRandomFallbackCandidates (nextIndices existingTrialIndices : List Nat)
    (previousTrials : OrdMap Nat (PreviousTrial (Toml F D) V)) :
    Except StoreError (List (OptimizerTrialCandidate (Toml F D))) := do
  let existing ← existingEncodedPoints floats domains existingTrialIndices previousTrials
  chooseCandidates floats domains
    (fun _ index existing => randomDistinctPoint floats domains existing (draws index))
    existing 0 nextIndices

/-- The parameters for a suggested row; a matrix without rows has none. -/
def suggestedPoint (suggested : List (List F)) (offset index : Nat) (existing : List (List F)) :
    Except StoreError (TrialPoint F D) :=
  match suggested[min offset (suggested.length - 1)]? with
  | none => .error (.store "index out of bounds")
  | some encoded =>
    if containsEncoded floats existing encoded then
      randomDistinctPoint floats domains existing (draws index)
    else decode floats domains encoded

/-- `suggest` is what the optimizer makes of the encoded observations, or why it failed. -/
def suggestEgoboxCandidates (suggest : List (List F) → Except String (List (List F)))
    (observations : List (OptimizerObservation (Toml F D) V))
    (nextIndices existingTrialIndices : List Nat)
    (previousTrials : OrdMap Nat (PreviousTrial (Toml F D) V)) :
    Except StoreError (List (OptimizerTrialCandidate (Toml F D))) := do
  let xData ← observations.mapM fun o => encode floats.toFloats domains o.parameters
  match suggest xData with
  | .error _ =>
    egoboxRandomFallbackCandidates floats domains draws nextIndices existingTrialIndices
      previousTrials
  | .ok suggested => do
    let existing ← existingEncodedPoints floats domains existingTrialIndices previousTrials
    chooseCandidates floats domains (suggestedPoint floats domains draws suggested)
      existing 0 nextIndices

end

/-! ## The search finds the first new point -/

/-- All choices of a value for every name, in the order of the search. -/
def assignments : List (String × List (Toml F D)) → List (TrialPoint F D)
  | [] => [[]]
  | (name, values) :: rest =>
    values.flatMap fun value => (assignments rest).map fun point => (name, value) :: point

section Search

variable [Add F] [Sub F] [Mul F] [Div F] [NatCast F] [DecidableEq D] {floats : EncodedFloats F}
  {domains : ParameterDomains F D} {existing : List (List F)}

variable (floats domains existing) in
/-- The point is encoded, and no trial has it. -/
def isNew (point : TrialPoint F D) : Bool :=
  match encode floats.toFloats domains point with
  | .ok encoded => !containsEncoded floats existing encoded
  | .error _ => false

/-- The map between two values of a name: the names before it, and possibly an old value. -/
inductive Between (name : String) (before : TrialPoint F D) : TrialPoint F D → Prop
  | first : Between name before before
  | later (value : Toml F D) : Between name before (before ++ [(name, value)])

theorem Between.insert {name : String} {before point : TrialPoint F D}
    (h : Between name before point) (hlt : ∀ key ∈ OrdMap.keys before, key < name)
    (value : Toml F D) : OrdMap.insert name value point = before ++ [(name, value)] := by
  cases h with
  | first => exact OrdMap.insert_of_lt hlt
  | later old =>
    induction before with
    | nil => simp [OrdMap.insert]
    | cons e before ih =>
      have he : e.1 < name := hlt e.1 List.mem_cons_self
      have hrest := ih fun key hkey => hlt key (List.mem_cons_of_mem _ hkey)
      rw [List.cons_append, OrdMap.insert, if_pos he, hrest]
      rfl

theorem Between.erase {name : String} {before point : TrialPoint F D}
    (h : Between name before point) (hlt : ∀ key ∈ OrdMap.keys before, key < name) :
    OrdMap.erase name point = before := by
  have hbefore : OrdMap.erase name before = before := by
    refine List.filter_eq_self.2 fun e he => ?_
    have hne := (hlt e.1 (List.mem_map_of_mem he)).ne
    simpa using hne
  cases h with
  | first => exact hbefore
  | later value =>
    unfold OrdMap.erase at hbefore ⊢
    rw [List.filter_append, hbefore]
    simp

theorem tryValues_cons
    {next : TrialPoint F D → Except StoreError (Option (TrialPoint F D) × TrialPoint F D)}
    {name : String} {value : Toml F D} {values : List (Toml F D)} {point left : TrialPoint F D}
    {found : Option (TrialPoint F D)}
    (h : next (OrdMap.insert name value point) = .ok (found, left)) :
    tryValues next name (value :: values) point =
      if found.isSome then .ok (found, left) else tryValues next name values left := by
  rw [tryValues, h]
  rfl

/-- The loop over the values of a name, given what the search below does with each. -/
theorem tryValues_eq
    {next : TrialPoint F D → Except StoreError (Option (TrialPoint F D) × TrialPoint F D)}
    {name : String} {before : TrialPoint F D} (hlt : ∀ key ∈ OrdMap.keys before, key < name)
    {search : Toml F D → Option (TrialPoint F D)} :
    ∀ {values : List (Toml F D)} {point : TrialPoint F D}, Between name before point →
      (∀ value ∈ values, ∃ left, next (before ++ [(name, value)]) = .ok (search value, left) ∧
        (search value = none → left = before ++ [(name, value)])) →
      ∃ left, tryValues next name values point = .ok (values.findSome? search, left) ∧
        (values.findSome? search = none → left = before)
  | [], point, hpoint, _ => ⟨_, rfl, fun _ => hpoint.erase hlt⟩
  | value :: values, point, hpoint, hnext => by
    obtain ⟨left, hleft, hnone⟩ := hnext value List.mem_cons_self
    rw [← hpoint.insert hlt] at hleft
    rw [tryValues_cons hleft, List.findSome?_cons]
    cases hs : search value with
    | some found => exact ⟨left, rfl, fun h => by cases h⟩
    | none =>
      obtain rfl := hnone hs
      exact tryValues_eq hlt (.later value) fun v hv => hnext v (List.mem_cons_of_mem _ hv)

/-- The search returns the first new assignment in its order, and otherwise leaves the map as it
found it. -/
theorem findDistinctFinitePoint_eq :
    ∀ {values : List (String × List (Toml F D))} {before : TrialPoint F D},
      (OrdMap.keys before ++ values.map (·.1)).Pairwise (· < ·) →
      (∀ point ∈ assignments values, ∃ encoded,
        encode floats.toFloats domains (before ++ point) = .ok encoded) →
      ∃ left, findDistinctFinitePoint floats domains existing values before =
          .ok (((assignments values).map (before ++ ·)).find? (isNew floats domains existing), left) ∧
        (((assignments values).map (before ++ ·)).find? (isNew floats domains existing) = none →
          left = before)
  | [], before, _, henc => by
    obtain ⟨encoded, he⟩ := henc [] List.mem_cons_self
    rw [List.append_nil] at he
    refine ⟨before, ?_, fun _ => rfl⟩
    have hnew : isNew floats domains existing before = !containsEncoded floats existing encoded := by
      simp [isNew, he]
    rw [findDistinctFinitePoint, he]
    simp only [assignments, List.map_cons, List.map_nil, List.append_nil, List.find?_cons, hnew,
      List.find?_nil]
    show Except.ok (if containsEncoded floats existing encoded then none else some before, before) = _
    cases containsEncoded floats existing encoded <;> rfl
  | (name, values) :: rest, before, hasc, henc => by
    have hlt : ∀ key ∈ OrdMap.keys before, key < name := fun key hkey =>
      (List.pairwise_append.1 hasc).2.2 key hkey name List.mem_cons_self
    have hsplit : (assignments ((name, values) :: rest)).map (before ++ ·) =
        values.flatMap fun value => (assignments rest).map ((before ++ [(name, value)]) ++ ·) := by
      simp [assignments, List.map_flatMap, Function.comp_def]
    rw [hsplit, List.find?_flatMap]
    refine tryValues_eq hlt .first fun value hvalue => ?_
    refine findDistinctFinitePoint_eq ?_ fun point hpoint => ?_
    · simpa [OrdMap.keys] using hasc
    · obtain ⟨encoded, he⟩ := henc ((name, value) :: point)
        (List.mem_flatMap.2 ⟨value, hvalue, List.mem_map_of_mem hpoint⟩)
      exact ⟨encoded, by simpa using he⟩

theorem finiteValues_names : ∀ {domains : ParameterDomains F D}
    {values : List (String × List (Toml F D))}, finiteValues floats domains = .ok (some values) →
      values.map (·.1) = OrdMap.keys domains
  | [], values, h => by
    cases h
    rfl
  | (name, domain) :: rest, values, h => by
    have hnames : ∀ {own : List (Toml F D)} {others : Option (List (String × List (Toml F D)))},
        finiteValues floats rest = .ok others → others.map ((name, own) :: ·) = some values →
          values.map (·.1) = OrdMap.keys ((name, domain) :: rest) := by
      intro own others hrest hsome
      cases others with
      | none => cases hsome
      | some others =>
        cases hsome
        rw [List.map_cons, OrdMap.keys_cons, finiteValues_names hrest]
    cases domain with
    | float min max => cases h
    | integer domain =>
      obtain ⟨own, -, h⟩ := bind_eq_ok h
      obtain ⟨others, hrest, h⟩ := bind_eq_ok h
      exact hnames hrest (Except.ok.inj h)
    | categorical source =>
      obtain ⟨own, -, h⟩ := bind_eq_ok h
      obtain ⟨others, hrest, h⟩ := bind_eq_ok h
      exact hnames hrest (Except.ok.inj h)

/-! ## Random points are new while a new point is left -/

section Values

variable {values : List (String × List (Toml F D))}

/-- Every choice of values can be encoded. -/
def Encodes (floats : EncodedFloats F) (domains : ParameterDomains F D)
    (points : List (TrialPoint F D)) : Prop :=
  ∀ point ∈ points, ∃ encoded, encode floats.toFloats domains point = .ok encoded

theorem firstDistinctFinitePoint_eq (hasc : OrdMap.Ascending domains)
    (hvalues : finiteValues floats domains = .ok (some values))
    (henc : Encodes floats domains (assignments values)) :
    firstDistinctFinitePoint floats domains existing =
      .ok ((assignments values).find? (isNew floats domains existing)) := by
  have hnames : (OrdMap.keys ([] : TrialPoint F D) ++ values.map (·.1)).Pairwise (· < ·) := by
    rw [finiteValues_names hvalues]
    exact hasc
  obtain ⟨left, hfind, -⟩ := findDistinctFinitePoint_eq hnames henc
  rw [firstDistinctFinitePoint, hvalues]
  show (findDistinctFinitePoint floats domains existing values [] >>= fun result => pure result.1) = _
  rw [hfind]
  simp only [List.nil_append, List.map_id']
  rfl

/-- A point was drawn that is new, or the loop ends with its last point. -/
theorem firstNewDraw_eq {draws : Nat → Except StoreError (TrialPoint F D)}
    (hdraws : ∀ k, ∃ point, draws k = .ok point ∧
      ∃ encoded, encode floats.toFloats domains point = .ok encoded) :
    ∀ (ks : List Nat) (last : Option (TrialPoint F D)), ∃ found last',
      firstNewDraw floats domains existing draws ks last = .ok (found, last') ∧
        ∀ point, found = some point → isNew floats domains existing point = true
  | [], last => ⟨none, last, rfl, fun _ h => by cases h⟩
  | k :: ks, last => by
    obtain ⟨point, hpoint, encoded, henc⟩ := hdraws k
    rw [firstNewDraw, hpoint]
    show ∃ found last', (encode floats.toFloats domains point >>= fun encoded =>
      if containsEncoded floats existing encoded then
        firstNewDraw floats domains existing draws ks (some point)
      else pure (some point, last)) = _ ∧ _
    rw [henc]
    show ∃ found last', (if containsEncoded floats existing encoded then
        firstNewDraw floats domains existing draws ks (some point)
      else pure (some point, last)) = _ ∧ _
    split
    · exact firstNewDraw_eq hdraws ks (some point)
    · rename_i hnew
      refine ⟨some point, last, rfl, fun p hp => ?_⟩
      cases hp
      simp [isNew, henc, hnew]

theorem randomDistinctPoint_new {draws : Nat → Except StoreError (TrialPoint F D)}
    (hasc : OrdMap.Ascending domains)
    (hvalues : finiteValues floats domains = .ok (some values))
    (henc : Encodes floats domains (assignments values))
    (hdraws : ∀ k, ∃ point, draws k = .ok point ∧
      ∃ encoded, encode floats.toFloats domains point = .ok encoded)
    (hleft : ∃ point ∈ assignments values, isNew floats domains existing point = true) :
    ∃ point, randomDistinctPoint floats domains existing draws = .ok point ∧
      isNew floats domains existing point = true := by
  obtain ⟨found, last, hdrawn, hfound⟩ :=
    firstNewDraw_eq hdraws (List.range 64) none
  rw [randomDistinctPoint, hdrawn]
  cases found with
  | some point => exact ⟨point, rfl, hfound point rfl⟩
  | none =>
    -- the search cannot fail where an assignment is left
    obtain ⟨point, hpoint⟩ := Option.isSome_iff_exists.1 (List.find?_isSome.2 hleft)
    refine ⟨point, ?_, List.find?_some hpoint⟩
    show finitePointOr floats domains existing last = .ok point
    rw [finitePointOr, firstDistinctFinitePoint_eq hasc hvalues henc, hpoint]
    rfl

end Values

/-! ## The candidates are apart -/

/-- The encoded candidates: none is near one before it or near an old point. -/
def Apart (floats : EncodedFloats F) (domains : ParameterDomains F D) (existing : List (List F))
    (candidates : List (OptimizerTrialCandidate (Toml F D))) : Prop :=
  ∃ points, candidates.mapM (fun c => encode floats.toFloats domains c.parameters) = .ok points ∧
    (∀ point ∈ points, ∀ old ∈ existing, nearPoint floats old point = false) ∧
    points.Pairwise fun earlier later => nearPoint floats earlier later = false

/-- Each choice is new while fewer points than indices were added. -/
theorem chooseCandidates_apart
    (choose : Nat → Nat → List (List F) → Except StoreError (TrialPoint F D)) :
    ∀ {indices : List Nat} {existing : List (List F)} {offset : Nat},
      (∀ offset index, ∀ more : List (List F), more.length < indices.length →
        ∃ point, choose offset index (existing ++ more) = .ok point ∧
          isNew floats domains (existing ++ more) point = true) →
      ∃ candidates, chooseCandidates floats domains choose existing offset indices =
          .ok candidates ∧ candidates.map (·.index) = indices ∧
        Apart floats domains existing candidates
  | [], existing, offset, _ => ⟨[], rfl, rfl, [], rfl, fun _ h => absurd h List.not_mem_nil, .nil⟩
  | index :: indices, existing, offset, hchoose => by
    obtain ⟨point, hpoint, hnew⟩ := hchoose offset index [] (by simp)
    rw [List.append_nil] at hpoint hnew
    unfold isNew at hnew
    split at hnew
    · rename_i encoded henc
      have hothers : ∃ candidates, chooseCandidates floats domains choose (existing ++ [encoded])
          (offset + 1) indices = .ok candidates ∧ candidates.map (·.index) = indices ∧
            Apart floats domains (existing ++ [encoded]) candidates := by
        refine chooseCandidates_apart choose fun offset index more hmore => ?_
        rw [List.append_assoc]
        exact hchoose offset index ([encoded] ++ more) (by simp; omega)
      obtain ⟨candidates, hrest, hindices, points, hpoints, hold, hpair⟩ := hothers
      refine ⟨⟨index, point⟩ :: candidates, ?_, by rw [List.map_cons, hindices], encoded :: points,
        ?_, ?_, ?_⟩
      · rw [chooseCandidates, hpoint]
        show (encode floats.toFloats domains point >>= fun encoded => _) = _
        rw [henc]
        show (chooseCandidates floats domains choose (existing ++ [encoded]) (offset + 1) indices
          >>= fun others => pure (⟨index, point⟩ :: others)) = _
        rw [hrest]
        rfl
      · rw [List.mapM_cons, henc, hpoints]
        rfl
      · intro p hp old hmem
        rcases List.mem_cons.1 hp with rfl | hp
        · simp only [containsEncoded, Bool.not_eq_true', List.any_eq_false] at hnew
          simpa using hnew old hmem
        · exact hold p hp old (List.mem_append_left _ hmem)
      · refine .cons (fun p hp => ?_) hpair
        exact hold p hp encoded (List.mem_append_right _ List.mem_cons_self)
    · cases hnew

/-- Where no element of one list excludes two of the other, and there are fewer of them, one is
left. -/
theorem exists_not_excluded {α β : Type} {R : β → α → Prop} :
    ∀ {l : List α} {xs : List β}, l.Pairwise (fun a b => ∀ x, ¬(R x a ∧ R x b)) →
      xs.length < l.length → ∃ a ∈ l, ∀ x ∈ xs, ¬R x a
  | a :: l, xs, hsep, hlen => by
    obtain ⟨hhead, htail⟩ := List.pairwise_cons.1 hsep
    by_cases hex : ∃ x ∈ xs, R x a
    · obtain ⟨x, hx, hxa⟩ := hex
      obtain ⟨s, t, rfl⟩ := List.append_of_mem hx
      have hshort : (s ++ t).length < l.length := by
        simp only [List.length_append, List.length_cons] at hlen ⊢
        omega
      obtain ⟨b, hb, hfree⟩ := exists_not_excluded htail hshort
      refine ⟨b, List.mem_cons_of_mem _ hb, fun y hy hyb => ?_⟩
      rcases List.mem_append.1 hy with hy | hy
      · exact hfree y (List.mem_append_left _ hy) hyb
      · rcases List.mem_cons.1 hy with rfl | hy
        · exact hhead b hb y ⟨hxa, hyb⟩
        · exact hfree y (List.mem_append_right _ hy) hyb
    · exact ⟨a, List.mem_cons_self, fun x hx hxa => hex ⟨x, hx, hxa⟩⟩

/-- No point is near the encodings of two of the assignments. -/
def Separate (floats : EncodedFloats F) (domains : ParameterDomains F D)
    (points : List (TrialPoint F D)) : Prop :=
  points.Pairwise fun a b => ∀ x,
    ¬((∃ e, encode floats.toFloats domains a = .ok e ∧ nearPoint floats x e = true) ∧
      ∃ e, encode floats.toFloats domains b = .ok e ∧ nearPoint floats x e = true)

theorem exists_new {points : List (TrialPoint F D)} (henc : Encodes floats domains points)
    (hsep : Separate floats domains points) (hlen : existing.length < points.length) :
    ∃ point ∈ points, isNew floats domains existing point = true := by
  obtain ⟨point, hmem, hfree⟩ := exists_not_excluded hsep hlen
  obtain ⟨encoded, he⟩ := henc point hmem
  refine ⟨point, hmem, ?_⟩
  simp only [isNew, he, Bool.not_eq_true', containsEncoded, List.any_eq_false]
  exact fun x hx hnear => hfree x hx ⟨encoded, he, by simpa using hnear⟩

/-- A coordinate of a finite domain is the float of an integer. -/
theorem finite_of_encode : ∀ {domains : ParameterDomains F D}
    {values : List (String × List (Toml F D))} {point : TrialPoint F D} {encoded : List F},
    finiteValues floats domains = .ok (some values) →
      encode floats.toFloats domains point = .ok encoded → ∀ x ∈ encoded, floats.isFinite x = true
  | [], _, _, encoded, _, h => by
    cases h
    exact fun _ hx => absurd hx List.not_mem_nil
  | (name, domain) :: rest, values, point, encoded, hvalues, h => by
    have hrest : (∃ others, finiteValues floats rest = .ok (some others)) ∧
        ∀ value x, encodeParameterValue floats.toFloats name domain value = .ok x →
          floats.isFinite x = true := by
      cases domain with
      | float min max => cases hvalues
      | integer domain =>
        obtain ⟨own, -, hvalues⟩ := bind_eq_ok hvalues
        obtain ⟨others, hothers, hvalues⟩ := bind_eq_ok hvalues
        refine ⟨?_, fun value x hx => ?_⟩
        · cases others with
          | none => cases hvalues
          | some others => exact ⟨others, hothers⟩
        · cases value <;> cases hx
          exact floats.ofInt_finite _
      | categorical source =>
        obtain ⟨own, -, hvalues⟩ := bind_eq_ok hvalues
        obtain ⟨others, hothers, hvalues⟩ := bind_eq_ok hvalues
        refine ⟨?_, fun value x hx => ?_⟩
        · cases others with
          | none => cases hvalues
          | some others => exact ⟨others, hothers⟩
        · obtain ⟨choices, -, hx⟩ := bind_eq_ok hx
          split at hx <;> cases hx
          exact floats.ofInt_finite _
    obtain ⟨⟨others, hothers⟩, hvalue⟩ := hrest
    unfold encode at h
    rw [List.mapM_cons] at h
    obtain ⟨x, hx, h⟩ := bind_eq_ok h
    obtain ⟨xs, hxs, h⟩ := bind_eq_ok h
    cases h
    refine List.forall_mem_cons.2 ⟨?_, finite_of_encode hothers hxs⟩
    split at hx
    · cases hx
    · exact hvalue _ x hx

theorem nearPoint_self {point : List F} (h : ∀ x ∈ point, floats.isFinite x = true) :
    nearPoint floats point point = true := by
  simp only [nearPoint, beq_self_eq_true, Bool.true_and]
  induction point with
  | nil => rfl
  | cons x point ih =>
    rw [List.forall_mem_cons] at h
    rw [List.zip_cons_cons, List.all_cons, ih h.2, Bool.and_true]
    exact floats.close_self h.1

/-- The parameters of candidates that are apart are different. -/
theorem Apart.nodup {values : List (String × List (Toml F D))}
    {candidates : List (OptimizerTrialCandidate (Toml F D))}
    (hvalues : finiteValues floats domains = .ok (some values))
    (h : Apart floats domains existing candidates) :
    (candidates.map (·.parameters)).Nodup := by
  obtain ⟨points, hpoints, -, hpair⟩ := h
  induction candidates generalizing points with
  | nil => exact List.nodup_nil
  | cons c candidates ih =>
    rw [List.mapM_cons] at hpoints
    obtain ⟨x, hx, hpoints⟩ := bind_eq_ok hpoints
    obtain ⟨xs, hxs, hpoints⟩ := bind_eq_ok hpoints
    cases hpoints
    obtain ⟨hhead, htail⟩ := List.pairwise_cons.1 hpair
    refine List.nodup_cons.2 ⟨fun hmem => ?_, ih xs hxs htail⟩
    obtain ⟨c', hc', heq⟩ := List.mem_map.1 hmem
    obtain ⟨y, hy, hyc⟩ := mem_of_mapM hxs hc'
    simp only at heq
    rw [heq, hx] at hyc
    cases hyc
    have hnear := hhead x hy
    rw [nearPoint_self (finite_of_encode hvalues hx)] at hnear
    cases hnear

/-- A suggested row is a point of the domains: it is decoded and encoded to itself. -/
def OnGrid (floats : EncodedFloats F) (domains : ParameterDomains F D) (row : List F) : Prop :=
  ∃ point, decode floats domains row = .ok point ∧
    encode floats.toFloats domains point = .ok row

theorem suggestedPoint_new {values : List (String × List (Toml F D))}
    {draws : Nat → Nat → Except StoreError (TrialPoint F D)} {suggested : List (List F)}
    (hasc : OrdMap.Ascending domains)
    (hvalues : finiteValues floats domains = .ok (some values))
    (henc : Encodes floats domains (assignments values))
    (hdraws : ∀ index k, ∃ point, draws index k = .ok point ∧
      ∃ encoded, encode floats.toFloats domains point = .ok encoded)
    (hrows : suggested ≠ []) (hgrid : ∀ row ∈ suggested, OnGrid floats domains row)
    (hleft : ∃ point ∈ assignments values, isNew floats domains existing point = true)
    (offset index : Nat) :
    ∃ point, suggestedPoint floats domains draws suggested offset index existing = .ok point ∧
      isNew floats domains existing point = true := by
  have hlen : 0 < suggested.length := List.length_pos_iff.2 hrows
  have hrow : min offset (suggested.length - 1) < suggested.length := by omega
  unfold suggestedPoint
  rw [List.getElem?_eq_getElem hrow]
  simp only
  split
  · exact randomDistinctPoint_new hasc hvalues henc (hdraws index) hleft
  · rename_i hnew
    obtain ⟨point, hpoint, hencoded⟩ := hgrid _ (List.getElem_mem hrow)
    exact ⟨point, hpoint, by simp [isNew, hencoded, hnew]⟩

variable {observations : List (OptimizerObservation (Toml F D) V)}
  {previousTrials : OrdMap Nat (PreviousTrial (Toml F D) V)}
  {nextIndices existingTrialIndices : List Nat}

/-- With finite domains that have enough values left, the new candidates are apart from each other
and from the trials that exist, whatever is drawn, whether the optimizer fails or suggests points
of the domains. -/
theorem suggested_trials_distinct {values : List (String × List (Toml F D))}
    {draws : Nat → Nat → Except StoreError (TrialPoint F D)}
    {suggest : List (List F) → Except String (List (List F))}
    (hasc : OrdMap.Ascending domains)
    (hvalues : finiteValues floats domains = .ok (some values))
    (henc : Encodes floats domains (assignments values))
    (hsep : Separate floats domains (assignments values))
    (hdraws : ∀ index k, ∃ point, draws index k = .ok point ∧
      ∃ encoded, encode floats.toFloats domains point = .ok encoded)
    (hobservations : ∀ o ∈ observations, ∃ encoded,
      encode floats.toFloats domains o.parameters = .ok encoded)
    (hgrid : ∀ xData rows, suggest xData = .ok rows →
      rows ≠ [] ∧ ∀ row ∈ rows, OnGrid floats domains row)
    (hexisting : existingEncodedPoints floats domains existingTrialIndices previousTrials =
      .ok existing)
    (hroom : existing.length + nextIndices.length ≤ (assignments values).length) :
    ∃ candidates, suggestEgoboxCandidates floats domains draws suggest observations nextIndices
        existingTrialIndices previousTrials = .ok candidates ∧
      candidates.map (·.index) = nextIndices ∧ Apart floats domains existing candidates ∧
      (candidates.map (·.parameters)).Nodup := by
  have hleft : ∀ more : List (List F), more.length < nextIndices.length →
      ∃ point ∈ assignments values, isNew floats domains (existing ++ more) point = true := by
    intro more hmore
    refine exists_new henc hsep ?_
    rw [List.length_append]
    omega
  have hx : observations.mapM (fun o => encode floats.toFloats domains o.parameters) =
      .ok (observations.map fun o => ((encode floats.toFloats domains o.parameters).toOption.getD [])) := by
    refine mapM_eq_ok fun o ho => ?_
    obtain ⟨encoded, he⟩ := hobservations o ho
    rw [he]
    rfl
  unfold suggestEgoboxCandidates
  rw [hx]
  generalize observations.map _ = xData
  show ∃ candidates, (match suggest xData with
    | .error _ => egoboxRandomFallbackCandidates floats domains draws nextIndices
        existingTrialIndices previousTrials
    | .ok suggested => existingEncodedPoints floats domains existingTrialIndices previousTrials >>=
        fun existing => chooseCandidates floats domains
          (suggestedPoint floats domains draws suggested) existing 0 nextIndices) = _ ∧ _
  cases hs : suggest xData with
  | error reason =>
    obtain ⟨candidates, hc, hindices, hapart⟩ := chooseCandidates_apart
      (fun _ index existing => randomDistinctPoint floats domains existing (draws index))
      fun _ index more hmore =>
        randomDistinctPoint_new hasc hvalues henc (hdraws index) (hleft more hmore)
    refine ⟨candidates, ?_, hindices, hapart, hapart.nodup hvalues⟩
    simp only [egoboxRandomFallbackCandidates, hexisting]
    exact hc
  | ok suggested =>
    obtain ⟨hrows, hpoints⟩ := hgrid xData suggested hs
    obtain ⟨candidates, hc, hindices, hapart⟩ := chooseCandidates_apart
      (suggestedPoint floats domains draws suggested) fun offset index more hmore =>
        suggestedPoint_new hasc hvalues henc hdraws hrows hpoints (hleft more hmore) offset index
    refine ⟨candidates, ?_, hindices, hapart, hapart.nodup hvalues⟩
    simp only [hexisting]
    exact hc

end Search

/-! ## Three levels -/

theorem Extended.beq_self {x : Extended} (_ : Extended.floats.isFinite x) : x == x :=
  beq_self_eq_true x

/-- The integers and infinity, of which only the same ones are close. -/
def Extended.encodedFloats : EncodedFloats Extended where
  toFloats := Extended.floats
  close x y := x == y
  closer value v best :=
    match value with
    | .finite n => decide ((v.toInt - n).natAbs < (best.toInt - n).natAbs)
    | .infinity => false
  roundIndex value max :=
    match value with
    | .finite n => min n.toNat max
    | .infinity => max
  close_self := @Extended.beq_self

def levelDomains : ParameterDomains Extended Empty := [("level", .integer ⟨1, 3, none⟩)]

def levelValues : List (String × List (Toml Extended Empty)) :=
  [("level", [.integer 1, .integer 2, .integer 3])]

def level (n : Int64) : TrialPoint Extended Empty := [("level", .integer n)]

/-- Every draw is the second level, which the first trial has. -/
example : (suggestEgoboxCandidates (V := Unit) Extended.encodedFloats levelDomains
    (fun _ _ => .ok (level 2)) (fun _ => .error "no model") [] [1, 2] [0]
    [(0, ⟨0, .active, level 2, none⟩)]).map (·.map (·.parameters)) = .ok [level 1, level 3] := by
  rfl

theorem suggested_trials_distinct_levels :
    ∃ candidates, suggestEgoboxCandidates (V := Unit) Extended.encodedFloats levelDomains
        (fun _ _ => .ok (level 2)) (fun _ => .error "no model") [] [1, 2] [0]
        [(0, ⟨0, .active, level 2, none⟩)] = .ok candidates ∧
      candidates.map (·.index) = [1, 2] ∧
      Apart Extended.encodedFloats levelDomains [[.finite 2]] candidates ∧
      (candidates.map (·.parameters)).Nodup := by
  have hvalues : finiteValues Extended.encodedFloats levelDomains = .ok (some levelValues) := rfl
  have hlevels : assignments levelValues = [level 1, level 2, level 3] := rfl
  refine suggested_trials_distinct ?_ hvalues ?_ ?_ ?_ ?_ ?_ rfl ?_
  · simp [OrdMap.Ascending, OrdMap.keys, levelDomains]
  · intro point hpoint
    rw [hlevels] at hpoint
    simp only [List.mem_cons, List.not_mem_nil, or_false] at hpoint
    rcases hpoint with rfl | rfl | rfl <;> exact ⟨_, rfl⟩
  · -- a coordinate is near one integer only
    have hnear : ∀ (n : Int64) (x : List Extended), (∃ e, encode Extended.floats levelDomains
        (level n) = .ok e ∧ nearPoint Extended.encodedFloats x e = true) → x = [.finite n.toInt] := by
      rintro n x ⟨e, he, hx⟩
      cases he
      cases x with
      | nil => cases hx
      | cons y rest =>
        cases rest with
        | nil =>
          have hy : y = Extended.floats.ofInt n.toInt := by
            simpa [nearPoint, Extended.encodedFloats] using hx
          rw [hy]
          rfl
        | cons z rest => simp [nearPoint] at hx
    rw [hlevels]
    simp only [Separate, List.pairwise_cons, List.mem_cons, List.not_mem_nil, or_false]
    refine ⟨?_, ?_, ⟨fun _ h => h.elim, List.Pairwise.nil⟩⟩
    · rintro point (rfl | rfl) x ⟨h, h'⟩
      · exact absurd ((hnear 1 x h).symm.trans (hnear 2 x h')) (by decide)
      · exact absurd ((hnear 1 x h).symm.trans (hnear 3 x h')) (by decide)
    · rintro point rfl x ⟨h, h'⟩
      exact absurd ((hnear 2 x h).symm.trans (hnear 3 x h')) (by decide)
  · exact fun _ _ => ⟨_, rfl, _, rfl⟩
  · exact fun _ ho => absurd ho List.not_mem_nil
  · exact fun _ _ h => by cases h
  · decide

end Gammaboard.Runners
