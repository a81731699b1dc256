import Gammaboard.Lib.Run
import Gammaboard.Sampling.Generation

/-!
# Assembling the feedback of a draw

`Feedback::append` and `accept_feedback` change their receiver in place, so a
refused fragment could leave half of itself behind. They are given here as they
run, and agree with `append` and `acceptFeedback`. The fragments of one draw,
taken in order, give the feedback of the draw back with the last of them.
-/

namespace Gammaboard.Sampling

open Gammaboard.Core Gammaboard.Lib

variable {V P : Type} {finite : V → Bool} {f : Feedback V}

/-! ## In place -/

namespace Feedback

/-- `append` on its receiver, which is what the caller is left with. -/
def appendInPlace (finite : V → Bool) (f other : Feedback V) :
    Feedback V × Except EngineError Unit :=
  match other.validate finite with
  | .error e => (f, .error e)
  | .ok () =>
    if f.len = 0 then (other, .ok ())
    else
      let extended (f : Feedback V) : Feedback V :=
        { f with unmaskedValues := f.unmaskedValues ++ other.unmaskedValues }
      match f.strata, other.strata with
      | none, none => (extended f, .ok ())
      | some a, some b =>
        if a.prefixes = b.prefixes then
          -- The assignments are extended before the values.
          let strata := { a with
            requested := a.requested ++ b.requested, actual := a.actual ++ b.actual }
          (extended { f with strata := some strata }, .ok ())
        else (f, .error (.eval "inconsistent feedback stratum layout within a draw"))
      | _, _ => (f, .error (.eval "inconsistent feedback stratum layout within a draw"))

theorem appendInPlace_eq (f other : Feedback V) :
    f.appendInPlace finite other =
      match f.append finite other with
      | .ok f' => (f', .ok ())
      | .error e => (f, .error e) := by
  unfold appendInPlace append
  cases other.validate finite with
  | error e => rfl
  | ok u =>
    by_cases hempty : f.len = 0
    · simp only [hempty, if_true]
    · simp only [hempty, if_false]
      cases hf : f.strata with
      | none => cases other.strata <;> simp
      | some a =>
        cases other.strata with
        | none => rfl
        | some b =>
          by_cases hlayout : a.prefixes = b.prefixes
          · simp only [hlayout, if_true]
          · simp only [hlayout, if_false]

end Feedback

namespace GenerationBuffer

/-- `accept_feedback` on the buffer, which is what the caller is left with. -/
def acceptInPlace (finite : V → Bool) (values : Feedback V) (g : GenerationBuffer V P) :
    GenerationBuffer V P × Except EngineError (Option (Feedback V)) :=
  match g.trainingGroups with
  | [] => (g, .error (.engine "training result has no matching generated batch"))
  | group :: rest =>
    if group.samples - group.feedback.len < values.len then
      (g, .error (.engine "training result crosses a generation boundary"))
    else
      let (feedback, answer) := group.feedback.appendInPlace finite values
      let g := { g with trainingGroups := { group with feedback } :: rest }
      match answer with
      | .error e => (g, .error e)
      | .ok () =>
        if feedback.len = group.samples then
          ({ g with trainingGroups := rest }, .ok (some feedback))
        else (g, .ok none)

theorem acceptInPlace_eq (values : Feedback V) (g : GenerationBuffer V P) :
    g.acceptInPlace finite values =
      match g.acceptFeedback finite values with
      | .ok (g', assembled) => (g', .ok assembled)
      | .error e => (g, .error e) := by
  unfold acceptInPlace acceptFeedback
  cases hgroups : g.trainingGroups with
  | nil => rfl
  | cons group rest =>
    by_cases hcross : group.samples - group.feedback.len < values.len
    · simp only [hcross, if_true]
    · simp only [hcross, if_false, Feedback.appendInPlace_eq]
      cases group.feedback.append finite values with
      | error e =>
        show ({ g with trainingGroups := group :: rest }, _) = (g, _)
        rw [← hgroups]
      | ok feedback =>
        by_cases hdone : feedback.len = group.samples
        · simp only [hdone, if_true]
        · simp only [hdone, if_false]

end GenerationBuffer

/-! ## Refused fragments -/

namespace Feedback

/-- Every value is finite and the stratum metadata fits the values. -/
def WellFormed (finite : V → Bool) (f : Feedback V) : Prop :=
  (∀ v ∈ f.unmaskedValues, finite v = true) ∧ ∀ s, f.strata = some s → badStrata f.len s = false

/-- The strata a fragment is laid out over, if it is stratified. -/
def layout (f : Feedback V) : Option (List (List Int)) := f.strata.map (·.prefixes)

theorem validate_eq_ok_iff : f.validate finite = .ok () ↔ f.WellFormed finite := by
  unfold validate WellFormed
  by_cases hfinite : f.unmaskedValues.any (fun v => !finite v) = true
  · rw [if_pos hfinite]
    obtain ⟨v, hv, hbad⟩ := List.any_eq_true.1 hfinite
    refine ⟨(fun h => by cases h), ?_⟩
    rintro ⟨hall, -⟩
    simp [hall v hv] at hbad
  · rw [if_neg hfinite]
    have hall : ∀ v ∈ f.unmaskedValues, finite v = true := by simpa using hfinite
    cases hs : f.strata with
    | none => simpa using hall
    | some s =>
      cases hbad : badStrata f.len s with
      | true => simp [hbad]
      | false => simpa [hbad] using hall

/-- A fragment is put after the ones before it when it passes its check and is laid out over
the same strata; it then adds its length. -/
theorem append_ok_iff {other : Feedback V} :
    (∃ f', f.append finite other = .ok f') ↔
      other.WellFormed finite ∧ (0 < f.len → other.layout = f.layout) := by
  rw [← validate_eq_ok_iff]
  unfold append layout
  cases other.validate finite with
  | error e => simp
  | ok u =>
    by_cases hempty : f.len = 0
    · simp [hempty]
    · have hpos : 0 < f.len := Nat.pos_of_ne_zero hempty
      simp only [hempty, if_false, true_and, hpos, true_implies]
      cases f.strata with
      | none => cases other.strata <;> simp
      | some a =>
        cases other.strata with
        | none => simp
        | some b =>
          by_cases hlayout : a.prefixes = b.prefixes
          · simp [hlayout]
          · simp [hlayout, Ne.symm hlayout]

end Feedback

namespace GenerationBuffer

/-- The fragment goes past the end of the draw in front, fails its check, or is laid out over
other strata than the fragments before it. -/
def Misfit (finite : V → Bool) (values : Feedback V) (g : GenerationBuffer V P) : Prop :=
  match g.trainingGroups with
  | [] => True
  | group :: _ =>
    group.samples - group.feedback.len < values.len ∨ ¬values.WellFormed finite ∨
      0 < group.feedback.len ∧ values.layout ≠ group.feedback.layout

theorem acceptFeedback_error_iff {values : Feedback V} {g : GenerationBuffer V P} :
    (∃ e, g.acceptFeedback finite values = .error e) ↔ g.Misfit finite values := by
  unfold acceptFeedback Misfit
  cases hgroups : g.trainingGroups with
  | nil => simp
  | cons group rest =>
    by_cases hcross : group.samples - group.feedback.len < values.len
    · simp [hcross]
    · simp only [hcross, if_false, false_or]
      have hok : (∃ f', group.feedback.append finite values = .ok f') ↔ _ := Feedback.append_ok_iff
      cases happend : group.feedback.append finite values with
      | error e =>
        have hnot := mt hok.2 (by simp [happend])
        rw [not_and_or, Classical.not_imp] at hnot
        simpa using hnot
      | ok feedback =>
        obtain ⟨hwell, hlayout⟩ := hok.1 ⟨feedback, happend⟩
        constructor
        · rintro ⟨e, he⟩
          dsimp only at he
          split at he <;> cases he
        · rintro (hbad | ⟨hpos, hbad⟩)
          · exact absurd hwell hbad
          · exact absurd (hlayout hpos) hbad

end GenerationBuffer

/-! ## Fragments of one draw -/

namespace Feedback

/-- The fragment of `n` samples from `start`. -/
def fragment (f : Feedback V) (start n : Nat) : Feedback V where
  unmaskedValues := (f.unmaskedValues.drop start).take n
  strata := f.strata.map fun s =>
    { s with requested := (s.requested.drop start).take n, actual := (s.actual.drop start).take n }

/-- The draw's feedback cut into consecutive fragments of the sizes. -/
def fragments (f : Feedback V) : Nat → List Nat → List (Feedback V)
  | _, [] => []
  | start, n :: sizes => f.fragment start n :: f.fragments (start + n) sizes

theorem fragment_len {start n : Nat} (h : start + n ≤ f.len) : (f.fragment start n).len = n := by
  unfold len at h
  simp only [len, fragment, List.length_take, List.length_drop]
  omega

theorem badStrata_eq_false {len : Nat} {s : StratumAssignments} (h : badStrata len s = false) :
    s.requested.length = len ∧ s.actual.length = len ∧
      ∀ k ∈ s.requested ++ s.actual, k < s.prefixes.length := by
  simp only [badStrata, Bool.or_eq_false_iff, bne_eq_false_iff_eq, List.any_eq_false] at h
  obtain ⟨⟨⟨-, hrequested⟩, hactual⟩, hindex⟩ := h
  refine ⟨hrequested, hactual, fun k hk => ?_⟩
  have hlt := hindex k hk
  simp only [decide_eq_true_eq] at hlt
  omega

/-- A fragment of a well-formed feedback is well formed. -/
theorem WellFormed.fragment (h : f.WellFormed finite) {start n : Nat} (hn : start + n ≤ f.len) :
    (f.fragment start n).WellFormed finite := by
  obtain ⟨hfinite, hstrata⟩ := h
  refine ⟨fun v hv => hfinite v (List.mem_of_mem_drop (List.mem_of_mem_take hv)), ?_⟩
  rintro s' hs'
  rw [fragment_len hn]
  obtain ⟨s, hs, rfl⟩ := Option.map_eq_some_iff.1 hs'
  have hbad := hstrata s hs
  obtain ⟨hrequested, hactual, hindex⟩ := badStrata_eq_false hbad
  simp only [badStrata, Bool.or_eq_false_iff, bne_eq_false_iff_eq, List.any_eq_false] at hbad ⊢
  refine ⟨⟨⟨hbad.1.1.1, ?_⟩, ?_⟩, fun k hk => ?_⟩
  · rw [List.length_take, List.length_drop]
    omega
  · rw [List.length_take, List.length_drop]
    omega
  · have hmem : k ∈ s.requested ++ s.actual := by
      rcases List.mem_append.1 hk with hk | hk
      · exact List.mem_append_left _ (List.mem_of_mem_drop (List.mem_of_mem_take hk))
      · exact List.mem_append_right _ (List.mem_of_mem_drop (List.mem_of_mem_take hk))
    have hlt := hindex k hmem
    simp only [decide_eq_true_eq]
    omega

/-- The whole draw is its own fragment. -/
theorem WellFormed.fragment_self (h : f.WellFormed finite) : f.fragment 0 f.len = f := by
  obtain ⟨values, strata⟩ := f
  unfold Feedback.fragment
  cases hs : strata with
  | none => simp [len]
  | some s =>
    obtain ⟨hrequested, hactual, -⟩ := badStrata_eq_false (h.2 s hs)
    simp only [len] at hrequested hactual
    simp [len, List.take_of_length_le, hrequested.le, hactual.le]

/-- The fragment after the first `k` samples makes them the first `k + n`. -/
theorem WellFormed.append_fragment (h : f.WellFormed finite) {k n : Nat} (hk : 0 < k)
    (hn : k + n ≤ f.len) :
    (f.fragment 0 k).append finite (f.fragment k n) = .ok (f.fragment 0 (k + n)) := by
  have hvalid := validate_eq_ok_iff.2 (h.fragment hn)
  have hlen : (f.fragment 0 k).len ≠ 0 := by
    rw [fragment_len (by omega)]
    omega
  unfold append
  rw [hvalid]
  simp only [hlen, if_false]
  unfold Feedback.fragment
  cases f.strata with
  | none => simp [List.take_add]
  | some s => simp [List.take_add]

theorem append_empty {other : Feedback V} (h : other.WellFormed finite) :
    (Feedback.empty.append finite other) = .ok other := by
  unfold append
  rw [validate_eq_ok_iff.2 h]
  rfl

end Feedback

/-! ## Arrivals -/

/-- What happens to the assembler while a draw is put together: another draw is generated, or
the next fragment arrives. -/
inductive Arrival (V : Type) where
  | draw (samples : Nat)
  | fragment (values : Feedback V)
  deriving DecidableEq, Repr

namespace Arrival

def fragments : List (Arrival V) → List (Feedback V)
  | [] => []
  | .draw _ :: rest => fragments rest
  | .fragment values :: rest => values :: fragments rest

def draws : List (Arrival V) → List Nat
  | [] => []
  | .draw samples :: rest => samples :: draws rest
  | .fragment _ :: rest => draws rest

end Arrival

/-- The buffer with the answer given to every fragment so far. -/
structure Assembly (V P : Type) where
  buffer : GenerationBuffer V P
  answers : List (Except EngineError (Option (Feedback V)))
  deriving DecidableEq, Repr

namespace Assembly

def step (finite : V → Bool) (s : Assembly V P) : Arrival V → Assembly V P
  | .draw samples => { s with buffer := s.buffer.recordDraw samples }
  | .fragment values =>
    let (buffer, answer) := s.buffer.acceptInPlace finite values
    ⟨buffer, s.answers ++ [answer]⟩

/-- A draw generated meanwhile, before its first fragment. -/
def waiting (samples : Nat) : TrainingGroup V := ⟨samples, .empty⟩

/-- The first `k` samples of the draw are in, its group is in front of `rest`. -/
structure Has (f : Feedback V) (k : Nat) (rest : List (TrainingGroup V)) (s : Assembly V P) :
    Prop where
  groups : s.buffer.trainingGroups =
    ⟨f.len, if k = 0 then .empty else f.fragment 0 k⟩ :: rest
  open_ : k < f.len

/-- The next fragment is taken. Only the last one completes the draw. -/
theorem Has.accept {s : Assembly V P} {k n : Nat} {rest : List (TrainingGroup V)}
    (h : Has f k rest s) (hf : f.WellFormed finite) (hpos : 0 < n) (hn : k + n ≤ f.len) :
    if k + n = f.len then
      step finite s (.fragment (f.fragment k n)) =
        ⟨{ s.buffer with trainingGroups := rest }, s.answers ++ [.ok (some f)]⟩
    else Has f (k + n) rest (step finite s (.fragment (f.fragment k n))) ∧
      (step finite s (.fragment (f.fragment k n))).answers = s.answers ++ [.ok none] := by
  have hhead : (if k = 0 then Feedback.empty else f.fragment 0 k).append finite (f.fragment k n) =
      .ok (f.fragment 0 (k + n)) := by
    by_cases hk : k = 0
    · subst hk
      simpa using Feedback.append_empty (hf.fragment hn)
    · rw [if_neg hk]
      exact hf.append_fragment (Nat.pos_of_ne_zero hk) hn
  have hlen : (if k = 0 then Feedback.empty else f.fragment 0 k).len = k := by
    by_cases hk : k = 0
    · simp [hk, Feedback.empty, Feedback.len]
    · rw [if_neg hk, Feedback.fragment_len (by omega)]
  have hroom : ¬(f.len - k < (f.fragment k n).len) := by
    rw [Feedback.fragment_len hn]
    omega
  have hsum : (f.fragment 0 (k + n)).len = k + n := Feedback.fragment_len (by omega)
  have hne : k + n ≠ 0 := by omega
  have haccept : s.buffer.acceptFeedback finite (f.fragment k n) =
      if k + n = f.len then
        .ok ({ s.buffer with trainingGroups := rest }, some (f.fragment 0 (k + n)))
      else
        .ok ({ s.buffer with trainingGroups := ⟨f.len, f.fragment 0 (k + n)⟩ :: rest }, none) := by
    unfold GenerationBuffer.acceptFeedback
    rw [h.groups]
    simp only [hlen, hroom, if_false, hhead, hsum]
  unfold step
  simp only [GenerationBuffer.acceptInPlace_eq, haccept]
  by_cases hdone : k + n = f.len
  · simp only [hdone, if_true, hf.fragment_self]
  · simp only [hdone, if_false, and_true]
    refine ⟨?_, by omega⟩
    simp only [hne, if_false]

/-- Draws generated meanwhile queue up behind. -/
theorem run_draws {s : Assembly V P} {arrivals : List (Arrival V)}
    (h : Arrival.fragments arrivals = []) :
    (run (step finite) s arrivals).answers = s.answers ∧
      (run (step finite) s arrivals).buffer.trainingGroups =
        s.buffer.trainingGroups ++ (Arrival.draws arrivals).map waiting := by
  induction arrivals generalizing s with
  | nil => simp [Arrival.draws]
  | cons e rest ih =>
    cases e with
    | fragment values => cases h
    | draw samples =>
      obtain ⟨hanswers, hgroups⟩ := ih (s := step finite s (.draw samples)) h
      rw [run_cons]
      refine ⟨hanswers, hgroups.trans ?_⟩
      simp [step, GenerationBuffer.recordDraw, Arrival.draws, waiting]

/-- The remaining fragments complete the draw, the last one alone gives it out. -/
theorem Has.run {s : Assembly V P} {k : Nat} {rest : List (TrainingGroup V)}
    (h : Has f k rest s) (hf : f.WellFormed finite) {sizes : List Nat} (hpos : ∀ n ∈ sizes, 0 < n)
    (hsum : k + sizes.sum = f.len) {arrivals : List (Arrival V)}
    (harrivals : Arrival.fragments arrivals = f.fragments k sizes) :
    (run (step finite) s arrivals).answers =
        s.answers ++ List.replicate (sizes.length - 1) (.ok none) ++ [.ok (some f)] ∧
      (run (step finite) s arrivals).buffer.trainingGroups =
        rest ++ (Arrival.draws arrivals).map waiting := by
  induction arrivals generalizing s k rest sizes with
  | nil =>
    cases sizes with
    | cons n sizes => cases harrivals
    | nil =>
      have hopen := h.open_
      simp at hsum
      omega
  | cons e arrivals ih =>
    rw [run_cons]
    cases e with
    | draw samples =>
      have hmore : Has f k (rest ++ [waiting samples]) (step finite s (.draw samples)) :=
        ⟨by simp [step, GenerationBuffer.recordDraw, h.groups, waiting], h.open_⟩
      obtain ⟨hanswers, hgroups⟩ := ih hmore hpos hsum harrivals
      refine ⟨hanswers, hgroups.trans ?_⟩
      simp [Arrival.draws]
    | fragment values =>
      cases sizes with
      | nil => cases harrivals
      | cons n sizes =>
        simp only [Arrival.fragments, Feedback.fragments, List.cons.injEq] at harrivals
        obtain ⟨rfl, hnext⟩ := harrivals
        rw [List.sum_cons] at hsum
        have hn := hpos n List.mem_cons_self
        have hrest := fun m hm => hpos m (List.mem_cons_of_mem n hm)
        have haccept := h.accept hf hn (by omega)
        by_cases hdone : k + n = f.len
        · -- the last fragment: what is left are draws
          rw [if_pos hdone] at haccept
          have hnil : sizes = [] := by
            cases sizes with
            | nil => rfl
            | cons m sizes =>
              have hm := hrest m List.mem_cons_self
              rw [List.sum_cons] at hsum
              omega
          subst hnil
          obtain ⟨hanswers, hgroups⟩ := run_draws (s := step finite s (.fragment _)) hnext
          rw [haccept] at hanswers hgroups ⊢
          exact ⟨by simpa using hanswers, hgroups⟩
        · rw [if_neg hdone] at haccept
          obtain ⟨hhas, hanswer⟩ := haccept
          obtain ⟨hanswers, hgroups⟩ := ih hhas hrest (by omega) hnext
          refine ⟨?_, hgroups⟩
          have hsizes : sizes ≠ [] := by
            rintro rfl
            simp at hsum
            omega
          rw [hanswers, hanswer]
          obtain ⟨m, sizes, rfl⟩ := List.exists_cons_of_ne_nil hsizes
          simp [List.replicate_succ]

/-- The fragments of a draw in order, other draws generated meanwhile: every fragment is
taken, the last one alone gives out the feedback of the draw, whole and in order. A fragment is
refused exactly when it does not fit, and then nothing changes. -/
theorem assembles (finite : V → Bool) :
    (∀ (f : Feedback V) (s : Assembly V P) (rest : List (TrainingGroup V)) (sizes : List Nat)
        (arrivals : List (Arrival V)),
      f.WellFormed finite → 0 < f.len → (∀ n ∈ sizes, 0 < n) → sizes.sum = f.len →
      s.buffer.trainingGroups = waiting f.len :: rest →
      Arrival.fragments arrivals = f.fragments 0 sizes →
        (run (step finite) s arrivals).answers =
            s.answers ++ List.replicate (sizes.length - 1) (.ok none) ++ [.ok (some f)] ∧
          (run (step finite) s arrivals).buffer.trainingGroups =
            rest ++ (Arrival.draws arrivals).map waiting) ∧
      ∀ (g : GenerationBuffer V P) (values : Feedback V),
        ((∃ e, (g.acceptInPlace finite values).2 = .error e) ↔ g.Misfit finite values) ∧
          ((∃ e, (g.acceptInPlace finite values).2 = .error e) →
            (g.acceptInPlace finite values).1 = g) := by
  refine ⟨fun f s rest sizes arrivals hf hlen hpos hsum hgroups harrivals => ?_, fun g values => ?_⟩
  · have hhas : Has f 0 rest s := ⟨by simpa [waiting] using hgroups, hlen⟩
    exact hhas.run hf hpos (by omega) harrivals
  · rw [← GenerationBuffer.acceptFeedback_error_iff, GenerationBuffer.acceptInPlace_eq]
    cases g.acceptFeedback finite values with
    | error e => simp
    | ok accepted => simp

/-- Three stratified samples in two fragments, a draw of four generated in between. -/
theorem assembles_twoFragments :
    let f : Feedback Nat := ⟨[7, 8, 9], some ⟨[[0], [1, 0]], [0, 1, 0], [0, 1, 1]⟩⟩
    let s : Assembly Nat Nat := ⟨⟨none, [waiting 3], false⟩, []⟩
    let arrivals := [.fragment (f.fragment 0 2), .draw 4, .fragment (f.fragment 2 1)]
    (run (step fun _ => true) s arrivals).answers = [.ok none, .ok (some f)] ∧
      (run (step fun _ => true) s arrivals).buffer.trainingGroups = [waiting 4] :=
  (assembles fun _ => true).1 _ ⟨⟨none, [waiting 3], false⟩, []⟩ [] [2, 1] _
    ⟨by simp, by rintro s hs; cases hs; decide⟩ (by decide) (by decide) (by decide) rfl rfl

/-- A fragment carries no position: the second half of a draw is taken for the first. -/
theorem not_refuses_wrongOffset :
    ¬∀ (f : Feedback Nat) (start n : Nat) (g : GenerationBuffer Nat Nat),
      f.WellFormed (fun _ => true) → 0 < start → 0 < n → start + n ≤ f.len →
      g.trainingGroups = [waiting f.len] →
        ∃ e, (g.acceptInPlace (fun _ => true) (f.fragment start n)).2 = .error e := by
  intro h
  obtain ⟨e, he⟩ := h ⟨[7, 8], none⟩ 1 1 ⟨none, [waiting 2], false⟩
    ⟨by simp, by rintro s hs; cases hs⟩ (by decide) (by decide) (by decide) rfl
  have htaken : (GenerationBuffer.acceptInPlace (P := Nat) (fun _ => true)
      (Feedback.fragment ⟨[7, 8], none⟩ 1 1) ⟨none, [waiting 2], false⟩).2 = .ok none := by
    decide
  rw [htaken] at he
  cases he

end Assembly

end Gammaboard.Sampling
