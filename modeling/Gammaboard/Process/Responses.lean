import Gammaboard.Process.Frames

/-!
# What a worker writes is what is read

Successive calls return the responses of the worker, in order, as long as the log lines are
taken. The counter of the log bytes is never reset, so it counts over all gaps between frames.
-/

namespace Gammaboard.Process

open Gammaboard.Lib Gammaboard.Utils

section

variable {rt : Runtime} {w w' : ProcessWorker} {id : UInt64} {later : Bytes}

theorem responseLoop_header {n : Nat} (h : readFrameHeader rt w = readFrameHeader rt w') :
    responseLoop rt id (n + 1) w = responseLoop rt id (n + 1) w' := by
  rw [responseLoop, responseLoop, h]

/-- The header, the JSON block and the binary block of a frame are read, and not a byte more. -/
theorem responseLoop_frame (id : UInt64) (n : Nat) (f : Frame) {later : Bytes} {response : Value}
    (hw : w.stdout.contents = f.bytes ++ later) (hparses : rt.fromSlice f.payload = .ok response) :
    ∃ s, s.contents = later ∧ responseLoop rt id (n + 1) w =
      (if isProgress response then do
        orFailed (acceptProgress response)
        responseLoop rt id n { w with stdout := s }
      else do
        orFailed (validateResponseEnvelope rt response id)
        .ok ((response, f.binary), { w with stdout := s })) := by
  obtain ⟨s₁, hheader, hs₁⟩ := readFrameHeader_frame rt f hw
  obtain ⟨s₂, hpayload, hs₂⟩ := readFrameBytes_append rt "frame payload"
    (w := { w with stdout := s₁ }) hs₁
  obtain ⟨s₃, hbinary, hs₃⟩ := readFrameBytes_append rt "binary payload"
    (w := { w with stdout := s₂ }) hs₂
  refine ⟨s₃, hs₃, ?_⟩
  rw [responseLoop, hheader]
  show (readFrameBytes rt f.payload.length "frame payload" { w with stdout := s₁ } >>= _) = _
  rw [hpayload]
  show (readFrameBytes rt f.binary.length "binary payload" { w with stdout := s₂ } >>= _) = _
  rw [hbinary]
  dsimp only [bind, Except.bind]
  rw [hparses]

/-- A response carries an id, so it is no notification. -/
theorem not_isProgress {response : Value} (h : validateResponseEnvelope rt response id = .ok ()) :
    isProgress response = false := by
  unfold isProgress
  cases hid : response.get "id" with
  | some v => rfl
  | none =>
    unfold validateResponseEnvelope at h
    rw [hid] at h
    split at h
    · split at h
      · cases h
      · split at h <;> cases h
    · cases h

/-- A log line in front of the next frame is passed over. -/
theorem readResponse_log (rt : Runtime) (id : UInt64) (l : LogLine)
    (hw : w.stdout.contents = l.bytes ++ later)
    (htakes : Takes w l) :
    ∃ w', readResponse rt id w = readResponse rt id w' ∧ w'.stdout.contents = later ∧
      w'.stdoutLogBytesBeforeFrame = w.stdoutLogBytesBeforeFrame + l.logged := by
  obtain ⟨w', hheader, hlater, hlogged⟩ := readFrameHeader_log rt l hw htakes
  refine ⟨w', ?_, hlater, hlogged⟩
  rw [readResponse, responseLoop_header hheader]
  apply responseLoop_rounds
  · rw [hlater, hw, List.length_append]
    omega
  · exact Nat.lt_succ_self _

theorem readResponse_refused (l : LogLine) (hw : w.stdout.contents = l.bytes ++ later)
    (htakes : ¬ Takes w l)
    (hbefore : w.stdoutLogBytesBeforeFrame ≤ maxStdoutLogBytesBeforeFrame) :
    ∃ e, readResponse rt id w = .error e := by
  obtain ⟨e, hheader⟩ := readFrameHeader_refused rt l hw htakes hbefore
  refine ⟨e, ?_⟩
  rw [readResponse, responseLoop, hheader]
  rfl

theorem Frame.bytes_pos (f : Frame) : 0 < f.bytes.length := by
  have hblank : (encodeUtf8 (['\r'] ++ ['\n'])).length = 2 := by decide
  unfold Frame.bytes Frame.headerRest
  simp only [List.length_append, hblank]
  omega

theorem readResponse_progress (id : UInt64) (f : Frame)
    (hw : w.stdout.contents = f.bytes ++ later)
    (h : Progresses rt f) :
    ∃ w', readResponse rt id w = readResponse rt id w' ∧ w'.stdout.contents = later ∧
      w'.stdoutLogBytesBeforeFrame = w.stdoutLogBytesBeforeFrame := by
  obtain ⟨v, hparses, hprogress, haccepted⟩ := h
  obtain ⟨s, hs, hloop⟩ := responseLoop_frame id w.stdout.contents.length f hw hparses
  refine ⟨{ w with stdout := s }, ?_, hs, rfl⟩
  rw [readResponse, hloop, if_pos hprogress, haccepted]
  have hshort : s.contents.length < w.stdout.contents.length := by
    rw [hs, hw, List.length_append]
    have hpos := f.bytes_pos
    omega
  exact responseLoop_rounds hshort (Nat.lt_succ_self _)

theorem readResponse_answer (a : Answer rt) (hw : w.stdout.contents = a.frame.bytes ++ later) :
    ∃ s, readResponse rt a.id w = .ok ((a.response, a.frame.binary), { w with stdout := s }) ∧
      s.contents = later := by
  obtain ⟨s, hs, hloop⟩ := responseLoop_frame a.id w.stdout.contents.length a.frame hw
    a.parses
  refine ⟨s, ?_, hs⟩
  rw [readResponse, hloop, if_neg (by rw [not_isProgress a.valid]; exact Bool.false_ne_true),
    a.valid]
  rfl

/-! ## Runs of log lines -/

/-- All of the lines are taken, when `count` bytes were logged before. -/
def TakesAll (count : Nat) (lines : List LogLine) : Prop :=
  (∀ l ∈ lines, l.bytes.length ≤ maxFrameHeaderLineBytes) ∧
    count + (lines.map LogLine.logged).sum ≤ maxStdoutLogBytesBeforeFrame

theorem takesAll_append {count : Nat} {xs ys : List LogLine} :
    TakesAll count (xs ++ ys) ↔
      TakesAll count xs ∧ TakesAll (count + (xs.map LogLine.logged).sum) ys := by
  unfold TakesAll
  rw [List.map_append, List.sum_append, List.forall_mem_append]
  constructor
  · rintro ⟨⟨hxs, hys⟩, hsum⟩
    exact ⟨⟨hxs, by omega⟩, hys, by omega⟩
  · rintro ⟨⟨hxs, -⟩, hys, hsum⟩
    exact ⟨⟨hxs, hys⟩, by omega⟩

theorem takesAll_singleton {l : LogLine} :
    TakesAll w.stdoutLogBytesBeforeFrame [l] ↔ Takes w l := by
  simp [TakesAll, Takes]

/-- Where a list of lines is taken up to `xs`, the counter stands at the sum. -/
structure Logged (w w' : ProcessWorker) (lines : List LogLine) (later : Bytes) : Prop where
  contents : w'.stdout.contents = later
  counter : w'.stdoutLogBytesBeforeFrame =
    w.stdoutLogBytesBeforeFrame + (lines.map LogLine.logged).sum

/-- A response comes through what is written before it exactly when its log lines are taken. -/
theorem readResponse_before (a : Answer rt) (asides : List (Aside rt))
    (hw : w.stdout.contents = asides.flatMap Aside.bytes ++ (a.frame.bytes ++ later))
    (hbefore : w.stdoutLogBytesBeforeFrame ≤ maxStdoutLogBytesBeforeFrame) :
    (TakesAll w.stdoutLogBytesBeforeFrame (asides.flatMap Aside.logLines) ∧
      ∃ w', readResponse rt a.id w = .ok ((a.response, a.frame.binary), w') ∧
        Logged w w' (asides.flatMap Aside.logLines) later) ∨
    (¬ TakesAll w.stdoutLogBytesBeforeFrame (asides.flatMap Aside.logLines) ∧
      ∃ e, readResponse rt a.id w = .error e) := by
  induction asides generalizing w with
  | nil =>
    obtain ⟨s, hread, hs⟩ := readResponse_answer a hw
    refine .inl ⟨⟨fun l hl => absurd hl List.not_mem_nil, by simpa using hbefore⟩, _, hread, hs, ?_⟩
    simp
  | cons aside asides ih =>
    rw [List.flatMap_cons, List.append_assoc] at hw
    cases aside with
    | log l =>
      show (TakesAll _ ([l] ++ asides.flatMap Aside.logLines) ∧ _) ∨
        (¬ TakesAll _ ([l] ++ asides.flatMap Aside.logLines) ∧ _)
      rw [takesAll_append, takesAll_singleton]
      by_cases htakes : Takes w l
      · obtain ⟨w₁, hread, hlater, hcount⟩ := readResponse_log rt a.id l hw htakes
        have hone : w.stdoutLogBytesBeforeFrame + ([l].map LogLine.logged).sum =
            w₁.stdoutLogBytesBeforeFrame := by simp [hcount]
        rw [hread, hone]
        rcases ih hlater (by rw [hcount]; exact htakes.2) with ⟨hall, w', hok, hlogged⟩ | ⟨hnot, herr⟩
        · refine .inl ⟨⟨htakes, hall⟩, w', hok, hlogged.contents, ?_⟩
          have hline : ((Aside.log l : Aside rt).logLines.map LogLine.logged).sum = l.logged :=
            List.sum_singleton
          rw [hlogged.counter, hcount, List.flatMap_cons, List.map_append, List.sum_append, hline]
          omega
        · exact .inr ⟨fun h => hnot h.2, herr⟩
      · exact .inr ⟨fun h => htakes h.1, readResponse_refused l hw htakes hbefore⟩
    | progress f hf =>
      obtain ⟨w₁, hread, hlater, hcount⟩ := readResponse_progress a.id f hw hf
      have h := ih hlater (by rw [hcount]; exact hbefore)
      rw [hcount, ← hread] at h
      rcases h with ⟨hall, w', hok, hlogged⟩ | hnot
      · exact .inl ⟨hall, w', hok, hlogged.contents, by rw [hlogged.counter, hcount]; rfl⟩
      · exact .inr hnot

theorem readResponses_written (answers : List (Answer rt)) {rest : Bytes}
    (hw : w.stdout.contents = written answers ++ rest)
    (hbefore : w.stdoutLogBytesBeforeFrame ≤ maxStdoutLogBytesBeforeFrame) :
    (TakesAll w.stdoutLogBytesBeforeFrame (logLines answers) ∧ ReadsBack answers rest w) ∨
    (¬ TakesAll w.stdoutLogBytesBeforeFrame (logLines answers) ∧
      ∃ e, readResponses rt (answers.map (·.id)) w = .error e) := by
  induction answers generalizing w with
  | nil =>
    exact .inl ⟨⟨fun l hl => absurd hl List.not_mem_nil, by simpa [logLines] using hbefore⟩, w, rfl, hw⟩
  | cons a answers ih =>
    have hlines : logLines (a :: answers) = a.before.flatMap Aside.logLines ++ logLines answers :=
      List.flatMap_cons
    unfold written at hw
    rw [List.flatMap_cons, Answer.bytes, List.append_assoc, List.append_assoc] at hw
    rw [hlines, takesAll_append]
    rcases readResponse_before a a.before hw hbefore with ⟨hall, w₁, hok, hlogged⟩ | ⟨hnot, e, herr⟩
    · rw [← hlogged.counter]
      rcases ih hlogged.contents (by rw [hlogged.counter]; exact hall.2) with
        ⟨hrest, w', hread, hcontents⟩ | ⟨hnot, e, herr⟩
      · refine .inl ⟨⟨hall, hrest⟩, w', ?_, hcontents⟩
        rw [List.map_cons, readResponses, hok]
        show (readResponses rt (answers.map (·.id)) w₁ >>= _) = _
        rw [hread]
        rfl
      · refine .inr ⟨fun h => hnot h.2, e, ?_⟩
        rw [List.map_cons, readResponses, hok]
        show (readResponses rt (answers.map (·.id)) w₁ >>= _) = _
        rw [herr]
        rfl
    · refine .inr ⟨fun h => hnot h.1, e, ?_⟩
      rw [List.map_cons, readResponses, herr]
      rfl

theorem readsBack_iff_takesAll (answers : List (Answer rt)) {rest : Bytes}
    (hw : w.stdout.contents = written answers ++ rest)
    (hbefore : w.stdoutLogBytesBeforeFrame ≤ maxStdoutLogBytesBeforeFrame) :
    ReadsBack answers rest w ↔ TakesAll w.stdoutLogBytesBeforeFrame (logLines answers) := by
  rcases readResponses_written answers hw hbefore with ⟨hall, hback⟩ | ⟨hnot, e, herr⟩
  · exact iff_of_true hback hall
  · refine iff_of_false ?_ hnot
    rintro ⟨w', hread, -⟩
    rw [herr] at hread
    cases hread

end

/-- **Decoding.** Whatever a fresh worker writes and however its stream is cut, the calls return
its responses, and stop behind the last frame, exactly when every log line fits a header line and
the log lines of all gaps together are within the limit of one gap. -/
theorem readsBack_iff (rt : Runtime) (answers : List (Answer rt)) (rest : Bytes)
    (stdout : Chunked UInt8) (h : stdout.contents = written answers ++ rest) :
    ReadsBack answers rest (.new stdout) ↔
      (∀ l ∈ logLines answers, l.bytes.length ≤ maxFrameHeaderLineBytes) ∧
        ((logLines answers).map LogLine.logged).sum ≤ maxStdoutLogBytesBeforeFrame := by
  have hiff := readsBack_iff_takesAll (w := .new stdout) answers h (Nat.zero_le _)
  rw [hiff]
  unfold TakesAll ProcessWorker.new
  rw [Nat.zero_add]

/-! ## Two noisy gaps -/

/-- The log lines of each gap: those before the first frame, those between it and the second, and
so on. -/
def gaps {rt : Runtime} : List (Aside rt) → List (List LogLine)
  | [] => [[]]
  | .log l :: asides =>
    match gaps asides with
    | gap :: later => (l :: gap) :: later
    | [] => [[l]]
  | .progress _ _ :: asides => [] :: gaps asides

/-- Every gap by itself is within the limit. -/
def GapsWithin {rt : Runtime} (answers : List (Answer rt)) : Prop :=
  ∀ a ∈ answers, ∀ gap ∈ gaps a.before,
    (gap.map LogLine.logged).sum ≤ maxStdoutLogBytesBeforeFrame

theorem trimLineEnd_replicate (n : Nat) :
    trimLineEnd (List.replicate n 'a') = List.replicate n 'a' := by
  apply List.rdropWhile_eq_self_iff.2
  intro hne
  rw [List.getLast_replicate]
  decide

theorem splitOnce_replicate (n : Nat) : splitOnce ':' (List.replicate n 'a') = none := by
  unfold splitOnce
  rw [List.span_eq_takeWhile_dropWhile, List.dropWhile_replicate]
  simp

/-- A line of 8000 bytes. -/
def noisy : LogLine where
  text := List.replicate 8000 'a'
  oneLine := by
    intro h
    exact absurd (List.eq_of_mem_replicate h) (by decide)
  notHeader := by
    intro name value h
    rw [trimLineEnd_replicate, splitOnce_replicate] at h
    cases h

theorem length_encodeUtf8_replicate (n : Nat) : (encodeUtf8 (List.replicate n 'a')).length = n := by
  induction n with
  | zero => rfl
  | succ n ih =>
    have ha : String.utf8EncodeChar 'a' = [97] := by decide
    show (String.utf8EncodeChar 'a' ++ encodeUtf8 (List.replicate n 'a')).length = n + 1
    rw [List.length_append, ih, ha, List.length_singleton, Nat.add_comm]

theorem noisy_logged : noisy.logged = 8001 := by
  unfold LogLine.logged noisy
  rw [trimLineEnd_replicate, length_encodeUtf8_replicate,
    if_neg (by rw [List.isEmpty_replicate]; decide)]

theorem noisy_fits : noisy.bytes.length ≤ maxFrameHeaderLineBytes := by
  unfold LogLine.bytes noisy
  rw [encodeUtf8_append, List.length_append, length_encodeUtf8_replicate, encodeUtf8_newline]
  decide

/-- The response `1` to the call with this id, and its text. -/
def oneResponse (id : UInt64) : Value :=
  .object [("jsonrpc", .string "2.0"), ("id", .number (.posInt id)), ("result", .number (.posInt 1))]

def oneText (id : String) : Bytes :=
  encodeUtf8 ("\x7b\"jsonrpc\":\"2.0\",\"id\":" ++ id ++ ",\"result\":1\x7d").toList

/-- A parser of the two responses. -/
def parseTwo (payload : Bytes) : Except String Value :=
  if payload = oneText "1" then .ok (oneResponse 1)
  else if payload = oneText "2" then .ok (oneResponse 2)
  else .error "expected value at line 1 column 1"

def twoResponses : Runtime where
  label := "worker"
  fromSlice := parseTwo
  workerTerminatedMessage := id
  boundedDiagnostic := fun _ => ""
  utf8Error := fun _ => ""
  intError := fun _ => ""
  debug := String.ofList
  display := fun _ => ""

def answerFrame (id : String) (h : (oneText id).length ≤ maxJsonFrameBytes) : Frame :=
  ⟨oneText id, [], false, h, Nat.zero_le _, fun _ => rfl⟩

theorem parses_one : twoResponses.fromSlice (oneText "1") = .ok (oneResponse 1) := by
  show parseTwo (oneText "1") = _
  unfold parseTwo
  rw [if_pos rfl]

theorem parses_two : twoResponses.fromSlice (oneText "2") = .ok (oneResponse 2) := by
  have hother : oneText "2" ≠ oneText "1" := by decide
  show parseTwo (oneText "2") = _
  unfold parseTwo
  rw [if_neg hother, if_pos rfl]

/-- The two responses, each behind the same lines. -/
def answerOne (before : List (Aside twoResponses)) : Answer twoResponses :=
  ⟨before, 1, answerFrame "1" (by decide), oneResponse 1, parses_one, rfl⟩

def answerTwo (before : List (Aside twoResponses)) : Answer twoResponses :=
  ⟨before, 2, answerFrame "2" (by decide), oneResponse 2, parses_two, rfl⟩

/-- Eight noisy lines before each of two responses. -/
def noisyAnswers : List (Answer twoResponses) :=
  [answerOne (List.replicate 8 (.log noisy)), answerTwo (List.replicate 8 (.log noisy))]

theorem sum_logged_replicate (n : Nat) (l : LogLine) :
    ((List.replicate n l).map LogLine.logged).sum = n * l.logged := by
  induction n with
  | zero => rw [List.replicate_zero, List.map_nil, List.sum_nil, Nat.zero_mul]
  | succ n ih => rw [List.replicate_succ, List.map_cons, List.sum_cons, ih, Nat.succ_mul, Nat.add_comm]

theorem logLines_noisyAnswers : logLines noisyAnswers = List.replicate 16 noisy := rfl

theorem gaps_noisy : gaps (List.replicate 8 (.log noisy) : List (Aside twoResponses)) =
    [List.replicate 8 noisy] := rfl

theorem noisyAnswers_gapsWithin : GapsWithin noisyAnswers := by
  have hgap : ∀ gap ∈ gaps (List.replicate 8 (.log noisy) : List (Aside twoResponses)),
      (gap.map LogLine.logged).sum ≤ maxStdoutLogBytesBeforeFrame := by
    intro gap hgap
    rw [gaps_noisy, List.mem_singleton] at hgap
    rw [hgap, sum_logged_replicate, noisy_logged]
    decide
  intro a ha
  rcases List.mem_cons.1 ha with rfl | ha
  · exact hgap
  · rw [List.mem_singleton.1 ha]
    exact hgap

/-- Gaps within the limit, one by one, are not enough: the second response is never read. -/
theorem not_readsBack_noisyGaps :
    ¬ ∀ (rt : Runtime) (answers : List (Answer rt)) (rest : Bytes) (stdout : Chunked UInt8),
      stdout.contents = written answers ++ rest →
      (∀ l ∈ logLines answers, l.bytes.length ≤ maxFrameHeaderLineBytes) → GapsWithin answers →
      ReadsBack answers rest (.new stdout) := by
  intro hall
  have hcontents : (⟨written noisyAnswers, []⟩ : Chunked UInt8).contents =
      written noisyAnswers ++ [] := rfl
  have hfits : ∀ l ∈ logLines noisyAnswers, l.bytes.length ≤ maxFrameHeaderLineBytes := by
    intro l hl
    rw [logLines_noisyAnswers] at hl
    rw [List.eq_of_mem_replicate hl]
    exact noisy_fits
  have hback := hall twoResponses noisyAnswers [] ⟨written noisyAnswers, []⟩ hcontents hfits
    noisyAnswers_gapsWithin
  obtain ⟨-, hsum⟩ := (readsBack_iff_takesAll (w := .new _) noisyAnswers hcontents
    (Nat.zero_le _)).1 hback
  rw [logLines_noisyAnswers, sum_logged_replicate, noisy_logged] at hsum
  exact absurd hsum (by decide)

/-- Two responses without log lines, byte by byte. -/
theorem readsBack_byteByByte :
    ReadsBack [answerOne [], answerTwo []] []
      (.new ⟨[], (written [answerOne [], answerTwo []]).map
        fun b => ⟨[b], List.cons_ne_nil b []⟩⟩) :=
  (readsBack_iff twoResponses [answerOne [], answerTwo []] [] _ (by
      simp [Chunked.contents, Function.comp_def, ← List.flatMap_def])).2
    ⟨fun l hl => absurd hl List.not_mem_nil, Nat.zero_le _⟩

end Gammaboard.Process
