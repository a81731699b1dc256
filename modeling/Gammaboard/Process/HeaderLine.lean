import Gammaboard.Process.Worker

/-!
# Header lines under a deadline

The loop of `ProcessWorker::read_header_line` with the waits of `wait_for_stdout`:
the deadline is looked at where the buffer is empty, and a line takes at most its
limit. At the limit a round takes nothing, so the loop ends exactly where no bytes
beyond the limit are buffered without a newline.
-/

namespace Gammaboard.Process

open Gammaboard.Lib Gammaboard.Utils

/-- What `poll` reports. -/
inductive Polled where
  | ready
  | elapsed
  | interrupted
  | failed
  deriving DecidableEq, Repr

/-- What the reader meets: the clock before each poll, what the poll reports, and what each read of
the pipe brings, which is nothing at its end. -/
structure Arrivals where
  deadline : Nat
  now : Nat → Nat
  polled : Nat → Polled
  reads : Nat → Except String Bytes
  timeoutMessage : String

/-- The line so far, what is buffered, and how many polls and reads there were. -/
structure HeaderRead where
  line : Bytes
  buffer : Bytes
  polls : Nat
  reads : Nat
  deriving DecidableEq, Repr

/-- A line, the end of the stream, or an error. -/
abbrev HeaderEnd := Except String (Option (List Char))

inductive Round where
  | ended (result : HeaderEnd)
  | next (s : HeaderRead)

namespace HeaderRead

variable (rt : Runtime) (context : String) (env : Arrivals)

/-- `fill_buf` has brought bytes: take the line they end, or all that fits. -/
def takeBuffered (s : HeaderRead) : Round :=
  let remaining := maxFrameHeaderLineBytes - s.line.length
  let newline := s.buffer.findIdx? (· == 10)
  let take := newline.elim (min s.buffer.length remaining) (· + 1)
  if remaining < take then
    .ended (.error s!"{rt.label} {context} exceeds protocol limit of {maxFrameHeaderLineBytes} bytes")
  else
    let bytes := s.line ++ s.buffer.take take
    if newline.isSome then
      match fromUtf8 bytes with
      | some line => .ended (.ok (some line))
      | none => .ended (.error s!"{rt.label} {context} is not valid UTF-8: {rt.utf8Error bytes}")
    else .next { s with line := bytes, buffer := s.buffer.drop take }

/-- A read of the pipe, whose data is there. -/
def fill (s : HeaderRead) : Round :=
  match env.reads s.reads with
  | .error error => .ended (.error s!"failed reading {rt.label} {context}: {error}")
  | .ok [] =>
    if s.line = [] then .ended (.ok none)
    else
      .ended (.error
        (rt.workerTerminatedMessage s!"{rt.label} worker terminated inside {context}"))
  | .ok (c :: cs) =>
    takeBuffered rt context { s with buffer := c :: cs, polls := s.polls + 1, reads := s.reads + 1 }

/-- A round of the loop. A wait that is interrupted is a round of its own. -/
def round (s : HeaderRead) : Round :=
  if s.buffer ≠ [] then s.takeBuffered rt context
  else if env.deadline ≤ env.now s.polls then .ended (.error env.timeoutMessage)
  else
    match env.polled s.polls with
    | .ready => s.fill rt context env
    | .elapsed => .ended (.error env.timeoutMessage)
    | .interrupted => .next { s with polls := s.polls + 1 }
    | .failed =>
      .ended (.error
        (rt.workerTerminatedMessage s!"failed waiting for {rt.label} worker response"))

/-- The result after a number of rounds, if the loop has ended. -/
def rounds : Nat → HeaderRead → Option HeaderEnd
  | 0, _ => none
  | n + 1, s =>
    match s.round rt context env with
    | .ended result => some result
    | .next s => rounds n s

/-- The states the loop comes to. -/
inductive Reaches : HeaderRead → HeaderRead → Prop where
  | refl {s : HeaderRead} : Reaches s s
  | step {s s' t : HeaderRead} (h : s.round rt context env = .next s') (ht : Reaches s' t) :
      Reaches s t

/-- Before the first round. -/
def start (buffer : Bytes) : HeaderRead := ⟨[], buffer, 0, 0⟩

/-- What is left when no newline is buffered. -/
def taken (s : HeaderRead) : HeaderRead :=
  { s with
    line := s.line ++ s.buffer.take (maxFrameHeaderLineBytes - s.line.length)
    buffer := s.buffer.drop (maxFrameHeaderLineBytes - s.line.length) }

variable {rt context env} {s s' : HeaderRead}

/-! ## Rounds -/

theorem takeBuffered_without (h : (10 : UInt8) ∉ s.buffer) :
    s.takeBuffered rt context = .next s.taken := by
  have hnone : s.buffer.findIdx? (· == 10) = none := by
    rw [List.findIdx?_eq_none_iff]
    intro b hb
    rw [beq_eq_false_iff_ne]
    rintro rfl
    exact h hb
  unfold takeBuffered taken
  dsimp only
  rw [hnone, Option.elim_none, if_neg (by omega), Option.isSome_none, if_neg Bool.false_ne_true,
    Nat.min_comm, ← List.take_eq_take_min, ← List.drop_eq_drop_min]

theorem takeBuffered_at {index : Nat} (h : s.buffer.findIdx? (· == 10) = some index) :
    s.takeBuffered rt context = .ended
      (if maxFrameHeaderLineBytes - s.line.length < index + 1 then
        .error s!"{rt.label} {context} exceeds protocol limit of {maxFrameHeaderLineBytes} bytes"
      else
        match fromUtf8 (s.line ++ s.buffer.take (index + 1)) with
        | some line => .ok (some line)
        | none =>
          .error s!"{rt.label} {context} is not valid UTF-8: {rt.utf8Error (s.line ++ s.buffer.take (index + 1))}") := by
  simp only [takeBuffered, h, Option.elim_some, Option.isSome_some, if_true]
  split
  · rfl
  · cases fromUtf8 (s.line ++ s.buffer.take (index + 1)) <;> rfl

theorem takeBuffered_next (h : s.takeBuffered rt context = .next s') :
    (10 : UInt8) ∉ s.buffer ∧ s' = s.taken := by
  have hmem : (10 : UInt8) ∉ s.buffer := by
    intro hmem
    obtain ⟨index, hindex⟩ : ∃ index, s.buffer.findIdx? (· == 10) = some index := by
      rw [← Option.isSome_iff_exists, List.findIdx?_isSome, List.any_eq_true]
      exact ⟨10, hmem, rfl⟩
    rw [takeBuffered_at hindex] at h
    cases h
  rw [takeBuffered_without hmem] at h
  cases h
  exact ⟨hmem, rfl⟩

/-- Another round follows bytes without a newline, or an interrupted wait. -/
theorem round_next (h : s.round rt context env = .next s') :
    (s.buffer ≠ [] ∧ (10 : UInt8) ∉ s.buffer ∧ s' = s.taken) ∨
    (s.buffer = [] ∧ env.now s.polls < env.deadline ∧
      ((env.polled s.polls = .interrupted ∧ s' = { s with polls := s.polls + 1 }) ∨
        ∃ c ≠ [], env.polled s.polls = .ready ∧ env.reads s.reads = .ok c ∧ (10 : UInt8) ∉ c ∧
          s' = taken { s with buffer := c, polls := s.polls + 1, reads := s.reads + 1 })) := by
  unfold round at h
  split at h
  · rename_i hbuffer
    exact .inl ⟨hbuffer, takeBuffered_next h⟩
  · rename_i hbuffer
    split at h
    · cases h
    · rename_i hnow
      refine .inr ⟨not_not.1 hbuffer, by omega, ?_⟩
      split at h
      · rename_i hpolled
        unfold fill at h
        split at h
        · cases h
        · split at h <;> cases h
        · rename_i c cs hread
          obtain ⟨hmem, hs'⟩ := takeBuffered_next h
          exact .inr ⟨c :: cs, List.cons_ne_nil c cs, hpolled, hread, hmem, hs'⟩
      · cases h
      · rename_i hpolled
        cases h
        exact .inl ⟨hpolled, rfl⟩
      · cases h

/-! ## Bytes beyond the limit -/

/-- The reads that bring the chunks before the deadline. -/
inductive Arrived (env : Arrivals) : Nat → Nat → List Bytes → Prop where
  | nil {p r : Nat} : Arrived env p r []
  | interrupted {p r : Nat} {chunks : List Bytes} (hnow : env.now p < env.deadline)
      (h : env.polled p = .interrupted) (ht : Arrived env (p + 1) r chunks) : Arrived env p r chunks
  | chunk {p r : Nat} {c : Bytes} {chunks : List Bytes} (hnow : env.now p < env.deadline)
      (h : env.polled p = .ready) (hread : env.reads r = .ok c) (hne : c ≠ [])
      (ht : Arrived env (p + 1) (r + 1) chunks) : Arrived env p r (c :: chunks)

/-- What arrives carries the line beyond its limit before there is a newline. -/
def Overruns (env : Arrivals) (s : HeaderRead) : Prop :=
  ∃ chunks, Arrived env s.polls s.reads chunks ∧ (10 : UInt8) ∉ s.buffer ++ chunks.flatten ∧
    maxFrameHeaderLineBytes < s.line.length + (s.buffer ++ chunks.flatten).length

theorem length_taken (s : HeaderRead) :
    s.taken.line.length + s.taken.buffer.length = s.line.length + s.buffer.length := by
  simp only [taken, List.length_append, List.length_take, List.length_drop]
  omega

theorem taken_line_le (h : s.line.length ≤ maxFrameHeaderLineBytes) :
    s.taken.line.length ≤ maxFrameHeaderLineBytes := by
  simp only [taken, List.length_append, List.length_take]
  omega

theorem overruns_taken (hmem : (10 : UInt8) ∉ s.buffer) : Overruns env s.taken ↔ Overruns env s := by
  have hlength := length_taken s
  have hbuffer : (10 : UInt8) ∉ s.taken.buffer := fun h => hmem (List.mem_of_mem_drop h)
  unfold Overruns
  refine exists_congr fun chunks => and_congr Iff.rfl (and_congr ?_ ?_)
  · simp only [List.mem_append, hmem, hbuffer]
  · simp only [List.length_append]
    omega

/-- Bytes beyond the limit are still beyond it a round later. -/
theorem round_of_overruns (rt : Runtime) (context : String) (h : Overruns env s)
    (hline : s.line.length ≤ maxFrameHeaderLineBytes) :
    ∃ s', s.round rt context env = .next s' ∧ Overruns env s' ∧
      s'.line.length ≤ maxFrameHeaderLineBytes := by
  obtain ⟨chunks, harrived, hmem, hlimit⟩ := h
  by_cases hbuffer : s.buffer = []
  · have hround : ∀ {p r : Nat}, p = s.polls → r = s.reads → Arrived env p r chunks →
        ∃ s', s.round rt context env = .next s' ∧ Overruns env s' ∧
          s'.line.length ≤ maxFrameHeaderLineBytes := by
      intro p r hp hr harrived
      unfold round
      rw [if_neg (not_not.2 hbuffer)]
      cases harrived with
      | nil =>
        rw [hbuffer] at hlimit
        simp only [List.flatten_nil, List.append_nil, List.length_nil, Nat.add_zero] at hlimit
        omega
      | interrupted hnow hpolled ht =>
        subst hp hr
        rw [if_neg (by omega), hpolled]
        exact ⟨_, rfl, ⟨chunks, ht, hmem, hlimit⟩, hline⟩
      | @chunk _ _ c rest hnow hpolled hread hne ht =>
        subst hp hr
        rw [if_neg (by omega), hpolled]
        obtain ⟨b, bs, rfl⟩ := List.exists_cons_of_ne_nil hne
        rw [hbuffer, List.nil_append, List.flatten_cons] at hmem hlimit
        have hc : (10 : UInt8) ∉ b :: bs := fun h => hmem (List.mem_append_left _ h)
        have hnext : Overruns env
            { s with buffer := b :: bs, polls := s.polls + 1, reads := s.reads + 1 } :=
          ⟨rest, ht, hmem, hlimit⟩
        refine ⟨_, ?_, (overruns_taken hc).2 hnext, taken_line_le hline⟩
        dsimp only
        unfold fill
        rw [hread]
        exact takeBuffered_without hc
    exact hround rfl rfl harrived
  · have hbuf : (10 : UInt8) ∉ s.buffer := fun h => hmem (List.mem_append_left _ h)
    refine ⟨s.taken, ?_, (overruns_taken hbuf).2 ⟨chunks, harrived, hmem, hlimit⟩,
      taken_line_le hline⟩
    unfold round
    rw [if_pos hbuffer]
    exact takeBuffered_without hbuf

/-- The loop goes round for ever. -/
theorem rounds_of_overruns (h : Overruns env s) (hline : s.line.length ≤ maxFrameHeaderLineBytes)
    (n : Nat) : rounds rt context env n s = none := by
  induction n generalizing s with
  | zero => rfl
  | succ n ih =>
    obtain ⟨s', hround, hnext, hline'⟩ := round_of_overruns rt context h hline
    rw [rounds, hround]
    exact ih hnext hline'

/-! ## The end of the loop -/

/-- A round takes bytes, or has seen the clock before the deadline. -/
def Advances (env : Arrivals) (s s' : HeaderRead) : Prop :=
  s.line.length < s'.line.length ∨
    (s.buffer = [] ∧ env.now s.polls < env.deadline ∧ s'.polls = s.polls + 1)

/-- All that is buffered is taken while the line has room for it. -/
theorem taken_longer (h : ¬ Overruns env s) (hmem : (10 : UInt8) ∉ s.buffer) (hne : s.buffer ≠ []) :
    s.line.length < s.taken.line.length := by
  have hfits : s.line.length + s.buffer.length ≤ maxFrameHeaderLineBytes := by
    by_contra hover
    exact h ⟨[], .nil, by simpa using hmem, by simpa using hover⟩
  have hpos := List.length_pos_iff.2 hne
  simp only [taken, List.length_append, List.length_take]
  omega

theorem round_advances (h : ¬ Overruns env s) (hline : s.line.length ≤ maxFrameHeaderLineBytes)
    (hround : s.round rt context env = .next s') :
    ¬ Overruns env s' ∧ s'.line.length ≤ maxFrameHeaderLineBytes ∧ Advances env s s' ∧
      (s.line.length < s'.line.length ∧ s.polls ≤ s'.polls ∨
        s.line.length = s'.line.length ∧ env.now s.polls < env.deadline ∧
          s'.polls = s.polls + 1) := by
  obtain ⟨hne, hmem, rfl⟩ | ⟨hnil, hnow, hnext⟩ := round_next hround
  · have hlonger := taken_longer h hmem hne
    exact ⟨fun hover => h ((overruns_taken hmem).1 hover), taken_line_le hline, .inl hlonger,
      .inl ⟨hlonger, le_refl _⟩⟩
  · obtain ⟨hpolled, rfl⟩ | ⟨c, hne, hpolled, hread, hmem, rfl⟩ := hnext
    · refine ⟨fun hover => h ?_, hline, .inr ⟨hnil, hnow, rfl⟩, .inr ⟨rfl, hnow, rfl⟩⟩
      obtain ⟨chunks, harrived, hrest⟩ := hover
      exact ⟨chunks, .interrupted hnow hpolled harrived, hrest⟩
    · have hfilled : ¬ Overruns env
          { s with buffer := c, polls := s.polls + 1, reads := s.reads + 1 } := by
        rintro ⟨chunks, harrived, hrest, hlimit⟩
        refine h ⟨c :: chunks, .chunk hnow hpolled hread hne harrived, ?_, ?_⟩
        · rwa [hnil, List.nil_append]
        · rwa [hnil, List.nil_append]
      exact ⟨fun hover => hfilled ((overruns_taken hmem).1 hover), taken_line_le hline,
        .inr ⟨hnil, hnow, rfl⟩, .inl ⟨taken_longer hfilled hmem hne, Nat.le_succ _⟩⟩

/-- The room left in the line and the polls before the deadline go down together. -/
theorem rounds_end {last : Nat} (hclock : ∀ i, last ≤ i → env.deadline ≤ env.now i) {n : Nat}
    (h : ¬ Overruns env s) (hline : s.line.length ≤ maxFrameHeaderLineBytes)
    (hn : maxFrameHeaderLineBytes - s.line.length + (last - s.polls) < n) :
    ∃ result, rounds rt context env n s = some result := by
  induction n generalizing s with
  | zero => omega
  | succ n ih =>
    rw [rounds]
    cases hround : s.round rt context env with
    | ended result => exact ⟨result, rfl⟩
    | next s' =>
      obtain ⟨hnext, hline', -, hless⟩ := round_advances h hline hround
      refine ih hnext hline' ?_
      obtain ⟨hlonger, hpolls⟩ | ⟨heq, hnow, hpolls⟩ := hless
      · omega
      · have hlast : s.polls < last := by
          by_contra hge
          have := hclock s.polls (by omega)
          omega
        omega

theorem reaches_fits (h : ¬ Overruns env s) (hline : s.line.length ≤ maxFrameHeaderLineBytes)
    (hreaches : Reaches rt context env s s') :
    ¬ Overruns env s' ∧ s'.line.length ≤ maxFrameHeaderLineBytes := by
  induction hreaches with
  | refl => exact ⟨h, hline⟩
  | step hround _ ih =>
    obtain ⟨hnext, hline', -⟩ := round_advances h hline hround
    exact ih hnext hline'

/-- On a clock that reaches the deadline the reader comes to an end after finitely many rounds, each
of which takes bytes or looks at the deadline, exactly if no bytes without a newline arrive beyond
the limit of a line. -/
theorem readHeaderLine_ends_iff (hclock : ∃ last, ∀ i, last ≤ i → env.deadline ≤ env.now i)
    (buffer : Bytes) :
    ((∃ n result, rounds rt context env n (start buffer) = some result) ∧
      ∀ s s', Reaches rt context env (start buffer) s → s.round rt context env = .next s' →
        Advances env s s') ↔ ¬ Overruns env (start buffer) := by
  have hline : (start buffer).line.length ≤ maxFrameHeaderLineBytes := Nat.zero_le _
  constructor
  · rintro ⟨⟨n, result, hresult⟩, -⟩ hover
    rw [rounds_of_overruns hover hline n] at hresult
    cases hresult
  · intro h
    obtain ⟨last, hlast⟩ := hclock
    refine ⟨⟨_, rounds_end hlast h hline (Nat.lt_succ_self _)⟩, fun s s' hreaches hround => ?_⟩
    obtain ⟨hfits, hline'⟩ := reaches_fits h hline hreaches
    exact (round_advances hfits hline' hround).2.2.1

def quietRuntime : Runtime where
  label := "sampler"
  fromSlice := fun _ => .ok .null
  workerTerminatedMessage := id
  boundedDiagnostic := fun _ => ""
  utf8Error := fun _ => ""
  intError := fun _ => ""
  debug := String.ofList
  display := fun _ => ""

/-- Reads that are there at the first poll; the second one would be too late. -/
def atOnce (read : Bytes) : Arrivals where
  deadline := 1
  now := id
  polled := fun _ => .ready
  reads := fun _ => .ok read
  timeoutMessage := "timed out"

theorem readHeaderLine_ends_short :
    ((∃ n result, rounds quietRuntime "frame header" (atOnce [97, 10]) n (start [98]) =
        some result) ∧
      ∀ s s', Reaches quietRuntime "frame header" (atOnce [97, 10]) (start [98]) s →
        s.round quietRuntime "frame header" (atOnce [97, 10]) = .next s' →
        Advances (atOnce [97, 10]) s s') ↔ ¬ Overruns (atOnce [97, 10]) (start [98]) :=
  readHeaderLine_ends_iff ⟨1, fun _ h => h⟩ [98]

/-- A full buffer without a newline, and one byte more: the deadline is never looked at again. -/
theorem full_buffer_never_ends :
    ¬ ∀ (rt : Runtime) (context : String) (env : Arrivals),
      (∃ last, ∀ i, last ≤ i → env.deadline ≤ env.now i) → ∀ buffer : Bytes,
        (∃ n result, rounds rt context env n (start buffer) = some result) ∧
          ∀ s s', Reaches rt context env (start buffer) s → s.round rt context env = .next s' →
            Advances env s s' := by
  intro h
  obtain ⟨⟨n, result, hresult⟩, -⟩ := h quietRuntime "frame header" (atOnce [97])
    ⟨1, fun _ h => h⟩ (List.replicate maxFrameHeaderLineBytes 97)
  have hover : Overruns (atOnce [97]) (start (List.replicate maxFrameHeaderLineBytes 97)) := by
    refine ⟨[[97]], .chunk Nat.zero_lt_one rfl rfl (by decide) .nil, ?_, ?_⟩
    · intro hmem
      rcases List.mem_append.1 hmem with hmem | hmem
      · exact absurd (List.eq_of_mem_replicate hmem) (by decide)
      · exact absurd hmem (by decide)
    · simp only [start, List.length_append, List.length_replicate, List.length_nil]
      decide
  rw [rounds_of_overruns hover (Nat.zero_le _) n] at hresult
  cases hresult

/-! ## Reads in time -/

/-- The reads of a chunked stream come before the deadline. -/
structure InTime (env : Arrivals) (stdout : Chunked UInt8) (reads : Nat) : Prop where
  polled : ∀ i, env.polled i = .ready
  now : ∀ i, env.now i < env.deadline
  reads : ∀ i, env.reads (reads + i) = .ok (stdout.reads[i]?.elim [] (·.1))

/-- How a search for the newline ends the read of a line. -/
def headerEnd (rt : Runtime) (context : String) : Chunked.Until UInt8 → Option HeaderEnd
  | .ended [] _ => some (.ok none)
  | .ended (_ :: _) _ =>
    some (.error (rt.workerTerminatedMessage s!"{rt.label} worker terminated inside {context}"))
  | .exceeds =>
    some (.error
      s!"{rt.label} {context} exceeds protocol limit of {maxFrameHeaderLineBytes} bytes")
  | .stuck => none
  | .found bytes _ =>
    match fromUtf8 bytes with
    | some line => some (.ok (some line))
    | none => some (.error s!"{rt.label} {context} is not valid UTF-8: {rt.utf8Error bytes}")

theorem rounds_inTime {stdout : Chunked UInt8} {reads polls n : Nat} {line : Bytes}
    (h : InTime env stdout reads) :
    rounds rt context env n ⟨line, stdout.buffer, polls, reads⟩ =
      headerEnd rt context (stdout.readUntil 10 maxFrameHeaderLineBytes n line) := by
  induction n generalizing stdout reads polls line with
  | zero => rfl
  | succ n ih =>
    -- what is buffered is taken alike
    have htake : ∀ {buffered : Chunked UInt8} {polls reads : Nat}, buffered.buffer ≠ [] →
        InTime env buffered reads → buffered.fillBuf = buffered →
        (match takeBuffered rt context ⟨line, buffered.buffer, polls, reads⟩ with
          | .ended result => some result
          | .next s => rounds rt context env n s) =
          headerEnd rt context (buffered.readUntil 10 maxFrameHeaderLineBytes (n + 1) line) := by
      intro buffered polls reads hne hintime hfill
      unfold Chunked.readUntil
      rw [hfill, if_neg hne]
      dsimp only
      cases hposition : buffered.buffer.findIdx? (· == 10) with
      | none =>
        have hmem : (10 : UInt8) ∉ buffered.buffer := by
          intro hmem
          have := List.findIdx?_eq_none_iff.1 hposition 10 hmem
          cases this
        have hfits : ¬ maxFrameHeaderLineBytes - line.length <
            min buffered.buffer.length (maxFrameHeaderLineBytes - line.length) := by omega
        dsimp only
        rw [takeBuffered_without hmem, if_neg hfits, Option.isSome_none,
          if_neg Bool.false_ne_true, Nat.min_comm, ← List.take_eq_take_min]
        unfold taken Chunked.consume
        dsimp only
        rw [← List.drop_eq_drop_min]
        exact @ih ⟨buffered.buffer.drop _, buffered.reads⟩ reads polls _
          ⟨hintime.polled, hintime.now, hintime.reads⟩
      | some index =>
        rw [takeBuffered_at hposition, Option.isSome_some, if_pos rfl]
        dsimp only
        by_cases hover : maxFrameHeaderLineBytes - line.length < index + 1
        · rw [if_pos hover, if_pos hover]
          rfl
        · rw [if_neg hover, if_neg hover]
          dsimp only [headerEnd]
          cases fromUtf8 (line ++ buffered.buffer.take (index + 1)) <;> rfl
    rw [rounds]
    unfold round
    dsimp only
    by_cases hbuffer : stdout.buffer = []
    · rw [if_neg (not_not.2 hbuffer), if_neg (Nat.not_le.2 (h.now polls)), h.polled polls]
      dsimp only
      unfold fill
      dsimp only
      have hread := h.reads 0
      rw [Nat.add_zero] at hread
      rw [hread]
      obtain ⟨buffer, chunks⟩ := stdout
      obtain rfl : buffer = [] := hbuffer
      cases chunks with
      | nil => cases line <;> rfl
      | cons c cs =>
        obtain ⟨chunk, hne⟩ := c
        obtain ⟨b, bs, rfl⟩ := List.exists_cons_of_ne_nil hne
        have hintime : InTime env ⟨b :: bs, cs⟩ (reads + 1) := by
          refine ⟨h.polled, h.now, fun i => ?_⟩
          rw [Nat.add_assoc, Nat.add_comm 1 i, h.reads (i + 1), List.getElem?_cons_succ]
        exact @htake ⟨b :: bs, cs⟩ (polls + 1) (reads + 1) hne hintime rfl
    · rw [if_pos hbuffer]
      refine htake hbuffer h ?_
      unfold Chunked.fillBuf
      split
      · exact absurd ‹_› hbuffer
      · rfl

/-- Where the reads come in time the rounds are those of `readHeaderLine`. -/
theorem readHeaderLine_rounds {w : ProcessWorker} (h : InTime env w.stdout 0) :
    (readHeaderLine rt context w).map (·.1) =
      match rounds rt context env (w.stdout.contents.length + 1) (start w.stdout.buffer) with
      | some (.ok line) => .ok line
      | some (.error message) => .error (.failed message)
      | none => .error .hangs := by
  rw [start, rounds_inTime h]
  unfold readHeaderLine
  cases w.stdout.readUntil 10 maxFrameHeaderLineBytes (w.stdout.contents.length + 1) [] with
  | ended bytes s => cases bytes <;> rfl
  | exceeds => rfl
  | stuck => rfl
  | found bytes s =>
    dsimp only [headerEnd]
    cases fromUtf8 bytes <;> rfl

end HeaderRead

end Gammaboard.Process
