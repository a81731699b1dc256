import Gammaboard.Process.Worker

/-!
# Frames and log lines

What a worker writes, and what one frame or one log line does to the reader: a frame is taken to
its last byte, a log line is taken and counted, in every cutting of the stream.
-/

namespace Gammaboard.Process

open Gammaboard.Lib Gammaboard.Utils

/-! ## Text and lines -/

section

theorem encodeUtf8_newline : encodeUtf8 ['\n'] = [10] := by decide

/-- The byte of a newline stands for nothing else. -/
theorem newline_of_mem {c : Char} (h : (10 : UInt8) ∈ String.utf8EncodeChar c) : c = '\n' := by
  have hsmall : ∀ n : Nat, 128 ≤ n → n < 256 → (10 : UInt8) ≠ UInt8.ofNat n := by
    intro n hlow hhigh heq
    have hn : 10 = (UInt8.ofNat n).toNat := congrArg UInt8.toNat heq
    rw [UInt8.toNat_ofNat_of_lt' hhigh] at hn
    omega
  unfold String.utf8EncodeChar at h
  dsimp only at h
  split at h
  · rename_i hle
    rw [List.mem_singleton] at h
    have hn : 10 = (UInt8.ofNat c.val.toNat).toNat := congrArg UInt8.toNat h
    have hbyte : c.val.toNat < 256 := by omega
    rw [UInt8.toNat_ofNat_of_lt' hbyte] at hn
    apply Char.ext
    apply UInt32.toNat_inj.1
    exact hn.symm
  · split at h
    · simp only [List.mem_cons, List.not_mem_nil, or_false] at h
      rcases h with h | h <;> exact absurd h (hsmall _ (by omega) (by omega))
    · split at h
      · simp only [List.mem_cons, List.not_mem_nil, or_false] at h
        rcases h with h | h | h <;> exact absurd h (hsmall _ (by omega) (by omega))
      · simp only [List.mem_cons, List.not_mem_nil, or_false] at h
        rcases h with h | h | h | h <;> exact absurd h (hsmall _ (by omega) (by omega))

theorem newline_not_mem_encodeUtf8 {text : List Char} (h : '\n' ∉ text) :
    (10 : UInt8) ∉ encodeUtf8 text := by
  unfold encodeUtf8
  rw [List.mem_flatMap]
  rintro ⟨c, hc, hmem⟩
  exact h (newline_of_mem hmem ▸ hc)

theorem trimLineEnd_newline (text : List Char) : trimLineEnd (text ++ ['\n']) = trimLineEnd text :=
  List.rdropWhile_concat_pos _ _ _ rfl

/-- The digits of a length are read back. -/
theorem parseUsize_toDigits {n : Nat} (h : n ≤ usizeMax) :
    parseUsize (trim (' ' :: Nat.toDigits 10 n)) = some n := by
  have hdigit : ∀ c ∈ Nat.toDigits 10 n, c.isDigit = true := fun c hc => isDigit_of_mem_digits hc
  have hspace : ∀ c : Char, c.isDigit = true → isWhiteSpace c = false := by
    intro c hc
    have hrange : 48 ≤ c.toNat ∧ c.toNat ≤ 57 := by
      simpa [Char.isDigit, UInt32.le_iff_toNat_le] using hc
    simp only [isWhiteSpace, Bool.or_eq_false_iff, Bool.and_eq_false_iff, decide_eq_false_iff_not,
      beq_eq_false_iff_ne]
    omega
  have htrim : trim (' ' :: Nat.toDigits 10 n) = Nat.toDigits 10 n := by
    have hdrop : (' ' :: Nat.toDigits 10 n).dropWhile isWhiteSpace = Nat.toDigits 10 n := by
      rw [List.dropWhile_cons_of_pos (by decide)]
      apply List.dropWhile_eq_self_iff.2
      intro hpos
      simp [hspace _ (hdigit _ (List.getElem_mem hpos))]
    unfold trim
    rw [hdrop]
    apply List.rdropWhile_eq_self_iff.2
    intro hne
    simp [hspace _ (hdigit _ (List.getLast_mem hne))]
  rw [htrim, parseUsize_digits h]

end

/-! ## Lines -/

section

variable {rt : Runtime} {context : String} {w w' : ProcessWorker} {text rest : List Char}

theorem readHeaderLine_text (rt : Runtime) (context : String) {bytes : Bytes}
    (hw : w.stdout.contents = encodeUtf8 (text ++ ['\n']) ++ bytes)
    (htext : '\n' ∉ text) (hfits : (encodeUtf8 (text ++ ['\n'])).length ≤ maxFrameHeaderLineBytes) :
    ∃ s, readHeaderLine rt context w = .ok (some (text ++ ['\n']), { w with stdout := s }) ∧
      s.contents = bytes := by
  have hline : w.stdout.contents = encodeUtf8 text ++ 10 :: bytes := by
    rw [hw, encodeUtf8_append, encodeUtf8_newline, List.append_assoc]
    rfl
  rw [encodeUtf8_append, encodeUtf8_newline, List.length_append, List.length_singleton] at hfits
  obtain ⟨s, hread, hs⟩ := Chunked.readUntil_append hline (newline_not_mem_encodeUtf8 htext)
    []
    (by simpa using hfits) (show (encodeUtf8 text).length < w.stdout.contents.length + 1 by
      rw [hline, List.length_append]
      omega)
  refine ⟨s, ?_, hs⟩
  rw [List.nil_append, ← encodeUtf8_newline, ← encodeUtf8_append] at hread
  simp only [readHeaderLine, hread, fromUtf8_encodeUtf8]

/-- A line beyond the limit is an error in every cutting, or is never read. -/
theorem readHeaderLine_over (rt : Runtime) (context : String) {bytes : Bytes}
    (hw : w.stdout.contents = encodeUtf8 (text ++ ['\n']) ++ bytes) (htext : '\n' ∉ text)
    (hover : ¬ (encodeUtf8 (text ++ ['\n'])).length ≤ maxFrameHeaderLineBytes) :
    ∃ e, readHeaderLine rt context w = .error e := by
  have hline : w.stdout.contents = encodeUtf8 text ++ 10 :: bytes := by
    rw [hw, encodeUtf8_append, encodeUtf8_newline, List.append_assoc]
    rfl
  rw [encodeUtf8_append, encodeUtf8_newline, List.length_append, List.length_singleton] at hover
  unfold readHeaderLine
  split
  · rename_i hread
    have hmem : (10 : UInt8) ∈ w.stdout.contents := by
      rw [hline]
      exact List.mem_append_right _ List.mem_cons_self
    exact absurd hmem (Chunked.readUntil_ended hread)
  · exact ⟨_, rfl⟩
  · exact ⟨_, rfl⟩
  · exact ⟨_, rfl⟩
  · rename_i hread
    have hfits := Chunked.readUntil_found hread hline (newline_not_mem_encodeUtf8 htext)
    rw [List.length_nil] at hfits
    omega

theorem readHeaderLine_shortens {line : List Char}
    (h : readHeaderLine rt context w = .ok (some line, w')) :
    w'.stdout.contents.length < w.stdout.contents.length := by
  unfold readHeaderLine at h
  split at h
  · cases h
  · cases h
  · cases h
  · cases h
  · rename_i hread
    split at h
    · cases h
      exact Chunked.readUntil_shortens hread
    · cases h

theorem logStdoutText_stdout {line : List Char} (h : logStdoutText rt line w = .ok w') :
    w'.stdout = w.stdout := by
  unfold logStdoutText at h
  dsimp only at h
  split at h
  · cases h
  · cases h
    rfl

/-- With a round for every byte the loop over the lines never runs out of rounds. -/
theorem frameHeaderLoop_rounds {n m : Nat} (hn : w.stdout.contents.length < n)
    (hm : w.stdout.contents.length < m) : frameHeaderLoop rt n w = frameHeaderLoop rt m w := by
  induction n generalizing m w with
  | zero => omega
  | succ n ih =>
    cases m with
    | zero => omega
    | succ m =>
      simp only [frameHeaderLoop]
      cases hline : readHeaderLine rt "frame header" w with
      | error e => rfl
      | ok found =>
        obtain ⟨line, w₁⟩ := found
        cases line with
        | none => rfl
        | some line =>
          have hless := readHeaderLine_shortens hline
          have hloop : ∀ w₂ : ProcessWorker, w₂.stdout = w₁.stdout →
              frameHeaderLoop rt n w₂ = frameHeaderLoop rt m w₂ := by
            intro w₂ hstdout
            apply ih <;> rw [hstdout] <;> omega
          have hlog : ∀ trimmed : List Char,
              (logStdoutText rt trimmed w₁ >>= fun w₂ => frameHeaderLoop rt n w₂) =
                logStdoutText rt trimmed w₁ >>= fun w₂ => frameHeaderLoop rt m w₂ := by
            intro trimmed
            cases hlogged : logStdoutText rt trimmed w₁ with
            | error e => rfl
            | ok w₂ => exact hloop w₂ (logStdoutText_stdout hlogged)
          show (if _ then _ else _) = (if _ then _ else _)
          split
          · exact hloop w₁ rfl
          · split
            · exact hlog _
            · split
              · rfl
              · exact hlog _

theorem readHeaderRest_shortens {n binaryLen len : Nat}
    (h : readHeaderRest rt n binaryLen w = .ok (len, w')) :
    w'.stdout.contents.length ≤ w.stdout.contents.length := by
  induction n generalizing binaryLen w with
  | zero => cases h
  | succ n ih =>
    simp only [readHeaderRest] at h
    cases hline : readHeaderLine rt "frame header continuation" w with
    | error e =>
      rw [hline] at h
      cases h
    | ok found =>
      obtain ⟨line, w₁⟩ := found
      rw [hline] at h
      cases line with
      | none => cases h
      | some line =>
        have hless := readHeaderLine_shortens hline
        have hrest : ∀ {len' : Nat}, readHeaderRest rt n len' w₁ = .ok (len, w') →
            w'.stdout.contents.length ≤ w.stdout.contents.length := by
          intro len' h'
          have := ih h'
          omega
        change (if _ then _ else _) = _ at h
        split at h
        · cases h
          exact Nat.le_of_lt hless
        · split at h
          · exact hrest h
          · split at h
            · rename_i name value _ _
              cases hlen : parseHeaderLen rt "Binary-Length" value with
              | error e =>
                rw [hlen] at h
                cases h
              | ok parsed =>
                rw [hlen] at h
                exact hrest h
            · exact hrest h

theorem frameHeaderLoop_shortens {n : Nat} {header : Nat × Nat}
    (h : frameHeaderLoop rt n w = .ok (some header, w')) :
    w'.stdout.contents.length < w.stdout.contents.length := by
  induction n generalizing w with
  | zero => cases h
  | succ n ih =>
    simp only [frameHeaderLoop] at h
    cases hline : readHeaderLine rt "frame header" w with
    | error e =>
      rw [hline] at h
      cases h
    | ok found =>
      obtain ⟨line, w₁⟩ := found
      rw [hline] at h
      cases line with
      | none => cases h
      | some line =>
        have hless := readHeaderLine_shortens hline
        have hloop : ∀ w₂ : ProcessWorker, w₂.stdout = w₁.stdout →
            frameHeaderLoop rt n w₂ = .ok (some header, w') →
            w'.stdout.contents.length < w.stdout.contents.length := by
          intro w₂ hstdout h'
          have hlater := ih h'
          rw [hstdout] at hlater
          omega
        have hlog : ∀ trimmed : List Char,
            (logStdoutText rt trimmed w₁ >>= fun w₂ => frameHeaderLoop rt n w₂) =
              .ok (some header, w') →
            w'.stdout.contents.length < w.stdout.contents.length := by
          intro trimmed h'
          cases hlogged : logStdoutText rt trimmed w₁ with
          | error e =>
            rw [hlogged] at h'
            cases h'
          | ok w₂ =>
            rw [hlogged] at h'
            exact hloop w₂ (logStdoutText_stdout hlogged) h'
        change (if _ then _ else _) = _ at h
        split at h
        · exact hloop w₁ rfl h
        · split at h
          · exact hlog _ h
          · split at h
            · rename_i name value _ _
              cases hlen : parseHeaderLen rt "Content-Length" value with
              | error e =>
                rw [hlen] at h
                cases h
              | ok contentLen =>
                rw [hlen] at h
                cases hrest : readHeaderRest rt (w₁.stdout.contents.length + 1) 0 w₁ with
                | error e =>
                  change (readHeaderRest rt _ 0 w₁ >>= _) = _ at h
                  rw [hrest] at h
                  cases h
                | ok found =>
                  obtain ⟨binaryLen, w₂⟩ := found
                  change (readHeaderRest rt _ 0 w₁ >>= _) = _ at h
                  rw [hrest] at h
                  cases h
                  exact Nat.lt_of_le_of_lt (readHeaderRest_shortens hrest) hless
            · exact hlog _ h

theorem readFrameBytes_shortens {len : Nat} {bytes : Bytes}
    (h : readFrameBytes rt len context w = .ok (bytes, w')) :
    w'.stdout.contents.length ≤ w.stdout.contents.length := by
  unfold readFrameBytes at h
  split at h
  · rename_i hread
    cases h
    exact Chunked.readExact_shortens hread
  · cases h

theorem responseLoop_rounds {id : UInt64} {n m : Nat} (hn : w.stdout.contents.length < n)
    (hm : w.stdout.contents.length < m) : responseLoop rt id n w = responseLoop rt id m w := by
  induction n generalizing m w with
  | zero => omega
  | succ n ih =>
    cases m with
    | zero => omega
    | succ m =>
      simp only [responseLoop]
      cases hheader : readFrameHeader rt w with
      | error e => rfl
      | ok found =>
        obtain ⟨header, w₁⟩ := found
        cases header with
        | none => rfl
        | some header =>
          obtain ⟨contentLen, binaryLen⟩ := header
          have hless := frameHeaderLoop_shortens hheader
          show (readFrameBytes rt contentLen "frame payload" w₁ >>= _) =
            (readFrameBytes rt contentLen "frame payload" w₁ >>= _)
          cases hpayload : readFrameBytes rt contentLen "frame payload" w₁ with
          | error e => rfl
          | ok found =>
            obtain ⟨payload, w₂⟩ := found
            have hle := readFrameBytes_shortens hpayload
            show (readFrameBytes rt binaryLen "binary payload" w₂ >>= _) =
              (readFrameBytes rt binaryLen "binary payload" w₂ >>= _)
            cases hbinary : readFrameBytes rt binaryLen "binary payload" w₂ with
            | error e => rfl
            | ok found =>
              obtain ⟨binary, w₃⟩ := found
              have hle' := readFrameBytes_shortens hbinary
              dsimp only [bind, Except.bind]
              cases hparsed : rt.fromSlice payload with
              | error e => rfl
              | ok response =>
                dsimp only
                split
                · rw [ih (m := m) (by omega) (by omega)]
                · rfl

/-- What is read is as long as it was announced, and the rest is left. -/
theorem readFrameBytes_append (rt : Runtime) (context : String) {bytes later : Bytes}
    (hw : w.stdout.contents = bytes ++ later) :
    ∃ s, readFrameBytes rt bytes.length context w = .ok (bytes, { w with stdout := s }) ∧
      s.contents = later := by
  obtain ⟨s, hread, hs⟩ := Chunked.readExact_append [] hw (Nat.le_refl _)
  refine ⟨s, ?_, hs⟩
  rw [List.nil_append] at hread
  simp only [readFrameBytes, hread]

theorem logStdoutText_within (rt : Runtime) {line : List Char}
    (h : w.stdoutLogBytesBeforeFrame + ((encodeUtf8 line).length + 1) ≤
      maxStdoutLogBytesBeforeFrame) :
    logStdoutText rt line w = .ok { w with
      stdoutLogBytesBeforeFrame :=
        w.stdoutLogBytesBeforeFrame + ((encodeUtf8 line).length + 1) } := by
  have hmax : maxStdoutLogBytesBeforeFrame < usizeMax := by decide
  have hlogged : min (min (w.stdoutLogBytesBeforeFrame + (encodeUtf8 line).length) usizeMax + 1)
      usizeMax = w.stdoutLogBytesBeforeFrame + ((encodeUtf8 line).length + 1) := by omega
  unfold logStdoutText
  rw [hlogged]
  exact if_neg (by omega)

theorem logStdoutText_over (rt : Runtime) {line : List Char}
    (h : ¬ w.stdoutLogBytesBeforeFrame + ((encodeUtf8 line).length + 1) ≤
      maxStdoutLogBytesBeforeFrame) : ∃ e, logStdoutText rt line w = .error e := by
  have hmax : maxStdoutLogBytesBeforeFrame < usizeMax := by decide
  unfold logStdoutText
  exact ⟨_, if_pos (by omega)⟩

end

/-! ## The worker's side -/

/-- A line that does not look like the header of a frame. -/
structure LogLine where
  text : List Char
  oneLine : '\n' ∉ text
  notHeader : ∀ name value, splitOnce ':' (trimLineEnd text) = some (name, value) →
    eqIgnoreAsciiCase name "Content-Length".toList = false

def LogLine.bytes (l : LogLine) : Bytes := encodeUtf8 (l.text ++ ['\n'])

/-- What the reader counts of a line. -/
def LogLine.logged (l : LogLine) : Nat :=
  if (trimLineEnd l.text).isEmpty then 0 else (encodeUtf8 (trimLineEnd l.text)).length + 1

/-- A JSON block and a binary block within the limits of the protocol. The length of an empty
binary block may be left out. -/
structure Frame where
  payload : Bytes
  binary : Bytes
  binaryDeclared : Bool
  payload_le : payload.length ≤ maxJsonFrameBytes
  binary_le : binary.length ≤ maxBinaryFrameBytes
  declares : binaryDeclared = false → binary = []

/-- `<name>: <length>\r` -/
def headerText (name : String) (len : Nat) : List Char :=
  name.toList ++ ':' :: ' ' :: Nat.toDigits 10 len ++ ['\r']

def Frame.headerRest (f : Frame) : Bytes :=
  (if f.binaryDeclared then encodeUtf8 (headerText "Binary-Length" f.binary.length ++ ['\n'])
    else []) ++ encodeUtf8 (['\r'] ++ ['\n'])

def Frame.bytes (f : Frame) : Bytes :=
  encodeUtf8 (headerText "Content-Length" f.payload.length ++ ['\n']) ++ f.headerRest ++
    f.payload ++ f.binary

/-- A notification the reader passes over. -/
def Progresses (rt : Runtime) (f : Frame) : Prop :=
  ∃ v, rt.fromSlice f.payload = .ok v ∧ isProgress v = true ∧ acceptProgress v = .ok ()

/-- What a worker writes besides its responses. -/
inductive Aside (rt : Runtime) where
  | log (line : LogLine)
  | progress (frame : Frame) (progresses : Progresses rt frame)

/-- A response and what is written between the one before and it. -/
structure Answer (rt : Runtime) where
  before : List (Aside rt)
  id : UInt64
  frame : Frame
  response : Value
  parses : rt.fromSlice frame.payload = .ok response
  valid : validateResponseEnvelope rt response id = .ok ()

section

variable {rt : Runtime}

def Aside.bytes : Aside rt → Bytes
  | log line => line.bytes
  | progress frame _ => frame.bytes

def Answer.bytes (a : Answer rt) : Bytes := a.before.flatMap Aside.bytes ++ a.frame.bytes

def written (answers : List (Answer rt)) : Bytes := answers.flatMap Answer.bytes

def Aside.logLines : Aside rt → List LogLine
  | log line => [line]
  | progress _ _ => []

/-- The log lines of all gaps. -/
def logLines (answers : List (Answer rt)) : List LogLine :=
  answers.flatMap fun a => a.before.flatMap Aside.logLines

/-- The calls return the responses with their binary blocks, in order, and leave the stream at
what follows the last frame. -/
def ReadsBack (answers : List (Answer rt)) (rest : Bytes) (w : ProcessWorker) : Prop :=
  ∃ w', readResponses rt (answers.map (·.id)) w =
      .ok (answers.map fun a => (a.response, a.frame.binary), w') ∧ w'.stdout.contents = rest

end

/-! ## Frames -/

section

variable {rt : Runtime} {context : String} {w w' : ProcessWorker} {rest : Bytes}

theorem length_encodeUtf8_le (text : List Char) : (encodeUtf8 text).length ≤ 4 * text.length := by
  induction text with
  | nil => exact Nat.le_refl _
  | cons c text ih =>
    have hc : (String.utf8EncodeChar c).length ≤ 4 := by
      rw [String.length_utf8EncodeChar]
      exact Char.utf8Size_le_four c
    show (String.utf8EncodeChar c ++ encodeUtf8 text).length ≤ _
    rw [List.length_append, List.length_cons]
    omega

/-- The name of a header has neither a colon nor a newline. -/
structure HeaderName (name : String) : Prop where
  noColon : ':' ∉ name.toList
  noNewline : '\n' ∉ name.toList
  short : name.toList.length ≤ 14

theorem headerText_oneLine {name : String} (h : HeaderName name) (n : Nat) :
    '\n' ∉ headerText name n := by
  have hdigits : '\n' ∉ Nat.toDigits 10 n := fun hmem =>
    absurd (Nat.isDigit_of_mem_toDigits (by decide) (by decide) hmem) (by decide)
  unfold headerText
  simp [h.noNewline, hdigits]

theorem headerText_fits {name : String} (h : HeaderName name) {n : Nat}
    (hn : n ≤ maxBinaryFrameBytes) :
    (encodeUtf8 (headerText name n ++ ['\n'])).length ≤ maxFrameHeaderLineBytes := by
  have hdigits : (Nat.toDigits 10 n).length ≤ 9 := by
    rw [Nat.length_toDigits_le_iff (by decide) (by decide)]
    have : maxBinaryFrameBytes < 10 ^ 9 := by decide
    omega
  have hle := length_encodeUtf8_le (headerText name n ++ ['\n'])
  have hshort := h.short
  have hmax : maxFrameHeaderLineBytes = 8192 := rfl
  simp only [headerText, List.length_append, List.length_cons, List.length_nil] at hle ⊢
  omega

theorem trimLineEnd_headerText (name : String) (n : Nat) :
    trimLineEnd (headerText name n ++ ['\n']) = name.toList ++ ':' :: ' ' :: Nat.toDigits 10 n := by
  rw [trimLineEnd_newline]
  unfold headerText trimLineEnd
  rw [List.rdropWhile_concat_pos _ _ _ rfl, List.rdropWhile_eq_self_iff]
  intro hne
  have hlast : (name.toList ++ ':' :: ' ' :: Nat.toDigits 10 n).getLast hne =
      (Nat.toDigits 10 n).getLast Nat.toDigits_ne_nil := by
    rw [List.getLast_append_of_ne_nil _ (by simp), List.getLast_cons (by simp),
      List.getLast_cons Nat.toDigits_ne_nil]
  have hdigit := Nat.isDigit_of_mem_toDigits (b := 10) (by decide) (by decide)
    (List.getLast_mem (Nat.toDigits_ne_nil (n := n) (b := 10)))
  rw [hlast]
  intro hend
  rcases Bool.or_eq_true_iff.1 hend with h | h
  · rw [beq_iff_eq.1 h] at hdigit
    exact absurd hdigit (by decide)
  · rw [beq_iff_eq.1 h] at hdigit
    exact absurd hdigit (by decide)

theorem splitOnce_append {separator : Char} {name value : List Char} (h : separator ∉ name) :
    splitOnce separator (name ++ separator :: value) = some (name, value) := by
  have hspan : (name ++ separator :: value).span (· != separator) = (name, separator :: value) := by
    rw [List.span_eq_takeWhile_dropWhile]
    have hall : ∀ c ∈ name, (c != separator) = true := by
      intro c hc
      simp only [bne_iff_ne, ne_eq]
      rintro rfl
      exact h hc
    rw [List.takeWhile_append_of_pos hall, List.dropWhile_append_of_pos hall]
    simp
  unfold splitOnce
  rw [hspan]

theorem headerName_content : HeaderName "Content-Length" := ⟨by decide, by decide, by decide⟩

theorem headerName_binary : HeaderName "Binary-Length" := ⟨by decide, by decide, by decide⟩

theorem parseHeaderLen_digits {header : String} {n : Nat}
    (h : n ≤ if header = "Content-Length" then maxJsonFrameBytes else maxBinaryFrameBytes) :
    parseHeaderLen rt header (' ' :: Nat.toDigits 10 n) = .ok n := by
  have husize : n ≤ usizeMax := by
    have hjson : maxJsonFrameBytes ≤ usizeMax := by decide
    have hbinary : maxBinaryFrameBytes ≤ usizeMax := by decide
    split at h <;> omega
  unfold parseHeaderLen
  rw [parseUsize_toDigits husize]
  exact if_neg (by omega)

theorem readHeaderRest_blank (rt : Runtime) (n binaryLen : Nat)
    (hw : w.stdout.contents = encodeUtf8 (['\r'] ++ ['\n']) ++ rest) :
    ∃ s, readHeaderRest rt (n + 1) binaryLen w = .ok (binaryLen, { w with stdout := s }) ∧
      s.contents = rest := by
  obtain ⟨s, hline, hs⟩ := readHeaderLine_text rt "frame header continuation" hw (by decide) (by decide)
  refine ⟨s, ?_, hs⟩
  simp only [readHeaderRest, hline]
  rfl

theorem readHeaderRest_frame (rt : Runtime) (f : Frame) (n : Nat)
    (hw : w.stdout.contents = f.headerRest ++ rest) :
    ∃ s, readHeaderRest rt (n + 2) 0 w = .ok (f.binary.length, { w with stdout := s }) ∧
      s.contents = rest := by
  unfold Frame.headerRest at hw
  cases hdeclared : f.binaryDeclared with
  | false =>
    have hempty := f.declares hdeclared
    rw [hdeclared] at hw
    obtain ⟨s, hread, hs⟩ := readHeaderRest_blank rt (n + 1) 0 hw
    refine ⟨s, ?_, hs⟩
    rw [hread, hempty]
    rfl
  | true =>
    rw [hdeclared, if_pos rfl, List.append_assoc] at hw
    obtain ⟨s, hline, hs⟩ := readHeaderLine_text rt "frame header continuation" hw
      (headerText_oneLine headerName_binary _) (headerText_fits headerName_binary f.binary_le)
    obtain ⟨s', hread, hs'⟩ := readHeaderRest_blank rt n f.binary.length
      (w := { w with stdout := s }) hs
    refine ⟨s', ?_, hs'⟩
    have hlen : parseHeaderLen rt "Binary-Length" (' ' :: Nat.toDigits 10 f.binary.length) =
        .ok f.binary.length := parseHeaderLen_digits f.binary_le
    have hnonempty : (trimLineEnd (headerText "Binary-Length" f.binary.length ++ ['\n'])).isEmpty =
        false := by
      rw [trimLineEnd_headerText]
      simp
    have hsplit : splitOnce ':' (trimLineEnd (headerText "Binary-Length" f.binary.length ++
        ['\n'])) = some ("Binary-Length".toList, ' ' :: Nat.toDigits 10 f.binary.length) := by
      rw [trimLineEnd_headerText]
      exact splitOnce_append headerName_binary.noColon
    have hname : eqIgnoreAsciiCase "Binary-Length".toList "Binary-Length".toList = true :=
      beq_self_eq_true _
    rw [readHeaderRest, hline]
    show (if _ then _ else _) = _
    rw [hnonempty, hsplit, if_neg Bool.false_ne_true]
    show (if _ then _ else _) = _
    rw [if_pos hname, hlen]
    exact hread

theorem readFrameHeader_frame (rt : Runtime) (f : Frame) {later : Bytes}
    (hw : w.stdout.contents = f.bytes ++ later) :
    ∃ s, readFrameHeader rt w =
        .ok (some (f.payload.length, f.binary.length), { w with stdout := s }) ∧
      s.contents = f.payload ++ (f.binary ++ later) := by
  unfold Frame.bytes at hw
  simp only [List.append_assoc] at hw
  have hcontent : f.payload.length ≤ maxBinaryFrameBytes := by
    have hle : maxJsonFrameBytes ≤ maxBinaryFrameBytes := by decide
    exact Nat.le_trans f.payload_le hle
  obtain ⟨s, hline, hs⟩ := readHeaderLine_text rt "frame header" hw
    (headerText_oneLine headerName_content _) (headerText_fits headerName_content hcontent)
  obtain ⟨n, hn⟩ : ∃ n, s.contents.length + 1 = n + 2 := by
    have hblank : (encodeUtf8 (['\r'] ++ ['\n'])).length = 2 := by decide
    refine ⟨s.contents.length - 1, ?_⟩
    rw [hs]
    unfold Frame.headerRest
    simp only [List.length_append, hblank]
    omega
  obtain ⟨s', hread, hs'⟩ := readHeaderRest_frame rt f n (w := { w with stdout := s }) hs
  refine ⟨s', ?_, hs'⟩
  have hlen : parseHeaderLen rt "Content-Length" (' ' :: Nat.toDigits 10 f.payload.length) =
      .ok f.payload.length := parseHeaderLen_digits f.payload_le
  have hnonempty : (trimLineEnd (headerText "Content-Length" f.payload.length ++ ['\n'])).isEmpty =
      false := by
    rw [trimLineEnd_headerText]
    simp
  have hsplit : splitOnce ':' (trimLineEnd (headerText "Content-Length" f.payload.length ++
      ['\n'])) = some ("Content-Length".toList, ' ' :: Nat.toDigits 10 f.payload.length) := by
    rw [trimLineEnd_headerText]
    exact splitOnce_append headerName_content.noColon
  have hname : eqIgnoreAsciiCase "Content-Length".toList "Content-Length".toList = true :=
    beq_self_eq_true _
  rw [readFrameHeader, frameHeaderLoop, hline]
  show (if _ then _ else _) = _
  rw [hnonempty, hsplit, if_neg Bool.false_ne_true]
  show (if _ then _ else _) = _
  rw [if_pos hname, hlen]
  show (readHeaderRest rt (s.contents.length + 1) 0 { w with stdout := s } >>= _) = _
  rw [hn, hread]
  rfl

/-- Whether the reader takes a log line. -/
def Takes (w : ProcessWorker) (l : LogLine) : Prop :=
  l.bytes.length ≤ maxFrameHeaderLineBytes ∧
    w.stdoutLogBytesBeforeFrame + l.logged ≤ maxStdoutLogBytesBeforeFrame

/-- A log line is taken off the stream, and counted. -/
theorem readFrameHeader_log (rt : Runtime) (l : LogLine) {later : Bytes}
    (hw : w.stdout.contents = l.bytes ++ later) (htakes : Takes w l) :
    ∃ w', readFrameHeader rt w = readFrameHeader rt w' ∧ w'.stdout.contents = later ∧
      w'.stdoutLogBytesBeforeFrame = w.stdoutLogBytesBeforeFrame + l.logged := by
  obtain ⟨s, hline, hs⟩ := readHeaderLine_text rt "frame header" hw l.oneLine
    htakes.1
  have hless := readHeaderLine_shortens hline
  have hloop : ∀ w' : ProcessWorker, w'.stdout = s →
      frameHeaderLoop rt w.stdout.contents.length w' = readFrameHeader rt w' := by
    intro w' hstdout
    apply frameHeaderLoop_rounds
    · rw [hstdout]
      exact hless
    · exact Nat.lt_succ_self _
  have htrim := trimLineEnd_newline l.text
  by_cases hempty : (trimLineEnd l.text).isEmpty = true
  · refine ⟨{ w with stdout := s }, ?_, hs, ?_⟩
    · rw [← hloop { w with stdout := s } rfl, readFrameHeader, frameHeaderLoop, hline]
      show (if _ then _ else _) = _
      rw [htrim, if_pos hempty]
    · unfold LogLine.logged
      rw [if_pos hempty]
      rfl
  · have hlogged : l.logged = (encodeUtf8 (trimLineEnd l.text)).length + 1 := if_neg hempty
    have hwithin := htakes.2
    rw [hlogged] at hwithin
    have hlog := logStdoutText_within rt (w := { w with stdout := s }) hwithin
    refine ⟨⟨s, w.stdoutLogBytesBeforeFrame + l.logged⟩, ?_, hs, rfl⟩
    rw [← hloop ⟨s, w.stdoutLogBytesBeforeFrame + l.logged⟩ rfl, readFrameHeader, frameHeaderLoop,
      hline, hlogged]
    show (if _ then _ else _) = _
    rw [htrim, if_neg hempty]
    split
    · rw [hlog]
      rfl
    · rename_i name value hsplit
      rw [if_neg (by rw [l.notHeader name value hsplit]; exact Bool.false_ne_true), hlog]
      rfl

/-- A log line that is not taken ends the read. -/
theorem readFrameHeader_refused (rt : Runtime) (l : LogLine) {later : Bytes}
    (hw : w.stdout.contents = l.bytes ++ later) (htakes : ¬ Takes w l)
    (hbefore : w.stdoutLogBytesBeforeFrame ≤ maxStdoutLogBytesBeforeFrame) :
    ∃ e, readFrameHeader rt w = .error e := by
  by_cases hfits : l.bytes.length ≤ maxFrameHeaderLineBytes
  · have hover : ¬ w.stdoutLogBytesBeforeFrame + l.logged ≤ maxStdoutLogBytesBeforeFrame :=
      fun h => htakes ⟨hfits, h⟩
    obtain ⟨s, hline, hs⟩ := readHeaderLine_text rt "frame header" hw
      l.oneLine hfits
    have hempty : ¬ (trimLineEnd l.text).isEmpty = true := by
      intro hempty
      unfold LogLine.logged at hover
      rw [if_pos hempty] at hover
      omega
    have hlogged : l.logged = (encodeUtf8 (trimLineEnd l.text)).length + 1 := if_neg hempty
    rw [hlogged] at hover
    obtain ⟨e, hlog⟩ := logStdoutText_over rt (w := { w with stdout := s }) hover
    refine ⟨e, ?_⟩
    rw [readFrameHeader, frameHeaderLoop, hline]
    show (if _ then _ else _) = _
    rw [trimLineEnd_newline, if_neg hempty]
    split
    · rw [hlog]
      rfl
    · rename_i name value hsplit
      rw [if_neg (by rw [l.notHeader name value hsplit]; exact Bool.false_ne_true), hlog]
      rfl
  · obtain ⟨e, hline⟩ := readHeaderLine_over rt "frame header" hw l.oneLine
      hfits
    refine ⟨e, ?_⟩
    rw [readFrameHeader, frameHeaderLoop, hline]
    rfl

end

end Gammaboard.Process
