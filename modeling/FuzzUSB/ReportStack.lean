import FuzzUSB.Report

/-!
# Stack frames in a report

The parts of a `stackFmt` go through the lines of the report one after the other. A line that is
corrupted ends all of them.
-/

namespace FuzzUSB.CrashReport
open TextLines

structure StackParams where
  stackStartRes : List Regexp
  frameRes : List Regexp
  skipPatterns : List Bytes
  corruptedLines : List Regexp

/-- `bufio.MaxScanTokenSize` -/
def maxScanTokenSize : ℕ := 64 * 1024

/-- The lines that the scanner returns, without the carriage returns that it and `bytes.Trim`
remove. It stops at a line that its buffer does not hold. -/
def scanLines (output : Bytes) : List Bytes :=
  ((lines newline output).takeWhile fun ln => ln.length < maxScanTokenSize).map
    (trim carriageReturn)

def appendStackFrame (frames : List Bytes) (groups : Option (List (Option Bytes)))
    (skipRe : Option Regexp) : List Bytes :=
  match (groups.getD []).find? fun g =>
      g.any fun frame => !(skipRe.any fun re => re.isMatch frame) with
  | some (some frame) => frames ++ [frame]
  | _ => frames

/-- How a part of the format ends. -/
inductive PartEnd
  | corrupted
  | next (lines : List Bytes)
  | eof

section

variable (params : StackParams) (skipRe : Option Regexp)

/-- One part of `extractStackFrameImpl`, on the lines that are left. -/
def scanPart (part : Option Regexp) : List Bytes → List Bytes → PartEnd × List Bytes
  | [], frames => (.eof, frames)
  | ln :: lns, frames =>
    if matchesAny ln params.corruptedLines then (.corrupted, frames)
    else
      match part with
      | none =>
        if matchesAny ln params.stackStartRes then (.next lns, frames)
        else scanPart part lns
          (appendStackFrame frames (params.frameRes.findSome? fun re => re.submatches ln) skipRe)
      | some re =>
        match re.submatches ln with
        | none => scanPart part lns frames
        | some groups => (.next lns, appendStackFrame frames (some groups) skipRe)

/-- The loop over the parts. -/
def scanParts : List (Option Regexp) → List Bytes → List Bytes → List Bytes
  | [], _, frames => frames
  | part :: parts, lns, frames =>
    match scanPart params skipRe part lns frames with
    | (.corrupted, frames) => frames
    | (.next lns, frames) => scanParts parts lns frames
    | (.eof, frames) => scanParts parts [] frames

end

/-- The frame, and why the report is corrupted. -/
def extractStackFrameImpl (params : StackParams) (output : Bytes) (skipRe : Option Regexp)
    (parts : List (Option Regexp)) (extractor : List Bytes → Bytes × String) : Bytes × String :=
  let frames := scanParts params skipRe parts (scanLines output) []
  if frames = [] then ([], "extracted no frames") else extractor frames

def firstFrame (frames : List Bytes) : Bytes × String := (frames.headD [], "")

section

variable (mustCompile : Bytes → Regexp) (params : StackParams) (stack : StackFmt)

/-- The functions that are skipped, as one expression. -/
def skipRe : Option Regexp :=
  let skip := params.skipPatterns ++ stack.skip
  if skip = [] then none else some (mustCompile ((ascii "|").intercalate skip))

def extractStackFrame (output : Bytes) : Bytes × String :=
  let extractor := stack.extractor.getD firstFrame
  let skip := skipRe mustCompile params stack
  let r := extractStackFrameImpl params output skip stack.parts extractor
  if r.1 ≠ [] ∨ stack.parts2 = [] then r
  else extractStackFrameImpl params output skip stack.parts2 extractor

end

variable {params : StackParams} {skip : Option Regexp}

/-! ## A trace -/

/-- Frames stand behind `at`, and `kasan` is skipped. -/
def atParams : StackParams where
  stackStartRes := []
  frameRes := [restOfLine (ascii "at ")]
  skipPatterns := [ascii "kasan"]
  corruptedLines := [literal (ascii "cut here")]

/-- One stack trace. -/
def traceFmt : StackFmt := ⟨[none], [], [], none⟩

def trace : Bytes := ascii "at kasan_report\nat usb_submit"

/-! ## Where the lines end -/

/-- A line that does not end the search. -/
def Readable (params : StackParams) (ln : Bytes) : Bool := !matchesAny ln params.corruptedLines

/-- The end of a part on the lines in front of the first that is corrupted. -/
def PartEnd.cut (params : StackParams) : PartEnd → PartEnd
  | corrupted => eof
  | next lns => next (lns.takeWhile (Readable params))
  | eof => eof

theorem scanPart_cut (part : Option Regexp) (lns frames : List Bytes) :
    scanPart params skip part (lns.takeWhile (Readable params)) frames =
      ((scanPart params skip part lns frames).1.cut params,
        (scanPart params skip part lns frames).2) := by
  induction lns generalizing frames with
  | nil => rfl
  | cons ln lns ih =>
    by_cases hbad : matchesAny ln params.corruptedLines = true
    · rw [List.takeWhile_cons_of_neg (by simp [Readable, hbad]), scanPart.eq_def _ _ _ (ln :: lns)]
      simp only [if_pos hbad]
      rfl
    · rw [List.takeWhile_cons_of_pos (by simp [Readable, hbad]), scanPart.eq_def _ _ _ (ln :: lns),
        scanPart.eq_def]
      simp only [if_neg hbad]
      cases part with
      | none =>
        dsimp only
        split
        · rfl
        · exact ih _
      | some re =>
        dsimp only
        split
        · exact ih _
        · rfl

theorem scanParts_nil (parts : List (Option Regexp)) (frames : List Bytes) :
    scanParts params skip parts [] frames = frames := by
  induction parts with
  | nil => rfl
  | cons part parts ih => exact ih

/-- A corrupted line ends the search as the end of the text does. -/
theorem scanParts_cut (parts : List (Option Regexp)) (lns frames : List Bytes) :
    scanParts params skip parts (lns.takeWhile (Readable params)) frames =
      scanParts params skip parts lns frames := by
  induction parts generalizing lns frames with
  | nil => rfl
  | cons part parts ih =>
    rw [scanParts, scanParts, scanPart_cut]
    rcases h : scanPart params skip part lns frames with ⟨_ | rest | _, frames'⟩
    · exact scanParts_nil parts frames'
    · exact ih rest frames'
    · rfl

/-- What stands behind the first corrupted line does not matter. -/
theorem extractStackFrame_cut (mustCompile : Bytes → Regexp) (params : StackParams)
    (stack : StackFmt) {output output' : Bytes}
    (h : (scanLines output).takeWhile (Readable params) =
      (scanLines output').takeWhile (Readable params)) :
    extractStackFrame mustCompile params stack output =
      extractStackFrame mustCompile params stack output' := by
  have himpl (parts : List (Option Regexp)) (extractor : List Bytes → Bytes × String) :
      extractStackFrameImpl params output (skipRe mustCompile params stack) parts extractor =
        extractStackFrameImpl params output' (skipRe mustCompile params stack) parts extractor := by
    unfold extractStackFrameImpl
    rw [← scanParts_cut, h, scanParts_cut]
  unfold extractStackFrame
  simp only [himpl]

theorem extractStackFrame_cut_trace :
    extractStackFrame literal atParams traceFmt (trace ++ ascii "\ncut here\nat f") =
      extractStackFrame literal atParams traceFmt trace :=
  extractStackFrame_cut literal atParams traceFmt (by decide +kernel)

/-! ## More output -/

theorem appendStackFrame_grows (frames : List Bytes) (groups : Option (List (Option Bytes))) :
    frames <+: appendStackFrame frames groups skip := by
  unfold appendStackFrame
  split
  · exact List.prefix_append _ _
  · exact List.prefix_refl _

theorem scanPart_grows (params : StackParams) (skip part : Option Regexp)
    (lns frames : List Bytes) :
    frames <+: (scanPart params skip part lns frames).2 := by
  induction lns generalizing frames with
  | nil => exact List.prefix_refl _
  | cons ln lns ih =>
    rw [scanPart.eq_def]
    dsimp only
    split
    · exact List.prefix_refl _
    · split
      · split
        · exact List.prefix_refl _
        · exact (appendStackFrame_grows _ _).trans (ih _)
      · split
        · exact ih _
        · exact appendStackFrame_grows _ _

theorem scanParts_grows (parts : List (Option Regexp)) (lns frames : List Bytes) :
    frames <+: scanParts params skip parts lns frames := by
  induction parts generalizing lns frames with
  | nil => exact List.prefix_refl _
  | cons part parts ih =>
    have hpart := scanPart_grows params skip part lns frames
    rw [scanParts]
    rcases h : scanPart params skip part lns frames with ⟨_ | rest | _, frames'⟩
    · rwa [h] at hpart
    · rw [h] at hpart
      exact hpart.trans (ih rest frames')
    · rw [h] at hpart
      exact hpart.trans (ih [] frames')

/-- A part goes on where the lines ended, or does not see the lines behind them. -/
theorem scanPart_append (part : Option Regexp) (lns more frames : List Bytes) :
    scanPart params skip part (lns ++ more) frames =
      match scanPart params skip part lns frames with
      | (.corrupted, frames) => (.corrupted, frames)
      | (.next rest, frames) => (.next (rest ++ more), frames)
      | (.eof, frames) => scanPart params skip part more frames := by
  induction lns generalizing frames with
  | nil => rfl
  | cons ln lns ih =>
    rw [List.cons_append, scanPart.eq_def, scanPart.eq_def _ _ _ (ln :: lns)]
    dsimp only
    split
    · rfl
    · cases part with
      | none =>
        dsimp only
        split
        · rfl
        · exact ih _
      | some re =>
        dsimp only
        split
        · exact ih _
        · rfl

theorem scanParts_append (params : StackParams) (skip : Option Regexp)
    (parts : List (Option Regexp)) (lns more frames : List Bytes) :
    scanParts params skip parts lns frames <+:
      scanParts params skip parts (lns ++ more) frames := by
  induction parts generalizing lns frames with
  | nil => exact List.prefix_refl _
  | cons part parts ih =>
    rw [scanParts, scanParts, scanPart_append]
    rcases h : scanPart params skip part lns frames with ⟨_ | rest | _, frames'⟩
    · exact List.prefix_refl _
    · exact ih rest frames'
    · -- The lines are used up, and frames are only added.
      show scanParts params skip parts [] frames' <+:
        scanParts params skip (part :: parts) more frames'
      rw [scanParts_nil]
      exact scanParts_grows _ _ _

theorem takeWhile_prefix_append {α : Type*} (p : α → Bool) (s t : List α) :
    s.takeWhile p <+: (s ++ t).takeWhile p := by
  induction s with
  | nil => exact List.nil_prefix
  | cons c cs ih =>
    rw [List.cons_append, List.takeWhile_cons, List.takeWhile_cons]
    split
    · exact List.cons_prefix_cons.mpr ⟨rfl, ih⟩
    · exact List.prefix_refl _

theorem scanLines_append (output more : Bytes) :
    scanLines (output ++ [newline]) <+: scanLines (output ++ [newline] ++ more) := by
  unfold scanLines
  rw [lines_append]
  exact (takeWhile_prefix_append _ _ _).map _

theorem firstFrame_grows {frames frames' : List Bytes} (h : frames <+: frames')
    (hne : frames ≠ []) : firstFrame frames' = firstFrame frames := by
  obtain ⟨t, rfl⟩ := h
  cases frames with
  | nil => exact absurd rfl hne
  | cons f fs => rfl

theorem extractStackFrameImpl_append (more : Bytes) {output : Bytes} {parts : List (Option Regexp)}
    (h : (extractStackFrameImpl params (output ++ [newline]) skip parts firstFrame).1 ≠ []) :
    extractStackFrameImpl params (output ++ [newline] ++ more) skip parts firstFrame =
      extractStackFrameImpl params (output ++ [newline]) skip parts firstFrame := by
  obtain ⟨t, ht⟩ := scanLines_append output more
  have hprefix := scanParts_append params skip parts
    (scanLines (output ++ [newline])) t []
  rw [ht] at hprefix
  unfold extractStackFrameImpl at h ⊢
  dsimp only at h ⊢
  by_cases hnil : scanParts params skip parts (scanLines (output ++ [newline])) [] = []
  · rw [if_pos hnil] at h
    exact absurd rfl h
  · have hnil' : scanParts params skip parts
        (scanLines (output ++ [newline] ++ more)) [] ≠ [] := by
      intro heq
      rw [heq] at hprefix
      exact hnil (List.prefix_nil.mp hprefix)
    rw [if_neg hnil, if_neg hnil', firstFrame_grows hprefix hnil]

/-- A frame that the parts of the format have found stays, whatever is printed behind it. -/
theorem extractStackFrame_append (mustCompile : Bytes → Regexp) (params : StackParams)
    (stack : StackFmt) (hextractor : stack.extractor = none) {output : Bytes}
    (h : (extractStackFrameImpl params (output ++ [newline]) (skipRe mustCompile params stack)
      stack.parts firstFrame).1 ≠ []) (more : Bytes) :
    extractStackFrame mustCompile params stack (output ++ [newline] ++ more) =
      extractStackFrame mustCompile params stack (output ++ [newline]) := by
  have hsame := extractStackFrameImpl_append more h
  unfold extractStackFrame
  simp only [hextractor, Option.getD_none, hsame]
  rw [if_pos (.inl h), if_pos (.inl h)]

theorem extractStackFrame_append_trace :
    extractStackFrame literal atParams traceFmt (trace ++ [newline] ++ ascii "at f") =
      extractStackFrame literal atParams traceFmt (trace ++ [newline]) :=
  extractStackFrame_append literal atParams traceFmt rfl (by decide +kernel) (ascii "at f")

/-! ## Frames that are skipped -/

theorem mem_appendStackFrame {frames : List Bytes} {groups : Option (List (Option Bytes))}
    {frame : Bytes} (h : frame ∈ appendStackFrame frames groups skip) :
    frame ∈ frames ∨ ∀ re ∈ skip, re.isMatch frame = false := by
  unfold appendStackFrame at h
  split at h
  · next found hfound =>
    rcases List.mem_append.mp h with h | h
    · exact .inl h
    · obtain rfl := List.mem_singleton.mp h
      have hkept := List.find?_some hfound
      right
      intro re hre
      obtain rfl := Option.mem_def.mp hre
      simpa using hkept
  · exact .inl h

theorem mem_scanPart {part : Option Regexp} {lns frames : List Bytes} {frame : Bytes}
    (h : frame ∈ (scanPart params skip part lns frames).2) :
    frame ∈ frames ∨ ∀ re ∈ skip, re.isMatch frame = false := by
  induction lns generalizing frames with
  | nil => exact .inl h
  | cons ln lns ih =>
    rw [scanPart.eq_def] at h
    dsimp only at h
    split at h
    · exact .inl h
    · split at h
      · split at h
        · exact .inl h
        · exact (ih h).elim mem_appendStackFrame .inr
      · split at h
        · exact ih h
        · exact mem_appendStackFrame h

theorem mem_scanParts {parts : List (Option Regexp)} {lns frames : List Bytes} {frame : Bytes}
    (h : frame ∈ scanParts params skip parts lns frames) :
    frame ∈ frames ∨ ∀ re ∈ skip, re.isMatch frame = false := by
  induction parts generalizing lns frames with
  | nil => exact .inl h
  | cons part parts ih =>
    have hpart : frame ∈ (scanPart params skip part lns frames).2 →
        frame ∈ frames ∨ ∀ re ∈ skip, re.isMatch frame = false := mem_scanPart
    rw [scanParts] at h
    rcases hs : scanPart params skip part lns frames with ⟨_ | rest | _, frames'⟩
    all_goals rw [hs] at h hpart
    · exact hpart h
    · exact (ih h).elim hpart .inr
    · exact (ih h).elim hpart .inr

/-- The guilty frame is none of the functions that are skipped. -/
theorem extractStackFrame_not_skipped (mustCompile : Bytes → Regexp) (params : StackParams)
    (stack : StackFmt) (hextractor : stack.extractor = none) (output : Bytes) :
    (extractStackFrame mustCompile params stack output).1 = [] ∨
      ∀ re ∈ skipRe mustCompile params stack,
        re.isMatch (extractStackFrame mustCompile params stack output).1 = false := by
  have himpl (parts : List (Option Regexp)) :
      (extractStackFrameImpl params output (skipRe mustCompile params stack) parts
        firstFrame).1 = [] ∨
      ∀ re ∈ skipRe mustCompile params stack, re.isMatch (extractStackFrameImpl params output
        (skipRe mustCompile params stack) parts firstFrame).1 = false := by
    unfold extractStackFrameImpl
    dsimp only
    cases hframes : scanParts params (skipRe mustCompile params stack) parts
      (scanLines output) [] with
    | nil => exact .inl rfl
    | cons frame frames =>
      have hmem : frame ∈ scanParts params (skipRe mustCompile params stack) parts
        (scanLines output) [] := by simp [hframes]
      exact .inr ((mem_scanParts hmem).resolve_left List.not_mem_nil)
  unfold extractStackFrame
  simp only [hextractor, Option.getD_none]
  split
  · exact himpl _
  · exact himpl _

end FuzzUSB.CrashReport
