import Joes.PagingDumpAnalysis

/-!
# Cutting dumps out of the serial output

`split_serial_output.py` goes through what the kernel has sent and copies what is between
two markers to a file, for each of two dumps. It opens the serial output as a text, so a
carriage return ends a line for it, too, and what it reads are the characters that the bytes
stand for. The texts here are those of which each byte is a character, the ones of ASCII
(`AsciiText`): on other bytes the script depends on the encoding that it is run with.

What the script does next depends on the markers in a line, on whether it is in a dump, and on
the file that it has opened last. There is no file at first, and then an end is an exception,
which is no result. Lines without a marker are skipped, so it is the first line with one that
decides: either it opens a file, and from there on there always is one to write to or to close,
or it asks for a file that is not there (`splitSerialOutput_eq_none_iff`). A line can have
several markers in it. The start of the first dump is looked for before its end, and that
before the start of the second one, so that a line with the last two in it is an exception
(`Opens`).

The kernel logs the markers and the dumps among other messages. The lines of a dump have no
marker in them, for want of a `U` (`entryLine_subset_dumpChars`), and no carriage return. Other
lines may have carriage returns and become several, but a marker has no end of a line in it
and is not put together by this (`quiet_of_mem_textLines`). So the two files are the two dumps
byte by byte, and the analyser makes of them what it makes of the dumps
(`splitSerialOutput_analysed_iff`).
-/

open TextReading AnalyzePtDump RadixHeap PageTableEntry

namespace SplitSerialOutput

/-! ## Texts -/

/-- **A text of ASCII characters**, by its bytes. -/
@[ext]
structure AsciiText where
  bytes : List (BitVec 8)
  ascii : ∀ b ∈ bytes, b.toNat < 128

/-- The carriage return. -/
def carriageReturn : BitVec 8 := charByte '\r'

/-- The lines that a script reads from a file that it has opened as a text. -/
def textLines (text : List (BitVec 8)) : List (List (BitVec 8)) :=
  lines newline (universalNewlines carriageReturn newline text)

theorem textLines_append (text rest : List (BitVec 8)) :
    textLines (text ++ newline :: rest) = textLines (text ++ [newline]) ++ textLines rest :=
  lines_universalNewlines_append (by decide) text rest

/-- A line that was written is read. -/
theorem textLines_cons {line : List (BitVec 8)} (hnewline : newline ∉ line)
    (hcr : carriageReturn ∉ line) (rest : List (BitVec 8)) :
    textLines (line ++ newline :: rest) = (line ++ [newline]) :: textLines rest := by
  have hline : carriageReturn ∉ line ++ [newline] := by
    rw [List.mem_append]
    exact not_or.mpr ⟨hcr, by decide⟩
  unfold textLines
  rw [List.append_cons, universalNewlines_append hline, List.append_assoc, List.singleton_append]
  exact lines_append_cons hnewline _

/-- The lines of a text that starts with complete ones. -/
theorem textLines_flatMap {β : Type} {body : β → List (BitVec 8)} (items : List β)
    (text : List (BitVec 8)) :
    textLines ((items.flatMap fun x => body x ++ [newline]) ++ text)
      = (items.flatMap fun x => textLines (body x ++ [newline])) ++ textLines text := by
  induction items with
  | nil => rfl
  | cons x items ih =>
    rw [List.flatMap_cons, List.append_assoc, List.append_assoc, List.singleton_append,
      textLines_append, ih, List.flatMap_cons, List.append_assoc]

/-! ## The script -/

/-- The markers. -/
inductive Marker where
  | start1 | end1 | start2 | end2
  deriving DecidableEq, Repr

/-- The text of a marker. -/
def Marker.text : Marker → String
  | start1 => "START PAGE TABLE DUMP 1"
  | end1 => "END PAGE TABLE DUMP 1"
  | start2 => "START PAGE TABLE DUMP 2"
  | end2 => "END PAGE TABLE DUMP 2"

/-- A marker is in a line. -/
def Marker.In (m : Marker) (line : List (BitVec 8)) : Prop := charBytes m.text <:+: line

instance (m : Marker) (line : List (BitVec 8)) : Decidable (m.In line) :=
  inferInstanceAs (Decidable (_ <:+: _))

/-- `RESULT_FILE_1` and `RESULT_FILE_2`. -/
inductive ResultFile where
  | file1 | file2
  deriving DecidableEq, Repr

/-- The file behind `fd_output`, and whether it was closed. -/
structure FdOutput where
  file : ResultFile
  closed : Bool
  deriving DecidableEq, Repr

/-- **The variables of the script**, and the files with their contents. -/
structure Vars where
  fdOutput : Option FdOutput
  state : ℕ
  files : ResultFile → Option (List (BitVec 8))

namespace Vars

/-- `fd_output = open(...)` and `state = 1`. -/
def openFile (f : ResultFile) (v : Vars) : Vars where
  fdOutput := some ⟨f, false⟩
  state := 1
  files := Function.update v.files f (some [])

/-- `fd_output.close()`. -/
def close (v : Vars) : Option Vars :=
  v.fdOutput.map fun fd => { v with fdOutput := some { fd with closed := true } }

/-- `fd_output.write(line)`. -/
def write (line : List (BitVec 8)) (v : Vars) : Option Vars :=
  match v.fdOutput with
  | some ⟨f, false⟩ =>
    some { v with files := Function.update v.files f ((v.files f).map (· ++ line)) }
  | _ => none

end Vars

/-- The line is copied in a dump. -/
def Vars.copy (line : List (BitVec 8)) (v : Vars) : Option Vars :=
  if v.state = 1 then v.write line else some v

/-- An end of the first dump closes the file. -/
def Vars.endDump1 (line : List (BitVec 8)) (v : Vars) : Option Vars :=
  if Marker.end1.In line then v.close.map ({ · with state := 0 }) else some v

/-- The loop over the lines. -/
def splitLoop : List (List (BitVec 8)) → Vars → Option Vars
  | [], v => some v
  | line :: lines, v =>
    if Marker.start1.In line then splitLoop lines (v.openFile .file1)
    else
      (v.endDump1 line).bind fun v =>
        if Marker.start2.In line then splitLoop lines (v.openFile .file2)
        else if Marker.end2.In line then v.close
        else (v.copy line).bind (splitLoop lines)

/-- **The script**, from what was sent and the files that there are to the files after it. -/
def splitSerialOutput (input : AsciiText) (files : ResultFile → Option (List (BitVec 8))) :
    Option (ResultFile → Option (List (BitVec 8))) :=
  (splitLoop (textLines input.bytes) ⟨none, 0, files⟩).map Vars.files

/-! ## Lines without a marker -/

/-- A line without a marker. -/
def Quiet (line : List (BitVec 8)) : Prop := ∀ m : Marker, ¬ m.In line

variable {line : List (BitVec 8)} {rest : List (List (BitVec 8))} {v : Vars}

/-- A line without a marker is copied, or skipped. -/
theorem splitLoop_quiet (h : Quiet line) :
    splitLoop (line :: rest) v = (v.copy line).bind (splitLoop rest) := by
  rw [splitLoop, if_neg (h .start1), Vars.endDump1, if_neg (h .end1), Option.bind_some,
    if_neg (h .start2), if_neg (h .end2)]

/-- **Between the dumps** such lines are skipped. -/
theorem splitLoop_skip {ls : List (List (BitVec 8))} (h : ∀ line ∈ ls, Quiet line)
    (hstate : v.state = 0) : splitLoop (ls ++ rest) v = splitLoop rest v := by
  induction ls with
  | nil => rfl
  | cons line ls ih =>
    obtain ⟨hline, hls⟩ := List.forall_mem_cons.mp h
    rw [List.cons_append, splitLoop_quiet hline, Vars.copy, if_neg (by omega)]
    exact ih hls

/-- **In a dump** they are copied to its file. -/
theorem splitLoop_copy {ls : List (List (BitVec 8))} (h : ∀ line ∈ ls, Quiet line)
    {f : ResultFile} {text : List (BitVec 8)}
    {files : ResultFile → Option (List (BitVec 8))} (hfile : files f = some text) :
    splitLoop (ls ++ rest) ⟨some ⟨f, false⟩, 1, files⟩
      = splitLoop rest ⟨some ⟨f, false⟩, 1,
          Function.update files f (some (text ++ ls.flatten))⟩ := by
  induction ls generalizing text files with
  | nil =>
    rw [List.flatten_nil, List.append_nil, ← hfile, Function.update_eq_self]
    rfl
  | cons line ls ih =>
    obtain ⟨hline, hls⟩ := List.forall_mem_cons.mp h
    have hcopy : Vars.copy line ⟨some ⟨f, false⟩, 1, files⟩
        = some ⟨some ⟨f, false⟩, 1, Function.update files f (some (text ++ line))⟩ := by
      show some (Vars.mk _ _ (Function.update files f ((files f).map (· ++ line)))) = _
      rw [hfile]
      rfl
    rw [List.cons_append, splitLoop_quiet hline, hcopy, Option.bind_some,
      ih hls (Function.update_self _ _ _), Function.update_idem, List.flatten_cons,
      List.append_assoc]

/-! ## Exceptions -/

/-- **A line that opens a file**, though it may have the markers of ends in it, too. -/
def Opens (line : List (BitVec 8)) : Prop :=
  Marker.start1.In line ∨ ¬ Marker.end1.In line ∧ Marker.start2.In line

/-- Once a file was opened there are no exceptions: whatever is copied is copied to an open
file. -/
theorem splitLoop_ne_none {ls : List (List (BitVec 8))} {fd : FdOutput}
    (hfd : v.fdOutput = some fd) (hopen : v.state = 1 → fd.closed = false) :
    splitLoop ls v ≠ none := by
  induction ls generalizing v fd with
  | nil => exact Option.some_ne_none v
  | cons line ls ih =>
    rw [splitLoop]
    by_cases hstart1 : Marker.start1.In line
    · rw [if_pos hstart1]
      exact ih rfl fun _ => rfl
    rw [if_neg hstart1]
    obtain ⟨v', fd', hend, hfd', hopen'⟩ : ∃ v' fd', v.endDump1 line = some v' ∧
        v'.fdOutput = some fd' ∧ (v'.state = 1 → fd'.closed = false) := by
      unfold Vars.endDump1
      by_cases hend : Marker.end1.In line
      · rw [if_pos hend, Vars.close, hfd]
        exact ⟨_, _, rfl, rfl, fun h => absurd (show 0 = 1 from h) (by decide)⟩
      · rw [if_neg hend]
        exact ⟨v, fd, rfl, hfd, hopen⟩
    rw [hend, Option.bind_some]
    by_cases hstart2 : Marker.start2.In line
    · rw [if_pos hstart2]
      exact ih rfl fun _ => rfl
    rw [if_neg hstart2]
    by_cases hend2 : Marker.end2.In line
    · rw [if_pos hend2, Vars.close, hfd']
      exact Option.some_ne_none _
    rw [if_neg hend2, Vars.copy]
    by_cases hstate : v'.state = 1
    · obtain ⟨f, closed⟩ := fd'
      obtain rfl : closed = false := hopen' hstate
      rw [if_pos hstate, Vars.write, hfd']
      exact ih rfl fun _ => rfl
    · rw [if_neg hstate]
      exact ih hfd' hopen'

/-- With no file open, a line with a marker is an exception if it does not open one. -/
theorem splitLoop_first (hfd : v.fdOutput = none) (hquiet : ¬ Quiet line) :
    splitLoop (line :: rest) v = none ↔ ¬ Opens line := by
  have hclose : v.close = none := by rw [Vars.close, hfd, Option.map_none]
  have hopened : ∀ f, splitLoop rest (v.openFile f) ≠ none := fun f =>
    splitLoop_ne_none rfl fun _ => rfl
  rw [splitLoop]
  by_cases hstart1 : Marker.start1.In line
  · rw [if_pos hstart1]
    exact iff_of_false (hopened _) (not_not.mpr (.inl hstart1))
  rw [if_neg hstart1, Vars.endDump1]
  by_cases hend1 : Marker.end1.In line
  · rw [if_pos hend1, hclose]
    exact iff_of_true rfl (not_or.mpr ⟨hstart1, fun h => h.1 hend1⟩)
  rw [if_neg hend1, Option.bind_some]
  by_cases hstart2 : Marker.start2.In line
  · rw [if_pos hstart2]
    exact iff_of_false (hopened _) (not_not.mpr (.inr ⟨hend1, hstart2⟩))
  rw [if_neg hstart2]
  by_cases hend2 : Marker.end2.In line
  · rw [if_pos hend2]
    exact iff_of_true hclose (not_or.mpr ⟨hstart1, fun h => hstart2 h.2⟩)
  refine (hquiet fun m => ?_).elim
  cases m with
  | start1 => exact hstart1
  | end1 => exact hend1
  | start2 => exact hstart2
  | end2 => exact hend2

/-- The exceptions of the loop, from where no file is open. -/
theorem splitLoop_eq_none_iff (hfd : v.fdOutput = none) (hstate : v.state = 0)
    (ls : List (List (BitVec 8))) :
    splitLoop ls v = none ↔ ∃ pre line post, ls = pre ++ line :: post ∧ (∀ l ∈ pre, Quiet l) ∧
      ¬ Quiet line ∧ ¬ Opens line := by
  induction ls with
  | nil =>
    refine iff_of_false (Option.some_ne_none v) ?_
    rintro ⟨pre, line, post, hnil, -⟩
    exact List.append_ne_nil_of_right_ne_nil _ (List.cons_ne_nil line post) hnil.symm
  | cons line ls ih =>
    by_cases hquiet : Quiet line
    · rw [splitLoop_quiet hquiet, Vars.copy, if_neg (by omega), Option.bind_some, ih]
      constructor
      · rintro ⟨pre, line', post, rfl, hpre, hline⟩
        exact ⟨line :: pre, line', post, rfl, List.forall_mem_cons.mpr ⟨hquiet, hpre⟩, hline⟩
      · rintro ⟨pre, line', post, heq, hpre, hline⟩
        cases pre with
        | nil =>
          obtain ⟨rfl, -⟩ := List.cons.inj heq
          exact absurd hquiet hline.1
        | cons l pre =>
          obtain ⟨-, rfl⟩ := List.cons.inj heq
          exact ⟨pre, line', post, rfl, (List.forall_mem_cons.mp hpre).2, hline⟩
    · rw [splitLoop_first hfd hquiet]
      constructor
      · exact fun h => ⟨[], line, ls, rfl, List.forall_mem_nil _, hquiet, h⟩
      · rintro ⟨pre, line', post, heq, hpre, -, hopens⟩
        cases pre with
        | nil =>
          obtain ⟨rfl, -⟩ := List.cons.inj heq
          exact hopens
        | cons l pre =>
          obtain ⟨rfl, -⟩ := List.cons.inj heq
          exact absurd (List.forall_mem_cons.mp hpre).1 hquiet

/-- **The script fails** exactly if the first line that has a marker in it opens no file. -/
theorem splitSerialOutput_eq_none_iff (input : AsciiText)
    (files : ResultFile → Option (List (BitVec 8))) :
    splitSerialOutput input files = none ↔
      ∃ pre line post, textLines input.bytes = pre ++ line :: post ∧ (∀ l ∈ pre, Quiet l) ∧
        ¬ Quiet line ∧ ¬ Opens line := by
  rw [splitSerialOutput, Option.map_eq_none_iff]
  exact splitLoop_eq_none_iff rfl rfl _

-- the carriage return ends the line with the end in it, before the start is seen
example : (splitSerialOutput
    ⟨charBytes "END PAGE TABLE DUMP 1\rSTART PAGE TABLE DUMP 1\n", by decide⟩
      fun _ => none).isNone := by decide

/-! ## Dumps among other lines -/

/-- **A line of the serial output** that is not about the dumps. -/
structure OtherLine extends AsciiText where
  newline_notMem : newline ∉ bytes
  quiet : Quiet (bytes ++ [newline])

/-- A line as it is sent. -/
def OtherLine.text (l : OtherLine) : List (BitVec 8) := l.bytes ++ [newline]

/-- What `LOG_INFO` sends of a marker. -/
def markerLine (m : Marker) : List (BitVec 8) := infoTag ++ charBytes m.text ++ [newline]

theorem markerLine_ascii (m : Marker) : ∀ b ∈ markerLine m, b.toNat < 128 := by
  cases m <;> decide

theorem OtherLine.text_ascii (ls : List OtherLine) :
    ∀ b ∈ ls.flatMap OtherLine.text, b.toNat < 128 := by
  intro b hb
  obtain ⟨l, -, hb⟩ := List.mem_flatMap.mp hb
  rcases List.mem_append.mp hb with hb | hb
  · exact l.ascii b hb
  · obtain rfl := List.mem_singleton.mp hb
    decide

/-- **The serial output** with two dumps among other lines, and whatever comes after them. -/
def serialOutput (before : List OtherLine) (dump1 : AsciiText) (between : List OtherLine)
    (dump2 rest : AsciiText) : AsciiText where
  bytes := before.flatMap OtherLine.text ++ (markerLine .start1 ++ (dump1.bytes ++
    (markerLine .end1 ++ (between.flatMap OtherLine.text ++ (markerLine .start2 ++
      (dump2.bytes ++ (markerLine .end2 ++ rest.bytes)))))))
  ascii := by
    simp only [List.forall_mem_append]
    exact ⟨OtherLine.text_ascii before, markerLine_ascii _, dump1.ascii, markerLine_ascii _,
      OtherLine.text_ascii between, markerLine_ascii _, dump2.ascii, markerLine_ascii _, rest.ascii⟩

/-- A text without a marker is read as lines without one, wherever its lines end. -/
theorem quiet_of_mem_textLines {text : List (BitVec 8)} (h : Quiet text) :
    ∀ l ∈ textLines text, Quiet l := by
  have hmarker : ∀ m : Marker, newline ∉ charBytes m.text := by
    intro m
    cases m <;> decide
  exact fun l hl m hin => h m (infix_of_infix_line (hmarker m) hl hin)

/-- A logged marker is that marker, and no other one. -/
theorem in_markerLine_iff (m m' : Marker) : m'.In (markerLine m) ↔ m' = m := by
  cases m <;> cases m' <;> decide

/-- The steps at the markers. -/
theorem splitLoop_start1 :
    splitLoop (markerLine .start1 :: rest) v = splitLoop rest (v.openFile .file1) := by
  rw [splitLoop, if_pos ((in_markerLine_iff _ _).mpr rfl)]

theorem splitLoop_end1 {fd : FdOutput} (hfd : v.fdOutput = some fd) :
    splitLoop (markerLine .end1 :: rest) v
      = splitLoop rest ⟨some ⟨fd.file, true⟩, 0, v.files⟩ := by
  have hnot : ∀ m ≠ Marker.end1, ¬ m.In (markerLine .end1) := fun m => mt (in_markerLine_iff _ _).mp
  have hend : v.endDump1 (markerLine .end1) = some ⟨some ⟨fd.file, true⟩, 0, v.files⟩ := by
    rw [Vars.endDump1, if_pos ((in_markerLine_iff _ _).mpr rfl), Vars.close, hfd]
    rfl
  rw [splitLoop, if_neg (hnot _ (by decide)), hend, Option.bind_some, if_neg (hnot _ (by decide)),
    if_neg (hnot _ (by decide))]
  rfl

theorem splitLoop_start2 :
    splitLoop (markerLine .start2 :: rest) v = splitLoop rest (v.openFile .file2) := by
  have hnot : ∀ m ≠ Marker.start2, ¬ m.In (markerLine .start2) := fun m =>
    mt (in_markerLine_iff _ _).mp
  rw [splitLoop, if_neg (hnot _ (by decide)), Vars.endDump1, if_neg (hnot _ (by decide)),
    Option.bind_some, if_pos ((in_markerLine_iff _ _).mpr rfl)]

theorem splitLoop_end2 : splitLoop (markerLine .end2 :: rest) v = v.close := by
  have hnot : ∀ m ≠ Marker.end2, ¬ m.In (markerLine .end2) := fun m => mt (in_markerLine_iff _ _).mp
  rw [splitLoop, if_neg (hnot _ (by decide)), Vars.endDump1, if_neg (hnot _ (by decide)),
    Option.bind_some, if_neg (hnot _ (by decide)), if_pos ((in_markerLine_iff _ _).mpr rfl)]

/-- **The loop cuts the two dumps out**, whatever there was in the files. -/
theorem splitLoop_dumps {before dump1 between dump2 : List (List (BitVec 8))}
    (hbefore : ∀ l ∈ before, Quiet l) (hdump1 : ∀ l ∈ dump1, Quiet l)
    (hbetween : ∀ l ∈ between, Quiet l) (hdump2 : ∀ l ∈ dump2, Quiet l)
    (files : ResultFile → Option (List (BitVec 8))) :
    (splitLoop (before ++ markerLine .start1 :: (dump1 ++ markerLine .end1 ::
        (between ++ markerLine .start2 :: (dump2 ++ markerLine .end2 :: rest))))
          ⟨none, 0, files⟩).map Vars.files
      = some fun f => some (match f with
          | .file1 => dump1.flatten
          | .file2 => dump2.flatten) := by
  rw [splitLoop_skip hbefore rfl, splitLoop_start1]
  unfold Vars.openFile
  rw [splitLoop_copy hdump1 (Function.update_self _ _ _), splitLoop_end1 rfl,
    splitLoop_skip hbetween rfl, splitLoop_start2]
  unfold Vars.openFile
  rw [splitLoop_copy hdump2 (Function.update_self _ _ _), splitLoop_end2]
  refine congrArg some (funext fun f => ?_)
  cases f <;> rfl

theorem textLines_markerLine (m : Marker) (text : List (BitVec 8)) :
    textLines (markerLine m ++ text) = markerLine m :: textLines text := by
  have hnewline : newline ∉ infoTag ++ charBytes m.text := by cases m <;> decide
  have hcr : carriageReturn ∉ infoTag ++ charBytes m.text := by cases m <;> decide
  rw [markerLine, List.append_assoc, List.singleton_append]
  exact textLines_cons hnewline hcr text

/-- What is in no tag and in no line about an entry is in no line of a dump. -/
theorem not_mem_loggedBody {b : BitVec 8} (htag : b ∉ infoTag) (hchars : b ∉ dumpChars)
    (x : List TableIndex × PageTableEntry) : b ∉ infoTag ++ entryLine x := by
  rw [List.mem_append]
  exact not_or.mpr ⟨htag, fun h => hchars (entryLine_subset_dumpChars x h)⟩

/-- The lines of a dump have no marker in them: there is no `U` in them. -/
theorem quiet_loggedLine (x : List TableIndex × PageTableEntry) :
    Quiet (infoTag ++ entryLine x ++ [newline]) := by
  have hmarker : ∀ m : Marker, charByte 'U' ∈ charBytes m.text := by
    intro m
    cases m <;> decide
  intro m hin
  rcases List.mem_append.mp (hin.subset (hmarker m)) with hmem | hmem
  · exact not_mem_loggedBody (by decide) (by decide) x hmem
  · exact absurd hmem (by decide)

/-- **A dump**, as the text that it is. -/
def dumpText (entries : List (List TableIndex × PageTableEntry)) : AsciiText where
  bytes := entries.flatMap loggedLine
  ascii := by
    have hchars : ∀ b ∈ dumpChars, b.toNat < 128 := by decide
    have htag : ∀ b ∈ infoTag, b.toNat < 128 := by decide
    intro b hb
    obtain ⟨x, -, hb⟩ := List.mem_flatMap.mp hb
    rcases List.mem_append.mp hb with hb | hb
    · exact htag b hb
    rcases List.mem_append.mp hb with hb | hb
    · exact hchars b (entryLine_subset_dumpChars x hb)
    · obtain rfl := List.mem_singleton.mp hb
      decide

/-- The lines of a dump, and what comes after it. -/
theorem textLines_dumpText (entries : List (List TableIndex × PageTableEntry))
    (text : List (BitVec 8)) :
    textLines ((dumpText entries).bytes ++ text)
      = (entries.map fun x => infoTag ++ entryLine x ++ [newline]) ++ textLines text := by
  induction entries with
  | nil => rfl
  | cons x entries ih =>
    have hbytes : (dumpText (x :: entries)).bytes ++ text
        = (infoTag ++ entryLine x) ++ newline :: ((dumpText entries).bytes ++ text) := by
      show (x :: entries).flatMap loggedLine ++ text
        = (infoTag ++ entryLine x) ++ newline :: (entries.flatMap loggedLine ++ text)
      rw [List.flatMap_cons, List.append_assoc, loggedLine, List.append_assoc, List.append_assoc,
        List.append_assoc]
      rfl
    rw [hbytes, textLines_cons (not_mem_loggedBody (by decide) (by decide) x)
      (not_mem_loggedBody (by decide) (by decide) x), ih, List.map_cons, List.cons_append]

/-- **The files are the dumps**, byte by byte. -/
theorem splitSerialOutput_dumps (before between : List OtherLine)
    (entries₁ entries₂ : List (List TableIndex × PageTableEntry)) (rest : AsciiText)
    (files : ResultFile → Option (List (BitVec 8))) :
    splitSerialOutput (serialOutput before (dumpText entries₁) between (dumpText entries₂) rest)
        files
      = some fun f => some (match f with
          | .file1 => (dumpText entries₁).bytes
          | .file2 => (dumpText entries₂).bytes) := by
  have hother : ∀ ls : List OtherLine,
      ∀ l ∈ ls.flatMap fun l => textLines (l.bytes ++ [newline]), Quiet l := by
    intro ls l hl
    obtain ⟨other, -, hl⟩ := List.mem_flatMap.mp hl
    exact quiet_of_mem_textLines other.quiet l hl
  have hquiet : ∀ entries : List (List TableIndex × PageTableEntry),
      ∀ l ∈ entries.map fun x => infoTag ++ entryLine x ++ [newline], Quiet l := by
    intro entries l hl
    obtain ⟨x, -, rfl⟩ := List.mem_map.mp hl
    exact quiet_loggedLine x
  have hflatten : ∀ entries : List (List TableIndex × PageTableEntry),
      (entries.map fun x => infoTag ++ entryLine x ++ [newline]).flatten
        = (dumpText entries).bytes := by
    intro entries
    show (entries.map fun x => infoTag ++ entryLine x ++ [newline]).flatten
      = entries.flatMap loggedLine
    rw [← List.flatMap_def]
    exact congrArg (entries.flatMap ·) (funext fun x => List.append_assoc _ _ _)
  have hlines : textLines (serialOutput before (dumpText entries₁) between (dumpText entries₂)
      rest).bytes
      = (before.flatMap fun l => textLines (l.bytes ++ [newline])) ++ markerLine .start1 ::
        ((entries₁.map fun x => infoTag ++ entryLine x ++ [newline]) ++ markerLine .end1 ::
          ((between.flatMap fun l => textLines (l.bytes ++ [newline])) ++ markerLine .start2 ::
            ((entries₂.map fun x => infoTag ++ entryLine x ++ [newline]) ++ markerLine .end2 ::
              textLines rest.bytes))) := by
    unfold serialOutput OtherLine.text
    dsimp only
    rw [textLines_flatMap before, textLines_markerLine, textLines_dumpText, textLines_markerLine,
      textLines_flatMap between, textLines_markerLine, textLines_dumpText, textLines_markerLine]
  rw [splitSerialOutput, hlines, splitLoop_dumps (hother before) (hquiet entries₁)
    (hother between) (hquiet entries₂) files, hflatten, hflatten]

/-! ## From the kernel to the list of pages -/

section Pages

variable {σ : Type} {hhdm : BitVec 64} {pml4 : TablePtr} {s : Machine σ} {L : LogContext}
  {idx idx' : DumpIndices} {out : List (BitVec 8)}

/-- A dump that returned is analysed right exactly if its page table can be. -/
theorem getPages_iff_of_runs
    (h : (pagingDumpPageTable L hhdm s.mem pml4 .pml4 idx).Runs ⟨.info⟩ out idx' ⟨.info⟩) :
    getPages (filterInput out) = some (presentPages hhdm pml4 s) ↔ Analysable hhdm pml4 s := by
  rw [getPages_of_runs le_rfl h, Option.some.injEq, filterMap_analysedPage_iff]
  exact ⟨fun hread => ⟨representable_iff.mp (representable_of_runs h), hread⟩,
    fun ha => ha.leaf_readable⟩

/-- A dump returns, and what it sends is one. -/
theorem exists_runs_dumpText (hrep : Representable hhdm s.mem 4 [] pml4) (idx : DumpIndices) :
    ∃ entries idx', (pagingDumpPageTable L hhdm s.mem pml4 .pml4 idx).Runs ⟨.info⟩
      (dumpText entries).bytes idx' ⟨.info⟩ := by
  obtain ⟨idx', hrun⟩ := pagingDumpPageTable_runs (L := L) (b := ⟨.info⟩) le_rfl hrep idx
  generalize preorder (entrySlot hhdm) s.mem tableIndices 4 [] pml4 = entries at hrun
  exact ⟨entries, idx', hrun⟩

theorem exists_runs_of_analysable (h : Analysable hhdm pml4 s) (idx : DumpIndices) :
    ∃ entries idx', (pagingDumpPageTable L hhdm s.mem pml4 .pml4 idx).Runs ⟨.info⟩
      (dumpText entries).bytes idx' ⟨.info⟩ :=
  exists_runs_dumpText (representable_iff.mpr h.table_lt) idx

/-- What a dump that returned has sent. -/
theorem eq_dumpText_of_runs {text : AsciiText}
    (h : (pagingDumpPageTable L hhdm s.mem pml4 .pml4 idx).Runs ⟨.info⟩ text.bytes idx' ⟨.info⟩) :
    ∃ entries, text = dumpText entries := by
  obtain ⟨entries, _, hrun⟩ := exists_runs_dumpText (L := L) (representable_of_runs h) idx
  exact ⟨entries, AsciiText.ext (h.unique hrun)⟩

/-- What the files hold of two dumps that returned. -/
theorem files_of_runs {s' : Machine σ} {pml4' : TablePtr} {idx'' : DumpIndices}
    {text text' : AsciiText}
    (h : (pagingDumpPageTable L hhdm s.mem pml4 .pml4 idx).Runs ⟨.info⟩ text.bytes idx' ⟨.info⟩)
    (h' : (pagingDumpPageTable L hhdm s'.mem pml4' .pml4 idx').Runs ⟨.info⟩ text'.bytes idx''
      ⟨.info⟩)
    (before between : List OtherLine) (rest : AsciiText)
    (files : ResultFile → Option (List (BitVec 8))) :
    splitSerialOutput (serialOutput before text between text' rest) files
      = some fun f => some (match f with
          | .file1 => text.bytes
          | .file2 => text'.bytes) := by
  obtain ⟨entries, rfl⟩ := eq_dumpText_of_runs h
  obtain ⟨entries', rfl⟩ := eq_dumpText_of_runs h'
  exact splitSerialOutput_dumps before between entries entries' rest files

/-- **From two dumps to their lists of pages.** The kernel dumps two page tables, between
markers and among other lines. The script cuts the serial output up without an exception,
and the analyser lists from each of the two files the present leaves of its page table,
exactly if both page tables can be analysed. -/
theorem splitSerialOutput_analysed_iff (L : LogContext) (hhdm : BitVec 64)
    (pml4 pml4' : TablePtr) (s s' : Machine σ) (idx : DumpIndices)
    (before between : List OtherLine) (rest : AsciiText)
    (files : ResultFile → Option (List (BitVec 8))) :
    (∃ (text text' : AsciiText) (idx' idx'' : DumpIndices)
      (files' : ResultFile → Option (List (BitVec 8))),
      (pagingDumpPageTable L hhdm s.mem pml4 .pml4 idx).Runs ⟨.info⟩ text.bytes idx' ⟨.info⟩ ∧
      (pagingDumpPageTable L hhdm s'.mem pml4' .pml4 idx').Runs ⟨.info⟩ text'.bytes idx''
        ⟨.info⟩ ∧
      splitSerialOutput (serialOutput before text between text' rest) files = some files' ∧
      ((files' .file1).bind fun text => getPages (filterInput text))
        = some (presentPages hhdm pml4 s) ∧
      ((files' .file2).bind fun text => getPages (filterInput text))
        = some (presentPages hhdm pml4' s'))
      ↔ Analysable hhdm pml4 s ∧ Analysable hhdm pml4' s' := by
  constructor
  · rintro ⟨text, text', idx', idx'', files', hrun, hrun', hsplit, hpages, hpages'⟩
    rw [files_of_runs hrun hrun' before between rest files] at hsplit
    obtain rfl := Option.some.inj hsplit
    exact ⟨(getPages_iff_of_runs hrun).mp hpages, (getPages_iff_of_runs hrun').mp hpages'⟩
  · rintro ⟨h, h'⟩
    obtain ⟨entries, idx', hrun⟩ := exists_runs_of_analysable (L := L) h idx
    obtain ⟨entries', idx'', hrun'⟩ := exists_runs_of_analysable (L := L) h' idx'
    exact ⟨dumpText entries, dumpText entries', idx', idx'', _, hrun, hrun',
      files_of_runs hrun hrun' before between rest files, (getPages_iff_of_runs hrun).mpr h,
      (getPages_iff_of_runs hrun').mpr h'⟩

end Pages

end SplitSerialOutput
