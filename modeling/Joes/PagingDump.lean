import Joes.LoggingFormat
import Joes.PagingWalk

/-!
# Dumping page tables

`paging_dump_page_table` goes through the tables and logs a line for each entry
that is present, in the order it comes to them. Its index variables are `static`,
hence a state that is threaded through, and its recursion is unrolled over the
four levels.

The address of the next table is calculated without a cast. The field it is in
has 28 bits, so the shift is one of an `int`, which has no meaning when it
overflows: the dump returns if and only if every table it comes to is below
`2 ^ 31`. If it returns, what it has logged are the lines of the entries in
preorder (`pagingDumpPageTable_runs`, `representable_of_runs`).
-/

open PageTableEntry RadixHeap

/-- The `static` index variables of `paging_dump_page_table`. -/
structure DumpIndices where
  pml4Idx : BitVec 16
  pdprIdx : BitVec 16
  pdIdx : BitVec 16
  ptIdx : BitVec 16

/-- An index as an argument: an `int16_t`, which is promoted to `int`. -/
def vaArgIdx (idx : BitVec 16) : VaArg := .int (idx.signExtend 32)

/-- `raw` as an argument of `%x`. It is passed in 64 bits, and the 32 bits of an
`unsigned int` are taken from them. -/
def vaArgRaw (raw : PageTableEntry) : VaArg := .int (raw.setWidth 32)

/-- `(base_address << 12) + g_hhdm_offset`, of an `int` that is shifted. -/
def dumpTablePtr (hhdm : BitVec 64) (e : PageTableEntry) : Option TablePtr :=
  if e.tableAddress.toNat < 2 ^ 31 then some (e.tableAddress + hhdm) else none

/-- What a message of `paging.c` depends on besides its arguments: the names of
two source files, and the content of the array of `log_formated_str`. -/
structure LogContext where
  loggingFile : CharBuffer
  pagingFile : CharBuffer
  formatString : CharBuffer

section Dump

variable (L : LogContext) (hhdm : BitVec 64) (mem : TablePtr → TableIndex → PageTableEntry)

/-- `LOG_INFO` in `paging.c`. -/
def logInfo (msg : String) (list : List VaArg) : LogProgram Unit :=
  loggingLogMsg L.loggingFile L.formatString .info L.pagingFile (stringLiteral msg) list

/-- The loop over the entries of a table, skipping those that are not present. -/
def dumpPresentEntries (table : TablePtr)
    (body : TableIndex → DumpIndices → LogProgram DumpIndices) :
    List TableIndex → DumpIndices → LogProgram DumpIndices
  | [], s => pure s
  | idx :: idxs, s =>
    if (mem table idx).present = true then do
      let s ← body idx s
      dumpPresentEntries table body idxs s
    else dumpPresentEntries table body idxs s

/-- The body of the loop at level `PT`. -/
def dumpPtEntry (pt : TablePtr) (idx : TableIndex) (s : DumpIndices) :
    LogProgram DumpIndices := do
  let s := { s with ptIdx := idx.setWidth 16 }
  logInfo L "PT-%d-%d-%d@%d: %x"
    [vaArgIdx s.pml4Idx, vaArgIdx s.pdprIdx, vaArgIdx s.pdIdx, vaArgIdx s.ptIdx,
      vaArgRaw (mem pt idx)]
  pure s

/-- `paging_dump_page_table` at level `PT`. -/
def dumpPt (pt : TablePtr) : DumpIndices → LogProgram DumpIndices :=
  dumpPresentEntries mem pt (dumpPtEntry L mem pt) tableIndices

/-- The body of the loop at level `PD`. -/
def dumpPdEntry (pd : TablePtr) (idx : TableIndex) (s : DumpIndices) :
    LogProgram DumpIndices := do
  let s := { s with pdIdx := idx.setWidth 16 }
  if (mem pd idx).pageSize = true then do
    logInfo L "PD-%d-%d@%d: %x (2MB-PAGE)"
      [vaArgIdx s.pml4Idx, vaArgIdx s.pdprIdx, vaArgIdx s.pdIdx, vaArgRaw (mem pd idx)]
    pure s
  else do
    logInfo L "PD-%d-%d@%d: %x"
      [vaArgIdx s.pml4Idx, vaArgIdx s.pdprIdx, vaArgIdx s.pdIdx, vaArgRaw (mem pd idx)]
    let pt ← Traced.ofOption (dumpTablePtr hhdm (mem pd idx))
    dumpPt L mem pt s

/-- `paging_dump_page_table` at level `PD`. -/
def dumpPd (pd : TablePtr) : DumpIndices → LogProgram DumpIndices :=
  dumpPresentEntries mem pd (dumpPdEntry L hhdm mem pd) tableIndices

/-- The body of the loop at level `PDPR`. -/
def dumpPdprEntry (pdpr : TablePtr) (idx : TableIndex) (s : DumpIndices) :
    LogProgram DumpIndices := do
  let s := { s with pdprIdx := idx.setWidth 16 }
  if (mem pdpr idx).pageSize = true then do
    logInfo L "PDPR-%d@%d: %x (1GB-PAGE)"
      [vaArgIdx s.pml4Idx, vaArgIdx s.pdprIdx, vaArgRaw (mem pdpr idx)]
    pure s
  else do
    logInfo L "PDPR-%d@%d: %x"
      [vaArgIdx s.pml4Idx, vaArgIdx s.pdprIdx, vaArgRaw (mem pdpr idx)]
    let pd ← Traced.ofOption (dumpTablePtr hhdm (mem pdpr idx))
    dumpPd L hhdm mem pd s

/-- `paging_dump_page_table` at level `PDPR`. -/
def dumpPdpr (pdpr : TablePtr) : DumpIndices → LogProgram DumpIndices :=
  dumpPresentEntries mem pdpr (dumpPdprEntry L hhdm mem pdpr) tableIndices

/-- The body of the loop at level `PML4`. -/
def dumpPml4Entry (pml4 : TablePtr) (idx : TableIndex) (s : DumpIndices) :
    LogProgram DumpIndices := do
  let s := { s with pml4Idx := idx.setWidth 16 }
  logInfo L "PML4@%d: %x"
    [vaArgIdx s.pml4Idx, vaArgRaw (mem pml4 idx)]
  let pdpr ← Traced.ofOption (dumpTablePtr hhdm (mem pml4 idx))
  dumpPdpr L hhdm mem pdpr s

/-- `paging_dump_page_table` at level `PML4`. -/
def dumpPml4 (pml4 : TablePtr) : DumpIndices → LogProgram DumpIndices :=
  dumpPresentEntries mem pml4 (dumpPml4Entry L hhdm mem pml4) tableIndices

/-- **`paging_dump_page_table`**, with the `static` variables after it. -/
def pagingDumpPageTable (pageTable : TablePtr) (level : PageTableLevel) (s : DumpIndices) :
    LogProgram DumpIndices :=
  match level with
  | .pml4 => dumpPml4 L hhdm mem pageTable s
  | .pdpr => dumpPdpr L hhdm mem pageTable s
  | .pd => dumpPd L hhdm mem pageTable s
  | .pt => dumpPt L mem pageTable s

end Dump

/-! ## The line of an entry -/

/-- The text of an entry: the name of its table, the indices that lead there and
its own, the word, and a note. -/
def entryText (name note : String) (upper : List TableIndex) (i : TableIndex)
    (e : PageTableEntry) : List (BitVec 8) :=
  charBytes name ++ (upper.flatMap fun j => charByte '-' :: numeral 10 j.toNat) ++
    charByte '@' :: numeral 10 i.toNat ++ charBytes ": " ++ numeral 16 (e.setWidth 32).toNat ++
    charBytes note

/-- **The line of an entry** under its path, without the newline. -/
def entryLine : List TableIndex × PageTableEntry → List (BitVec 8)
  | ([i], e) => entryText "PML4" "" [] i e
  | ([a, i], e) => entryText "PDPR" (if e.pageSize = true then " (1GB-PAGE)" else "") [a] i e
  | ([a, b, i], e) => entryText "PD" (if e.pageSize = true then " (2MB-PAGE)" else "") [a, b] i e
  | ([a, b, c, i], e) => entryText "PT" "" [a, b, c] i e
  | _ => []

/-- What is logged about an entry. -/
def loggedLine (x : List TableIndex × PageTableEntry) : List (BitVec 8) :=
  infoTag ++ (entryLine x ++ [charByte '\n'])

/-- The items of an index, after a character. -/
def indexItems (c : BitVec 8) (hc : c ≠ charByte '%') (i : TableIndex) : List FormatItem :=
  [.literal c hc, .conversion [] (.int1 ((i.setWidth 16).signExtend 32))]

theorem toInt_index (i : TableIndex) : ((i.setWidth 16).signExtend 32).toInt = i.toNat := by
  have hlt := i.isLt
  rw [BitVec.toInt_signExtend_of_le (by decide), BitVec.toInt_eq_toNat_of_lt,
    BitVec.toNat_setWidth_of_le (by decide)]
  rw [BitVec.toNat_setWidth_of_le (by decide)]
  omega

theorem written_indexItems (c : BitVec 8) (hc : c ≠ charByte '%') (i : TableIndex) :
    (indexItems c hc i).flatMap FormatItem.written = c :: numeral 10 i.toNat := by
  show c :: (((if ((i.setWidth 16).signExtend 32).toInt < 0 then [charByte '-'] else []) ++
    numeral 10 ((i.setWidth 16).signExtend 32).toInt.natAbs) ++ []) = _
  rw [toInt_index, if_neg (by omega), List.nil_append, List.append_nil, Int.natAbs_natCast]

/-- The items of a line. -/
def entryItems (name note : List (BitVec 8)) (hname : ∀ c ∈ name, c ≠ charByte '%')
    (hnote : ∀ c ∈ note, c ≠ charByte '%') (upper : List TableIndex) (i : TableIndex)
    (e : PageTableEntry) : List FormatItem :=
  literalItems name hname ++ upper.flatMap (indexItems (charByte '-') (by decide)) ++
    indexItems (charByte '@') (by decide) i ++
    literalItems (charBytes ": ") (by decide) ++ [.conversion [] (.hex (e.setWidth 32))] ++
    literalItems note hnote

theorem written_entryItems {name note : String} (hname : ∀ c ∈ charBytes name, c ≠ charByte '%')
    (hnote : ∀ c ∈ charBytes note, c ≠ charByte '%') (upper : List TableIndex) (i : TableIndex)
    (e : PageTableEntry) :
    (entryItems (charBytes name) (charBytes note) hname hnote upper i e).flatMap
        FormatItem.written
      = entryText name note upper i e := by
  have hhex : ([.conversion [] (.hex (e.setWidth 32))] : List FormatItem).flatMap
      FormatItem.written = numeral 16 (e.setWidth 32).toNat := List.append_nil _
  rw [entryItems, entryText]
  simp only [List.flatMap_append, flatMap_written_literalItems, List.flatMap_assoc,
    written_indexItems, hhex]

theorem args_entryItems {name note : List (BitVec 8)} (hname : ∀ c ∈ name, c ≠ charByte '%')
    (hnote : ∀ c ∈ note, c ≠ charByte '%') (upper : List TableIndex) (i : TableIndex)
    (e : PageTableEntry) :
    (entryItems name note hname hnote upper i e).flatMap FormatItem.args
      = upper.map (fun j => vaArgIdx (j.setWidth 16)) ++
        [vaArgIdx (i.setWidth 16), vaArgRaw e] := by
  have hindex : ∀ c hc (j : TableIndex),
      (indexItems c hc j).flatMap FormatItem.args = [vaArgIdx (j.setWidth 16)] :=
    fun _ _ _ => rfl
  have hhex : ([.conversion [] (.hex (e.setWidth 32))] : List FormatItem).flatMap
      FormatItem.args = [vaArgRaw e] := rfl
  rw [entryItems]
  simp only [List.flatMap_append, flatMap_args_literalItems, List.flatMap_assoc, hindex, hhex,
    List.nil_append, List.append_nil]
  rw [List.map_eq_flatMap, List.append_assoc]
  rfl

/-- **A line is logged**, if its format string is made like it. -/
theorem logInfo_entry_runs (L : LogContext) {b : LoggingBackend}
    (hlevel : b.level.value ≤ LoggingLevel.info.value) {msg : String} (name note : String)
    (hname : ∀ c ∈ charBytes name, c ≠ charByte '%')
    (hnote : ∀ c ∈ charBytes note, c ≠ charByte '%') (upper : List TableIndex) (i : TableIndex)
    (e : PageTableEntry) {list : List VaArg}
    (hmsg : (stringLiteral msg).Holds (charBytes name ++
      (upper.flatMap fun _ => charBytes "-%d") ++ charBytes "@%d: %x" ++ charBytes note))
    (hlist : list = upper.map (fun j => vaArgIdx (j.setWidth 16)) ++
      [vaArgIdx (i.setWidth 16), vaArgRaw e]) :
    (logInfo L msg list).Runs b
      (infoTag ++ (entryText name note upper i e ++ [charByte '\n'])) () b := by
  have hbytes : (entryItems (charBytes name) (charBytes note) hname hnote upper i e).flatMap
      FormatItem.bytes = charBytes name ++ (upper.flatMap fun _ => charBytes "-%d") ++
        charBytes "@%d: %x" ++ charBytes note := by
    have hindex : ∀ j, (indexItems (charByte '-') (by decide) j).flatMap FormatItem.bytes
        = charBytes "-%d" := fun _ => rfl
    rw [entryItems]
    simp only [List.flatMap_append, flatMap_bytes_literalItems, List.flatMap_assoc, hindex,
      List.append_assoc]
    rfl
  rw [← hbytes] at hmsg
  have hrun := loggingLogMsg_info_runs L.loggingFile L.formatString L.pagingFile hlevel [] hmsg
  rwa [args_entryItems, written_entryItems, List.append_nil, ← hlist] at hrun

/-! ## The loop -/

section Runs

variable {L : LogContext} {hhdm : BitVec 64} {mem : TablePtr → TableIndex → PageTableEntry}
variable {table : TablePtr} {body : TableIndex → DumpIndices → LogProgram DumpIndices}
variable {b b' : LoggingBackend} {s s' : DumpIndices} {out : List (BitVec 8)}

/-- **The loop runs** as its body does for each entry that is present. What holds
of the index variables before and after each body is `Q`. -/
theorem dumpPresentEntries_runs {Q : DumpIndices → Prop} {line : TableIndex → List (BitVec 8)}
    (hbody : ∀ idx s, (mem table idx).present = true → Q s →
      ∃ s', Q s' ∧ (body idx s).Runs b (line idx) s' b)
    (idxs : List TableIndex) (hs : Q s) :
    ∃ s', Q s' ∧ (dumpPresentEntries mem table body idxs s).Runs b
      (idxs.flatMap fun idx => if (mem table idx).present = true then line idx else []) s' b := by
  induction idxs generalizing s with
  | nil => exact ⟨s, hs, Traced.runs_pure.mpr ⟨rfl, rfl, rfl⟩⟩
  | cons idx idxs ih =>
    rw [dumpPresentEntries, List.flatMap_cons]
    split
    · next hp =>
      obtain ⟨s₁, hs₁, hrun⟩ := hbody idx s hp hs
      obtain ⟨s', hs', hrest⟩ := ih hs₁
      exact ⟨s', hs', hrun.seq hrest⟩
    · exact ih hs

/-- In a run of the loop the body runs for each entry that is present. -/
theorem exists_runs_of_dumpPresentEntries {idxs : List TableIndex} {idx : TableIndex}
    (h : (dumpPresentEntries mem table body idxs s).Runs b out s' b') (hidx : idx ∈ idxs)
    (hp : (mem table idx).present = true) :
    ∃ s₁ b₁ out₁ s₂ b₂, (body idx s₁).Runs b₁ out₁ s₂ b₂ := by
  induction idxs generalizing s b out with
  | nil => cases hidx
  | cons i idxs ih =>
    rw [dumpPresentEntries] at h
    split at h
    · obtain ⟨s₁, b₁, t₁, t₂, hbody, hrest, -⟩ := h.bind
      rcases List.mem_cons.mp hidx with rfl | hidx
      · exact ⟨s, b, t₁, s₁, b₁, hbody⟩
      · exact ih hrest hidx
    · next hi =>
      rcases List.mem_cons.mp hidx with rfl | hidx
      · exact absurd hp hi
      · exact ih h hidx

/-! ## The four levels -/

variable (hhdm mem) in
/-- **The tables that can be dumped**: those below a table, up to `n` tables deep,
have an address that an `int` can hold. -/
def Representable (n : ℕ) (p : List TableIndex) (t : TablePtr) : Prop :=
  ∀ x ∈ preorder (entrySlot hhdm) mem tableIndices n p t, ∀ c,
    entrySlot hhdm (x.1.length - 1) x.2 = .table c → (c - hhdm).toNat < 2 ^ 31

theorem representable_succ {n : ℕ} {p : List TableIndex} {t : TablePtr} :
    Representable hhdm mem (n + 1) p t ↔ ∀ i c, entrySlot hhdm p.length (mem t i) = .table c →
      (c - hhdm).toNat < 2 ^ 31 ∧ Representable hhdm mem n (p ++ [i]) c := by
  constructor
  · intro h i c hc
    refine ⟨h (p ++ [i], mem t i) (mem_preorder_succ.mpr ⟨i, mem_tableIndices i, .inl ⟨?_, rfl⟩⟩) c
      (by simpa using hc), fun x hx => h x (mem_preorder_succ.mpr
        ⟨i, mem_tableIndices i, .inr ⟨c, hc, hx⟩⟩)⟩
    rw [hc]
    simp
  · intro h x hx c hc
    obtain ⟨i, -, ⟨-, rfl⟩ | ⟨d, hd, hx⟩⟩ := mem_preorder_succ.mp hx
    · exact (h i c (by simpa using hc)).1
    · exact (h i d hd).2 x hx c hc

/-- The pointer to a table is calculated if an `int` can hold its address. -/
theorem dumpTablePtr_eq_some_iff {d : ℕ} {e : PageTableEntry} {c t : TablePtr}
    (h : entrySlot hhdm d e = .table c) :
    dumpTablePtr hhdm e = some t ↔ (c - hhdm).toNat < 2 ^ 31 ∧ c = t := by
  obtain ⟨-, -, -, rfl⟩ := of_entrySlot_eq_table h
  rw [dumpTablePtr, BitVec.add_sub_cancel]
  split
  · next hlt => rw [Option.some.injEq, and_iff_right hlt]
  · next hlt => exact iff_of_false nofun fun h => hlt h.1

/-- **A table is dumped** line by line, with what is below it. -/
theorem dumpTable_runs {n : ℕ} {p : List TableIndex} {Q : DumpIndices → Prop} (hp : p.length ≤ 3)
    (hleaf : ∀ i s v, entrySlot hhdm p.length (mem table i) = .leaf v → Q s →
      ∃ s', Q s' ∧ (body i s).Runs b (loggedLine (p ++ [i], mem table i)) s' b)
    (htable : ∀ i s c, entrySlot hhdm p.length (mem table i) = .table c → Q s →
      ∃ s', Q s' ∧ (body i s).Runs b (loggedLine (p ++ [i], mem table i) ++
        (preorder (entrySlot hhdm) mem tableIndices n (p ++ [i]) c).flatMap loggedLine) s' b)
    (hs : Q s) :
    ∃ s', Q s' ∧ (dumpPresentEntries mem table body tableIndices s).Runs b
      ((preorder (entrySlot hhdm) mem tableIndices (n + 1) p table).flatMap loggedLine) s' b := by
  let entries : TableIndex → List (List TableIndex × PageTableEntry) := fun i =>
    (entrySlot hhdm p.length (mem table i)).visit (p ++ [i], mem table i)
      (preorder (entrySlot hhdm) mem tableIndices n (p ++ [i]))
  have hbody : ∀ i s, (mem table i).present = true → Q s →
      ∃ s', Q s' ∧ (body i s).Runs b ((entries i).flatMap loggedLine) s' b := by
    intro i s hpresent hs
    cases hslot : entrySlot hhdm p.length (mem table i) with
    | empty => exact absurd hpresent (by simp [(entrySlot_eq_empty_iff hp).mp hslot])
    | table c =>
      obtain ⟨s', hs', hrun⟩ := htable i s c hslot hs
      refine ⟨s', hs', ?_⟩
      simp only [entries, hslot, Slot.visit, List.flatMap_cons]
      exact hrun
    | leaf v =>
      -- nothing is below a leaf, so its line is all there is
      obtain ⟨s', hs', hrun⟩ := hleaf i s v hslot hs
      refine ⟨s', hs', ?_⟩
      simp only [entries, hslot, Slot.visit, List.flatMap_singleton]
      exact hrun
  have hentries : ∀ i, (if (mem table i).present = true then (entries i).flatMap loggedLine else [])
      = (entries i).flatMap loggedLine := by
    intro i
    split
    · rfl
    · next hpresent =>
      have hslot : entrySlot hhdm p.length (mem table i) = .empty :=
        entrySlot_of_not_present (by simpa using hpresent) p.length
      simp only [entries, hslot, Slot.visit, List.flatMap_nil]
  obtain ⟨s', hs', hrun⟩ := dumpPresentEntries_runs hbody tableIndices hs
  refine ⟨s', hs', ?_⟩
  rw [preorder, List.flatMap_assoc, ← funext hentries]
  exact hrun

variable (hlevel : b.level.value ≤ LoggingLevel.info.value)

include hlevel in
/-- **The dump of a PT.** -/
theorem dumpPt_runs {i j k : TableIndex} {pt : TablePtr}
    (hs : s.pml4Idx = i.setWidth 16 ∧ s.pdprIdx = j.setWidth 16 ∧ s.pdIdx = k.setWidth 16) :
    ∃ s', (s'.pml4Idx = i.setWidth 16 ∧ s'.pdprIdx = j.setWidth 16 ∧ s'.pdIdx = k.setWidth 16) ∧
      (dumpPt L mem pt s).Runs b
        ((preorder (entrySlot hhdm) mem tableIndices 1 [i, j, k] pt).flatMap loggedLine) s' b := by
  refine dumpTable_runs (p := [i, j, k]) le_rfl (fun l s v _ hs => ?_) (fun l s c hc => ?_) hs
  · obtain ⟨hi, hj, hk⟩ := hs
    refine ⟨{ s with ptIdx := l.setWidth 16 }, ⟨hi, hj, hk⟩, ?_⟩
    refine (logInfo_entry_runs L hlevel "PT" "" (by decide) (by decide) [i, j, k] l (mem pt l)
      (holds_stringLiteral (by decide) (by decide)) ?_).seq_pure
    rw [hi, hj, hk]
    rfl
  · obtain ⟨hd, -⟩ := of_entrySlot_eq_table hc
    exact absurd hd (Nat.lt_irrefl 2)

include hlevel in
/-- **The dump of a PD.** -/
theorem dumpPd_runs {i j : TableIndex} {pd : TablePtr}
    (hrep : Representable hhdm mem 2 [i, j] pd)
    (hs : s.pml4Idx = i.setWidth 16 ∧ s.pdprIdx = j.setWidth 16) :
    ∃ s', (s'.pml4Idx = i.setWidth 16 ∧ s'.pdprIdx = j.setWidth 16) ∧
      (dumpPd L hhdm mem pd s).Runs b
        ((preorder (entrySlot hhdm) mem tableIndices 2 [i, j] pd).flatMap loggedLine) s' b := by
  refine dumpTable_runs (p := [i, j]) (by simp) (fun k s v hv hs => ?_) (fun k s c hc hs => ?_) hs
  · -- a page of 2 MB: the loop goes on to the next entry
    obtain ⟨hi, hj⟩ := hs
    obtain ⟨-, -, -, hsize, -⟩ := of_entrySlot_eq_leaf hv
    have hlarge : (mem pd k).pageSize = true := hsize (by simp)
    refine ⟨{ s with pdIdx := k.setWidth 16 }, ⟨hi, hj⟩, ?_⟩
    have hline : loggedLine ([i, j] ++ [k], mem pd k) = infoTag ++
        (entryText "PD" " (2MB-PAGE)" [i, j] k (mem pd k) ++ [charByte '\n']) := by
      simp [loggedLine, entryLine, hlarge]
    rw [hline, dumpPdEntry, if_pos hlarge]
    refine (logInfo_entry_runs L hlevel "PD" " (2MB-PAGE)" (by decide) (by decide) [i, j] k
      (mem pd k) (holds_stringLiteral (by decide) (by decide)) ?_).seq_pure
    rw [hi, hj]
    rfl
  · -- a PT: its line, and then the PT
    obtain ⟨hi, hj⟩ := hs
    obtain ⟨-, -, hsize, -⟩ := of_entrySlot_eq_table hc
    have hsmall : (mem pd k).pageSize = false := hsize (by simp)
    have hptr := (dumpTablePtr_eq_some_iff hc).mpr ⟨(representable_succ.mp hrep k c hc).1, rfl⟩
    obtain ⟨s', ⟨hi', hj', -⟩, hrun⟩ : ∃ s', _ ∧
        (dumpPt L mem c { s with pdIdx := k.setWidth 16 }).Runs b _ s' b :=
      dumpPt_runs hlevel ⟨hi, hj, rfl⟩
    refine ⟨s', ⟨hi', hj'⟩, ?_⟩
    have hline : loggedLine ([i, j] ++ [k], mem pd k) = infoTag ++
        (entryText "PD" "" [i, j] k (mem pd k) ++ [charByte '\n']) := by
      simp [loggedLine, entryLine, hsmall]
    rw [hline, dumpPdEntry, if_neg (by rw [hsmall]; exact Bool.false_ne_true), hptr]
    refine (logInfo_entry_runs L hlevel "PD" "" (by decide) (by decide) [i, j] k (mem pd k)
      (holds_stringLiteral (by decide) (by decide)) ?_).seq ?_
    · rw [hi, hj]
      rfl
    · refine Traced.Runs.some_seq ?_
      exact hrun

include hlevel in
/-- **The dump of a PDPR.** -/
theorem dumpPdpr_runs {i : TableIndex} {pdpr : TablePtr}
    (hrep : Representable hhdm mem 3 [i] pdpr) (hs : s.pml4Idx = i.setWidth 16) :
    ∃ s', s'.pml4Idx = i.setWidth 16 ∧
      (dumpPdpr L hhdm mem pdpr s).Runs b
        ((preorder (entrySlot hhdm) mem tableIndices 3 [i] pdpr).flatMap loggedLine) s' b := by
  refine dumpTable_runs (p := [i]) (by simp) (fun j s v hv hs => ?_) (fun j s c hc hs => ?_) hs
  · -- a page of 1 GB
    obtain ⟨-, -, -, hsize, -⟩ := of_entrySlot_eq_leaf hv
    have hlarge : (mem pdpr j).pageSize = true := hsize (by simp)
    refine ⟨{ s with pdprIdx := j.setWidth 16 }, hs, ?_⟩
    have hline : loggedLine ([i] ++ [j], mem pdpr j) = infoTag ++
        (entryText "PDPR" " (1GB-PAGE)" [i] j (mem pdpr j) ++ [charByte '\n']) := by
      simp [loggedLine, entryLine, hlarge]
    rw [hline, dumpPdprEntry, if_pos hlarge]
    refine (logInfo_entry_runs L hlevel "PDPR" " (1GB-PAGE)" (by decide) (by decide) [i] j
      (mem pdpr j) (holds_stringLiteral (by decide) (by decide)) ?_).seq_pure
    rw [hs]
    rfl
  · -- a PD: its line, and then the PD
    obtain ⟨-, -, hsize, -⟩ := of_entrySlot_eq_table hc
    have hsmall : (mem pdpr j).pageSize = false := hsize (by simp)
    obtain ⟨hlt, hbelow⟩ := representable_succ.mp hrep j c hc
    have hptr := (dumpTablePtr_eq_some_iff hc).mpr ⟨hlt, rfl⟩
    obtain ⟨s', ⟨hs', -⟩, hrun⟩ : ∃ s', _ ∧
        (dumpPd L hhdm mem c { s with pdprIdx := j.setWidth 16 }).Runs b _ s' b :=
      dumpPd_runs hlevel hbelow ⟨hs, rfl⟩
    refine ⟨s', hs', ?_⟩
    have hline : loggedLine ([i] ++ [j], mem pdpr j) = infoTag ++
        (entryText "PDPR" "" [i] j (mem pdpr j) ++ [charByte '\n']) := by
      simp [loggedLine, entryLine, hsmall]
    rw [hline, dumpPdprEntry, if_neg (by rw [hsmall]; exact Bool.false_ne_true), hptr]
    refine (logInfo_entry_runs L hlevel "PDPR" "" (by decide) (by decide) [i] j (mem pdpr j)
      (holds_stringLiteral (by decide) (by decide)) ?_).seq ?_
    · rw [hs]
      rfl
    · refine Traced.Runs.some_seq ?_
      exact hrun

include hlevel in
/-- **The dump of a PML4** logs the lines of its entries in preorder, if it comes
to no table that it cannot find. -/
theorem pagingDumpPageTable_runs {pml4 : TablePtr} (hrep : Representable hhdm mem 4 [] pml4)
    (s : DumpIndices) :
    ∃ s', (pagingDumpPageTable L hhdm mem pml4 .pml4 s).Runs b
      ((preorder (entrySlot hhdm) mem tableIndices 4 [] pml4).flatMap loggedLine) s' b := by
  have hrun : ∃ s', True ∧ (dumpPresentEntries mem pml4 (dumpPml4Entry L hhdm mem pml4)
      tableIndices s).Runs b
        ((preorder (entrySlot hhdm) mem tableIndices 4 [] pml4).flatMap loggedLine) s' b := by
    refine dumpTable_runs (p := []) (Q := fun _ => True) (by simp) (fun i s v hv _ => ?_)
      (fun i s c hc _ => ?_) trivial
    · -- a PML4 has no leaves, whatever its bits say
      obtain ⟨hd, -⟩ := of_entrySlot_eq_leaf hv
      exact absurd hd (by simp)
    · obtain ⟨hlt, hbelow⟩ := representable_succ.mp hrep i c hc
      have hptr := (dumpTablePtr_eq_some_iff hc).mpr ⟨hlt, rfl⟩
      obtain ⟨s', -, hrun⟩ : ∃ s', _ ∧
          (dumpPdpr L hhdm mem c { s with pml4Idx := i.setWidth 16 }).Runs b _ s' b :=
        dumpPdpr_runs hlevel hbelow rfl
      refine ⟨s', trivial, ?_⟩
      have hline : loggedLine ([] ++ [i], mem pml4 i) = infoTag ++
          (entryText "PML4" "" [] i (mem pml4 i) ++ [charByte '\n']) := rfl
      rw [hline, dumpPml4Entry, hptr]
      refine (logInfo_entry_runs L hlevel "PML4" "" (by decide) (by decide) [] i (mem pml4 i)
        (holds_stringLiteral (by decide) (by decide)) rfl).seq ?_
      refine Traced.Runs.some_seq ?_
      exact hrun
  obtain ⟨s', -, hrun⟩ := hrun
  exact ⟨s', hrun⟩

/-! ## The tables of a dump that returns -/

/-- A step to the next table that returns finds it. -/
theorem next_of_runs {d : ℕ} {e : PageTableEntry} {c : TablePtr} {m : LogProgram Unit}
    {f : TablePtr → LogProgram DumpIndices} (hc : entrySlot hhdm d e = .table c)
    (h : (m >>= fun _ => Traced.ofOption (dumpTablePtr hhdm e) >>= f).Runs b out s' b') :
    (c - hhdm).toNat < 2 ^ 31 ∧ ∃ b₁ out₁, (f c).Runs b₁ out₁ s' b' := by
  obtain ⟨-, b₁, t₁, t₂, -, hnext, -⟩ := h.bind
  obtain ⟨t, ht, hrun⟩ := hnext.exists_of_option
  obtain ⟨hlt, rfl⟩ := (dumpTablePtr_eq_some_iff hc).mp ht
  exact ⟨hlt, b₁, t₂, hrun⟩

/-- A table that is dumped can be, if what its entries name can. -/
theorem representable_of_dumpPresentEntries {n : ℕ} {p : List TableIndex}
    (hbody : ∀ i c s b out s' b', entrySlot hhdm p.length (mem table i) = .table c →
      (body i s).Runs b out s' b' →
      (c - hhdm).toNat < 2 ^ 31 ∧ Representable hhdm mem n (p ++ [i]) c)
    (h : (dumpPresentEntries mem table body tableIndices s).Runs b out s' b') :
    Representable hhdm mem (n + 1) p table := by
  refine representable_succ.mpr fun i c hc => ?_
  obtain ⟨-, hpresent, -⟩ := of_entrySlot_eq_table hc
  obtain ⟨s₁, b₁, out₁, s₂, b₂, hrun⟩ :=
    exists_runs_of_dumpPresentEntries h (mem_tableIndices i) hpresent
  exact hbody i c s₁ b₁ out₁ s₂ b₂ hc hrun

/-- A PT names no table. -/
theorem representable_pt (i j k : TableIndex) (pt : TablePtr) :
    Representable hhdm mem 1 [i, j, k] pt := by
  refine representable_succ.mpr fun l c hc => ?_
  obtain ⟨hd, -⟩ := of_entrySlot_eq_table hc
  exact absurd hd (Nat.lt_irrefl 2)

theorem representable_of_dumpPd {i j : TableIndex} {pd : TablePtr}
    (h : (dumpPd L hhdm mem pd s).Runs b out s' b') : Representable hhdm mem 2 [i, j] pd := by
  rw [dumpPd] at h
  refine representable_of_dumpPresentEntries (p := [i, j]) (fun k c s b out s' b' hc hrun => ?_) h
  obtain ⟨-, -, hsize, -⟩ := of_entrySlot_eq_table hc
  rw [dumpPdEntry, if_neg (by rw [hsize (by simp)]; exact Bool.false_ne_true)] at hrun
  obtain ⟨hlt, -⟩ := next_of_runs hc hrun
  exact ⟨hlt, representable_pt i j k c⟩

theorem representable_of_dumpPdpr {i : TableIndex} {pdpr : TablePtr}
    (h : (dumpPdpr L hhdm mem pdpr s).Runs b out s' b') : Representable hhdm mem 3 [i] pdpr := by
  rw [dumpPdpr] at h
  refine representable_of_dumpPresentEntries (p := [i]) (fun j c s b out s' b' hc hrun => ?_) h
  obtain ⟨-, -, hsize, -⟩ := of_entrySlot_eq_table hc
  rw [dumpPdprEntry, if_neg (by rw [hsize (by simp)]; exact Bool.false_ne_true)] at hrun
  obtain ⟨hlt, b₁, out₁, hnext⟩ := next_of_runs hc hrun
  exact ⟨hlt, representable_of_dumpPd hnext⟩

/-- **A dump that returns** has come to no table that it cannot find. -/
theorem representable_of_runs {pml4 : TablePtr}
    (h : (pagingDumpPageTable L hhdm mem pml4 .pml4 s).Runs b out s' b') :
    Representable hhdm mem 4 [] pml4 := by
  rw [pagingDumpPageTable, dumpPml4] at h
  refine representable_of_dumpPresentEntries (p := []) (fun i c s b out s' b' hc hrun => ?_) h
  rw [dumpPml4Entry] at hrun
  obtain ⟨hlt, b₁, out₁, hnext⟩ := next_of_runs hc hrun
  exact ⟨hlt, representable_of_dumpPdpr hnext⟩

/-- **The entries of a PML4** are those on the paths of its tree. -/
theorem mem_preorder_pml4_iff {pml4 : TablePtr} {x : List TableIndex × PageTableEntry} :
    x ∈ preorder (entrySlot hhdm) mem tableIndices 4 [] pml4 ↔
      ∃ q i u, x = (q ++ [i], mem u i) ∧ pageSlot hhdm mem pml4 q = .table u ∧
        pageSlot hhdm mem pml4 (q ++ [i]) ≠ .empty := by
  rw [mem_preorder_iff mem_tableIndices slotAt_nil]
  simp only [List.nil_append]
  refine exists_congr fun q => exists_congr fun i => exists_congr fun u => ?_
  exact and_congr_right fun _ => and_iff_right_of_imp fun ⟨hu, _⟩ =>
    Nat.lt_succ_of_le (length_le_of_pageSlot_table hu)

/-- In the tree of a PML4 it is its tables that are to be found, but for the PML4. -/
theorem representable_iff {pml4 : TablePtr} :
    Representable hhdm mem 4 [] pml4 ↔ ∀ p t, p ≠ [] → pageSlot hhdm mem pml4 p = .table t →
      (t - hhdm).toNat < 2 ^ 31 := by
  have hlength : ∀ (q : List TableIndex) i, (q ++ [i]).length - 1 = q.length := by simp
  constructor
  · intro h p t hne ht
    obtain ⟨q, i, rfl⟩ := (List.eq_nil_or_concat' p).resolve_left hne
    have hfound : pageSlot hhdm mem pml4 (q ++ [i]) ≠ .empty := by rw [ht]; simp
    obtain ⟨u, hu, hread⟩ := exists_table_of_snoc hfound
    refine h (q ++ [i], mem u i) (mem_preorder_pml4_iff.mpr ⟨q, i, u, rfl, hu, hfound⟩) t ?_
    rw [hlength, ← hread]
    exact ht
  · intro h x hx c hc
    obtain ⟨q, i, u, rfl, hu, -⟩ := mem_preorder_pml4_iff.mp hx
    rw [hlength] at hc
    exact h (q ++ [i]) c (by simp) ((slotAt_snoc_of_table hu i).trans hc)

end Runs
