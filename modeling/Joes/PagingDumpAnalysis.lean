import Joes.AnalyzePtDump
import Joes.PagingDump
import Joes.PagingRefinement

/-!
# Dumping and analysing page tables

`paging_dump_page_table` writes the lines that `analyze_pt_dump.py` reads. The two
were written apart, and what has to fit together is the tag of the logger and the
part of a line that is skipped, the separators of the indices, the numerals, and
the place of the address in the word of an entry.

A line is read as the page of its entry or dropped (`getPagesLoop_line`), so of a
dump there is left what `analysedPage` makes of each entry. What should be left are
the present leaves, in the order of their addresses (`mem_presentPages_iff`,
`pairwise_presentPages`). The two lists are the same for the page tables that are
`Analysable`, and for no others (`pagingDumpPageTable_analysed_iff`): pages of 1 GB
are dropped, of a word the lower 32 bits are printed, and bit 11 of it is taken for
a part of the address.
-/

open PageTableEntry RadixHeap TextReading AnalyzePtDump

/-! ## The pieces of a line -/

/-- The characters of the lines about entries. -/
def dumpChars : List (BitVec 8) := charBytes "0123456789abcdefPMLDRT-@: (GBAE)"

theorem entryText_subset_dumpChars {name note : String} (hname : charBytes name ⊆ dumpChars)
    (hnote : charBytes note ⊆ dumpChars) (upper : List TableIndex) (i : TableIndex)
    (e : PageTableEntry) : entryText name note upper i e ⊆ dumpChars := by
  have hdigit : ∀ d : Fin 16, digitChar d ∈ dumpChars := by decide
  have hnumeral : ∀ {base n : ℕ}, 2 ≤ base → base ≤ 16 → numeral base n ⊆ dumpChars := by
    intro base n hbase hbase' b hb
    obtain ⟨d, hd, rfl⟩ := mem_numeral hbase hb
    exact hdigit ⟨d, hd.trans_le hbase'⟩
  have hupper : (upper.flatMap fun j => charByte '-' :: numeral 10 j.toNat) ⊆ dumpChars := by
    intro b hb
    obtain ⟨j, -, hb⟩ := List.mem_flatMap.mp hb
    exact List.cons_subset.mpr ⟨by decide, hnumeral (by decide) (by decide)⟩ hb
  have hindex : charByte '@' :: numeral 10 i.toNat ⊆ dumpChars :=
    List.cons_subset.mpr ⟨by decide, hnumeral (by decide) (by decide)⟩
  have hpair : charBytes ": " ⊆ dumpChars := by decide
  unfold entryText
  simp only [List.append_subset]
  exact ⟨⟨⟨⟨⟨hname, hupper⟩, hindex⟩, hpair⟩, hnumeral (by decide) (by decide)⟩, hnote⟩

/-- **The alphabet of a dump**, which has no newline in it, nor a carriage return. -/
theorem entryLine_subset_dumpChars (x : List TableIndex × PageTableEntry) :
    entryLine x ⊆ dumpChars := by
  unfold entryLine
  split
  · exact entryText_subset_dumpChars (by decide) (by decide) _ _ _
  · split <;> exact entryText_subset_dumpChars (by decide) (by decide) _ _ _
  · split <;> exact entryText_subset_dumpChars (by decide) (by decide) _ _ _
  · exact entryText_subset_dumpChars (by decide) (by decide) _ _ _
  · exact List.nil_subset _

theorem newline_not_mem_entryLine (x : List TableIndex × PageTableEntry) :
    newline ∉ entryLine x := fun h =>
  absurd (entryLine_subset_dumpChars x h) (by decide)

/-- The number that the analyser makes of the word in a line. -/
def printedBase (e : PageTableEntry) : ℕ :=
  Nat.ldiff (e.setWidth 32).toNat 0x7ff &&& 0xffffffffff

/-- **The page that the analyser makes of an entry**, if any. -/
def analysedPage : List TableIndex × PageTableEntry → Option Page
  | ([a, b, c], e) =>
    if e.pageSize = true then
      some ⟨(pagingGetVirtAddressFromIndices a b c 0).toNat, printedBase e, .mb2⟩
    else none
  | ([a, b, c, d], e) =>
    some ⟨(pagingGetVirtAddressFromIndices a b c d).toNat, printedBase e, .kb4⟩
  | _ => none

/-- **Both sides assemble the same address.** -/
theorem virtAddressOfIndices_eq (a b c d : TableIndex) :
    virtAddressOfIndices a.toNat b.toNat c.toNat d.toNat
      = (pagingGetVirtAddressFromIndices a b c d).toNat := by
  have hshift : ∀ (i : TableIndex) (k : ℕ), k ≤ 55 →
      ((i.setWidth 64 : BitVec 64) <<< k).toNat = i.toNat <<< k := by
    intro i k hk
    have hlt := i.isLt
    have hpow : 2 ^ k ≤ 2 ^ 55 := Nat.pow_le_pow_right (by decide) hk
    rw [BitVec.toNat_shiftLeft, BitVec.toNat_setWidth_of_le (by decide), Nat.mod_eq_of_lt]
    rw [Nat.shiftLeft_eq]
    calc i.toNat * 2 ^ k ≤ 511 * 2 ^ 55 := Nat.mul_le_mul (by omega) hpow
      _ < 2 ^ 64 := by decide
  have hsign : (a.setWidth 64 >>> 8 = (1#64)) ↔ a.toNat >>> 8 = 1 := by
    rw [← BitVec.toNat_inj, BitVec.toNat_ushiftRight, BitVec.toNat_setWidth_of_le (by decide)]
    rfl
  unfold virtAddressOfIndices pagingGetVirtAddressFromIndices
  simp only [BitVec.toNat_or, hshift _ _ (show 39 ≤ 55 by decide),
    hshift _ _ (show 30 ≤ 55 by decide), hshift _ _ (show 21 ≤ 55 by decide),
    hshift _ _ (show 12 ≤ 55 by decide), hsign]
  split <;> rfl

/-- Nine bits, put below others. -/
theorem shiftLeft_or_shiftLeft {x y k : ℕ} (hy : y < 512) :
    x <<< (k + 9) ||| y <<< k = (x * 512 + y) <<< k := by
  have hlt : y <<< k < 2 ^ (k + 9) := by
    rw [Nat.shiftLeft_eq, Nat.pow_add, Nat.mul_comm]
    exact Nat.mul_lt_mul_of_pos_left hy (Nat.two_pow_pos k)
  rw [← Nat.shiftLeft_add_eq_or_of_lt hlt, Nat.shiftLeft_eq, Nat.shiftLeft_eq, Nat.shiftLeft_eq,
    Nat.pow_add]
  ring

/-- **The assembled address as a number**, of which the indices are the digits. -/
theorem toNat_assembled (a b c d : TableIndex) :
    (pagingGetVirtAddressFromIndices a b c d).toNat
      = (((((if 256 ≤ a.toNat then 0xffff else 0) * 512 + a.toNat) * 512 + b.toNat) * 512
        + c.toNat) * 512 + d.toNat) * 4096 := by
  have ha := a.isLt
  have hsign : a.toNat >>> 8 = 1 ↔ 256 ≤ a.toNat := by
    rw [Nat.shiftRight_eq_div_pow]
    omega
  rw [← virtAddressOfIndices_eq, virtAddressOfIndices]
  simp only [hsign]
  rw [shiftLeft_or_shiftLeft (k := 39) ha, shiftLeft_or_shiftLeft (k := 30) b.isLt,
    shiftLeft_or_shiftLeft (k := 21) c.isLt, shiftLeft_or_shiftLeft (k := 12) d.isLt,
    Nat.shiftLeft_eq]

/-- **Addresses are in the order of their indices.** -/
theorem assembled_lt {a b c d a' b' c' d' : TableIndex}
    (h : List.Lex (· < ·) [a, b, c, d] [a', b', c', d']) :
    (pagingGetVirtAddressFromIndices a b c d).toNat
      < (pagingGetVirtAddressFromIndices a' b' c' d').toNat := by
  have hb := b.isLt
  have hc := c.isLt
  have hd := d.isLt
  rw [toNat_assembled, toNat_assembled]
  -- the first index that differs decides
  cases h with
  | rel h =>
    have hlt : a.toNat < a'.toNat := h
    split <;> split <;> omega
  | cons h =>
    cases h with
    | rel h =>
      have hlt : b.toNat < b'.toNat := h
      omega
    | cons h =>
      cases h with
      | rel h =>
        have hlt : c.toNat < c'.toNat := h
        omega
      | cons h =>
        cases h with
        | rel h =>
          have hlt : d.toNat < d'.toNat := h
          omega
        | cons h => cases h

/-- The text of an entry before its word. -/
def entryHead (name : String) (upper : List TableIndex) (i : TableIndex) : List (BitVec 8) :=
  charBytes name ++ (upper.flatMap fun j => charByte '-' :: numeral 10 j.toNat) ++
    charByte '@' :: numeral 10 i.toNat

/-- A character that is no digit is not in a decimal numeral. -/
theorem not_mem_decimal {c : BitVec 8} (hc : digitValue c = none) (n : ℕ) :
    c ∉ numeral 10 n := not_mem_numeral (by decide) (by decide) hc

theorem not_mem_entryHead {x : BitVec 8} {name : String} (hname : x ∉ charBytes name)
    (hdigit : digitValue x = none) (hdash : x ≠ charByte '-') (hat : x ≠ charByte '@')
    (upper : List TableIndex) (i : TableIndex) : x ∉ entryHead name upper i := by
  unfold entryHead
  simp only [List.mem_append, List.mem_flatMap, List.mem_cons, not_or, not_exists, not_and]
  exact ⟨⟨hname, fun j _ => ⟨hdash, not_mem_decimal hdigit _⟩⟩, hat, not_mem_decimal hdigit _⟩

/-- **A line falls into two pieces** at the colon. -/
theorem split_entryText {name note : String} (hname : charByte ':' ∉ charBytes name)
    (hnote : charByte ':' ∉ charBytes note) (upper : List TableIndex) (i : TableIndex)
    (e : PageTableEntry) :
    split ": " (entryText name note upper i e ++ [newline]) = [entryHead name upper i,
      numeral 16 (e.setWidth 32).toNat ++ (charBytes note ++ [newline])] := by
  have hhead : charByte ':' ∉ entryHead name upper i :=
    not_mem_entryHead hname (by decide) (by decide) (by decide) upper i
  have htail : charByte ':' ∉
      numeral 16 (e.setWidth 32).toNat ++ (charBytes note ++ [newline]) := by
    have hnumeral : charByte ':' ∉ numeral 16 (e.setWidth 32).toNat :=
      not_mem_numeral (by decide) (by decide) (by decide)
    rw [List.mem_append, List.mem_append, List.mem_singleton]
    exact not_or.mpr ⟨hnumeral, not_or.mpr ⟨hnote, by decide⟩⟩
  have hline : entryText name note upper i e ++ [newline] = entryHead name upper i ++
      (charBytes ": " ++ (numeral 16 (e.setWidth 32).toNat ++ (charBytes note ++ [newline]))) := by
    simp only [entryText, entryHead, List.append_assoc]
  have hsep : charBytes ": " = charByte ':' :: [charByte ' '] := rfl
  rw [hline, split_append hsep hhead, split_of_not_mem hsep htail]

/-- The index after the at sign. -/
theorem split_at {text : List (BitVec 8)} (h : charByte '@' ∉ text) (i : TableIndex) :
    split "@" (text ++ charByte '@' :: numeral 10 i.toNat) = [text, numeral 10 i.toNat] := by
  have hsep : charBytes "@" = charByte '@' :: [] := rfl
  have hlast : split "@" (numeral 10 i.toNat) = [numeral 10 i.toNat] :=
    split_of_not_mem hsep (not_mem_decimal (by decide) _)
  have happend := split_append hsep h (numeral 10 i.toNat)
  rwa [hlast] at happend

theorem split_at_entryHead {name : String} (hname : charByte '@' ∉ charBytes name)
    (upper : List TableIndex) (i : TableIndex) :
    split "@" (entryHead name upper i) =
      [charBytes name ++ upper.flatMap fun j => charByte '-' :: numeral 10 j.toNat,
        numeral 10 i.toNat] := by
  refine split_at ?_ i
  simp only [List.mem_append, List.mem_flatMap, List.mem_cons, not_or, not_exists, not_and]
  exact ⟨hname, fun j _ => ⟨by decide, not_mem_decimal (by decide) _⟩⟩

/-- The pieces before a dash. -/
theorem split_dash {text : List (BitVec 8)} (h : charByte '-' ∉ text) (rest : List (BitVec 8)) :
    split "-" (text ++ charByte '-' :: rest) = text :: split "-" rest :=
  split_append (show charBytes "-" = charByte '-' :: [] from rfl) h rest

theorem split_dash_last (j i : TableIndex) :
    split "-" (numeral 10 j.toNat ++ charByte '@' :: numeral 10 i.toNat)
      = [numeral 10 j.toNat ++ charByte '@' :: numeral 10 i.toNat] := by
  refine split_of_not_mem (show charBytes "-" = charByte '-' :: [] from rfl) ?_
  rw [List.mem_append, List.mem_cons]
  exact not_or.mpr ⟨not_mem_decimal (by decide) _,
    not_or.mpr ⟨by decide, not_mem_decimal (by decide) _⟩⟩

theorem int_decimal (n : ℕ) : int 10 (numeral 10 n) = some n :=
  int_numeral (by decide) (by decide) n

theorem int_hex (n : ℕ) : int 16 (numeral 16 n) = some n :=
  int_numeral (by decide) (by decide) n

/-! ## The page of a line -/

/-- **The address of a page** in a PT. -/
theorem getVirtAddressFromLine_kb4 (a b c d : TableIndex) (e : PageTableEntry) :
    getVirtAddressFromLine (entryText "PT" "" [a, b, c] d e ++ [newline]) .kb4
      = some (pagingGetVirtAddressFromIndices a b c d).toNat := by
  have hindices : split "-" (entryHead "PT" [a, b, c] d) = [charBytes "PT", numeral 10 a.toNat,
      numeral 10 b.toNat, numeral 10 c.toNat ++ charByte '@' :: numeral 10 d.toNat] := by
    have hhead : entryHead "PT" [a, b, c] d = charBytes "PT" ++ charByte '-' ::
        (numeral 10 a.toNat ++ charByte '-' :: (numeral 10 b.toNat ++ charByte '-' ::
          (numeral 10 c.toNat ++ charByte '@' :: numeral 10 d.toNat))) := by
      simp [entryHead]
    rw [hhead, split_dash (by decide), split_dash (not_mem_decimal (by decide) _),
      split_dash (not_mem_decimal (by decide) _), split_dash_last]
  have hlast := split_at_entryHead (show charByte '@' ∉ charBytes "PT" by decide) [a, b, c] d
  have hthird := split_at (not_mem_decimal (show digitValue (charByte '@') = none by decide)
    c.toNat) d
  rw [getVirtAddressFromLine, split_entryText (by decide) (by decide)]
  simp only [hindices, hlast, hthird, int_decimal, Option.bind_eq_bind, Option.bind_some,
    List.getElem?_cons_zero, List.getElem?_cons_succ, virtAddressOfIndices_eq, Option.pure_def]

/-- **The address of a page** in a PD. -/
theorem getVirtAddressFromLine_mb2 (a b c : TableIndex) (e : PageTableEntry) :
    getVirtAddressFromLine (entryText "PD" " (2MB-PAGE)" [a, b] c e ++ [newline]) .mb2
      = some (pagingGetVirtAddressFromIndices a b c 0).toNat := by
  have hindices : split "-" (entryHead "PD" [a, b] c) = [charBytes "PD", numeral 10 a.toNat,
      numeral 10 b.toNat ++ charByte '@' :: numeral 10 c.toNat] := by
    have hhead : entryHead "PD" [a, b] c = charBytes "PD" ++ charByte '-' ::
        (numeral 10 a.toNat ++ charByte '-' ::
          (numeral 10 b.toNat ++ charByte '@' :: numeral 10 c.toNat)) := by
      simp [entryHead]
    rw [hhead, split_dash (by decide), split_dash (not_mem_decimal (by decide) _),
      split_dash_last]
  have hlast := split_at_entryHead (show charByte '@' ∉ charBytes "PD" by decide) [a, b] c
  have hsecond := split_at (not_mem_decimal (show digitValue (charByte '@') = none by decide)
    b.toNat) c
  have hvirt : virtAddressOfIndices a.toNat b.toNat c.toNat 0
      = (pagingGetVirtAddressFromIndices a b c 0).toNat := virtAddressOfIndices_eq a b c 0
  rw [getVirtAddressFromLine, split_entryText (by decide) (by decide)]
  simp only [hindices, hlast, hsecond, int_decimal, Option.bind_eq_bind, Option.bind_some,
    List.getElem?_cons_zero, List.getElem?_cons_succ, hvirt, Option.pure_def]

/-- **The word** of a 4 kB page. -/
theorem getPhysAddressFromLine_kb4 (upper : List TableIndex) (i : TableIndex)
    (e : PageTableEntry) :
    getPhysAddressFromLine (entryText "PT" "" upper i e ++ [newline]) .kb4
      = some (printedBase e) := by
  have hfilter : (numeral 16 (e.setWidth 32).toNat ++ (charBytes "" ++ [newline])).filter
      (· ≠ newline) = numeral 16 (e.setWidth 32).toNat := by
    have hnumeral : newline ∉ numeral 16 (e.setWidth 32).toNat :=
      not_mem_numeral (by decide) (by decide) (by decide)
    rw [List.filter_append, List.filter_eq_self.mpr fun c hc => by
      simpa using fun h : c = newline => hnumeral (h ▸ hc)]
    exact List.append_nil _
  rw [getPhysAddressFromLine, split_entryText (by decide) (by decide)]
  simp only [hfilter, int_hex, Option.bind_eq_bind, Option.bind_some, List.getElem?_cons_zero,
    List.getElem?_cons_succ, Option.pure_def, printedBase]

/-- **The word** of a 2 MB page. -/
theorem getPhysAddressFromLine_mb2 (upper : List TableIndex) (i : TableIndex)
    (e : PageTableEntry) :
    getPhysAddressFromLine (entryText "PD" " (2MB-PAGE)" upper i e ++ [newline]) .mb2
      = some (printedBase e) := by
  have hsplit : (split " " (numeral 16 (e.setWidth 32).toNat ++
      (charBytes " (2MB-PAGE)" ++ [newline])))[0]? = some (numeral 16 (e.setWidth 32).toNat) := by
    have hnumeral : charByte ' ' ∉ numeral 16 (e.setWidth 32).toNat :=
      not_mem_numeral (by decide) (by decide) (by decide)
    have happend := split_append (show charBytes " " = charByte ' ' :: [] from rfl) hnumeral
      (charBytes "(2MB-PAGE)" ++ [newline])
    exact congrArg (·[0]?) happend
  rw [getPhysAddressFromLine, split_entryText (by decide) (by decide)]
  simp only [hsplit, int_hex, Option.bind_eq_bind, Option.bind_some, List.getElem?_cons_zero,
    List.getElem?_cons_succ, Option.pure_def, printedBase]

/-! ## The lines that are kept -/

/-- Whether a line is one of a PT is a matter of the name of its table. -/
theorem pt_prefix_iff {name : String} (hname : 2 ≤ (charBytes name).length)
    (note : String) (upper : List TableIndex) (i : TableIndex) (e : PageTableEntry) :
    charBytes "PT" <+: entryText name note upper i e ++ [newline] ↔
      charBytes "PT" = (charBytes name).take 2 := by
  have hlength : (charBytes "PT").length = 2 := rfl
  rw [List.prefix_iff_eq_take, hlength]
  unfold entryText
  simp only [List.append_assoc]
  rw [List.take_append_of_le_length hname]

/-- What is in parentheses comes at the end of a line. -/
theorem infix_entryText_iff {name note : String} {p : List (BitVec 8)}
    (hname : charByte '(' ∉ charBytes name) (upper : List TableIndex) (i : TableIndex)
    (e : PageTableEntry) :
    charByte '(' :: p <:+: entryText name note upper i e ++ [newline] ↔
      charByte '(' :: p <:+: charBytes note ++ [newline] := by
  have hfront : charByte '(' ∉ entryHead name upper i ++
      (charBytes ": " ++ numeral 16 (e.setWidth 32).toNat) := by
    rw [List.mem_append, List.mem_append]
    exact not_or.mpr ⟨not_mem_entryHead hname (by decide) (by decide) (by decide) upper i,
      not_or.mpr ⟨by decide, not_mem_numeral (by decide) (by decide) (by decide)⟩⟩
  have hline : entryText name note upper i e ++ [newline] = (entryHead name upper i ++
      (charBytes ": " ++ numeral 16 (e.setWidth 32).toNat)) ++ (charBytes note ++ [newline]) := by
    simp only [entryText, entryHead, List.append_assoc]
  rw [hline, infix_append_of_not_mem hfront]

/-- A line without a note, of another table than a PT, is dropped. -/
theorem not_isLeafLine {name : String} (hlength : 2 ≤ (charBytes name).length)
    (hname : charByte '(' ∉ charBytes name) (hpt : charBytes "PT" ≠ (charBytes name).take 2)
    (upper : List TableIndex) (i : TableIndex) (e : PageTableEntry) :
    ¬ IsLeafLine (entryText name "" upper i e ++ [newline]) := by
  have hnote : ∀ p : List (BitVec 8),
      ¬ charByte '(' :: p <:+ entryText name "" upper i e ++ [newline] := by
    intro p hp
    have hinfix := (infix_entryText_iff hname upper i e).mp hp.isInfix
    exact not_infix_of_not_mem (show charByte '(' ∉ charBytes "" ++ [newline] by decide) hinfix
  rintro (hstart | hsuffix | hsuffix)
  · exact hpt ((pt_prefix_iff hlength "" upper i e).mp hstart)
  · exact hnote _ hsuffix
  · exact hnote _ hsuffix

/-- A line with a note is kept. -/
theorem isLeafLine_of_note {name note : String} (upper : List TableIndex) (i : TableIndex)
    (e : PageTableEntry)
    (hnote : charBytes "(2MB-PAGE)\n" <:+ charBytes note ++ [newline] ∨
      charBytes "(1GB-PAGE)\n" <:+ charBytes note ++ [newline]) :
    IsLeafLine (entryText name note upper i e ++ [newline]) := by
  have hsuffix : charBytes note ++ [newline] <:+ entryText name note upper i e ++ [newline] :=
    ⟨_, (List.append_assoc _ _ _).symm⟩
  exact .inr (hnote.imp (·.trans hsuffix) (·.trans hsuffix))

/-- The line of an entry that is no page leaves no page. -/
theorem getPagesLoop_dropped {line : List (BitVec 8)} (h : ¬ IsLeafLine (line ++ [newline]))
    (rest : List (List (BitVec 8))) :
    (if IsLeafLine (line ++ [newline]) then getPagesLoop ((line ++ [newline]) :: rest)
      else getPagesLoop rest) = (getPagesLoop rest).map ([] ++ ·) := by
  rw [if_neg h]
  exact Option.map_id'.symm

/-- **A line is read** as the page of its entry, or dropped. -/
theorem getPagesLoop_line (x : List TableIndex × PageTableEntry)
    (rest : List (List (BitVec 8))) :
    (if IsLeafLine (entryLine x ++ [newline]) then
        getPagesLoop ((entryLine x ++ [newline]) :: rest)
      else getPagesLoop rest)
      = (getPagesLoop rest).map ((analysedPage x).toList ++ ·) := by
  match x with
  | ([], e) => exact getPagesLoop_dropped (show ¬ IsLeafLine [newline] by decide) rest
  | ([i], e) =>
    exact getPagesLoop_dropped (not_isLeafLine (by decide) (by decide) (by decide) [] i e) rest
  | ([a, i], e) =>
    by_cases hsize : e.pageSize = true
    · -- a page of 1 GB is kept, and then nothing is made of it
      have hinfix : ¬ charBytes "(2MB-PAGE)" <:+:
          entryText "PDPR" " (1GB-PAGE)" [a] i e ++ [newline] := by
        refine mt (infix_entryText_iff (by decide) [a] i e).mp ?_
        decide
      rw [entryLine, if_pos hsize, if_pos (isLeafLine_of_note [a] i e (by decide)), getPagesLoop,
        if_neg (by rw [pt_prefix_iff (by decide)]; decide), if_neg hinfix]
      exact Option.map_id'.symm
    · rw [entryLine, if_neg hsize]
      exact getPagesLoop_dropped (not_isLeafLine (by decide) (by decide) (by decide) [a] i e) rest
  | ([a, b, i], e) =>
    by_cases hsize : e.pageSize = true
    · have hinfix : charBytes "(2MB-PAGE)" <:+:
          entryText "PD" " (2MB-PAGE)" [a, b] i e ++ [newline] := by
        refine (infix_entryText_iff (by decide) [a, b] i e).mpr ?_
        decide
      rw [entryLine, if_pos hsize, if_pos (isLeafLine_of_note [a, b] i e (by decide)),
        getPagesLoop, if_neg (by rw [pt_prefix_iff (by decide)]; decide), if_pos hinfix, getPage,
        getVirtAddressFromLine_mb2, getPhysAddressFromLine_mb2, analysedPage, if_pos hsize]
      cases getPagesLoop rest <;> rfl
    · rw [entryLine, if_neg hsize, analysedPage, if_neg hsize]
      exact getPagesLoop_dropped (not_isLeafLine (by decide) (by decide) (by decide) [a, b] i e)
        rest
  | ([a, b, c, i], e) =>
    have hstart : charBytes "PT" <+: entryText "PT" "" [a, b, c] i e ++ [newline] :=
      (pt_prefix_iff (by decide) "" [a, b, c] i e).mpr (by decide)
    have hleaf : IsLeafLine (entryText "PT" "" [a, b, c] i e ++ [newline]) := .inl hstart
    rw [entryLine, if_pos hleaf, getPagesLoop, if_pos hstart, getPage,
      getVirtAddressFromLine_kb4, getPhysAddressFromLine_kb4, analysedPage]
    cases getPagesLoop rest <;> rfl
  | (_ :: _ :: _ :: _ :: _ :: _, e) =>
    exact getPagesLoop_dropped (show ¬ IsLeafLine [newline] by decide) rest

/-- **The lines of the leaves** are kept, without the tag of the logger. -/
theorem filterInput_dump (entries : List (List TableIndex × PageTableEntry)) :
    filterInput (entries.flatMap loggedLine)
      = (entries.filter fun x => IsLeafLine (entryLine x ++ [newline])).flatMap fun x =>
        entryLine x ++ [newline] := by
  have hlines : lines newline (entries.flatMap loggedLine)
      = entries.map fun x => infoTag ++ entryLine x ++ [newline] := by
    have hlogged : loggedLine = fun x => infoTag ++ entryLine x ++ [newline] :=
      funext fun x => (List.append_assoc _ _ _).symm
    rw [hlogged]
    refine lines_flatMap entries fun x _ => ?_
    rw [List.mem_append]
    exact not_or.mpr ⟨by decide, newline_not_mem_entryLine x⟩
  have hdrop : ∀ x, (infoTag ++ entryLine x ++ [newline]).drop 8 = entryLine x ++ [newline] := by
    intro x
    rw [List.append_assoc]
    exact List.drop_left' rfl
  rw [filterInput, hlines, List.flatMap_map]
  simp only [hdrop]
  clear hlines
  induction entries with
  | nil => rfl
  | cons x entries ih =>
    rw [List.flatMap_cons, ih, List.filter_cons]
    by_cases hleaf : IsLeafLine (entryLine x ++ [newline])
    · rw [if_pos hleaf, if_pos (decide_eq_true hleaf), List.flatMap_cons]
    · rw [if_neg hleaf, if_neg (by simpa using hleaf), List.nil_append]

/-- **The analyser reads a dump** line by line. -/
theorem getPages_filterInput (entries : List (List TableIndex × PageTableEntry)) :
    getPages (filterInput (entries.flatMap loggedLine))
      = some (entries.filterMap analysedPage) := by
  rw [getPages, filterInput_dump, lines_flatMap _ fun x _ => newline_not_mem_entryLine x]
  induction entries with
  | nil => rfl
  | cons x entries ih =>
    have hline := getPagesLoop_line x ((entries.filter fun x =>
      IsLeafLine (entryLine x ++ [newline])).map fun x => entryLine x ++ [newline])
    have hpages : (analysedPage x).toList ++ entries.filterMap analysedPage
        = (x :: entries).filterMap analysedPage := by
      rw [List.filterMap_cons]
      cases analysedPage x <;> rfl
    rw [ih, Option.map_some, hpages] at hline
    rw [← hline, List.filter_cons]
    by_cases hleaf : IsLeafLine (entryLine x ++ [newline])
    · rw [if_pos hleaf, if_pos (decide_eq_true hleaf), List.map_cons]
    · rw [if_neg hleaf, if_neg (by simpa using hleaf), ih]

/-! ## The word of a leaf -/

/-- **A leaf that the analyser reads right**: it is not a page of 1 GB, its address
is one of the 32 bits that are printed, and the bits from 11 on that are not part
of the address are clear. -/
def LeafReadable (size : PageSize) (e : PageTableEntry) : Prop :=
  size ≠ .gb1 ∧ (e.pageBase size).toNat < 2 ^ 32 ∧
    ∀ i, 11 ≤ i → i < size.shift → e.getLsbD i = false

/-- The address that is read, bit by bit. -/
theorem testBit_printedBase (e : PageTableEntry) (i : ℕ) :
    (printedBase e).testBit i = (decide (11 ≤ i ∧ i < 32) && e.getLsbD i) := by
  have hlow : (0x7ff : ℕ).testBit i = decide (i < 11) := Nat.testBit_two_pow_sub_one 11 i
  have hhigh : (0xffffffffff : ℕ).testBit i = decide (i < 40) := Nat.testBit_two_pow_sub_one 40 i
  have hword : (e.setWidth 32).toNat.testBit i = (decide (i < 32) && e.getLsbD i) := by
    rw [BitVec.testBit_toNat, BitVec.getLsbD_setWidth]
  rw [printedBase, Nat.testBit_and, Nat.testBit_ldiff, hlow, hhigh, hword]
  by_cases h11 : 11 ≤ i
  · by_cases h32 : i < 32
    · have h40 : i < 40 := by omega
      simp [h11, h32, h40, Nat.not_lt.mpr h11]
    · simp [h32]
  · simp [h11, Nat.lt_of_not_le h11]

/-- The address of a page, bit by bit. -/
theorem testBit_pageBase (size : PageSize) (e : PageTableEntry) (i : ℕ) :
    (e.pageBase size).toNat.testBit i = (decide (size.shift ≤ i ∧ i < 40) && e.getLsbD i) := by
  have hfield : ∀ lo w : ℕ, lo + w = 40 →
      (((BitField.read e lo w).setWidth 64 : BitVec 64) <<< lo).getLsbD i
        = (decide (lo ≤ i ∧ i < 40) && e.getLsbD i) := by
    intro lo w hsum
    rw [BitVec.getLsbD_shiftLeft, BitVec.getLsbD_setWidth, BitField.getLsbD_read]
    by_cases hlo : lo ≤ i
    · by_cases hi : i < 40
      · have h₁ : i < 64 := by omega
        have h₂ : i - lo < 64 := by omega
        have h₃ : i - lo < w := by omega
        simp [hlo, hi, h₁, h₂, h₃, Nat.not_lt.mpr hlo]
      · have h₃ : ¬ i - lo < w := by omega
        simp [hi, h₃]
    · simp [hlo, Nat.lt_of_not_le hlo]
  rw [BitVec.testBit_toNat]
  cases size with
  | kb4 => exact hfield 12 28 rfl
  | mb2 => exact hfield 21 19 rfl
  | gb1 => exact hfield 30 10 rfl

/-- **The word is read right** if and only if the leaf is one that is. -/
theorem printedBase_eq_iff {size : PageSize} (hsize : size ≠ .gb1) (e : PageTableEntry) :
    printedBase e = (e.pageBase size).toNat ↔ LeafReadable size e := by
  have hshift : 12 ≤ size.shift ∧ size.shift ≤ 21 := by
    cases size with
    | gb1 => exact absurd rfl hsize
    | mb2 => decide
    | kb4 => decide
  constructor
  · intro h
    refine ⟨hsize, ?_, fun i hlow hhigh => ?_⟩
    · refine Nat.lt_pow_two_of_testBit _ fun i hi => ?_
      rw [← h, testBit_printedBase]
      simp [Nat.not_lt.mpr hi]
    · have hbit := congrArg (·.testBit i) h
      simp only [testBit_printedBase, testBit_pageBase] at hbit
      have h32 : i < 32 := by omega
      simpa [hlow, h32, Nat.not_le.mpr hhigh] using hbit
  · rintro ⟨-, hlt, hclear⟩
    refine Nat.eq_of_testBit_eq fun i => ?_
    have hbase := testBit_pageBase size e i
    rw [testBit_printedBase]
    by_cases h32 : i < 32
    · rw [hbase]
      have h40 : i < 40 := by omega
      by_cases hlow : size.shift ≤ i
      · have h11 : 11 ≤ i := by omega
        simp [h11, h32, h40, hlow]
      · by_cases h11 : 11 ≤ i
        · simp [hclear i h11 (Nat.lt_of_not_le hlow)]
        · simp [h11, hlow]
    · have hpow : 2 ^ 32 ≤ 2 ^ i := Nat.pow_le_pow_right (by decide) (Nat.le_of_not_lt h32)
      rw [Nat.testBit_lt_two_pow (hlt.trans_le hpow)]
      simp [h32]

/-! ## The leaves of a page table -/

/-- The first address of a page. -/
def IsPageStart (size : PageSize) (virt : BitVec 64) : Prop :=
  Canonical virt ∧ virt.toNat % 2 ^ size.shift = 0

/-- A page has one first address. -/
theorem IsPageStart.unique {size : PageSize} {u v : BitVec 64} (hu : IsPageStart size u)
    (hv : IsPageStart size v) (hpath : pagePath size u = pagePath size v) : u = v := by
  have hnumber := congrArg BitVec.toNat ((pagePath_eq_iff hu.1 hv.1).mp hpath)
  rw [BitVec.toNat_ushiftRight, BitVec.toNat_ushiftRight, Nat.shiftRight_eq_div_pow,
    Nat.shiftRight_eq_div_pow] at hnumber
  refine BitVec.eq_of_toNat_eq ?_
  rw [← Nat.div_add_mod u.toNat (2 ^ size.shift), ← Nat.div_add_mod v.toNat (2 ^ size.shift),
    hnumber, hu.2, hv.2]

section Leaves

variable {σ : Type} (hhdm : BitVec 64) (pml4 : TablePtr) (s : Machine σ)

/-- The page of a size at an address, as it is resolved. -/
def resolvedPage (size : PageSize) (virt : BitVec 64) : Page :=
  ⟨virt.toNat, (pagingResolveVirtualAddress hhdm pml4 virt s).toNat, size⟩

/-- The page of an entry, if it is a leaf. -/
def presentPage : List TableIndex × PageTableEntry → Option Page
  | ([a, b], e) =>
    if e.pageSize = true then
      some (resolvedPage hhdm pml4 s .gb1 (pagingGetVirtAddressFromIndices a b 0 0))
    else none
  | ([a, b, c], e) =>
    if e.pageSize = true then
      some (resolvedPage hhdm pml4 s .mb2 (pagingGetVirtAddressFromIndices a b c 0))
    else none
  | ([a, b, c, d], _) =>
    some (resolvedPage hhdm pml4 s .kb4 (pagingGetVirtAddressFromIndices a b c d))
  | _ => none

/-- **The present leaves** of a PML4 in index order: the canonical address of each,
what it resolves to, and its size. -/
def presentPages : List Page :=
  (preorder (entrySlot hhdm) s.mem tableIndices 4 [] pml4).filterMap (presentPage hhdm pml4 s)

/-- **A page table whose dump is analysed right**: its tables are below `2 ^ 31`, but
for the PML4, and its leaves are read right. -/
structure Analysable : Prop where
  table_lt : ∀ p t, p ≠ [] → pageSlot hhdm s.mem pml4 p = .table t → (t - hhdm).toNat < 2 ^ 31
  leaf_readable : ∀ size virt e,
    pageSlot hhdm s.mem pml4 (pagePath size virt) = .leaf e → LeafReadable size e

variable {hhdm pml4 s}

/-- **What is made of a leaf**: both sides list it with the first of its addresses,
and the analyser leaves out the pages of 1 GB. -/
theorem pages_of_leaf {size : PageSize} {virt : BitVec 64} {e : PageTableEntry}
    (h : pageSlot hhdm s.mem pml4 (pagePath size virt) = .leaf e) :
    ∃ v, IsPageStart size v ∧ pagePath size v = pagePath size virt ∧
      presentPage hhdm pml4 s (pagePath size virt, e) = some (resolvedPage hhdm pml4 s size v) ∧
      analysedPage (pagePath size virt, e)
        = if size = .gb1 then none else some ⟨v.toNat, printedBase e, size⟩ := by
  cases size with
  | gb1 =>
    obtain ⟨u, -, -, -, -, hsize, rfl⟩ := entry_of_pageSlot_leaf (p := [_]) h
    refine ⟨pagingGetVirtAddressFromIndices (pml4Idx virt) (pdprIdx virt) 0 0,
      ⟨canonical_assembled _ _ _ _, ?_⟩, ?_, if_pos (hsize (by simp)), rfl⟩
    · rw [toNat_assembled]
      simp only [PageSize.shift, BitVec.ofNat_eq_ofNat, BitVec.toNat_ofNat]
      omega
    · rw [pagePath, pml4Idx_assembled, pdprIdx_assembled, pagePath]
  | mb2 =>
    obtain ⟨u, -, -, -, -, hsize, rfl⟩ := entry_of_pageSlot_leaf (p := [_, _]) h
    refine ⟨pagingGetVirtAddressFromIndices (pml4Idx virt) (pdprIdx virt) (pdIdx virt) 0,
      ⟨canonical_assembled _ _ _ _, ?_⟩, ?_, if_pos (hsize (by simp)), ?_⟩
    · rw [toNat_assembled]
      simp only [PageSize.shift, BitVec.ofNat_eq_ofNat, BitVec.toNat_ofNat]
      omega
    · rw [pagePath, pml4Idx_assembled, pdprIdx_assembled, pdIdx_assembled, pagePath]
    · rw [pagePath, analysedPage, if_pos (hsize (by simp)), if_neg (by decide)]
  | kb4 =>
    refine ⟨pagingGetVirtAddressFromIndices (pml4Idx virt) (pdprIdx virt) (pdIdx virt)
      (ptIdx virt), ⟨canonical_assembled _ _ _ _, ?_⟩, ?_, rfl, rfl⟩
    · rw [toNat_assembled]
      simp only [PageSize.shift]
      omega
    · rw [pagePath, pml4Idx_assembled, pdprIdx_assembled, pdIdx_assembled, ptIdx_assembled,
        pagePath]

/-- A leaf is one of the entries. -/
theorem mem_preorder_of_leaf {p : List TableIndex} {e : PageTableEntry}
    (h : pageSlot hhdm s.mem pml4 p = .leaf e) :
    (p, e) ∈ preorder (entrySlot hhdm) s.mem tableIndices 4 [] pml4 := by
  rcases List.eq_nil_or_concat' p with rfl | ⟨q, i, rfl⟩
  · cases h
  · obtain ⟨u, hu, -, -, -, -, rfl⟩ := entry_of_pageSlot_leaf h
    exact mem_preorder_pml4_iff.mpr ⟨q, i, u, rfl, hu, by rw [h]; simp⟩

/-- An entry that names a table is not listed. -/
theorem presentPage_of_table {q : List TableIndex} {i : TableIndex} {e : PageTableEntry}
    (hlength : q.length ≤ 2) (hsize : q.length ≠ 0 → e.pageSize = false) :
    presentPage hhdm pml4 s (q ++ [i], e) = none := by
  match q, hlength with
  | [], _ => rfl
  | [_], _ => exact if_neg (by rw [hsize (by simp)]; exact Bool.false_ne_true)
  | [_, _], _ => exact if_neg (by rw [hsize (by simp)]; exact Bool.false_ne_true)

/-- An entry that is listed is a leaf. -/
theorem exists_leaf_of_presentPage {x : List TableIndex × PageTableEntry}
    (hx : x ∈ preorder (entrySlot hhdm) s.mem tableIndices 4 [] pml4)
    (hpage : presentPage hhdm pml4 s x ≠ none) :
    ∃ size virt, x.1 = pagePath size virt ∧ pageSlot hhdm s.mem pml4 x.1 = .leaf x.2 := by
  obtain ⟨q, i, u, rfl, hu, hne⟩ := mem_preorder_pml4_iff.mp hx
  rcases pageSlot_snoc_cases (length_le_of_pageSlot_table hu) hu i with
    ⟨hempty, -⟩ | ⟨hlength, -, -, hsize⟩ | ⟨-, hleaf, -, -⟩
  · exact absurd hempty hne
  · exact absurd (presentPage_of_table hlength hsize) hpage
  · obtain ⟨size, v, -, hv⟩ := exists_page_of_leaf hleaf
    exact ⟨size, v, hv.symm, hleaf⟩

/-- What the analyser lists is listed. -/
theorem presentPage_ne_none {x : List TableIndex × PageTableEntry} (h : analysedPage x ≠ none) :
    presentPage hhdm pml4 s x ≠ none := by
  match x with
  | ([], _) | ([_], _) | ([_, _], _) | (_ :: _ :: _ :: _ :: _ :: _, _) => exact absurd rfl h
  | ([a, b, c], e) =>
    by_cases hsize : e.pageSize = true
    · rw [presentPage, if_pos hsize]
      exact Option.some_ne_none _
    · exact absurd (if_neg hsize) h
  | ([a, b, c, d], e) => exact Option.some_ne_none _

/-- **The leaves are listed alike** if and only if each can be read. -/
theorem forall_analysedPage_eq_iff :
    (∀ x ∈ preorder (entrySlot hhdm) s.mem tableIndices 4 [] pml4,
        analysedPage x = presentPage hhdm pml4 s x) ↔
      ∀ size virt e, pageSlot hhdm s.mem pml4 (pagePath size virt) = .leaf e →
        LeafReadable size e := by
  constructor
  · intro h size virt e hleaf
    obtain ⟨v, -, hv, hpresent, hanalysed⟩ := pages_of_leaf hleaf
    have heq := h _ (mem_preorder_of_leaf hleaf)
    rw [hpresent, hanalysed, resolvedPage, pagingResolveVirtualAddress_of_leaf (hv ▸ hleaf)] at heq
    split at heq
    · cases heq
    · next hsize =>
      exact (printedBase_eq_iff hsize e).mp (Page.mk.inj (Option.some.inj heq)).2.1
  · intro h x hx
    by_cases hpage : presentPage hhdm pml4 s x = none
    · -- a line for a table: the analyser makes nothing of it either
      rw [hpage]
      by_contra hne
      exact presentPage_ne_none hne hpage
    · obtain ⟨size, virt, hpath, hleaf⟩ := exists_leaf_of_presentPage hx hpage
      obtain ⟨p, e⟩ := x
      obtain rfl : p = pagePath size virt := hpath
      have hread := h size virt e hleaf
      obtain ⟨v, -, hv, hpresent, hanalysed⟩ := pages_of_leaf hleaf
      rw [hpresent, hanalysed, if_neg hread.1, (printedBase_eq_iff hread.1 e).mpr hread,
        resolvedPage, pagingResolveVirtualAddress_of_leaf (hv ▸ hleaf)]

/-! ## What is listed -/

/-- **The pages that are listed** are those of the leaves. -/
theorem mem_presentPages_iff {page : Page} :
    page ∈ presentPages hhdm pml4 s ↔ ∃ virt e, IsPageStart page.size virt ∧
      pageSlot hhdm s.mem pml4 (pagePath page.size virt) = .leaf e ∧
      page = resolvedPage hhdm pml4 s page.size virt := by
  rw [presentPages, List.mem_filterMap]
  constructor
  · rintro ⟨⟨p, e⟩, hx, hpage⟩
    obtain ⟨size, virt, hpath, hleaf⟩ := exists_leaf_of_presentPage hx (by rw [hpage]; simp)
    obtain rfl : p = pagePath size virt := hpath
    obtain ⟨v, hstart, hv, hpresent, -⟩ := pages_of_leaf hleaf
    obtain rfl : page = resolvedPage hhdm pml4 s size v :=
      Option.some.inj (hpage.symm.trans hpresent)
    exact ⟨v, e, hstart, by rw [resolvedPage, hv]; exact hleaf, rfl⟩
  · rintro ⟨virt, e, hstart, hleaf, hpage⟩
    obtain ⟨v, hstart', hv, hpresent, -⟩ := pages_of_leaf hleaf
    refine ⟨_, mem_preorder_of_leaf hleaf, ?_⟩
    rw [hpresent, hstart'.unique hstart hv, ← hpage]

/-- A page is listed with the address of its indices, and zeros. -/
theorem exists_indices_of_presentPage {x : List TableIndex × PageTableEntry} {page : Page}
    (h : presentPage hhdm pml4 s x = some page) :
    ∃ q a b c d, x.1 ++ q = [a, b, c, d] ∧
      page.virtAddress = (pagingGetVirtAddressFromIndices a b c d).toNat := by
  match x with
  | ([], _) | ([_], _) | (_ :: _ :: _ :: _ :: _ :: _, _) => cases h
  | ([a, b], e) =>
    rw [presentPage] at h
    split at h
    · obtain rfl := Option.some.inj h
      exact ⟨[0, 0], a, b, 0, 0, rfl, rfl⟩
    · cases h
  | ([a, b, c], e) =>
    rw [presentPage] at h
    split at h
    · obtain rfl := Option.some.inj h
      exact ⟨[0], a, b, c, 0, rfl, rfl⟩
    · cases h
  | ([a, b, c, d], e) =>
    obtain rfl := Option.some.inj h
    exact ⟨[], a, b, c, d, rfl, rfl⟩

/-- **The present leaves are listed in the order of their addresses.** -/
theorem pairwise_presentPages :
    (presentPages hhdm pml4 s).Pairwise fun x y => x.virtAddress < y.virtAddress := by
  rw [presentPages, List.pairwise_filterMap]
  refine (pairwise_preorder pairwise_tableIndices).imp_of_mem fun {x y} hx hy hlex => ?_
  intro page hpage page' hpage'
  obtain ⟨q, a, b, c, d, hq, hvirt⟩ := exists_indices_of_presentPage hpage
  obtain ⟨q', a', b', c', d', hq', hvirt'⟩ := exists_indices_of_presentPage hpage'
  have hstart : ¬ x.1 <+: y.1 := by
    rintro ⟨r, hr⟩
    obtain ⟨size, virt, -, hleaf⟩ := exists_leaf_of_presentPage hx (by rw [hpage]; simp)
    obtain ⟨size', virt', -, hleaf'⟩ := exists_leaf_of_presentPage hy (by rw [hpage']; simp)
    by_cases hnil : r = []
    · rw [hnil, List.append_nil] at hr
      exact List.Lex.to_ne (List.Lex.imp (fun _ _ => BitVec.ne_of_lt) _ _ hlex) hr
    · -- below a leaf there is nothing
      have hbelow : pageSlot hhdm s.mem pml4 (x.1 ++ r) = .empty :=
        slotAt_append_of_not_table hnil fun t ht => by cases hleaf.symm.trans ht
      rw [hr, hleaf'] at hbelow
      cases hbelow
  have hindices := lex_append hlex hstart q q'
  rw [hq, hq'] at hindices
  rw [hvirt, hvirt']
  exact assembled_lt hindices

/-! ## The dump and its analysis -/

/-- Two ways to pick from a list, of which one picks no less than the other, pick
the same if and only if they agree everywhere. -/
theorem filterMap_eq_filterMap_iff {α β : Type} {f g : α → Option β}
    (h : ∀ x, f x ≠ none → g x ≠ none) (l : List α) :
    l.filterMap f = l.filterMap g ↔ ∀ x ∈ l, f x = g x := by
  have hle : ∀ l : List α, (l.filterMap f).length ≤ (l.filterMap g).length := by
    intro l
    rw [List.length_filterMap_eq_countP, List.length_filterMap_eq_countP]
    refine List.countP_mono_left fun x _ hx => ?_
    exact Option.isSome_iff_ne_none.mpr (h x (Option.isSome_iff_ne_none.mp hx))
  refine ⟨fun heq => ?_, List.filterMap_congr⟩
  induction l with
  | nil => exact List.forall_mem_nil _
  | cons x l ih =>
    rw [List.filterMap_cons, List.filterMap_cons] at heq
    rw [List.forall_mem_cons]
    cases hf : f x with
    | none =>
      cases hg : g x with
      | none =>
        rw [hf, hg] at heq
        exact ⟨rfl, ih heq⟩
      | some b =>
        -- one page more on the right
        simp only [hf, hg] at heq
        have hlength := congrArg List.length heq
        have hrest := hle l
        rw [List.length_cons] at hlength
        omega
    | some a =>
      cases hg : g x with
      | none => exact absurd hg (h x (by rw [hf]; exact Option.some_ne_none a))
      | some b =>
        rw [hf, hg] at heq
        obtain ⟨rfl, hrest⟩ := List.cons.inj heq
        exact ⟨rfl, ih hrest⟩

/-- What a dump that returns has logged, and what the analyser makes of it. -/
theorem getPages_of_runs {L : LogContext} {b b' : LoggingBackend}
    (hlevel : b.level.value ≤ LoggingLevel.info.value) {idx idx' : DumpIndices}
    {out : List (BitVec 8)}
    (h : (pagingDumpPageTable L hhdm s.mem pml4 .pml4 idx).Runs b out idx' b') :
    getPages (filterInput out) = some
      ((preorder (entrySlot hhdm) s.mem tableIndices 4 [] pml4).filterMap analysedPage) := by
  obtain ⟨idx'', hrun⟩ := pagingDumpPageTable_runs (L := L) hlevel (representable_of_runs h) idx
  rw [h.unique hrun, getPages_filterInput]

/-- What the analyser lists is what is to be listed if and only if every leaf can be
read. -/
theorem filterMap_analysedPage_iff :
    (preorder (entrySlot hhdm) s.mem tableIndices 4 [] pml4).filterMap analysedPage
        = presentPages hhdm pml4 s ↔
      ∀ size virt e, pageSlot hhdm s.mem pml4 (pagePath size virt) = .leaf e →
        LeafReadable size e := by
  rw [presentPages, filterMap_eq_filterMap_iff fun x => presentPage_ne_none]
  exact forall_analysedPage_eq_iff

/-- **The analyser lists the leaves of a page table that was dumped**, each with its
canonical address, what it resolves to and its size, if and only if no leaf is a
page of 1 GB, each has an address below `2 ^ 32` and no bit from 11 on that is not
part of it, and the tables below the PML4 are below `2 ^ 31`. -/
theorem pagingDumpPageTable_analysed_iff (L : LogContext) (hhdm : BitVec 64) (pml4 : TablePtr)
    (s : Machine σ) (idx : DumpIndices) :
    (∃ out idx', (pagingDumpPageTable L hhdm s.mem pml4 .pml4 idx).Runs ⟨.info⟩ out idx' ⟨.info⟩ ∧
      getPages (filterInput out) = some (presentPages hhdm pml4 s)) ↔ Analysable hhdm pml4 s := by
  constructor
  · rintro ⟨out, idx', hrun, hpages⟩
    rw [getPages_of_runs le_rfl hrun] at hpages
    exact ⟨representable_iff.mp (representable_of_runs hrun),
      filterMap_analysedPage_iff.mp (Option.some.inj hpages)⟩
  · intro h
    obtain ⟨idx', hrun⟩ := pagingDumpPageTable_runs (L := L) (b := ⟨.info⟩) le_rfl
      (representable_iff.mpr h.table_lt) idx
    refine ⟨_, idx', hrun, ?_⟩
    rw [getPages_of_runs le_rfl hrun, filterMap_analysedPage_iff.mpr h.leaf_readable]

end Leaves

/-- A page table with one page of 4 kB, at the address 0 and with the frame 0x5000,
whose entry has an available bit set. -/
def availableBitMachine : Machine Unit where
  mem t i :=
    if i = 0#9 then
      if t = 0x1000#64 then 0x2003#64
      else if t = 0x2000#64 then 0x3003#64
      else if t = 0x3000#64 then 0x4003#64
      else if t = 0x4000#64 then 0x5803#64
      else 0#64
    else 0#64
  pmm := ()
  trace := []

/-- The available bit is taken for a part of the address. -/
theorem pagingDumpPageTable_not_analysed :
    ¬ ∃ out idx', (pagingDumpPageTable
        ⟨stringLiteral "src/logging.c", stringLiteral "src/memory/paging.c", stringLiteral ""⟩
        0#64 availableBitMachine.mem 0x1000#64 .pml4 ⟨-1#16, -1#16, -1#16, -1#16⟩).Runs
          ⟨.info⟩ out idx' ⟨.info⟩ ∧
      getPages (filterInput out) = some (presentPages 0#64 0x1000#64 availableBitMachine) := by
  rintro ⟨out, idx', hrun, hpages⟩
  rw [getPages_of_runs le_rfl hrun] at hpages
  -- the one leaf, of which bit 11 would have to be clear
  have hleaf : pageSlot 0#64 availableBitMachine.mem 0x1000#64 (pagePath .kb4 0#64)
      = .leaf 0x5803#64 := rfl
  obtain ⟨-, -, hclear⟩ := filterMap_analysedPage_iff.mp (Option.some.inj hpages) _ _ _ hleaf
  exact absurd (hclear 11 le_rfl (by decide)) (by decide)
