import Joes.Libc
import Joes.PageTableEntry
import Joes.TextReading

/-!
# The analyser of page table dumps

`analyze_pt_dump.py` takes the serial output of a page table dump and makes a
list of pages of it. `filter_input` drops the tag of the logger from each line
and keeps the lines of leaves; `get_pages` takes the virtual address of a page
from the indices in its line, and the physical one from the entry.

A text is a list of ASCII characters, in which lines end with a newline. An
exception, and a numeral that is more than its digits, is no result.
-/

open TextReading

namespace AnalyzePtDump

/-- The newline. -/
def newline : BitVec 8 := charByte '\n'

/-- `str.split`. -/
def split (sep : String) (line : List (BitVec 8)) : List (List (BitVec 8)) :=
  splitOnList (charBytes sep) line

/-- The value of a digit. -/
def digitValue (c : BitVec 8) : Option ℕ :=
  let n := c.toNat
  if '0'.toNat ≤ n ∧ n ≤ '9'.toNat then some (n - '0'.toNat)
  else if 'a'.toNat ≤ n ∧ n ≤ 'z'.toNat then some (n - 'a'.toNat + 10)
  else if 'A'.toNat ≤ n ∧ n ≤ 'Z'.toNat then some (n - 'A'.toNat + 10)
  else none

/-- `int`, of digits. -/
def int (base : ℕ) (text : List (BitVec 8)) : Option ℕ := readNumeral digitValue base text

/-- `Page`. -/
structure Page where
  virtAddress : ℕ
  physAddress : ℕ
  size : PageSize
  deriving DecidableEq, Repr

/-- The condition on the lines that `filter_input` keeps. -/
def IsLeafLine (line : List (BitVec 8)) : Prop :=
  charBytes "PT" <+: line ∨ charBytes "(2MB-PAGE)\n" <:+ line ∨ charBytes "(1GB-PAGE)\n" <:+ line

instance (line : List (BitVec 8)) : Decidable (IsLeafLine line) :=
  inferInstanceAs (Decidable (_ ∨ _))

/-- `filter_input`, from the content of the one file to that of the other. -/
def filterInput (input : List (BitVec 8)) : List (BitVec 8) :=
  (lines newline input).flatMap fun line =>
    let line := line.drop 8
    if IsLeafLine line then line else []

/-- `get_phys_address_from_line`. -/
def getPhysAddressFromLine (line : List (BitVec 8)) (pageSize : PageSize) : Option ℕ := do
  let physAddress ←
    match pageSize with
    | .kb4 => do
      let entry ← (split ": " line)[1]?
      int 16 (entry.filter (· ≠ newline))
    | .mb2 => do
      let entry ← (split ": " line)[1]?
      let entry ← (split " " entry)[0]?
      int 16 entry
    | .gb1 => none
  -- `& ~0x7ff`, and then `& 0xffffffffff`
  pure (Nat.ldiff physAddress 0x7ff &&& 0xffffffffff)

/-- The virtual address of indices in `get_virt_address_from_line`. -/
def virtAddressOfIndices (pml4Idx pdprIdx pdIdx ptIdx : ℕ) : ℕ :=
  let signExtension := if pml4Idx >>> 8 = 1 then 0xffff else 0
  signExtension <<< 48 ||| pml4Idx <<< 39 ||| pdprIdx <<< 30 ||| pdIdx <<< 21 ||| ptIdx <<< 12

/-- `get_virt_address_from_line`. -/
def getVirtAddressFromLine (line : List (BitVec 8)) (pageSize : PageSize) : Option ℕ := do
  let line ← (split ": " line)[0]?
  match pageSize with
  | .kb4 => do
    let pml4Idx ← int 10 (← (split "-" line)[1]?)
    let pdprIdx ← int 10 (← (split "-" line)[2]?)
    let pdIdx ← int 10 (← (split "@" (← (split "-" line)[3]?))[0]?)
    let ptIdx ← int 10 (← (split "@" line)[1]?)
    pure (virtAddressOfIndices pml4Idx pdprIdx pdIdx ptIdx)
  | .mb2 => do
    let pml4Idx ← int 10 (← (split "-" line)[1]?)
    let pdprIdx ← int 10 (← (split "@" (← (split "-" line)[2]?))[0]?)
    let pdIdx ← int 10 (← (split "@" line)[1]?)
    pure (virtAddressOfIndices pml4Idx pdprIdx pdIdx 0)
  | .gb1 => none

/-- The page of a line of a size. -/
def getPage (line : List (BitVec 8)) (pageSize : PageSize) : Option Page := do
  let virt ← getVirtAddressFromLine line pageSize
  let phys ← getPhysAddressFromLine line pageSize
  pure ⟨virt, phys, pageSize⟩

/-- The loop of `get_pages`. -/
def getPagesLoop : List (List (BitVec 8)) → Option (List Page)
  | [] => some []
  | line :: lines =>
    if charBytes "PT" <+: line then do
      let page ← getPage line .kb4
      let pages ← getPagesLoop lines
      pure (page :: pages)
    else if charBytes "(2MB-PAGE)" <:+: line then do
      let page ← getPage line .mb2
      let pages ← getPagesLoop lines
      pure (page :: pages)
    else getPagesLoop lines

/-- `get_pages`, of the content of a file. -/
def getPages (input : List (BitVec 8)) : Option (List Page) :=
  getPagesLoop (lines newline input)

/-! ## Splitting and numerals -/

theorem split_append {sep : String} {x : BitVec 8} {xs piece : List (BitVec 8)}
    (hsep : charBytes sep = x :: xs) (h : x ∉ piece) (text : List (BitVec 8)) :
    split sep (piece ++ (charBytes sep ++ text)) = piece :: split sep text := by
  unfold split
  rw [hsep]
  exact splitOnList_append h text

theorem split_of_not_mem {sep : String} {x : BitVec 8} {xs text : List (BitVec 8)}
    (hsep : charBytes sep = x :: xs) (h : x ∉ text) : split sep text = [text] := by
  unfold split
  rw [hsep]
  exact splitOnList_of_not_mem h

theorem digitValue_digitChar {d : ℕ} (h : d < 36) : digitValue (digitChar d) = some d := by
  have hall : ∀ d : Fin 36, digitValue (digitChar d) = some d.val := by decide
  exact hall ⟨d, h⟩

/-- **A numeral is read as its number.** -/
theorem int_numeral {base : ℕ} (hbase : 2 ≤ base) (hbase' : base ≤ 36) (n : ℕ) :
    int base (numeral base n) = some n := by
  have hdigit : ∀ d < base, d < base ∧ digitValue (digitChar d) = some d := fun d hd =>
    ⟨hd, digitValue_digitChar (by omega)⟩
  unfold int numeral
  by_cases hn : n = 0
  · subst hn
    rw [if_pos rfl]
    have hzero := readNumeral_digits (List.cons_ne_nil 0 [])
      (List.forall_mem_singleton.mpr (hdigit 0 (by omega)))
    rwa [Nat.ofDigits_singleton] at hzero
  · rw [if_neg hn, readNumeral_digits (Nat.digits_ne_nil_iff_ne_zero.mpr hn) fun d hd =>
      hdigit d (Nat.digits_lt_base hbase hd), Nat.ofDigits_digits]

/-- A character that is no digit is in no numeral. -/
theorem not_mem_numeral {base n : ℕ} (hbase : 2 ≤ base) (hbase' : base ≤ 36) {c : BitVec 8}
    (hc : digitValue c = none) : c ∉ numeral base n := by
  intro hmem
  obtain ⟨d, hd, rfl⟩ := mem_numeral hbase hmem
  rw [digitValue_digitChar (by omega)] at hc
  cases hc

end AnalyzePtDump
