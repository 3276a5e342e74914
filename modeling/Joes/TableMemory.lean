import Joes.MemoryFunctions
import Joes.Paging

/-!
# The bytes of page tables

The paging code works on tables of 512 words. In the memory a table is 4096 bytes that start
at a multiple of 4096, with the lowest byte of a word first. There the code clears a table
with `memset`, and an assignment to an entry stores its 8 bytes. Both change what they are
meant to change in the tables that the bytes hold, and nothing else (`tablesOf_memset`,
`tablesOf_storeWord`).

A word depends on its 8 bytes (`wordAt_congr`), so it is to be told of each byte of an entry
whether it was written. A byte of an entry is among the 4096 bytes of a table exactly if the
entry is one of that table (`offset_table`), and among the 8 bytes of an entry exactly if it
is that entry (`offset_entry`). Both rest on the alignment: ranges of 4096 bytes that start at
multiples of 4096 are the same or apart, and so are ranges of 8 bytes in them. Addresses wrap
around, and it does not matter, as 4096 divides `2 ^ 64`.

The code takes the address of a table from an entry, which has room for its upper bits only,
so such a table is always aligned (`aligned_tableAddress`), and with an aligned direct map the
place where it is found is, too (`Aligned.add`).
-/

open PageTableEntry

/-- `memset` fills the range. -/
theorem memsetLoop_eq (s : BitVec 64) (c : BitVec 8) {n : ℕ} {i : BitVec 64}
    (hn : i.toNat + n < 2 ^ 64) (mem : ByteMemory) (a : BitVec 64) :
    memsetLoop s c n i mem a
      = if i.toNat ≤ (a - s).toNat ∧ (a - s).toNat < i.toNat + n then c else mem a := by
  induction n generalizing i mem with
  | zero => exact (if_neg fun h => by omega).symm
  | succ n ih =>
    have hnext : (i + 1#64).toNat = i.toNat + 1 := by bv_omega
    rw [memsetLoop, ih (by omega), hnext]
    by_cases ha : a = s + i
    · have hoffset : (a - s).toNat = i.toNat := by bv_omega
      rw [ha, Function.update_self, ← ha, if_neg (by omega), if_pos (by omega)]
    · have hoffset : (a - s).toNat ≠ i.toNat := by bv_omega
      rw [Function.update_of_ne ha]
      exact if_congr (by omega) rfl rfl

theorem memset_eq (s : BitVec 64) (c : BitVec 32) (n : BitVec 64) (mem : ByteMemory) :
    memset s c n mem
      = (s, fun a => if (a - s).toNat < n.toNat then c.setWidth 8 else mem a) := by
  refine congrArg (Prod.mk s) (funext fun a => ?_)
  rw [memsetLoop_eq s _ (by simpa using n.isLt)]
  exact if_congr (by simp) rfl rfl

/-! ## Words in the memory -/

/-- **The word** at an address, with its lowest byte first. -/
def wordAt (mem : ByteMemory) (a : BitVec 64) : BitVec 64 :=
  mem (a + 7#64) ++ mem (a + 6#64) ++ mem (a + 5#64) ++ mem (a + 4#64) ++ mem (a + 3#64) ++
    mem (a + 2#64) ++ mem (a + 1#64) ++ mem a

/-- An assignment to the word at an address. -/
def storeWord (a w : BitVec 64) (mem : ByteMemory) : ByteMemory := fun x =>
  if (x - a).toNat < 8 then w.extractLsb' (8 * (x - a).toNat) 8 else mem x

/-- Words are the same where their bytes are. -/
theorem wordAt_congr (mem mem' : ByteMemory) {a : BitVec 64}
    (h : ∀ k < 8, mem' (a + BitVec.ofNat 64 k) = mem (a + BitVec.ofNat 64 k)) :
    wordAt mem' a = wordAt mem a := by
  have hzero := h 0 (by decide)
  rw [show a + BitVec.ofNat 64 0 = a from BitVec.add_zero a] at hzero
  unfold wordAt
  rw [show mem' (a + 7#64) = _ from h 7 (by decide), show mem' (a + 6#64) = _ from h 6 (by decide),
    show mem' (a + 5#64) = _ from h 5 (by decide), show mem' (a + 4#64) = _ from h 4 (by decide),
    show mem' (a + 3#64) = _ from h 3 (by decide), show mem' (a + 2#64) = _ from h 2 (by decide),
    show mem' (a + 1#64) = _ from h 1 (by decide), hzero]

/-- A word that was stored is read. -/
theorem wordAt_storeWord (a w : BitVec 64) (mem : ByteMemory) :
    wordAt (storeWord a w mem) a = w := by
  have hbyte : ∀ k < 8, storeWord a w mem (a + BitVec.ofNat 64 k) = w.extractLsb' (8 * k) 8 := by
    intro k hk
    have hoffset : (a + BitVec.ofNat 64 k - a).toNat = k := by bv_omega
    unfold storeWord
    rw [hoffset, if_pos hk]
  have hzero := hbyte 0 (by decide)
  rw [show a + BitVec.ofNat 64 0 = a from BitVec.add_zero a] at hzero
  unfold wordAt
  rw [show storeWord a w mem (a + 7#64) = _ from hbyte 7 (by decide),
    show storeWord a w mem (a + 6#64) = _ from hbyte 6 (by decide),
    show storeWord a w mem (a + 5#64) = _ from hbyte 5 (by decide),
    show storeWord a w mem (a + 4#64) = _ from hbyte 4 (by decide),
    show storeWord a w mem (a + 3#64) = _ from hbyte 3 (by decide),
    show storeWord a w mem (a + 2#64) = _ from hbyte 2 (by decide),
    show storeWord a w mem (a + 1#64) = _ from hbyte 1 (by decide), hzero]
  rw [BitVec.extractLsb'_append_extractLsb'_eq_extractLsb' (show 8 * 7 = 8 * 6 + 8 from rfl),
    BitVec.extractLsb'_append_extractLsb'_eq_extractLsb' (show 8 * 6 = 8 * 5 + 8 from rfl),
    BitVec.extractLsb'_append_extractLsb'_eq_extractLsb' (show 8 * 5 = 8 * 4 + 8 from rfl),
    BitVec.extractLsb'_append_extractLsb'_eq_extractLsb' (show 8 * 4 = 8 * 3 + 8 from rfl),
    BitVec.extractLsb'_append_extractLsb'_eq_extractLsb' (show 8 * 3 = 8 * 2 + 8 from rfl),
    BitVec.extractLsb'_append_extractLsb'_eq_extractLsb' (show 8 * 2 = 8 * 1 + 8 from rfl),
    BitVec.extractLsb'_append_extractLsb'_eq_extractLsb' (show 8 * 1 = 8 * 0 + 8 from rfl)]
  exact BitVec.extractLsb'_eq_self

theorem wordAt_zero (a : BitVec 64) : wordAt (fun _ => 0#8) a = 0#64 := by
  show (0#8 ++ 0#8 ++ 0#8 ++ 0#8 ++ 0#8 ++ 0#8 ++ 0#8 ++ 0#8 : BitVec 64) = 0#64
  decide

/-! ## Tables in the memory -/

/-- **The tables** that the bytes hold. -/
def tablesOf (mem : ByteMemory) (t : TablePtr) (i : TableIndex) : PageTableEntry :=
  wordAt mem (t + i.setWidth 64 * 8#64)

/-- A table is aligned. -/
def Aligned (t : TablePtr) : Prop := t.toNat % 4096 = 0

instance (t : TablePtr) : Decidable (Aligned t) :=
  inferInstanceAs (Decidable (t.toNat % 4096 = 0))

theorem Aligned.add {t u : TablePtr} (ht : Aligned t) (hu : Aligned u) : Aligned (t + u) := by
  unfold Aligned at ht hu ⊢
  rw [BitVec.toNat_add]
  omega

theorem aligned_tableAddress (e : PageTableEntry) : Aligned e.tableAddress := by
  unfold Aligned tableAddress
  rw [BitVec.toNat_shiftLeft, Nat.shiftLeft_eq]
  omega

variable {mem : ByteMemory} {t u : TablePtr} {i j : TableIndex}

/-- A byte of an entry of a table, by its offset from a table, and from an entry. -/
theorem offset_table (ht : Aligned t) (hu : Aligned u) {k : ℕ} (hk : k < 8) :
    (u + j.setWidth 64 * 8#64 + BitVec.ofNat 64 k - t).toNat < 4096 ↔ u = t := by
  have hj : (j.setWidth 64).toNat = j.toNat := BitVec.toNat_setWidth_of_le (by decide)
  have hlt := j.isLt
  unfold Aligned at ht hu
  constructor
  · intro h
    bv_omega
  · rintro rfl
    bv_omega

theorem offset_entry (ht : Aligned t) (hu : Aligned u) {k : ℕ} (hk : k < 8) :
    (u + j.setWidth 64 * 8#64 + BitVec.ofNat 64 k - (t + i.setWidth 64 * 8#64)).toNat < 8 ↔
      u = t ∧ j = i := by
  have hj : (j.setWidth 64).toNat = j.toNat := BitVec.toNat_setWidth_of_le (by decide)
  have hi : (i.setWidth 64).toNat = i.toNat := BitVec.toNat_setWidth_of_le (by decide)
  have hjlt := j.isLt
  have hilt := i.isLt
  unfold Aligned at ht hu
  constructor
  · intro h
    have htable : u = t := by bv_omega
    subst htable
    exact ⟨rfl, by bv_omega⟩
  · rintro ⟨rfl, rfl⟩
    bv_omega

/-- **Clearing a table** clears that table, and no other one. -/
theorem tablesOf_memset (ht : Aligned t) (hu : Aligned u) :
    tablesOf (memset t 0#32 0x1000#64 mem).2 u j = if u = t then 0#64 else tablesOf mem u j := by
  rw [memset_eq]
  by_cases htable : u = t
  · rw [if_pos htable]
    refine (wordAt_congr (fun _ => 0#8) _ fun k hk => ?_).trans (wordAt_zero _)
    exact if_pos ((offset_table ht hu hk).mpr htable)
  · rw [if_neg htable]
    exact wordAt_congr _ _ fun k hk => if_neg (mt (offset_table ht hu hk).mp htable)

/-- **Assigning to an entry** changes that entry, and no other one. -/
theorem tablesOf_storeWord (ht : Aligned t) (hu : Aligned u) (e : PageTableEntry) :
    tablesOf (storeWord (t + i.setWidth 64 * 8#64) e mem) u j
      = if u = t ∧ j = i then e else tablesOf mem u j := by
  by_cases hentry : u = t ∧ j = i
  · obtain ⟨rfl, rfl⟩ := hentry
    rw [if_pos ⟨rfl, rfl⟩]
    exact wordAt_storeWord _ e mem
  · rw [if_neg hentry]
    exact wordAt_congr _ _ fun k hk => if_neg (mt (offset_entry ht hu hk).mp hentry)
