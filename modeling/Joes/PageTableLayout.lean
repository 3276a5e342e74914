import Joes.BitLayout
import Joes.PageTableEntry

/-!
# The layouts of page table entries

`union page_table_entry_t` has six views of an entry, one for each combination of a
level and a type that occurs in a walk, and each is a structure of packed bit fields
with a `base_address` at its own place. They are kept here as the lists of their
fields, and all that is said about a place in an entry is computed from them.

`paging_create_entry` assigns to the base address of one of the views, and
`paging_get_flags_from_entry` has a mask that is to be all but that field. That the
two and the six views describe one division of an entry is a matter of
`EntryView.pagingCreateEntry_eq` and `EntryView.pagingGetFlagsFromEntry_eq`, which
compare field by field and mask by mask. The rest is about layouts, and so are the
facts about entries on which the walks rely.
-/

/-- The names of the bit fields. -/
inductive EntryField where
  | present | writable | userLevel | pageWriteThrough | pageCacheDisable | accessed | dirty
  | pageSize | global | pageAttributeTable | available1 | available2 | available3 | baseAddress
  | reserved | reserved1 | reserved2 | protectionKey | disableExecution
  deriving DecidableEq, Repr

/-- The views of `union page_table_entry_t`. -/
inductive EntryView where
  /-- `pml4.pointer_fields` -/
  | pml4Pointer
  /-- `pdpr.pointer_fields` -/
  | pdprPointer
  /-- `pdpr.page_fields` -/
  | pdprPage
  /-- `pd.pointer_fields` -/
  | pdPointer
  /-- `pd.page_fields` -/
  | pdPage
  /-- `pt.page_fields` -/
  | ptPage
  deriving DecidableEq, Repr

namespace EntryView

/-- The level of the entries with this view. -/
def level : EntryView → PageTableLevel
  | pml4Pointer => .pml4
  | pdprPointer | pdprPage => .pdpr
  | pdPointer | pdPage => .pd
  | ptPage => .pt

/-- The type of the entries with this view. -/
def type : EntryView → PageTableEntryType
  | pml4Pointer | pdprPointer | pdPointer => .pointer
  | pdprPage | pdPage | ptPage => .page

/-- The size of what an entry with this view points to: a table or a page. -/
def size : EntryView → PageSize
  | pml4Pointer | pdprPointer | pdPointer | ptPage => .kb4
  | pdPage => .mb2
  | pdprPage => .gb1

/-- The bit fields, from the lowest bit on. -/
def fields : EntryView → BitLayout EntryField
  | pml4Pointer =>
    [(.present, 1), (.writable, 1), (.userLevel, 1), (.pageWriteThrough, 1),
      (.pageCacheDisable, 1), (.accessed, 1), (.available1, 1), (.reserved1, 1),
      (.available2, 4), (.baseAddress, 28), (.reserved2, 12), (.available3, 11),
      (.disableExecution, 1)]
  | pdprPointer =>
    [(.present, 1), (.writable, 1), (.userLevel, 1), (.pageWriteThrough, 1),
      (.pageCacheDisable, 1), (.accessed, 1), (.dirty, 1), (.pageSize, 1),
      (.available1, 4), (.baseAddress, 28), (.reserved, 12), (.available2, 11),
      (.disableExecution, 1)]
  | pdprPage =>
    [(.present, 1), (.writable, 1), (.userLevel, 1), (.pageWriteThrough, 1),
      (.pageCacheDisable, 1), (.accessed, 1), (.dirty, 1), (.pageSize, 1), (.global, 1),
      (.available1, 3), (.pageAttributeTable, 1), (.reserved1, 17), (.baseAddress, 10),
      (.reserved2, 12), (.available2, 7), (.protectionKey, 4), (.disableExecution, 1)]
  | pdPointer =>
    [(.present, 1), (.writable, 1), (.userLevel, 1), (.pageWriteThrough, 1),
      (.pageCacheDisable, 1), (.accessed, 1), (.dirty, 1), (.pageSize, 1),
      (.available1, 4), (.baseAddress, 28), (.reserved, 12), (.available2, 11),
      (.disableExecution, 1)]
  | pdPage =>
    [(.present, 1), (.writable, 1), (.userLevel, 1), (.pageWriteThrough, 1),
      (.pageCacheDisable, 1), (.accessed, 1), (.dirty, 1), (.pageSize, 1), (.global, 1),
      (.available1, 3), (.pageAttributeTable, 1), (.reserved1, 8), (.baseAddress, 19),
      (.reserved2, 12), (.available2, 7), (.protectionKey, 4), (.disableExecution, 1)]
  | ptPage =>
    [(.present, 1), (.writable, 1), (.userLevel, 1), (.pageWriteThrough, 1),
      (.pageCacheDisable, 1), (.accessed, 1), (.dirty, 1), (.pageAttributeTable, 1),
      (.global, 1), (.available1, 3), (.baseAddress, 28), (.reserved, 12), (.available2, 7),
      (.protectionKey, 4), (.disableExecution, 1)]

/-- `base_address`, shifted back. -/
def baseAddress (view : EntryView) (e : PageTableEntry) : BitVec 64 :=
  (view.fields.get .baseAddress e).setWidth 64 <<< view.size.shift

/-- **The combinations of level and type**: a view is there for each, but for a page
in the PML4 and a pointer in the PT. -/
theorem exists_view_iff (level : PageTableLevel) (type : PageTableEntryType) :
    (∃ view : EntryView, view.level = level ∧ view.type = type) ↔
      ¬ (level = .pml4 ∧ type = .page) ∧ ¬ (level = .pt ∧ type = .pointer) := by
  constructor
  · rintro ⟨view, rfl, rfl⟩
    cases view <;> decide
  · intro h
    cases level <;> cases type
    · exact ⟨pml4Pointer, rfl, rfl⟩
    · exact absurd ⟨rfl, rfl⟩ h.1
    · exact ⟨pdprPointer, rfl, rfl⟩
    · exact ⟨pdprPage, rfl, rfl⟩
    · exact ⟨pdPointer, rfl, rfl⟩
    · exact ⟨pdPage, rfl, rfl⟩
    · exact absurd ⟨rfl, rfl⟩ h.2
    · exact ⟨ptPage, rfl, rfl⟩

variable (view : EntryView)

/-- The fields of a view are the 64 bits of an entry. -/
theorem size_fields : view.fields.size = 64 := by cases view <;> rfl

/-- The base address starts where the addresses of its size do. -/
theorem offset_baseAddress : view.fields.offset .baseAddress = view.size.shift := by
  cases view <;> rfl

/-- And ends at bit 40. -/
theorem width_baseAddress : view.fields.width .baseAddress = 40 - view.size.shift := by
  cases view <;> rfl

/-- **`paging_create_entry` assigns to the base address** of the view. -/
theorem pagingCreateEntry_eq (base flags : BitVec 64) :
    pagingCreateEntry base flags view.level view.type =
      view.fields.set .baseAddress flags ((base >>> view.size.shift).setWidth _) := by
  cases view <;> rfl

/-- **The mask of `paging_get_flags_from_entry`** is all but the base address. -/
theorem pagingGetFlagsFromEntry_eq (e : PageTableEntry) :
    pagingGetFlagsFromEntry e view.level view.type =
      e &&& ~~~view.fields.mask .baseAddress 64 := by
  refine congrArg (fun m => e &&& m) ?_
  cases view <;> decide

/-- The base address of a pointer is the address of the table it points to. -/
theorem baseAddress_of_pointer (h : view.type = .pointer) (e : PageTableEntry) :
    view.baseAddress e = e.tableAddress := by
  cases view with
  | pml4Pointer | pdprPointer | pdPointer => rfl
  | pdprPage | pdPage | ptPage => cases h

/-- And that of a leaf the address of the page it maps. -/
theorem baseAddress_of_page (h : view.type = .page) (e : PageTableEntry) :
    view.baseAddress e = e.pageBase view.size := by
  cases view with
  | pml4Pointer | pdprPointer | pdPointer => cases h
  | pdprPage | pdPage | ptPage => rfl

/-- Every view has `present` at the same bit. -/
theorem get_present (e : PageTableEntry) :
    (view.fields.get .present e).getLsbD 0 = e.present := by
  rw [BitLayout.get, BitField.getLsbD_read, PageTableEntry.present]
  cases view <;> rfl

/-- And every view that has `page_size` has that. -/
theorem get_pageSize (h : view.fields.width .pageSize ≠ 0) (e : PageTableEntry) :
    (view.fields.get .pageSize e).getLsbD 0 = e.pageSize := by
  rw [BitLayout.get, BitField.getLsbD_read, PageTableEntry.pageSize]
  cases view with
  | pml4Pointer | ptPage => exact absurd rfl h
  | pdprPointer | pdprPage | pdPointer | pdPage => rfl

/-- The base address that is assigned is read, if it is a multiple of its size
below `2 ^ 40`. -/
theorem baseAddress_pagingCreateEntry {base : BitVec 64} (hbase : IsFrame view.size base)
    (flags : BitVec 64) :
    view.baseAddress (pagingCreateEntry base flags view.level view.type) = base := by
  rw [baseAddress, pagingCreateEntry_eq, BitLayout.get_set view.size_fields.le]
  have hshift := view.size.shift_le
  have hwidth := view.width_baseAddress
  refine BitField.read_setWidth_shiftLeft base _ (by omega) fun i _ hi => ?_
  obtain ⟨hlo, hhi⟩ := hbase.getLsbD hi
  omega

/-- **The other fields of an entry** are those of its flags. -/
theorem get_pagingCreateEntry {f : EntryField} (hf : f ≠ .baseAddress) (base flags : BitVec 64) :
    view.fields.get f (pagingCreateEntry base flags view.level view.type) =
      view.fields.get f flags := by
  rw [pagingCreateEntry_eq]
  exact BitLayout.get_set_of_ne view.size_fields.le hf.symm _ _

/-- **What an entry is divided into is put together again.** -/
theorem pagingCreateEntry_baseAddress_getFlags (e : PageTableEntry) :
    pagingCreateEntry (view.baseAddress e) (pagingGetFlagsFromEntry e view.level view.type)
      view.level view.type = e := by
  have hoffset := view.offset_baseAddress
  have hsize := view.size_fields
  have hle := BitLayout.offset_add_width_le view.fields .baseAddress
  rw [pagingCreateEntry_eq, pagingGetFlagsFromEntry_eq, baseAddress,
    BitField.setWidth_shiftLeft_shiftRight _ _ (by omega)]
  exact BitLayout.set_get hsize.le e

/-- Flags with nothing in the place of the base address are found in the entry. -/
theorem pagingGetFlagsFromEntry_pagingCreateEntry {flags : BitVec 64}
    (hflags : view.fields.get .baseAddress flags = 0) (base : BitVec 64) :
    pagingGetFlagsFromEntry (pagingCreateEntry base flags view.level view.type)
      view.level view.type = flags := by
  have hsize := view.size_fields.le
  rw [pagingGetFlagsFromEntry_eq, pagingCreateEntry_eq, BitLayout.set_and_not_mask hsize]
  exact (BitLayout.and_not_mask_eq_iff hsize flags).mpr hflags

/-- **An entry is divided** in its base address and its flags, and put together from
them; and a base address and flags that fit are found again in the entry made of them. -/
theorem split_build :
    (∀ e : PageTableEntry,
      pagingCreateEntry (view.baseAddress e) (pagingGetFlagsFromEntry e view.level view.type)
        view.level view.type = e) ∧
    ∀ base flags : BitVec 64, IsFrame view.size base → view.fields.get .baseAddress flags = 0 →
      view.baseAddress (pagingCreateEntry base flags view.level view.type) = base ∧
      pagingGetFlagsFromEntry (pagingCreateEntry base flags view.level view.type)
        view.level view.type = flags := by
  constructor
  · exact view.pagingCreateEntry_baseAddress_getFlags
  · intro base flags hbase hflags
    exact ⟨view.baseAddress_pagingCreateEntry hbase flags,
      view.pagingGetFlagsFromEntry_pagingCreateEntry hflags base⟩

/-- An entry of a PD for the third large page, with everything set that is not its
base address. -/
theorem split_build_pdPage :
    pdPage.baseAddress (pagingCreateEntry 0x400000#64 0xffffff00001fffff#64 .pd .page)
        = 0x400000#64 ∧
      pagingGetFlagsFromEntry (pagingCreateEntry 0x400000#64 0xffffff00001fffff#64 .pd .page)
        .pd .page = 0xffffff00001fffff#64 :=
  (split_build pdPage).2 _ _ (by decide) (by decide)

end EntryView

/-! ## Tables and pages -/

/-- **A pointer entry points where it was told to**, if that is the address of
a page below `2 ^ 40`. -/
theorem tableAddress_pagingCreateEntry {b : BitVec 64} (hb : IsFrame .kb4 b) (f : BitVec 64)
    {l : PageTableLevel} (hl : l ≠ .pt) :
    (pagingCreateEntry b f l .pointer).tableAddress = b := by
  cases l with
  | pml4 =>
    exact (EntryView.pml4Pointer.baseAddress_of_pointer rfl _).symm.trans
      (EntryView.pml4Pointer.baseAddress_pagingCreateEntry hb f)
  | pdpr =>
    exact (EntryView.pdprPointer.baseAddress_of_pointer rfl _).symm.trans
      (EntryView.pdprPointer.baseAddress_pagingCreateEntry hb f)
  | pd =>
    exact (EntryView.pdPointer.baseAddress_of_pointer rfl _).symm.trans
      (EntryView.pdPointer.baseAddress_pagingCreateEntry hb f)
  | pt => exact absurd rfl hl

/-- **A leaf maps the page it was told to**, if that is a page of its size
below `2 ^ 40`. -/
theorem pageBase_pagingCreateEntry {size : PageSize} {b : BitVec 64} (hb : IsFrame size b)
    (f : BitVec 64) : (pagingCreateEntry b f size.level .page).pageBase size = b := by
  cases size with
  | kb4 =>
    exact (EntryView.ptPage.baseAddress_of_page rfl _).symm.trans
      (EntryView.ptPage.baseAddress_pagingCreateEntry hb f)
  | mb2 =>
    exact (EntryView.pdPage.baseAddress_of_page rfl _).symm.trans
      (EntryView.pdPage.baseAddress_pagingCreateEntry hb f)
  | gb1 =>
    exact (EntryView.pdprPage.baseAddress_of_page rfl _).symm.trans
      (EntryView.pdprPage.baseAddress_pagingCreateEntry hb f)

/-- **Splitting a leaf and building it again gives the same word.** -/
theorem pagingCreateEntry_pageBase_getFlags (size : PageSize) (e : PageTableEntry) :
    pagingCreateEntry (e.pageBase size) (pagingGetFlagsFromEntry e size.level .page)
      size.level .page = e := by
  cases size with
  | kb4 => exact EntryView.ptPage.pagingCreateEntry_baseAddress_getFlags e
  | mb2 => exact EntryView.pdPage.pagingCreateEntry_baseAddress_getFlags e
  | gb1 => exact EntryView.pdprPage.pagingCreateEntry_baseAddress_getFlags e
