import Joes.AnalyzePtDump
import Joes.Segments

/-!
# The blocks of a page table dump

`get_memory_blocks` puts the pages of a dump together to blocks: in one pass it keeps
the block it is at, and where the last page was. A page, or a block, is a segment of
pairs of a virtual and a physical byte, and once a page is seen the pass is that of
`Segment.coalesceFrom` (`getMemoryBlocks_cons`).

The two do not ask the same thing. The pass starts a new block if one of the two
addresses is not as far from that of the last page as that page is long; segments are
joined if the second one starts where the first one ends. They agree since the block
that the pass is at ends where the last page does, in both addresses
(`MemoryBlocksLocals.AtBlock`). This holds from the first page on, which starts a block
because the variables are negative before it, and each page keeps it, whether it joins
the block or ends it (`memoryBlocksStep_atBlock`). Pages of different sizes are no
exception, as only the size of the last one is asked for.

What the theorem says about the blocks is then what `Segment` says about any list of
segments: their points are those of the pages in the same order, and no block starts
where the one before it ends (`getMemoryBlocks_lossless_maximal`).
-/

namespace AnalyzePtDump

/-- `MemoryBlock`. -/
structure MemoryBlock where
  virtBaseAddress : ℤ
  physBaseAddress : ℤ
  size : ℕ
  deriving DecidableEq, Repr

/-- `page_size` in `get_memory_blocks`. -/
def pageBytes (size : PageSize) : ℕ := if size = .kb4 then 0x1000 else 2 * 2 ^ 20

/-- The variables of `get_memory_blocks`, which are negative until a page is seen. -/
structure MemoryBlocksLocals where
  memoryBlocks : List MemoryBlock := []
  virtBaseAddress : ℤ := -1
  physBaseAddress : ℤ := -1
  size : ℕ := 0
  lastVirtAddress : ℤ := -1
  lastPhysAddress : ℤ := -1
  lastPageSize : ℤ := -1
  deriving DecidableEq, Repr

/-- The block that the pass is at. -/
def MemoryBlocksLocals.block (s : MemoryBlocksLocals) : MemoryBlock :=
  ⟨s.virtBaseAddress, s.physBaseAddress, s.size⟩

/-- The body of the loop of `get_memory_blocks`. -/
def memoryBlocksStep (s : MemoryBlocksLocals) (page : Page) : MemoryBlocksLocals :=
  let pageSize := pageBytes page.size
  let s :=
    if s.virtBaseAddress < 0 then
      { s with
        virtBaseAddress := page.virtAddress
        physBaseAddress := page.physAddress
        size := pageSize }
    else if page.physAddress - s.lastPhysAddress ≠ s.lastPageSize
        ∨ page.virtAddress - s.lastVirtAddress ≠ s.lastPageSize then
      { s with
        memoryBlocks := s.memoryBlocks ++ [s.block]
        virtBaseAddress := page.virtAddress
        physBaseAddress := page.physAddress
        size := pageSize }
    else { s with size := s.size + pageSize }
  { s with
    lastVirtAddress := page.virtAddress
    lastPhysAddress := page.physAddress
    lastPageSize := pageSize }

/-- `get_memory_blocks`. -/
def getMemoryBlocks (pages : List Page) : List MemoryBlock :=
  let s := pages.foldl memoryBlocksStep {}
  s.memoryBlocks ++ [s.block]

/-! ## The bytes -/

/-- The segment of byte pairs of a block. -/
def MemoryBlock.segment (b : MemoryBlock) : Segment (ℤ × ℤ) :=
  ⟨(b.virtBaseAddress, b.physBaseAddress), b.size⟩

/-- **The byte pairs of a block**, the bytes it maps and what they are mapped to. -/
def MemoryBlock.bytePairs (b : MemoryBlock) : List (ℤ × ℤ) :=
  (List.range b.size).map fun o : ℕ => (b.virtBaseAddress + o, b.physBaseAddress + o)

/-- Two blocks are contiguous in virtual and in physical addresses. -/
def MemoryBlock.Contiguous (b c : MemoryBlock) : Prop :=
  c.virtBaseAddress = b.virtBaseAddress + b.size ∧ c.physBaseAddress = b.physBaseAddress + b.size

/-- **The byte pairs of a page.** -/
def Page.bytePairs (p : Page) : List (ℤ × ℤ) :=
  (List.range (2 ^ p.size.shift)).map fun o : ℕ => (p.virtAddress + o, p.physAddress + o)

/-- The segment of byte pairs of a page. -/
def Page.segment (p : Page) : Segment (ℤ × ℤ) :=
  ⟨(p.virtAddress, p.physAddress), pageBytes p.size⟩

/-- A step of one byte in both addresses. -/
abbrev bytePair : ℤ × ℤ := (1, 1)

theorem nsmul_bytePair (n : ℕ) : n • bytePair = ((n : ℤ), (n : ℤ)) := by simp

theorem MemoryBlock.points_segment (b : MemoryBlock) : b.segment.points bytePair = b.bytePairs := by
  refine List.map_congr_left fun o _ => ?_
  rw [nsmul_bytePair]
  rfl

theorem MemoryBlock.adjacent_segment {b c : MemoryBlock} :
    b.segment.Adjacent bytePair c.segment ↔ b.Contiguous c := by
  unfold Segment.Adjacent
  rw [nsmul_bytePair]
  exact Prod.mk_inj

theorem Page.points_segment {p : Page} (h : p.size = .kb4 ∨ p.size = .mb2) :
    p.segment.points bytePair = p.bytePairs := by
  have hsize : pageBytes p.size = 2 ^ p.size.shift := by
    rcases h with h | h <;> rw [h] <;> rfl
  unfold Segment.points Page.bytePairs
  simp only [nsmul_bytePair, Page.segment, hsize]
  rfl

/-! ## The pass -/

/-- **Where the pass is** once it has seen a page: its block ends where the last page
does. -/
structure MemoryBlocksLocals.AtBlock (s : MemoryBlocksLocals) : Prop where
  virt_nonneg : 0 ≤ s.virtBaseAddress
  virt_eq : s.lastVirtAddress + s.lastPageSize = s.virtBaseAddress + s.size
  phys_eq : s.lastPhysAddress + s.lastPageSize = s.physBaseAddress + s.size

/-- The first page starts a block. -/
theorem memoryBlocksStep_init (page : Page) :
    (memoryBlocksStep {} page).AtBlock ∧ (memoryBlocksStep {} page).memoryBlocks = []
      ∧ (memoryBlocksStep {} page).block.segment = page.segment :=
  ⟨⟨Int.natCast_nonneg _, rfl, rfl⟩, rfl, rfl⟩

/-- **A page joins the block** if it is adjacent to it, and else ends it. -/
theorem memoryBlocksStep_atBlock {s : MemoryBlocksLocals} (h : s.AtBlock) (page : Page) :
    (memoryBlocksStep s page).AtBlock ∧
      if s.block.segment.Adjacent bytePair page.segment then
        (memoryBlocksStep s page).memoryBlocks = s.memoryBlocks
          ∧ (memoryBlocksStep s page).block.segment = s.block.segment.join page.segment
      else
        (memoryBlocksStep s page).memoryBlocks = s.memoryBlocks ++ [s.block]
          ∧ (memoryBlocksStep s page).block.segment = page.segment := by
  have hadj : s.block.segment.Adjacent bytePair page.segment
      ↔ ¬ (page.physAddress - s.lastPhysAddress ≠ s.lastPageSize
        ∨ page.virtAddress - s.lastVirtAddress ≠ s.lastPageSize) := by
    have hpair : s.block.segment.Adjacent bytePair page.segment
        ↔ (page.virtAddress : ℤ) = s.virtBaseAddress + s.size
          ∧ (page.physAddress : ℤ) = s.physBaseAddress + s.size := by
      unfold Segment.Adjacent
      rw [nsmul_bytePair]
      exact Prod.mk_inj
    have hvirt := h.virt_eq
    have hphys := h.phys_eq
    rw [hpair]
    omega
  have hnonneg : ¬ s.virtBaseAddress < 0 := not_lt.mpr h.virt_nonneg
  unfold memoryBlocksStep
  by_cases hbreak : page.physAddress - s.lastPhysAddress ≠ s.lastPageSize
      ∨ page.virtAddress - s.lastVirtAddress ≠ s.lastPageSize
  · rw [if_neg (mt hadj.mp (not_not.mpr hbreak))]
    simp only [if_neg hnonneg, if_pos hbreak]
    exact ⟨⟨Int.natCast_nonneg _, rfl, rfl⟩, trivial, rfl⟩
  · have hjoin := hadj.mpr hbreak
    rw [if_pos hjoin]
    simp only [if_neg hnonneg, if_neg hbreak]
    have hvirt := h.virt_eq
    have hphys := h.phys_eq
    refine ⟨⟨h.virt_nonneg, ?_, ?_⟩, trivial, rfl⟩ <;> push_cast <;> omega

/-- **The pass is that of `coalesceFrom`**, behind the blocks it has made. -/
theorem foldl_memoryBlocksStep {s : MemoryBlocksLocals} (h : s.AtBlock) (pages : List Page) :
    ((pages.foldl memoryBlocksStep s).memoryBlocks
        ++ [(pages.foldl memoryBlocksStep s).block]).map MemoryBlock.segment
      = s.memoryBlocks.map MemoryBlock.segment
        ++ Segment.coalesceFrom bytePair s.block.segment (pages.map Page.segment) := by
  induction pages generalizing s with
  | nil => exact List.map_append
  | cons page pages ih =>
    obtain ⟨hat, hstep⟩ := memoryBlocksStep_atBlock h page
    rw [List.foldl_cons, ih hat, List.map_cons]
    conv_rhs => unfold Segment.coalesceFrom
    by_cases hadj : s.block.segment.Adjacent bytePair page.segment
    · rw [if_pos hadj] at hstep ⊢
      rw [hstep.1, hstep.2]
    · rw [if_neg hadj] at hstep ⊢
      rw [hstep.1, hstep.2, List.map_append, List.append_assoc]
      rfl

/-- **The blocks are the pages joined.** -/
theorem getMemoryBlocks_cons (page : Page) (pages : List Page) :
    (getMemoryBlocks (page :: pages)).map MemoryBlock.segment
      = Segment.coalesceFrom bytePair page.segment (pages.map Page.segment) := by
  obtain ⟨hat, hblocks, hsegment⟩ := memoryBlocksStep_init page
  unfold getMemoryBlocks
  rw [List.foldl_cons, foldl_memoryBlocksStep hat, hblocks, hsegment]
  rfl

/-- **No byte is lost and no block is split**: the blocks have the byte pairs of the
pages in their order, and no block goes on where the one before it ends. -/
theorem getMemoryBlocks_lossless_maximal (pages : List Page)
    (hsize : ∀ p ∈ pages, p.size = .kb4 ∨ p.size = .mb2) :
    (getMemoryBlocks pages).flatMap MemoryBlock.bytePairs = pages.flatMap Page.bytePairs
      ∧ (getMemoryBlocks pages).IsChain fun b c => ¬ b.Contiguous c := by
  have hblocks : (getMemoryBlocks pages).flatMap MemoryBlock.bytePairs
      = ((getMemoryBlocks pages).map MemoryBlock.segment).flatMap (Segment.points bytePair) := by
    rw [List.flatMap_map]
    exact congrArg (List.flatMap · _) (funext fun b => b.points_segment.symm)
  have hpages : pages.flatMap Page.bytePairs
      = (pages.map Page.segment).flatMap (Segment.points bytePair) := by
    rw [List.flatMap_map]
    exact List.flatMap_congr fun p hp => (p.points_segment (hsize p hp)).symm
  have hchain : (getMemoryBlocks pages).IsChain (fun b c => ¬ b.Contiguous c)
      ↔ ((getMemoryBlocks pages).map MemoryBlock.segment).IsChain
        fun s t => ¬ s.Adjacent bytePair t := by
    simp only [List.isChain_map, MemoryBlock.adjacent_segment]
  rw [hblocks, hpages, hchain]
  cases pages with
  | nil => exact ⟨rfl, .singleton _⟩
  | cons page pages =>
    rw [getMemoryBlocks_cons]
    exact ⟨Segment.flatMap_points_coalesceFrom _ _, Segment.isChain_coalesceFrom _ _⟩

/-- A block of two sizes of page, and a page that only goes on in virtual addresses. -/
theorem getMemoryBlocks_lossless_maximal_mixed :
    (getMemoryBlocks [⟨0x1ff000, 0x3ff000, .kb4⟩, ⟨0x200000, 0x400000, .mb2⟩,
        ⟨0x400000, 0x0, .kb4⟩]).flatMap MemoryBlock.bytePairs
      = [⟨0x1ff000, 0x3ff000, .kb4⟩, ⟨0x200000, 0x400000, .mb2⟩,
        ⟨0x400000, 0x0, .kb4⟩].flatMap Page.bytePairs
      ∧ (getMemoryBlocks [⟨0x1ff000, 0x3ff000, .kb4⟩, ⟨0x200000, 0x400000, .mb2⟩,
        ⟨0x400000, 0x0, .kb4⟩]).IsChain fun b c => ¬ b.Contiguous c :=
  getMemoryBlocks_lossless_maximal _ (by decide)

example : getMemoryBlocks [⟨0x1ff000, 0x3ff000, .kb4⟩, ⟨0x200000, 0x400000, .mb2⟩,
    ⟨0x400000, 0x0, .kb4⟩] = [⟨0x1ff000, 0x3ff000, 0x201000⟩, ⟨0x400000, 0x0, 0x1000⟩] := by
  decide

end AnalyzePtDump
