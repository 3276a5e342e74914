import Joes.Idt

/-!
# Segment descriptors

`gdt_create_segment_descriptor` fills a descriptor of the GDT, which the CPU reads as
64 bits with the base and the limit in parts. The CPU reads from it what it was made
of, as far as this fits: 20 bits of the limit and 4 of the flags
(`gdtCreateSegmentDescriptor_preserves_iff`).

As with the gates, a part that is shifted down and masked is a reading of the parameter,
and parts that lie side by side are put together to what they were taken from. The high
part of the limit and the flags share a byte, where neither disturbs the other; that is
decided for all values of both. So the base and the access byte come out as they were,
and the limit and the flags cut down to the width of their fields
(`decode_gdtCreateSegmentDescriptor`). A value that is cut down is still the same exactly
if it was below the power of two of that width, and hence the condition is exact.

The table that `gdt_init` makes is read back with `segmentOf`, as the CPU does for a
selector.
-/

/-- `struct gdt_descriptor`. -/
structure GdtDescriptor where
  limitLow : BitVec 16
  baseLow : BitVec 16
  baseMid : BitVec 8
  access : BitVec 8
  limitHighFlags : BitVec 8
  baseHigh : BitVec 8
  deriving DecidableEq, Repr

/-- `gdt_create_segment_descriptor`, with the descriptor it writes to the target. -/
def gdtCreateSegmentDescriptor (base limit : BitVec 32) (access flags : BitVec 8) :
    GdtDescriptor :=
  let limitHighFlags := ((limit >>> 16) &&& 0x0F#32).setWidth 8
  { baseLow := (base &&& 0xFFFF#32).setWidth 16
    baseMid := ((base >>> 16) &&& 0xFF#32).setWidth 8
    baseHigh := ((base >>> 24) &&& 0xFF#32).setWidth 8
    limitLow := (limit &&& 0xFFFF#32).setWidth 16
    access := access
    limitHighFlags :=
      (limitHighFlags.setWidth 32 ||| ((flags.setWidth 32 &&& 0xF#32) <<< 4)).setWidth 8 }

/-- The descriptor in memory, where its fields are packed, as a word. -/
def GdtDescriptor.word (d : GdtDescriptor) : BitVec 64 :=
  d.baseHigh ++ (d.limitHighFlags ++ (d.access ++ (d.baseMid ++ (d.baseLow ++ d.limitLow))))

/-- `gdt_init`, with the table it makes. -/
def gdtInit : List GdtDescriptor :=
  [gdtCreateSegmentDescriptor 0x0#32 0x0#32 0x0#8 0x0#8,
   gdtCreateSegmentDescriptor 0x0#32 0xfffff#32 0x9a#8 0xa#8,
   gdtCreateSegmentDescriptor 0x0#32 0xfffff#32 0x92#8 0xc#8,
   gdtCreateSegmentDescriptor 0x0#32 0xfffff#32 0xfa#8 0xa#8,
   gdtCreateSegmentDescriptor 0x0#32 0xfffff#32 0xf2#8 0xc#8]

/-! ## The segment the CPU reads -/

/-- **A segment** of the x86-64 architecture. -/
structure SegmentDescriptor where
  base : BitVec 32
  limit : BitVec 20
  access : BitVec 8
  flags : BitVec 4
  deriving DecidableEq, Repr

namespace SegmentDescriptor

/-- **The layout of a descriptor**: the parts of the limit from bits 0 and 48 on, those of
the base from bits 16, 32 and 56 on, the access byte from bit 40 and the flags from bit
52 on. -/
def decode (word : BitVec 64) : SegmentDescriptor where
  base := BitField.read word 56 8 ++ (BitField.read word 32 8 ++ BitField.read word 16 16)
  limit := BitField.read word 48 4 ++ BitField.read word 0 16
  access := BitField.read word 40 8
  flags := BitField.read word 52 4

/-- A segment is there. -/
def present (d : SegmentDescriptor) : Bool := d.access.getLsbD 7

/-- The privilege level of a segment. -/
def dpl (d : SegmentDescriptor) : BitVec 2 := BitField.read d.access 5 2

/-- A segment holds code: it is none of the system's, and executable. -/
def isCode (d : SegmentDescriptor) : Bool := d.access.getLsbD 4 && d.access.getLsbD 3

/-- Its code runs in 64-bit mode: the long flag is set, and the one of 32-bit code is not. -/
def isLong (d : SegmentDescriptor) : Bool := d.flags.getLsbD 1 && !d.flags.getLsbD 2

end SegmentDescriptor

/-- **What the CPU reads of a descriptor**, by its fields. -/
theorem GdtDescriptor.decode_word (d : GdtDescriptor) :
    SegmentDescriptor.decode d.word = {
      base := d.baseHigh ++ (d.baseMid ++ d.baseLow)
      limit := BitField.read d.limitHighFlags 0 4 ++ d.limitLow
      access := d.access
      flags := BitField.read d.limitHighFlags 4 4 } := by
  unfold SegmentDescriptor.decode word
  simp (disch := decide) only [BitField.read_append_of_ge, BitField.read_append_of_le]
  simp only [Nat.reduceAdd, Nat.reduceSub, BitField.read_zero]

/-- **The CPU reads the base and the access byte**, and the low bits of the limit and of
the flags. -/
theorem decode_gdtCreateSegmentDescriptor (base limit : BitVec 32) (access flags : BitVec 8) :
    SegmentDescriptor.decode (gdtCreateSegmentDescriptor base limit access flags).word = {
      base := base
      limit := limit.setWidth 20
      access := access
      flags := flags.setWidth 4 } := by
  have hbaseLow : (base &&& 0xFFFF#32).setWidth 16 = BitField.read base 0 16 := by
    simpa using setWidth_shiftRight_and_allOnes (w := 16) base 0 (by decide)
  have hbaseMid : ((base >>> 16) &&& 0xFF#32).setWidth 8 = BitField.read base 16 8 :=
    setWidth_shiftRight_and_allOnes base 16 (by decide)
  have hbaseHigh : ((base >>> 24) &&& 0xFF#32).setWidth 8 = BitField.read base 24 8 :=
    setWidth_shiftRight_and_allOnes base 24 (by decide)
  have hlimitLow : (limit &&& 0xFFFF#32).setWidth 16 = BitField.read limit 0 16 := by
    simpa using setWidth_shiftRight_and_allOnes (w := 16) limit 0 (by decide)
  -- The high part of the limit and the flags share a byte.
  have hshared : ∀ (high : BitVec 4) (flags : BitVec 8),
      BitField.read (((high.setWidth 8).setWidth 32 |||
        ((flags.setWidth 32 &&& 0xF#32) <<< 4)).setWidth 8) 0 4 = high ∧
      BitField.read (((high.setWidth 8).setWidth 32 |||
        ((flags.setWidth 32 &&& 0xF#32) <<< 4)).setWidth 8) 4 4 = flags.setWidth 4 := by
    decide +kernel
  have hhigh : ((limit >>> 16) &&& 0x0F#32).setWidth 8
      = (BitField.read limit 16 4).setWidth 8 := by
    have hlt : ((limit >>> 16) &&& 0x0F#32).toNat < 2 ^ 4 := by
      rw [BitVec.toNat_and]
      exact Nat.and_lt_two_pow _ (by decide)
    have hread : ((limit >>> 16) &&& 0x0F#32).setWidth 4 = BitField.read limit 16 4 :=
      setWidth_shiftRight_and_allOnes limit 16 (by decide)
    refine BitVec.eq_of_toNat_eq ?_
    rw [← hread, BitVec.toNat_setWidth, BitVec.toNat_setWidth, BitVec.toNat_setWidth,
      Nat.mod_eq_of_lt hlt]
  have hbase : BitField.read base 24 8 ++ (BitField.read base 16 8 ++ BitField.read base 0 16)
      = base :=
    calc BitField.read base 24 8 ++ (BitField.read base 16 8 ++ BitField.read base 0 16)
        = BitField.read base 24 8 ++ BitField.read base 0 24 :=
          congrArg _ (BitField.read_append_read base 0)
      _ = BitField.read base 0 32 := BitField.read_append_read base 0
      _ = base := BitField.read_zero base
  have hlimit : BitField.read limit 16 4 ++ BitField.read limit 0 16 = limit.setWidth 20 :=
    (BitField.read_append_read limit 0).trans (BitVec.setWidth_eq_extractLsb' (by decide)).symm
  rw [GdtDescriptor.decode_word]
  simp only [gdtCreateSegmentDescriptor]
  rw [hbaseLow, hbaseMid, hbaseHigh, hlimitLow, hhigh, (hshared _ flags).1, (hshared _ flags).2,
    hbase, hlimit]

/-- **A segment with the parameters** it was asked for. -/
structure SegmentDescriptor.Preserves (d : SegmentDescriptor) (base limit : BitVec 32)
    (access flags : BitVec 8) : Prop where
  base_eq : d.base = base
  limit_eq : d.limit.setWidth 32 = limit
  access_eq : d.access = access
  flags_eq : d.flags.setWidth 8 = flags

/-- **A descriptor keeps its parameters** exactly if the limit has 20 bits and the flags
have 4. -/
theorem gdtCreateSegmentDescriptor_preserves_iff (base limit : BitVec 32)
    (access flags : BitVec 8) :
    (SegmentDescriptor.decode (gdtCreateSegmentDescriptor base limit access flags).word).Preserves
        base limit access flags
      ↔ limit.toNat < 2 ^ 20 ∧ flags.toNat < 2 ^ 4 := by
  have hkeeps : ∀ {n w : ℕ} (x : BitVec n), (x.setWidth w).setWidth n = x ↔ x.toNat < 2 ^ w := by
    intro n w x
    rw [← BitVec.toNat_inj, BitVec.toNat_setWidth, BitVec.toNat_setWidth]
    constructor
    · intro h
      rw [← h]
      exact (Nat.mod_le _ _).trans_lt (Nat.mod_lt _ (Nat.two_pow_pos w))
    · intro h
      rw [Nat.mod_eq_of_lt h, Nat.mod_eq_of_lt x.isLt]
  rw [decode_gdtCreateSegmentDescriptor]
  constructor
  · rintro ⟨-, hlimit, -, hflags⟩
    exact ⟨(hkeeps limit).mp hlimit, (hkeeps flags).mp hflags⟩
  · rintro ⟨hlimit, hflags⟩
    exact ⟨rfl, (hkeeps limit).mpr hlimit, rfl, (hkeeps flags).mpr hflags⟩

/-! ## The table of the kernel -/

/-- **The segment of a selector**: its highest 13 bits are the index in the table. There
is none if the selector is of a local table, or behind the end. -/
def segmentOf (gdt : List GdtDescriptor) (selector : BitVec 16) : Option SegmentDescriptor :=
  if selector.getLsbD 2 then none
  else gdt[(selector >>> 3).toNat]?.map fun d => SegmentDescriptor.decode d.word

/-- The segment of the kernel's code. -/
theorem segmentOf_gdtInit :
    segmentOf gdtInit 0x8#16 = some ⟨0#32, 0xfffff#20, 0x9a#8, 0xa#4⟩ := by
  decide
