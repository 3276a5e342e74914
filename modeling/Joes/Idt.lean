import Joes.BitField

/-!
# Interrupt gates

`idt_create_entry` fills a gate descriptor of the IDT, which the CPU reads as 128
bits. The handler's address comes out of the three fields it is split into. The
privilege level and the gate type do not: the level is taken from the bits of the
attributes that hold the gate type, and the gate type is always that of an
interrupt gate (`idtCreateEntry_preserves_iff`).

The CPU's view of a gate is read off the word by the positions of its fields, and
reading at a position where a field of the descriptor was put gives that field
(`IdtGateDescriptor.decode_word`). A part of the address that is shifted down and masked
is the same reading of the address (`setWidth_shiftRight_and_allOnes`), and the three
parts lie side by side, so put together they are the address
(`offset_idtCreateEntry`). The other fields depend on one byte, and are decided for all
of its values (`decode_idtCreateEntry`).

`IDT_ATTRIBUTES` puts the gate type into the low bits of the attributes and the level
above it. The function takes the level from the two lowest bits, where those of the type
are (`setWidth_idtAttributes`), and they are 2 for an interrupt gate. So level 2 is the
only one that is kept, while the kernel asks for 0.
-/

/-- `IDT_GATE_TYPE_INT_GATE`. -/
def idtGateTypeIntGate : BitVec 32 := 0xe#32

/-- `IDT_GATE_TYPE_TRAP_GATE`. -/
def idtGateTypeTrapGate : BitVec 32 := 0xf#32

/-- `IDT_ATTRIBUTES`. -/
def idtAttributes (dpl gateType : BitVec 32) : BitVec 32 :=
  0x80#32 ||| ((dpl &&& 0x3#32) <<< 5) ||| (gateType &&& 0xf#32)

/-- `struct idt_gate_descriptor`. -/
structure IdtGateDescriptor where
  offsetLow : BitVec 16
  segmentSelector : BitVec 16
  ist : BitVec 8
  typeAttributes : BitVec 8
  offsetMid : BitVec 16
  offsetHigh : BitVec 32
  reserved : BitVec 32
  deriving DecidableEq, Repr

/-- `idt_create_entry`, with the descriptor it writes to the target. -/
def idtCreateEntry (offset : BitVec 64) (segmentSelector : BitVec 16) (ist attributes : BitVec 8) :
    IdtGateDescriptor where
  offsetLow := (offset &&& 0xffff#64).setWidth 16
  offsetMid := ((offset >>> 16) &&& 0xffff#64).setWidth 16
  offsetHigh := ((offset >>> 32) &&& 0xffffffff#64).setWidth 32
  segmentSelector := segmentSelector
  ist := ist &&& 0x7#8
  typeAttributes :=
    (0b1110#32 ||| ((attributes.setWidth 32 &&& 0b11#32) <<< 5) ||| (1#32 <<< 7)).setWidth 8
  reserved := 0#32

/-- The descriptor in memory, where its fields are packed, as a word. -/
def IdtGateDescriptor.word (d : IdtGateDescriptor) : BitVec 128 :=
  d.reserved ++ (d.offsetHigh ++ (d.offsetMid ++ (d.typeAttributes ++ (d.ist ++
    (d.segmentSelector ++ d.offsetLow)))))

/-! ## The gate the CPU reads -/

/-- **A gate** of the x86-64 architecture. -/
structure Gate where
  offset : BitVec 64
  selector : BitVec 16
  ist : BitVec 3
  gateType : BitVec 4
  dpl : BitVec 2
  present : BitVec 1
  reserved : BitVec 32
  deriving DecidableEq, Repr

/-- **The layout of a gate**: the parts of the handler's address from bits 0, 48 and
64 on, the selector from bit 16 on, the stack from bit 32 on, and the type, the
privilege level and the present bit from bits 40, 45 and 47 on. -/
def Gate.decode (word : BitVec 128) : Gate where
  offset := BitField.read word 64 32 ++ (BitField.read word 48 16 ++ BitField.read word 0 16)
  selector := BitField.read word 16 16
  ist := BitField.read word 32 3
  gateType := BitField.read word 40 4
  dpl := BitField.read word 45 2
  present := BitField.read word 47 1
  reserved := BitField.read word 96 32

namespace IdtGateDescriptor

/-- **What the CPU reads of a descriptor**, by its fields. -/
theorem decode_word (d : IdtGateDescriptor) :
    Gate.decode d.word = {
      offset := d.offsetHigh ++ (d.offsetMid ++ d.offsetLow)
      selector := d.segmentSelector
      ist := BitField.read d.ist 0 3
      gateType := BitField.read d.typeAttributes 0 4
      dpl := BitField.read d.typeAttributes 5 2
      present := BitField.read d.typeAttributes 7 1
      reserved := d.reserved } := by
  unfold Gate.decode word
  simp (disch := decide) only [BitField.read_append_of_ge, BitField.read_append_of_le]
  simp only [Nat.reduceAdd, Nat.reduceSub, BitField.read_zero]

end IdtGateDescriptor

/-- A word shifted down and masked is the field that starts there. -/
theorem setWidth_shiftRight_and_allOnes {n w : ℕ} (x : BitVec n) (lo : ℕ) (h : w ≤ n) :
    ((x >>> lo) &&& (BitVec.allOnes w).setWidth n).setWidth w = BitField.read x lo w := by
  rw [BitVec.setWidth_and, BitVec.setWidth_setWidth_of_le _ h, BitVec.setWidth_eq,
    BitVec.and_allOnes]
  refine BitVec.eq_of_getLsbD_eq fun i hi => ?_
  rw [BitVec.getLsbD_setWidth, BitVec.getLsbD_ushiftRight, BitField.getLsbD_read]

/-- **The address is put together again.** -/
theorem offset_idtCreateEntry (offset : BitVec 64) (segmentSelector : BitVec 16)
    (ist attributes : BitVec 8) :
    (Gate.decode (idtCreateEntry offset segmentSelector ist attributes).word).offset = offset := by
  have hlow : (offset &&& 0xffff#64).setWidth 16 = BitField.read offset 0 16 := by
    simpa using setWidth_shiftRight_and_allOnes (w := 16) offset 0 (by decide)
  have hmid : ((offset >>> 16) &&& 0xffff#64).setWidth 16 = BitField.read offset 16 16 :=
    setWidth_shiftRight_and_allOnes offset 16 (by decide)
  have hhigh : ((offset >>> 32) &&& 0xffffffff#64).setWidth 32 = BitField.read offset 32 32 :=
    setWidth_shiftRight_and_allOnes offset 32 (by decide)
  rw [IdtGateDescriptor.decode_word]
  simp only [idtCreateEntry, hlow, hmid, hhigh]
  calc BitField.read offset 32 32 ++ (BitField.read offset 16 16 ++ BitField.read offset 0 16)
      = BitField.read offset 32 32 ++ BitField.read offset 0 32 :=
        congrArg _ (BitField.read_append_read offset 0)
    _ = BitField.read offset 0 64 := BitField.read_append_read offset 0
    _ = offset := BitField.read_zero offset

/-- **The other fields**, whatever the attributes are: the privilege level is their
two lowest bits, and the type does not depend on them. -/
theorem decode_idtCreateEntry (offset : BitVec 64) (segmentSelector : BitVec 16)
    (ist attributes : BitVec 8) :
    Gate.decode (idtCreateEntry offset segmentSelector ist attributes).word = {
      offset := offset
      selector := segmentSelector
      ist := ist.setWidth 3
      gateType := 0xe#4
      dpl := attributes.setWidth 2
      present := 1#1
      reserved := 0#32 } := by
  have hist : BitField.read (ist &&& 0x7#8) 0 3 = ist.setWidth 3 := by revert ist; decide
  have htype : ∀ a : BitVec 8, BitField.read
      ((0b1110#32 ||| ((a.setWidth 32 &&& 0b11#32) <<< 5) ||| (1#32 <<< 7)).setWidth 8) 0 4
        = 0xe#4 := by decide
  have hdpl : ∀ a : BitVec 8, BitField.read
      ((0b1110#32 ||| ((a.setWidth 32 &&& 0b11#32) <<< 5) ||| (1#32 <<< 7)).setWidth 8) 5 2
        = a.setWidth 2 := by decide
  have hpresent : ∀ a : BitVec 8, BitField.read
      ((0b1110#32 ||| ((a.setWidth 32 &&& 0b11#32) <<< 5) ||| (1#32 <<< 7)).setWidth 8) 7 1
        = 1#1 := by decide
  have hoffset := offset_idtCreateEntry offset segmentSelector ist attributes
  rw [IdtGateDescriptor.decode_word] at hoffset ⊢
  simp only [idtCreateEntry] at hoffset ⊢
  rw [hoffset, hist, htype, hdpl, hpresent]

/-- **The attributes' low bits are the type's**, not the privilege level. -/
theorem setWidth_idtAttributes (dpl gateType : BitVec 32) :
    ((idtAttributes dpl gateType).setWidth 8).setWidth 2 = gateType.setWidth 2 := by
  refine BitVec.eq_of_getLsbD_eq fun i hi => ?_
  have hcases : i = 0 ∨ i = 1 := by omega
  rcases hcases with rfl | rfl <;> simp [idtAttributes]

/-- **A gate with the parameters** it was asked for, present and with nothing in the
reserved field. -/
structure Gate.Preserves (gate : Gate) (offset : BitVec 64) (segmentSelector : BitVec 16)
    (ist : BitVec 8) (dpl gateType : BitVec 32) : Prop where
  offset_eq : gate.offset = offset
  selector_eq : gate.selector = segmentSelector
  ist_eq : gate.ist.setWidth 8 = ist
  dpl_eq : gate.dpl.setWidth 32 = dpl
  gateType_eq : gate.gateType.setWidth 32 = gateType
  present_eq : gate.present = 1#1
  reserved_eq : gate.reserved = 0#32

/-- **A gate keeps its parameters** exactly for privilege level 2 and an interrupt
gate: 2 is what the low bits of that type are. -/
theorem idtCreateEntry_preserves_iff (offset : BitVec 64) (segmentSelector : BitVec 16)
    (ist : BitVec 8) (dpl gateType : BitVec 32) (hist : ist < 8#8) (hdpl : dpl < 4#32)
    (htype : gateType = idtGateTypeIntGate ∨ gateType = idtGateTypeTrapGate) :
    (Gate.decode (idtCreateEntry offset segmentSelector ist
        ((idtAttributes dpl gateType).setWidth 8)).word).Preserves offset segmentSelector ist dpl
          gateType
      ↔ dpl = 2#32 ∧ gateType = idtGateTypeIntGate := by
  rw [decode_idtCreateEntry, setWidth_idtAttributes]
  constructor
  · rintro ⟨-, -, -, hlevel, hgate, -, -⟩
    have hint : gateType = idtGateTypeIntGate := hgate.symm
    subst hint
    exact ⟨hlevel.symm, rfl⟩
  · rintro ⟨rfl, rfl⟩
    have hkeep : (ist.setWidth 3).setWidth 8 = ist := by revert ist; decide
    exact ⟨rfl, rfl, hkeep, rfl, rfl, rfl, rfl⟩

/-- A gate that keeps them. -/
theorem idtCreateEntry_preserves_level_two :
    (Gate.decode (idtCreateEntry 0xffffffff80001000#64 0x8#16 1#8
        ((idtAttributes 2#32 idtGateTypeIntGate).setWidth 8)).word).Preserves
      0xffffffff80001000#64 0x8#16 1#8 2#32 idtGateTypeIntGate :=
  (idtCreateEntry_preserves_iff 0xffffffff80001000#64 0x8#16 1#8 2#32 idtGateTypeIntGate
    (by decide) (by decide) (.inl rfl)).mpr ⟨rfl, rfl⟩

/-- **A kernel gate open to other levels**: the gates of `idt_init` ask for level 0
and get level 2. -/
theorem idtCreateEntry_kernel_level :
    ¬ (Gate.decode (idtCreateEntry 0xffffffff80001000#64 0x8#16 0#8
        ((idtAttributes 0#32 idtGateTypeIntGate).setWidth 8)).word).Preserves
      0xffffffff80001000#64 0x8#16 0#8 0#32 idtGateTypeIntGate := fun h =>
  absurd h.dpl_eq (by decide)
