import Joes.Paging
import Joes.RadixHeap

/-!
# Page tables as radix trees

The page tables of a PML4 are a radix tree in the sense of `RadixHeap`: an
entry of the PML4 names a PDPR if it is present, an entry of a PDPR or PD is a
leaf if it is present with `page_size` set and names a table if it is present
without, and a present entry of a PT is a leaf. `pageSlot` is what the tree
holds under a path of indices.

`pagingResolveVirtualAddress` is a function of the slots alone
(`pagingResolveVirtualAddress_of_leaf`, `pagingResolveVirtualAddress_of_no_leaf`):
it gives the base of the leaf found on one of the three paths of an address.

That needs no assumption on the memory. What it takes for a slot to be one of a
table, of a leaf or empty is read off an entry's two bits, `present` and
`page_size` (`pageSlot_snoc_cases`).
-/

open PageTableEntry RadixHeap

/-- **How a walk reads an entry** at a depth: in the PML4, in a PDPR or PD, in a
PT. -/
def entrySlot (hhdm : BitVec 64) : ℕ → PageTableEntry → Slot TablePtr PageTableEntry
  | 0, e => if e.present = true then .table (e.tableAddress + hhdm) else .empty
  | 1, e | 2, e =>
    if e.present = true then
      if e.pageSize = true then .leaf e else .table (e.tableAddress + hhdm)
    else .empty
  | 3, e => if e.present = true then .leaf e else .empty
  | _ + 4, _ => .empty

/-- What the tree of a PML4 holds under a path of indices. -/
abbrev pageSlot (hhdm : BitVec 64) (mem : TablePtr → TableIndex → PageTableEntry)
    (pml4 : TablePtr) (p : List TableIndex) : Slot TablePtr PageTableEntry :=
  slotAt (entrySlot hhdm) mem pml4 p

/-- The tables of a PML4, itself included. -/
abbrev pageTables (hhdm : BitVec 64) (mem : TablePtr → TableIndex → PageTableEntry)
    (pml4 : TablePtr) : Set TablePtr :=
  tables (entrySlot hhdm) mem pml4

variable {σ : Type} {A : PageAllocator σ} {hhdm : BitVec 64} {pml4 : TablePtr}
variable {s s' : Machine σ}

/-- An entry that is not present reads as nothing at every depth. -/
theorem entrySlot_of_not_present {e : PageTableEntry} (h : e.present = false) (d : ℕ) :
    entrySlot hhdm d e = .empty := by
  match d with
  | 0 | 1 | 2 | 3 => simp [entrySlot, h]
  | _ + 4 => rfl

/-- The entries of an all-zero table read as nothing. -/
theorem entrySlot_of_zero {t : TablePtr} (h : ∀ i, s.mem t i = 0#64) (d : ℕ) (i : TableIndex) :
    entrySlot hhdm d (s.mem t i) = .empty := by
  rw [h i]
  exact entrySlot_of_not_present present_zero d

/-- In the four tables, only an entry that is not present reads as nothing. -/
theorem entrySlot_eq_empty_iff {e : PageTableEntry} {d : ℕ} (hd : d ≤ 3) :
    entrySlot hhdm d e = .empty ↔ e.present = false := by
  refine ⟨fun h => ?_, fun h => entrySlot_of_not_present h d⟩
  by_contra hne
  have hp : e.present = true := by simpa using hne
  match d, hd with
  | 0, _ => simp [entrySlot, hp] at h
  | 1, _ | 2, _ =>
    by_cases hs : e.pageSize = true <;> simp [entrySlot, hp, hs] at h
  | 3, _ => simp [entrySlot, hp] at h

/-- A leaf is the entry it was read from. -/
theorem eq_of_entrySlot_eq_leaf {e x : PageTableEntry} {d : ℕ} (h : entrySlot hhdm d e = .leaf x) :
    x = e := by
  match d with
  | 0 => by_cases hp : e.present = true <;> simp [entrySlot, hp] at h
  | 1 | 2 =>
    by_cases hp : e.present = true <;> by_cases hs : e.pageSize = true <;>
      simp [entrySlot, hp, hs] at h
    exact h.symm
  | 3 =>
    by_cases hp : e.present = true <;> simp [entrySlot, hp] at h
    exact h.symm
  | _ + 4 => simp [entrySlot] at h

/-- An entry that names a table is present, and names it by its address. -/
theorem of_entrySlot_eq_table {e : PageTableEntry} {d : ℕ} {c : TablePtr}
    (h : entrySlot hhdm d e = .table c) :
    d ≤ 2 ∧ e.present = true ∧ (d ≠ 0 → e.pageSize = false) ∧ e.tableAddress + hhdm = c := by
  match d with
  | 0 =>
    by_cases hp : e.present = true <;> simp [entrySlot, hp] at h
    exact ⟨by decide, hp, fun hne => absurd rfl hne, h⟩
  | 1 | 2 =>
    by_cases hp : e.present = true <;> by_cases hs : e.pageSize = true <;>
      simp [entrySlot, hp, hs] at h
    exact ⟨by decide, hp, fun _ => by simpa using hs, h⟩
  | 3 => by_cases hp : e.present = true <;> simp [entrySlot, hp] at h
  | _ + 4 => simp [entrySlot] at h

/-- An entry that reads as a leaf is present, below the PML4, and says it is a
page where the depth leaves a choice. -/
theorem of_entrySlot_eq_leaf {e x : PageTableEntry} {d : ℕ} (h : entrySlot hhdm d e = .leaf x) :
    1 ≤ d ∧ d ≤ 3 ∧ e.present = true ∧ (d ≠ 3 → e.pageSize = true) ∧ x = e := by
  have hx := eq_of_entrySlot_eq_leaf h
  match d with
  | 0 => by_cases hp : e.present = true <;> simp [entrySlot, hp] at h
  | 1 | 2 =>
    by_cases hp : e.present = true <;> by_cases hs : e.pageSize = true <;>
      simp [entrySlot, hp, hs] at h
    exact ⟨by decide, by decide, hp, fun _ => hs, hx⟩
  | 3 =>
    by_cases hp : e.present = true <;> simp [entrySlot, hp] at h
    exact ⟨by decide, by decide, hp, fun hne => absurd rfl hne, hx⟩
  | _ + 4 => simp [entrySlot] at h

/-- A table lies at most three indices deep. -/
theorem length_le_of_pageSlot_table {mem : TablePtr → TableIndex → PageTableEntry}
    {p : List TableIndex} {t : TablePtr} (ht : pageSlot hhdm mem pml4 p = .table t) :
    p.length ≤ 3 := by
  rcases List.eq_nil_or_concat' p with rfl | ⟨p, i, rfl⟩
  · exact Nat.zero_le 3
  · have hfound : pageSlot hhdm mem pml4 (p ++ [i]) ≠ .empty := by rw [ht]; simp
    obtain ⟨u, -, hread⟩ := exists_table_of_snoc hfound
    obtain ⟨hle, -⟩ := of_entrySlot_eq_table (hread.symm.trans ht)
    rw [List.length_append, List.length_singleton]
    omega

/-- The entry on the way to a table: the table above it, its bits, and where it
points. -/
theorem entry_of_pageSlot_table {p : List TableIndex} {i : TableIndex} {c : TablePtr}
    (h : pageSlot hhdm s.mem pml4 (p ++ [i]) = .table c) :
    ∃ t, pageSlot hhdm s.mem pml4 p = .table t ∧ p.length ≤ 2 ∧ (s.mem t i).present = true
      ∧ (p.length ≠ 0 → (s.mem t i).pageSize = false) ∧ (s.mem t i).tableAddress + hhdm = c := by
  have hne : pageSlot hhdm s.mem pml4 (p ++ [i]) ≠ .empty := by rw [h]; simp
  obtain ⟨t, ht, hv⟩ := exists_table_of_snoc hne
  exact ⟨t, ht, of_entrySlot_eq_table (hv.symm.trans h)⟩

/-- The entry of the PML4 on the way to a PDPR. -/
theorem entry_of_pageSlot_pdpr {i : TableIndex} {c : TablePtr}
    (h : pageSlot hhdm s.mem pml4 [i] = .table c) :
    (s.mem pml4 i).present = true ∧ (s.mem pml4 i).tableAddress + hhdm = c := by
  obtain ⟨t, ht, -, hp, -, ha⟩ := entry_of_pageSlot_table (p := []) h
  obtain rfl : pml4 = t := Slot.table.inj ht
  exact ⟨hp, ha⟩

/-- The entry a leaf was read from. -/
theorem entry_of_pageSlot_leaf {p : List TableIndex} {i : TableIndex} {e : PageTableEntry}
    (h : pageSlot hhdm s.mem pml4 (p ++ [i]) = .leaf e) :
    ∃ t, pageSlot hhdm s.mem pml4 p = .table t ∧ 1 ≤ p.length ∧ p.length ≤ 3
      ∧ (s.mem t i).present = true ∧ (p.length ≠ 3 → (s.mem t i).pageSize = true)
      ∧ e = s.mem t i := by
  have hne : pageSlot hhdm s.mem pml4 (p ++ [i]) ≠ .empty := by rw [h]; simp
  obtain ⟨t, ht, hv⟩ := exists_table_of_snoc hne
  exact ⟨t, ht, of_entrySlot_eq_leaf (hv.symm.trans h)⟩

/-- In the four tables, an entry where nothing is found is not present. -/
theorem not_present_of_pageSlot_empty {p : List TableIndex} {i : TableIndex} {t : TablePtr}
    (hp : p.length ≤ 3) (ht : pageSlot hhdm s.mem pml4 p = .table t)
    (h : pageSlot hhdm s.mem pml4 (p ++ [i]) = .empty) : (s.mem t i).present = false := by
  rw [pageSlot, slotAt_snoc_of_table ht] at h
  exact (entrySlot_eq_empty_iff hp).mp h

/-! ## Resolving an address -/

/-- **A leaf is what its addresses resolve to.** -/
theorem pagingResolveVirtualAddress_of_leaf {size : PageSize} {virt : BitVec 64}
    {e : PageTableEntry} (h : pageSlot hhdm s.mem pml4 (pagePath size virt) = .leaf e) :
    pagingResolveVirtualAddress hhdm pml4 virt s = e.pageBase size := by
  unfold pagingResolveVirtualAddress
  cases size with
  | gb1 =>
    obtain ⟨pdpr, hpdpr, -, -, hp₁, hs₁, rfl⟩ := entry_of_pageSlot_leaf (p := [_]) h
    obtain ⟨hp₀, ha₀⟩ := entry_of_pageSlot_pdpr hpdpr
    simp [hp₀, ha₀, hp₁, hs₁]
  | mb2 =>
    obtain ⟨pd, hpd, -, -, hp₂, hs₂, rfl⟩ := entry_of_pageSlot_leaf (p := [_, _]) h
    obtain ⟨pdpr, hpdpr, -, hp₁, hs₁, ha₁⟩ := entry_of_pageSlot_table (p := [_]) hpd
    obtain ⟨hp₀, ha₀⟩ := entry_of_pageSlot_pdpr hpdpr
    simp [hp₀, ha₀, hp₁, hs₁, ha₁, hp₂, hs₂]
  | kb4 =>
    obtain ⟨pt, hpt, -, -, hp₃, -, rfl⟩ := entry_of_pageSlot_leaf (p := [_, _, _]) h
    obtain ⟨pd, hpd, -, hp₂, hs₂, ha₂⟩ := entry_of_pageSlot_table (p := [_, _]) hpt
    obtain ⟨pdpr, hpdpr, -, hp₁, hs₁, ha₁⟩ := entry_of_pageSlot_table (p := [_]) hpd
    obtain ⟨hp₀, ha₀⟩ := entry_of_pageSlot_pdpr hpdpr
    simp [hp₀, ha₀, hp₁, hs₁, ha₁, hp₂, hs₂, ha₂, hp₃]

/-- **One step of a walk**, in a table found at a path: the entry is not
present, or names the next table, or is a leaf. -/
theorem pageSlot_snoc_cases {p : List TableIndex} {t : TablePtr} (hp : p.length ≤ 3)
    (ht : pageSlot hhdm s.mem pml4 p = .table t) (i : TableIndex) :
    (pageSlot hhdm s.mem pml4 (p ++ [i]) = .empty ∧ (s.mem t i).present = false) ∨
    (p.length ≤ 2 ∧ pageSlot hhdm s.mem pml4 (p ++ [i]) = .table ((s.mem t i).tableAddress + hhdm)
      ∧ (s.mem t i).present = true ∧ (p.length ≠ 0 → (s.mem t i).pageSize = false)) ∨
    (1 ≤ p.length ∧ pageSlot hhdm s.mem pml4 (p ++ [i]) = .leaf (s.mem t i)
      ∧ (s.mem t i).present = true ∧ (p.length ≠ 3 → (s.mem t i).pageSize = true)) := by
  have hread : pageSlot hhdm s.mem pml4 (p ++ [i]) = entrySlot hhdm p.length (s.mem t i) :=
    slotAt_snoc_of_table ht i
  cases hs : pageSlot hhdm s.mem pml4 (p ++ [i]) with
  | empty => exact Or.inl ⟨rfl, (entrySlot_eq_empty_iff hp).mp (hread.symm.trans hs)⟩
  | table c =>
    obtain ⟨hd, hpr, hps, rfl⟩ := of_entrySlot_eq_table (hread.symm.trans hs)
    exact Or.inr (Or.inl ⟨hd, rfl, hpr, hps⟩)
  | leaf e =>
    obtain ⟨hd, -, hpr, hps, rfl⟩ := of_entrySlot_eq_leaf (hread.symm.trans hs)
    exact Or.inr (Or.inr ⟨hd, rfl, hpr, hps⟩)

/-- **An address under no leaf resolves to 0.** -/
theorem pagingResolveVirtualAddress_of_no_leaf {virt : BitVec 64}
    (h : ∀ size, (pageSlot hhdm s.mem pml4 (pagePath size virt)).leaf? = none) :
    pagingResolveVirtualAddress hhdm pml4 virt s = 0 := by
  have hleaf : ∀ size e, pageSlot hhdm s.mem pml4 (pagePath size virt) ≠ .leaf e := by
    intro size e he
    simpa [he] using h size
  unfold pagingResolveVirtualAddress
  have hroot : pageSlot hhdm s.mem pml4 [] = .table pml4 := rfl
  -- one table after the other, until an entry is not present
  rcases pageSlot_snoc_cases (by decide) hroot (pml4Idx virt) with
    ⟨-, hp₀⟩ | ⟨-, h₀, hp₀, -⟩ | ⟨hd, -⟩
  · simp [hp₀]
  · rcases pageSlot_snoc_cases (by simp) h₀ (pdprIdx virt) with
      ⟨-, hp₁⟩ | ⟨-, h₁, hp₁, hs₁⟩ | ⟨-, h₁, -⟩
    · simp [hp₀, hp₁]
    · rcases pageSlot_snoc_cases (by simp) h₁ (pdIdx virt) with
        ⟨-, hp₂⟩ | ⟨-, h₂, hp₂, hs₂⟩ | ⟨-, h₂, -⟩
      · simp [hp₀, hp₁, hs₁ (by simp), hp₂]
      · rcases pageSlot_snoc_cases (by simp) h₂ (ptIdx virt) with
          ⟨-, hp₃⟩ | ⟨hd, -⟩ | ⟨-, h₃, -⟩
        · simp [hp₀, hp₁, hs₁ (by simp), hp₂, hs₂ (by simp), hp₃]
        · simp at hd
        · exact absurd h₃ (hleaf .kb4 _)
      · exact absurd h₂ (hleaf .mb2 _)
    · exact absurd h₁ (hleaf .gb1 _)
  · simp at hd
