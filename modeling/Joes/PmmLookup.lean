import Joes.Pmm

/-!
# The region of an address

`get_region_containing_page` is a binary search with two unsigned bounds and a
fixed number of rounds. An address inside a region is found: the window between
the bounds never loses the region, and a round looks inside the window only
(`getRegionContainingPage_of_mem`). The one exception is an empty region at the
address 0, which claims every address because its last byte is that before the
address 0; it is found instead if the search meets it first.

An address outside every region is another matter. Once the window is empty the
difference of the bounds is `2 ^ 64 - 1`, and a round that is left then looks
at an index in the middle of the address space (`lookupLoop_of_lt`). Only with
one region, or with two and an address that is not below the first, are there
no rounds left (`getRegionContainingPage_gap`).
-/

/-- The indices that a binary search for index `i` looks at, in the window from
`lo` to `hi`. -/
def searchPath (i : ℕ) : ℕ → ℕ → ℕ → List ℕ
  | 0, _, _ => []
  | left + 1, lo, hi =>
    let c := lo + (hi - lo) / 2
    c :: if i < c then searchPath i left lo (c - 1)
      else if c < i then searchPath i left (c + 1) hi
      else []

namespace PmmRegion

/-- The addresses of a region. -/
instance : Membership ℕ PmmRegion := ⟨fun r a => r.base ≤ a ∧ a < r.base + r.length⟩

theorem mem_def {r : PmmRegion} {a : ℕ} : a ∈ r ↔ r.base ≤ a ∧ a < r.base + r.length := Iff.rfl

instance (r : PmmRegion) (a : ℕ) : Decidable (a ∈ r) := inferInstanceAs (Decidable (_ ∧ _))

/-- An empty region at the address 0, whose last byte is computed to be the last
one of the address space. -/
def EmptyAtZero (r : PmmRegion) : Prop := r.base + r.length = 0

instance (r : PmmRegion) : Decidable r.EmptyAtZero := inferInstanceAs (Decidable (_ = _))

end PmmRegion

namespace Pmm

/-- **Sorted, pairwise disjoint regions** of the address space, in an array that
fits it. -/
structure RegionsSorted (p : Pmm) : Prop where
  /-- The array is an object in memory. -/
  array_le : p.numRegions * sizeofPmmRegion ≤ 2 ^ 64
  /-- A region ends where a later one starts, or before. -/
  sorted : ∀ i j, i < j → j < p.numRegions →
    (p.regions i).base + (p.regions i).length ≤ (p.regions j).base
  /-- A region does not run over the end of the address space. -/
  bounded : ∀ i < p.numRegions, (p.regions i).base + (p.regions i).length ≤ 2 ^ 64

/-- The region that the lookup ends at for an address of region `i`. -/
def regionFound (p : Pmm) (i : ℕ) : ℕ :=
  ((searchPath i p.numRegions 0 (p.numRegions - 1)).find? fun j =>
    j = i ∨ (p.regions j).EmptyAtZero).getD i

/-- The lookup ends at a region of the array. -/
theorem lookupLoop_found_lt {p : Pmm} {a left lo hi i : ℕ}
    (h : p.lookupLoop a left lo hi = .found i) : i < p.numRegions := by
  induction left generalizing lo hi with
  | zero => cases h
  | succ left ih =>
    unfold lookupLoop at h
    dsimp only at h
    split at h
    · cases h
    · next hbound =>
      split at h
      · exact ih h
      · split at h
        · exact ih h
        · obtain rfl := RegionLookup.found.inj h
          exact Nat.lt_of_not_le hbound

namespace RegionsSorted

variable {p : Pmm}

/-! ## An address inside a region -/

/-- **The search never loses the region.** While the window between the bounds
holds the region of the address, the round looks at a region inside the window
and keeps the half that holds it. -/
theorem lookupLoop_of_mem (h : p.RegionsSorted) {a i : ℕ} (hi : i < p.numRegions)
    (ha : a ∈ p.regions i) {left lo hi' : ℕ} (hlo : lo ≤ i) (hhi : i ≤ hi')
    (hbound : hi' < p.numRegions) (hleft : hi' < lo + left) :
    ∃ j, p.lookupLoop a left lo hi' = .found j
      ∧ (searchPath i left lo hi').find? (fun j => j = i ∨ (p.regions j).EmptyAtZero)
        = some j := by
  induction left generalizing lo hi' with
  | zero => omega
  | succ left ih =>
    have harray := h.array_le
    unfold sizeofPmmRegion at harray
    have hmid : (lo + (hi' + 2 ^ 64 - lo) % 2 ^ 64 / 2) % 2 ^ 64 = lo + (hi' - lo) / 2 := by omega
    unfold Pmm.lookupLoop searchPath
    dsimp only
    rw [hmid]
    generalize hc : lo + (hi' - lo) / 2 = c
    have hlc : lo ≤ c := by omega
    have hch : c ≤ hi' := by omega
    have hcn : c < p.numRegions := by omega
    have hend := h.bounded c hcn
    rw [PmmRegion.mem_def] at ha
    rw [if_neg (Nat.not_le_of_lt hcn)]
    by_cases hzero : (p.regions c).EmptyAtZero
    · -- the empty region claims the address, whatever it is
      have hzero' : (p.regions c).base + (p.regions c).length = 0 := hzero
      have hilt := h.bounded i hi
      rw [if_neg (by omega), if_neg (by omega)]
      exact ⟨c, rfl, List.find?_cons_of_pos (decide_eq_true (Or.inr hzero))⟩
    have hzero' : (p.regions c).base + (p.regions c).length ≠ 0 := hzero
    obtain hic | rfl | hci := lt_trichotomy i c
    · -- the region comes after that of the address, so it starts above it
      have hsorted := h.sorted i c hic hcn
      have hbase : a < (p.regions c).base := by omega
      rw [if_pos hbase, if_pos hic, show (c + 2 ^ 64 - 1) % 2 ^ 64 = c - 1 by omega,
        List.find?_cons_of_neg (by simp [hic.ne', hzero])]
      exact ih hlo (by omega) (by omega) (by omega)
    · rw [if_neg (by omega), if_neg (by omega)]
      exact ⟨i, rfl, List.find?_cons_of_pos (decide_eq_true (Or.inl rfl))⟩
    · -- the region comes before that of the address, so it ends below it
      have hsorted := h.sorted c i hci hi
      rw [if_neg (by omega), if_pos (by omega), if_neg (by omega), if_pos hci,
        show (c + 1) % 2 ^ 64 = c + 1 by omega,
        List.find?_cons_of_neg (by simp [hci.ne, hzero])]
      exact ih (by omega) hhi hbound (by omega)

/-- **The lookup finds the region of an address**, or the empty region at the
address 0. -/
theorem getRegionContainingPage_of_mem (h : p.RegionsSorted) {a i : ℕ} (hi : i < p.numRegions)
    (ha : a ∈ p.regions i) : p.getRegionContainingPage a = .found (p.regionFound i) := by
  have harray := h.array_le
  unfold sizeofPmmRegion at harray
  have hupper : (p.numRegions + 2 ^ 64 - 1) % 2 ^ 64 = p.numRegions - 1 := by omega
  have hwindow : p.numRegions - 1 < 0 + p.numRegions := by omega
  obtain ⟨j, hj, hpath⟩ := h.lookupLoop_of_mem hi ha (Nat.zero_le i) (Nat.le_sub_one_of_lt hi)
    (by omega) hwindow
  unfold Pmm.getRegionContainingPage regionFound
  rw [hupper, hpath]
  exact hj

end RegionsSorted

/-- The search for region `i` ends there, unless it met another one. -/
theorem find?_getD_cases {l : List ℕ} {q : ℕ → Prop} [DecidablePred q] {i : ℕ} :
    (l.find? fun j => j = i ∨ q j).getD i = i ∨ q ((l.find? fun j => j = i ∨ q j).getD i) := by
  cases hfind : l.find? fun j => j = i ∨ q j with
  | none => exact Or.inl rfl
  | some j => exact of_decide_eq_true (List.find?_some hfind :)

/-- The region found is that of the address, or it is empty. -/
theorem regionFound_cases (p : Pmm) (i : ℕ) :
    p.regionFound i = i ∨ (p.regions (p.regionFound i)).EmptyAtZero :=
  find?_getD_cases

/-- The region found is not behind that of the address. -/
theorem RegionsSorted.regionFound_le {p : Pmm} (h : p.RegionsSorted) {a i : ℕ}
    (hi : i < p.numRegions) (ha : a ∈ p.regions i) : p.regionFound i ≤ i := by
  by_contra hgt
  have hlt := lookupLoop_found_lt (h.getRegionContainingPage_of_mem hi ha)
  have hsorted := h.sorted i _ (Nat.lt_of_not_le hgt) hlt
  rw [PmmRegion.mem_def] at ha
  obtain heq | hzero := p.regionFound_cases i
  · exact hgt heq.le
  · unfold PmmRegion.EmptyAtZero at hzero
    omega

/-- **Without an empty region at the address 0** the lookup finds the region of
the address. -/
theorem RegionsSorted.getRegionContainingPage_eq_found {p : Pmm} (h : p.RegionsSorted)
    (hpos : ∀ i < p.numRegions, 0 < (p.regions i).length) {a i : ℕ} (hi : i < p.numRegions)
    (ha : a ∈ p.regions i) : p.getRegionContainingPage a = .found i := by
  have hfound := h.getRegionContainingPage_of_mem hi ha
  obtain heq | hzero := p.regionFound_cases i
  · rwa [heq] at hfound
  · unfold PmmRegion.EmptyAtZero at hzero
    have := hpos _ (lookupLoop_found_lt hfound)
    omega

/-! ## An address outside every region -/

/-- **The address lies in none of the regions**: the first `g` of them, none of
which is empty, lie below it, and the others above. -/
structure InGap (p : Pmm) (a g : ℕ) : Prop where
  /-- There are that many regions. -/
  le : g ≤ p.numRegions
  /-- The first ones end below the address. -/
  below : ∀ i < g, (p.regions i).base + (p.regions i).length ≤ a
  /-- The others start above it. -/
  above : ∀ i < p.numRegions, g ≤ i → a < (p.regions i).base

/-- The state of the search that has `w` indices left to look at, from `lo`
on. -/
theorem lookupLoop_gap_succ {p : Pmm} (h : p.RegionsSorted)
    (hpos : ∀ i < p.numRegions, 0 < (p.regions i).length) {a g : ℕ} (hg : p.InGap a g)
    (left : ℕ) {lo w : ℕ} (hw : lo + w ≤ p.numRegions) :
    p.lookupLoop a (left + 1) lo ((lo + w + 2 ^ 64 - 1) % 2 ^ 64)
      = if w = 0 then .outOfBounds
        else if g ≤ lo + (w - 1) / 2 then
          p.lookupLoop a left lo ((lo + (w - 1) / 2 + 2 ^ 64 - 1) % 2 ^ 64)
        else
          p.lookupLoop a left (lo + (w - 1) / 2 + 1) ((lo + w + 2 ^ 64 - 1) % 2 ^ 64) := by
  have harray := h.array_le
  unfold sizeofPmmRegion at harray
  rw [lookupLoop]
  by_cases hzero : w = 0
  · -- the difference of the bounds is `-1`, and half of it is an index far behind the array
    rw [if_pos hzero, if_pos (by omega)]
  · rw [if_neg hzero]
    have hmid : (lo + ((lo + w + 2 ^ 64 - 1) % 2 ^ 64 + 2 ^ 64 - lo) % 2 ^ 64 / 2) % 2 ^ 64
        = lo + (w - 1) / 2 := by
      omega
    rw [hmid]
    generalize hc : lo + (w - 1) / 2 = c
    have hcn : c < p.numRegions := by omega
    rw [if_neg (Nat.not_le_of_lt hcn)]
    by_cases hgc : g ≤ c
    · rw [if_pos hgc, if_pos (hg.above c hcn hgc)]
    · have hbelow := hg.below c (Nat.lt_of_not_le hgc)
      have hlength := hpos c hcn
      have hbounded := h.bounded c hcn
      rw [if_neg hgc, if_neg (by omega), if_pos (by omega),
        show (c + 1) % 2 ^ 64 = c + 1 by omega]

/-- **A search with more rounds than indices leaves the array.** -/
theorem lookupLoop_of_lt {p : Pmm} (h : p.RegionsSorted)
    (hpos : ∀ i < p.numRegions, 0 < (p.regions i).length) {a g : ℕ} (hg : p.InGap a g)
    {left lo w : ℕ} (hw : lo + w ≤ p.numRegions) (hleft : w < left) :
    p.lookupLoop a left lo ((lo + w + 2 ^ 64 - 1) % 2 ^ 64) = .outOfBounds := by
  induction left generalizing lo w with
  | zero => omega
  | succ left ih =>
    rw [lookupLoop_gap_succ h hpos hg left hw]
    split
    · rfl
    · split
      · exact ih (by omega) (by omega)
      · have hnext := @ih (lo + (w - 1) / 2 + 1) (w - (w - 1) / 2 - 1) (by omega) (by omega)
        rwa [show lo + (w - 1) / 2 + 1 + (w - (w - 1) / 2 - 1) = lo + w by omega] at hnext

/-- An address outside every region lies in a gap. -/
theorem RegionsSorted.exists_inGap {p : Pmm} (h : p.RegionsSorted)
    {a : ℕ} (hout : ∀ i < p.numRegions, a ∉ p.regions i) :
    ∃ g, p.InGap a g := by
  -- the regions that start above the address come last
  have hsplit : ∀ t ≤ p.numRegions, (∀ i < t, (p.regions i).base + (p.regions i).length ≤ a)
      ∨ ∃ g < t, a < (p.regions g).base
        ∧ ∀ i < g, (p.regions i).base + (p.regions i).length ≤ a := by
    intro t
    induction t with
    | zero => exact fun _ => Or.inl fun i hi => absurd hi (Nat.not_lt_zero i)
    | succ t ih =>
      intro ht
      obtain hall | ⟨g, hg, habove, hbelow⟩ := ih (by omega)
      · have hnot := hout t ht
        rw [PmmRegion.mem_def] at hnot
        by_cases hbase : a < (p.regions t).base
        · exact Or.inr ⟨t, Nat.lt_succ_self t, hbase, hall⟩
        · refine Or.inl fun i hi => ?_
          obtain hlt | rfl := Nat.lt_succ_iff_lt_or_eq.mp hi
          · exact hall i hlt
          · omega
      · exact Or.inr ⟨g, Nat.lt_succ_of_lt hg, habove, hbelow⟩
  obtain hall | ⟨g, hg, habove, hbelow⟩ := hsplit p.numRegions le_rfl
  · exact ⟨p.numRegions, le_rfl, hall, fun i hi hle => absurd hi (Nat.not_lt_of_le hle)⟩
  · refine ⟨g, hg.le, hbelow, fun i hi hle => ?_⟩
    obtain heq | hlt := Nat.eq_or_lt_of_le hle
    · rwa [← heq]
    · have := h.sorted g i hlt hi
      omega

/-- **When the search ends in bounds**: with one region, or with two and an
address that is not below the first. -/
theorem getRegionContainingPage_gap {p : Pmm} (h : p.RegionsSorted)
    (hpos : ∀ i < p.numRegions, 0 < (p.regions i).length) (hn : 1 ≤ p.numRegions) {a g : ℕ}
    (hg : p.InGap a g) :
    p.getRegionContainingPage a
      = if p.numRegions = 1 ∨ p.numRegions = 2 ∧ g ≠ 0 then .notFound else .outOfBounds := by
  unfold getRegionContainingPage
  -- the first round looks at the middle of the array
  have hfirst := lookupLoop_gap_succ h hpos hg (p.numRegions - 1) (Nat.zero_add p.numRegions).le
  rw [Nat.sub_add_cancel hn, Nat.zero_add, Nat.zero_add, if_neg (Nat.ne_of_gt hn)] at hfirst
  rw [hfirst]
  obtain h1 | h2 | h3 : p.numRegions = 1 ∨ p.numRegions = 2 ∨ 3 ≤ p.numRegions := by omega
  · rw [if_pos (Or.inl h1), h1]
    split <;> rfl
  · rw [h2]
    by_cases hzero : g = 0
    · have hleft : p.lookupLoop a 1 0 ((0 + 0 + 2 ^ 64 - 1) % 2 ^ 64) = .outOfBounds :=
        lookupLoop_of_lt h hpos hg (Nat.zero_le _) Nat.one_pos
      rw [hzero, if_pos (Nat.zero_le _), if_neg (by omega)]
      exact hleft
    · have hright : p.lookupLoop a 1 1 ((1 + 1 + 2 ^ 64 - 1) % 2 ^ 64) = _ :=
        lookupLoop_gap_succ h hpos hg 0 (Nat.le_of_eq h2.symm)
      have hmiddle : ¬ g ≤ (2 - 1) / 2 := by omega
      rw [if_neg hmiddle, if_pos (Or.inr ⟨rfl, hzero⟩)]
      refine hright.trans ?_
      rw [if_neg Nat.one_ne_zero]
      split <;> rfl
  · have hmany : ¬ (p.numRegions = 1 ∨ p.numRegions = 2 ∧ g ≠ 0) := by omega
    rw [if_neg hmany]
    generalize hmid : (p.numRegions - 1) / 2 = c
    split
    · have hleft : 0 + c ≤ p.numRegions := by omega
      have hrounds : c < p.numRegions - 1 := by omega
      have hout := lookupLoop_of_lt h hpos hg hleft hrounds
      rwa [Nat.zero_add] at hout
    · have hright : c + 1 + (p.numRegions - (c + 1)) = p.numRegions := by omega
      have hrounds : p.numRegions - (c + 1) < p.numRegions - 1 := by omega
      have hout := lookupLoop_of_lt h hpos hg hright.le hrounds
      rwa [hright] at hout

end Pmm
