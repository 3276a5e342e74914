import Joes.PmmCalls

/-!
# A client that gives back what it was given

The client of the memory manager allocates pages and frees only what it holds.
The invariant says of the bitmaps what is needed of them: the pages that must
not be handed out are guarded, and the bits of the pages that the client holds
are set. Every call keeps it, as long as `pmm_alloc` stops at a page
(`Client.inv_of_reaches`), and it makes the next allocation safe
(`pmmAlloc_safe`).

The condition is needed: the last byte of a bitmap has bits for pages that the
region does not have. Once the pages of that byte are taken and one is free
elsewhere, the search stops there and hands out the address behind the region's
end (`pmmAlloc_not_safe`).
-/

/-- The manager, and the pages that its client holds. -/
structure Client where
  /-- The manager. -/
  pmm : Pmm
  /-- The pages that were handed out and not given back. -/
  held : List ℕ

namespace Client

/-- The state after a call. -/
def call (s : Client) : PmmCall → Option Client
  | .alloc =>
    let result := pmmAlloc s.pmm
    some ⟨result.2, if result.1 = 0 then s.held else result.1 :: s.held⟩
  | .free ptr => (pmmFree s.pmm ptr).map fun result => ⟨result.2, s.held.erase ptr⟩

/-- The client gives back only what it holds. -/
def Legal (s : Client) : PmmCall → Prop
  | .alloc => True
  | .free ptr => ptr ∈ s.held

instance (s : Client) : (c : PmmCall) → Decidable (s.Legal c)
  | .alloc => inferInstanceAs (Decidable True)
  | .free ptr => inferInstanceAs (Decidable (ptr ∈ s.held))

/-- A legal call, and `pmm_alloc` only where its search stops at a page. -/
def StopsLegal (s : Client) (c : PmmCall) : Prop :=
  s.Legal c ∧ (c = .alloc → s.pmm.StopsAtPage)

/-- The client before its first call. -/
def init (m : Memmap) (hhdm : BitVec 64) (p : Pmm) : Client :=
  ⟨(pmmInit m.toLimineMemmapResponse hhdm p).2, []⟩

/-- **The next allocation is safe**: what it returns is `NULL`, or a page of a
usable region, none of those reserved for the manager's data, and none that the
client holds. -/
def AllocSafe (m : Memmap) (s : Client) : Prop :=
  (pmmAlloc s.pmm).1 = 0 ∨
    (∃ i < m.entryCount, (m.entries i).type = .usable ∧
      ∃ k < (m.entries i).length / 4096, (pmmAlloc s.pmm).1 = (m.entries i).base + k * 4096)
    ∧ (∀ k < m.requiredPages, (pmmAlloc s.pmm).1 ≠ m.dataBase + k * 4096)
    ∧ (pmmAlloc s.pmm).1 ∉ s.held

/-! ## The invariant -/

/-- The address is that of a free page whose bit is set. -/
def IsTaken (m : Memmap) (p : Pmm) (a : ℕ) : Prop :=
  ∃ i k, m.IsFreePage i k ∧ k / 8 < (p.regions i).bitmapSize ∧ a = m.pageAddress i k
    ∧ p.pageBit i k = true

/-- **The invariant of the client**: the guard, and the bits of the pages that
it holds. -/
structure Inv (m : Memmap) (s : Client) : Prop where
  /-- The pages that must not be handed out are guarded. -/
  guarded : Guarded m s.pmm
  /-- The pages that the client holds are marked as used. -/
  isTaken : ∀ a ∈ s.held, IsTaken m s.pmm a
  /-- No page is held twice. -/
  nodup : s.held.Nodup

variable {m : Memmap} {p : Pmm} {s t : Client}

theorem IsTaken.withPageUsed {a : ℕ} (h : IsTaken m p a) (i k : ℕ) :
    IsTaken m (p.withPageUsed i k) a := by
  obtain ⟨j, l, hfree, hbyte, ha, hset⟩ := h
  unfold Pmm.withPageUsed
  refine ⟨j, l, hfree, ?_, ha, ?_⟩
  · rw [Pmm.bitmapSize_withFreePages]
    exact hbyte
  · rw [Pmm.pageBit_withFreePages]
    exact Bitmap.bitAt_setBit_mono hset

/-- A page whose bit is clear is not taken. -/
theorem not_isTaken {i k : ℕ} (hfree : m.IsFreePage i k) (hclear : p.pageBit i k = false) :
    ¬ IsTaken m p (m.pageAddress i k) := by
  rintro ⟨j, l, hfree', -, ha, hset⟩
  obtain ⟨rfl, rfl⟩ := m.pageAddress_inj hfree.lt hfree'.lt hfree.page_lt hfree'.page_lt ha
  rw [hclear] at hset
  exact Bool.false_ne_true hset

/-- **`pmm_alloc` keeps the invariant**: the page it hands out was not taken,
and it is taken now. -/
theorem Inv.alloc (h : Inv m s) (hs : s.pmm.StopsAtPage) (ht : s.call .alloc = some t) :
    Inv m t := by
  obtain rfl := Option.some.inj ht
  have hguard := h.guarded.pmmAlloc hs
  obtain ⟨rc, bc, halloc⟩ | ⟨i, k, rc, bc, hfree, hbyte, hclear, halloc⟩ :=
    h.guarded.pmmAlloc_cases hs
  · rw [halloc] at hguard ⊢
    exact ⟨hguard, h.isTaken, h.nodup⟩
  · rw [halloc] at hguard ⊢
    have htaken : ∀ a ∈ s.held, IsTaken m ((s.pmm.withCaches rc bc).withPageUsed i k) a :=
      fun a ha => IsTaken.withPageUsed (p := s.pmm.withCaches rc bc) (h.isTaken a ha) i k
    have hnew : IsTaken m ((s.pmm.withCaches rc bc).withPageUsed i k) (m.pageAddress i k) := by
      unfold Pmm.withPageUsed
      refine ⟨i, k, hfree, ?_, rfl, ?_⟩
      · rw [Pmm.bitmapSize_withFreePages]
        exact hbyte
      · rw [Pmm.pageBit_withFreePages]
        exact Bitmap.bitAt_setBit_self _ _ _
    refine ⟨hguard, ?_, ?_⟩
    · dsimp only
      split
      · exact htaken
      · exact List.forall_mem_cons.mpr ⟨hnew, htaken⟩
    · dsimp only
      split
      · exact h.nodup
      · exact List.nodup_cons.mpr
          ⟨fun hmem => not_isTaken hfree hclear (h.isTaken _ hmem), h.nodup⟩

/-- **`pmm_free` of a page that the client holds** returns `PMM_OK` and keeps
the invariant: the bits of the other pages are other bits. -/
theorem Inv.pmmFree (h : Inv m s) (hd : m.HoldsData m.dataEntry) {a : ℕ} (ha : a ∈ s.held) :
    ∃ q, pmmFree s.pmm a = some (.ok, q) ∧ Inv m ⟨q, s.held.erase a⟩ := by
  obtain ⟨i, k, hfree, hbyte, rfl, -⟩ := h.isTaken a ha
  obtain ⟨q, hq, hcases⟩ := h.guarded.pmmFree_clears hfree.lt hfree.page_lt le_rfl
    (Nat.lt_add_of_pos_right (by norm_num))
  refine ⟨q, hq, ?_, fun a' ha' => ?_, h.nodup.erase _⟩
  · obtain rfl | ⟨j, f, rfl⟩ := hcases
    · exact h.guarded
    · exact h.guarded.clearBit hd hfree hbyte j f
  · obtain ⟨hne, hmem⟩ := h.nodup.mem_erase_iff.mp ha'
    obtain rfl | ⟨j, f, rfl⟩ := hcases
    · exact h.isTaken a' hmem
    · obtain ⟨i', k', hfree', hbyte', rfl, hset⟩ := h.isTaken a' hmem
      refine ⟨i', k', hfree', ?_, rfl, ?_⟩
      · rw [Pmm.bitmapSize_withFreePages]
        exact hbyte'
      · rw [Pmm.pageBit_withFreePages, Bitmap.bitAt_clearBit_of_ne]
        · exact hset
        · refine h.guarded.bitNe hfree.lt hfree'.lt ?_ hbyte hbyte'
          rintro ⟨rfl, rfl⟩
          exact hne rfl

/-- **Every state reached by calls that stop at a page satisfies the
invariant.** -/
theorem inv_of_reaches (hd : m.HoldsData m.dataEntry) (h : Inv m s)
    (hrun : Reaches Client.call StopsLegal s t) : Inv m t := by
  refine hrun.invariant h fun s c t hs hc ht => ?_
  cases c with
  | alloc => exact hs.alloc (hc.2 rfl) ht
  | free a =>
    obtain ⟨q, hq, hinv⟩ := hs.pmmFree hd hc.1
    unfold call at ht
    dsimp only at ht
    rw [hq] at ht
    obtain rfl := Option.some.inj ht
    exact hinv

/-- The invariant makes the next allocation safe. -/
theorem Inv.allocSafe (h : Inv m s) (hd : m.HoldsData m.dataEntry) (hs : s.pmm.StopsAtPage) :
    AllocSafe m s := by
  unfold AllocSafe
  obtain ⟨rc, bc, halloc⟩ | ⟨i, k, rc, bc, hfree, hbyte, hclear, halloc⟩ :=
    h.guarded.pmmAlloc_cases hs
  · rw [halloc]
    exact Or.inl rfl
  · rw [halloc]
    refine Or.inr ⟨⟨i, hfree.lt, hfree.usable, k, hfree.page_lt, rfl⟩, fun l hl => ?_,
      fun hmem => ?_⟩
    · exact hfree.pageAddress_ne hd hl
    · exact not_isTaken hfree hclear (h.isTaken _ hmem)

end Client

/-- **The allocator is safe while its search stops at a page.** After a
successful initialization, in every run of a client that frees only what it
holds, the next allocation is safe and no `pmm_free` of a page that is held is
undefined. -/
theorem pmmAlloc_safe (m : Memmap) (hhdm : BitVec 64) (p : Pmm)
    (h : (pmmInit m.toLimineMemmapResponse hhdm p).1 = .ok) (s : Client)
    (hrun : Reaches Client.call Client.StopsLegal (Client.init m hhdm p) s)
    (hs : s.pmm.StopsAtPage) :
    Client.AllocSafe m s ∧ ∀ a ∈ s.held, ∃ q, pmmFree s.pmm a = some (.ok, q) := by
  obtain ⟨hd, hg⟩ := guarded_of_pmmInit h
  have hinit : Client.Inv m (Client.init m hhdm p) :=
    ⟨hg, fun a ha => absurd ha List.not_mem_nil, List.nodup_nil⟩
  have hinv := Client.inv_of_reaches hd hinit hrun
  refine ⟨hinv.allocSafe hd hs, fun a ha => ?_⟩
  obtain ⟨q, hq, -⟩ := hinv.pmmFree hd ha
  exact ⟨q, hq⟩

/-- A legal allocation. -/
theorem Client.call_alloc (s : Client) : ∃ t, s.call .alloc = some t
    ∧ t.pmm = (pmmAlloc s.pmm).2
    ∧ t.held = if (pmmAlloc s.pmm).1 = 0 then s.held else (pmmAlloc s.pmm).1 :: s.held :=
  ⟨_, rfl, rfl, rfl⟩

/-- The witness of `pmmAlloc_safe`: a client of a map with eight pages that has
allocated one of them. -/
theorem pmmAlloc_safe_eight :
    ∃ s, Reaches Client.call Client.StopsLegal
        (Client.init (singleEntryMap 8) 0#64 bootPmm) s
      ∧ s.held = [0x101000] ∧ Client.AllocSafe (singleEntryMap 8) s
      ∧ ∀ a ∈ s.held, ∃ q, pmmFree s.pmm a = some (.ok, q) := by
  have hok : (pmmInit (singleEntryMap 8).toLimineMemmapResponse 0#64 bootPmm).1
      = .ok := by decide
  have hg := (guarded_of_pmmInit hok).2
  have hs := hg.toHasLayout.stopsAtPage_of_dvd singleEntryMap_dvd
  have hs' := (hg.pmmAlloc hs).toHasLayout.stopsAtPage_of_dvd singleEntryMap_dvd
  obtain ⟨s, hcall, hpmm, hheld⟩ :=
    (Client.init (singleEntryMap 8) 0#64 bootPmm).call_alloc
  have hrun : Reaches Client.call Client.StopsLegal
      (Client.init (singleEntryMap 8) 0#64 bootPmm) s :=
    Relation.ReflTransGen.single ⟨.alloc, ⟨trivial, fun _ => hs⟩, hcall⟩
  refine ⟨s, hrun, ?_, pmmAlloc_safe _ _ _ hok s hrun (by rw [hpmm]; exact hs')⟩
  rw [hheld]
  decide +kernel

/-! ## The last byte of a bitmap -/

/-- The client takes the eight free pages of a map with nine, and gives the
first one back. -/
def nineCalls : List PmmCall :=
  [.alloc, .alloc, .alloc, .alloc, .alloc, .alloc, .alloc, .alloc, .free 0x101000]

/-- **The allocator is not safe in every run.** After the calls above one page
is free, and the next allocation returns the address behind the last page. -/
theorem pmmAlloc_not_safe :
    (pmmInit (singleEntryMap 9).toLimineMemmapResponse 0#64 bootPmm).1 = .ok
      ∧ ∃ s, Reaches Client.call Client.Legal
          (Client.init (singleEntryMap 9) 0#64 bootPmm) s
        ∧ (pmmAlloc s.pmm).1 = 0x109000
        ∧ ¬ Client.AllocSafe (singleEntryMap 9) s := by
  refine ⟨by decide, ?_⟩
  have hrun : (runCalls Client.call Client.Legal
      (Client.init (singleEntryMap 9) 0#64 bootPmm) nineCalls).map
      (fun s => (pmmAlloc s.pmm).1) = some 0x109000 := by decide +kernel
  obtain ⟨s, hs, halloc⟩ := Option.map_eq_some_iff.mp hrun
  refine ⟨s, reaches_of_runCalls hs, halloc, ?_⟩
  unfold Client.AllocSafe
  rw [halloc]
  rintro (h | ⟨⟨i, -, -, k, hk, heq⟩, -⟩)
  · exact absurd h (by decide)
  · have hk' : k < 9 * 4096 / 4096 := hk
    have heq' : 0x109000 = 0x100000 + k * 4096 := heq
    omega
