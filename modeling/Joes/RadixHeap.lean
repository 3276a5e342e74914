import Mathlib.Data.Set.Insert
import Mathlib.Logic.Function.Basic
import Mathlib.Data.List.Induction
import Mathlib.Data.List.Lex

/-!
# Radix trees laid out in a heap

A radix tree kept in memory is a heap of tables: a table is a pointer `t`, and
`m t i` is the raw entry stored under index `i`. How an entry is read depends
on how deep the walk has come – the same bits may name a further table at one
depth and a value at the next – so a *view* turns a depth and an entry into a
`Slot`: nothing, a table to go on with, or a leaf.

Everything a walk can find is then one function of the path, `slotAt`, and a
heap is a tree when no table is found under two paths (`Unshared`). The point
of the module is `slotAt_write`: under `Unshared`, rewriting one entry of a
reachable table, with nothing below it, changes `slotAt` at exactly one path.
Linking a fresh table, unlinking an empty one, and writing or clearing a leaf
are all instances, so an argument about an operation on the heap never has to
follow pointers again.

Who lists the tree goes through it in `preorder`. Its entries are those on the
paths of the tree (`mem_preorder_iff`), in the order of the paths
(`pairwise_preorder`).
-/

/-- **What a walk finds under a path**: nothing, a further table, or a leaf
carrying a value. -/
inductive Slot (P V : Type) where
  /-- Nothing is stored here. -/
  | empty
  /-- The entry names the table at `p`. -/
  | table (p : P)
  /-- The entry is a leaf with value `v`. -/
  | leaf (v : V)

namespace Slot

variable {P V : Type}

/-- The value of a leaf. -/
def leaf? : Slot P V → Option V
  | leaf v => some v
  | _ => none

@[simp] theorem leaf?_empty : (empty : Slot P V).leaf? = none := rfl

@[simp] theorem leaf?_table (p : P) : (table p : Slot P V).leaf? = none := rfl

@[simp] theorem leaf?_leaf (v : V) : (leaf v : Slot P V).leaf? = some v := rfl

theorem leaf?_eq_some {s : Slot P V} {v : V} : s.leaf? = some v ↔ s = leaf v := by
  cases s <;> simp

/-- A visit of a slot: the visitor's mark if there is anything, and then what is
below a table. -/
def visit {α : Type} (x : α) (below : P → List α) : Slot P V → List α
  | empty => []
  | table p => x :: below p
  | leaf _ => [x]

end Slot

namespace RadixHeap

variable {P I E V : Type} (view : ℕ → E → Slot P V) (m m' : P → I → E) (root : P)

/-- What lies under index `i` of a slot found at depth `d`: a table is read
there, and nothing lies below a leaf or below nothing. -/
def child (d : ℕ) : Slot P V → I → Slot P V
  | .table t, i => view d (m t i)
  | _, _ => .empty

/-- The walk along a path, from a slot found at depth `d`. -/
def walk : ℕ → Slot P V → List I → Slot P V
  | _, s, [] => s
  | d, s, i :: p => walk (d + 1) (child view m d s i) p

/-- **What the tree holds under a path** from the root table. -/
def slotAt (p : List I) : Slot P V := walk view m 0 (.table root) p

/-- The tables of the tree: the pointers some path leads to, the root's
among them. -/
def tables : Set P := {t | ∃ p, slotAt view m root p = .table t}

/-- **The heap is a tree**: no table is found under two paths. -/
def Unshared : Prop :=
  ∀ p q t, slotAt view m root p = .table t → slotAt view m root q = .table t → p = q

variable {view m m' root}

@[simp] theorem child_table (d : ℕ) (t : P) (i : I) :
    child view m d (.table t) i = view d (m t i) := rfl

@[simp] theorem child_empty (d : ℕ) (i : I) : child view m d .empty i = .empty := rfl

@[simp] theorem child_leaf (d : ℕ) (v : V) (i : I) : child view m d (.leaf v) i = .empty := rfl

/-- A walk along two paths one after the other. -/
theorem walk_append (d : ℕ) (s : Slot P V) (p q : List I) :
    walk view m d s (p ++ q) = walk view m (d + p.length) (walk view m d s p) q := by
  induction p generalizing d s with
  | nil => rfl
  | cons i p ih =>
    rw [List.cons_append, walk, ih, walk, List.length_cons]
    congr 1
    omega

@[simp] theorem slotAt_nil : slotAt view m root [] = .table root := rfl

/-- **The recursion everything is proved by**: the last index of a path is
read in what the rest of the path leads to. -/
theorem slotAt_snoc (p : List I) (i : I) :
    slotAt view m root (p ++ [i]) = child view m p.length (slotAt view m root p) i := by
  rw [slotAt, walk_append, Nat.zero_add]
  rfl

/-- The entry under the last index of a path to a table. -/
theorem slotAt_snoc_of_table {p : List I} {t : P} (h : slotAt view m root p = .table t) (i : I) :
    slotAt view m root (p ++ [i]) = view p.length (m t i) := by
  rw [slotAt_snoc, h, child_table]

/-- What is found under the last index of a path is an entry of the table the
rest of the path leads to. -/
theorem exists_table_of_snoc {p : List I} {i : I} (h : slotAt view m root (p ++ [i]) ≠ .empty) :
    ∃ t, slotAt view m root p = .table t
      ∧ slotAt view m root (p ++ [i]) = view p.length (m t i) := by
  cases hs : slotAt view m root p with
  | empty => exact absurd (by rw [slotAt_snoc, hs, child_empty]) h
  | table t => exact ⟨t, rfl, slotAt_snoc_of_table hs i⟩
  | leaf v => exact absurd (by rw [slotAt_snoc, hs, child_leaf]) h

/-- What is found under a non-empty extension of a path was reached through a
table. -/
theorem exists_table_of_append {p q : List I} (hq : q ≠ [])
    (h : slotAt view m root (p ++ q) ≠ .empty) : ∃ t, slotAt view m root p = .table t := by
  induction q using List.reverseRecOn with
  | nil => exact absurd rfl hq
  | append_singleton q i ih =>
    rw [← List.append_assoc] at h
    obtain ⟨t, ht, -⟩ := exists_table_of_snoc h
    by_cases hnil : q = []
    · subst hnil
      exact ⟨t, by rwa [List.append_nil] at ht⟩
    · exact ih hnil (by rw [ht]; simp)

/-- Nothing lies below a path that does not lead to a table. -/
theorem slotAt_append_of_not_table {p q : List I} (hq : q ≠ [])
    (h : ∀ t, slotAt view m root p ≠ .table t) : slotAt view m root (p ++ q) = .empty := by
  by_contra hne
  obtain ⟨t, ht⟩ := exists_table_of_append hq hne
  exact h t ht

/-- Under a root table that holds nothing there is nothing. -/
theorem slotAt_eq_empty_of_root (h : ∀ i, view 0 (m root i) = .empty) {p : List I} (hp : p ≠ []) :
    slotAt view m root p = .empty := by
  obtain ⟨i, p, rfl⟩ := List.exists_cons_of_ne_nil hp
  cases p with
  | nil => exact h i
  | cons j p =>
    refine slotAt_append_of_not_table (p := [i]) (List.cons_ne_nil j p) fun t ht => ?_
    cases (h i).symm.trans ht

/-- There is no leaf, either. -/
theorem leaf?_eq_none_of_root (h : ∀ i, view 0 (m root i) = .empty) (p : List I) :
    (slotAt view m root p).leaf? = none := by
  by_cases hp : p = []
  · rw [hp]
    rfl
  · rw [slotAt_eq_empty_of_root h hp]
    rfl

/-- A root table that holds nothing is a tree. -/
theorem unshared_of_root_empty (h : ∀ i, view 0 (m root i) = .empty) : Unshared view m root := by
  have hnil : ∀ r t, slotAt view m root r = .table t → r = [] := by
    intro r t hr
    by_contra hne
    cases (slotAt_eq_empty_of_root h hne).symm.trans hr
  intro p q t hp hq
  rw [hnil p t hp, hnil q t hq]

theorem root_mem_tables : root ∈ tables view m root := ⟨[], rfl⟩

/-- A root table that holds nothing is the only table. -/
theorem tables_eq_root_of_empty (h : ∀ i, view 0 (m root i) = .empty) :
    tables view m root = {root} := by
  refine Set.eq_singleton_iff_unique_mem.mpr ⟨root_mem_tables, fun t ht => ?_⟩
  obtain ⟨p, hp⟩ := ht
  by_cases hnil : p = []
  · rw [hnil, slotAt_nil] at hp
    exact (Slot.table.inj hp).symm
  · cases (slotAt_eq_empty_of_root h hnil).symm.trans hp

theorem mem_tables {p : List I} {t : P} (h : slotAt view m root p = .table t) :
    t ∈ tables view m root := ⟨p, h⟩

/-- **Where the tables are**, from which tables those of a depth name. -/
theorem mem_of_slotAt_table {T : ℕ → Set P} (hroot : root ∈ T 0)
    (hnext : ∀ d t i c, t ∈ T d → view d (m t i) = .table c → c ∈ T (d + 1)) {p : List I} {t : P}
    (h : slotAt view m root p = .table t) : t ∈ T p.length := by
  induction p using List.reverseRecOn generalizing t with
  | nil =>
    obtain rfl := Slot.table.inj h
    exact hroot
  | append_singleton p i ih =>
    obtain ⟨u, hu, hread⟩ := exists_table_of_snoc (by rw [h]; simp)
    rw [List.length_append, List.length_singleton]
    exact hnext _ _ _ _ (ih hu) (hread.symm.trans h)

/-- **The frame rule**: a heap that reads alike on every table of the tree
holds the same tree. -/
theorem slotAt_congr
    (h : ∀ p t, slotAt view m root p = .table t →
      ∀ i, view p.length (m' t i) = view p.length (m t i)) :
    slotAt view m' root = slotAt view m root := by
  funext p
  induction p using List.reverseRecOn with
  | nil => rfl
  | append_singleton p i ih =>
    rw [slotAt_snoc, slotAt_snoc, ih]
    cases hs : slotAt view m root p with
    | empty => rfl
    | table t => exact h p t hs i
    | leaf v => rfl

/-- Two heaps with the same entries in every table of the first hold the same
tree. -/
theorem slotAt_congr_of_eqOn (h : ∀ t ∈ tables view m root, m' t = m t) :
    slotAt view m' root = slotAt view m root :=
  slotAt_congr fun _ t ht i => by rw [h t (mem_tables ht)]

/-- **The frame rule of one path**: what a path leads to depends on the entries
that are read on it. -/
theorem slotAt_congr_of_path {p : List I}
    (h : ∀ q i t, q ++ [i] <+: p → slotAt view m root q = .table t →
      view q.length (m' t i) = view q.length (m t i)) :
    slotAt view m' root p = slotAt view m root p := by
  induction p using List.reverseRecOn with
  | nil => rfl
  | append_singleton p i ih =>
    have hp : slotAt view m' root p = slotAt view m root p :=
      ih fun q j t hq => h q j t (hq.trans (List.prefix_append p [i]))
    rw [slotAt_snoc, slotAt_snoc, hp]
    cases hs : slotAt view m root p with
    | empty => rfl
    | table t => exact h p i t List.prefix_rfl hs
    | leaf v => rfl

/-- **What was found is found** where every entry that holds something is read as it was. -/
theorem slotAt_of_kept {p : List I} (hp : slotAt view m root p ≠ .empty)
    (hkept : ∀ q t, slotAt view m root q = .table t → ∀ i, view q.length (m t i) ≠ .empty →
      view q.length (m' t i) = view q.length (m t i)) :
    slotAt view m' root p = slotAt view m root p := by
  refine slotAt_congr_of_path fun q i t hq ht => hkept q t ht i fun hempty => hp ?_
  obtain ⟨r, rfl⟩ := hq
  rw [← slotAt_snoc_of_table ht] at hempty
  by_cases hnil : r = []
  · rw [hnil, List.append_nil, hempty]
  · exact slotAt_append_of_not_table (p := q ++ [i]) hnil fun u hu => by
      cases hempty.symm.trans hu

/-- **A free entry is on no path to anything**: writing it, and whatever is off
the path, leaves the path alone. -/
theorem slotAt_of_write_found {p : List I} {t : P} {i : I} (hp : slotAt view m root p ≠ .empty)
    (hfree : ∀ d, view d (m t i) = .empty)
    (hsame : ∀ q u, slotAt view m root q = .table u → ∀ j, (u, j) ≠ (t, i) →
      view q.length (m' u j) = view q.length (m u j)) :
    slotAt view m' root p = slotAt view m root p := by
  refine slotAt_of_kept hp fun q u hu j hfound => hsame q u hu j fun huj => hfound ?_
  obtain ⟨rfl, rfl⟩ := Prod.mk.inj huj
  exact hfree _

/-- So the path to a table leads there still. -/
theorem slotAt_of_write_free {p : List I} {t : P} {i : I} (hp : slotAt view m root p = .table t)
    (hfree : ∀ d, view d (m t i) = .empty)
    (hsame : ∀ q u, slotAt view m root q = .table u → ∀ j, (u, j) ≠ (t, i) →
      view q.length (m' u j) = view q.length (m u j)) :
    slotAt view m' root p = .table t :=
  (slotAt_of_write_found (by rw [hp]; simp) hfree hsame).trans hp

/-- **Which tables there are after a write**: the one the new entry names, and
those that were there under the same path. -/
theorem table_or_of_write {t c : P} {i : I}
    (hsame : ∀ q u, slotAt view m root q = .table u → ∀ j, (u, j) ≠ (t, i) →
      view q.length (m' u j) = view q.length (m u j))
    (hx : ∀ d u, view d (m' t i) = .table u → u = c) (hc : ∀ d j, view d (m' c j) = .empty)
    {q : List I} {u : P} (h : slotAt view m' root q = .table u) :
    u = c ∨ slotAt view m root q = .table u := by
  induction q using List.reverseRecOn generalizing u with
  | nil => exact Or.inr h
  | append_singleton q j ih =>
    obtain ⟨v, hv, hread⟩ := exists_table_of_snoc (by rw [h]; simp)
    rw [h] at hread
    rcases ih hv with rfl | hold
    · rw [hc] at hread
      cases hread
    · by_cases hvj : (v, j) = (t, i)
      · obtain ⟨rfl, rfl⟩ := Prod.mk.inj hvj
        exact Or.inl (hx _ _ hread.symm)
      · rw [hsame q v hold j hvj] at hread
        exact Or.inr ((slotAt_snoc_of_table hold j).trans hread.symm)

/-! ## Traversal -/

section Traversal

variable (view m) in
/-- **The entries of a table in preorder**, up to `n` tables deep: those that
hold something, each with the path it is found under if the table is found under
`p`, and right after an entry that names a table those of this table. -/
def preorder (indices : List I) : ℕ → List I → P → List (List I × E)
  | 0, _, _ => []
  | n + 1, p, t => indices.flatMap fun i =>
    (view p.length (m t i)).visit (p ++ [i], m t i) (preorder indices n (p ++ [i]))

variable {indices : List I} {n : ℕ} {p : List I} {t : P} {x : List I × E}

/-- An entry of the preorder is one of the table, or of a table one of them names. -/
theorem mem_preorder_succ :
    x ∈ preorder view m indices (n + 1) p t ↔
      ∃ i ∈ indices, (view p.length (m t i) ≠ .empty ∧ x = (p ++ [i], m t i)) ∨
        ∃ c, view p.length (m t i) = .table c ∧ x ∈ preorder view m indices n (p ++ [i]) c := by
  rw [preorder, List.mem_flatMap]
  refine exists_congr fun i => and_congr_right fun _ => ?_
  cases h : view p.length (m t i) with
  | empty => simp [Slot.visit]
  | table c => simp [Slot.visit]
  | leaf v => simp [Slot.visit]

/-- What is below a table is found under its path. -/
theorem exists_append_of_mem_preorder (hx : x ∈ preorder view m indices n p t) :
    ∃ i q, x.1 = p ++ i :: q ∧ q.length < n := by
  induction n generalizing p t with
  | zero => cases hx
  | succ n ih =>
    obtain ⟨i, -, ⟨-, rfl⟩ | ⟨c, -, hc⟩⟩ := mem_preorder_succ.mp hx
    · exact ⟨i, [], rfl, Nat.succ_pos n⟩
    · obtain ⟨j, q, hq, hlt⟩ := ih hc
      refine ⟨i, j :: q, ?_, Nat.succ_lt_succ hlt⟩
      rw [hq, List.append_assoc, List.singleton_append]

/-- **The preorder has the entries on the paths of the tree** that are no longer
than it is deep. -/
theorem mem_preorder_iff (hall : ∀ i, i ∈ indices) (ht : slotAt view m root p = .table t) :
    x ∈ preorder view m indices n p t ↔
      ∃ q i u, x = (p ++ q ++ [i], m u i) ∧ q.length < n ∧
        slotAt view m root (p ++ q) = .table u ∧
        slotAt view m root (p ++ q ++ [i]) ≠ .empty := by
  induction n generalizing p t with
  | zero => exact iff_of_false List.not_mem_nil fun ⟨_, _, _, _, hlt, _⟩ => Nat.not_lt_zero _ hlt
  | succ n ih =>
    have hread := slotAt_snoc_of_table ht
    rw [mem_preorder_succ]
    constructor
    · rintro ⟨i, -, ⟨hne, rfl⟩ | ⟨c, hc, hx⟩⟩
      · exact ⟨[], i, t, by rw [List.append_nil], Nat.succ_pos n, by rwa [List.append_nil],
          by rwa [List.append_nil, hread]⟩
      · obtain ⟨q, j, u, rfl, hlt, hu, hne⟩ := (ih ((hread i).trans hc)).mp hx
        rw [List.append_assoc p [i]] at hu hne ⊢
        exact ⟨[i] ++ q, j, u, rfl, Nat.succ_lt_succ hlt, hu, hne⟩
    · rintro ⟨q, i, u, rfl, hlt, hu, hne⟩
      cases q with
      | nil =>
        rw [List.append_nil] at hu hne ⊢
        obtain rfl : t = u := Slot.table.inj (ht.symm.trans hu)
        rw [hread] at hne
        exact ⟨i, hall i, .inl ⟨hne, rfl⟩⟩
      | cons j q =>
        have hassoc : p ++ j :: q = p ++ [j] ++ q := List.append_cons p j q
        rw [hassoc] at hu hne
        obtain ⟨c, hc⟩ : ∃ c, slotAt view m root (p ++ [j]) = .table c := by
          cases q with
          | nil => exact ⟨u, by rwa [List.append_nil] at hu⟩
          | cons k q => exact exists_table_of_append (List.cons_ne_nil k q) (by rw [hu]; simp)
        exact ⟨j, hall j, .inr ⟨c, (hread j).symm.trans hc,
          (ih hc).mpr ⟨q, i, u, by rw [hassoc], Nat.lt_of_succ_lt_succ hlt, hu, hne⟩⟩⟩

/-- Where two paths part, their extensions are in the same order. -/
theorem lex_append {r : I → I → Prop} {p q : List I} (h : List.Lex r p q)
    (hstart : ¬ p <+: q) (p' q' : List I) : List.Lex r (p ++ p') (q ++ q') := by
  induction h with
  | nil => exact absurd (List.nil_prefix) hstart
  | rel h => exact List.Lex.rel h
  | cons _ ih => exact List.Lex.cons (ih fun hp => hstart (List.cons_prefix_cons.mpr ⟨rfl, hp⟩))

/-- **The preorder is in the order of the paths**, in which the indices count from
the first one on, and a path comes before its extensions. -/
theorem pairwise_preorder {r : I → I → Prop} (hindices : indices.Pairwise r) :
    (preorder view m indices n p t).Pairwise fun x y => List.Lex r x.1 y.1 := by
  induction n generalizing p t with
  | zero => exact List.Pairwise.nil
  | succ n ih =>
    -- Under an index there are paths that go on with the index.
    have hstart : ∀ i, ∀ y ∈ (view p.length (m t i)).visit (p ++ [i], m t i)
        (preorder view m indices n (p ++ [i])), ∃ q, y.1 = p ++ i :: q := by
      intro i y hy
      cases hslot : view p.length (m t i) with
      | empty =>
        rw [hslot] at hy
        cases hy
      | table c =>
        rw [hslot] at hy
        rcases List.mem_cons.mp hy with rfl | hy
        · exact ⟨[], rfl⟩
        · obtain ⟨j, q, hq, -⟩ := exists_append_of_mem_preorder hy
          exact ⟨j :: q, by rw [hq, List.append_assoc, List.singleton_append]⟩
      | leaf v =>
        rw [hslot] at hy
        obtain rfl := List.mem_singleton.mp hy
        exact ⟨[], rfl⟩
    rw [preorder, List.pairwise_flatMap]
    constructor
    · intro i _
      cases view p.length (m t i) with
      | empty => exact List.Pairwise.nil
      | table c =>
        refine List.pairwise_cons.mpr ⟨fun y hy => ?_, ih⟩
        obtain ⟨j, q, hq, -⟩ := exists_append_of_mem_preorder hy
        have hprefix : List.Lex r (p ++ [i] ++ []) (p ++ [i] ++ j :: q) :=
          List.Lex.append_left r List.Lex.nil _
        rwa [List.append_nil, ← hq] at hprefix
      | leaf v => exact List.pairwise_singleton _ _
    · refine hindices.imp fun {i j} hij x hx y hy => ?_
      obtain ⟨q, hq⟩ := hstart i x hx
      obtain ⟨q', hq'⟩ := hstart j y hy
      rw [hq, hq']
      exact List.Lex.append_left r (List.Lex.rel hij) p

end Traversal

/-! ## Writing -/

variable [DecidableEq I]

/-- **Rewriting one entry.** Let the path `p` lead to the table `t`, with
nothing below the entry `i` of it. If a second heap reads alike on the tables
of the tree, that one entry apart, and the table the new entry names – if it
names one – holds nothing, then the two trees differ at `p ++ [i]` and nowhere
else. -/
theorem slotAt_write (htree : Unshared view m root) {p : List I} {t : P} {i : I} {x : Slot P V}
    (hp : slotAt view m root p = .table t)
    (hbelow : ∀ j, slotAt view m root (p ++ [i] ++ [j]) = .empty)
    (hsame : ∀ q u, slotAt view m root q = .table u → ∀ j, (u, j) ≠ (t, i) →
      view q.length (m' u j) = view q.length (m u j))
    (hx : view p.length (m' t i) = x)
    (hfresh : ∀ c, x = .table c → ∀ j, view (p.length + 1) (m' c j) = .empty) :
    slotAt view m' root = Function.update (slotAt view m root) (p ++ [i]) x := by
  funext q
  induction q using List.reverseRecOn with
  | nil => rw [Function.update_of_ne (by simp), slotAt_nil, slotAt_nil]
  | append_singleton q j ih =>
    by_cases hqj : q ++ [j] = p ++ [i]
    · -- the rewritten entry itself: the table above it is found unchanged
      obtain ⟨rfl, hji⟩ := List.append_inj' hqj rfl
      obtain rfl : j = i := by simpa using hji
      rw [Function.update_self, slotAt_snoc, ih, Function.update_of_ne (by simp), hp, child_table,
        hx]
    · rw [Function.update_of_ne hqj, slotAt_snoc, ih]
      by_cases hq : q = p ++ [i]
      · -- below the rewritten entry there is nothing, before and after
        subst hq
        rw [Function.update_self, hbelow j]
        cases x with
        | empty => rfl
        | table c =>
          rw [child_table, List.length_append]
          exact hfresh c rfl j
        | leaf v => rfl
      · rw [Function.update_of_ne hq, slotAt_snoc]
        cases hs : slotAt view m root q with
        | empty => rfl
        | leaf v => rfl
        | table u =>
          refine hsame q u hs j (fun huj => ?_)
          obtain ⟨rfl, rfl⟩ := Prod.mk.inj huj
          exact hqj (by rw [htree q p u hs hp])

/-- A rewritten tree is still a tree when the entry names no table the tree
already had. -/
theorem Unshared.update (htree : Unshared view m root) {p : List I} {x : Slot P V}
    (h : slotAt view m' root = Function.update (slotAt view m root) p x)
    (hfresh : ∀ c, x = .table c → c ∉ tables view m root) : Unshared view m' root := by
  intro q r u hq hr
  rw [h] at hq hr
  by_cases hqp : q = p <;> by_cases hrp : r = p
  · rw [hqp, hrp]
  · rw [hqp, Function.update_self] at hq
    rw [Function.update_of_ne hrp] at hr
    exact absurd (mem_tables hr) (hfresh u hq)
  · rw [hrp, Function.update_self] at hr
    rw [Function.update_of_ne hqp] at hq
    exact absurd (mem_tables hq) (hfresh u hr)
  · rw [Function.update_of_ne hqp] at hq
    rw [Function.update_of_ne hrp] at hr
    exact htree q r u hq hr

/-- The tables of a rewritten tree are tables of the old one, but for the one
the entry names. -/
theorem mem_tables_of_update {p : List I} {x : Slot P V} {u : P}
    (h : slotAt view m' root = Function.update (slotAt view m root) p x)
    (hu : u ∈ tables view m' root) : u ∈ tables view m root ∨ x = .table u := by
  obtain ⟨q, hq⟩ := hu
  rw [h] at hq
  by_cases hqp : q = p
  · rw [hqp, Function.update_self] at hq
    exact Or.inr hq
  · rw [Function.update_of_ne hqp] at hq
    exact Or.inl (mem_tables hq)

/-- **The tables of a rewritten tree**: the table the entry names, and those
found under another path. -/
theorem mem_tables_update_iff {p : List I} {x : Slot P V} {u : P}
    (h : slotAt view m' root = Function.update (slotAt view m root) p x) :
    u ∈ tables view m' root ↔ x = .table u ∨ ∃ q ≠ p, slotAt view m root q = .table u := by
  constructor
  · rintro ⟨q, hq⟩
    rw [h] at hq
    by_cases hqp : q = p
    · rw [hqp, Function.update_self] at hq
      exact Or.inl hq
    · rw [Function.update_of_ne hqp] at hq
      exact Or.inr ⟨q, hqp, hq⟩
  · rintro (hx | ⟨q, hqp, hq⟩)
    · exact ⟨p, by rw [h, Function.update_self, hx]⟩
    · exact ⟨q, by rw [h, Function.update_of_ne hqp, hq]⟩

/-- A tree in which a slot without a table was given one. -/
theorem tables_update_table {p : List I} {c : P}
    (h : slotAt view m' root = Function.update (slotAt view m root) p (.table c))
    (hp : ∀ u, slotAt view m root p ≠ .table u) :
    tables view m' root = insert c (tables view m root) := by
  ext u
  rw [mem_tables_update_iff h, Set.mem_insert_iff, Slot.table.injEq, eq_comm]
  refine or_congr_right ⟨fun hu => ?_, fun hu => ?_⟩
  · obtain ⟨q, -, hq⟩ := hu
    exact mem_tables hq
  · obtain ⟨q, hq⟩ := hu
    exact ⟨q, fun hqp => hp u (hqp ▸ hq), hq⟩

/-- A tree in which a slot without a table was rewritten, and still has none. -/
theorem tables_update_of_not_table {p : List I} {x : Slot P V}
    (h : slotAt view m' root = Function.update (slotAt view m root) p x)
    (hp : ∀ u, slotAt view m root p ≠ .table u) (hx : ∀ u, x ≠ .table u) :
    tables view m' root = tables view m root := by
  ext u
  rw [mem_tables_update_iff h]
  constructor
  · rintro (hu | ⟨q, -, hq⟩)
    · exact absurd hu (hx u)
    · exact mem_tables hq
  · rintro ⟨q, hq⟩
    exact Or.inr ⟨q, fun hqp => hp u (hqp ▸ hq), hq⟩

/-- A tree from which a table was unlinked. -/
theorem tables_update_empty (htree : Unshared view m root) {p : List I} {c : P}
    (h : slotAt view m' root = Function.update (slotAt view m root) p .empty)
    (hp : slotAt view m root p = .table c) :
    tables view m' root = tables view m root \ {c} := by
  ext u
  rw [mem_tables_update_iff h, Set.mem_sdiff, Set.mem_singleton_iff]
  constructor
  · rintro (hu | ⟨q, hqp, hq⟩)
    · cases hu
    · refine ⟨mem_tables hq, ?_⟩
      rintro rfl
      exact hqp (htree q p u hq hp)
  · rintro ⟨⟨q, hq⟩, hne⟩
    refine Or.inr ⟨q, ?_, hq⟩
    rintro rfl
    exact hne (Slot.table.inj (hq.symm.trans hp))

end RadixHeap
