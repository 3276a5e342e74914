import Joes.Libc
import Joes.TracedProgram

/-!
# The positions `strrev` touches

`strlen` and `strrev` once more, as programs that say which characters they read and
write. Their results are those of the functions (`returns_strlen_iff`,
`returns_strrev_iff`), so what is left to ask is where they go.

`strlen` goes up from the first character and stops at the first 0, so it reads no
further than the end of the string (`strlenLoop_cell_le`). The loop of `strrev` starts
with two indices and moves them towards each other, so it does not leave what lies
between them (`strrevLoop_cell_mem`). They are 0 and the length less 1, which for a
string with characters in it are its first and its last one.

The indices are unsigned, and for the empty string the upper one is not below 0 but
`2 ^ 64 - 1`. Then the two have not met, and the first iteration reads and writes there,
at the character before the string (`read_mem_strrevLoop`). That is the only exception
(`reversesInPlace_iff`): otherwise the string is reversed where it is, and a second call
brings it back.
-/

/-- A program on the characters behind a pointer. -/
abbrev CharProgram := Traced CharBuffer (Traced.Access (BitVec 64))

namespace CharProgram

/-- `str[i]` -/
def readChar (i : BitVec 64) : CharProgram (BitVec 8) := Traced.load (fun str i => str i) i

/-- `str[i] = c` -/
def writeChar (i : BitVec 64) (c : BitVec 8) : CharProgram Unit :=
  Traced.store (fun str i c => Function.update str i c) i c

/-- The loop of `strlen`, with the iterations that are left. -/
def strlenLoop : ℕ → BitVec 64 → CharProgram (BitVec 64)
  | 0, _ => Traced.diverge
  | n + 1, i => do
    let c ← readChar i
    if c ≠ 0#8 then strlenLoop n (i + 1#64) else return i

/-- `strlen`. -/
def strlen : CharProgram (BitVec 64) := strlenLoop (2 ^ 64) 0#64

/-- The loop of `strrev`, with the iterations that are left. -/
def strrevLoop : ℕ → BitVec 64 → BitVec 64 → CharProgram Unit
  | 0, _, _ => Traced.diverge
  | n + 1, i, j =>
    if i < j then do
      let temp ← readChar i
      let c ← readChar j
      writeChar i c
      writeChar j temp
      strrevLoop n (i + 1#64) (j - 1#64)
    else return ()

/-- `strrev`. -/
def strrev : CharProgram Unit := do
  let len ← strlen
  strrevLoop (2 ^ 64) 0#64 (len - 1#64)

end CharProgram

section Strrev

variable {str str' : CharBuffer} {s : List (BitVec 8)} {n k : ℕ} {i j len : BitVec 64} {u : Unit}
  {t : List (Traced.Access (BitVec 64))}

/-! ## What the programs return -/

theorem returns_strlenLoop_iff :
    (CharProgram.strlenLoop n i).Returns str len str' ↔
      strlenLoop str n i = some len ∧ str = str' := by
  induction n generalizing i with
  | zero =>
    refine iff_of_false Traced.not_returns_diverge ?_
    rintro ⟨⟨⟩, -⟩
  | succ n ih =>
    rw [CharProgram.strlenLoop, strlenLoop, CharProgram.readChar,
      Traced.returns_bind_of fun _ _ => Traced.returns_load]
    split
    · exact ih
    · rw [Traced.returns_pure, Option.some.injEq]

/-- **`strlen` returns the length**, and leaves the string alone. -/
theorem returns_strlen_iff :
    CharProgram.strlen.Returns str len str' ↔ strlen str = some len ∧ str = str' :=
  returns_strlenLoop_iff

theorem returns_strrevLoop_iff :
    (CharProgram.strrevLoop n i j).Returns str u str' ↔ strrevLoop n i j str = some str' := by
  induction n generalizing i j str with
  | zero =>
    refine iff_of_false Traced.not_returns_diverge ?_
    rintro ⟨⟩
  | succ n ih =>
    rw [CharProgram.strrevLoop, strrevLoop]
    split
    · unfold CharProgram.readChar CharProgram.writeChar
      rw [Traced.returns_bind_of fun _ _ => Traced.returns_load,
        Traced.returns_bind_of fun _ _ => Traced.returns_load,
        Traced.returns_bind_of fun _ _ => Traced.returns_store,
        Traced.returns_bind_of fun _ _ => Traced.returns_store]
      exact ih
    · rw [Traced.returns_pure, Option.some.injEq, eq_self, true_and]

/-- **`strrev` leaves what the function makes of the string.** -/
theorem returns_strrev_iff :
    CharProgram.strrev.Returns str u str' ↔ strrev str = some str' := by
  rw [CharProgram.strrev, strrev, Traced.returns_bind]
  constructor
  · rintro ⟨len, str₁, hreturns, hloop⟩
    obtain ⟨hlen, rfl⟩ := returns_strlen_iff.mp hreturns
    rw [hlen]
    exact returns_strrevLoop_iff.mp hloop
  · intro h
    obtain ⟨len, hlen, hloop⟩ := Option.bind_eq_some_iff.mp h
    exact ⟨len, str, returns_strlen_iff.mpr ⟨hlen, rfl⟩, returns_strrevLoop_iff.mpr hloop⟩

/-! ## Where they go -/

/-- `strlen` reads no further than the 0. -/
theorem strlenLoop_cell_le (h : str.Holds s) (hk : k ≤ s.length)
    (hrun : (CharProgram.strlenLoop n (BitVec.ofNat 64 k)).Runs str t len str') :
    ∀ e ∈ t, e.cell.toNat ≤ s.length := by
  induction n generalizing k t with
  | zero => exact (Traced.not_runs_diverge hrun).elim
  | succ n ih =>
    have hlt := h.length_lt
    have hhere : (BitVec.ofNat 64 k).toNat ≤ s.length := by bv_omega
    obtain ⟨t, rfl, hrest⟩ := hrun.load_bind
    refine List.forall_mem_cons.mpr ⟨hhere, ?_⟩
    split at hrest
    · next hne =>
      rw [CharBuffer.ofNat_succ] at hrest
      refine ih (Nat.lt_of_le_of_ne hk fun hlast => hne ?_) hrest
      rw [hlast, h.read_length]
    · obtain ⟨-, -, rfl⟩ := Traced.runs_pure.mp hrest
      exact List.forall_mem_nil _

/-- **The loop of `strrev` stays between its indices.** -/
theorem strrevLoop_cell_mem (hrun : (CharProgram.strrevLoop n i j).Runs str t u str') :
    ∀ e ∈ t, i ≤ e.cell ∧ e.cell ≤ j := by
  induction n generalizing i j str t with
  | zero => exact (Traced.not_runs_diverge hrun).elim
  | succ n ih =>
    rw [CharProgram.strrevLoop] at hrun
    split at hrun
    · next hij =>
      have hi : i ≤ i ∧ i ≤ j := by bv_omega
      have hj : i ≤ j ∧ j ≤ j := by bv_omega
      obtain ⟨t₁, rfl, hrun₁⟩ := hrun.load_bind
      obtain ⟨t₂, rfl, hrun₂⟩ := hrun₁.load_bind
      obtain ⟨t₃, rfl, hrun₃⟩ := hrun₂.store_bind
      obtain ⟨t₄, rfl, hrun₄⟩ := hrun₃.store_bind
      have hrest : ∀ e ∈ t₄, i ≤ e.cell ∧ e.cell ≤ j := by
        intro e he
        have hin := ih hrun₄ e he
        bv_omega
      exact List.forall_mem_cons.mpr ⟨hi, List.forall_mem_cons.mpr ⟨hj,
        List.forall_mem_cons.mpr ⟨hi, List.forall_mem_cons.mpr ⟨hj, hrest⟩⟩⟩⟩
    · obtain ⟨-, -, rfl⟩ := Traced.runs_pure.mp hrun
      exact List.forall_mem_nil _

/-- If its indices have not met it reads at the upper one. -/
theorem read_mem_strrevLoop (hij : i < j)
    (hrun : (CharProgram.strrevLoop n i j).Runs str t u str') : .read j ∈ t := by
  cases n with
  | zero => exact (Traced.not_runs_diverge hrun).elim
  | succ n =>
    rw [CharProgram.strrevLoop, if_pos hij] at hrun
    obtain ⟨t₁, rfl, hrun₁⟩ := hrun.load_bind
    obtain ⟨t₂, rfl, -⟩ := hrun₁.load_bind
    exact List.mem_cons_of_mem _ List.mem_cons_self

/-- A run of `strrev` on a string: the length is found, and then the loop runs. -/
theorem strrev_runs (h : str.Holds s) (hrun : CharProgram.strrev.Runs str t u str') :
    ∃ t₁ t₂, t₁ ++ t₂ = t ∧ (∀ e ∈ t₁, e.cell.toNat ≤ s.length) ∧
      (CharProgram.strrevLoop (2 ^ 64) 0#64 (BitVec.ofNat 64 s.length - 1#64)).Runs str t₂ u
        str' := by
  obtain ⟨len, str₁, t₁, t₂, hlen, hloop, rfl⟩ := hrun.bind
  obtain ⟨hlength, rfl⟩ := returns_strlen_iff.mp ⟨t₁, hlen⟩
  rw [strlen_eq h, Option.some.injEq] at hlength
  subst hlength
  exact ⟨t₁, t₂, rfl, strlenLoop_cell_le h (Nat.zero_le _) hlen, hloop⟩

/-! ## Reversing in place -/

/-- **`strrev` reverses a string in place**: it returns and has touched only the
string and its 0, the buffer holds the reversed string, and calling it once more
brings back all that was there. -/
def ReversesInPlace (str : CharBuffer) (s : List (BitVec 8)) : Prop :=
  ∃ t str', CharProgram.strrev.Runs str t () str' ∧ (∀ e ∈ t, e.cell.toNat ≤ s.length) ∧
    str'.Holds s.reverse ∧ CharProgram.strrev.Returns str' () str

/-- **The empty string**: the upper index wraps around, and what is read is not in the
string. -/
theorem not_reversesInPlace_nil (h : str.Holds []) : ¬ ReversesInPlace str [] := by
  rintro ⟨t, str', hrun, hcell, -, -⟩
  obtain ⟨t₁, t₂, rfl, -, hloop⟩ := strrev_runs h hrun
  have hread := read_mem_strrevLoop (by decide) hloop
  exact absurd (hcell _ (List.mem_append_right _ hread)) (by decide)

/-- **When `strrev` reverses a string in place.** -/
theorem reversesInPlace_iff (h : str.Holds s) : ReversesInPlace str s ↔ s ≠ [] := by
  constructor
  · rintro hrev rfl
    exact not_reversesInPlace_nil h hrev
  · intro hs
    obtain ⟨t, hrun⟩ := returns_strrev_iff.mpr (strrev_eq h)
    have hheld := h.reversed hs
    refine ⟨t, _, hrun, ?_, hheld, ?_⟩
    · obtain ⟨t₁, t₂, rfl, hlen, hloop⟩ := strrev_runs h hrun
      refine List.forall_mem_append.mpr ⟨hlen, fun e he => ?_⟩
      have hpos : 0 < s.length := List.length_pos_iff.mpr hs
      have hlt := h.length_lt
      have hin := (strrevLoop_cell_mem hloop e he).2
      bv_omega
    · have htwice := strrev_eq hheld
      rw [List.length_reverse, CharBuffer.reversed_reversed] at htwice
      exact returns_strrev_iff.mpr htwice

/-- A string of three characters. -/
theorem reversesInPlace_abc :
    ReversesInPlace (CharBuffer.write (fun _ => 0#8) (charBytes "abc" ++ [0#8]))
      (charBytes "abc") :=
  (reversesInPlace_iff (CharBuffer.holds_write (by decide) (by decide))).mpr (by decide)

/-- The empty string. -/
theorem not_reversesInPlace_empty :
    CharBuffer.Holds (fun _ => 0#8) [] ∧ ¬ ReversesInPlace (fun _ => 0#8) [] := by
  have hempty : CharBuffer.Holds (fun _ => 0#8) [] :=
    ⟨by decide, List.not_mem_nil, fun _ _ => rfl⟩
  exact ⟨hempty, not_reversesInPlace_nil hempty⟩

end Strrev
