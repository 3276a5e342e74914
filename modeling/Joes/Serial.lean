import Joes.CharBuffer
import Joes.Libc
import Joes.Pic
import Joes.TracedProgram

/-!
# Lines from the serial port

`serial_read_byte` waits for as long as it takes for a byte, and `serial_read_line`
reads bytes into a buffer until a line is complete or the buffer full. The first byte
is read before the loop, which looks for the newline, and the character 0 is written
behind the index after the loop. So a line is read as it should exactly if the newline
is neither the first byte nor missing from those the buffer has space for
(`serialReadLine_iff`).

The functions are programs on the device behind the I/O ports and on the memory that
`dest` points to. Their trace is the bytes that are read from the port and those
that are written to the buffer.
-/

/-- The device behind the I/O ports, and what `dest` points to. -/
structure SerialState (δ : Type) where
  device : δ
  dest : CharBuffer

/-- **What happens** while a line is read. -/
inductive SerialEvent where
  /-- A byte is read from the port. -/
  | received (data : BitVec 8)
  /-- A character is written to the buffer. -/
  | stored (i : BitVec 64) (c : BitVec 8)
  deriving DecidableEq, Repr

/-- The programs of the driver. -/
abbrev SerialProgram (δ α : Type) := Traced (SerialState δ) SerialEvent α

/-- `SERIAL_LINE_STATUS_REG`. -/
def serialLineStatusReg (port : BitVec 16) : BitVec 16 := port + 5#16

section Driver

variable {δ : Type} (dev : PortDevice δ) (fuel : ℕ) (port : BitVec 16)

/-- `port_read_byte`. -/
def serialPortReadByte (port : BitVec 16) : SerialProgram δ (BitVec 8) :=
  Traced.modifyGet fun s =>
    let r := dev.read port s.device
    (r.1, { s with device := r.2 })

/-- The loop of `serial_read_byte`. -/
def serialWaitToRead : ℕ → SerialProgram δ Unit
  | 0 => Traced.diverge
  | fuel + 1 => do
    let status ← serialPortReadByte dev (serialLineStatusReg port)
    if status &&& 1#8 = 0#8 then serialWaitToRead fuel else pure ()

/-- `serial_read_byte`. -/
def serialReadByte : SerialProgram δ (BitVec 8) := do
  serialWaitToRead dev port fuel
  let data ← serialPortReadByte dev port
  Traced.emit (.received data)
  pure data

/-- `dest[i] = c`. -/
def storeDest (i : BitVec 64) (c : BitVec 8) : SerialProgram δ Unit := do
  Traced.modify fun s => { s with dest := Function.update s.dest i c }
  Traced.emit (.stored i c)

/-- The loop of `serial_read_line`, with the index after it. -/
def serialReadLineLoop (bufferSize : BitVec 64) : ℕ → BitVec 64 → SerialProgram δ (BitVec 64)
  | 0, _ => Traced.diverge
  | n + 1, i =>
    if i < bufferSize - 1#64 then do
      let data ← serialReadByte dev fuel port
      storeDest i data
      let c ← Traced.gets fun s => s.dest i
      if c = charByte '\n' then pure i else serialReadLineLoop bufferSize n (i + 1#64)
    else pure i

/-- `serial_read_line`. -/
def serialReadLine (bufferSize : BitVec 64) : SerialProgram δ Unit := do
  let data ← serialReadByte dev fuel port
  storeDest 0#64 data
  let i ← serialReadLineLoop dev fuel port bufferSize fuel 1#64
  storeDest (i + 1#64) 0#8

end Driver

/-! ## Lines -/

/-- **A line** of a stream of bytes: those up to the first newline, or the number
given of them. -/
def lineOf (b : ℕ → BitVec 8) : ℕ → List (BitVec 8)
  | 0 => []
  | n + 1 => b 0 :: if b 0 = charByte '\n' then [] else lineOf (fun k => b (k + 1)) n

theorem length_lineOf_le (b : ℕ → BitVec 8) (n : ℕ) : (lineOf b n).length ≤ n := by
  induction n generalizing b with
  | zero => exact le_rfl
  | succ n ih =>
    unfold lineOf
    split
    · exact Nat.succ_le_succ (Nat.zero_le n)
    · exact Nat.succ_le_succ (ih _)

/-- A line with no newline has the number of bytes that was given. -/
theorem length_lineOf {b : ℕ → BitVec 8} {n : ℕ} (h : charByte '\n' ∉ lineOf b n) :
    (lineOf b n).length = n := by
  induction n generalizing b with
  | zero => rfl
  | succ n ih =>
    unfold lineOf at h ⊢
    obtain ⟨hne, h⟩ := not_or.mp (mt List.mem_cons.mpr h)
    rw [if_neg (Ne.symm hne)] at h ⊢
    rw [List.length_cons, ih h]

theorem newline_mem_lineOf (b : ℕ → BitVec 8) (n : ℕ) :
    charByte '\n' ∈ lineOf b n ↔ ∃ p < n, b p = charByte '\n' := by
  induction n generalizing b with
  | zero => simp [lineOf]
  | succ n ih =>
    rw [lineOf, Nat.exists_lt_succ_left]
    split
    · next h => simp [h]
    · next h => rw [List.mem_cons, ih, or_congr_left eq_comm]

/-! ## Streams -/

section Stream

variable {δ : Type} (dev : PortDevice δ) (port : BitVec 16)

/-- **The stream of bytes** that `serial_read_byte` delivers from a device on, one after
the other. -/
def SerialStream (d : δ) (b : ℕ → BitVec 8) : Prop :=
  ∃ ds : ℕ → δ, ds 0 = d ∧ ∀ n dest, ∃ fuel,
    (serialReadByte dev fuel port).Runs ⟨ds n, dest⟩ [.received (b n)] (b n) ⟨ds (n + 1), dest⟩

variable {dev port} {d : δ} {b : ℕ → BitVec 8} {fuel fuel' : ℕ}

theorem serialWaitToRead_extends (h : fuel ≤ fuel') :
    (serialWaitToRead dev port fuel).Extends (serialWaitToRead dev port fuel') := by
  refine Traced.extends_of_le (m := serialWaitToRead dev port) (fun n => ?_) h
  induction n with
  | zero => exact .of_diverge _
  | succ n ih => exact .bind (.refl _) fun _ => .ite ih (.refl _)

theorem serialReadByte_extends (h : fuel ≤ fuel') :
    (serialReadByte dev fuel port).Extends (serialReadByte dev fuel' port) :=
  .bind (serialWaitToRead_extends h) fun _ => .refl _

theorem serialReadLineLoop_extends {bufferSize i : BitVec 64} {n n' : ℕ} (h : fuel ≤ fuel')
    (hn : n ≤ n') : (serialReadLineLoop dev fuel port bufferSize n i).Extends
      (serialReadLineLoop dev fuel' port bufferSize n' i) := by
  induction n generalizing n' i with
  | zero => exact .of_diverge _
  | succ n ih =>
    obtain ⟨n', rfl⟩ := Nat.exists_eq_add_of_le' (show 1 ≤ n' by omega)
    refine .ite (.bind (serialReadByte_extends h) fun _ => .bind (.refl _) fun _ =>
      .bind (.refl _) fun _ => .ite (.refl _) (ih (by omega))) (.refl _)

theorem serialReadLine_extends {bufferSize : BitVec 64} (h : fuel ≤ fuel') :
    (serialReadLine dev fuel port bufferSize).Extends (serialReadLine dev fuel' port bufferSize) :=
  .bind (serialReadByte_extends h) fun _ => .bind (.refl _) fun _ =>
    .bind (serialReadLineLoop_extends h h) fun _ => .refl _

/-- The first byte of a stream, and the rest of it. -/
theorem SerialStream.read (h : SerialStream dev port d b) :
    ∃ d', SerialStream dev port d' (fun k => b (k + 1)) ∧ ∀ dest, ∃ fuel, ∀ fuel' ≥ fuel,
      (serialReadByte dev fuel' port).Runs ⟨d, dest⟩ [.received (b 0)] (b 0) ⟨d', dest⟩ := by
  obtain ⟨ds, rfl, hread⟩ := h
  refine ⟨ds 1, ⟨fun n => ds (n + 1), rfl, fun n => hread (n + 1)⟩, fun dest => ?_⟩
  obtain ⟨fuel, hrun⟩ := hread 0 dest
  exact ⟨fuel, fun fuel' hle => serialReadByte_extends hle hrun⟩

/-! ## Reading a line -/

/-- The trace of bytes read and stored from an index on. -/
def lineEvents : ℕ → List (BitVec 8) → List SerialEvent
  | _, [] => []
  | k, c :: cs => .received c :: .stored (BitVec.ofNat 64 k) c :: lineEvents (k + 1) cs

/-- The byte that an event reads from the port. -/
def SerialEvent.consumed : SerialEvent → Option (BitVec 8)
  | .received c => some c
  | .stored _ _ => none

theorem consumed_lineEvents (k : ℕ) (cs : List (BitVec 8)) :
    (lineEvents k cs).filterMap SerialEvent.consumed = cs := by
  induction cs generalizing k with
  | nil => rfl
  | cons c cs ih => exact congrArg (c :: ·) (ih (k + 1))

theorem consumed_append_stored (k : ℕ) (cs : List (BitVec 8)) (i : BitVec 64) (c : BitVec 8) :
    (lineEvents k cs ++ [SerialEvent.stored i c]).filterMap SerialEvent.consumed = cs := by
  rw [List.filterMap_append, consumed_lineEvents]
  exact List.append_nil cs

/-- Bytes are stored one behind the other. -/
theorem stored_lineEvents {k : ℕ} {cs : List (BitVec 8)} {i : BitVec 64} {c : BitVec 8}
    (h : SerialEvent.stored i c ∈ lineEvents k cs) :
    ∃ j < k + cs.length, i = BitVec.ofNat 64 j := by
  induction cs generalizing k with
  | nil => cases h
  | cons c' cs ih =>
    rw [List.length_cons]
    rcases List.mem_cons.mp h with h | h
    · cases h
    rcases List.mem_cons.mp h with h | h
    · obtain ⟨rfl, -⟩ := SerialEvent.stored.inj h
      exact ⟨k, by omega, rfl⟩
    · obtain ⟨j, hj, rfl⟩ := ih h
      exact ⟨j, by omega, rfl⟩

theorem storeDest_runs (i : BitVec 64) (c : BitVec 8) (d : δ) (dest : CharBuffer) :
    (storeDest i c).Runs ⟨d, dest⟩ [.stored i c] () ⟨d, Function.update dest i c⟩ :=
  Traced.Runs.modify_seq (Traced.runs_emit.mpr ⟨rfl, rfl⟩)

/-- **The loop** reads the rest of the line. It ends at the index of the newline, or
behind the last byte. -/
theorem serialReadLineLoop_runs {bufferSize : BitVec 64} {m : ℕ} (cs : List (BitVec 8))
    (hb : SerialStream dev port d b) (hsize : bufferSize.toNat = cs.length + m + 1)
    (dest : CharBuffer) :
    ∃ d' fuel, ∀ fuel' ≥ fuel, ∀ n > m, (serialReadLineLoop dev fuel' port bufferSize n
      (BitVec.ofNat 64 cs.length)).Runs ⟨d, dest.write cs⟩ (lineEvents cs.length (lineOf b m))
        (BitVec.ofNat 64 (cs.length + (lineOf b m).length
          - if charByte '\n' ∈ lineOf b m then 1 else 0))
        ⟨d', dest.write (cs ++ lineOf b m)⟩ := by
  have hlt := bufferSize.isLt
  induction m generalizing cs d b with
  | zero =>
    refine ⟨d, 0, fun fuel' _ n hn => ?_⟩
    obtain ⟨n, rfl⟩ := Nat.exists_eq_add_of_lt hn
    have hend : ¬ BitVec.ofNat 64 cs.length < bufferSize - 1#64 := by bv_omega
    rw [Nat.zero_add, serialReadLineLoop, if_neg hend]
    refine Traced.runs_pure.mpr ⟨rfl, ?_, rfl⟩
    rw [lineOf, List.append_nil]
  | succ m ih =>
    obtain ⟨d₁, hb', hread⟩ := hb.read
    obtain ⟨fuel₁, hread⟩ := hread (dest.write cs)
    have hlen : (cs ++ [b 0]).length = cs.length + 1 := List.length_append
    obtain ⟨d₂, fuel₂, hrest⟩ := ih (cs ++ [b 0]) hb' (by omega)
    have hmore : BitVec.ofNat 64 cs.length < bufferSize - 1#64 := by bv_omega
    have hstored : Function.update (dest.write cs) (BitVec.ofNat 64 cs.length) (b 0)
        = dest.write (cs ++ [b 0]) := CharBuffer.update_write (by omega)
    have hat : dest.write (cs ++ [b 0]) (BitVec.ofNat 64 cs.length) = b 0 := by
      rw [← hstored, Function.update_self]
    -- The byte is read, stored and looked at in every iteration.
    have hstep : ∀ {k : BitVec 8 → SerialProgram δ (BitVec 64)} {t j s'}, ∀ fuel' ≥ fuel₁,
        (k (b 0)).Runs ⟨d₁, dest.write (cs ++ [b 0])⟩ t j s' →
        (do
          let data ← serialReadByte dev fuel' port
          storeDest (BitVec.ofNat 64 cs.length) data
          let c ← Traced.gets fun s => s.dest (BitVec.ofNat 64 cs.length)
          k c : SerialProgram δ (BitVec 64)).Runs ⟨d, dest.write cs⟩
          (.received (b 0) :: .stored (BitVec.ofNat 64 cs.length) (b 0) :: t) j s' := by
      intro k t j s' fuel' hfuel hrun
      have hstore := storeDest_runs (BitVec.ofNat 64 cs.length) (b 0) d₁ (dest.write cs)
      rw [hstored] at hstore
      have hget : (Traced.gets fun s => s.dest (BitVec.ofNat 64 cs.length) :
          SerialProgram δ (BitVec 8)).Runs ⟨d₁, dest.write (cs ++ [b 0])⟩ [] (b 0)
            ⟨d₁, dest.write (cs ++ [b 0])⟩ := Traced.runs_gets.mpr ⟨hat, rfl, rfl⟩
      exact (hread fuel' hfuel).seq (hstore.seq (hget.seq hrun))
    by_cases hnewline : b 0 = charByte '\n'
    · refine ⟨d₁, fuel₁, fun fuel' hfuel n hn => ?_⟩
      obtain ⟨n, rfl⟩ := Nat.exists_eq_add_of_lt hn
      have hline : lineOf b (m + 1) = [b 0] := by rw [lineOf, if_pos hnewline]
      have hmem : charByte '\n' ∈ [b 0] := List.mem_singleton.mpr hnewline.symm
      rw [serialReadLineLoop, if_pos hmore, hline, if_pos hmem]
      refine hstep fuel' hfuel ?_
      rw [if_pos hnewline]
      exact Traced.runs_pure.mpr ⟨rfl, rfl, rfl⟩
    · refine ⟨d₂, max fuel₁ fuel₂, fun fuel' hfuel n hn => ?_⟩
      obtain ⟨n, rfl⟩ := Nat.exists_eq_add_of_lt hn
      have hline : lineOf b (m + 1) = b 0 :: lineOf (fun k => b (k + 1)) m := by
        rw [lineOf, if_neg hnewline]
      have hmem : charByte '\n' ∈ b 0 :: lineOf (fun k => b (k + 1)) m
          ↔ charByte '\n' ∈ lineOf (fun k => b (k + 1)) m := by
        rw [List.mem_cons, or_iff_right (Ne.symm hnewline)]
      have hlast := hrest fuel' (le_trans (le_max_right _ _) hfuel) (m + 1 + n) (by omega)
      rw [hlen, List.append_assoc, List.singleton_append, ← CharBuffer.ofNat_succ] at hlast
      have hsum : cs.length + (lineOf (fun k => b (k + 1)) m).length.succ
          = cs.length + 1 + (lineOf (fun k => b (k + 1)) m).length := by omega
      rw [serialReadLineLoop, if_pos hmore, hline, if_congr hmem rfl rfl, List.length_cons, hsum]
      refine hstep fuel' (le_trans (le_max_left _ _) hfuel) ?_
      rw [if_neg hnewline]
      exact hlast

/-- **A line is read**: the first byte, and what the loop reads. The character 0 is
written behind them if a newline ended the loop, and else one further. -/
theorem serialReadLine_runs {bufferSize : BitVec 64} {m : ℕ} (hb : SerialStream dev port d b)
    (hsize : bufferSize.toNat = m + 2) (dest : CharBuffer) :
    let line := lineOf (fun k => b (k + 1)) m
    let i := if charByte '\n' ∈ line then line.length + 1 else line.length + 2
    ∃ d' fuel, ∀ fuel' ≥ fuel, (serialReadLine dev fuel' port bufferSize).Runs ⟨d, dest⟩
      (lineEvents 0 (b 0 :: line) ++ [.stored (BitVec.ofNat 64 i) 0#8]) ()
      ⟨d', Function.update (dest.write (b 0 :: line)) (BitVec.ofNat 64 i) 0#8⟩ := by
  intro line i
  obtain ⟨d₁, hb', hread⟩ := hb.read
  obtain ⟨fuel₁, hread⟩ := hread dest
  obtain ⟨d₂, fuel₂, hloop⟩ := serialReadLineLoop_runs [b 0] hb'
    (show bufferSize.toNat = 1 + m + 1 by omega) dest
  refine ⟨d₂, max (max fuel₁ fuel₂) (m + 1), fun fuel' hfuel => ?_⟩
  have hfirst : Function.update dest 0#64 (b 0) = dest.write [b 0] :=
    CharBuffer.update_write (s := []) (by decide)
  have hstore := storeDest_runs 0#64 (b 0) d₁ dest
  rw [hfirst] at hstore
  have hrest := hloop fuel' (by omega) fuel' (by omega)
  have hindex : BitVec.ofNat 64 (1 + line.length - if charByte '\n' ∈ line then 1 else 0) + 1#64
      = BitVec.ofNat 64 i := by
    rw [CharBuffer.ofNat_succ]
    congr 1
    by_cases hmem : charByte '\n' ∈ line
    · have hpos : 0 < line.length := List.length_pos_of_mem hmem
      have hi : i = line.length + 1 := if_pos hmem
      rw [if_pos hmem, hi]
      omega
    · have hi : i = line.length + 2 := if_neg hmem
      rw [if_neg hmem, hi]
      omega
  have hend := storeDest_runs (BitVec.ofNat 64 i) 0#8 d₂ (dest.write (b 0 :: line))
  rw [← hindex] at hend ⊢
  exact (hread fuel' (by omega)).seq (hstore.seq (hrest.seq hend))

/-- **One line is read** as it should be: within the buffer, no further than the line
goes, and with the character 0 behind it. -/
structure ReadsLine (b : ℕ → BitVec 8) (bufferSize : BitVec 64) (t : List SerialEvent)
    (dest : CharBuffer) : Prop where
  stored_lt : ∀ i c, .stored i c ∈ t → i < bufferSize
  consumed_eq : t.filterMap SerialEvent.consumed = lineOf b (bufferSize.toNat - 1)
  dest_eq : ∀ k ≤ (lineOf b (bufferSize.toNat - 1)).length,
    dest (BitVec.ofNat 64 k) = (lineOf b (bufferSize.toNat - 1)).getD k 0#8

/-- The buffer is overrun if the newline is missing. -/
theorem not_readsLine_of_not_mem {bufferSize : BitVec 64} {m : ℕ}
    (hsize : bufferSize.toNat = m + 2) (h : charByte '\n' ∉ lineOf (fun k => b (k + 1)) m)
    {t : List SerialEvent} {dest : CharBuffer}
    (ht : .stored (BitVec.ofNat 64 ((lineOf (fun k => b (k + 1)) m).length + 2)) 0#8 ∈ t) :
    ¬ ReadsLine b bufferSize t dest := fun hline => by
  have hlt := hline.stored_lt _ _ ht
  rw [length_lineOf h] at hlt
  bv_omega

theorem lineOf_first {bufferSize : BitVec 64} {m : ℕ} (hsize : bufferSize.toNat = m + 2) :
    lineOf b (bufferSize.toNat - 1)
      = b 0 :: if b 0 = charByte '\n' then [] else lineOf (fun k => b (k + 1)) m := by
  rw [hsize]
  rfl

/-- Where the first byte is no newline, the line is in the buffer if the character 0 is
written right behind it. -/
theorem readsLine_of_first_ne {bufferSize : BitVec 64} {m : ℕ} (hsize : bufferSize.toNat = m + 2)
    (hfirst : b 0 ≠ charByte '\n') (dest : CharBuffer) :
    let line := lineOf (fun k => b (k + 1)) m
    ReadsLine b bufferSize
      (lineEvents 0 (b 0 :: line) ++ [.stored (BitVec.ofNat 64 (line.length + 1)) 0#8])
      (Function.update (dest.write (b 0 :: line)) (BitVec.ofNat 64 (line.length + 1)) 0#8) := by
  intro line
  have hlen : (b 0 :: line).length < bufferSize.toNat := by
    have hle : line.length ≤ m := length_lineOf_le (fun k => b (k + 1)) m
    rw [List.length_cons]
    omega
  have hlt := bufferSize.isLt
  have hline := lineOf_first (b := b) hsize
  rw [if_neg hfirst] at hline
  rw [← List.length_cons (a := b 0), CharBuffer.update_write (hlen.trans hlt)]
  refine ⟨fun i c hi => ?_, ?_, ?_⟩
  · rcases List.mem_append.mp hi with hi | hi
    · obtain ⟨j, hj, rfl⟩ := stored_lineEvents hi
      bv_omega
    · obtain ⟨rfl, -⟩ := SerialEvent.stored.inj (List.mem_singleton.mp hi)
      bv_omega
  · rw [hline, consumed_append_stored]
  · intro k hk
    rw [hline] at hk ⊢
    exact CharBuffer.read_write (hlen.trans hlt) hk

/-- **A line is read as it should be** exactly if the first byte is no newline and there
is one among those that fit into the buffer behind it. -/
theorem serialReadLine_iff (d : δ) (dest : CharBuffer) (b : ℕ → BitVec 8) (bufferSize : BitVec 64)
    (hsize : 2 ≤ bufferSize.toNat) (hb : SerialStream dev port d b) :
    ((∃ fuel t s', (serialReadLine dev fuel port bufferSize).Runs ⟨d, dest⟩ t () s')
        ∧ ∀ fuel t s', (serialReadLine dev fuel port bufferSize).Runs ⟨d, dest⟩ t () s' →
          ReadsLine b bufferSize t s'.dest)
      ↔ b 0 ≠ charByte '\n' ∧ ∃ p, 1 ≤ p ∧ p + 2 ≤ bufferSize.toNat ∧ b p = charByte '\n' := by
  obtain ⟨m, hm⟩ := Nat.exists_eq_add_of_le' hsize
  obtain ⟨d', fuel, hruns⟩ := serialReadLine_runs hb hm dest
  have hcond : (∃ p, 1 ≤ p ∧ p + 2 ≤ bufferSize.toNat ∧ b p = charByte '\n')
      ↔ charByte '\n' ∈ lineOf (fun k => b (k + 1)) m := by
    rw [newline_mem_lineOf]
    constructor
    · rintro ⟨p, hpos, hp, hnewline⟩
      exact ⟨p - 1, by omega, by rwa [Nat.sub_add_cancel hpos]⟩
    · rintro ⟨p, hp, hnewline⟩
      exact ⟨p + 1, by omega, by omega, hnewline⟩
  rw [hcond]
  constructor
  · rintro ⟨-, hreads⟩
    have hread := hreads fuel _ _ (hruns fuel le_rfl)
    have hmem : charByte '\n' ∈ lineOf (fun k => b (k + 1)) m := by
      by_contra hmem
      refine not_readsLine_of_not_mem hm hmem ?_ hread
      rw [if_neg hmem]
      exact List.mem_append_right _ (List.mem_singleton_self _)
    refine ⟨fun hfirst => ?_, hmem⟩
    -- A newline that is the first byte does not end the line.
    have hconsumed := hread.consumed_eq
    rw [lineOf_first hm, if_pos hfirst, consumed_append_stored] at hconsumed
    exact List.ne_nil_of_mem hmem (List.cons.inj hconsumed).2
  · rintro ⟨hfirst, hmem⟩
    refine ⟨⟨fuel, _, _, hruns fuel le_rfl⟩, fun fuel' t s' hrun => ?_⟩
    have hrun' := hruns (max fuel fuel') (le_max_left _ _)
    obtain rfl := (serialReadLine_extends (le_max_right _ _) hrun).unique hrun'
    obtain ⟨-, rfl⟩ := hrun'.unique_result (serialReadLine_extends (le_max_right _ _) hrun)
    rw [if_pos hmem]
    exact readsLine_of_first_ne hm hfirst dest

/-- A port that has every byte of a stream at once, with the number of those taken. -/
def serialSource (port : BitVec 16) (b : ℕ → BitVec 8) : PortDevice ℕ where
  read p n := if p = serialLineStatusReg port then (1#8, n) else (b n, n + 1)
  write _ _ n := n

/-- **Every stream is delivered by some port.** -/
theorem serialSource_stream (port : BitVec 16) (b : ℕ → BitVec 8) :
    SerialStream (serialSource port b) port 0 b := by
  have hne : port ≠ serialLineStatusReg port := by
    unfold serialLineStatusReg
    bv_omega
  refine ⟨id, rfl, fun n dest => ⟨1, ?_⟩⟩
  have hstatus : (serialPortReadByte (serialSource port b) (serialLineStatusReg port)).Runs
      ⟨n, dest⟩ [] 1#8 ⟨n, dest⟩ := Traced.runs_modifyGet.mpr (by simp [serialSource])
  have hdata : (serialPortReadByte (serialSource port b) port).Runs ⟨n, dest⟩ [] (b n)
      ⟨n + 1, dest⟩ := Traced.runs_modifyGet.mpr (by simp [serialSource, hne])
  have hwait : (serialWaitToRead (serialSource port b) port 1).Runs ⟨n, dest⟩ [] () ⟨n, dest⟩ :=
    hstatus.seq (Traced.runs_pure.mpr ⟨rfl, rfl, rfl⟩)
  exact hwait.seq (hdata.seq (Traced.Runs.emit_seq (Traced.runs_pure.mpr ⟨rfl, rfl, rfl⟩)))

/-- A line that is read as it should be. -/
theorem serialReadLine_short_line :
    (∃ fuel t s', (serialReadLine (serialSource 0x3f8#16 ((charBytes "on\n").getD · 0#8)) fuel
        0x3f8#16 8#64).Runs ⟨0, fun _ => 0#8⟩ t () s')
      ∧ ∀ fuel t s', (serialReadLine (serialSource 0x3f8#16 ((charBytes "on\n").getD · 0#8)) fuel
          0x3f8#16 8#64).Runs ⟨0, fun _ => 0#8⟩ t () s' →
        ReadsLine ((charBytes "on\n").getD · 0#8) 8#64 t s'.dest :=
  (serialReadLine_iff 0 _ _ 8#64 (by decide) (serialSource_stream _ _)).mpr
    ⟨by decide, 2, by decide, by decide, by decide⟩

/-- **A line as long as the buffer**: the character 0 is written behind it. -/
theorem serialReadLine_long_line :
    ¬ ((∃ fuel t s', (serialReadLine (serialSource 0x3f8#16 ((charBytes "quit\n").getD · 0#8)) fuel
        0x3f8#16 4#64).Runs ⟨0, fun _ => 0#8⟩ t () s')
      ∧ ∀ fuel t s', (serialReadLine (serialSource 0x3f8#16 ((charBytes "quit\n").getD · 0#8)) fuel
          0x3f8#16 4#64).Runs ⟨0, fun _ => 0#8⟩ t () s' →
        ReadsLine ((charBytes "quit\n").getD · 0#8) 4#64 t s'.dest) := by
  rintro ⟨-, hreads⟩
  have hmem : charByte '\n' ∉ lineOf (fun k => (charBytes "quit\n").getD (k + 1) 0#8) 2 := by decide
  obtain ⟨d', fuel, hruns⟩ := serialReadLine_runs (m := 2)
    (serialSource_stream 0x3f8#16 ((charBytes "quit\n").getD · 0#8))
      (show (4#64).toNat = 2 + 2 from rfl) fun _ => 0#8
  refine not_readsLine_of_not_mem (m := 2) rfl hmem ?_ (hreads fuel _ _ (hruns fuel le_rfl))
  rw [if_neg hmem]
  exact List.mem_append_right _ (List.mem_singleton_self _)

end Stream
