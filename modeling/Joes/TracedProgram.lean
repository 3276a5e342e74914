import Mathlib.Data.List.Basic

/-!
# Programs that leave a trace

A program on a state `σ` may run forever. When it returns, it has a result, a
new state, and a trace: the list of the events `ε` it has emitted, in order. The
trace is not part of the state, so what a program emits does not depend on what
was emitted before, and the trace of two programs in sequence is the one of the
first followed by the one of the second.

`Runs` is the relation to reason with, a program returning with a trace and a
result, and each way to build a program has one lemma about it. `Confined` says
that a program leaves a view of the state alone and emits only events of a kind;
it is kept by all the ways to build a program. Where the state has cells and it is
asked which of them a program touches, its events are `Access`es.
-/

/-- **A program** on the state `σ`: nothing if it does not return, and its result,
the state after it and its trace if it does. -/
def Traced (σ ε α : Type) := σ → Option (α × σ × List ε)

namespace Traced

variable {σ ε α β υ : Type}

instance : Monad (Traced σ ε) where
  pure a s := some (a, s, [])
  bind m f s :=
    match m s with
    | none => none
    | some (a, s₁, t₁) =>
      match f a s₁ with
      | none => none
      | some (b, s₂, t₂) => some (b, s₂, t₁ ++ t₂)

/-- The program that does not return. -/
def diverge : Traced σ ε α := fun _ => none

/-- Reads the state. -/
def gets (f : σ → α) : Traced σ ε α := fun s => some (f s, s, [])

/-- Changes the state. -/
def modify (f : σ → σ) : Traced σ ε Unit := fun s => some ((), f s, [])

/-- Changes the state, with a result. -/
def modifyGet (f : σ → α × σ) : Traced σ ε α := fun s => some ((f s).1, (f s).2, [])

/-- Emits an event. -/
def emit (e : ε) : Traced σ ε Unit := fun s => some ((), s, [e])

/-- The program that returns what there is, if there is anything. -/
def ofOption : Option α → Traced σ ε α
  | some a => pure a
  | none => diverge

/-- Runs a program on a condition. -/
def when (c : Prop) [Decidable c] (m : Traced σ ε Unit) : Traced σ ε Unit :=
  if c then m else pure ()

/-- **A run**: from the state `s` the program emits `t` and returns `a` in the
state `s'`. -/
def Runs (m : Traced σ ε α) (s : σ) (t : List ε) (a : α) (s' : σ) : Prop := m s = some (a, s', t)

variable {m n : Traced σ ε α} {f : α → Traced σ ε β} {s s' s₁ : σ} {t : List ε} {a : α} {b : β}

theorem runs_pure {a' : α} :
    (pure a : Traced σ ε α).Runs s t a' s' ↔ a = a' ∧ s = s' ∧ [] = t := by
  show some (a, s, []) = some (a', s', t) ↔ _
  rw [Option.some.injEq, Prod.mk.injEq, Prod.mk.injEq]

theorem runs_gets {g : σ → α} :
    (gets g : Traced σ ε α).Runs s t a s' ↔ g s = a ∧ s = s' ∧ [] = t := by
  show some (g s, s, []) = some (a, s', t) ↔ _
  rw [Option.some.injEq, Prod.mk.injEq, Prod.mk.injEq]

theorem runs_modifyGet {g : σ → α × σ} :
    (modifyGet g : Traced σ ε α).Runs s t a s' ↔ (g s).1 = a ∧ (g s).2 = s' ∧ [] = t := by
  show some ((g s).1, (g s).2, []) = some (a, s', t) ↔ _
  rw [Option.some.injEq, Prod.mk.injEq, Prod.mk.injEq]

theorem runs_modify {g : σ → σ} {u : Unit} :
    (modify g : Traced σ ε Unit).Runs s t u s' ↔ g s = s' ∧ [] = t := by
  show some ((), g s, []) = some (u, s', t) ↔ _
  rw [Option.some.injEq, Prod.mk.injEq, Prod.mk.injEq, eq_self, true_and]

theorem runs_emit {e : ε} {u : Unit} :
    (emit e : Traced σ ε Unit).Runs s t u s' ↔ s = s' ∧ [e] = t := by
  show some ((), s, [e]) = some (u, s', t) ↔ _
  rw [Option.some.injEq, Prod.mk.injEq, Prod.mk.injEq, eq_self, true_and]

theorem not_runs_diverge : ¬ (diverge : Traced σ ε α).Runs s t a s' := fun h => by cases h

/-- **A sequence** runs as its parts do, one after the other. -/
theorem runs_bind :
    (m >>= f).Runs s t b s' ↔
      ∃ a s₁ t₁ t₂, m.Runs s t₁ a s₁ ∧ (f a).Runs s₁ t₂ b s' ∧ t₁ ++ t₂ = t := by
  show (match m s with
    | none => none
    | some (a, s₁, t₁) =>
      match f a s₁ with
      | none => none
      | some (b, s₂, t₂) => some (b, s₂, t₁ ++ t₂)) = some (b, s', t) ↔ _
  constructor
  · intro h
    split at h
    · cases h
    · next a s₁ t₁ hm =>
      split at h
      · cases h
      · next b' s₂ t₂ hf =>
        obtain ⟨⟩ := h
        exact ⟨a, s₁, t₁, t₂, hm, hf, rfl⟩
  · rintro ⟨a, s₁, t₁, t₂, hm, hf, rfl⟩
    rw [show m s = _ from hm]
    dsimp only
    rw [show f a s₁ = _ from hf]

/-- Two runs in sequence are one. -/
theorem Runs.seq {t₁ t₂ : List ε} (h : m.Runs s t₁ a s₁) (h' : (f a).Runs s₁ t₂ b s') :
    (m >>= f).Runs s (t₁ ++ t₂) b s' := runs_bind.mpr ⟨a, s₁, t₁, t₂, h, h', rfl⟩

/-- A run of a sequence whose first part returns at once. -/
theorem Runs.pure_seq (h : (f a).Runs s t b s') : ((pure a : Traced σ ε α) >>= f).Runs s t b s' :=
  Runs.seq (runs_pure.mpr ⟨rfl, rfl, rfl⟩) h

/-- A run of a sequence whose first part returns what there is. -/
theorem Runs.some_seq (h : (f a).Runs s t b s') :
    ((ofOption (some a) : Traced σ ε α) >>= f).Runs s t b s' := h.pure_seq

/-- A run of a program with a result computed from its own. -/
theorem Runs.seq_pure {g : α → β} (h : m.Runs s t a s') :
    (m >>= fun a => (pure (g a) : Traced σ ε β)).Runs s t (g a) s' := by
  have hseq := h.seq (f := fun a => pure (g a)) (runs_pure.mpr ⟨rfl, rfl, rfl⟩)
  rwa [List.append_nil] at hseq

/-- A run of a sequence whose first part emits an event. -/
theorem Runs.emit_seq {e : ε} {g : Unit → Traced σ ε β} (h : (g ()).Runs s t b s') :
    (emit e >>= g).Runs s (e :: t) b s' := Runs.seq (runs_emit.mpr ⟨rfl, rfl⟩) h

/-- A run of a sequence whose first part reads the state. -/
theorem Runs.gets_seq {g : σ → α} (h : (f (g s)).Runs s t b s') :
    (gets g >>= f).Runs s t b s' := Runs.seq (runs_gets.mpr ⟨rfl, rfl, rfl⟩) h

/-- A run of a sequence whose first part changes the state. -/
theorem Runs.modify_seq {g : σ → σ} {f : Unit → Traced σ ε β} (h : (f ()).Runs (g s) t b s') :
    (modify g >>= f).Runs s t b s' := Runs.seq (runs_modify.mpr ⟨rfl, rfl⟩) h

/-- A run of a sequence, taken apart. -/
theorem Runs.bind (h : (m >>= f).Runs s t b s') :
    ∃ a s₁ t₁ t₂, m.Runs s t₁ a s₁ ∧ (f a).Runs s₁ t₂ b s' ∧ t₁ ++ t₂ = t := runs_bind.mp h

/-- A run of a sequence whose first part returns what there is has something there. -/
theorem Runs.exists_of_option {o : Option α} (h : (ofOption o >>= f).Runs s t b s') :
    ∃ a, o = some a ∧ (f a).Runs s t b s' := by
  obtain ⟨a, s₁, t₁, t₂, ho, hf, rfl⟩ := h.bind
  cases o with
  | none => exact (not_runs_diverge ho).elim
  | some a' =>
    obtain ⟨rfl, rfl, rfl⟩ := runs_pure.mp ho
    exact ⟨a', rfl, hf⟩

/-- A program has one run from a state. -/
theorem Runs.unique {t' : List ε} {a' : α} {s'' : σ} (h : m.Runs s t a s')
    (h' : m.Runs s t' a' s'') : t = t' :=
  (Prod.mk.inj (Prod.mk.inj (Option.some.inj (h.symm.trans h'))).2).2

/-- And one result and one state after it. -/
theorem Runs.unique_result {t' : List ε} {a' : α} {s'' : σ} (h : m.Runs s t a s')
    (h' : m.Runs s t' a' s'') : a = a' ∧ s' = s'' := by
  have hrun := Prod.mk.inj (Option.some.inj (h.symm.trans h'))
  exact ⟨hrun.1, (Prod.mk.inj hrun.2).1⟩

/-- A sequence whose first part returns what there is runs as what follows does. -/
theorem runs_some_seq :
    ((ofOption (some a) : Traced σ ε α) >>= f).Runs s t b s' ↔ (f a).Runs s t b s' := by
  constructor
  · intro h
    obtain ⟨_, ⟨⟩, h⟩ := h.exists_of_option
    exact h
  · exact Runs.some_seq

/-- A run of a conditional program is one of the program or an empty one. -/
theorem Runs.when {c : Prop} [Decidable c] {m : Traced σ ε Unit} {u : Unit}
    (h : (when c m).Runs s t u s') : c ∧ m.Runs s t u s' ∨ ¬ c ∧ s = s' ∧ [] = t := by
  unfold Traced.when at h
  split at h
  · next hc => exact .inl ⟨hc, h⟩
  · next hc => exact .inr ⟨hc, (runs_pure.mp h).2⟩

/-! ## Results -/

/-- **A result** of a program, whatever it emits on the way. -/
def Returns (m : Traced σ ε α) (s : σ) (a : α) (s' : σ) : Prop := ∃ t, m.Runs s t a s'

theorem returns_pure {a' : α} : (pure a : Traced σ ε α).Returns s a' s' ↔ a = a' ∧ s = s' := by
  simp [Returns, runs_pure]

theorem returns_modifyGet {g : σ → α × σ} :
    (modifyGet g : Traced σ ε α).Returns s a s' ↔ (g s).1 = a ∧ (g s).2 = s' := by
  simp [Returns, runs_modifyGet]

theorem returns_modify {g : σ → σ} {u : Unit} :
    (modify g : Traced σ ε Unit).Returns s u s' ↔ () = u ∧ g s = s' := by
  simp [Returns, runs_modify]

theorem returns_emit {e : ε} {u : Unit} :
    (emit e : Traced σ ε Unit).Returns s u s' ↔ () = u ∧ s = s' := by
  simp [Returns, runs_emit]

theorem not_returns_diverge : ¬ (diverge : Traced σ ε α).Returns s a s' := fun ⟨_, h⟩ =>
  not_runs_diverge h

/-- A sequence returns as its parts do. -/
theorem returns_bind :
    (m >>= f).Returns s b s' ↔ ∃ a s₁, m.Returns s a s₁ ∧ (f a).Returns s₁ b s' := by
  constructor
  · rintro ⟨t, h⟩
    obtain ⟨a, s₁, t₁, t₂, h₁, h₂, rfl⟩ := h.bind
    exact ⟨a, s₁, ⟨t₁, h₁⟩, t₂, h₂⟩
  · rintro ⟨a, s₁, ⟨t₁, h₁⟩, t₂, h₂⟩
    exact ⟨t₁ ++ t₂, h₁.seq h₂⟩

/-- A sequence whose first part returns one result goes on from there. -/
theorem returns_bind_of {c : α} (h : ∀ a s', m.Returns s a s' ↔ c = a ∧ s₁ = s') :
    (m >>= f).Returns s b s' ↔ (f c).Returns s₁ b s' := by
  rw [returns_bind]
  constructor
  · rintro ⟨a, s₂, hm, hf⟩
    obtain ⟨rfl, rfl⟩ := (h a s₂).mp hm
    exact hf
  · exact fun hf => ⟨c, s₁, (h c s₁).mpr ⟨rfl, rfl⟩, hf⟩

/-! ## Accesses -/

/-- **An access** to a cell of the state. -/
inductive Access (ι : Type) where
  /-- The cell is read. -/
  | read (i : ι)
  /-- The cell is written. -/
  | write (i : ι)
  deriving DecidableEq, Repr

/-- The cell accessed. -/
def Access.cell {ι : Type} : Access ι → ι
  | read i => i
  | write i => i

section Access

variable {ι : Type} {get : σ → ι → υ} {put : σ → ι → υ → σ} {i : ι} {v : υ}

/-- Reads a cell, and says so. -/
def load (get : σ → ι → υ) (i : ι) : Traced σ (Access ι) υ := do
  emit (.read i)
  gets fun s => get s i

/-- Writes a cell, and says so. -/
def store (put : σ → ι → υ → σ) (i : ι) (v : υ) : Traced σ (Access ι) Unit := do
  emit (.write i)
  modify fun s => put s i v

theorem runs_load : (load get i).Runs s [.read i] (get s i) s :=
  Runs.emit_seq (runs_gets.mpr ⟨rfl, rfl, rfl⟩)

theorem runs_store : (store put i v).Runs s [.write i] () (put s i v) :=
  Runs.emit_seq (runs_modify.mpr ⟨rfl, rfl⟩)

variable {f : υ → Traced σ (Access ι) β} {g : Unit → Traced σ (Access ι) β} {t : List (Access ι)}

/-- A run of a sequence that starts with reading a cell. -/
theorem Runs.load_seq (h : (f (get s i)).Runs s t b s') :
    (load get i >>= f).Runs s (.read i :: t) b s' := runs_load.seq h

/-- A run of a sequence that starts with writing a cell. -/
theorem Runs.store_seq (h : (g ()).Runs (put s i v) t b s') :
    (store put i v >>= g).Runs s (.write i :: t) b s' := runs_store.seq h

/-- Such a run, taken apart. -/
theorem Runs.load_bind (h : (load get i >>= f).Runs s t b s') :
    ∃ t', t = .read i :: t' ∧ (f (get s i)).Runs s t' b s' := by
  obtain ⟨a, s₁, t₁, t₂, hload, hf, rfl⟩ := h.bind
  obtain rfl := hload.unique runs_load
  obtain ⟨rfl, rfl⟩ := hload.unique_result runs_load
  exact ⟨t₂, rfl, hf⟩

theorem Runs.store_bind (h : (store put i v >>= g).Runs s t b s') :
    ∃ t', t = .write i :: t' ∧ (g ()).Runs (put s i v) t' b s' := by
  obtain ⟨a, s₁, t₁, t₂, hstore, hg, rfl⟩ := h.bind
  obtain rfl := hstore.unique runs_store
  obtain ⟨-, rfl⟩ := hstore.unique_result runs_store
  exact ⟨t₂, rfl, hg⟩

theorem returns_load {v' : υ} : (load get i).Returns s v' s' ↔ get s i = v' ∧ s = s' := by
  constructor
  · rintro ⟨t, h⟩
    exact runs_load.unique_result h
  · rintro ⟨rfl, rfl⟩
    exact ⟨_, runs_load⟩

theorem returns_store {u : Unit} :
    (store put i v).Returns s u s' ↔ () = u ∧ put s i v = s' := by
  constructor
  · rintro ⟨t, h⟩
    exact runs_store.unique_result h
  · rintro ⟨rfl, rfl⟩
    exact ⟨_, runs_store⟩

end Access

/-! ## Frames -/

/-- **A program confined** to the events of a kind, which leaves a view of the
state alone. -/
def Confined (view : σ → υ) (E : ε → Prop) (m : Traced σ ε α) : Prop :=
  ∀ ⦃s t a s'⦄, m.Runs s t a s' → view s' = view s ∧ ∀ e ∈ t, E e

variable {view : σ → υ} {E F : ε → Prop}

namespace Confined

theorem mono (h : m.Confined view E) (hEF : ∀ e, E e → F e) : m.Confined view F := by
  intro s t a s' hrun
  obtain ⟨hview, hE⟩ := h hrun
  exact ⟨hview, fun e he => hEF e (hE e he)⟩

theorem pure : (pure a : Traced σ ε α).Confined view E := by
  intro s t a' s' hrun
  obtain ⟨-, rfl, rfl⟩ := runs_pure.mp hrun
  exact ⟨rfl, List.forall_mem_nil _⟩

theorem gets {g : σ → α} : (gets g : Traced σ ε α).Confined view E := by
  intro s t a' s' hrun
  obtain ⟨-, rfl, rfl⟩ := runs_gets.mp hrun
  exact ⟨rfl, List.forall_mem_nil _⟩

theorem modifyGet {g : σ → α × σ} (h : ∀ s, view (g s).2 = view s) :
    (modifyGet g : Traced σ ε α).Confined view E := by
  intro s t a' s' hrun
  obtain ⟨-, rfl, rfl⟩ := runs_modifyGet.mp hrun
  exact ⟨h s, List.forall_mem_nil _⟩

theorem modify {g : σ → σ} (h : ∀ s, view (g s) = view s) :
    (modify g : Traced σ ε Unit).Confined view E := by
  intro s t a' s' hrun
  obtain ⟨rfl, rfl⟩ := runs_modify.mp hrun
  exact ⟨h s, List.forall_mem_nil _⟩

theorem emit {e : ε} (h : E e) : (emit e : Traced σ ε Unit).Confined view E := by
  intro s t a' s' hrun
  obtain ⟨rfl, rfl⟩ := runs_emit.mp hrun
  exact ⟨rfl, List.forall_mem_singleton.mpr h⟩

theorem diverge : (diverge : Traced σ ε α).Confined view E := fun _ _ _ _ hrun =>
  (not_runs_diverge hrun).elim

theorem bind (hm : m.Confined view E) (hf : ∀ a, (f a).Confined view E) :
    (m >>= f).Confined view E := by
  intro s t b s' hrun
  obtain ⟨a, s₁, t₁, t₂, h₁, h₂, rfl⟩ := hrun.bind
  obtain ⟨hview₁, hE₁⟩ := hm h₁
  obtain ⟨hview₂, hE₂⟩ := hf a h₂
  refine ⟨hview₂.trans hview₁, fun e he => ?_⟩
  rcases List.mem_append.mp he with he | he
  · exact hE₁ e he
  · exact hE₂ e he

theorem ite {c : Prop} [Decidable c] (hm : m.Confined view E) (hn : n.Confined view E) :
    (if c then m else n).Confined view E := by
  split
  · exact hm
  · exact hn

theorem when {c : Prop} [Decidable c] {m : Traced σ ε Unit} (hm : m.Confined view E) :
    (when c m).Confined view E := hm.ite .pure

end Confined

/-- A coarser view. -/
theorem Confined.comp {υ' : Type} (h : m.Confined view E) (g : υ → υ') :
    m.Confined (fun s => g (view s)) E := by
  intro s t a s' hrun
  obtain ⟨hview, hE⟩ := h hrun
  exact ⟨congrArg g hview, hE⟩

/-- **A program that leads to another one**: it is confined until it ends, or until
it goes on with a run of the kind `N`. -/
def LeadsTo (view : σ → υ) (E : ε → Prop) (N : σ → List ε → α → σ → Prop)
    (m : Traced σ ε α) : Prop :=
  ∀ ⦃s t a s'⦄, m.Runs s t a s' →
    (view s' = view s ∧ ∀ e ∈ t, E e) ∨
      ∃ s₁ t₁ t₂, view s₁ = view s ∧ (∀ e ∈ t₁, E e) ∧ N s₁ t₂ a s' ∧ t₁ ++ t₂ = t

namespace LeadsTo

variable {N : σ → List ε → α → σ → Prop}

theorem of_confined (h : m.Confined view E) : m.LeadsTo view E N := fun _ _ _ _ hrun =>
  .inl (h hrun)

theorem of_runs (h : ∀ s t a s', m.Runs s t a s' → N s t a s') : m.LeadsTo view E N :=
  fun s t _ _ hrun => .inr ⟨s, [], t, rfl, List.forall_mem_nil _, h _ _ _ _ hrun, rfl⟩

theorem bind {g : β → Traced σ ε α} {k : Traced σ ε β} (hk : k.Confined view E)
    (hg : ∀ b, (g b).LeadsTo view E N) : (k >>= g).LeadsTo view E N := by
  intro s t a s' hrun
  obtain ⟨b, s₁, t₁, t₂, h₁, h₂, rfl⟩ := hrun.bind
  obtain ⟨hview₁, hE₁⟩ := hk h₁
  rcases hg b h₂ with ⟨hview, hE⟩ | ⟨s₂, t₃, t₄, hview, hE, hN, rfl⟩
  · exact .inl ⟨hview.trans hview₁, List.forall_mem_append.mpr ⟨hE₁, hE⟩⟩
  · exact .inr ⟨s₂, t₁ ++ t₃, t₄, hview.trans hview₁, List.forall_mem_append.mpr ⟨hE₁, hE⟩, hN,
      List.append_assoc _ _ _⟩

theorem ite {c : Prop} [Decidable c] (hm : m.LeadsTo view E N) (hn : n.LeadsTo view E N) :
    (if c then m else n).LeadsTo view E N := by
  split
  · exact hm
  · exact hn

end LeadsTo

/-- A program that emits nothing has an empty trace. -/
theorem Runs.of_silent (hrun : m.Runs s t a s') (h : m.Confined view fun _ => False) :
    t = [] ∧ view s' = view s := by
  obtain ⟨hview, hE⟩ := h hrun
  exact ⟨List.eq_nil_iff_forall_not_mem.mpr hE, hview⟩

/-! ## Termination -/

/-- **A program that always returns.** -/
def Total (m : Traced σ ε α) : Prop := ∀ s, ∃ t a s', m.Runs s t a s'

namespace Total

theorem pure : (pure a : Traced σ ε α).Total := fun s => ⟨[], a, s, runs_pure.mpr ⟨rfl, rfl, rfl⟩⟩

theorem modifyGet {g : σ → α × σ} : (modifyGet g : Traced σ ε α).Total := fun s =>
  ⟨[], (g s).1, (g s).2, runs_modifyGet.mpr ⟨rfl, rfl, rfl⟩⟩

theorem gets {g : σ → α} : (gets g : Traced σ ε α).Total := fun s =>
  ⟨[], g s, s, runs_gets.mpr ⟨rfl, rfl, rfl⟩⟩

theorem modify {g : σ → σ} : (modify g : Traced σ ε Unit).Total := fun s =>
  ⟨[], (), g s, runs_modify.mpr ⟨rfl, rfl⟩⟩

theorem emit {e : ε} : (emit e : Traced σ ε Unit).Total := fun s =>
  ⟨[e], (), s, runs_emit.mpr ⟨rfl, rfl⟩⟩

theorem bind (hm : m.Total) (hf : ∀ a, (f a).Total) : (m >>= f).Total := by
  intro s
  obtain ⟨t₁, a, s₁, h₁⟩ := hm s
  obtain ⟨t₂, b, s₂, h₂⟩ := hf a s₁
  exact ⟨t₁ ++ t₂, b, s₂, runs_bind.mpr ⟨a, s₁, t₁, t₂, h₁, h₂, rfl⟩⟩

theorem ite {c : Prop} [Decidable c] (hm : m.Total) (hn : n.Total) :
    (if c then m else n).Total := by
  split
  · exact hm
  · exact hn

end Total

/-! ## Programs with more fuel -/

/-- **A program extended** by one that has all its runs, as it has with more fuel. -/
def Extends (m n : Traced σ ε α) : Prop := ∀ ⦃s t a s'⦄, m.Runs s t a s' → n.Runs s t a s'

namespace Extends

theorem refl (m : Traced σ ε α) : m.Extends m := fun _ _ _ _ h => h

theorem of_diverge (n : Traced σ ε α) : (diverge : Traced σ ε α).Extends n := fun _ _ _ _ h =>
  (not_runs_diverge h).elim

theorem bind {g : α → Traced σ ε β} (hm : m.Extends n) (hf : ∀ a, (f a).Extends (g a)) :
    (m >>= f).Extends (n >>= g) := by
  intro s t b s' hrun
  obtain ⟨a, s₁, t₁, t₂, h₁, h₂, rfl⟩ := hrun.bind
  exact (hm h₁).seq (hf a h₂)

theorem ite {c : Prop} [Decidable c] {m' n' : Traced σ ε α} (hm : m.Extends m')
    (hn : n.Extends n') : (if c then m else n).Extends (if c then m' else n') := by
  split
  · exact hm
  · exact hn

end Extends

/-- A program that is extended step by step is extended by all that follow. -/
theorem extends_of_le {m : ℕ → Traced σ ε α} (h : ∀ n, (m n).Extends (m (n + 1))) {n n' : ℕ}
    (hle : n ≤ n') : (m n).Extends (m n') := by
  induction hle with
  | refl => exact .refl _
  | step _ ih => exact fun _ _ _ _ hrun => h _ (ih hrun)

/-! ## Programs on a part of the state -/

section Zoom

variable {τ ζ : Type} {get : τ → σ} {set : σ → τ → τ} {inj : ε → ζ} {x x' : τ} {z : List ζ}

/-- **A program on a part of the state**, as one on the whole, with its events
among those of the whole. -/
def zoom (get : τ → σ) (set : σ → τ → τ) (inj : ε → ζ) (m : Traced σ ε α) : Traced τ ζ α :=
  fun x => (m (get x)).map fun r => (r.1, set r.2.1 x, r.2.2.map inj)

theorem runs_zoom :
    (zoom get set inj m).Runs x z a x' ↔
      ∃ t s', m.Runs (get x) t a s' ∧ set s' x = x' ∧ t.map inj = z := by
  show (m (get x)).map _ = some (a, x', z) ↔ _
  rw [Option.map_eq_some_iff]
  constructor
  · rintro ⟨⟨a', s', t⟩, hrun, heq⟩
    obtain ⟨rfl, hrest⟩ := Prod.mk.inj heq
    obtain ⟨hstate, htrace⟩ := Prod.mk.inj hrest
    exact ⟨t, s', hrun, hstate, htrace⟩
  · rintro ⟨t, s', hrun, rfl, rfl⟩
    exact ⟨(a, s', t), hrun, rfl⟩

end Zoom

/-! ## Programs whose events are handled -/

section Handle

variable {τ ζ : Type} {y y' : τ} {z : List ζ}

/-- A program for each event of a list, one after the other. -/
def each (write : ε → Traced τ ζ Unit) : List ε → Traced τ ζ Unit
  | [] => pure ()
  | e :: t => do
    write e
    each write t

/-- **A program whose events are handled** by another one, in a state of its own. -/
def handle (write : ε → Traced τ ζ Unit) (m : Traced σ ε α) : Traced (σ × τ) ζ α := fun x =>
  match m x.1 with
  | none => none
  | some (a, s, t) =>
    match each write t x.2 with
    | none => none
    | some ((), y, z) => some (a, (s, y), z)

variable {write : ε → Traced τ ζ Unit}

/-- A handled run is one of the program, and one of the handler on its events. -/
theorem Runs.handle (h : m.Runs s t a s') (hwrite : (each write t).Runs y z () y') :
    (m.handle write).Runs (s, y) z a (s', y') := by
  show (match m s with
    | none => none
    | some (a, s, t) =>
      match each write t y with
      | none => none
      | some ((), y, z) => some (a, (s, y), z)) = _
  rw [show m s = _ from h]
  dsimp only
  rw [show each write t y = _ from hwrite]

end Handle

end Traced

/-! ## Traces -/

section Trace

variable {ε : Type} {a : ε} {p t t₁ t₂ : List ε}

/-- Where a pattern starts with an event a trace does not have, it is not there. -/
theorem not_infix_of_not_mem (h : a ∉ t) : ¬ a :: p <:+: t := fun hp =>
  h (hp.subset List.mem_cons_self)

/-- A pattern starts no earlier than its first event. -/
theorem infix_append_of_not_mem (h : a ∉ t₁) : a :: p <:+: t₁ ++ t₂ ↔ a :: p <:+: t₂ := by
  induction t₁ with
  | nil => rfl
  | cons e t₁ ih =>
    obtain ⟨hne, h⟩ := not_or.mp (mt List.mem_cons.mpr h)
    rw [List.cons_append, List.infix_cons_iff, List.cons_prefix_cons, ih h]
    exact or_iff_right fun hp => hne hp.1

variable [DecidableEq ε]

/-- **The events that follow** each occurrence of an event. -/
def following (a : ε) : List ε → List ε
  | e :: e' :: t => if e = a then e' :: following a (e' :: t) else following a (e' :: t)
  | _ => []

theorem following_cons_self (e : ε) (t : List ε) :
    following a (a :: e :: t) = e :: following a (e :: t) := by
  rw [following, if_pos rfl]

theorem following_cons_of_ne {e : ε} (h : e ≠ a) (t : List ε) :
    following a (e :: t) = following a t := by
  cases t with
  | nil => rfl
  | cons e' t => rw [following, if_neg h]

theorem following_append_of_not_mem (h : a ∉ t₁) : following a (t₁ ++ t₂) = following a t₂ := by
  induction t₁ with
  | nil => rfl
  | cons e t₁ ih =>
    obtain ⟨hne, h⟩ := not_or.mp (mt List.mem_cons.mpr h)
    rw [List.cons_append, following_cons_of_ne (Ne.symm hne), ih h]

theorem following_of_not_mem (h : a ∉ t) : following a t = [] := by
  have happend : following a (t ++ []) = following a [] := following_append_of_not_mem h
  rwa [List.append_nil] at happend

/-- **What follows an event**, and what follows it later on. -/
theorem following_append_cons {e : ε} (h : a ∉ t₁) (he : e ≠ a) :
    following a (t₁ ++ a :: e :: t₂) = e :: following a t₂ := by
  rw [following_append_of_not_mem h, following_cons_self, following_cons_of_ne he]

end Trace
