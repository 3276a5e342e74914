import Joes.TracedProgram

/-!
# Transducers

A transducer reads a symbol at a time and writes a text for it: a relation between a state, a
symbol, what is written and the next state. It says what a program is to do that goes over a
list of symbols. It is a relation and not a function, since for some symbols there may be
nothing to do right, and then there is no step.

Such a program is here a program for one symbol, which may stop the whole, and `foldSymbols`
runs it over the list. It implements a transducer if for a symbol it does what a step of the
transducer does, and has no run where there is no step (`Implements`). Its runs over a list are
then those of the transducer.

There are two directions to this, by induction on the steps and on the list. What the
transducer does the program does, since the variables of the program after a symbol are related
to the state of the transducer after it (`foldSymbols_runs`). The other way round a run of the
program for one symbol must be the one that the first direction gives, because a program has
one run at most, and so it is a step (`step_of_runs`). This needs that the symbol is one the
program was written for, which depends on what was read before it: `Accepts` follows the
transducer over the list and asks it of each symbol. Two programs that implement one
transducer therefore write the same text, without a word about how one of them does what the
other one does.
-/

/-- **A transducer**, by its steps: the state, the symbol, what is written and the
next state. -/
abbrev Transducer (ρ γ ε : Type) := ρ → γ → List ε → ρ → Prop

namespace Transducer

variable {ρ γ ε : Type} {T : Transducer ρ γ ε} {Ok : ρ → γ → Prop} {r r₁ r₂ : ρ}
  {cs ds : List γ} {t t₁ t₂ : List ε}

/-- **The steps over a list** of symbols. -/
inductive Steps (T : Transducer ρ γ ε) : ρ → List γ → List ε → ρ → Prop
  | nil (r : ρ) : Steps T r [] [] r
  | cons {r r₁ r₂ : ρ} {c : γ} {cs : List γ} {t₁ t₂ : List ε} (h : T r c t₁ r₁)
      (hs : Steps T r₁ cs t₂ r₂) : Steps T r (c :: cs) (t₁ ++ t₂) r₂

namespace Steps

theorem append (h : T.Steps r cs t₁ r₁) (h' : T.Steps r₁ ds t₂ r₂) :
    T.Steps r (cs ++ ds) (t₁ ++ t₂) r₂ := by
  induction h with
  | nil r => exact h'
  | cons hstep _ ih =>
    rw [List.cons_append, List.append_assoc]
    exact .cons hstep (ih h')

/-- The steps over a list, by a map of the states and of what is written. -/
theorem map {ρ' ε' : Type} {T' : Transducer ρ' γ ε'} {f : ε → ε'} (Rel : ρ → ρ' → Prop)
    (hmap : ∀ {r c t r₁ r'}, T r c t r₁ → Rel r r' → ∃ r₁', T' r' c (t.map f) r₁' ∧ Rel r₁ r₁')
    (h : T.Steps r cs t r₁) {r' : ρ'} (hrel : Rel r r') :
    ∃ r₁', T'.Steps r' cs (t.map f) r₁' ∧ Rel r₁ r₁' := by
  induction h generalizing r' with
  | nil r => exact ⟨r', .nil r', hrel⟩
  | cons hstep _ ih =>
    obtain ⟨r₁', hstep', hrel₁⟩ := hmap hstep hrel
    obtain ⟨r₂', hsteps', hrel₂⟩ := ih hrel₁
    rw [List.map_append]
    exact ⟨r₂', .cons hstep' hsteps', hrel₂⟩

end Steps

/-- **The lists that a transducer accepts**: it meets no symbol on its way that is
not allowed. -/
def Accepts (T : Transducer ρ γ ε) (Ok : ρ → γ → Prop) : ρ → List γ → Prop
  | _, [] => True
  | r, c :: cs => Ok r c ∧ ∀ t r₁, T r c t r₁ → Accepts T Ok r₁ cs

end Transducer

namespace Traced

variable {σ ε κ ρ γ : Type} {T : Transducer ρ γ ε} {Ok : ρ → γ → Prop}
  {m : κ → γ → Traced σ ε (Option κ)} {Rel : κ → ρ → Prop} {k : κ} {r r' : ρ} {s s' : σ}
  {t : List ε} {o : Option κ} {c : γ} {cs ds : List γ}

/-- **A program for each symbol** of a list, with the variables it keeps, until one
of them stops. -/
def foldSymbols (m : κ → γ → Traced σ ε (Option κ)) : List γ → κ → Traced σ ε (Option κ)
  | [], k => pure (some k)
  | c :: cs, k => do
    match ← m k c with
    | some k => foldSymbols m cs k
    | none => pure none

/-- The loop over the symbols, with the result it returns in the end or where it is
stopped. -/
def foldResult {α : Type} (m : κ → γ → Traced σ ε (Option κ)) (result : Option κ → α) :
    List γ → κ → Traced σ ε α
  | [], k => pure (result (some k))
  | c :: cs, k => do
    match ← m k c with
    | some k => foldResult m result cs k
    | none => pure (result none)

/-- The loop with a result runs as the one without does. -/
theorem runs_foldResult {α : Type} {result : Option κ → α} {a : α} :
    (foldResult m result cs k).Runs s t a s' ↔
      ∃ o, (foldSymbols m cs k).Runs s t o s' ∧ result o = a := by
  induction cs generalizing k s t with
  | nil =>
    constructor
    · intro h
      obtain ⟨rfl, rfl, rfl⟩ := runs_pure.mp h
      exact ⟨some k, runs_pure.mpr ⟨rfl, rfl, rfl⟩, rfl⟩
    · rintro ⟨o, h, rfl⟩
      obtain ⟨rfl, rfl, rfl⟩ := runs_pure.mp h
      exact runs_pure.mpr ⟨rfl, rfl, rfl⟩
  | cons c cs ih =>
    constructor
    · intro h
      obtain ⟨o₁, s₁, t₁, t₂, h₁, h₂, rfl⟩ := Runs.bind h
      cases o₁ with
      | none =>
        obtain ⟨rfl, rfl, rfl⟩ := runs_pure.mp h₂
        exact ⟨none, h₁.seq (runs_pure.mpr ⟨rfl, rfl, rfl⟩), rfl⟩
      | some k₁ =>
        obtain ⟨o, h₂, hresult⟩ := ih.mp h₂
        exact ⟨o, h₁.seq h₂, hresult⟩
    · rintro ⟨o, h, hresult⟩
      obtain ⟨o₁, s₁, t₁, t₂, h₁, h₂, rfl⟩ := Runs.bind h
      cases o₁ with
      | none =>
        obtain ⟨rfl, rfl, rfl⟩ := runs_pure.mp h₂
        exact h₁.seq (runs_pure.mpr ⟨hresult, rfl, rfl⟩)
      | some k₁ => exact h₁.seq (ih.mpr ⟨o, h₂, hresult⟩)

/-- **A program implements a transducer** on the symbols that are allowed. -/
structure Implements (m : κ → γ → Traced σ ε (Option κ)) (T : Transducer ρ γ ε)
    (Ok : ρ → γ → Prop) (Rel : κ → ρ → Prop) : Prop where
  /-- What the transducer does the program does. -/
  runs : ∀ {k r c t r'} (s : σ), Rel k r → T r c t r' →
    ∃ k', (m k c).Runs s t (some k') s ∧ Rel k' r'
  /-- Where the program returns the transducer has a step. -/
  step : ∀ {k r c s t o s'}, Rel k r → Ok r c → (m k c).Runs s t o s' → ∃ u r', T r c u r'

namespace Implements

/-- A run of the program is a step of the transducer. -/
theorem step_of_runs (h : Implements m T Ok Rel) (hrel : Rel k r) (hok : Ok r c)
    (hrun : (m k c).Runs s t o s') :
    s' = s ∧ ∃ k' r', o = some k' ∧ Rel k' r' ∧ T r c t r' := by
  obtain ⟨u, r', hstep⟩ := h.step hrel hok hrun
  obtain ⟨k', hrun', hrel'⟩ := h.runs s hrel hstep
  obtain rfl := hrun.unique hrun'
  obtain ⟨ho, hs⟩ := hrun.unique_result hrun'
  exact ⟨hs, k', r', ho, hrel', hstep⟩

/-- **What the transducer does over a list** the program does. -/
theorem foldSymbols_runs (h : Implements m T Ok Rel) (hsteps : T.Steps r cs t r')
    (hrel : Rel k r) (s : σ) :
    ∃ k', (foldSymbols m cs k).Runs s t (some k') s ∧ Rel k' r' := by
  induction hsteps generalizing k with
  | nil r => exact ⟨k, runs_pure.mpr ⟨rfl, rfl, rfl⟩, hrel⟩
  | cons hstep _ ih =>
    obtain ⟨k₁, hrun₁, hrel₁⟩ := h.runs s hrel hstep
    obtain ⟨k₂, hrun₂, hrel₂⟩ := ih hrel₁
    exact ⟨k₂, hrun₁.seq hrun₂, hrel₂⟩

/-- **What the program does over a list** that is accepted the transducer does. -/
theorem steps_of_foldSymbols (h : Implements m T Ok Rel) (hok : T.Accepts Ok r cs)
    (hrel : Rel k r) (hrun : (foldSymbols m cs k).Runs s t o s') :
    s' = s ∧ ∃ k' r', o = some k' ∧ Rel k' r' ∧ T.Steps r cs t r' := by
  induction cs generalizing k r t with
  | nil =>
    obtain ⟨rfl, rfl, rfl⟩ := runs_pure.mp hrun
    exact ⟨rfl, k, r, rfl, hrel, .nil r⟩
  | cons c cs ih =>
    obtain ⟨o₁, s₁, t₁, t₂, hrun₁, hrun₂, rfl⟩ := Runs.bind hrun
    obtain ⟨rfl, k₁, r₁, rfl, hrel₁, hstep⟩ := h.step_of_runs hrel hok.1 hrun₁
    obtain ⟨hs, k', r', ho, hrel', hsteps⟩ := ih (hok.2 t₁ r₁ hstep) hrel₁ hrun₂
    exact ⟨hs, k', r', ho, hrel', .cons hstep hsteps⟩

end Implements

end Traced
