import Mathlib.Logic.Relation

/-!
# Runs of a component

A component is a partial function from a state and a call to the next state;
its callers keep to a discipline, which allows a call in a state or not. A run
is a sequence of allowed calls, none of which is undefined.

`Reaches.invariant` is the rule for properties of every run: what holds at the
start and is kept by each allowed call holds in every state reached.
`runCalls` makes a run with given calls, for the cases where one is at hand.

A component whose calls are always defined and have results is compared with
another one by what they return: `outputs` are the results of a list of calls,
and two components related by a simulation have the same (`outputs_eq`).
-/

section CallRun

variable {σ γ : Type*}

/-- **A run** of a component under a discipline of its callers. -/
def Reaches (call : σ → γ → Option σ) (allowed : σ → γ → Prop) : σ → σ → Prop :=
  Relation.ReflTransGen fun s t => ∃ c, allowed s c ∧ call s c = some t

variable {call : σ → γ → Option σ} {allowed : σ → γ → Prop}

/-- **The invariant rule.** -/
theorem Reaches.invariant {P : σ → Prop} {s t : σ} (h : Reaches call allowed s t) (hs : P s)
    (hstep : ∀ s c t, P s → allowed s c → call s c = some t → P t) : P t := by
  induction h with
  | refl => exact hs
  | tail _ hcall ih =>
    obtain ⟨c, hc, hcall⟩ := hcall
    exact hstep _ c _ ih hc hcall

/-- The run with the given calls, as far as they are allowed and defined. -/
def runCalls (call : σ → γ → Option σ) (allowed : σ → γ → Prop)
    [∀ s c, Decidable (allowed s c)] (s : σ) : List γ → Option σ
  | [] => some s
  | c :: cs => if allowed s c then (call s c).bind fun t => runCalls call allowed t cs else none

/-- Such a run is one. -/
theorem reaches_of_runCalls [∀ s c, Decidable (allowed s c)] {s t : σ} {cs : List γ}
    (h : runCalls call allowed s cs = some t) : Reaches call allowed s t := by
  induction cs generalizing s with
  | nil =>
    obtain rfl := Option.some.inj h
    exact Relation.ReflTransGen.refl
  | cons c cs ih =>
    unfold runCalls at h
    split at h
    · next hc =>
      obtain ⟨u, hu, hrun⟩ := Option.bind_eq_some_iff.mp h
      exact Relation.ReflTransGen.head ⟨c, hc, hu⟩ (ih hrun)
    · cases h

variable {τ ο : Type*}

/-- The results of a list of calls, and the state they end in. -/
def outputs (call : σ → γ → ο × σ) (s : σ) : List γ → List ο × σ
  | [] => ([], s)
  | c :: cs =>
    let r := call s c
    let rs := outputs call r.2 cs
    (r.1 :: rs.1, rs.2)

theorem outputs_append {call : σ → γ → ο × σ} {s : σ} (cs ds : List γ) :
    outputs call s (cs ++ ds) =
      ((outputs call s cs).1 ++ (outputs call (outputs call s cs).2 ds).1,
        (outputs call (outputs call s cs).2 ds).2) := by
  induction cs generalizing s with
  | nil => rfl
  | cons c cs ih => rw [List.cons_append, outputs, ih]; rfl

/-- **The simulation rule**: if related states give the same result on every
call and go to related states, related states give the same results on every
list of calls. -/
theorem outputs_eq {call₁ : σ → γ → ο × σ} {call₂ : τ → γ → ο × τ} {R : σ → τ → Prop}
    (hstep : ∀ s t c, R s t → (call₁ s c).1 = (call₂ t c).1 ∧ R (call₁ s c).2 (call₂ t c).2)
    {s : σ} {t : τ} (h : R s t) (cs : List γ) :
    (outputs call₁ s cs).1 = (outputs call₂ t cs).1
      ∧ R (outputs call₁ s cs).2 (outputs call₂ t cs).2 := by
  induction cs generalizing s t with
  | nil => exact ⟨rfl, h⟩
  | cons c cs ih =>
    obtain ⟨hout, hnext⟩ := hstep s t c h
    obtain ⟨houts, hend⟩ := ih hnext
    exact ⟨congrArg₂ List.cons hout houts, hend⟩

end CallRun
