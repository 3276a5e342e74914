import Mathlib.Data.List.Basic

/-!
# Calls made in a row

A procedure that makes calls, each in the state the one before it left and with nothing done in
between, is described by the list of its calls. A call `c` is made in the state `before c` and
leaves the state `after c`, so such a list is a *chain*: every call starts where the one in front
of it ended, the first one where the procedure started, and the last one ends where the procedure
does.

What can be said about a procedure from its calls alone is little, but it needs no knowledge of
the loops and branches that led to them. What each call keeps, the procedure keeps
(`CallChain.keeps`), also up to a call and from it on (`CallChain.keeps_of_mem`). And what holds
at the end and did not at the start, some call has brought about (`CallChain.exists_call`).
-/

variable {C S : Type} {before after : C → S}

/-- **A chain of calls** from one state to another. -/
inductive CallChain (before after : C → S) : S → List C → S → Prop
  /-- Without a call nothing happens. -/
  | nil (s : S) : CallChain before after s [] s
  /-- A call, and those that start where it ended. -/
  | cons (c : C) {calls : List C} {s' : S} (h : CallChain before after (after c) calls s') :
      CallChain before after (before c) (c :: calls) s'

namespace CallChain

variable {s s₁ s' : S} {calls calls' : List C} {c : C}

/-- One call. -/
theorem single (c : C) : CallChain before after (before c) [c] (after c) := .cons c (.nil _)

/-- Two chains, one behind the other. -/
theorem append (h : CallChain before after s calls s₁)
    (h' : CallChain before after s₁ calls' s') :
    CallChain before after s (calls ++ calls') s' := by
  induction h with
  | nil s => exact h'
  | cons c _ ih => exact .cons c (ih h')

/-- **What every call keeps**, the chain keeps. -/
theorem keeps {R : S → S → Prop} (hrefl : ∀ s, R s s) (htrans : ∀ {x y z}, R x y → R y z → R x z)
    (h : CallChain before after s calls s') (hcalls : ∀ c ∈ calls, R (before c) (after c)) :
    R s s' := by
  induction h with
  | nil s => exact hrefl s
  | cons c _ ih =>
    exact htrans (hcalls c List.mem_cons_self) (ih fun c hc => hcalls c (List.mem_cons_of_mem _ hc))

/-- It is kept up to each of the calls, and from it on. -/
theorem keeps_of_mem {R : S → S → Prop} (hrefl : ∀ s, R s s)
    (htrans : ∀ {x y z}, R x y → R y z → R x z) (h : CallChain before after s calls s')
    (hcalls : ∀ c ∈ calls, R (before c) (after c)) (hc : c ∈ calls) :
    R s (before c) ∧ R (after c) s' := by
  induction h with
  | nil s => cases hc
  | cons d h ih =>
    have hrest : ∀ c ∈ _, R (before c) (after c) := fun c hc =>
      hcalls c (List.mem_cons_of_mem _ hc)
    rcases List.mem_cons.mp hc with rfl | hc
    · exact ⟨hrefl _, h.keeps hrefl htrans hrest⟩
    · obtain ⟨hto, hfrom⟩ := ih hrest hc
      exact ⟨htrans (hcalls d List.mem_cons_self) hto, hfrom⟩

/-- **What holds at the start and after every call** holds at the end. -/
theorem final {P : S → Prop} (h : CallChain before after s calls s') (hs : P s)
    (hcalls : ∀ c ∈ calls, P (after c)) : P s' := by
  induction h with
  | nil s => exact hs
  | cons c _ ih =>
    exact ih (hcalls c List.mem_cons_self) fun c hc => hcalls c (List.mem_cons_of_mem _ hc)

/-- **What has come to hold** was brought about by a call. -/
theorem exists_call {P : S → Prop} (h : CallChain before after s calls s') (hs : ¬ P s)
    (hs' : P s') : ∃ c ∈ calls, ¬ P (before c) ∧ P (after c) := by
  induction h with
  | nil s => exact absurd hs' hs
  | cons c _ ih =>
    by_cases hc : P (after c)
    · exact ⟨c, List.mem_cons_self, hs, hc⟩
    · obtain ⟨d, hd, hcall⟩ := ih hc hs'
      exact ⟨d, List.mem_cons_of_mem _ hd, hcall⟩

end CallChain
