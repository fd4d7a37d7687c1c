import Mathlib.Data.Set.Basic

/-!
# Versions that are raised by hand

A state has parts, each with a content and a version. Writers change contents first and
raise versions later; until then the parts they wrote are dirty. Once nothing is dirty any
more, every part that differs has a larger version.
-/

set_option autoImplicit false

namespace Cidrella

namespace Versioned

variable {σ ι γ : Type}

/-- How the parts of a state are read. -/
structure View (σ ι γ : Type) where
  content : σ → ι → γ
  version : σ → ι → Nat

/-- No version falls, and outside of the dirty parts one that differs has a larger version. -/
structure Tracks (v : View σ ι γ) (dirty : Set ι) (before after : σ) : Prop where
  le : ∀ i, v.version before i ≤ v.version after i
  lt : ∀ i ∉ dirty, v.content before i ≠ v.content after i → v.version before i < v.version after i

namespace Tracks

variable {v : View σ ι γ} {dirty other : Set ι} {before middle after : σ}

theorem refl (v : View σ ι γ) (dirty : Set ι) (s : σ) : Tracks v dirty s s :=
  ⟨fun _ => le_refl _, fun _ _ differs => absurd rfl differs⟩

theorem mono (tracks : Tracks v dirty before after) (sub : dirty ⊆ other) :
    Tracks v other before after :=
  ⟨tracks.le, fun i clean => tracks.lt i fun member => clean (sub member)⟩

theorem trans (first : Tracks v dirty before middle) (second : Tracks v other middle after) :
    Tracks v (dirty ∪ other) before after := by
  refine ⟨fun i => (first.le i).trans (second.le i), fun i clean differs => ?_⟩
  have cleanFirst : i ∉ dirty := fun member => clean (.inl member)
  have cleanSecond : i ∉ other := fun member => clean (.inr member)
  by_cases same : v.content before i = v.content middle i
  · exact (first.le i).trans_lt (second.lt i cleanSecond (same ▸ differs))
  · exact (first.lt i cleanFirst same).trans_le (second.le i)

theorem of_write (versions : ∀ i, v.version before i ≤ v.version after i)
    (contents : ∀ i ∉ dirty, v.content before i = v.content after i) :
    Tracks v dirty before after :=
  ⟨versions, fun i clean differs => absurd (contents i clean) differs⟩

theorem raise {raised : Set ι} (tracks : Tracks v dirty before middle)
    (contents : v.content after = v.content middle)
    (versions : ∀ i, v.version middle i ≤ v.version after i) (up : ∀ i ∈ raised,
    v.version middle i < v.version after i) : Tracks v (dirty \ raised) before after := by
  refine ⟨fun i => (tracks.le i).trans (versions i), fun i clean differs => ?_⟩
  by_cases isRaised : i ∈ raised
  · exact (tracks.le i).trans_lt (up i isRaised)
  · rw [contents] at differs
    exact (tracks.lt i (fun member => clean ⟨member, isRaised⟩) differs).trans_le (versions i)

end Tracks

end Versioned

end Cidrella
