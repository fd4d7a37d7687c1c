import Mathlib.Tactic

/-!
# Computations that may fail

How a computation is taken apart: a sequence into its two parts (`bind_eq_ok`,
`bind_eq_error`), a loop by an invariant of its body (`foldlM_invariant`), a map item by
item (`forall₂_of_mapM`).
-/

set_option autoImplicit false

namespace Cidrella

variable {ε α β σ : Type}

theorem bind_eq_ok {x : Except ε α} {f : α → Except ε β} {result : β} :
    (x >>= f) = .ok result ↔ ∃ value, x = .ok value ∧ f value = .ok result := by
  constructor
  · intro done
    cases x with
    | error failure => exact absurd done (by simp [bind, Except.bind])
    | ok value => exact ⟨value, rfl, done⟩
  · rintro ⟨value, rfl, done⟩
    exact done

theorem bind_eq_error {x : Except ε α} {f : α → Except ε β} {failure : ε} :
    (x >>= f) = .error failure ↔ x = .error failure ∨ ∃ value, x = .ok value ∧
    f value = .error failure := by
  constructor
  · intro failed
    cases x with
    | error other => exact .inl (congrArg _ (Except.error.inj failed))
    | ok value => exact .inr ⟨value, rfl, failed⟩
  · rintro (rfl | ⟨value, rfl, failed⟩)
    · rfl
    · exact failed

theorem eq_ok_of_isOk {x : Except ε α} (default : α) (done : x.isOk = true) :
    x = .ok (x.toOption.getD default) := by
  cases x with
  | error failure => exact absurd done Bool.false_ne_true
  | ok value => rfl

theorem foldlM_invariant {P : σ → Prop} {body : σ → α → Except ε σ} {items : List α}
    {start stop : σ} (each : ∀ item ∈ items, ∀ before after, P before →
      body before item = .ok after → P after)
    (done : items.foldlM body start = .ok stop) (initial : P start) : P stop := by
  induction items generalizing start with
  | nil =>
    obtain rfl := Except.ok.inj done
    exact initial
  | cons item items ih =>
    rw [List.foldlM_cons] at done
    obtain ⟨middle, first, rest⟩ := bind_eq_ok.mp done
    refine ih (fun other member => each other (List.mem_cons_of_mem _ member)) rest ?_
    exact each item List.mem_cons_self start middle initial first

theorem forall₂_of_mapM {f : α → Except ε β} {items : List α} {results : List β}
    (done : items.mapM f = .ok results) :
    List.Forall₂ (fun item result => f item = .ok result) items results := by
  induction items generalizing results with
  | nil =>
    obtain rfl := Except.ok.inj done
    exact .nil
  | cons item items ih =>
    rw [List.mapM_cons] at done
    obtain ⟨first, head, done⟩ := bind_eq_ok.mp done
    obtain ⟨rest, tail, same⟩ := bind_eq_ok.mp done
    obtain rfl := Except.ok.inj same
    exact .cons head (ih tail)

theorem map_of_mapM {f : α → Except ε β} {g : β → α}
    (back : ∀ item result, f item = .ok result → g result = item) {items : List α}
    {results : List β} (done : items.mapM f = .ok results) : results.map g = items := by
  have all := forall₂_of_mapM done
  clear done
  induction all with
  | nil => rfl
  | cons built _ ih => rw [List.map_cons, ih, back _ _ built]

theorem exists_of_mem_mapM {f : α → Option β} {items : List α} {results : List β} {result : β}
    (done : items.mapM f = some results) (member : result ∈ results) : ∃ item ∈ items,
    f item = some result := by
  induction items generalizing results with
  | nil =>
    obtain rfl := Option.some.inj done
    exact absurd member (by simp)
  | cons item items ih =>
    rw [List.mapM_cons] at done
    obtain ⟨first, head, done⟩ := Option.bind_eq_some_iff.mp done
    obtain ⟨rest, tail, same⟩ := Option.bind_eq_some_iff.mp done
    obtain rfl := Option.some.inj same
    rcases List.mem_cons.mp member with rfl | later
    · exact ⟨item, List.mem_cons_self, head⟩
    · obtain ⟨other, isOther, found⟩ := ih tail later
      exact ⟨other, List.mem_cons_of_mem _ isOther, found⟩

end Cidrella
