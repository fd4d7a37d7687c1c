import Cidrella.Lib.Fallible

/-!
# Loops whose turns write one key each

A state is viewed as a partial map from keys to rows. Every turn of a loop reads and
writes only the key of its own item (`TurnsAt`), and no two items have one key. The turns
then do not see each other: the loop succeeds exactly when every item is ready in the
state before it (`succeeds_iff`), and each item's row is what its turn makes of the row it
had before the loop (`spec`).
-/

set_option autoImplicit false

namespace Cidrella

variable {σ κ ρ ι ε : Type}

/-- What a turn of such a loop asks for and does. `Ready` and `Effect` speak of the row
the item's key had before the turn. -/
structure TurnsAt (view : σ → κ → Option ρ) (Inv : σ → Prop) (turn : σ → ι → Except ε σ)
    (key : ι → κ) (Ready : ι → Option ρ → Prop) (Effect : ι → Option ρ → ρ → Prop) : Prop where
  succeeds : ∀ state item, Inv state → Ready item (view state (key item)) →
    ∃ after, turn state item = .ok after
  ready : ∀ state item after, Inv state → turn state item = .ok after →
    Ready item (view state (key item))
  kept : ∀ state item after, Inv state → turn state item = .ok after → Inv after
  frame : ∀ state item after other, Inv state → turn state item = .ok after → other ≠ key item →
    view after other = view state other
  effect : ∀ state item after, Inv state → turn state item = .ok after →
    ∃ row, view after (key item) = some row ∧ Effect item (view state (key item)) row

namespace TurnsAt

variable {view : σ → κ → Option ρ} {Inv : σ → Prop} {turn : σ → ι → Except ε σ} {key : ι → κ}
  {Ready : ι → Option ρ → Prop} {Effect : ι → Option ρ → ρ → Prop} {items : List ι} {state : σ}

theorem succeeds_iff (turns : TurnsAt view Inv turn key Ready Effect)
    (distinct : (items.map key).Nodup) (start : Inv state) :
    (∃ after, items.foldlM turn state = .ok after) ↔
      ∀ item ∈ items, Ready item (view state (key item)) := by
  induction items generalizing state with
  | nil => exact iff_of_true ⟨state, rfl⟩ (List.forall_mem_nil _)
  | cons first rest ih =>
    obtain ⟨new, distinctRest⟩ := List.nodup_cons.mp distinct
    -- the first turn leaves what the others read
    have unseen : ∀ middle, turn state first = .ok middle → ∀ item ∈ rest,
        view middle (key item) = view state (key item) := by
      intro middle done item member
      exact turns.frame state first middle _ start done fun same =>
        new (same ▸ List.mem_map_of_mem member)
    rw [List.foldlM_cons, List.forall_mem_cons]
    constructor
    · rintro ⟨after, done⟩
      obtain ⟨middle, head, tail⟩ := bind_eq_ok.mp done
      have restReady := (ih distinctRest (turns.kept _ _ _ start head)).mp ⟨after, tail⟩
      refine ⟨turns.ready _ _ _ start head, fun item member => ?_⟩
      rw [← unseen middle head item member]
      exact restReady item member
    · rintro ⟨headReady, restReady⟩
      obtain ⟨middle, head⟩ := turns.succeeds state first start headReady
      obtain ⟨after, tail⟩ := (ih distinctRest (turns.kept _ _ _ start head)).mpr
        fun item member => by
          rw [unseen middle head item member]
          exact restReady item member
      exact ⟨after, bind_eq_ok.mpr ⟨middle, head, tail⟩⟩

theorem ready_of_done (turns : TurnsAt view Inv turn key Ready Effect) (start : Inv state)
    {after : σ} (done : items.foldlM turn state = .ok after) :
    ∀ item ∈ items, ∃ middle, Inv middle ∧ Ready item (view middle (key item)) := by
  induction items generalizing state with
  | nil => exact List.forall_mem_nil _
  | cons first rest ih =>
    rw [List.foldlM_cons] at done
    obtain ⟨middle, head, tail⟩ := bind_eq_ok.mp done
    exact List.forall_mem_cons.mpr ⟨⟨state, start, turns.ready _ _ _ start head⟩,
      ih (turns.kept _ _ _ start head) tail⟩

/-- What a loop that succeeded has done: its items' rows are what their turns made of the
rows before the loop, and every other row is as it was. -/
theorem spec (turns : TurnsAt view Inv turn key Ready Effect) (distinct : (items.map key).Nodup)
    (start : Inv state) {after : σ} (done : items.foldlM turn state = .ok after) :
    Inv after ∧ (∀ other ∉ items.map key, view after other = view state other) ∧
      ∀ item ∈ items,
        ∃ row, view after (key item) = some row ∧ Effect item (view state (key item)) row := by
  induction items generalizing state with
  | nil =>
    obtain rfl := Except.ok.inj done
    exact ⟨start, fun _ _ => rfl, List.forall_mem_nil _⟩
  | cons first rest ih =>
    obtain ⟨new, distinctRest⟩ := List.nodup_cons.mp distinct
    rw [List.foldlM_cons] at done
    obtain ⟨middle, head, tail⟩ := bind_eq_ok.mp done
    obtain ⟨kept, frame, effects⟩ := ih distinctRest (turns.kept _ _ _ start head) tail
    refine ⟨kept, fun other outside => ?_, List.forall_mem_cons.mpr ⟨?_, fun item member => ?_⟩⟩
    · rw [List.map_cons, List.mem_cons, not_or] at outside
      exact (frame other outside.2).trans (turns.frame _ _ _ _ start head outside.1)
    · obtain ⟨row, written, effect⟩ := turns.effect _ _ _ start head
      exact ⟨row, (frame _ new).trans written, effect⟩
    · obtain ⟨row, written, effect⟩ := effects item member
      have unseen : view middle (key item) = view state (key item) :=
        turns.frame _ _ _ _ start head fun same => new (same ▸ List.mem_map_of_mem member)
      exact ⟨row, written, unseen ▸ effect⟩

end TurnsAt

end Cidrella
