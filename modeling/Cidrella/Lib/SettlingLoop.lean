import Cidrella.Lib.Fallible

/-!
# Loops that settle what they find

Every item of a loop acts on the slot of one key, and may find nothing to do there
(`SettlesAt`). Several items may act on one slot. The slot of a key is then what its items
made of it, one after the other (`view_of_done`), and a second run of the loop has nothing
to do exactly when the slots that the first one leaves are fixed points of their items
(`rerun_still_iff`).
-/

set_option autoImplicit false

namespace Cidrella

variable {σ τ κ ρ ι ε : Type}

/-- What a turn of such a loop does: an item that has no key does nothing, one whose action
leaves the slot does nothing, and any other writes its slot alone and is counted. A turn is
only taken by items that are able, and an able item that has nothing to do succeeds. -/
structure SettlesAt (Listed Able : ι → Prop) (stored : σ → τ) (view : τ → κ → ρ) (count : σ → Nat)
    (turn : σ → ι → Except ε σ) (key : ι → Option κ) (act : κ → ι → ρ → ρ) : Prop where
  able : ∀ state item after, Listed item → turn state item = .ok after → Able item
  aside : ∀ state item, Listed item → key item = none →
    ∃ after, turn state item = .ok after ∧ stored after = stored state ∧ count after = count state
  still : ∀ state item own, Listed item → Able item → key item = some own →
    act own item (view (stored state) own) = view (stored state) own →
    ∃ after, turn state item = .ok after ∧ stored after = stored state ∧ count after = count state
  writes : ∀ state item own after, Listed item → key item = some own →
    act own item (view (stored state) own) ≠ view (stored state) own → turn state item = .ok after →
    view (stored after) own = act own item (view (stored state) own) ∧
      (∀ other, other ≠ own → view (stored after) other = view (stored state) other) ∧
      count after = count state + 1

namespace SettlesAt

variable {Listed Able : ι → Prop} {stored : σ → τ} {view : τ → κ → ρ} {count : σ → Nat}
  {turn again : σ → ι → Except ε σ} {key : ι → Option κ} {act : κ → ι → ρ → ρ} {items : List ι}
  {state after : σ}

/-- An item that has nothing to do in a state. -/
def Idle (view : τ → κ → ρ) (key : ι → Option κ) (act : κ → ι → ρ → ρ) (rows : τ) (item : ι) :
    Prop :=
  ∀ own, key item = some own → act own item (view rows own) = view rows own

theorem turn_cases (settles : SettlesAt Listed Able stored view count turn key act) {item : ι}
    (listed : Listed item) (done : turn state item = .ok after) :
    (Idle view key act (stored state) item ∧ stored after = stored state ∧
      count after = count state) ∨ ∃ own, key item = some own ∧
        act own item (view (stored state) own) ≠ view (stored state) own ∧
        view (stored after) own = act own item (view (stored state) own) ∧
        (∀ other, other ≠ own → view (stored after) other = view (stored state) other) ∧
        count after = count state + 1 := by
  cases keyed : key item with
  | none =>
    obtain ⟨same, first, kept⟩ := settles.aside state item listed keyed
    obtain rfl := Except.ok.inj (first.symm.trans done)
    exact .inl ⟨fun own found => absurd (keyed.symm.trans found) (by simp), kept⟩
  | some own =>
    by_cases idle : act own item (view (stored state) own) = view (stored state) own
    · obtain ⟨same, first, kept⟩ := settles.still state item own listed
        (settles.able _ _ _ listed done) keyed idle
      obtain rfl := Except.ok.inj (first.symm.trans done)
      refine .inl ⟨fun other found => ?_, kept⟩
      obtain rfl := Option.some.inj (keyed.symm.trans found)
      exact idle
    · exact .inr ⟨own, rfl, idle, settles.writes state item own after listed keyed idle done⟩

theorem view_of_turn [DecidableEq κ] (settles : SettlesAt Listed Able stored view count turn key
    act) {item : ι} (listed : Listed item) (done : turn state item = .ok after) (own : κ) :
    view (stored after) own =
      if key item = some own then act own item (view (stored state) own)
      else view (stored state) own := by
  rcases settles.turn_cases listed done with ⟨idle, same, -⟩ | ⟨other, keyed, -, written, frame, -⟩
  · rw [same]
    split_ifs with found
    · exact (idle own found).symm
    · rfl
  · rw [keyed]
    split_ifs with found
    · obtain rfl := Option.some.inj found
      exact written
    · exact frame own fun same => found (congrArg some same.symm)

/-- **The slot of a key is what its items make of it**, one after the other. -/
theorem view_of_done [DecidableEq κ]
    (settles : SettlesAt Listed Able stored view count turn key act) (listed : ∀ item ∈ items,
    Listed item) (done : items.foldlM turn state = .ok after) (own : κ) :
    view (stored after) own =
      (items.filter (key · = some own)).foldl (fun slot item => act own item slot)
      (view (stored state) own) := by
  induction items generalizing state with
  | nil =>
    obtain rfl := Except.ok.inj done
    rfl
  | cons item items ih =>
    obtain ⟨first, rest⟩ := List.forall_mem_cons.mp listed
    rw [List.foldlM_cons] at done
    obtain ⟨middle, head, tail⟩ := bind_eq_ok.mp done
    rw [ih rest tail, settles.view_of_turn first head, List.filter_cons]
    split_ifs with found <;> simp_all

theorem count_le (settles : SettlesAt Listed Able stored view count turn key act)
    (listed : ∀ item ∈ items, Listed item) (done : items.foldlM turn state = .ok after) :
    count state ≤ count after := by
  induction items generalizing state with
  | nil =>
    obtain rfl := Except.ok.inj done
    exact le_rfl
  | cons item items ih =>
    obtain ⟨first, rest⟩ := List.forall_mem_cons.mp listed
    rw [List.foldlM_cons] at done
    obtain ⟨middle, head, tail⟩ := bind_eq_ok.mp done
    have more := ih rest tail
    rcases settles.turn_cases first head with ⟨-, -, same⟩ | ⟨-, -, -, -, -, one⟩ <;> omega

/-- **A run that counts nothing had nothing to do**, and leaves what is stored. -/
theorem idle_of_count_eq (settles : SettlesAt Listed Able stored view count turn key act)
    (listed : ∀ item ∈ items, Listed item) (done : items.foldlM turn state = .ok after)
    (quiet : count after = count state) :
    (∀ item ∈ items, Idle view key act (stored state) item) ∧ stored after = stored state := by
  induction items generalizing state with
  | nil =>
    obtain rfl := Except.ok.inj done
    exact ⟨List.forall_mem_nil _, rfl⟩
  | cons item items ih =>
    obtain ⟨first, rest⟩ := List.forall_mem_cons.mp listed
    rw [List.foldlM_cons] at done
    obtain ⟨middle, head, tail⟩ := bind_eq_ok.mp done
    have more := settles.count_le rest tail
    rcases settles.turn_cases first head with ⟨idle, same, counted⟩ | ⟨-, -, -, -, -, one⟩
    · obtain ⟨others, kept⟩ := ih rest tail (quiet.trans counted.symm)
      rw [same] at others kept
      exact ⟨List.forall_mem_cons.mpr ⟨idle, others⟩, kept⟩
    · omega

theorem run_of_idle (settles : SettlesAt Listed Able stored view count turn key act)
    (listed : ∀ item ∈ items, Listed item) (able : ∀ item ∈ items, Able item)
    (idle : ∀ item ∈ items, Idle view key act (stored state) item) :
    ∃ after, items.foldlM turn state = .ok after ∧ stored after = stored state ∧
    count after = count state := by
  induction items generalizing state with
  | nil => exact ⟨state, rfl, rfl, rfl⟩
  | cons item items ih =>
    obtain ⟨first, rest⟩ := List.forall_mem_cons.mp listed
    obtain ⟨canFirst, canRest⟩ := List.forall_mem_cons.mp able
    obtain ⟨idleFirst, idleRest⟩ := List.forall_mem_cons.mp idle
    obtain ⟨middle, head, same, counted⟩ : ∃ after, turn state item = .ok after ∧
        stored after = stored state ∧ count after = count state := by
      cases keyed : key item with
      | none => exact settles.aside state item first keyed
      | some own => exact settles.still state item own first canFirst keyed (idleFirst own keyed)
    obtain ⟨after, tail, kept, more⟩ := ih rest canRest (same ▸ idleRest)
    exact ⟨after, (List.foldlM_cons ..).trans (bind_eq_ok.mpr ⟨middle, head, tail⟩),
      kept.trans same, more.trans counted⟩

theorem able_of_done (settles : SettlesAt Listed Able stored view count turn key act)
    (listed : ∀ item ∈ items, Listed item) (done : items.foldlM turn state = .ok after) :
    ∀ item ∈ items, Able item := by
  induction items generalizing state with
  | nil => exact List.forall_mem_nil _
  | cons item items ih =>
    obtain ⟨first, rest⟩ := List.forall_mem_cons.mp listed
    rw [List.foldlM_cons] at done
    obtain ⟨middle, head, tail⟩ := bind_eq_ok.mp done
    exact List.forall_mem_cons.mpr ⟨settles.able _ _ _ first head, ih rest tail⟩

/-- **A second run has nothing to do** exactly when the slots the first one leaves are fixed
points of their items. -/
theorem rerun_still_iff [DecidableEq κ]
    (settles : SettlesAt Listed Able stored view count turn key act)
    (settlesAgain : SettlesAt Listed Able stored view count again key act) (listed : ∀ item ∈ items,
    Listed item) (done : items.foldlM turn state = .ok after) {start : σ}
    (same : stored start = stored after) :
    (∃ second, items.foldlM again start = .ok second ∧ count second = count start) ↔
      ∀ own, ∀ item ∈ items.filter (key · = some own),
        act own item ((items.filter (key · = some own)).foldl (fun slot item => act own item slot)
            (view (stored state) own)) =
          (items.filter (key · = some own)).foldl (fun slot item => act own item slot)
          (view (stored state) own) := by
  have fixed : ∀ own, (items.filter (key · = some own)).foldl (fun slot item => act own item slot)
      (view (stored state) own) = view (stored start) own := fun own => by
    rw [same, settles.view_of_done listed done own]
  simp only [fixed]
  constructor
  · rintro ⟨second, ran, quiet⟩ own item member
    obtain ⟨within, keyed⟩ := List.mem_filter.mp member
    exact (settlesAgain.idle_of_count_eq listed ran quiet).1 item within own
      (of_decide_eq_true keyed)
  · intro idle
    obtain ⟨second, ran, -, quiet⟩ :=
      settlesAgain.run_of_idle listed (settles.able_of_done listed done) fun item within own
        keyed => idle own item (List.mem_filter.mpr ⟨within, decide_eq_true keyed⟩)
    exact ⟨second, ran, quiet⟩

end SettlesAt

end Cidrella
