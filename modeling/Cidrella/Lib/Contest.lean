import Mathlib.Tactic

/-!
# Contested slots

Items write one slot in turn. What stands in the slot may refuse an item, which then writes
nothing. What stands in the end is what the last item that was not refused wrote
(`foldl_contend`), and another round changes nothing exactly when every item writes just
that, or is refused by it (`settled_iff`).
-/

set_option autoImplicit false

namespace Cidrella

namespace Contest

variable {ρ ι : Type}

/-- An item writes unless it is refused. -/
def contend (refuses : ρ → ι → Bool) (write : ι → ρ → ρ) (slot : ρ) (item : ι) : ρ :=
  if refuses slot item then slot else write item slot

/-- The last item that is not refused. -/
def lastTaken (refuses : ρ → ι → Bool) (write : ι → ρ → ρ) : ρ → List ι → Option ι
  | _, [] => none
  | slot, item :: items =>
    if refuses slot item then lastTaken refuses write slot items
    else some ((lastTaken refuses write (write item slot) items).getD item)

/-- The slot when the last item that is not refused has written it. -/
def standing (refuses : ρ → ι → Bool) (write : ι → ρ → ρ) (slot : ρ) (items : List ι) : ρ :=
  match lastTaken refuses write slot items with
  | none => slot
  | some last => write last slot

section Contending

variable {refuses : ρ → ι → Bool} {write : ι → ρ → ρ} {slot : ρ} {items : List ι} {last : ι}

theorem mem_of_lastTaken (taken : lastTaken refuses write slot items = some last) :
    last ∈ items := by
  induction items generalizing slot last with
  | nil => cases taken
  | cons item items ih =>
    rw [lastTaken] at taken
    split_ifs at taken with refused
    · exact List.mem_cons_of_mem _ (ih taken)
    · rw [← Option.some.inj taken]
      cases later : lastTaken refuses write (write item slot) items with
      | none => exact List.mem_cons_self
      | some other => exact List.mem_cons_of_mem _ (ih later)

theorem refused_of_lastTaken (untaken : lastTaken refuses write slot items = none) :
    ∀ item ∈ items, refuses slot item = true := by
  induction items with
  | nil => exact List.forall_mem_nil _
  | cons item items ih =>
    rw [lastTaken] at untaken
    split_ifs at untaken with refused
    exact List.forall_mem_cons.mpr ⟨refused, ih untaken⟩

/-- What was written is written over. -/
def Overwrites (write : ι → ρ → ρ) : Prop := ∀ item other slot, write item (write other slot) =
    write item slot

/-- **What stands in the end** is what the last item wrote that was not refused. -/
theorem foldl_contend (overwrites : Overwrites write) :
    items.foldl (contend refuses write) slot = standing refuses write slot items := by
  induction items generalizing slot with
  | nil => rfl
  | cons item items ih =>
    rw [List.foldl_cons, ih, standing, standing, lastTaken, contend]
    split_ifs with refused
    · rfl
    · cases lastTaken refuses write (write item slot) items with
      | none => rfl
      | some other => exact overwrites other item slot

/-- **Another round changes nothing** exactly when every item writes what stands or is refused
by it. -/
theorem settled_iff (overwrites : Overwrites write) :
    (∀ item ∈ items, contend refuses write (standing refuses write slot items) item =
        standing refuses write slot items) ↔
      ∀ last, lastTaken refuses write slot items = some last → ∀ item ∈ items,
        refuses (write last slot) item = true ∨ write item slot = write last slot := by
  rw [standing]
  cases taken : lastTaken refuses write slot items with
  | none =>
    refine iff_of_true (fun item member => ?_) nofun
    exact if_pos (refused_of_lastTaken taken item member)
  | some last =>
    have alone : ∀ item, contend refuses write (write last slot) item = write last slot ↔
        refuses (write last slot) item = true ∨ write item slot = write last slot := by
      intro item
      rw [contend, overwrites item last slot]
      split_ifs with refused
      · exact iff_of_true rfl (.inl refused)
      · exact (or_iff_right refused).symm
    constructor
    · rintro still other same item member
      obtain rfl := Option.some.inj same
      exact (alone item).mp (still item member)
    · intro agree item member
      exact (alone item).mpr (agree last rfl item member)

end Contending

end Contest

end Cidrella
