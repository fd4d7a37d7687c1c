import Mathlib.Tactic

/-!
# Lists with distinct keys

A list whose items have different keys is a small map: an item is found by its key
(`find?_of_mem`), and taking it out takes its key out (`perm_filter_of_mem`).

Any list gives such a map when its items are set one after another: the last item of a key
counts, in the place of the first (`mem_asMap`, `nodup_asMap`). Where a key that is there is
left alone, the first item counts (`mem_firsts`, `nodup_firsts`).
-/

set_option autoImplicit false

namespace Cidrella

namespace Keyed

variable {α κ : Type} [DecidableEq κ] {key : α → κ} {items : List α} {item : α}

theorem find?_of_mem (distinct : (items.map key).Nodup) (member : item ∈ items) :
    items.find? (key · = key item) = some item := by
  cases found : items.find? (key · = key item) with
  | none =>
    have none := List.find?_eq_none.mp found item member
    exact absurd (decide_eq_true rfl) none
  | some other =>
    have test := List.find?_some found
    have same : key other = key item := of_decide_eq_true test
    rw [List.inj_on_of_nodup_map distinct (List.mem_of_find?_eq_some found) member same]

theorem perm_filter_of_mem (distinct : (items.map key).Nodup) (member : item ∈ items) :
    (key item :: (items.filter (key · ≠ key item)).map key).Perm (items.map key) := by
  have others : (items.filter (key · ≠ key item)).map key = (items.map key).erase (key item) := by
    rw [distinct.erase_eq_filter, List.filter_map]
    refine congrArg _ (List.filter_congr fun other _ => ?_)
    simp only [Function.comp_apply, bne, ← beq_eq_decide, ne_eq, decide_not]
  rw [others]
  exact (List.perm_cons_erase (List.mem_map_of_mem member)).symm

theorem filter_ne_congr {ι : Type} [DecidableEq ι] {other : α → ι}
    (distinct : (items.map key).Nodup) (distinctOther : (items.map other).Nodup)
    (member : item ∈ items) :
    items.filter (key · ≠ key item) = items.filter (other · ≠ other item) := by
  refine List.filter_congr fun row memberRow => decide_eq_decide.mpr (not_congr ⟨?_, ?_⟩)
  · intro same
    rw [List.inj_on_of_nodup_map distinct memberRow member same]
  · intro same
    rw [List.inj_on_of_nodup_map distinctOther memberRow member same]

/-! ## A list as a map -/

/-- The last item of a key. -/
def latest (key : α → κ) (items : List α) (k : κ) : Option α := items.findRev? fun item =>
    key item = k

/-- The items set one after another in a map. -/
def asMap (key : α → κ) (items : List α) : List α :=
  (items.map key).eraseDups.filterMap (latest key items)

theorem latest_append (items others : List α) (k : κ) :
    latest key (items ++ others) k = (latest key others k).or (latest key items k) := by
  rw [latest, latest, latest, List.findRev?_eq_find?_reverse, List.findRev?_eq_find?_reverse,
    List.findRev?_eq_find?_reverse, List.reverse_append, List.find?_append]

theorem of_latest {k : κ} (found : latest key items k = some item) : item ∈ items ∧
    key item = k := by
  rw [latest, List.findRev?_eq_find?_reverse] at found
  have test := List.find?_some found
  exact ⟨List.mem_reverse.mp (List.mem_of_find?_eq_some found), of_decide_eq_true test⟩

theorem latest_of_mem (distinct : (items.map key).Nodup) (member : item ∈ items) :
    latest key items (key item) = some item := by
  rw [latest, List.findRev?_eq_find?_reverse]
  exact find?_of_mem (by rwa [List.map_reverse, List.nodup_reverse]) (List.mem_reverse.mpr member)

theorem mem_asMap : item ∈ asMap key items ↔ latest key items (key item) = some item := by
  rw [asMap, List.mem_filterMap]
  constructor
  · rintro ⟨k, -, found⟩
    rwa [(of_latest found).2]
  · intro found
    exact ⟨key item, List.mem_eraseDups.mpr (List.mem_map_of_mem (of_latest found).1), found⟩

theorem nodup_eraseDups (keys : List κ) : keys.eraseDups.Nodup := by
  induction size : keys.length using Nat.strong_induction_on generalizing keys with
  | _ n ih =>
    cases keys with
    | nil => exact List.nodup_nil
    | cons k keys =>
      rw [List.eraseDups_cons, List.nodup_cons, List.mem_eraseDups]
      refine ⟨by simp, ih _ ?_ _ rfl⟩
      have shorter := List.length_filter_le (fun other => !other == k) keys
      rw [List.length_cons] at size
      omega

theorem nodup_asMap (key : α → κ) (items : List α) : ((asMap key items).map key).Nodup := by
  have sub : ∀ keys : List κ, ((keys.filterMap (latest key items)).map key).Sublist keys :=
    fun keys => by
    induction keys with
    | nil => exact List.Sublist.refl _
    | cons k keys ih =>
      cases found : latest key items k with
      | none =>
        rw [List.filterMap_cons_none found]
        exact ih.cons k
      | some item =>
        rw [List.filterMap_cons_some found, List.map_cons, (of_latest found).2]
        exact ih.cons_cons k
  exact (nodup_eraseDups _).sublist (sub _)

/-! ## The first items of keys -/

/-- The items set one after another in a map, a key that is there being left alone. -/
def firsts (key : α → κ) (items : List α) : List α :=
  items.foldl (fun kept item => if kept.any fun other => key other = key item then kept else kept ++
    [item]) []

theorem firsts_append_singleton (items : List α) (item : α) : firsts key (items ++ [item]) =
    if (firsts key items).any fun other => key other = key item then firsts key items
    else firsts key items ++ [item] := by
  rw [firsts, List.foldl_append]
  rfl

theorem mem_firsts : item ∈ firsts key items ↔ items.find? (key · = key item) = some item := by
  induction items using List.reverseRecOn generalizing item with
  | nil => simp [firsts]
  | append_singleton items last ih =>
    have taken : (firsts key items).any (fun other => key other = key last) = true ↔
        (items.find? (key · = key last)).isSome = true := by
      rw [List.any_eq_true, List.find?_isSome]
      constructor
      · rintro ⟨other, member, same⟩
        exact ⟨other, List.mem_of_find?_eq_some (ih.mp member), same⟩
      · rintro ⟨other, member, same⟩
        obtain ⟨first, found⟩ := Option.isSome_iff_exists.mp
          (List.find?_isSome.mpr ⟨other, member, same⟩ : (items.find? (key · = key last)).isSome =
          true)
        have test := List.find?_some found
        have own : key first = key last := of_decide_eq_true test
        exact ⟨first, ih.mpr (by rw [own]; exact found), test⟩
    rw [firsts_append_singleton, List.find?_append]
    split_ifs with there
    · rw [ih]
      have known := taken.mp there
      cases found : items.find? (key · = key item) with
      | some other => simp
      | none =>
        refine iff_of_false (by simp) fun same => ?_
        rw [Option.none_or] at same
        have test := List.find?_some same
        obtain rfl := List.mem_singleton.mp (List.mem_of_find?_eq_some same)
        rw [found] at known
        cases known
    · rw [List.mem_append, List.mem_singleton, ih]
      have absent : items.find? (key · = key last) = none := by
        cases found : items.find? (key · = key last) with
        | none => rfl
        | some other => exact absurd (taken.mpr (by rw [found]; rfl)) there
      cases found : items.find? (key · = key item) with
      | some other =>
        constructor
        · rintro (same | rfl)
          · simpa using same
          · rw [absent] at found
            cases found
        · intro same
          exact .inl (by simpa using same)
      | none =>
        rw [Option.none_or]
        constructor
        · rintro (same | rfl)
          · cases same
          · simp
        · intro same
          exact .inr (List.mem_singleton.mp (List.mem_of_find?_eq_some same))

theorem nodup_firsts (key : α → κ) (items : List α) : ((firsts key items).map key).Nodup := by
  induction items using List.reverseRecOn with
  | nil => exact List.nodup_nil
  | append_singleton items last ih =>
    rw [firsts_append_singleton]
    split_ifs with there
    · exact ih
    · rw [List.map_append]
      refine ih.append (List.nodup_singleton _) fun k old new => there ?_
      obtain ⟨other, member, rfl⟩ := List.mem_map.mp old
      exact List.any_eq_true.mpr ⟨other, member, decide_eq_true (List.mem_singleton.mp new)⟩

theorem exists_firsts (member : item ∈ items) : ∃ first ∈ firsts key items,
    key first = key item := by
  obtain ⟨first, found⟩ := Option.isSome_iff_exists.mp
    (List.find?_isSome.mpr ⟨item, member, decide_eq_true rfl⟩ :
    (items.find? (key · = key item)).isSome = true)
  have test := List.find?_some found
  have own : key first = key item := of_decide_eq_true test
  exact ⟨first, mem_firsts.mpr (by rw [own]; exact found), own⟩

end Keyed

end Cidrella
