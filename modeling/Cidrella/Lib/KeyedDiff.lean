import Mathlib.Tactic

/-!
# Differences of keyed lists

Lists whose items have a key each, no key twice, stand for maps. A change puts an item, in
place of the one with its key, or drops a key. The difference of two such lists puts what
is wanted and not held the same, and drops what is held and not wanted.

Making the changes of the difference gives the wanted items, up to what is held the same
(`lookup_diff`).
-/

set_option autoImplicit false

namespace Cidrella

namespace Keyed

/-- Something to do to a keyed list. -/
inductive Change (α κ : Type) where
  | put (item : α)
  | drop (key : κ)
  deriving DecidableEq, Repr

variable {α κ : Type} [DecidableEq κ] (key : α → κ)

/-- The item of a key. -/
def lookup (items : List α) (k : κ) : Option α := items.find? fun item => key item = k

/-- The key a change is about. -/
def Change.target : Change α κ → κ
  | .put item => key item
  | .drop k => k

/-- What the key has after the change. -/
def Change.result : Change α κ → Option α
  | .put item => some item
  | .drop _ => none

/-- Making a change. -/
def step (items : List α) (change : Change α κ) : List α :=
  items.filter (fun item => key item ≠ change.target key) ++ change.result.toList

/-- The changes that make a list hold what is wanted. -/
def diff (same : α → α → Bool) (wanted held : List α) : List (Change α κ) :=
  (wanted.filter fun want => !(lookup key held (key want)).any (same want)).map .put ++
    (held.filter fun got => (lookup key wanted (key got)).isNone).map fun got => .drop (key got)

section Lookup

variable {key} {items : List α} {k : κ} {item : α}

theorem lookup_append (items others : List α) (k : κ) :
    lookup key (items ++ others) k = (lookup key items k).or (lookup key others k) :=
  List.find?_append

theorem key_of_lookup (found : lookup key items k = some item) : key item = k := by
  have test := List.find?_some found
  rwa [decide_eq_true_eq] at test

theorem mem_of_lookup (found : lookup key items k = some item) : item ∈ items :=
  List.mem_of_find?_eq_some found

theorem lookup_eq_none : lookup key items k = none ↔ ∀ item ∈ items, key item ≠ k := by
  rw [lookup, List.find?_eq_none]
  simp only [decide_eq_true_eq]

theorem lookup_of_mem (distinct : (items.map key).Nodup) (member : item ∈ items) :
    lookup key items (key item) = some item := by
  induction items with
  | nil => cases member
  | cons first rest ih =>
    obtain ⟨fresh, distinctRest⟩ := List.nodup_cons.mp distinct
    rw [lookup, List.find?_cons]
    rcases List.mem_cons.mp member with rfl | later
    · rw [decide_eq_true rfl]
    · have other : key first ≠ key item := fun same =>
        fresh (same ▸ List.mem_map_of_mem later)
      rw [decide_eq_false other]
      exact ih distinctRest later

theorem lookup_filter_key (keep : κ → Bool) (items : List α) (k : κ) :
    lookup key (items.filter fun item => keep (key item)) k = if keep k then lookup key items k
    else none := by
  induction items with
  | nil => simp [lookup]
  | cons first rest ih =>
    rw [List.filter_cons]
    by_cases kept : keep (key first) = true
    · rw [if_pos kept]
      by_cases here : key first = k
      · rw [lookup, List.find?_cons_of_pos (by simpa using here), lookup,
          List.find?_cons_of_pos (by simpa using here), if_pos (here ▸ kept)]
      · rw [lookup, List.find?_cons_of_neg (by simpa using here), lookup,
          List.find?_cons_of_neg (by simpa using here)]
        exact ih
    · rw [if_neg kept, ih]
      by_cases here : key first = k
      · rw [if_neg (here ▸ kept), if_neg (here ▸ kept)]
      · have skip : lookup key (first :: rest) k = lookup key rest k :=
          List.find?_cons_of_neg (by simpa using here)
        rw [skip]

end Lookup

section Changes

variable {key} {items : List α} {changes : List (Change α κ)}

theorem lookup_step (change : Change α κ) (k : κ) :
    lookup key (step key items change) k =
      if k = change.target key then change.result else lookup key items k := by
  have kept := @lookup_filter_key α κ _ key (fun k => decide (k ≠ change.target key)) items k
  rw [step, lookup_append, kept]
  by_cases here : k = change.target key
  · rw [if_neg (by simpa using here), if_pos here, Option.none_or]
    cases change with
    | put item =>
      subst here
      exact List.find?_cons_of_pos (decide_eq_true rfl)
    | drop other => rfl
  · rw [if_pos (by simpa using here), if_neg here]
    have absent : lookup key change.result.toList k = none := by
      cases change with
      | put item =>
        exact lookup_eq_none.mpr fun other member => by
          rw [List.mem_singleton.mp member]
          exact Ne.symm here
      | drop other => rfl
    rw [absent, Option.or_none]

theorem nodup_step (distinct : (items.map key).Nodup) (change : Change α κ) :
    ((step key items change).map key).Nodup := by
  rw [step, List.map_append, List.nodup_append']
  refine ⟨distinct.sublist (List.filter_sublist.map _), ?_, ?_⟩
  · cases change <;> simp [Change.result]
  · intro k old new
    obtain ⟨item, member, rfl⟩ := List.mem_map.mp old
    have kept := (List.mem_filter.mp member).2
    cases change with
    | put other =>
      have same : key item = key other := by simpa [Change.result] using new
      simp [Change.target, same] at kept
    | drop other => simp [Change.result] at new

theorem lookup_foldl_step (distinct : (changes.map (Change.target key)).Nodup) (k : κ) :
    lookup key (changes.foldl (step key) items) k =
      match lookup (Change.target key) changes k with
      | some change => change.result
      | none => lookup key items k := by
  induction changes generalizing items with
  | nil => rfl
  | cons change changes ih =>
    obtain ⟨fresh, distinctRest⟩ := List.nodup_cons.mp distinct
    rw [List.foldl_cons, ih distinctRest, lookup_step]
    by_cases here : change.target key = k
    · have later : lookup (Change.target key) changes k = none :=
        lookup_eq_none.mpr fun other member same =>
          fresh (List.mem_map.mpr ⟨other, member, same.trans here.symm⟩)
      have first : lookup (Change.target key) (change :: changes) k = some change :=
        List.find?_cons_of_pos (decide_eq_true here)
      rw [later, first, if_pos here.symm]
    · have skip : lookup (Change.target key) (change :: changes) k =
          lookup (Change.target key) changes k := List.find?_cons_of_neg (by simpa using here)
      rw [skip, if_neg (Ne.symm here)]

theorem nodup_foldl_step (distinct : (items.map key).Nodup) :
    ((changes.foldl (step key) items).map key).Nodup := by
  induction changes generalizing items with
  | nil => exact distinct
  | cons change changes ih => exact ih (nodup_step distinct change)

end Changes

section Diff

variable {key} {same : α → α → Bool} {wanted held : List α}

theorem mem_diff {change : Change α κ} : change ∈ diff key same wanted held ↔
    (∃ want ∈ wanted, (lookup key held (key want)).any (same want) = false ∧ .put want = change) ∨
      ∃ got ∈ held, lookup key wanted (key got) = none ∧ .drop (key got) = change := by
  simp only [diff, List.mem_append, List.mem_map, List.mem_filter, Bool.not_eq_true',
    Option.isNone_iff_eq_none, and_assoc]

theorem nodup_target_diff (distinctWanted : (wanted.map key).Nodup)
    (distinctHeld : (held.map key).Nodup) :
    ((diff key same wanted held).map (Change.target key)).Nodup := by
  rw [diff, List.map_append, List.map_map, List.map_map, List.nodup_append']
  refine ⟨distinctWanted.sublist (List.filter_sublist.map _),
    distinctHeld.sublist (List.filter_sublist.map _), ?_⟩
  intro k put drop
  obtain ⟨want, wantMember, rfl⟩ := List.mem_map.mp put
  obtain ⟨got, gotMember, same⟩ := List.mem_map.mp drop
  have gone : lookup key wanted (key got) = none := by
    simpa using (List.mem_filter.mp gotMember).2
  exact lookup_eq_none.mp gone want (List.mem_filter.mp wantMember).1 same.symm

/-- **Making the changes of the difference gives what is wanted**, except that what was held
the same stays as it was held. -/
theorem lookup_diff (distinctWanted : (wanted.map key).Nodup) (distinctHeld : (held.map key).Nodup)
    (k : κ) :
    lookup key ((diff key same wanted held).foldl (step key) held) k =
      (lookup key wanted k).map fun want => ((lookup key held k).filter (same want)).getD want := by
  have distinct := @nodup_target_diff α κ _ key same wanted held distinctWanted distinctHeld
  rw [lookup_foldl_step distinct]
  cases wantFound : lookup key wanted k with
  | some want =>
    obtain rfl := key_of_lookup wantFound
    have member := mem_of_lookup wantFound
    by_cases kept : (lookup key held (key want)).any (same want) = true
    · have unchanged : lookup (Change.target key) (diff key same wanted held)
        (key want) = none := by
        refine lookup_eq_none.mpr fun change listed about => ?_
        rcases mem_diff.mp listed with ⟨other, otherMember, differs, rfl⟩ | ⟨got, -, unwanted, rfl⟩
        · obtain rfl : other = want := by
            have found := lookup_of_mem distinctWanted otherMember
            rw [show key other = key want from about, wantFound] at found
            exact (Option.some.inj found).symm
          rw [kept] at differs
          cases differs
        · rw [show key got = key want from about, wantFound] at unwanted
          cases unwanted
      obtain ⟨got, gotFound, alike⟩ := (Option.any_eq_true _ _).mp kept
      rw [unchanged, gotFound]
      simp [Option.filter_some, alike]
    · have changed := lookup_of_mem distinct
        (mem_diff.mpr (.inl ⟨want, member, Bool.eq_false_iff.mpr kept, rfl⟩))
      rw [show lookup (Change.target key) (diff key same wanted held) (key want) =
        some (.put want) from changed]
      cases gotFound : lookup key held (key want) with
      | none => rfl
      | some got =>
        rw [gotFound, Option.any_some] at kept
        simp [Change.result, Option.filter_some, kept]
  | none =>
    cases gotFound : lookup key held k with
    | some got =>
      obtain rfl := key_of_lookup gotFound
      have changed := lookup_of_mem distinct
        (mem_diff.mpr (.inr ⟨got, mem_of_lookup gotFound, wantFound, rfl⟩))
      rw [show lookup (Change.target key) (diff key same wanted held) (key got) =
        some (.drop (key got)) from changed]
      rfl
    | none =>
      have unchanged : lookup (Change.target key) (diff key same wanted held) k = none := by
        refine lookup_eq_none.mpr fun change listed about => ?_
        rcases mem_diff.mp listed with ⟨want, member, -, rfl⟩ | ⟨got, member, -, rfl⟩
        · exact lookup_eq_none.mp wantFound want member about
        · exact lookup_eq_none.mp gotFound got member about
      rw [unchanged]
      rfl

end Diff

end Keyed

end Cidrella
