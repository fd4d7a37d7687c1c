import Mathlib.Tactic

/-!
# Maps as lists of pairs

A map that is written key by key, the last value of a key being the one that counts.
-/

set_option autoImplicit false

namespace Cidrella

namespace Assoc

variable {κ α : Type} [DecidableEq κ]

/-- The value of a key. -/
def get (items : List (κ × α)) (key : κ) : Option α := (items.find? (·.1 = key)).map Prod.snd

/-- A key without its value. -/
def erase (items : List (κ × α)) (key : κ) : List (κ × α) := items.filter (·.1 ≠ key)

/-- A key with a new value. -/
def put (items : List (κ × α)) (key : κ) (value : α) : List (κ × α) := erase items key ++
    [(key, value)]

@[simp] theorem get_nil (key : κ) : get ([] : List (κ × α)) key = none := rfl

theorem get_erase (items : List (κ × α)) (key other : κ) :
    get (erase items key) other = if other = key then none else get items other := by
  unfold get erase
  induction items with
  | nil => simp
  | cons item items ih =>
    rw [List.filter_cons]
    by_cases here : item.1 = key
    · have later : ¬ decide (item.1 ≠ key) = true := by simpa using here
      rw [if_neg later, ih]
      split
      · rfl
      · rename_i differs
        rw [List.find?_cons_of_neg]
        simpa [here] using Ne.symm differs
    · rw [if_pos (by simpa using here)]
      by_cases found : item.1 = other
      · rw [List.find?_cons_of_pos (by simpa using found),
          List.find?_cons_of_pos (by simpa using found), if_neg (found ▸ here)]
      · rw [List.find?_cons_of_neg (by simpa using found),
          List.find?_cons_of_neg (by simpa using found), ih]

@[simp] theorem get_put_self (items : List (κ × α)) (key : κ) (value : α) :
    get (put items key value) key = some value := by
  have gone := get_erase items key key
  rw [if_pos rfl] at gone
  have none : (erase items key).find? (·.1 = key) = none := Option.map_eq_none_iff.mp gone
  rw [get, put, List.find?_append, none]
  simp

theorem get_put_of_ne (items : List (κ × α)) {key other : κ} (value : α) (differs : other ≠ key) :
    get (put items key value) other = get items other := by
  have kept := get_erase items key other
  rw [if_neg differs] at kept
  rw [← kept, get, get, put, List.find?_append]
  have last : [(key, value)].find? (·.1 = other) = none := by
    simpa using Ne.symm differs
  rw [last, Option.or_none]

theorem get_cons (item : κ × α) (items : List (κ × α)) (key : κ) :
    get (item :: items) key = if item.1 = key then some item.2 else get items key := by
  unfold get
  by_cases here : item.1 = key
  · rw [List.find?_cons_of_pos (by simpa using here), if_pos here]
    rfl
  · rw [List.find?_cons_of_neg (by simpa using here), if_neg here]

theorem get_eq_none_iff {items : List (κ × α)} {key : κ} :
    get items key = none ↔ key ∉ items.map Prod.fst := by
  induction items with
  | nil => simp
  | cons item items ih =>
    rw [get_cons, List.map_cons, List.mem_cons, not_or, ← ih]
    by_cases here : item.1 = key
    · simp [here]
    · simp [here, Ne.symm here]

theorem get_eq_some_iff {items : List (κ × α)} (distinct : (items.map Prod.fst).Nodup) {key : κ}
    {value : α} : get items key = some value ↔ (key, value) ∈ items := by
  induction items with
  | nil => simp
  | cons item items ih =>
    obtain ⟨new, distinctRest⟩ := List.nodup_cons.mp distinct
    rw [get_cons, List.mem_cons, ← ih distinctRest]
    by_cases here : item.1 = key
    · have later : get items key = none := get_eq_none_iff.mpr (here ▸ new)
      rw [if_pos here, later]
      obtain ⟨itemKey, itemValue⟩ := item
      simp [here.symm, eq_comm]
    · rw [if_neg here]
      refine ⟨.inr, fun found => found.resolve_left ?_⟩
      rintro rfl
      exact here rfl

theorem nodup_erase {items : List (κ × α)} (distinct : (items.map Prod.fst).Nodup) (key : κ) :
    ((erase items key).map Prod.fst).Nodup :=
  distinct.sublist (List.filter_sublist.map _)

theorem nodup_put {items : List (κ × α)} (distinct : (items.map Prod.fst).Nodup) (key : κ)
    (value : α) : ((put items key value).map Prod.fst).Nodup := by
  rw [put, List.map_append, List.nodup_append]
  refine ⟨nodup_erase distinct key, List.nodup_singleton _, fun other member last isLast => ?_⟩
  intro same
  have gone := get_erase items key key
  rw [if_pos rfl] at gone
  have isKey : other = key := same.trans (List.mem_singleton.mp isLast)
  exact get_eq_none_iff.mp gone (isKey ▸ member)

section Puts

variable {items start : List (κ × α)}

theorem nodup_foldl_put (distinct : (start.map Prod.fst).Nodup) :
    ((items.foldl (fun map item => put map item.1 item.2) start).map Prod.fst).Nodup := by
  induction items generalizing start with
  | nil => exact distinct
  | cons item items ih => exact ih (nodup_put distinct item.1 item.2)

theorem get_foldl_put (distinct : (items.map Prod.fst).Nodup) (key : κ) :
    get (items.foldl (fun map item => put map item.1 item.2) start) key =
      (get items key).or (get start key) := by
  induction items generalizing start with
  | nil => simp
  | cons item items ih =>
    obtain ⟨new, distinctRest⟩ := List.nodup_cons.mp distinct
    rw [List.foldl_cons, ih distinctRest, get_cons]
    by_cases here : item.1 = key
    · subst here
      rw [get_eq_none_iff.mpr new, get_put_self, if_pos rfl, Option.none_or, Option.some_or]
    · rw [get_put_of_ne _ _ (Ne.symm here), if_neg here]

end Puts

end Assoc

end Cidrella
