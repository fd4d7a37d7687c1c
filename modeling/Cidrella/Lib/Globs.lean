import Cidrella.Lib.Text

/-!
# Glob patterns over paths

A pattern with `*` for any run of characters, slashes among them, as `tar` matches its
exclusions: against a path or the part of it after a slash, and against the directories above
it (`excludedBy_iff`).
-/

set_option autoImplicit false

namespace Cidrella

namespace Globs

/-- The text matches the pattern. -/
def glob : Text → Text → Bool
  | [], text => text.isEmpty
  | c :: pattern, text =>
    if c = '*' then text.tails.any (glob pattern)
    else text.head? = some c && glob pattern text.tail

/-- What follows each slash. -/
def afterSlashes : Text → List Text
  | [] => []
  | c :: rest => if c = '/' then rest :: afterSlashes rest else afterSlashes rest

/-- A path, and the parts of it that start after a slash. -/
def trailingParts (path : Text) : List Text := path :: afterSlashes path

/-- The directories above a path: what comes before each slash. -/
def parents : Text → List Text
  | [] => []
  | c :: rest => (if c = '/' then [[]] else []) ++ (parents rest).map (c :: ·)

/-- One of the patterns matches the path or a directory above it. -/
def excludedBy (patterns : List Text) (path : Text) : Bool :=
  (path :: parents path).any fun covered => (trailingParts covered).any fun part => patterns.any
    (glob · part)

section

variable {pattern text path part : Text}

theorem glob_nil : glob [] text = true ↔ text = [] := List.isEmpty_iff

theorem glob_star : glob ('*' :: pattern) text = true ↔ ∃ front rest, text = front ++ rest ∧
    glob pattern rest = true := by
  rw [glob, if_pos rfl, List.any_eq_true]
  constructor
  · rintro ⟨rest, tail, held⟩
    obtain ⟨front, whole⟩ := (List.mem_tails _ _).mp tail
    exact ⟨front, rest, whole.symm, held⟩
  · rintro ⟨front, rest, rfl, held⟩
    exact ⟨rest, (List.mem_tails _ _).mpr (List.suffix_append front rest), held⟩

theorem glob_append {letters : Text} (plain : '*' ∉ letters) :
    glob (letters ++ pattern) text = true ↔ ∃ rest, text = letters ++ rest ∧
    glob pattern rest = true := by
  induction letters generalizing text with
  | nil => simp
  | cons c letters ih =>
    rw [List.mem_cons, not_or] at plain
    rw [List.cons_append, glob, if_neg (Ne.symm plain.1)]
    cases text with
    | nil => simp
    | cons d rest =>
      simp only [Bool.and_eq_true, decide_eq_true_eq, List.head?_cons, List.tail_cons,
        Option.some.injEq, ih plain.2]
      constructor
      · rintro ⟨rfl, more, rfl, held⟩
        exact ⟨more, rfl, held⟩
      · rintro ⟨more, whole, held⟩
        obtain ⟨rfl, rfl⟩ := List.cons.inj whole
        exact ⟨rfl, more, rfl, held⟩

theorem glob_letters (plain : '*' ∉ pattern) : glob pattern text = true ↔ text = pattern := by
  have whole := @glob_append [] text pattern plain
  rw [List.append_nil] at whole
  rw [whole]
  constructor
  · rintro ⟨rest, rfl, held⟩
    rw [glob_nil.mp held, List.append_nil]
  · rintro rfl
    exact ⟨[], (List.append_nil _).symm, rfl⟩

theorem glob_anything (text : Text) : glob ['*'] text = true :=
  glob_star.mpr ⟨text, [], (List.append_nil _).symm, rfl⟩

/-- `*word`: what ends in the word. -/
theorem glob_ends {word : Text} (plain : '*' ∉ word) : glob ('*' :: word) text = true ↔ ∃ front,
    text = front ++ word := by
  simp only [glob_star, glob_letters plain]
  exact ⟨fun ⟨front, _, whole, same⟩ => ⟨front, same ▸ whole⟩, fun ⟨front, whole⟩ =>
    ⟨front, word, whole, rfl⟩⟩

/-- `*word*`: what has the word in it. -/
theorem glob_has {word : Text} (plain : '*' ∉ word) :
    glob ('*' :: (word ++ ['*'])) text = true ↔ ∃ front more, text = front ++ (word ++ more) := by
  simp only [glob_star, glob_append plain, glob_anything, and_true]
  constructor
  · rintro ⟨front, rest, rfl, more, rfl⟩
    exact ⟨front, more, rfl⟩
  · rintro ⟨front, more, rfl⟩
    exact ⟨front, word ++ more, rfl, more, rfl⟩

theorem exists_of_mem_trailingParts (member : part ∈ trailingParts path) : ∃ front,
    path = front ++ part := by
  rcases List.mem_cons.mp member with rfl | later
  · exact ⟨[], rfl⟩
  · induction path with
    | nil => exact absurd later List.not_mem_nil
    | cons c path ih =>
      rw [afterSlashes] at later
      split at later
      · rcases List.mem_cons.mp later with rfl | deeper
        · exact ⟨[c], rfl⟩
        · obtain ⟨front, rfl⟩ := ih (List.mem_cons_of_mem _ deeper) deeper
          exact ⟨c :: front, rfl⟩
      · obtain ⟨front, rfl⟩ := ih (List.mem_cons_of_mem _ later) later
        exact ⟨c :: front, rfl⟩

theorem mem_parents {parent : Text} : parent ∈ parents path ↔ ∃ rest, path = parent ++
    '/' :: rest := by
  induction path generalizing parent with
  | nil => simp [parents]
  | cons c path ih =>
    rw [parents, List.mem_append, List.mem_map]
    constructor
    · rintro (front | ⟨deeper, member, rfl⟩)
      · split at front
        · rename_i slash
          rw [List.mem_singleton.mp front, slash]
          exact ⟨path, rfl⟩
        · exact absurd front List.not_mem_nil
      · obtain ⟨rest, rfl⟩ := ih.mp member
        exact ⟨rest, rfl⟩
    · rintro ⟨rest, whole⟩
      cases parent with
      | nil =>
        obtain ⟨rfl, -⟩ := List.cons.inj whole
        exact .inl (by simp)
      | cons d parent =>
        obtain ⟨rfl, deeper⟩ := List.cons.inj whole
        exact .inr ⟨parent, ih.mpr ⟨rest, deeper⟩, rfl⟩

/-- **What is excluded.** -/
theorem excludedBy_iff {patterns : List Text} : excludedBy patterns path = true ↔
    ∃ covered, (covered = path ∨ ∃ rest, path = covered ++ '/' :: rest) ∧
      ∃ part ∈ trailingParts covered, ∃ pattern ∈ patterns, glob pattern part = true := by
  simp only [excludedBy, List.any_eq_true, List.mem_cons, mem_parents]

end

end Globs

end Cidrella
