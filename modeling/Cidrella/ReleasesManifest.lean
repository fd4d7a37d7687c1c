import Cidrella.Lib.GreedyWalk
import Cidrella.Semver
import Mathlib.Data.List.Sort

/-!
# The offered update

`computeBestTarget` of `utils/releases-manifest.js`: from the running version it hops to the
newest release it can be updated to, and on from there, until nothing newer is in reach.

A release can be updated to from every version from its `min_from` on that is older than it,
so the releases are a ladder, and the walk is the best one (`offered_path_is_best`). That
takes no more than that of any two releases one is the older.
-/

set_option autoImplicit false

namespace Cidrella

namespace ReleasesManifest

open Semver Precedence

/-- A release of the manifest. A version that is missing is the empty text. -/
structure Release where
  version : Text
  minFrom : Option Text
  anchor : Option Text
  deriving DecidableEq

/-- `releases.filter((r) => r && r.version)`. -/
def present (releases : List Release) : List Release := releases.filter (·.version ≠ [])

/-- `sort((a, b) => compareSemver(a.version, b.version))`. -/
def ascending (releases : List Release) : List Release :=
  (present releases).insertionSort fun a b => compareSemver a.version b.version ≠ .gt

/-- Whether a release can be updated to from a version. -/
def reachable (installed : Text) (release : Release) : Bool :=
  compareSemver release.version installed = .gt &&
    !(release.minFrom.filter (· ≠ [])).any fun least => compareSemver least installed = .gt

/-- The greedy walk. It ends where nothing is in reach, where it would come to a version again
and after the last release. -/
def walk (sorted : List Release) : Nat → Text → List Text → List Release
  | 0, _, _ => []
  | rounds + 1, installed, seen =>
    match (sorted.filter (reachable installed)).getLast? with
    | none => []
    | some best =>
      if best.version ∈ seen then []
      else if sorted.getLast?.any (·.version = best.version) then [best]
      else best :: walk sorted rounds best.version (best.version :: seen)

/-- `findAnchor`. -/
def findAnchor (releases : List Release) (version : Text) : Option Text :=
  (releases.find? (·.version = version)).bind fun release => release.anchor.filter (· ≠ [])

/-- What `computeBestTarget` returns. -/
structure Target where
  target : Text
  chain : List Text
  intermediateNotes : List (Text × Option Text)

/-- `computeBestTarget`. Every hop but the last has a note. -/
def computeBestTarget (currentVersion : Text) (releases : List Release) : Option Target :=
  let sorted := ascending releases
  if currentVersion = [] then none
  else if sorted.filter (fun release => compareSemver release.version currentVersion = .gt) =
    [] then none
  else
    let chain := (walk sorted (sorted.length + 1) currentVersion []).map (·.version)
    chain.getLast?.map fun target =>
      { target            := target
        chain             := chain
        intermediateNotes := chain.dropLast.map fun version =>
        (version, findAnchor releases version) }

/-! ## Releases in order -/

/-- One version is the older of two. -/
def Older (a b : Text) : Prop := compareSemver a b = .lt ∧ compareSemver b a = .gt

/-- Of any two releases one is the older. -/
def Distinct (releases : List Release) : Prop :=
  (present releases).Pairwise fun a b => Older a.version b.version ∨ Older b.version a.version

theorem Older.rank_lt {a b : Text} (older : Older a b) : ¬ Meets a b ∧ rank a < rank b := by
  have apart : ¬ Meets a b := fun meets => by
    have := older.1
    rw [compareSemver_of_meets meets] at this
    cases this
  refine ⟨apart, ?_⟩
  rw [← ordering_eq_lt, ← compareSemver_eq_ordering apart]
  exact older.1

theorem Distinct.older_or {releases : List Release} (distinct : Distinct releases) {a b : Release}
    (listedA : a ∈ present releases) (listedB : b ∈ present releases) (differ : a ≠ b) :
    Older a.version b.version ∨ Older b.version a.version := by
  have : Std.Symm fun a b : Release => Older a.version b.version ∨ Older b.version a.version :=
    ⟨fun _ _ => Or.symm⟩
  exact List.Pairwise.forall distinct listedA listedB differ

theorem Distinct.apart {releases : List Release} (distinct : Distinct releases) {a b : Release}
    (listedA : a ∈ present releases) (listedB : b ∈ present releases) (differ : a ≠ b) :
    ¬ Meets a.version b.version := by
  obtain older | older := distinct.older_or listedA listedB differ
  · exact older.rank_lt.1
  · exact fun meets => older.rank_lt.1 (meets_symm meets)

theorem Distinct.eq_of_rank {releases : List Release} (distinct : Distinct releases) {a b : Release}
    (listedA : a ∈ present releases) (listedB : b ∈ present releases)
    (same : rank a.version = rank b.version) : a = b := by
  by_contra differ
  obtain older | older := distinct.older_or listedA listedB differ
  · exact absurd same older.rank_lt.2.ne
  · exact absurd same older.rank_lt.2.ne'

theorem pairwise_orderedInsert {α : Type} {before : α → α → Prop} [DecidableRel before]
    {less : α → α → Prop} (trans : ∀ {a b c}, less a b → less b c → less a c) {a : α}
    {others : List α} (ordered : others.Pairwise less)
    (against : ∀ b ∈ others, if before a b then less a b else less b a) :
    (others.orderedInsert before a).Pairwise less := by
  induction others with
  | nil => exact List.pairwise_singleton _ _
  | cons b others ih =>
    obtain ⟨least, ordered⟩ := List.pairwise_cons.mp ordered
    have here := against b List.mem_cons_self
    rw [List.orderedInsert]
    split
    · rename_i placed
      rw [if_pos placed] at here
      refine List.pairwise_cons.mpr ⟨fun c member => ?_, List.pairwise_cons.mpr ⟨least, ordered⟩⟩
      obtain rfl | later := List.mem_cons.mp member
      · exact here
      · exact trans here (least c later)
    · rename_i passed
      rw [if_neg passed] at here
      refine List.pairwise_cons.mpr ⟨fun c member => ?_, ?_⟩
      · obtain rfl | other := (List.mem_orderedInsert before).mp member
        · exact here
        · exact least c other
      · exact ih ordered fun c member => against c (List.mem_cons_of_mem _ member)

theorem pairwise_insertionSort {α : Type} {before : α → α → Prop} [DecidableRel before]
    {less : α → α → Prop} (trans : ∀ {a b c}, less a b → less b c → less a c) {items : List α}
    (decides : items.Pairwise fun a b => if before a b then less a b else less b a) :
    (items.insertionSort before).Pairwise less := by
  induction items with
  | nil => exact .nil
  | cons a items ih =>
    obtain ⟨first, rest⟩ := List.pairwise_cons.mp decides
    exact @pairwise_orderedInsert α before _ less trans a _ (ih rest) fun b member =>
      first b ((List.mem_insertionSort before).mp member)

theorem mem_ascending {releases : List Release} {release : Release} :
    release ∈ ascending releases ↔ release ∈ present releases := List.mem_insertionSort _

/-- **The releases are sorted by rank.** -/
theorem Distinct.sorted {releases : List Release} (distinct : Distinct releases) :
    (ascending releases).Pairwise fun a b => rank a.version < rank b.version := by
  refine @pairwise_insertionSort Release _ _ (fun a b => rank a.version < rank b.version)
    (fun first second => lt_trans first second) _ (distinct.imp fun older => ?_)
  obtain older | older := older
  · rw [if_pos]
    · exact older.rank_lt.2
    · rw [older.1]
      nofun
  · rw [if_neg]
    · exact older.rank_lt.2
    · rw [older.2]
      nofun

theorem Distinct.le_getLast? {releases : List Release} (distinct : Distinct releases)
    {version : Text} (last : (ascending releases).getLast?.any (·.version = version) = true)
    {release : Release} (listed : release ∈ present releases) :
    rank release.version ≤ rank version := by
  obtain ⟨top, isLast, same⟩ := (Option.any_eq_true _ _).mp last
  obtain ⟨front, parts⟩ := List.getLast?_eq_some_iff.mp isLast
  rw [← of_decide_eq_true same]
  have sorted := distinct.sorted
  have member := mem_ascending.mpr listed
  rw [parts] at sorted member
  obtain before | same := List.mem_append.mp member
  · exact ((List.pairwise_append.mp sorted).2.2 release before top List.mem_cons_self).le
  · rw [List.mem_singleton.mp same]

/-! ## The ladder of releases -/

theorem ne_gt_of_rank_le {least a b : Text} (within : compareSemver least a ≠ .gt)
    (order : rank a ≤ rank b) :
    compareSemver least b ≠ .gt := by
  have apart : ¬ Meets least a := fun meets => within (compareSemver_of_meets meets)
  rw [compareSemver_eq_ordering apart, ordering_ne_gt] at within
  have still : ¬ Meets least b := fun meets => apart (meets_between within order meets)
  rw [compareSemver_eq_ordering still, ordering_ne_gt]
  exact within.trans order

/-- The release is newer than the version, and its `min_from` is absent or at most that. -/
def Installable (installed : Text) (release : Release) : Prop :=
  compareSemver release.version installed = .gt ∧
    ∀ least, release.minFrom = some least → least ≠ [] → compareSemver least installed ≠ .gt

theorem reachable_iff {installed : Text} {release : Release} :
    reachable installed release = true ↔ Installable installed release := by
  rw [reachable, Installable, Bool.and_eq_true, decide_eq_true_eq]
  refine and_congr_right fun _ => ?_
  cases release.minFrom with
  | none => simp
  | some least => by_cases empty : least = [] <;> simp [Option.filter, empty]

/-- The releases of a manifest, reached by updates. -/
def ladder (releases : List Release) (distinct : Distinct releases) :
    Ladder Text Release (List (WithTop Nat) ×ₗ WithTop (List (WithTop Nat ⊕ₗ List Nat))) where
  place release := release.version
  rank release := rank release.version
  listed release := release ∈ present releases
  hop installed release := release ∈ present releases ∧ Installable installed release
  listed_of_hop hop := hop.1
  up {a b} listed hop := by
    by_cases same : b = a
    · rw [same]
    · have newer := hop.2.1
      rw [compareSemver_eq_ordering (distinct.apart hop.1 listed same), ordering_eq_gt] at newer
      exact newer.le
  keep {a a' b} _ listed order above hop := by
    refine ⟨hop.1, ?_, fun least is some => ne_gt_of_rank_le (hop.2.2 least is some) order⟩
    have differ : b ≠ a' := by
      rintro rfl
      exact lt_irrefl _ above
    rw [compareSemver_eq_ordering (distinct.apart hop.1 listed differ), ordering_eq_gt]
    exact above

/-! ## The walk -/

section
variable {releases : List Release} (distinct : Distinct releases)

theorem mem_filter_reachable {installed : Text} {release : Release} :
    release ∈ (ascending releases).filter (reachable installed) ↔
      (ladder releases distinct).hop installed release := by
  rw [List.mem_filter, mem_ascending, reachable_iff]
  rfl

theorem greatest_of_getLast? {installed : Text} {best : Release}
    (last : ((ascending releases).filter (reachable installed)).getLast? = some best) :
    (ladder releases distinct).Greatest installed best := by
  obtain ⟨front, parts⟩ := List.getLast?_eq_some_iff.mp last
  refine ⟨(mem_filter_reachable distinct).mp (List.mem_of_getLast? last), fun other hop => ?_⟩
  have member := (mem_filter_reachable distinct).mpr hop
  rw [parts] at member
  obtain before | same := List.mem_append.mp member
  · have sorted := distinct.sorted.filter (reachable installed)
    rw [parts] at sorted
    exact ((List.pairwise_append.mp sorted).2.2 other before best List.mem_cons_self).le
  · rw [List.mem_singleton.mp same]

/-- How many releases are above one. -/
def above (releases : List Release) (release : Release) : Nat :=
  ((present releases).filter fun other => rank release.version < rank other.version).length

theorem above_lt_length {release : Release} (listed : release ∈ present releases) :
    above releases release < (ascending releases).length := by
  rw [ascending, List.length_insertionSort, above]
  refine List.length_filter_lt_length_iff_exists.mpr ⟨release, listed, ?_⟩
  simp

theorem above_lt_above {a b : Release} (listed : b ∈ present releases)
    (higher : rank a.version < rank b.version) :
    above releases b < above releases a := by
  have nested : (present releases).filter (fun other => rank b.version < rank other.version) =
      ((present releases).filter fun other => rank a.version < rank other.version).filter
        fun other => rank b.version < rank other.version := by
    rw [List.filter_filter]
    refine List.filter_congr fun other _ => ?_
    rw [← Bool.decide_and, decide_eq_decide]
    exact ⟨fun beyond => ⟨beyond, higher.trans beyond⟩, And.left⟩
  rw [above, nested]
  refine List.length_filter_lt_length_iff_exists.mpr
    ⟨b, List.mem_filter.mpr ⟨listed, decide_eq_true higher⟩, ?_⟩
  simp

/-- **The walk is greedy.** The versions it has come to are no higher than the release it has
come to last, so it never comes to one again. -/
theorem greedyFrom_walk {rounds : Nat} {release : Release} {seen : List Text}
    (listed : release ∈ present releases) (enough : above releases release < rounds)
    (visited : release.version ∈ seen) (passed : ∀ version ∈ seen,
    rank version ≤ rank release.version) :
    (ladder releases distinct).GreedyFrom release
    (walk (ascending releases) rounds release.version seen) := by
  induction rounds generalizing release seen with
  | zero => cases enough
  | succ rounds ih =>
    rw [walk]
    cases last : ((ascending releases).filter (reachable release.version)).getLast? with
    | none =>
      intro other hop
      have member : other ∈ (ascending releases).filter (reachable release.version) :=
        (mem_filter_reachable distinct).mpr hop
      rw [List.getLast?_eq_none_iff.mp last] at member
      cases member
    | some best =>
      have greatest := greatest_of_getLast? distinct last
      have listedBest : best ∈ present releases := greatest.1.1
      simp only []
      split
      · rename_i again
        exact fun other hop => (greatest.2 other hop).trans (passed _ again)
      · rename_i fresh
        have higher : rank release.version < rank best.version := by
          refine lt_of_le_of_ne ((ladder releases distinct).up listed greatest.1) fun same => ?_
          rw [distinct.eq_of_rank listed listedBest same] at visited
          exact fresh visited
        split
        · rename_i final
          exact ⟨greatest, higher, fun other hop => distinct.le_getLast? final hop.1⟩
        · refine ⟨greatest, higher, ih listedBest ?_ List.mem_cons_self fun version visited => ?_⟩
          · exact Nat.lt_of_lt_of_le (above_lt_above listedBest higher) (Nat.le_of_lt_succ enough)
          · obtain rfl | before := List.mem_cons.mp visited
            · exact le_rfl
            · exact (passed version before).trans higher.le

/-- From any version the walk takes the greatest hop and is greedy from there. It is empty
where nothing can be updated to. -/
theorem walk_cases (current : Text) :
    (walk (ascending releases) ((ascending releases).length + 1) current [] = [] ∧
      ∀ release, ¬ (ladder releases distinct).hop current release) ∨
    ∃ best hops, walk (ascending releases) ((ascending releases).length + 1) current [] =
      best :: hops ∧ (ladder releases distinct).Greatest current best ∧
      (ladder releases distinct).GreedyFrom best hops := by
  rw [walk]
  cases last : ((ascending releases).filter (reachable current)).getLast? with
  | none =>
    refine .inl ⟨rfl, fun release hop => ?_⟩
    have member := (mem_filter_reachable distinct).mpr hop
    rw [List.getLast?_eq_none_iff.mp last] at member
    cases member
  | some best =>
    have greatest := greatest_of_getLast? distinct last
    refine .inr ⟨best, ?_⟩
    simp only [List.not_mem_nil, if_false]
    split
    · rename_i final
      exact ⟨[], rfl, greatest, fun other hop => distinct.le_getLast? final hop.1⟩
    · refine ⟨_, rfl, greatest, greedyFrom_walk distinct greatest.1.1 (above_lt_length greatest.1.1)
        List.mem_cons_self fun version visited => ?_⟩
      rw [List.mem_singleton.mp visited]

end

/-! ## What is offered -/

/-- Updates one after another, each from the version the one before it installs. -/
def Updates (releases : List Release) : Text → List Release → Prop
  | _, [] => True
  | installed, release :: rest =>
    release ∈ present releases ∧ Installable installed release ∧
      Updates releases release.version rest

theorem updates_iff {releases : List Release} (distinct : Distinct releases) {installed : Text}
    {hops : List Release} :
    Updates releases installed hops ↔ (ladder releases distinct).Path installed hops := by
  induction hops generalizing installed with
  | nil => exact ⟨fun _ => .nil _, fun _ => trivial⟩
  | cons release rest ih =>
    constructor
    · rintro ⟨listed, installable, later⟩
      exact .cons ⟨listed, installable⟩ (ih.mp later)
    · intro path
      cases path with
      | cons hop later => exact ⟨hop.1, hop.2, ih.mpr later⟩

theorem Updates.mem_present {releases : List Release} {installed : Text} {hops : List Release}
    (updates : Updates releases installed hops) {release : Release} (member : release ∈ hops) :
    release ∈ present releases := by
  induction hops generalizing installed with
  | nil => cases member
  | cons hop rest ih =>
    obtain rfl | later := List.mem_cons.mp member
    · exact updates.1
    · exact ih updates.2.2 later

theorem Distinct.older_or_eq {releases : List Release} (distinct : Distinct releases)
    {a b : Release} (listedA : a ∈ present releases) (listedB : b ∈ present releases)
    (order : rank a.version ≤ rank b.version) : Older a.version b.version ∨ a = b := by
  by_cases same : a = b
  · exact .inr same
  · obtain older | older := distinct.older_or listedA listedB same
    · exact .inl older
    · exact absurd order (not_le.mpr older.rank_lt.2)

theorem computeBestTarget_eq {releases : List Release} {current : Text} (known : current ≠ [])
    {hops : List Release} (walked : walk (ascending releases) ((ascending releases).length + 1)
    current [] = hops) (newer : hops ≠ [] → ∃ release ∈ ascending releases,
    compareSemver release.version current = .gt) :
    (computeBestTarget current releases).map (fun offer => (offer.target, offer.chain)) =
      (hops.map (·.version)).getLast?.map fun target => (target, hops.map (·.version)) := by
  rw [computeBestTarget, if_neg known]
  split
  · rename_i none
    cases hops with
    | nil => rfl
    | cons hop hops =>
      obtain ⟨release, listed, higher⟩ := newer (List.cons_ne_nil _ _)
      have member : release ∈ (ascending releases).filter
          fun release => compareSemver release.version current = .gt := by
        rw [List.mem_filter, decide_eq_true_eq]
        exact ⟨listed, higher⟩
      rw [none] at member
      cases member
  · rw [walked, Option.map_map]
    rfl

/-- **The offered path is the best one.** -/
theorem offered_path_is_best {releases : List Release} (distinct : Distinct releases)
    (current : Text) :
    (computeBestTarget current releases = none ↔
      current = [] ∨ ¬ ∃ release ∈ present releases, Installable current release) ∧
    ∀ offer, computeBestTarget current releases = some offer →
      ∃ hops, Updates releases current hops ∧ offer.chain = hops.map (·.version) ∧
        offer.chain.getLast? = some offer.target ∧
        ∀ path last, Updates releases current path → path.getLast? = some last →
          Older last.version offer.target ∨ last.version = offer.target ∧
          hops.length ≤ path.length := by
  by_cases empty : current = []
  · have none : computeBestTarget current releases = none := by
      rw [computeBestTarget, if_pos empty]
    refine ⟨⟨fun _ => .inl empty, fun _ => none⟩, fun offer some => ?_⟩
    rw [none] at some
    cases some
  obtain ⟨walked, stuck⟩ | ⟨best, hops, walked, greatest, greedy⟩ := walk_cases distinct current
  · have none := computeBestTarget_eq empty walked fun some => absurd rfl some
    rw [List.map_nil, List.getLast?_nil, Option.map_none, Option.map_eq_none_iff] at none
    refine ⟨⟨fun _ => .inr ?_, fun _ => none⟩, fun offer some => ?_⟩
    · rintro ⟨release, listed, installable⟩
      exact stuck release ⟨listed, installable⟩
    · rw [none] at some
      cases some
  · have path : Updates releases current (best :: hops) :=
      (updates_iff distinct).mpr (.cons greatest.1 greedy.path)
    have offered := computeBestTarget_eq empty walked fun _ =>
      ⟨best, mem_ascending.mpr path.1, path.2.1.1⟩
    have topLast : (best :: hops).getLast? = some (hops.getLastD best) := by
      rw [List.getLast?_cons, List.getLastD_eq_getLast?]
    rw [List.getLast?_map, topLast, Option.map_some, Option.map_some] at offered
    refine ⟨⟨fun none => ?_, fun nothing => ?_⟩, fun offer some => ?_⟩
    · rw [none] at offered
      cases offered
    · exact absurd ⟨best, path.1, path.2.1⟩ (nothing.resolve_left empty)
    · rw [some, Option.map_some] at offered
      obtain ⟨target, chain⟩ := Prod.mk.inj (Option.some.inj offered)
      refine ⟨best :: hops, path, chain, ?_, fun others last updates isLast => ?_⟩
      · rw [chain, target, List.getLast?_map, topLast, Option.map_some]
      cases others with
      | nil => cases isLast
      | cons other others =>
        obtain ⟨highest, fewest⟩ := Ladder.best_of_greedy greatest greedy
          ((updates_iff distinct).mp updates)
        have final : others.getLastD other = last := by
          rw [List.getLast?_cons, ← List.getLastD_eq_getLast?] at isLast
          exact Option.some.inj isLast
        have listed : last ∈ present releases := updates.mem_present (List.mem_of_getLast? isLast)
        have listedTop : hops.getLastD best ∈ present releases :=
          path.mem_present (List.mem_of_getLast? topLast)
        rw [final] at highest fewest
        rw [target]
        refine (distinct.older_or_eq listed listedTop highest).imp id fun same =>
          ⟨congrArg _ same, ?_⟩
        exact Nat.succ_le_succ (fewest (congrArg _ same))

/-- `1.2.0` takes `1.1.0` first. -/
def stepped : List Release :=
  [⟨"1.2.0".toList, some "1.1.0".toList, none⟩, ⟨"1.1.0".toList, none, none⟩]

theorem stepped_distinct : Distinct stepped := by
  refine List.Pairwise.cons (fun other member => .inr ?_) (List.pairwise_singleton _ _)
  rw [List.mem_singleton.mp member]
  exact ⟨by decide, by decide⟩

theorem offered_path_of_stepped :
    (computeBestTarget "1.0.0".toList stepped).map (·.chain) = some ["1.1.0".toList, "1.2.0".toList]
      ∧ ∀ offer, computeBestTarget "1.0.0".toList stepped = some offer →
        ∃ hops, Updates stepped "1.0.0".toList hops ∧ offer.chain = hops.map (·.version) := by
  refine ⟨by decide, fun offer some => ?_⟩
  obtain ⟨hops, updates, chain, -⟩ :=
    (offered_path_is_best stepped_distinct "1.0.0".toList).2 offer some
  exact ⟨hops, updates, chain⟩

end ReleasesManifest

end Cidrella
