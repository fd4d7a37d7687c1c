import Mathlib.Data.List.TakeWhile
import Cidrella.Address

/-!
# One spelling for each address

Writing an address and reading the text gives the address back
(`parseIp_formatIp_v4`, `parseIp_formatIp_v6`), except that a 128-bit value in the
IPv4-mapped block is read as the IPv4 address in its low 32 bits
(`parseIp_formatIp_mapped`). A text that is read at all is read as an address whose
canonical spelling reads back (`parseIp_formatIp_of_parseIp`), so the canonical
spelling determines the address.

The canonical spelling leaves out one run of zero groups. Which run does not matter for
reading: `bestZeroRun_cut` says only that what was left out is a run of zero groups, and
`parseV6_compressed` fills any such run in again.
-/

set_option autoImplicit false

namespace Cidrella

namespace Address

open Text

/-! ## Texts made of digits and separators -/

/-- The characters a canonical spelling is made of. -/
def isPlain (c : Char) : Bool := isHexDigit c || c = ':' || c = '.'

theorem char_le_iff (c d : Char) : c ≤ d ↔ c.toNat ≤ d.toNat := Iff.rfl

theorem isTrimmed_of_isPlain {c : Char} (plain : isPlain c = true) : isTrimmed c = false := by
  simp only [isPlain, isHexDigit, Bool.or_eq_true, Bool.and_eq_true, decide_eq_true_eq,
    char_le_iff, ← Char.toNat_inj, Char.reduceToNat] at plain
  simp only [isTrimmed, List.mem_cons, List.not_mem_nil, or_false, Bool.or_eq_false_iff,
    decide_eq_false_iff_not, Bool.and_eq_false_iff, char_le_iff, ← Char.toNat_inj,
    Char.reduceToNat]
  omega

theorem trim_eq_self {text : Text} (solid : ∀ c ∈ text, isTrimmed c = false) :
    trim text = text := by
  have keep : ∀ t : Text, (∀ c ∈ t, isTrimmed c = false) → t.dropWhile isTrimmed = t := by
    intro t solid
    cases t with
    | nil => rfl
    | cons c rest => simp [solid c (by simp)]
  rw [trim, keep text solid, keep text.reverse (fun c member => solid c (by simpa using member)),
    List.reverse_reverse]

theorem trim_of_isPlain {text : Text} (plain : ∀ c ∈ text, isPlain c = true) : trim text = text :=
  trim_eq_self fun c member => isTrimmed_of_isPlain (plain c member)

theorem parseIp_of_zoneless {text : Text} {mapV4 : Bool} {parsed : ParsedIp}
    (read : parseIp text { zoneId := false, mapV4 := mapV4 } = some parsed) :
    parseIp text { mapV4 := mapV4 } = some parsed := by
  rw [← read, parseIp, parseIp]
  rw [parseIp] at read
  by_cases empty : trim text = []
  · rw [if_pos empty, if_pos empty]
  · rw [if_neg empty] at read
    rw [if_neg empty, if_neg empty]
    cases zone : (splitZone (trim text)).2 with
    | none => simp only [zone, Option.isSome_none, Bool.false_and]
    | some name => simp [zone] at read

theorem ne_percent_of_isPlain {c : Char} (plain : isPlain c = true) : c ≠ '%' := by
  rintro rfl
  exact absurd plain (by decide)

theorem splitZone_of_isPlain {text : Text} (plain : ∀ c ∈ text, isPlain c = true) :
    splitZone text = (text, none) := by
  have gone : text.dropWhile (· ≠ '%') = [] := by
    rw [List.dropWhile_eq_nil_iff]
    intro c member
    simpa using ne_percent_of_isPlain (plain c member)
  simp only [splitZone, gone]

theorem mem_intercalate_singleton {sep c : Char} {parts : List Text}
    (member : c ∈ [sep].intercalate parts) : c = sep ∨ ∃ part ∈ parts, c ∈ part := by
  induction parts with
  | nil => simp at member
  | cons part parts ih =>
    cases parts with
    | nil => exact .inr ⟨part, by simp, by simpa using member⟩
    | cons next parts =>
      rw [List.intercalate_cons_cons] at member
      rcases List.mem_append.mp member with member | member
      · rcases List.mem_append.mp member with member | member
        · exact .inr ⟨part, by simp, member⟩
        · exact .inl (by simpa using member)
      · rcases ih member with same | ⟨other, within, found⟩
        · exact .inl same
        · exact .inr ⟨other, by simp [within], found⟩

theorem mapM_map_of_left_inverse {α β : Type} {read : β → Option α} {write : α → β} :
    ∀ {xs : List α}, (∀ x ∈ xs, read (write x) = some x) → (xs.map write).mapM read = some xs
  | [], _ => rfl
  | x :: xs, inverse => by
      rw [List.map_cons, List.mapM_cons, inverse x (by simp),
        mapM_map_of_left_inverse fun y member => inverse y (by simp [member])]
      rfl

theorem length_of_mapM_eq_some {α β : Type} {read : β → Option α} :
    ∀ {texts : List β} {values : List α}, texts.mapM read = some values →
      values.length = texts.length ∧ ∀ value ∈ values, ∃ text ∈ texts, read text = some value
  | [], values, done => by
      obtain rfl : values = [] := by simpa using done.symm
      simp
  | text :: texts, values, done => by
      rw [List.mapM_cons] at done
      cases first : read text with
      | none => simp [first] at done
      | some value =>
        cases rest : texts.mapM read with
        | none => simp [first, rest] at done
        | some others =>
          obtain rfl : value :: others = values := by simpa [first, rest] using done
          obtain ⟨sameLength, origin⟩ := length_of_mapM_eq_some rest
          refine ⟨by simp [sameLength], ?_⟩
          intro v member
          rcases List.mem_cons.mp member with rfl | member
          · exact ⟨text, by simp, first⟩
          · obtain ⟨t, within, readT⟩ := origin v member
            exact ⟨t, by simp [within], readT⟩

/-! ## Dotted quads -/

theorem isDigit_of_mem_decimal {n : Nat} {c : Char} (member : c ∈ Nat.toDigits 10 n) :
    c.isDigit = true :=
  Nat.isDigit_of_mem_toDigits (by decide) (by decide) member

theorem parseOctet_toDigits {n : Nat} (small : n < 256) : parseOctet (Nat.toDigits 10 n) =
    some n := by
  have short : (Nat.toDigits 10 n).length ≤ 3 :=
    (Nat.length_toDigits_le_iff (by decide) (by decide)).mpr (by omega)
  have octet : isOctet (Nat.toDigits 10 n) = true := by
    simp only [isOctet, Bool.and_eq_true, decide_eq_true_eq, List.all_eq_true]
    exact ⟨⟨Nat.length_toDigits_pos, short⟩, fun c member => isDigit_of_mem_decimal member⟩
  have within : readDigits 10 (Nat.toDigits 10 n) ≤ 255 := by
    rw [readDigits_toDigits (by decide) (by decide)]
    omega
  rw [parseOctet, octet, decide_eq_true within, readDigits_toDigits (by decide) (by decide)]
  rfl

theorem dot_not_mem_decimal (n : Nat) : '.' ∉ Nat.toDigits 10 n := fun member =>
  absurd (isDigit_of_mem_decimal member) (by decide)

theorem parseV4_quad (value : Nat) :
    parseV4 (['.'].intercalate ((groups 8 4 value).map (Nat.toDigits 10))) =
      some (value % 2 ^ 32) := by
  have cut : (['.'].intercalate ((groups 8 4 value).map (Nat.toDigits 10))).splitOn '.' =
      (groups 8 4 value).map (Nat.toDigits 10) := by
    refine List.splitOn_intercalate '.' ?_ (by simp [groups])
    intro text member
    obtain ⟨n, -, rfl⟩ := List.mem_map.mp member
    exact dot_not_mem_decimal n
  have octets : ((groups 8 4 value).map (Nat.toDigits 10)).mapM parseOctet =
      some (groups 8 4 value) :=
    mapM_map_of_left_inverse fun n member => parseOctet_toDigits (lt_of_mem_groups member)
  rw [parseV4, cut, List.length_map, length_groups, octets]
  simp [joinGroups_groups_mod]

theorem parseV4_lt {text : Text} {value : Nat} (done : parseV4 text = some value) :
    value < 2 ^ 32 := by
  simp only [parseV4] at done
  split at done
  · simp at done
  · rename_i four
    cases read : (text.splitOn '.').mapM parseOctet with
    | none => simp [read] at done
    | some values =>
      obtain rfl : joinGroups 8 values = value := by simpa [read] using done
      obtain ⟨sameLength, origin⟩ := length_of_mapM_eq_some read
      have bounded : ∀ part ∈ values, part < 2 ^ 8 := by
        intro part member
        obtain ⟨octet, -, readOctet⟩ := origin part member
        simp only [parseOctet] at readOctet
        split at readOctet
        · rename_i ok
          simp only [Bool.and_eq_true, decide_eq_true_eq] at ok
          obtain rfl := Option.some.inj readOctet
          omega
        · simp at readOctet
      have total := joinGroups_lt bounded
      rw [sameLength, not_not.mp four] at total
      exact total

/-! ## Hextets -/

theorem isHexDigit_of_mem_hex {n : Nat} {c : Char} (member : c ∈ Nat.toDigits 16 n) :
    isHexDigit c = true :=
  forall_mem_toDigits (by decide) (fun c => isHexDigit c = true)
    (fun _ small => isHexDigit_digitChar small) n c member

theorem parseGroup_toDigits {n : Nat} (small : n < 2 ^ 16) :
    parseGroup (Nat.toDigits 16 n) = some n := by
  have short : (Nat.toDigits 16 n).length ≤ 4 :=
    (Nat.length_toDigits_le_iff (by decide) (by decide)).mpr (by omega)
  have group : isGroup (Nat.toDigits 16 n) = true := by
    simp only [isGroup, Bool.and_eq_true, decide_eq_true_eq, List.all_eq_true]
    exact ⟨⟨Nat.length_toDigits_pos, short⟩, fun c member => isHexDigit_of_mem_hex member⟩
  rw [parseGroup, if_pos group, readDigits_toDigits (by decide) (by decide)]

theorem digitValue_lt_of_isHexDigit {c : Char} (hex : isHexDigit c = true) : digitValue c < 16 := by
  simp only [isHexDigit, Bool.or_eq_true, Bool.and_eq_true, decide_eq_true_eq, char_le_iff,
    Char.reduceToNat] at hex
  simp only [digitValue, char_le_iff, Char.reduceToNat]
  split_ifs <;> omega

theorem parseGroup_lt {text : Text} {value : Nat} (done : parseGroup text = some value) :
    value < 2 ^ 16 := by
  simp only [parseGroup] at done
  split at done
  · rename_i group
    simp only [isGroup, Bool.and_eq_true, decide_eq_true_eq, List.all_eq_true] at group
    obtain rfl := Option.some.inj done
    have bounded : ∀ c ∈ text, digitValue c < 16 := fun c member =>
      digitValue_lt_of_isHexDigit (group.2 c member)
    calc readDigits 16 text < 16 ^ text.length := readDigits_lt bounded
      _ ≤ 16 ^ 4 := Nat.pow_le_pow_right (by decide) group.1.2
      _ = 2 ^ 16 := by norm_num
  · simp at done

/-- The texts of the eight groups of a value. -/
def hextets (value : Nat) : List Text := (groups 16 8 value).map (Nat.toDigits 16)

theorem length_hextets (value : Nat) : (hextets value).length = 8 := by
  rw [hextets, List.length_map, length_groups]

theorem hextets_forall (P : Text → Prop) (numeral : ∀ n, P (Nat.toDigits 16 n)) {value : Nat} :
    ∀ part ∈ hextets value, P part := by
  intro part member
  obtain ⟨n, -, rfl⟩ := List.mem_map.mp member
  exact numeral n

theorem isHexDigit_of_mem_hextets {value : Nat} :
    ∀ part ∈ hextets value, ∀ c ∈ part, isHexDigit c = true :=
  hextets_forall _ fun _ _ member => isHexDigit_of_mem_hex member

theorem colon_not_mem_hextets {value : Nat} : ∀ part ∈ hextets value, ':' ∉ part :=
  hextets_forall _ fun _ member => absurd (isHexDigit_of_mem_hex member) (by decide)

theorem dot_not_mem_hextets {value : Nat} : ∀ part ∈ hextets value, '.' ∉ part :=
  hextets_forall _ fun _ member => absurd (isHexDigit_of_mem_hex member) (by decide)

theorem hextets_ne_nil {value : Nat} : ∀ part ∈ hextets value, part ≠ [] :=
  hextets_forall _ fun _ => Nat.toDigits_ne_nil

theorem mapM_parseGroup_hextets (value : Nat) :
    (hextets value).mapM parseGroup = some (groups 16 8 value) :=
  mapM_map_of_left_inverse fun _ member => parseGroup_toDigits (lt_of_mem_groups member)

theorem colonParts_intercalate {parts : List Text} (absent : ∀ part ∈ parts, ':' ∉ part)
    (nonempty : ∀ part ∈ parts, part ≠ []) : colonParts ([':'].intercalate parts) = parts := by
  cases parts with
  | nil => rfl
  | cons part parts =>
    have start : [':'].intercalate (part :: parts) ≠ [] := by
      intro empty
      cases parts with
      | nil => exact nonempty part (by simp) (by simpa using empty)
      | cons next parts => simp [List.intercalate_cons_cons] at empty
    rw [colonParts, if_neg start, List.splitOn_intercalate ':' absent (by simp)]

theorem trailingQuad_of_dot_not_mem {parts : List Text} (absent : ∀ part ∈ parts, '.' ∉ part) :
    trailingQuad parts = false := by
  unfold trailingQuad
  split
  · rename_i last found
    simpa using absent last (List.mem_of_getLast? found)
  · rfl

/-! ## The run of zero groups that is left out -/

/-- The groups from `start` on, `length` of them, are zero. -/
def ZeroRunAt (parts : List Text) (run : Nat × Nat) : Prop :=
  parts = parts.take run.1 ++ List.replicate run.2 ['0'] ++ parts.drop (run.1 + run.2)

theorem zeroRunAt_empty (parts : List Text) (start : Nat) : ZeroRunAt parts (start, 0) := by
  simp [ZeroRunAt]

theorem zeroRunAt_zeroRun (parts : List Text) (start : Nat) :
    ZeroRunAt parts (start, zeroRun (parts.drop start)) := by
  have front : List.replicate (zeroRun (parts.drop start)) ['0'] =
      (parts.drop start).takeWhile (· = ['0']) := by
    refine (List.eq_replicate_iff.mpr ⟨rfl, ?_⟩).symm
    intro part member
    simpa using List.mem_takeWhile_imp member
  have rest : parts.drop (start + zeroRun (parts.drop start)) =
      (parts.drop start).dropWhile (· = ['0']) := by
    have whole := List.takeWhile_append_dropWhile (p := (· = ['0'])) (l := parts.drop start)
    have cut := congrArg (List.drop (zeroRun (parts.drop start))) whole
    rw [← List.drop_drop, ← cut]
    exact List.drop_left
  rw [ZeroRunAt, front, rest, List.append_assoc, List.takeWhile_append_dropWhile,
    List.take_append_drop]

theorem zeroRunAt_bestZeroRun (parts : List Text) (fuel i : Nat) (best : Nat × Nat)
    (start : ZeroRunAt parts best) : ZeroRunAt parts (bestZeroRun parts fuel i best) := by
  induction fuel generalizing i best with
  | zero => exact start
  | succ fuel ih =>
    rw [bestZeroRun]
    split
    · exact start
    · split
      · exact ih _ _ start
      · refine ih _ _ ?_
        split
        · exact zeroRunAt_zeroRun parts i
        · exact start

theorem bestZeroRun_cut (parts : List Text) :
    ZeroRunAt parts (bestZeroRun parts 8 0 (0, 0)) :=
  zeroRunAt_bestZeroRun parts 8 0 (0, 0) (zeroRunAt_empty parts 0)

theorem ZeroRunAt.length_eq {parts : List Text} {run : Nat × Nat} (zeros : ZeroRunAt parts run)
    (eight : parts.length = 8) :
    (parts.take run.1).length + run.2 + (parts.drop (run.1 + run.2)).length = 8 := by
  have lengths := congrArg List.length zeros
  rw [List.length_append, List.length_append, List.length_replicate, eight] at lengths
  exact lengths.symm

/-! ## Reading the canonical IPv6 spelling -/

theorem joinGroups_groups_hextets {value : Nat} (fits : value < 2 ^ 128) :
    joinGroups 16 (groups 16 8 value) = value :=
  joinGroups_groups fits

theorem joinHextets_full {value : Nat} (fits : value < 2 ^ 128) :
    joinHextets false 8 (hextets value) none = some value := by
  simp only [joinHextets, Bool.false_and, Bool.false_eq_true, if_false, length_hextets,
    mapM_parseGroup_hextets, Option.isNone_none, if_true]
  exact congrArg some (joinGroups_groups_hextets fits)

theorem joinHextets_compressed {value : Nat} (fits : value < 2 ^ 128) {run : Nat × Nat}
    (zeros : ZeroRunAt (hextets value) run) (two : 2 ≤ run.2) :
    joinHextets true ((hextets value).take run.1).length
      ((hextets value).take run.1 ++ (hextets value).drop (run.1 + run.2)) none = some value := by
  have lengths := zeros.length_eq (length_hextets value)
  set head := (hextets value).take run.1 with headDef
  set tail := (hextets value).drop (run.1 + run.2) with tailDef
  have room : ¬ 8 ≤ (head ++ tail).length := by
    rw [List.length_append]
    omega
  have missing : 8 - (head ++ tail).length = run.2 := by
    rw [List.length_append]
    omega
  have filled : head ++ List.replicate run.2 ['0'] ++ tail = hextets value := zeros.symm
  simp only [joinHextets, Option.isNone_none, if_true, Bool.true_and, decide_eq_true_eq, room,
    if_false, missing, List.take_left, List.drop_left, filled, length_hextets,
    mapM_parseGroup_hextets]
  exact congrArg some (joinGroups_groups_hextets fits)

theorem parseV6_full {value : Nat} (fits : value < 2 ^ 128) (embeddedV4 : Bool) :
    parseV6 ([':'].intercalate (hextets value)) embeddedV4 = some value := by
  have absent : ∀ part ∈ hextets value, ':' ∉ part := colon_not_mem_hextets
  have nonempty : ∀ part ∈ hextets value, part ≠ [] := hextets_ne_nil
  have undotted : ∀ part ∈ hextets value, '.' ∉ part := dot_not_mem_hextets
  simp only [parseV6, splitDouble_intercalate absent nonempty, Option.any_none, Bool.false_eq_true,
    if_false, colonParts_intercalate absent nonempty, Option.isSome_none]
  simp only [colonParts, if_true, List.append_nil, trailingQuad_of_dot_not_mem undotted,
    Bool.false_eq_true, if_false, length_hextets]
  exact joinHextets_full fits

theorem parseV6_compressed {value : Nat} (fits : value < 2 ^ 128) (embeddedV4 : Bool)
    {run : Nat × Nat} (zeros : ZeroRunAt (hextets value) run) (two : 2 ≤ run.2) :
    parseV6 ([':'].intercalate ((hextets value).take run.1) ++ ':' :: ':' ::
      [':'].intercalate ((hextets value).drop (run.1 + run.2))) embeddedV4 = some value := by
  have headIn : ∀ part ∈ (hextets value).take run.1, part ∈ hextets value :=
    fun _ member => List.mem_of_mem_take member
  have tailIn : ∀ part ∈ (hextets value).drop (run.1 + run.2), part ∈ hextets value :=
    fun _ member => List.mem_of_mem_drop member
  have headAbsent : ∀ part ∈ (hextets value).take run.1, ':' ∉ part :=
    fun part member => colon_not_mem_hextets part (headIn part member)
  have headNonempty : ∀ part ∈ (hextets value).take run.1, part ≠ [] :=
    fun part member => hextets_ne_nil part (headIn part member)
  have tailAbsent : ∀ part ∈ (hextets value).drop (run.1 + run.2), ':' ∉ part :=
    fun part member => colon_not_mem_hextets part (tailIn part member)
  have tailNonempty : ∀ part ∈ (hextets value).drop (run.1 + run.2), part ≠ [] :=
    fun part member => hextets_ne_nil part (tailIn part member)
  have noQuad : trailingQuad ((hextets value).take run.1 ++
      (hextets value).drop (run.1 + run.2)) = false := by
    refine trailingQuad_of_dot_not_mem fun part member => ?_
    rcases List.mem_append.mp member with member | member
    · exact dot_not_mem_hextets part (headIn part member)
    · exact dot_not_mem_hextets part (tailIn part member)
  simp only [parseV6, splitDouble_append headAbsent headNonempty, Option.any_some,
    splitDouble_sep_intercalate tailAbsent tailNonempty, Option.isSome_none, Bool.false_eq_true,
    if_false, colonParts_intercalate headAbsent headNonempty,
    colonParts_intercalate tailAbsent tailNonempty, noQuad, Option.isSome_some]
  exact joinHextets_compressed fits zeros two

theorem parseV6_formatIp {value : Nat} (fits : value < 2 ^ 128) (embeddedV4 : Bool) :
    parseV6 (formatIp value ipv6Bits) embeddedV4 = some value := by
  have wide : ¬ ipv6Bits = ipv4Bits := by decide
  rw [formatIp, if_neg wide]
  change parseV6 (if 2 ≤ (bestZeroRun (hextets value) 8 0 (0, 0)).2 then _ else _) embeddedV4 = _
  split
  · rename_i two
    exact parseV6_compressed fits embeddedV4 (bestZeroRun_cut _) two
  · exact parseV6_full fits embeddedV4

theorem joinGroups_lt_of_mapM {texts : List Text} {values : List Nat}
    (read : texts.mapM parseGroup = some values) :
    joinGroups 16 values < 2 ^ (16 * texts.length) := by
  obtain ⟨sameLength, origin⟩ := length_of_mapM_eq_some read
  have bounded : ∀ part ∈ values, part < 2 ^ 16 := by
    intro part member
    obtain ⟨text, -, readText⟩ := origin part member
    exact parseGroup_lt readText
  have total := joinGroups_lt bounded
  rwa [sameLength] at total

theorem joinHextets_lt {hasDoubleColon : Bool} {headCount : Nat} {parts : List Text}
    {trailing : Option Nat} {value : Nat} (small : ∀ quad ∈ trailing, quad < 2 ^ 32)
    (done : joinHextets hasDoubleColon headCount parts trailing = some value) :
    value < 2 ^ 128 := by
  simp only [joinHextets] at done
  generalize groupCountDef : (if trailing.isNone then 8 else 6) = groupCount at done
  generalize (if hasDoubleColon then _ else parts) = filled at done
  by_cases full : (hasDoubleColon && decide (groupCount ≤ parts.length)) = true
  · simp [full] at done
  · by_cases count : filled.length = groupCount
    · cases read : filled.mapM parseGroup with
      | none => simp [full, count, read] at done
      | some values =>
        have total := joinGroups_lt_of_mapM read
        rw [count] at total
        cases trailing with
        | none =>
          obtain rfl : joinGroups 16 values = value := by
            simpa [full, count, read] using done
          subst groupCountDef
          exact total
        | some quad =>
          obtain rfl : (joinGroups 16 values <<< 32) + quad = value := by
            simpa [full, count, read] using done
          have low := small quad rfl
          subst groupCountDef
          rw [Nat.shiftLeft_eq]
          norm_num at total low ⊢
          omega
    · simp [full, count] at done

theorem parseV6_lt {text : Text} {embeddedV4 : Bool} {value : Nat}
    (done : parseV6 text embeddedV4 = some value) : value < 2 ^ 128 := by
  simp only [parseV6] at done
  generalize colonParts _ = headParts at done
  generalize colonParts _ = tailParts at done
  split at done
  · simp at done
  · split at done
    · split at done
      · simp at done
      · split at done
        · simp at done
        · obtain ⟨quad, readQuad, done⟩ := Option.bind_eq_some_iff.mp done
          refine joinHextets_lt ?_ done
          intro q same
          obtain rfl := Option.some.inj same
          exact parseV4_lt readQuad
    · exact joinHextets_lt (by simp) done

/-! ## The IPv4-mapped block -/

theorem and_v4MappedMask {value : Nat} (fits : value < 2 ^ 128) :
    value &&& v4MappedMask = value / 2 ^ 32 * 2 ^ 32 := by
  have mask : v4MappedMask = (2 ^ 96 - 1) * 2 ^ 32 := by decide
  have high : value / 2 ^ 32 < 2 ^ 96 := by omega
  refine Nat.eq_of_testBit_eq fun i => ?_
  rw [Nat.testBit_and, mask, Nat.testBit_mul_two_pow, Nat.testBit_mul_two_pow,
    Nat.testBit_two_pow_sub_one]
  by_cases low : 32 ≤ i
  · simp only [low, decide_true, Bool.true_and]
    rw [Nat.testBit_div_two_pow, Nat.sub_add_cancel low]
    by_cases top : i - 32 < 96
    · simp [top]
    · have past : value.testBit i = false :=
        Nat.testBit_lt_two_pow (lt_of_lt_of_le fits (Nat.pow_le_pow_right (by decide) (by omega)))
      simp [past]
  · simp [low]

/-- The test `parseIp` makes is membership in `::ffff:0:0/96`. -/
theorem mapped_iff {value : Nat} (fits : value < 2 ^ 128) :
    (value &&& v4MappedMask == v4MappedPrefix) = true ↔ value / 2 ^ 32 = 0xffff := by
  rw [beq_iff_eq, and_v4MappedMask fits, v4MappedPrefix_eq]
  omega

theorem and_low32 (value : Nat) : value &&& 0xffffffff = value % 2 ^ 32 :=
  Nat.and_two_pow_sub_one_eq_mod value 32

/-! ## Reading what was written -/

theorem isPlain_of_isHexDigit {c : Char} (hex : isHexDigit c = true) : isPlain c = true := by
  simp [isPlain, hex]

theorem isHexDigit_of_isDigit {c : Char} (digit : c.isDigit = true) : isHexDigit c = true := by
  simp only [Char.isDigit, Bool.and_eq_true, decide_eq_true_eq] at digit
  simp only [isHexDigit, Bool.or_eq_true, Bool.and_eq_true, decide_eq_true_eq, Char.le_def]
  exact .inl (.inl digit)

theorem isPlain_of_mem_intercalate {sep c : Char} {parts : List Text}
    (plainSep : isPlain sep = true) (hex : ∀ part ∈ parts, ∀ c ∈ part, isHexDigit c = true)
    (member : c ∈ [sep].intercalate parts) : isPlain c = true := by
  rcases mem_intercalate_singleton member with rfl | ⟨part, within, found⟩
  · exact plainSep
  · exact isPlain_of_isHexDigit (hex part within c found)

theorem isPlain_of_mem_formatIp {value bits : Nat} :
    ∀ c ∈ formatIp value bits, isPlain c = true := by
  intro c member
  rw [formatIp] at member
  split at member
  · refine isPlain_of_mem_intercalate (by decide) ?_ member
    intro part within d found
    obtain ⟨n, -, rfl⟩ := List.mem_map.mp within
    exact isHexDigit_of_isDigit (isDigit_of_mem_decimal found)
  · have hex : ∀ part ∈ hextets value, ∀ c ∈ part, isHexDigit c = true :=
      isHexDigit_of_mem_hextets
    change c ∈ (if 2 ≤ (bestZeroRun (hextets value) 8 0 (0, 0)).2 then _ else _) at member
    split at member
    · rcases List.mem_append.mp member with member | member
      · exact isPlain_of_mem_intercalate (by decide)
          (fun part within => hex part (List.mem_of_mem_take within)) member
      · rcases List.mem_cons.mp member with rfl | member
        · decide
        · rcases List.mem_cons.mp member with rfl | member
          · decide
          · exact isPlain_of_mem_intercalate (by decide)
              (fun part within => hex part (List.mem_of_mem_drop within)) member
    · exact isPlain_of_mem_intercalate (by decide) hex member

theorem colon_mem_intercalate {first second : Text} {parts : List Text} :
    ':' ∈ [':'].intercalate (first :: second :: parts) := by
  simp [List.intercalate_cons_cons]

theorem colon_mem_formatIp (value : Nat) : ':' ∈ formatIp value ipv6Bits := by
  have wide : ¬ ipv6Bits = ipv4Bits := by decide
  rw [formatIp, if_neg wide]
  change ':' ∈ (if 2 ≤ (bestZeroRun (hextets value) 8 0 (0, 0)).2 then _ else _)
  split
  · simp
  · exact colon_mem_intercalate

theorem colon_not_mem_quad (value : Nat) : ':' ∉ formatIp value ipv4Bits := by
  rw [formatIp, if_pos rfl]
  intro member
  rcases mem_intercalate_singleton member with same | ⟨part, within, found⟩
  · exact absurd same (by decide)
  · obtain ⟨n, -, rfl⟩ := List.mem_map.mp within
    exact absurd (isDigit_of_mem_decimal found) (by decide)

theorem formatIp_ne_nil (value bits : Nat) : formatIp value bits ≠ [] := by
  rw [formatIp]
  split
  · simp [groups, List.intercalate_cons_cons]
  · change (if 2 ≤ (bestZeroRun (hextets value) 8 0 (0, 0)).2 then _ else _) ≠ []
    split
    · simp
    · exact List.ne_nil_of_mem colon_mem_intercalate

theorem parseIp_formatIp_v4 {value : Nat} (fits : value < 2 ^ 32) :
    parseIp (formatIp value ipv4Bits) = some ⟨value, ipv4Bits, none⟩ := by
  have plain : ∀ c ∈ formatIp value ipv4Bits, isPlain c = true := isPlain_of_mem_formatIp
  simp only [parseIp, trim_of_isPlain plain, formatIp_ne_nil, if_false, splitZone_of_isPlain plain,
    Option.isSome_none, Bool.false_and, Bool.false_eq_true, colon_not_mem_quad]
  rw [formatIp, if_pos rfl, parseV4_quad, Nat.mod_eq_of_lt fits]
  rfl

theorem parseIp_formatIp_ipv6Bits {value : Nat} (fits : value < 2 ^ 128) :
    parseIp (formatIp value ipv6Bits) =
      if value / 2 ^ 32 = 0xffff then some ⟨value % 2 ^ 32, ipv4Bits, none⟩
      else some ⟨value, ipv6Bits, none⟩ := by
  have plain : ∀ c ∈ formatIp value ipv6Bits, isPlain c = true := isPlain_of_mem_formatIp
  simp only [parseIp, trim_of_isPlain plain, formatIp_ne_nil, if_false, splitZone_of_isPlain plain,
    Option.isSome_none, Bool.false_and, Bool.false_eq_true, colon_mem_formatIp, if_true,
    parseV6_formatIp fits, Bool.true_and, and_low32]
  rw [Option.bind_eq_bind, Option.bind_some]
  by_cases mapped : value / 2 ^ 32 = 0xffff
  · rw [if_pos ((mapped_iff fits).mpr mapped), if_pos mapped]
  · rw [if_neg (fun same => mapped ((mapped_iff fits).mp same)), if_neg mapped]

/-- What `parseIp` returns fits its width, and is not an IPv4-mapped 128-bit value. -/
theorem parseIp_bounds {text : Text} {parsed : ParsedIp} (done : parseIp text = some parsed) :
    (parsed.bits = ipv4Bits ∧ parsed.value < 2 ^ 32) ∨
      (parsed.bits = ipv6Bits ∧ parsed.value < 2 ^ 128 ∧ parsed.value / 2 ^ 32 ≠ 0xffff) := by
  simp only [parseIp] at done
  split at done
  · simp at done
  · split at done
    · simp at done
    · split at done
      · cases read : parseV6 (splitZone (trim text)).1 true with
        | none => simp [read] at done
        | some value =>
          have fits := parseV6_lt read
          simp only [Bool.or_self, read, Bool.true_and] at done
          by_cases mapped : (value &&& v4MappedMask == v4MappedPrefix) = true
          · rw [Option.bind_eq_bind, Option.bind_some, if_pos mapped] at done
            obtain rfl := Option.some.inj done
            refine .inl ⟨rfl, ?_⟩
            rw [and_low32]
            exact Nat.mod_lt _ (by decide)
          · rw [Option.bind_eq_bind, Option.bind_some, if_neg mapped] at done
            obtain rfl := Option.some.inj done
            exact .inr ⟨rfl, fits, fun same => mapped ((mapped_iff fits).mpr same)⟩
      · split at done
        · simp at done
        · cases read : parseV4 (splitZone (trim text)).1 with
          | none => simp [read] at done
          | some value =>
            rw [read, Option.bind_eq_bind, Option.bind_some] at done
            obtain rfl := Option.some.inj done
            exact .inl ⟨rfl, parseV4_lt read⟩

/-- **The canonical spelling of an accepted text reads back as the same address.** -/
theorem parseIp_formatIp_of_parseIp {text : Text} {parsed : ParsedIp}
    (done : parseIp text = some parsed) :
    parseIp (formatIp parsed.value parsed.bits) = some ⟨parsed.value, parsed.bits, none⟩ := by
  rcases parseIp_bounds done with ⟨four, fits⟩ | ⟨six, fits, unmapped⟩
  · rw [four]
    exact parseIp_formatIp_v4 fits
  · rw [six, parseIp_formatIp_ipv6Bits fits, if_neg unmapped]

theorem canonicalizeIp_eq {text : Text} {parsed : ParsedIp} (done : parseIp text = some parsed) :
    canonicalizeIp text = some (formatIp parsed.value parsed.bits) := by
  rw [canonicalizeIp, done]
  rfl

theorem canonicalizeIp_eq_some {text canonical : Text}
    (done : canonicalizeIp text = some canonical) :
    ∃ parsed, parseIp text = some parsed ∧ canonical = formatIp parsed.value parsed.bits := by
  obtain ⟨parsed, read, written⟩ := Option.bind_eq_some_iff.mp done
  exact ⟨parsed, read, (Option.some.inj written).symm⟩

theorem canonicalizeIp_idempotent {text canonical : Text}
    (done : canonicalizeIp text = some canonical) : canonicalizeIp canonical = some canonical := by
  obtain ⟨parsed, read, rfl⟩ := canonicalizeIp_eq_some done
  rw [canonicalizeIp_eq (parseIp_formatIp_of_parseIp read)]

theorem canonicalizeIp_eq_iff {left right : Text} {x y : ParsedIp}
    (readLeft : parseIp left = some x) (readRight : parseIp right = some y) :
    canonicalizeIp left = canonicalizeIp right ↔ x.value = y.value ∧ x.bits = y.bits := by
  rw [canonicalizeIp_eq readLeft, canonicalizeIp_eq readRight, Option.some.injEq]
  constructor
  · intro same
    have back := parseIp_formatIp_of_parseIp readLeft
    rw [same, parseIp_formatIp_of_parseIp readRight] at back
    obtain ⟨values, widths, -⟩ := ParsedIp.mk.inj (Option.some.inj back)
    exact ⟨values.symm, widths.symm⟩
  · rintro ⟨values, widths⟩
    rw [values, widths]

/-- **Address texts and address values are in bijection on canonical spellings.** Every
address reads back from its canonical spelling, a 128-bit value in `::ffff:0:0/96` as
the IPv4 address in its low 32 bits; so `canonicalizeIp` is idempotent, and two accepted
texts have the same canonical spelling exactly when they are the same address. -/
theorem canonical_spelling_bijection :
    (∀ bits value, bits = ipv4Bits ∨ bits = ipv6Bits → value < 2 ^ bits →
      (bits = ipv6Bits → ¬ (v4MappedPrefix ≤ value ∧ value ≤ v4MappedLast)) →
      parseIp (formatIp value bits) = some ⟨value, bits, none⟩) ∧
    (∀ value, v4MappedPrefix ≤ value → value ≤ v4MappedLast →
      parseIp (formatIp value ipv6Bits) = some ⟨value % 2 ^ 32, ipv4Bits, none⟩) ∧
    (∀ text canonical, canonicalizeIp text = some canonical →
      canonicalizeIp canonical = some canonical) ∧
    (∀ left right x y, parseIp left = some x → parseIp right = some y →
      (canonicalizeIp left = canonicalizeIp right ↔ x.value = y.value ∧ x.bits = y.bits)) := by
  refine ⟨?_, ?_, fun _ _ done => canonicalizeIp_idempotent done,
    fun _ _ _ _ readLeft readRight => canonicalizeIp_eq_iff readLeft readRight⟩
  · rintro bits value (rfl | rfl) fits outside
    · exact parseIp_formatIp_v4 fits
    · rw [parseIp_formatIp_ipv6Bits fits, if_neg]
      have unmapped := outside rfl
      rw [v4MappedPrefix_eq, v4MappedLast_eq] at unmapped
      omega
  · intro value low high
    rw [v4MappedPrefix_eq] at low
    rw [v4MappedLast_eq] at high
    have fits : value < 2 ^ 128 := by omega
    rw [parseIp_formatIp_ipv6Bits fits, if_pos]
    omega

theorem canonical_spelling_bijection_at_documentation :
    parseIp (formatIp (0x20010db8 <<< 96) ipv6Bits) = some ⟨0x20010db8 <<< 96, ipv6Bits, none⟩ ∧
    parseIp (formatIp (v4MappedPrefix + 1) ipv6Bits) = some ⟨1, ipv4Bits, none⟩ ∧
    canonicalizeIp "2001:db8::".toList = some "2001:db8::".toList ∧
    (canonicalizeIp "2001:DB8:0::".toList = canonicalizeIp "2001:db8::".toList ↔
      0x20010db8 <<< 96 = 0x20010db8 <<< 96 ∧ ipv6Bits = ipv6Bits) :=
  ⟨canonical_spelling_bijection.1 ipv6Bits (0x20010db8 <<< 96) (.inr rfl) (by decide) (by decide),
    canonical_spelling_bijection.2.1 (v4MappedPrefix + 1) (by decide) (by decide),
    canonical_spelling_bijection.2.2.1 "2001:DB8:0::".toList "2001:db8::".toList (by decide),
    canonical_spelling_bijection.2.2.2 "2001:DB8:0::".toList "2001:db8::".toList
      ⟨0x20010db8 <<< 96, ipv6Bits, none⟩ ⟨0x20010db8 <<< 96, ipv6Bits, none⟩ (by decide)
      (by decide)⟩

end Address

end Cidrella
