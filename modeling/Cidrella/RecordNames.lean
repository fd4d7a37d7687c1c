import Mathlib.Data.List.DropRight
import Cidrella.DnsNames

/-!
# Stored record names

Every write path stores a record name through `normalizeRecordNameForZone` and every
reader resolves it through `fqdnForRecordName`. Storing keeps the meaning of a name
exactly when one zone suffix is all there is to take off (`storing_keeps_meaning_iff`):
a name that carries the zone twice loses one of them at each pass.
-/

set_option autoImplicit false

namespace Cidrella

open Address

namespace DnsNames

/-! ## Lower case -/

/-- The letters that `toLowerCase` changes. -/
def upperLetters : Text := "ABCDEFGHIJKLMNOPQRSTUVWXYZ".toList

theorem toLower_eq_self_or_upper (c : Char) : c.toLower = c ∨ c ∈ upperLetters := by
  by_cases upper : c.val ≥ 'A'.val ∧ c.val ≤ 'Z'.val
  · refine .inr ?_
    have low : 65 ≤ c.toNat := upper.1
    have high : c.toNat ≤ 90 := upper.2
    rw [← Char.ofNat_toNat c]
    generalize c.toNat = code at low high
    interval_cases code <;> decide
  · refine .inl ?_
    unfold Char.toLower
    rw [dif_neg upper]

theorem upperLetters_all {test : Char → Bool} (all : upperLetters.all test = true) {c : Char}
    (upper : c ∈ upperLetters) : test c = true := List.all_eq_true.mp all c upper

theorem toLower_toLower (c : Char) : c.toLower.toLower = c.toLower := by
  rcases toLower_eq_self_or_upper c with same | upper
  · rw [same, same]
  · exact of_decide_eq_true (@upperLetters_all (fun c => c.toLower.toLower = c.toLower)
      (by decide) c upper)

theorem isTrimmed_toLower (c : Char) : isTrimmed c.toLower = isTrimmed c := by
  rcases toLower_eq_self_or_upper c with same | upper
  · rw [same]
  · exact of_decide_eq_true (@upperLetters_all (fun c => isTrimmed c.toLower = isTrimmed c)
      (by decide) c upper)

theorem toLower_eq_mark {c mark : Char} (isMark : mark = '.' ∨ mark = '@') :
    c.toLower = mark ↔ c = mark := by
  rcases toLower_eq_self_or_upper c with same | upper
  · rw [same]
  · rcases isMark with rfl | rfl
    · exact of_decide_eq_true (@upperLetters_all (fun c => c.toLower = '.' ↔ c = '.')
        (by decide) c upper)
    · exact of_decide_eq_true (@upperLetters_all (fun c => c.toLower = '@' ↔ c = '@')
        (by decide) c upper)

theorem toLowerCase_toLowerCase (text : Text) : toLowerCase (toLowerCase text) =
    toLowerCase text := by
  rw [toLowerCase, toLowerCase, List.map_map]
  exact List.map_congr_left fun c _ => toLower_toLower c

theorem toLowerCase_append (front back : Text) :
    toLowerCase (front ++ back) = toLowerCase front ++ toLowerCase back := List.map_append

theorem length_toLowerCase (text : Text) : (toLowerCase text).length = text.length :=
  List.length_map _

/-! ## Trimming -/

theorem solid_of_all {text : Text} (solid : (text.all fun c => !isTrimmed c) = true) :
    ∀ c ∈ text, isTrimmed c = false := by
  simpa using solid

theorem isTrimmed_comp_toLower : isTrimmed ∘ Char.toLower = isTrimmed := by
  funext c
  exact isTrimmed_toLower c

theorem dropWhile_toLowerCase (text : Text) :
    (toLowerCase text).dropWhile isTrimmed = toLowerCase (text.dropWhile isTrimmed) := by
  rw [toLowerCase, List.dropWhile_map, isTrimmed_comp_toLower]
  rfl

theorem trim_toLowerCase (text : Text) : trim (toLowerCase text) = toLowerCase (trim text) := by
  have reversed : ∀ text : Text, (toLowerCase text).reverse = toLowerCase text.reverse :=
    fun text => List.map_reverse.symm
  rw [trim, dropWhile_toLowerCase, reversed, dropWhile_toLowerCase, reversed, trim]

theorem trim_eq_rdropWhile (text : Text) :
    trim text = (text.dropWhile isTrimmed).rdropWhile isTrimmed := rfl

theorem trim_trim (text : Text) : trim (trim text) = trim text := by
  have start : (trim text).dropWhile isTrimmed = trim text := by
    rw [trim_eq_rdropWhile, List.dropWhile_eq_self_iff]
    intro positive
    have front := List.rdropWhile_prefix isTrimmed (text.dropWhile isTrimmed)
    have nonempty : 0 < (text.dropWhile isTrimmed).length := positive.trans_le front.length_le
    have head := List.dropWhile_get_zero_not isTrimmed text nonempty
    have same := front.getElem positive
    simpa [same] using head
  calc trim (trim text) = ((trim text).dropWhile isTrimmed).rdropWhile isTrimmed := rfl
    _ = (trim text).rdropWhile isTrimmed := by rw [start]
    _ = trim text := by rw [trim_eq_rdropWhile, List.rdropWhile_idempotent]

theorem length_trim_le (text : Text) : (trim text).length ≤ text.length := by
  have front := (List.rdropWhile_prefix isTrimmed (text.dropWhile isTrimmed)).length_le
  exact front.trans (List.dropWhile_suffix isTrimmed).length_le

theorem count_trim {c : Char} (solid : isTrimmed c = false) (text : Text) :
    (trim text).count c = text.count c := by
  have drop : ∀ text : Text, (text.dropWhile isTrimmed).count c = text.count c := by
    intro text
    have gone : (text.takeWhile isTrimmed).count c = 0 := by
      refine List.count_eq_zero.mpr fun member => ?_
      exact absurd (List.mem_takeWhile_imp member) (by simp [solid])
    have both :=
      congrArg (List.count c) (List.takeWhile_append_dropWhile (p := isTrimmed) (l := text))
    rw [List.count_append, gone, Nat.zero_add] at both
    exact both
  rw [trim, List.count_reverse, drop, List.count_reverse, drop]

/-! ## The final dot -/

theorem endsWith_iff {text ending : Text} : endsWith text ending = true ↔ ∃ front, text = front ++
    ending := by
  rw [endsWith, List.isSuffixOf_iff_suffix]
  constructor
  · rintro ⟨front, same⟩
    exact ⟨front, same.symm⟩
  · rintro ⟨front, rfl⟩
    exact ⟨front, rfl⟩

theorem endsWith_dot_iff {text : Text} : endsWith text ['.'] = true ↔ text.getLast? = some '.' := by
  rw [endsWith_iff, List.getLast?_eq_some_iff]

theorem dropFinalDot_concat (text : Text) : dropFinalDot (text ++ ['.']) = text := by
  simp [dropFinalDot]

theorem dropFinalDot_eq_self {text : Text} (relative : endsWith text ['.'] = false) :
    dropFinalDot text = text := by
  rw [dropFinalDot, if_neg]
  intro last
  rw [endsWith_dot_iff.mpr last] at relative
  exact absurd relative (by simp)

theorem dropFinalDot_toLowerCase (text : Text) :
    dropFinalDot (toLowerCase text) = toLowerCase (dropFinalDot text) := by
  have last : (toLowerCase text).getLast? = some '.' ↔ text.getLast? = some '.' := by
    rw [toLowerCase, List.getLast?_map, Option.map_eq_some_iff]
    constructor
    · rintro ⟨c, found, lower⟩
      rw [found, (toLower_eq_mark (.inl rfl)).mp lower]
    · exact fun found => ⟨'.', found, rfl⟩
  simp only [dropFinalDot, last]
  split
  · exact List.map_dropLast.symm
  · rfl

theorem length_dropFinalDot_le (text : Text) : (dropFinalDot text).length ≤ text.length := by
  unfold dropFinalDot
  split
  · simp
  · exact le_refl _

theorem count_dropFinalDot {c : Char} (other : c ≠ '.') (text : Text) :
    (dropFinalDot text).count c = text.count c := by
  unfold dropFinalDot
  split
  · rename_i last
    obtain ⟨front, rfl⟩ := List.getLast?_eq_some_iff.mp last
    simp [other.symm]
  · rfl

/-! ## What both functions read -/

/-- A name in lower case without white space around it. -/
def rawName (name : Text) : Text := toLowerCase (trim name)

/-- The same without its final dot. -/
def bareName (name : Text) : Text := dropFinalDot (rawName name)

theorem rawName_rawName (name : Text) : rawName (rawName name) = rawName name := by
  rw [rawName, rawName, trim_toLowerCase, trim_trim, toLowerCase_toLowerCase]

theorem toLowerCase_bareName (name : Text) : toLowerCase (bareName name) = bareName name := by
  rw [bareName, ← dropFinalDot_toLowerCase, rawName, toLowerCase_toLowerCase]

theorem length_bareName_le (name : Text) : (bareName name).length ≤ name.length := by
  refine (length_dropFinalDot_le _).trans ?_
  rw [rawName, length_toLowerCase]
  exact length_trim_le name

theorem toLowerCase_normalizeDnsName (zoneName : Text) :
    toLowerCase (normalizeDnsName zoneName) = normalizeDnsName zoneName :=
  toLowerCase_toLowerCase _

/-- The zone of a name has as many `@` as the name. -/
theorem count_at_normalizeDnsName (zoneName : Text) :
    (normalizeDnsName zoneName).count '@' = (toLowerCase zoneName).count '@' := by
  rw [normalizeDnsName, ← dropFinalDot_toLowerCase,
    count_dropFinalDot (by decide), ← trim_toLowerCase, count_trim (by decide)]

theorem normalize_eq (name zoneName : Text) : normalizeRecordNameForZone name zoneName =
    if bareName name = ['@'] || bareName name = normalizeDnsName zoneName then ['@']
    else if endsWith (bareName name) ('.' :: normalizeDnsName zoneName) then
      (bareName name).take ((bareName name).length - ((normalizeDnsName zoneName).length + 1))
    else if endsWith (rawName name) ['.'] then bareName name ++ ['.']
    else bareName name := rfl

theorem fqdn_eq (name zoneName : Text) : fqdnForRecordName name zoneName =
    if bareName name = ['@'] || bareName name = normalizeDnsName zoneName then zoneName
    else if endsWith (bareName name) ('.' :: normalizeDnsName zoneName) then bareName name
    else if endsWith (rawName name) ['.'] then bareName name
    else bareName name ++ '.' :: zoneName := rfl

/-- The name is the zone's own. -/
def IsApex (name zoneName : Text) : Prop :=
  bareName name = ['@'] ∨ bareName name = normalizeDnsName zoneName

/-- The name is not the zone's own and not under it. -/
def IsOutside (name zoneName : Text) : Prop :=
  ¬IsApex name zoneName ∧ endsWith (bareName name) ('.' :: normalizeDnsName zoneName) = false

section Branches

variable {name zoneName : Text}

theorem apex_eq_true : (decide (bareName name = ['@']) ||
    decide (bareName name = normalizeDnsName zoneName)) = true ↔ IsApex name zoneName := by
  simp [IsApex]

theorem normalize_of_apex (apex : IsApex name zoneName) :
    normalizeRecordNameForZone name zoneName = ['@'] := by
  rw [normalize_eq, if_pos (apex_eq_true.mpr apex)]

theorem fqdn_of_apex (apex : IsApex name zoneName) : fqdnForRecordName name zoneName =
    zoneName := by
  rw [fqdn_eq, if_pos (apex_eq_true.mpr apex)]

theorem normalize_of_under (notApex : ¬IsApex name zoneName) {front : Text}
    (under : bareName name = front ++ '.' :: normalizeDnsName zoneName) :
    normalizeRecordNameForZone name zoneName = front := by
  rw [normalize_eq, if_neg (mt apex_eq_true.mp notApex), if_pos (endsWith_iff.mpr ⟨front, under⟩),
    under]
  simp

theorem fqdn_of_under (notApex : ¬IsApex name zoneName) {front : Text}
    (under : bareName name = front ++ '.' :: normalizeDnsName zoneName) :
    fqdnForRecordName name zoneName = bareName name := by
  rw [fqdn_eq, if_neg (mt apex_eq_true.mp notApex), if_pos (endsWith_iff.mpr ⟨front, under⟩)]

theorem normalize_of_outside (outside : IsOutside name zoneName) :
    normalizeRecordNameForZone name zoneName = rawName name := by
  rw [normalize_eq, if_neg (mt apex_eq_true.mp outside.1), if_neg (by rw [outside.2]; simp)]
  split
  · rename_i absolute
    obtain ⟨front, same⟩ := endsWith_iff.mp absolute
    rw [bareName, same, dropFinalDot_concat]
  · rename_i relative
    rw [Bool.not_eq_true] at relative
    exact dropFinalDot_eq_self relative

theorem fqdn_of_outside (outside : IsOutside name zoneName) : fqdnForRecordName name zoneName =
    if endsWith (rawName name) ['.'] then bareName name else bareName name ++ '.' :: zoneName := by
  rw [fqdn_eq, if_neg (mt apex_eq_true.mp outside.1), if_neg (by rw [outside.2]; simp)]

theorem normalize_rawName :
    normalizeRecordNameForZone (rawName name) zoneName = normalizeRecordNameForZone name
    zoneName := by
  rw [normalize_eq, normalize_eq, bareName, rawName_rawName]
  rfl

theorem fqdn_rawName : fqdnForRecordName (rawName name) zoneName = fqdnForRecordName name
    zoneName := by
  rw [fqdn_eq, fqdn_eq, bareName, rawName_rawName]
  rfl

theorem apex_or_under_or_outside (name zoneName : Text) : IsApex name zoneName ∨
    (¬IsApex name zoneName ∧ ∃ front, bareName name = front ++ '.' :: normalizeDnsName zoneName) ∨
      IsOutside name zoneName := by
  by_cases apex : IsApex name zoneName
  · exact .inl apex
  · cases under : endsWith (bareName name) ('.' :: normalizeDnsName zoneName) with
    | true => exact .inr (.inl ⟨apex, endsWith_iff.mp under⟩)
    | false => exact .inr (.inr ⟨apex, under⟩)

end Branches

/-! ## When storing keeps the meaning -/

/-- What is left of a name names the same host when it is read again: it is trimmed, has no
final dot and is neither `@`, the zone's name nor under the zone. -/
def IsRelative (front zone : Text) : Prop :=
  trim front = front ∧ endsWith front ['.'] = false ∧ front ≠ ['@'] ∧ front ≠ zone ∧
    endsWith front ('.' :: zone) = false

/-- A name under the zone leaves a relative name before it, in a zone whose name has no
white space around it and no final dot. -/
def KeepsMeaning (name zoneName : Text) : Prop :=
  IsApex name zoneName ∨ ∀ front, bareName name = front ++ '.' :: normalizeDnsName zoneName →
    IsRelative front (normalizeDnsName zoneName) ∧ toLowerCase zoneName = normalizeDnsName zoneName

theorem IsRelative.reads {front zoneName : Text}
    (relative : IsRelative front (normalizeDnsName zoneName)) (lower : toLowerCase front = front) :
      rawName front = front ∧ bareName front = front ∧ IsOutside front zoneName := by
  obtain ⟨trimmed, noDot, notAt, notZone, notUnder⟩ := relative
  have raw : rawName front = front := by rw [rawName, trimmed, lower]
  have bare : bareName front = front := by rw [bareName, raw, dropFinalDot_eq_self noDot]
  refine ⟨raw, bare, ?_, ?_⟩
  · rintro (at' | zone)
    · exact notAt (bare.symm.trans at')
    · exact notZone (bare.symm.trans zone)
  · rw [bare]
    exact notUnder

theorem toLowerCase_ne_at_zone (zoneName : Text) :
    toLowerCase zoneName ≠ '@' :: '.' :: normalizeDnsName zoneName := by
  intro same
  have counted := count_at_normalizeDnsName zoneName
  rw [same] at counted
  simp at counted

/-- A name that is read back with the meaning it was stored with is relative. -/
theorem isRelative_of_kept {front zoneName : Text} (lower : toLowerCase front = front)
    (meaning : toLowerCase (fqdnForRecordName front zoneName) =
      toLowerCase (front ++ '.' :: normalizeDnsName zoneName))
    (stable : normalizeRecordNameForZone front zoneName = front) :
    IsRelative front (normalizeDnsName zoneName) ∧ toLowerCase zoneName = normalizeDnsName
    zoneName := by
  have zoneLower := toLowerCase_normalizeDnsName zoneName
  have dotted : toLowerCase (front ++ '.' :: normalizeDnsName zoneName) =
      front ++ '.' :: normalizeDnsName zoneName := by
    rw [toLowerCase_append, lower]
    exact congrArg (front ++ '.' :: ·) zoneLower
  rw [dotted] at meaning
  rcases apex_or_under_or_outside front zoneName with apex | ⟨notApex, further, under⟩ | outside
  · -- `@` stands for the zone, which has one `@` less than the name it was taken from.
    rw [normalize_of_apex apex] at stable
    rw [fqdn_of_apex apex, ← stable] at meaning
    exact absurd meaning (toLowerCase_ne_at_zone zoneName)
  · rw [normalize_of_under notApex under] at stable
    have shorter := length_bareName_le front
    rw [under, stable, List.length_append] at shorter
    simp at shorter
  · rw [normalize_of_outside outside] at stable
    have trimmed : trim front = front := by
      rw [rawName, ← trim_toLowerCase, lower] at stable
      exact stable
    rw [fqdn_of_outside outside] at meaning
    split at meaning
    · have shorter := length_bareName_le front
      rw [toLowerCase_bareName] at meaning
      rw [meaning, List.length_append] at shorter
      simp at shorter
    · rename_i relative
      rw [Bool.not_eq_true, stable] at relative
      have bare : bareName front = front := by rw [bareName, stable, dropFinalDot_eq_self relative]
      rw [bare, toLowerCase_append, lower] at meaning
      have zone : toLowerCase zoneName = normalizeDnsName zoneName :=
        (List.cons.inj (List.append_cancel_left meaning)).2
      refine ⟨⟨trimmed, relative, ?_, ?_, ?_⟩, zone⟩
      · exact fun same => outside.1 (.inl (bare.trans same))
      · exact fun same => outside.1 (.inr (bare.trans same))
      · rw [← bare]
        exact outside.2

/-- **Storing a name keeps what it is served as, up to case, and is stable, exactly when
the name is not under its zone or leaves a relative name before it.** -/
theorem storing_keeps_meaning_iff (name zoneName : Text) :
    (toLowerCase (fqdnForRecordName (normalizeRecordNameForZone name zoneName) zoneName) =
        toLowerCase (fqdnForRecordName name zoneName) ∧
      normalizeRecordNameForZone (normalizeRecordNameForZone name zoneName) zoneName =
        normalizeRecordNameForZone name zoneName) ↔ KeepsMeaning name zoneName := by
  rcases apex_or_under_or_outside name zoneName with apex | ⟨notApex, front, under⟩ | outside
  · have again : IsApex ['@'] zoneName := .inl rfl
    rw [normalize_of_apex apex, fqdn_of_apex apex, fqdn_of_apex again, normalize_of_apex again]
    exact iff_of_true ⟨rfl, rfl⟩ (.inl apex)
  · have parts := toLowerCase_bareName name
    rw [under, toLowerCase_append] at parts
    have lower : toLowerCase front = front := (List.append_inj' parts (by simp [toLowerCase])).1
    rw [normalize_of_under notApex under, fqdn_of_under notApex under, under]
    constructor
    · rintro ⟨meaning, stable⟩
      refine .inr fun other same => ?_
      obtain rfl := List.append_cancel_right (under.symm.trans same)
      exact isRelative_of_kept lower meaning stable
    · rintro (apex | each)
      · exact absurd apex notApex
      · obtain ⟨relative, zone⟩ := each front under
        obtain ⟨raw, bare, outside⟩ := relative.reads lower
        rw [fqdn_of_outside outside, normalize_of_outside outside, raw, bare, relative.2.1]
        refine ⟨?_, rfl⟩
        rw [if_neg (by simp), toLowerCase_append, toLowerCase_append]
        refine congrArg (toLowerCase front ++ '.' :: ·) ?_
        exact zone.trans (toLowerCase_normalizeDnsName zoneName).symm
  · rw [normalize_of_outside outside, fqdn_rawName, normalize_rawName, normalize_of_outside outside]
    refine iff_of_true ⟨rfl, rfl⟩ (.inr fun front under => ?_)
    have inside := endsWith_iff.mpr ⟨front, under⟩
    rw [outside.2] at inside
    exact absurd inside (by simp)

/-- `example.com.example.com` is stored as `example.com`, which is the zone's own name, and
is stored as `@` when it is saved again. -/
theorem doubled_zone_is_lost :
    ¬ ∀ name zoneName : Text, zoneName ≠ [] →
      toLowerCase (fqdnForRecordName (normalizeRecordNameForZone name zoneName) zoneName) =
          toLowerCase (fqdnForRecordName name zoneName) ∧
        normalizeRecordNameForZone (normalizeRecordNameForZone name zoneName) zoneName =
          normalizeRecordNameForZone name zoneName := by
  intro kept
  have served := (kept "example.com.example.com".toList "example.com".toList (by decide)).1
  revert served
  decide

/-! ## The other builders -/

theorem length_fqdn_le {name zoneName : Text} (absolute : endsWith (rawName name) ['.'] = true ∨
    IsApex name zoneName ∨ endsWith (bareName name) ('.' :: normalizeDnsName zoneName) = true) :
    (fqdnForRecordName name zoneName).length ≤ max name.length zoneName.length := by
  have shorter := length_bareName_le name
  rw [fqdn_eq]
  split
  · exact le_max_right _ _
  · rename_i notApex
    split
    · exact shorter.trans (le_max_left _ _)
    · rename_i notUnder
      split
      · exact shorter.trans (le_max_left _ _)
      · rename_i relative
        rcases absolute with dot | apex | under
        · exact absurd dot relative
        · exact absurd (apex_eq_true.mpr apex) notApex
        · exact absurd under notUnder

theorem reads_of_joinFqdn_eq {name zoneName : Text} (named : name ≠ ['@'])
    (same : joinFqdn name zoneName = fqdnForRecordName name zoneName) :
    rawName name = name ∧ endsWith (rawName name) ['.'] = false ∧ ¬ IsApex name zoneName ∧
      endsWith (bareName name) ('.' :: normalizeDnsName zoneName) = false := by
  rw [joinFqdn, if_neg named] at same
  have longer : max name.length zoneName.length < (fqdnForRecordName name zoneName).length := by
    rw [← same, List.length_append, List.length_cons]
    omega
  have none := mt length_fqdn_le (not_le.mpr longer)
  rw [not_or, not_or, Bool.not_eq_true, Bool.not_eq_true] at none
  obtain ⟨relative, notApex, notUnder⟩ := none
  have bare : bareName name = rawName name := dropFinalDot_eq_self relative
  rw [fqdn_of_outside ⟨notApex, notUnder⟩, relative, if_neg (by simp), bare] at same
  exact ⟨(List.append_cancel_right same).symm, relative, notApex, notUnder⟩

/-- Joining a name and its zone gives the name it is served as exactly for `@` and for
relative names. -/
theorem joinFqdn_eq_iff {name : Text} (zoneName : Text) (lower : toLowerCase name = name) :
    joinFqdn name zoneName = fqdnForRecordName name zoneName ↔
      name = ['@'] ∨ IsRelative name (normalizeDnsName zoneName) := by
  by_cases at' : name = ['@']
  · have apex : IsApex name zoneName := .inl (by rw [at']; rfl)
    rw [joinFqdn, if_pos at', fqdn_of_apex apex]
    exact iff_of_true rfl (.inl at')
  · constructor
    · intro same
      obtain ⟨raw, relative, notApex, notUnder⟩ := reads_of_joinFqdn_eq at' same
      have bare : bareName name = rawName name := dropFinalDot_eq_self relative
      rw [raw] at relative bare
      refine .inr ⟨?_, relative, at', ?_, ?_⟩
      · rw [rawName, ← trim_toLowerCase, lower] at raw
        exact raw
      · exact fun zone => notApex (.inr (bare.trans zone))
      · rwa [bare] at notUnder
    · rintro (apex | relative)
      · exact absurd apex at'
      · obtain ⟨raw, bare, outside⟩ := relative.reads lower
        rw [joinFqdn, if_neg at', fqdn_of_outside outside, raw, bare, relative.2.1,
          if_neg (by simp)]

/-- A name whose joined form is its served form. -/
def IsPlain (name zoneName : Text) : Prop :=
  name = ['@'] ∨ (toLowerCase name = name ∧ IsRelative name (normalizeDnsName zoneName))

theorem joinFqdn_eq_iff_isPlain {name zoneName : Text} :
    joinFqdn name zoneName = fqdnForRecordName name zoneName ↔ IsPlain name zoneName := by
  constructor
  · intro same
    by_cases at' : name = ['@']
    · exact .inl at'
    · have raw := (reads_of_joinFqdn_eq at' same).1
      have lower : toLowerCase name = name := by
        rw [← raw, rawName, toLowerCase_toLowerCase]
      exact ((joinFqdn_eq_iff zoneName lower).mp same).imp_right fun relative => ⟨lower, relative⟩
  · rintro (rfl | ⟨lower, relative⟩)
    · exact (joinFqdn_eq_iff zoneName rfl).mpr (.inl rfl)
    · exact (joinFqdn_eq_iff zoneName lower).mpr (.inr relative)

theorem toLowerCase_normalizeRecordNameForZone (name zoneName : Text) :
    toLowerCase (normalizeRecordNameForZone name zoneName) = normalizeRecordNameForZone name
    zoneName := by
  rcases apex_or_under_or_outside name zoneName with apex | ⟨notApex, front, under⟩ | outside
  · rw [normalize_of_apex apex]
    rfl
  · have parts := toLowerCase_bareName name
    rw [under, toLowerCase_append] at parts
    rw [normalize_of_under notApex under]
    exact (List.append_inj' parts (by simp [toLowerCase])).1
  · rw [normalize_of_outside outside, rawName, toLowerCase_toLowerCase]

/-- The `CASE` gives the name that is served, for `@` and for relative names of a lower-case
zone. -/
theorem caseFqdn_eq {name zoneName : Text} (lower : toLowerCase name = name)
    (lowerZone : toLowerCase zoneName = zoneName)
    (plain : name = ['@'] ∨ IsRelative name (normalizeDnsName zoneName)) :
    caseFqdn name zoneName = fqdnForRecordName name zoneName := by
  rw [← (joinFqdn_eq_iff zoneName lower).mpr plain, caseFqdn, joinFqdn]
  rcases plain with at' | relative
  · rw [if_pos at', if_pos at', lowerZone]
  · have dotted : toLowerCase (name ++ '.' :: zoneName) = name ++ '.' :: zoneName := by
      rw [toLowerCase_append, lower]
      exact congrArg (name ++ '.' :: ·) lowerZone
    rw [if_neg relative.2.2.1, if_neg relative.2.2.1, relative.2.1, if_neg (by simp), dotted]

/-- **The `CASE` of `cnameTargetError` and the template of `reconcileTopologyAddresses` and
`detectLossyIpsForDivision` agree with the reader exactly on the stored names that are `@`
or relative.** -/
theorem builders_agree_iff {name zoneName : Text} (lowerZone : toLowerCase zoneName = zoneName)
    (stored : ∃ typed, name = normalizeRecordNameForZone typed zoneName) :
    (caseFqdn name zoneName = fqdnForRecordName name zoneName ∧
      joinFqdn name zoneName = fqdnForRecordName name zoneName) ↔
      name = ['@'] ∨ IsRelative name (normalizeDnsName zoneName) := by
  have lower : toLowerCase name = name := by
    obtain ⟨typed, rfl⟩ := stored
    exact toLowerCase_normalizeRecordNameForZone typed zoneName
  constructor
  · rintro ⟨-, joined⟩
    exact (joinFqdn_eq_iff zoneName lower).mp joined
  · intro plain
    exact ⟨caseFqdn_eq lower lowerZone plain, (joinFqdn_eq_iff zoneName lower).mpr plain⟩

theorem builders_agree_www :
    caseFqdn "www.sub".toList "example.lan".toList = fqdnForRecordName "www.sub".toList
      "example.lan".toList ∧ joinFqdn "www.sub".toList "example.lan".toList =
        fqdnForRecordName "www.sub".toList "example.lan".toList :=
  (builders_agree_iff (by decide) ⟨"WWW.sub.example.lan.".toList, by decide⟩).mpr
    (.inr (by unfold IsRelative; decide))

/-- A name of another zone is stored with its dot, and joining it with the zone serves
`host.other.com..example.lan`. -/
theorem absolute_name_is_joined :
    ¬ ∀ name zoneName : Text, toLowerCase zoneName = zoneName →
      (∃ typed, name = normalizeRecordNameForZone typed zoneName) →
      caseFqdn name zoneName = fqdnForRecordName name zoneName ∧
        joinFqdn name zoneName = fqdnForRecordName name zoneName := by
  intro agree
  have joined := (agree "host.other.com.".toList "example.lan".toList (by decide)
    ⟨"host.other.com.".toList, by decide⟩).2
  revert joined
  decide

end DnsNames

end Cidrella
