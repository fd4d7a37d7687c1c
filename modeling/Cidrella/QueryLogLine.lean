import Cidrella.Address
import Cidrella.Lib.Leftmost
import Mathlib.Data.List.TakeWhile

/-!
# Lines of the query log

`formatQueryLine` and `parseQueryLine` of `utils/query-log-line.js`: the line the proxy logs
for a query it answered, and the pattern that reads the client back from it.

A name goes into the line as it was decoded, and a label may hold any character. What the
pattern finds then depends on the name: it reads back wherever the name has no white space,
and else only where the name itself spells the client out where the pattern first matches
(`reads_back_iff`).
-/

set_option autoImplicit false

namespace Cidrella

namespace QueryLogLine

open Text Address Leftmost

/-! ## The line -/

/-- The fields of a local time. -/
structure LocalTime where
  month : Fin 12
  day : Nat
  hours : Nat
  minutes : Nat
  seconds : Nat

/-- `MONTHS`. -/
def months : Vector Text 12 :=
  #v["Jan".toList, "Feb".toList, "Mar".toList, "Apr".toList, "May".toList, "Jun".toList,
    "Jul".toList, "Aug".toList, "Sep".toList, "Oct".toList, "Nov".toList, "Dec".toList]

/-- `pad`. -/
def pad (n : Nat) : Text := padStart 2 '0' (Nat.toDigits 10 n)

/-- `syslogTime`. -/
def syslogTime (date : LocalTime) : Text :=
  months[date.month] ++ ' ' :: padStart 2 ' ' (Nat.toDigits 10 date.day) ++
    ' ' :: pad date.hours ++ ':' :: pad date.minutes ++ ':' :: pad date.seconds

/-- The fields of a query that a line is made of. `latencyUs` is in thousandths: the proxy
divides nanoseconds by a thousand. -/
structure Query where
  clientIp : Option Text
  domain : Option Text
  queryType : Option Text
  action : Text
  blockReason : Option Text
  responseCode : Option Text
  resolvedIp : Option Text
  failure : Option Text
  latencyUs : Option Nat
  deriving DecidableEq

/-- `field || fallback`. -/
def orElse (field : Option Text) (fallback : Text) : Text := (field.filter (· ≠ [])).getD fallback

/-- A field that is there, between two texts. -/
def around (before : Text) (field : Option Text) (behind : Text) : Text :=
  match field.filter (· ≠ []) with
  | none => []
  | some text => before ++ text ++ behind

/-- `outcome`. -/
def outcome (query : Query) : Text :=
  if query.action = "blocked_blocklist".toList then
    "blocked (blocklist".toList ++ around [' '] query.blockReason [] ++ [')']
  else if query.action = "blocked_geoip".toList then
    "blocked (geoip".toList ++ around [' '] query.blockReason [] ++ [')']
  else orElse query.responseCode "UNKNOWN".toList ++ around [' '] query.resolvedIp [] ++
    around " (".toList query.failure [')']

/-- `, N ms`, where the latency is known. -/
def latencyTail (query : Query) : Text :=
  match query.latencyUs with
  | none => []
  | some nanoseconds => ", ".toList ++ Nat.toDigits 10 ((nanoseconds + 500000) / 1000000) ++
      " ms".toList

/-- The name in the line. -/
def nameOf (query : Query) : Text := orElse query.domain ['.']

/-- What stands before the type. -/
def opening : Text := " proxy: query[".toList

/-- What stands between the name and the client. -/
def joint : Text := " from ".toList

/-- `formatQueryLine`. -/
def formatQueryLine (query : Query) (now : LocalTime) : Text :=
  syslogTime now ++ opening ++ orElse query.queryType ['A'] ++ "] ".toList ++
    nameOf query ++ joint ++ orElse query.clientIp "unknown".toList ++ ", ".toList ++
    outcome query ++ latencyTail query ++ ['\n']

/-! ## Reading it -/

/-- `\S`. -/
def isSolid (c : Char) : Bool := !isTrimmed c

/-- `[^\s,]`. -/
def isClientChar (c : Char) : Bool := !isTrimmed c && c ≠ ','

/-- `([^\s,]+),` at the head of a text. A run can only end where the next literal begins, for
that is not of its class. -/
def clientBefore (text : Text) : Option Text :=
  if text.takeWhile isClientChar = [] ∨ (text.dropWhile isClientChar).head? ≠ some ',' then none
  else some (text.takeWhile isClientChar)

/-- `\S+ from ([^\s,]+),` at the head of a text. -/
def clientIn (text : Text) : Option Text :=
  if text.takeWhile isSolid = [] then none else (after joint (text.dropWhile isSolid)).bind
    clientBefore

/-- `[^\]]+\] ` at the head of a text. -/
def behindType (text : Text) : Option Text :=
  if text.takeWhile (· ≠ ']') = [] then none else after "] ".toList (text.dropWhile (· ≠ ']'))

/-- `QUERY_LINE_RE` at the head of a text. -/
def queryLineRe (text : Text) : Option Text := ((after opening text).bind behindType).bind clientIn

/-- `parseQueryLine`. -/
def parseQueryLine (line : Text) : Option Text :=
  (firstMatch queryLineRe line).filter (· ≠ "unknown".toList)

example :
    let query : Query :=
      { clientIp := some "fd00::5".toList, domain := some "a.example".toList, queryType :=
        none, action := [], blockReason := none, responseCode := some "NOERROR".toList,
          resolvedIp := none, failure := none,
        latencyUs := some 12400000 }
    formatQueryLine query ⟨9, 1, 13, 5, 9⟩ =
        "Oct  1 13:05:09 proxy: query[A] a.example from fd00::5, NOERROR, 12 ms\n".toList ∧
      parseQueryLine (formatQueryLine query ⟨9, 1, 13, 5, 9⟩) = some "fd00::5".toList := by
  decide

/-! ## What a name does to the line -/

/-- What the pattern makes of a name behind the type: a name of one word is followed by the
client, and any other has to spell a client out itself. -/
def reading (client name : Text) : Option Text :=
  if name ≠ [] ∧ name.all isSolid then some client else clientIn name

/-- What the pattern makes of a name that has the opening in it. -/
def laterReading (client : Text) (text : Text) : Option Text :=
  ((after opening text).bind behindType).bind (reading client)

/-- The first client the pattern finds: at the name's head, or behind an opening in it. The
blank before the name may be the first character of such an opening. -/
def found (client name : Text) : Option Text :=
  (reading client name).or (firstMatch (laterReading client) (' ' :: name))

theorem clientBefore_of_plain {client : Text} (filled : client ≠ [])
    (plain : client.all isClientChar = true) (more : Text) : clientBefore (client ++ ',' :: more) =
    some client := by
  have run : (client ++ ',' :: more).takeWhile isClientChar = client := by
    rw [takeWhile_append_stop (by decide), List.takeWhile_eq_self_iff.mpr
      (List.all_eq_true.mp plain)]
  have rest : (client ++ ',' :: more).dropWhile isClientChar = ',' :: more := by
    rw [dropWhile_append_stop (by decide), List.dropWhile_eq_nil_iff.mpr
      (List.all_eq_true.mp plain), List.nil_append]
  rw [clientBefore, run, rest, if_neg]
  exact fun wrong => wrong.elim filled fun comma => comma rfl

theorem clientBefore_append_blank (text more : Text) : clientBefore (text ++ ' ' :: more) =
    clientBefore text := by
  rw [clientBefore, clientBefore, takeWhile_append_stop (by decide),
    dropWhile_append_stop (by decide)]
  cases text.dropWhile isClientChar with
  | nil =>
    have blank : ([] ++ ' ' :: more).head? ≠ some ',' := by
      rw [List.nil_append, List.head?_cons]
      decide
    rw [if_pos (.inr blank), if_pos (.inr (by decide))]
  | cons c rest => rfl

theorem clashes_joint {text : Text} (filled : text ≠ []) (differ : text ≠ " from".toList)
    (short : text.length < joint.length) (begins : text <+: joint) :
    clashes (joint.drop text.length) joint = true := by
  have all : ∀ k < joint.length, joint.take k ≠ [] → joint.take k ≠ " from".toList →
      clashes (joint.drop k) joint = true := by decide
  have same := List.prefix_iff_eq_take.mp begins
  exact all text.length short (same ▸ filled) (same ▸ differ)

/-- **The word behind the type decides**: with white space in it, what follows the name is not
reached. -/
theorem clientIn_behind {client : Text} (filled : client ≠ [])
    (plain : client.all isClientChar = true) (name more : Text) :
    clientIn (name ++ (joint ++ (client ++ ',' :: more))) = reading client name := by
  have blank : joint ++ (client ++ ',' :: more) = ' ' ::
      ("from ".toList ++ (client ++ ',' :: more)) := rfl
  have word : (name ++ (joint ++ (client ++ ',' :: more))).takeWhile isSolid = name.takeWhile
      isSolid := by
    rw [blank, takeWhile_append_stop (by decide)]
  have rest : (name ++ (joint ++ (client ++ ',' :: more))).dropWhile isSolid =
      name.dropWhile isSolid ++ (joint ++ (client ++ ',' :: more)) := by
    rw [blank, dropWhile_append_stop (by decide)]
  rw [clientIn, word, rest]
  by_cases solid : name ≠ [] ∧ name.all isSolid = true
  · rw [reading, if_pos solid, List.takeWhile_eq_self_iff.mpr (List.all_eq_true.mp solid.2),
      if_neg solid.1, List.dropWhile_eq_nil_iff.mpr (List.all_eq_true.mp solid.2), List.nil_append,
      after_append_self, Option.bind_some]
    exact clientBefore_of_plain filled plain more
  · rw [reading, if_neg solid, clientIn]
    by_cases bare : name.takeWhile isSolid = []
    · rw [if_pos bare, if_pos bare]
    rw [if_neg bare, if_neg bare]
    by_cases overlaps : name.dropWhile isSolid = " from".toList
    · -- the blank of the joint completes a joint of the name, but then a blank ends the client
      rw [overlaps]
      rfl
    · rw [after_append, Option.bind_map]
      · refine Option.bind_congr fun text _ => ?_
        rw [Function.comp_apply, blank, clientBefore_append_blank]
      · refine clashes_joint (fun none => ?_) overlaps
        have word := List.dropWhile_eq_nil_iff.mp none
        refine solid ⟨?_, List.all_eq_true.mpr word⟩
        rintro rfl
        exact bare rfl

theorem behindType_of_not_mem {text : Text} (absent : ']' ∉ text) : behindType text = none := by
  have all : ∀ c ∈ text, decide (c ≠ ']') = true := fun c member =>
    decide_eq_true fun same => absent (same ▸ member)
  unfold behindType
  split
  · rfl
  · rw [List.dropWhile_eq_nil_iff.mpr all]
    rfl

theorem queryLineRe_of_not_mem {text : Text} (absent : ']' ∉ text) : queryLineRe text = none := by
  rw [queryLineRe]
  cases found : after opening text with
  | none => rfl
  | some rest =>
    rw [after_eq_some.mp found] at absent
    rw [Option.bind_some, behindType_of_not_mem fun member =>
      absent (List.mem_append_right _ member)]
    rfl

theorem behindType_closed {type : Text} (early : ']' ∉ type) (rest : Text) :
    behindType (type ++ ']' :: rest) = if type = [] then none else after "] ".toList
    (']' :: rest) := by
  have all : ∀ c ∈ type, decide (c ≠ ']') = true := fun c member =>
    decide_eq_true fun same => early (same ▸ member)
  rw [behindType, takeWhile_append_stop (by decide), dropWhile_append_stop (by decide),
    List.takeWhile_eq_self_iff.mpr all, List.dropWhile_eq_nil_iff.mpr all, List.nil_append]

theorem clientIn_from {client : Text} (plain : client.all isClientChar = true) (more : Text) :
    clientIn ("from ".toList ++ (client ++ ',' :: more)) = none := by
  have apart : after joint (' ' :: (client ++ ',' :: more)) = none := by
    cases reached : after joint (' ' :: (client ++ ',' :: more)) with
    | none => rfl
    | some rest =>
      -- the run of client characters ends at the comma, but in the joint at a blank
      have same : client ++ ',' :: more = "from".toList ++ ' ' :: rest :=
        (List.cons.inj (after_eq_some.mp reached)).2
      have ends := congrArg (List.dropWhile isClientChar) same
      rw [dropWhile_append_stop (by decide), dropWhile_append_stop (by decide),
        List.dropWhile_eq_nil_iff.mpr (List.all_eq_true.mp plain)] at ends
      cases ends
  have word : "from ".toList ++ (client ++ ',' :: more) = "from".toList ++
      ' ' :: (client ++ ',' :: more) := rfl
  rw [word, clientIn, takeWhile_append_stop (by decide), dropWhile_append_stop (by decide)]
  exact (congrArg (·.bind clientBefore) apart).trans rfl

theorem behindType_behind {client : Text} (filled : client ≠ [])
    (plain : client.all isClientChar = true) {more : Text} (absent : ']' ∉ client ++ ',' :: more)
    (text : Text) :
    (behindType (text ++ (joint ++ (client ++ ',' :: more)))).bind clientIn =
      (behindType text).bind (reading client) := by
  by_cases closed : ']' ∈ text
  · obtain ⟨type, rest, rfl, early⟩ := List.eq_append_cons_of_mem closed
    rw [List.append_assoc, List.cons_append, behindType_closed early, behindType_closed early]
    split
    · rfl
    · cases rest with
      | nil => exact clientIn_from plain more
      | cons c rest =>
        have reach := @after_append Char _ "] ".toList (']' :: c :: rest) joint
          (client ++ ',' :: more) fun short => absurd short (by simp)
        rw [List.cons_append] at reach
        rw [reach, Option.bind_map]
        exact Option.bind_congr fun name _ => clientIn_behind filled plain name more
  · have none : ']' ∉ text ++ (joint ++ (client ++ ',' :: more)) := by
      rw [List.mem_append, List.mem_append]
      rintro (inText | inJoint | behind)
      · exact closed inText
      · exact absurd inJoint (by decide)
      · exact absent behind
    rw [behindType_of_not_mem none, behindType_of_not_mem closed]
    rfl

theorem firstMatch_behind {client : Text} (filled : client ≠ [])
    (plain : client.all isClientChar = true) {more : Text} (absent : ']' ∉ client ++ ',' :: more)
    (text : Text) :
    firstMatch queryLineRe (text ++ (joint ++ (client ++ ',' :: more))) =
      firstMatch (laterReading client) text := by
  refine firstMatch_append (fun ending _ _ => ?_) ?_
  · have apart : ∀ k < opening.length, clashes (opening.drop k) joint = true := by decide
    rw [queryLineRe, laterReading, after_append _ fun short _ => apart _ short, Option.bind_assoc,
      Option.bind_assoc, Option.bind_map]
    exact Option.bind_congr fun rest _ => behindType_behind filled plain absent rest
  · have none : ']' ∉ joint ++ (client ++ ',' :: more) := by
      rw [List.mem_append]
      rintro (inJoint | behind)
      · exact absurd inJoint (by decide)
      · exact absent behind
    cases search : firstMatch queryLineRe (joint ++ (client ++ ',' :: more)) with
    | none => rfl
    | some other =>
      obtain ⟨ending, inside, matched⟩ := exists_of_firstMatch search
      rw [queryLineRe_of_not_mem fun member => none (inside.subset member)] at matched
      cases matched

/-! ## The whole line -/

theorem queryLineRe_of_head {c : Char} (other : c ≠ ' ') (rest : Text) :
    queryLineRe (c :: rest) = none := by
  rw [queryLineRe, after, if_neg]
  · rfl
  · exact fun begins => other (List.cons_prefix_cons.mp begins).1.symm

theorem firstMatch_of_no_blank {front : Text} (absent : ' ' ∉ front) (rest : Text) :
    firstMatch queryLineRe (front ++ rest) = firstMatch queryLineRe rest := by
  refine firstMatch_skip fun ending some inside => ?_
  obtain ⟨c, others, rfl⟩ := List.exists_cons_of_ne_nil some
  exact queryLineRe_of_head (fun same => absent (inside.subset (same ▸ List.mem_cons_self))) _

theorem firstMatch_of_stamp {stamp : Text} (absent : '[' ∉ stamp) (rest : Text) :
    firstMatch queryLineRe (stamp ++ (opening ++ rest)) = firstMatch queryLineRe
        (opening ++ rest) := by
  refine firstMatch_skip fun ending some inside => ?_
  have apart : ∀ k < opening.length, k ≠ 0 → clashes (opening.drop k) opening = true := by decide
  have missing : after opening ending = none := by
    cases found : after opening ending with
    | none => rfl
    | some others =>
      have member : '[' ∈ opening ++ others := List.mem_append_left _ (by decide)
      rw [← after_eq_some.mp found] at member
      exact absurd (inside.subset member) absent
  rw [queryLineRe, after_append _ fun short _ => apart _ short fun zero =>
    some (List.length_eq_zero_iff.mp zero), missing]
  rfl

/-- **What the pattern finds in a line** is what it finds in the name. -/
theorem firstMatch_line {stamp type client more : Text} (noBracket : '[' ∉ stamp)
    (typed : type ≠ []) (unclosed : ']' ∉ type) (unbroken : ' ' ∉ type) (filled : client ≠ [])
    (plain : client.all isClientChar = true) (absent : ']' ∉ client ++ ',' :: more) (name : Text) :
    firstMatch queryLineRe
        (stamp ++ (opening ++
        (type ++ "] ".toList ++ (name ++ (joint ++ (client ++ ',' :: more)))))) =
      found client name := by
  have head : queryLineRe
      (opening ++ (type ++ "] ".toList ++ (name ++ (joint ++ (client ++ ',' :: more))))) =
      reading client name := by
    have closing : type ++ "] ".toList ++ (name ++ (joint ++ (client ++ ',' :: more))) =
        type ++ ']' :: ' ' :: (name ++ (joint ++ (client ++ ',' :: more))) :=
        List.append_assoc _ _ _
    rw [queryLineRe, after_append_self, Option.bind_some, closing, behindType_closed unclosed,
      if_neg typed]
    exact clientIn_behind filled plain name more
  -- the blanks before the name: one begins the opening, one its second word, one ends the type
  have second (rest : Text) : queryLineRe (' ' :: ("query[".toList ++ rest)) = none := by
    have clash : clashes opening " query[".toList = true := by decide
    have differ : ¬ opening <+: ' ' :: ("query[".toList ++ rest) := not_prefix_of_clashes clash rest
    rw [queryLineRe, after, if_neg differ]
    rfl
  have closed : ' ' ∉ type ++ [']'] := by
    rw [List.mem_append]
    rintro (inType | bracket)
    · exact unbroken inType
    · exact absurd bracket (by decide)
  have words : opening = ' ' :: ("proxy:".toList ++ ' ' :: "query[".toList) := by decide
  have parts : opening ++ (type ++ "] ".toList ++ (name ++ (joint ++ (client ++ ',' :: more)))) =
      ' ' :: ("proxy:".toList ++ ' ' :: ("query[".toList ++ ((type ++ [']']) ++
        ((' ' :: name) ++ (joint ++ (client ++ ',' :: more)))))) := by
    have bracket : "] ".toList = [']', ' '] := by decide
    rw [words, bracket]
    simp only [List.cons_append, List.append_assoc, List.nil_append]
  rw [firstMatch_of_stamp noBracket, parts, firstMatch, ← parts, head,
    firstMatch_of_no_blank (by decide),
    firstMatch, second, Option.none_or, firstMatch_of_no_blank (by decide),
      firstMatch_of_no_blank closed,
    firstMatch_behind filled plain absent, found]

/-! ## Every line the proxy logs -/

/-- Neither a bracket nor a line break. -/
def isQuiet (c : Char) : Bool := c ≠ '[' && c ≠ ']' && c ≠ '\n'

/-- A query as the proxy logs it, for a client. An address, the type of a question and what is
said of the answer have no bracket, and no line is broken but by the name. -/
structure Logged (query : Query) (client : Text) : Prop where
  clientIp : query.clientIp = some client
  filled : client ≠ []
  known : client ≠ "unknown".toList
  unclosed : ']' ∉ client
  queryType : ∀ type, query.queryType = some type →
    type.all (fun c => isQuiet c && isSolid c) = true
  answer : ∀ field ∈ [query.blockReason, query.responseCode, query.resolvedIp, query.failure],
    ∀ text, field = some text → text.all isQuiet = true

/-- The line is one line, and reads back as the client. -/
def ReadsBack (query : Query) (now : LocalTime) (client : Text) : Prop :=
  (∃ line, formatQueryLine query now = line ++ ['\n'] ∧ '\n' ∉ line) ∧
    parseQueryLine (formatQueryLine query now) = some client

theorem orElse_cases (field : Option Text) (fallback : Text) :
    orElse field fallback = fallback ∨ field = some (orElse field fallback) := by
  cases field with
  | none => exact .inl rfl
  | some text =>
    by_cases empty : text = []
    · exact .inl (by rw [orElse, Option.filter_some_neg (by simpa using empty), Option.getD_none])
    · exact .inr (by rw [orElse, Option.filter_some_pos (by simpa using empty), Option.getD_some])

theorem orElse_ne_nil {field : Option Text} {fallback : Text} (filled : fallback ≠ []) :
    orElse field fallback ≠ [] := by
  cases field with
  | none => exact filled
  | some text =>
    by_cases empty : text = []
    · rwa [orElse, Option.filter_some_neg (by simpa using empty), Option.getD_none]
    · rwa [orElse, Option.filter_some_pos (by simpa using empty), Option.getD_some]

theorem all_orElse {p : Char → Bool} {field : Option Text} {fallback : Text}
    (default : fallback.all p = true) (given : ∀ text, field = some text → text.all p = true) :
    (orElse field fallback).all p = true := by
  obtain same | same := orElse_cases field fallback
  · rwa [same]
  · exact given _ same

theorem all_around {p : Char → Bool} {field : Option Text} {before behind : Text}
    (outer : (before ++ behind).all p = true) (given : ∀ text, field = some text →
    text.all p = true) :
    (around before field behind).all p = true := by
  rw [List.all_append, Bool.and_eq_true] at outer
  unfold around
  split
  · rfl
  · rename_i text present
    rw [List.all_append, List.all_append, outer.1, outer.2,
      given text (Option.filter_eq_some_iff.mp present).1]
    rfl

theorem isQuiet_outcome {query : Query} {client : Text} (logged : Logged query client) :
    (outcome query).all isQuiet = true := by
  obtain ⟨reason, code, resolved, failure⟩ :=
    And.intro (logged.answer query.blockReason (by simp))
      (And.intro (logged.answer query.responseCode (by simp))
      (And.intro (logged.answer query.resolvedIp (by simp))
      (logged.answer query.failure (by simp))))
  unfold outcome
  split
  · rw [List.all_append, List.all_append, all_around (by decide) reason]
    decide
  · split
    · rw [List.all_append, List.all_append, all_around (by decide) reason]
      decide
    · rw [List.all_append, List.all_append, all_orElse (by decide) code,
        all_around (by decide) resolved, all_around (by decide) failure]
      rfl

theorem isQuiet_toDigits (n : Nat) : (Nat.toDigits 10 n).all isQuiet = true := by
  refine List.all_eq_true.mpr fun c member => ?_
  have digit := Nat.isDigit_of_mem_toDigits (by decide) (by decide) member
  rw [isQuiet, Bool.and_eq_true, Bool.and_eq_true, decide_eq_true_eq, decide_eq_true_eq,
    decide_eq_true_eq]
  refine ⟨⟨?_, ?_⟩, ?_⟩ <;> rintro rfl <;> exact absurd digit (by decide)

theorem isQuiet_padStart {length : Nat} {filler : Char} (quiet : isQuiet filler = true) (n : Nat) :
    (padStart length filler (Nat.toDigits 10 n)).all isQuiet = true := by
  rw [padStart, List.all_append, isQuiet_toDigits, Bool.and_true, List.all_replicate, quiet]
  simp

theorem isQuiet_latencyTail (query : Query) : (latencyTail query).all isQuiet = true := by
  unfold latencyTail
  split
  · rfl
  · rw [List.all_append, List.all_append, isQuiet_toDigits]
    decide

theorem isQuiet_syslogTime (now : LocalTime) : (syslogTime now).all isQuiet = true := by
  have month : ∀ month : Fin 12, (months[month]).all isQuiet = true := by decide
  simp only [syslogTime, pad, List.all_append, List.all_cons,
    isQuiet_padStart (by decide : isQuiet '0' = true),
    isQuiet_padStart (by decide : isQuiet ' ' = true), month]
  decide

theorem plain_of_queryLineRe {text client : Text} (read : queryLineRe text = some client) :
    client.all isClientChar = true := by
  obtain ⟨rest, -, word⟩ := Option.bind_eq_some_iff.mp read
  unfold clientIn at word
  split at word
  · cases word
  · obtain ⟨behind, -, matched⟩ := Option.bind_eq_some_iff.mp word
    unfold clientBefore at matched
    split at matched
    · cases matched
    · rw [← Option.some.inj matched]
      exact List.all_takeWhile

/-- What a line has behind its client and the comma. -/
def remainder (query : Query) : Text := ' ' :: (outcome query ++ latencyTail query)

theorem isQuiet_remainder {query : Query} {client : Text} (logged : Logged query client) :
    (remainder query).all isQuiet = true := by
  rw [remainder, List.all_cons, List.all_append, isQuiet_outcome logged, isQuiet_latencyTail]
  decide

theorem not_mem_of_isQuiet {text : Text} (quiet : text.all isQuiet = true) {c : Char}
    (loud : isQuiet c = false) :
    c ∉ text := fun member => by
  have := List.all_eq_true.mp quiet c member
  rw [loud] at this
  cases this

theorem formatQueryLine_eq {query : Query} {client : Text} (logged : Logged query client)
    (now : LocalTime) :
    formatQueryLine query now = syslogTime now ++
      (opening ++ (orElse query.queryType ['A'] ++ "] ".toList ++
      (nameOf query ++ (joint ++ (client ++ ',' :: remainder query))))) ++ ['\n'] := by
  have address : orElse query.clientIp "unknown".toList = client := by
    rw [logged.clientIp, orElse, Option.filter_some_pos (by simpa using logged.filled),
      Option.getD_some]
  have comma : ", ".toList = [',', ' '] := by decide
  rw [formatQueryLine, address, comma]
  simp only [remainder, List.append_assoc, List.cons_append, List.nil_append]

/-- **A line reads back** exactly when the name has no line break, the client has neither white
space nor a comma, and what the pattern finds in the name is the client. -/
theorem reads_back_iff {query : Query} {client : Text} (logged : Logged query client)
    (now : LocalTime) :
    ReadsBack query now client ↔ '\n' ∉ nameOf query ∧ client.all isClientChar = true ∧
      found client (nameOf query) = some client := by
  have line := formatQueryLine_eq logged now
  have quietType : (orElse query.queryType ['A']).all (fun c => isQuiet c && isSolid c) = true :=
    all_orElse (by decide) logged.queryType
  have inType {c : Char} (loud : (isQuiet c && isSolid c) = false) :
      c ∉ orElse query.queryType ['A'] := by
    intro member
    have := List.all_eq_true.mp quietType c member
    rw [loud] at this
    cases this
  have parse (plain : client.all isClientChar = true) :
      parseQueryLine (formatQueryLine query now) =
        (found client (nameOf query)).filter (· ≠ "unknown".toList) := by
    have absent : ']' ∉ client ++ ',' :: (remainder query ++ ['\n']) := by
      have quiet := not_mem_of_isQuiet (isQuiet_remainder logged) (c := ']') (by decide)
      simp [logged.unclosed, quiet]
    have whole := firstMatch_line (not_mem_of_isQuiet (isQuiet_syslogTime now) (by decide))
      (orElse_ne_nil (by decide)) (inType (by decide)) (inType (by decide)) logged.filled
      plain absent (nameOf query)
    rw [parseQueryLine, line, ← whole]
    simp only [List.append_assoc, List.cons_append]
  constructor
  · rintro ⟨⟨body, ends, single⟩, parsed⟩
    rw [line] at ends
    have same := List.append_cancel_right ends
    have plain : client.all isClientChar = true := by
      obtain ⟨search, -⟩ := Option.filter_eq_some_iff.mp parsed
      obtain ⟨ending, -, matched⟩ := exists_of_firstMatch search
      exact plain_of_queryLineRe matched
    refine ⟨fun member => single ?_, plain, ?_⟩
    · rw [← same]
      simp [member]
    · rw [parse plain] at parsed
      exact (Option.filter_eq_some_iff.mp parsed).1
  · rintro ⟨unbroken, plain, first⟩
    refine ⟨⟨_, line, ?_⟩, ?_⟩
    · have quietStamp := not_mem_of_isQuiet (isQuiet_syslogTime now) (c := '\n') (by decide)
      have quietRest := not_mem_of_isQuiet (isQuiet_remainder logged) (c := '\n') (by decide)
      have quietClient : '\n' ∉ client := fun member =>
        absurd (List.all_eq_true.mp plain '\n' member) (by decide)
      simp only [List.mem_append, List.mem_cons]
      rintro (stamp | opens | (type | closes) | name | joins | address | comma | rest)
      · exact quietStamp stamp
      · exact absurd opens (by decide)
      · exact inType (by decide) type
      · exact absurd closes (by decide)
      · exact unbroken name
      · exact absurd joins (by decide)
      · exact quietClient address
      · exact absurd comma (by decide)
      · exact quietRest rest
    · rw [parse plain, first, Option.filter_some_pos]
      exact decide_eq_true logged.known

/-- A query for a name and the address that asked for it. -/
def asking (name client : Text) : Query :=
  { clientIp := some client, domain := some name, queryType := some ['A'], action :=
    "allowed".toList
    blockReason := none, responseCode := some "NOERROR".toList, resolvedIp := none, failure := none
    latencyUs := none }

theorem asking_logged (name : Text) : Logged (asking name "10.0.0.5".toList) "10.0.0.5".toList where
  clientIp  := rfl
  filled    := by decide
  known     := by decide
  unclosed  := by decide
  queryType := by
    rintro type ⟨⟩
    decide
  answer    := by
    intro field listed text is
    simp only [asking, List.mem_cons, List.not_mem_nil, or_false] at listed
    obtain rfl | rfl | rfl | rfl := listed <;> cases is
    decide

theorem one_word_reads_back :
    ReadsBack (asking "a.example".toList "10.0.0.5".toList) ⟨9, 1, 13, 5, 9⟩ "10.0.0.5".toList :=
  (reads_back_iff (asking_logged _) _).mpr ⟨by decide, by decide, by decide⟩

/-- A name with a blank in it hides its client. -/
theorem blank_hides_client :
    ¬ ∀ query client now, Logged query client → ReadsBack query now client := fun reads =>
  absurd (reads _ _ ⟨9, 1, 13, 5, 9⟩ (asking_logged "a b".toList)).2 (by decide)

end QueryLogLine

end Cidrella
