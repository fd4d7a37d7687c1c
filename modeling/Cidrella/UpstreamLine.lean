import Cidrella.Lib.Framing
import Cidrella.Lib.Text

/-!
# Asking the upstreams in turn

`queryUpstreams` of `utils/encrypted-forwarder.js`. A query is put to the upstream providers
one after the other until one answers or its time is spent. A provider that gave no answer
is held for a while, and a held one goes to the back of the line.

The line is filtered twice out of the same turn, first for the upstreams that are not held
and then for the held ones, and every test reads the clock anew. An upstream whose hold ends
between its two tests is in neither half. `asksEveryone_iff` says that this is the only way
to lose one: everyone is asked exactly when no hold ends there.
-/

set_option autoImplicit false

namespace Cidrella

namespace Forwarder

/-- An upstream provider. -/
structure Upstream where
  hostname : Text
  label : Text
  addresses : List Text
  deriving DecidableEq, Repr

/-- `providerName`. -/
def providerName (upstream : Upstream) : Text :=
  if upstream.hostname ≠ [] then upstream.hostname else upstream.label

/-- What `forward` does with a query: resolves an answer, resolves null, or rejects. -/
inductive Reply where
  | answer (message : Bytes)
  | silent
  | failed
  deriving DecidableEq, Repr

/-- The answer of a reply. -/
def Reply.message : Reply → Option Bytes
  | answer message => some message
  | silent | failed => none

/-- A call of `queryUpstreams`: its arguments, the map of holds when it is made, what the
clock reads each time it is read, and what `forward` does each time it is called. -/
structure Call where
  upstreams : List Upstream
  first : Nat := 0
  budgetMs : Nat
  holdMs : Nat
  held : Text → Option Nat
  now : Nat → Nat
  forward : Nat → Upstream → Reply

/-- What a call does: whom it asks, with the replies, what it returns, the holds it sets and
ends, the failovers it counts, and how often it reads the clock. -/
structure Run where
  asked : List (Upstream × Reply) := []
  answer : Option Bytes := none
  holds : List (Text × Option Nat) := []
  failovers : List Text := []
  reads : Nat
  deriving DecidableEq, Repr

/-- The elements that pass a test that reads the clock, `reading` times before. -/
def filterReading {α : Type} (test : Nat → α → Bool) (reading : Nat) : List α → List α
  | [] => []
  | item :: items =>
    if test reading item then item :: filterReading test (reading + 1) items
    else filterReading test (reading + 1) items

namespace Call

/-- `deadline`. -/
def deadline (c : Call) : Nat := c.now 0 + c.budgetMs

/-- `turn`: the upstreams from the first one on. -/
def turn (c : Call) : List Upstream :=
  c.upstreams.mapIdx fun i upstream => c.upstreams.getD ((c.first + i) % c.upstreams.length)
    upstream

/-- `isHeld`, at a reading of the clock. -/
def isHeld (c : Call) (reading : Nat) (upstream : Upstream) : Bool :=
  (c.held (providerName upstream)).getD 0 > c.now reading

/-- The reading at which the first test of the turn's first upstream is made. -/
def firstTest : Nat := 1

/-- The same for its second test. -/
def secondTest (c : Call) : Nat := firstTest + c.turn.length

/-- `line`. -/
def line (c : Call) : List Upstream :=
  filterReading (fun reading upstream => !c.isHeld reading upstream) firstTest c.turn ++
    filterReading c.isHeld c.secondTest c.turn

/-- The loop of `queryUpstreams`, from the place `i` in the line on. -/
def ask (c : Call) (i reading : Nat) : List Upstream → Run
  | [] => { reads := reading }
  | upstream :: rest =>
    if c.now reading < c.deadline then
      let name := providerName upstream
      match c.forward i upstream with
      | .answer message =>
        { asked := [(upstream, .answer message)], answer := some message, holds := [(name, none)],
          reads := reading + 1 }
      | reply =>
        -- the clock is read for the hold, and for the failover when someone is left to ask
        let later := c.ask (i + 1) (if rest = [] then reading + 2 else reading + 3) rest
        { later with
          asked := (upstream, reply) :: later.asked
          holds := (name, some (c.now (reading + 1) + c.holdMs)) :: later.holds
          failovers := if rest ≠ [] ∧ c.now (reading + 2) < c.deadline then name :: later.failovers
            else later.failovers }
    else { reads := reading + 1 }

/-- `queryUpstreams`. -/
def queryUpstreams (c : Call) : Run := c.ask 0 (c.secondTest + c.turn.length) c.line

end Call

/-! ## Filtering with a clock -/

section Filter

variable {α : Type} {test other : Nat → α → Bool}

theorem mem_filterReading {reading : Nat} {items : List α} {item : α} :
    item ∈ filterReading test reading items ↔ ∃ i, items[i]? = some item ∧
    test (reading + i) item = true := by
  induction items generalizing reading with
  | nil => simp [filterReading]
  | cons head items ih =>
    have later : (∃ i, (head :: items)[i]? = some item ∧ test (reading + i) item = true) ↔
        head = item ∧ test reading item = true ∨ item ∈ filterReading test (reading + 1) items := by
      rw [ih]
      constructor
      · rintro ⟨_ | i, found, passes⟩
        · exact .inl ⟨Option.some.inj found, passes⟩
        · exact .inr ⟨i, found, by rwa [Nat.add_right_comm]⟩
      · rintro (⟨rfl, passes⟩ | ⟨i, found, passes⟩)
        · exact ⟨0, rfl, passes⟩
        · exact ⟨i + 1, found, by rwa [Nat.add_right_comm] at passes⟩
    rw [later, filterReading]
    split
    case isTrue passes =>
      rw [List.mem_cons]
      refine or_congr_left ⟨fun same => ?_, fun both => both.1.symm⟩
      exact ⟨same.symm, same ▸ passes⟩
    case isFalse fails =>
      refine ⟨.inr, fun either => either.resolve_left ?_⟩
      rintro ⟨rfl, passes⟩
      exact fails passes

theorem filterReading_congr {items : List α} {reading again : Nat}
    (agree : ∀ i item, items[i]? = some item → test (reading + i) item = other (again + i) item) :
    filterReading test reading items = filterReading other again items := by
  induction items generalizing reading again with
  | nil => rfl
  | cons item items ih =>
    have here : test reading item = other again item := agree 0 item rfl
    have later : filterReading test (reading + 1) items = filterReading other
        (again + 1) items := by
      refine ih fun i found atPlace => ?_
      rw [Nat.add_right_comm reading, Nat.add_right_comm again]
      exact agree (i + 1) found atPlace
    rw [filterReading, filterReading, here, later]

theorem filterReading_perm (test : Nat → α → Bool) (items : List α) (reading : Nat) :
    (filterReading (fun k item => !test k item) reading items ++
    filterReading test reading items).Perm items := by
  induction items generalizing reading with
  | nil => exact .refl _
  | cons item items ih =>
    rw [filterReading, filterReading]
    cases passes : test reading item with
    | true => exact List.perm_middle.trans ((ih (reading + 1)).cons item)
    | false => exact (ih (reading + 1)).cons item

end Filter

namespace Call

/-! ## The loop -/

section Loop

variable {c : Call}

/-- **One turn of the loop.** Time is up, the upstream answers, or it does not and the rest of
the line is asked. -/
theorem ask_cases (i reading : Nat) (upstream : Upstream) (rest : List Upstream) :
    (c.deadline ≤ c.now reading ∧ c.ask i reading (upstream :: rest) = { reads := reading + 1 }) ∨
      (∃ message, (c.ask i reading (upstream :: rest)).asked = [(upstream, .answer message)] ∧
        (c.ask i reading (upstream :: rest)).answer = some message) ∨
      ∃ reply next, reply.message = none ∧
        (c.ask i reading (upstream :: rest)).asked = (upstream, reply) ::
        (c.ask (i + 1) next rest).asked ∧ (c.ask i reading (upstream :: rest)).answer =
        (c.ask (i + 1) next rest).answer ∧ (c.ask i reading (upstream :: rest)).reads =
        (c.ask (i + 1) next rest).reads := by
  rw [ask]
  split
  case isTrue =>
    right
    cases c.forward i upstream with
    | answer message => exact .inl ⟨message, rfl, rfl⟩
    | silent => exact .inr ⟨.silent, _, rfl, rfl, rfl, rfl⟩
    | failed => exact .inr ⟨.failed, _, rfl, rfl, rfl, rfl⟩
  case isFalse late => exact .inl ⟨Nat.not_lt.mp late, rfl⟩

theorem ask_prefix (i reading : Nat) (line : List Upstream) :
    (c.ask i reading line).asked.map Prod.fst <+: line := by
  induction line generalizing i reading with
  | nil => exact List.prefix_refl _
  | cons upstream rest ih =>
    rcases c.ask_cases i reading upstream rest with ⟨-, late⟩ | ⟨message, asked, -⟩ | ⟨reply, next,
      -, asked, -⟩
    · rw [late]
      exact List.nil_prefix
    · rw [asked]
      exact ⟨rest, rfl⟩
    · rw [asked]
      exact (List.prefix_cons_inj upstream).mpr (ih _ _)

theorem ask_until (i reading : Nat) (line : List Upstream) :
    ∀ entry ∈ (c.ask i reading line).asked.dropLast, entry.2.message = none := by
  induction line generalizing i reading with
  | nil =>
    intro entry member
    cases member
  | cons upstream rest ih =>
    intro entry member
    rcases c.ask_cases i reading upstream rest with ⟨-, late⟩ | ⟨message, asked, -⟩ |
      ⟨reply, next, unanswered, asked, -⟩
    · rw [late] at member
      cases member
    · rw [asked] at member
      cases member
    · rw [asked] at member
      cases later : (c.ask (i + 1) next rest).asked with
      | nil =>
        rw [later] at member
        cases member
      | cons first others =>
        rw [later, List.dropLast_cons_cons, ← later] at member
        rcases List.mem_cons.mp member with rfl | inRest
        · exact unanswered
        · exact ih _ _ entry inRest

theorem ask_answer (i reading : Nat) (line : List Upstream) :
    (c.ask i reading line).answer = (c.ask i reading line).asked.getLast?.bind (·.2.message) := by
  induction line generalizing i reading with
  | nil => rfl
  | cons upstream rest ih =>
    rcases c.ask_cases i reading upstream rest with ⟨-, late⟩ | ⟨message, asked, answered⟩ |
      ⟨reply, next, unanswered, asked, same, -⟩
    · rw [late]
      rfl
    · rw [asked, answered]
      rfl
    · rw [asked, same, ih]
      cases later : (c.ask (i + 1) next rest).asked with
      | nil => exact unanswered.symm
      | cons first others => rw [List.getLast?_cons_cons]

theorem ask_gives_up (i reading : Nat) (line : List Upstream)
    (gaveUp : (c.ask i reading line).answer = none) :
    (∀ upstream ∈ line, ∃ reply, (upstream, reply) ∈ (c.ask i reading line).asked ∧
      reply.message = none) ∨ ∃ k < (c.ask i reading line).reads, c.deadline ≤ c.now k := by
  induction line generalizing i reading with
  | nil => exact .inl fun upstream member => by cases member
  | cons upstream rest ih =>
    rcases c.ask_cases i reading upstream rest with ⟨spent, late⟩ | ⟨message, -, answered⟩ |
      ⟨reply, next, unanswered, asked, same, reads⟩
    · rw [late]
      exact .inr ⟨reading, Nat.lt_succ_self _, spent⟩
    · rw [answered] at gaveUp
      cases gaveUp
    · rw [same] at gaveUp
      rw [asked, reads]
      refine (ih _ _ gaveUp).imp_left fun all other member => ?_
      rcases List.mem_cons.mp member with rfl | inRest
      · exact ⟨reply, List.mem_cons_self, unanswered⟩
      · obtain ⟨given, inAsked, silent⟩ := all other inRest
        exact ⟨given, List.mem_cons_of_mem _ inAsked, silent⟩

end Loop

/-! ## The line -/

section Line

variable {c : Call}

theorem turn_eq_rotate (c : Call) : c.turn = c.upstreams.rotate c.first := by
  refine List.ext_getElem (by rw [turn, List.length_mapIdx, List.length_rotate]) fun i inTurn
    inList => ?_
  rw [turn, List.length_mapIdx] at inTurn
  have below : (c.first + i) % c.upstreams.length < c.upstreams.length := Nat.mod_lt _ (by omega)
  simp only [turn, List.getElem_mapIdx, List.getElem_rotate]
  rw [List.getD_eq_getElem _ _ below]
  simp only [Nat.add_comm]

theorem turn_perm (c : Call) : c.turn.Perm c.upstreams := turn_eq_rotate c ▸ List.rotate_perm _ _

/-- No hold ends between the two tests of an upstream: none is in force at the first and over
at the second. -/
def NoHoldEnds (c : Call) : Prop :=
  ∀ i upstream, c.turn[i]? = some upstream → ∀ release, c.held (providerName upstream) =
    some release → ¬ (c.now (firstTest + i) < release ∧ release ≤ c.now (c.secondTest + i))

/-- Everyone is asked: the line is the list, those not held first and each half in turn; the
upstreams are asked in this order until one answers; and a call that gives up has asked them
all, or its time is spent. -/
structure AsksEveryone (c : Call) : Prop where
  everyone : c.line.Perm c.upstreams
  inTurn : c.line =
    filterReading (fun reading upstream => !c.isHeld reading upstream) firstTest c.turn ++
      filterReading c.isHeld firstTest c.turn
  inOrder : c.queryUpstreams.asked.map Prod.fst <+: c.line
  untilAnswer : ∀ entry ∈ c.queryUpstreams.asked.dropLast, entry.2.message = none
  answer : c.queryUpstreams.answer = c.queryUpstreams.asked.getLast?.bind (·.2.message)
  givesUp : c.queryUpstreams.answer = none →
    (∀ upstream ∈ c.upstreams, ∃ reply, (upstream, reply) ∈ c.queryUpstreams.asked ∧
      reply.message = none) ∨ ∃ k < c.queryUpstreams.reads, c.deadline ≤ c.now k

theorem isHeld_iff {reading : Nat} {upstream : Upstream} : c.isHeld reading upstream = true ↔
    ∃ release, c.held (providerName upstream) = some release ∧ c.now reading < release := by
  rw [isHeld, decide_eq_true_eq]
  cases c.held (providerName upstream) with
  | none => simp
  | some release => simp

theorem tests_agree (monotone : Monotone c.now) (kept : c.NoHoldEnds) {i : Nat}
    {upstream : Upstream} (atPlace : c.turn[i]? = some upstream) :
    c.isHeld (c.secondTest + i) upstream = c.isHeld (firstTest + i) upstream := by
  rw [Bool.eq_iff_iff, isHeld_iff, isHeld_iff]
  have later : c.now (firstTest + i) ≤ c.now (c.secondTest + i) :=
    monotone (by rw [secondTest]; omega)
  constructor
  · rintro ⟨release, held, inForce⟩
    exact ⟨release, held, later.trans_lt inForce⟩
  · rintro ⟨release, held, inForce⟩
    exact ⟨release, held, Nat.lt_of_not_le fun ended => kept i upstream atPlace release held
      ⟨inForce, ended⟩⟩

/-- **Everyone is asked exactly when no hold ends between the two tests of an upstream.** -/
theorem asksEveryone_iff (distinct : c.upstreams.Nodup) (monotone : Monotone c.now) :
    c.AsksEveryone ↔ c.NoHoldEnds := by
  constructor
  · rintro everyone i upstream atPlace release held ⟨inForce, ended⟩
    have inList : upstream ∈ c.upstreams := c.turn_perm.mem_iff.mp (List.mem_of_getElem? atPlace)
    have distinctTurn : c.turn.Nodup := c.turn_perm.nodup_iff.mpr distinct
    have onlyPlace : ∀ {j}, c.turn[j]? = some upstream → j = i := fun found => by
      have below := (List.getElem?_eq_some_iff.mp found).1
      exact (List.getElem?_inj below distinctTurn).mp (found.trans atPlace.symm)
    have firstHeld : c.isHeld (firstTest + i) upstream = true :=
      isHeld_iff.mpr ⟨release, held, inForce⟩
    have secondFree : ¬ c.isHeld (c.secondTest + i) upstream = true := by
      rintro stillHeld
      obtain ⟨other, same, longer⟩ := isHeld_iff.mp stillHeld
      obtain rfl := Option.some.inj (held.symm.trans same)
      omega
    rcases List.mem_append.mp (everyone.everyone.mem_iff.mpr inList) with free | stillHeld
    · obtain ⟨j, found, notHeld⟩ := mem_filterReading.mp free
      obtain rfl := onlyPlace found
      rw [firstHeld] at notHeld
      cases notHeld
    · obtain ⟨j, found, isHeld⟩ := mem_filterReading.mp stillHeld
      obtain rfl := onlyPlace found
      exact secondFree isHeld
  · intro kept
    have inTurn : c.line =
        filterReading (fun reading upstream => !c.isHeld reading upstream) firstTest c.turn ++
          filterReading c.isHeld firstTest c.turn := by
      rw [line, filterReading_congr fun i upstream => tests_agree monotone kept]
    have everyone : c.line.Perm c.upstreams := by
      rw [inTurn]
      exact (filterReading_perm c.isHeld c.turn firstTest).trans c.turn_perm
    refine ⟨everyone, inTurn, ask_prefix _ _ _, ask_until _ _ _, ask_answer _ _ _, fun gaveUp => ?_⟩
    refine (ask_gives_up _ _ _ gaveUp).imp_left fun all upstream member => ?_
    exact all upstream (everyone.mem_iff.mpr member)

end Line

end Call

/-- Two providers, the first one held. -/
def sampleCall : Call where
  upstreams := [⟨"dns10.quad9.net".toList, [], []⟩, ⟨"unfiltered.adguard-dns.com".toList, [], []⟩]
  budgetMs := 10000
  holdMs := 30000
  held := fun name => if name = "dns10.quad9.net".toList then some 1000 else none
  now := fun _ => 900
  forward := fun _ _ => .silent

/-- While the hold lasts. -/
theorem asksEveryone_iff_sample : sampleCall.AsksEveryone := by
  refine (Call.asksEveryone_iff (by decide) (fun a b _ => le_rfl)).mpr ?_
  rintro i upstream - release - ⟨inForce, ended⟩
  exact absurd inForce (Nat.not_lt.mpr ended)

/-- The same providers, both held until the time that is reached between the tests. -/
def endingCall : Call := { sampleCall with held := fun _ => some 1000, now :=
  fun k => if k < 3 then 999 else 1000 }

/-- **Nobody is asked when all holds end between the tests**, though there was time. -/
theorem holds_end_between_tests : endingCall.upstreams.Nodup ∧ Monotone endingCall.now ∧
    endingCall.queryUpstreams.asked = [] ∧ endingCall.queryUpstreams.answer = none ∧
    endingCall.now 10 < endingCall.deadline ∧ ¬ endingCall.AsksEveryone := by
  have asked : endingCall.queryUpstreams.asked = [] := by decide
  have gaveUp : endingCall.queryUpstreams.answer = none := by decide
  have monotone : Monotone endingCall.now := by
    intro a b le
    simp only [endingCall]
    split_ifs <;> omega
  refine ⟨by decide, monotone, asked, gaveUp, by decide, fun everyone => ?_⟩
  have nobody : endingCall.line = [] := by decide
  have all := everyone.everyone
  rw [nobody] at all
  cases all.nil_eq

end Forwarder

end Cidrella
