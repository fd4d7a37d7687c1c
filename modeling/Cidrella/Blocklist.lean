import Mathlib.Data.Char
import Mathlib.Data.List.Lex
import Cidrella.DnsNames
import Cidrella.Lib.Pages

/-!
# Blocklist refreshes

`utils/blocklist.js`: a feed is streamed into `blocklist_stage`, then applied to
`blocklist_domains` page by page, then what is not staged is swept. The refresh is cut at
its waits: `advance` is what runs between two of them, and each statement of it may throw.
Only one refresh is under way, so the staging table is its own.

Nothing but the pages and the sweep touches the list. A page only adds staged domains and
the sweep only removes what was not staged, so what is in both lists is never missing
(`refresh_never_under_blocks`).
-/

set_option autoImplicit false

namespace Cidrella

namespace Blocklist

open Address DnsNames

/-! ## One line of a feed -/

/-- A feed may hold any text. Of the letters beyond ASCII the kelvin sign alone has a lower
case in it; whatever else `toLowerCase` changes is no domain before or after. -/
def kelvinAsK (text : Text) : Text := text.map fun c => if c = '\u212a' then 'k' else c

/-- A letter or digit of a domain. -/
def isAlnum (c : Char) : Bool := ('a' ≤ c && c ≤ 'z') || c.isDigit

/-- `[a-z0-9]([a-z0-9-]*[a-z0-9])?`. -/
def isLabel (label : Text) : Bool :=
  label.head?.any isAlnum && label.getLast?.any isAlnum && label.all fun c => isAlnum c || c = '-'

/-- `DOMAIN_RE`: two labels or more. -/
def isDomain (text : Text) : Bool :=
  let labels := text.splitOn '.'
  2 ≤ labels.length && labels.all isLabel

/-- `IP_RE`. -/
def isIp (text : Text) : Bool :=
  let parts := text.splitOn '.'
  parts.length = 4 && parts.all isOctet

/-- `isValidDomain`. -/
def isValidDomain (domain : Text) : Bool :=
  0 < domain.length && domain.length ≤ 253 && isDomain domain && !isIp domain

/-- `parseDomainLine`. -/
def parseDomainLine (rawLine : Text) : Option Text :=
  let line := toLowerCase (kelvinAsK (trim rawLine))
  if line = [] || line.head? = some '#' then none
  else
    let domain := trim (line.takeWhile (· ≠ '#'))
    if domain = [] || domain = "localhost".toList || !isValidDomain domain then none
    else some domain

theorem parseDomainLine_ne_nil {line domain : Text}
    (parsed : parseDomainLine line = some domain) : domain ≠ [] := by
  unfold parseDomainLine at parsed
  dsimp only at parsed
  split at parsed
  · cases parsed
  · split at parsed
    · cases parsed
    · rename_i valid
      obtain rfl := Option.some.inj parsed
      rintro empty
      exact valid (by rw [empty]; rfl)

example : parseDomainLine "  Evil.Example.COM # c2".toList =
    some "evil.example.com".toList := by decide

example : parseDomainLine "0.0.0.0 evil.example.com".toList = none := by decide

/-! ## The tables -/

/-- A row of `blocklist_categories`. -/
structure Category where
  domainCount : Nat := 0
  etag : Option Text := none
  lastModified : Option Text := none
  lastError : Option Text := none
  deriving DecidableEq, Repr

/-- `blocklist_domains`, keyed by domain and category, `blocklist_stage`, and the categories. -/
structure Db where
  domains : Finset (Text × Text)
  stage : Finset Text
  categories : Text → Option Category

namespace Db

/-- The domains of a category. -/
def listed (db : Db) (slug : Text) : Finset Text := (db.domains.filter (·.2 = slug)).image Prod.fst

theorem mem_listed {db : Db} {slug domain : Text} : domain ∈ db.listed slug ↔
    (domain, slug) ∈ db.domains := by
  unfold listed
  simp only [Finset.mem_image, Finset.mem_filter]
  constructor
  · rintro ⟨⟨other, category⟩, ⟨member, rfl⟩, rfl⟩
    exact member
  · intro member
    exact ⟨(domain, slug), ⟨member, rfl⟩, rfl⟩

def updateCategory (db : Db) (slug : Text) (update : Category → Category) : Db :=
  { db with categories := fun other => if other = slug then (db.categories other).map update
    else db.categories other }

/-- The statement of `applyChunk`. -/
def applyChunk (db : Db) (slug cursor : Text) (size : Nat) : Db :=
  { db with domains := db.domains ∪ ((Pages.page db.stage cursor size).map fun domain =>
    (domain, slug)).toFinset }

/-- The sweep. -/
def sweep (db : Db) (slug : Text) : Db :=
  { db with domains := db.domains.filter fun row => row.2 = slug → row.1 ∈ db.stage }

def clearStage (db : Db) : Db := { db with stage := ∅ }

end Db

/-! ## A refresh -/

/-- `BLOCKLIST_INSERT_BATCH`. -/
def blocklistInsertBatch : Nat := 25000

/-- The lines that come, and the error that breaks the stream after them. -/
structure Feed where
  lines : List Text
  breaks : Option Text := none
  etag : Option Text := none
  lastModified : Option Text := none
  deriving DecidableEq, Repr

/-- How `openPinnedOutboundStream` ends: it throws or is refused with a text, or the server
answers 304 or sends a feed. -/
inductive Response where
  | threw (message : Text)
  | notModified
  | refused (message : Text)
  | feed (feed : Feed)
  deriving DecidableEq, Repr

/-- The statements that may throw. -/
inductive Statement where
  | recordNotModified
  | recordError
  | clearStage
  | flush
  | count
  | prepare
  | boundary
  | applyChunk
  | sweep
  | recordSuccess
  deriving DecidableEq, Repr

/-- Which statements throw between two waits, and with what. -/
abbrev Throws := Statement → Option Text

/-- What a failure came from: the download and its staging, an empty feed, the write phase,
or a statement that nothing catches. -/
inductive Part where
  | download
  | empty
  | storing
  | uncaught
  deriving DecidableEq, Repr

/-- What `refreshCategory` returns or throws. -/
inductive Answer where
  | notModified (count : Nat)
  | refreshed (count : Nat)
  | failed (part : Part) (message : Text)
  deriving DecidableEq, Repr

/-- Where a refresh waits. -/
inductive Phase where
  | fetching (response : Response)
  | staging (feed : Feed) (batch : List Text)
  | applying (feed : Feed) (cursor : Text) (staged : Nat)
  deriving DecidableEq, Repr

/-- `refreshInProgress` and where that refresh waits. -/
structure Refresh where
  slug : Text
  phase : Phase
  deriving DecidableEq, Repr

/-- The database, the refresh under way, and the last answer. -/
structure State where
  db : Db
  refresh : Option Refresh := none
  answer : Option Answer := none

namespace State

def wait (db : Db) (slug : Text) (phase : Phase) : State := { db, refresh := some ⟨slug, phase⟩ }

def done (db : Db) (answer : Answer) : State := { db, answer := some answer }

/-- `fail`. -/
def fail (db : Db) (slug : Text) (part : Part) (message : Text) (throws : Throws) : State :=
  match throws .recordError with
  | some error => done db (.failed part error)
  | none => done (db.updateCategory slug fun row => { row with lastError := some message })
      (.failed part message)

def noDomainsMessage : Text :=
  ("Feed downloaded but contained no valid domains. Check the source URL format: " ++
    "this parser expects one bare domain per line, not hosts-file lines like " ++
    "\"0.0.0.0 example.com\".").toList

def storingMessage (error : Text) : Text :=
  "Storing the feed failed after it downloaded: ".toList ++ error ++
    ". The previously stored domains for this category are still in place.".toList

/-- The `catch` around the stream. -/
def abandon (db : Db) (slug message : Text) (throws : Throws) : State :=
  match throws .clearStage with
  | some error => done db (.failed .uncaught error)
  | none => fail db.clearStage slug .download message throws

/-- From the sweep to the end. -/
def sweepAndRecord (db : Db) (slug : Text) (feed : Feed) (staged : Nat) (throws : Throws) : State :=
  match throws .sweep with
  | some error => fail db slug .storing (storingMessage error) throws
  | none =>
    let db := db.sweep slug
    match throws .clearStage with
    | some error => done db (.failed .uncaught error)
    | none =>
      match throws .recordSuccess with
      | some error => done db.clearStage (.failed .uncaught error)
      | none => done (db.clearStage.updateCategory slug fun _ =>
        { domainCount := staged, etag := feed.etag, lastModified := feed.lastModified,
          lastError := none })
        (.refreshed staged)

/-- One turn of the apply loop. A boundary is never the empty text, so it ends the loop only
when there is none. -/
def applyPage (size : Nat) (db : Db) (slug : Text) (feed : Feed) (cursor : Text) (staged : Nat)
    (throws : Throws) : State :=
  match throws .boundary with
  | some error => fail db slug .storing (storingMessage error) throws
  | none =>
    match throws .applyChunk with
    | some error => fail db slug .storing (storingMessage error) throws
    | none =>
      match Pages.boundary db.stage cursor (size - 1) with
      | none => sweepAndRecord (db.applyChunk slug cursor size) slug feed staged throws
      | some boundary => wait (db.applyChunk slug cursor size) slug (.applying feed boundary staged)

/-- From the end of the stream to the first wait of the apply loop. -/
def beginApply (size : Nat) (db : Db) (slug : Text) (feed : Feed) (throws : Throws) : State :=
  match throws .count with
  | some error => done db (.failed .uncaught error)
  | none =>
    if db.stage.card = 0 then
      match throws .clearStage with
      | some error => done db (.failed .uncaught error)
      | none => fail db.clearStage slug .empty noDomainsMessage throws
    else
      match throws .prepare with
      | some error => fail db slug .storing (storingMessage error) throws
      | none => applyPage size db slug feed [] db.stage.card throws

/-- `flush`. -/
def flush (db : Db) (batch : List Text) (throws : Throws) : Except Text Db :=
  if batch = [] then .ok db
  else
    match throws .flush with
    | some error => .error error
    | none => .ok { db with stage := db.stage ∪ batch.toFinset }

/-- What comes next of the stream: a line, its end, or its error. -/
def readFeed (size : Nat) (db : Db) (slug : Text) (feed : Feed) (batch : List Text)
    (throws : Throws) : State :=
  match feed.lines with
  | line :: lines =>
    let rest := { feed with lines }
    match parseDomainLine line with
    | none => wait db slug (.staging rest batch)
    | some domain =>
      if size ≤ (batch ++ [domain]).length then
        match flush db (batch ++ [domain]) throws with
        | .error error => abandon db slug error throws
        | .ok db => wait db slug (.staging rest [])
      else wait db slug (.staging rest (batch ++ [domain]))
  | [] =>
    match feed.breaks with
    | some message => abandon db slug message throws
    | none =>
      match flush db batch throws with
      | .error error => abandon db slug error throws
      | .ok db => beginApply size db slug feed throws

/-- What `runRefresh` does with the response. -/
def respond (db : Db) (slug : Text) (response : Response) (throws : Throws) : State :=
  match response with
  | .threw message => fail db slug .download message throws
  | .refused message => fail db slug .download message throws
  | .notModified =>
    match throws .recordNotModified with
    | some error => done db (.failed .uncaught error)
    | none => done (db.updateCategory slug fun row => { row with lastError := none })
        (.notModified ((db.categories slug).elim 0 Category.domainCount))
  | .feed feed =>
    match throws .clearStage with
    | some error => done db (.failed .uncaught error)
    | none => wait db.clearStage slug (.staging feed [])

/-- The refresh goes on to its next wait or its end. -/
def advance (size : Nat) (s : State) (throws : Throws) : State :=
  match s.refresh with
  | none => s
  | some refresh =>
    match refresh.phase with
    | .fetching response => respond s.db refresh.slug response throws
    | .staging feed batch => readFeed size s.db refresh.slug feed batch throws
    | .applying feed cursor staged => applyPage size s.db refresh.slug feed cursor staged throws

/-- `refreshCategory` up to its first wait: it is refused while a refresh is under way. -/
def refreshCategory (s : State) (slug : Text) (response : Response) : State :=
  if s.refresh.isSome then s else wait s.db slug (.fetching response)

/-- The refresh goes on, or someone else asks for one meanwhile. -/
inductive Step (size : Nat) : State → State → Prop where
  | advance (s : State) (throws : Throws) : Step size s (s.advance size throws)
  | refused (s : State) (slug : Text) (response : Response) (busy : s.refresh.isSome = true) :
      Step size s (s.refreshCategory slug response)

/-! ## What always holds of a refresh -/

/-- The valid domains of a feed. -/
def feedDomains (feed : Feed) : Finset Text := (feed.lines.filterMap parseDomainLine).toFinset

/-- What is known of the list while a page is to come: the feed is staged whole, nothing old
is gone and nothing but the feed was added, and the staged domains up to the cursor are in. -/
structure Applying (before : Db) (slug : Text) (feed : Feed) (db : Db) (cursor : Text)
    (staged : Nat) : Prop where
  complete : feed.breaks = none
  nonempty : feedDomains feed ≠ ∅
  stage : db.stage = feedDomains feed
  staged : staged = (feedDomains feed).card
  old : ∀ domain ∈ before.listed slug, domain ∈ db.listed slug
  added : ∀ domain ∈ db.listed slug, domain ∈ before.listed slug ∨ domain ∈ feedDomains feed
  covered : ∀ domain ∈ feedDomains feed, domain ≤ cursor → domain ∈ db.listed slug

/-- What is known where a refresh waits. -/
def Waiting (before : Db) (slug : Text) (response : Response) (db : Db) : Phase → Prop
  | .fetching asked => asked = response ∧ db = before
  | .staging rest batch => ∃ feed read, response = .feed feed ∧ feed.lines = read ++ rest.lines ∧
      rest = { feed with lines := rest.lines } ∧ db.domains = before.domains ∧
      db.stage ∪ batch.toFinset = (read.filterMap parseDomainLine).toFinset
  | .applying rest cursor staged => ∃ feed, response = .feed feed ∧
      rest = { feed with lines := rest.lines } ∧ Applying before slug feed db cursor staged

/-- What is known of an answer. -/
def Answered (before : Db) (slug : Text) (response : Response) (db : Db) : Answer → Prop
  | .notModified _ => response = .notModified ∧ db.domains = before.domains
  | .refreshed count => ∃ feed, response = .feed feed ∧ feed.breaks = none ∧ feedDomains feed ≠ ∅ ∧
      db.listed slug = feedDomains feed ∧ count = (feedDomains feed).card ∧
      ∀ row, db.categories slug = some row → row.domainCount = (feedDomains feed).card
  | .failed .download _ => db.domains = before.domains
  | .failed .empty _ => db.domains = before.domains ∧ ∃ feed, response = .feed feed ∧
      feedDomains feed = ∅
  | .failed .storing _ => ∃ feed, response = .feed feed ∧ feed.breaks = none ∧
      feedDomains feed ≠ ∅ ∧ ∀ domain ∈ before.listed slug, domain ∈ db.listed slug
  | .failed .uncaught _ => db.domains = before.domains ∨
      ∃ feed, response = .feed feed ∧ feed.breaks = none ∧ feedDomains feed ≠ ∅ ∧
      db.listed slug = feedDomains feed

/-- The rows of the other categories are as they were, and the refresh waits or has answered. -/
structure Sound (before : Db) (slug : Text) (response : Response) (s : State) : Prop where
  others : ∀ other, other ≠ slug → s.db.listed other = before.listed other
  waits : ∀ refresh, s.refresh = some refresh → refresh.slug = slug ∧
    Waiting before slug response s.db refresh.phase
  answers : s.refresh = none → ∃ answer, s.answer = some answer ∧
    Answered before slug response s.db answer

section Sound

variable {before db : Db} {slug : Text} {response : Response} {throws : Throws} {size : Nat}

theorem listed_congr {other : Db} (same : db.domains = other.domains) (category : Text) :
    db.listed category = other.listed category := by
  unfold Db.listed
  rw [same]

theorem Sound.wait {phase : Phase} (others : ∀ other, other ≠ slug →
    db.listed other = before.listed other) (known : Waiting before slug response db phase) :
    Sound before slug response (wait db slug phase) := by
  refine ⟨others, ?_, nofun⟩
  rintro _ ⟨⟩
  exact ⟨rfl, known⟩

theorem Sound.done {answer : Answer} (others : ∀ other, other ≠ slug →
    db.listed other = before.listed other) (known : Answered before slug response db answer) :
    Sound before slug response (done db answer) :=
  ⟨others, nofun, fun _ => ⟨answer, rfl, known⟩⟩

/-- The message that `fail` records does not change what is known of a failure. -/
theorem Sound.fail {part : Part} {message : Text}
    (others : ∀ other, other ≠ slug → db.listed other = before.listed other)
    (known : ∀ message, Answered before slug response db (.failed part message)) :
    Sound before slug response (fail db slug part message throws) := by
  unfold State.fail
  split
  · rename_i error _
    exact .done others (known error)
  · refine .done others ?_
    cases part with
    | download => exact known message
    | empty => exact known message
    | storing => exact known message
    | uncaught => exact known message

theorem others_of_same (same : db.domains = before.domains) :
    ∀ other, other ≠ slug → db.listed other = before.listed other :=
  fun other _ => listed_congr same other

theorem Sound.abandon (same : db.domains = before.domains) (message : Text) :
    Sound before slug response (abandon db slug message throws) := by
  unfold State.abandon
  split
  · exact .done (others_of_same same) (.inl same)
  · exact .fail (others_of_same same) fun _ => same

theorem listed_sweep (db : Db) (slug : Text) : (db.sweep slug).listed slug = db.listed slug ∩
    db.stage := by
  ext domain
  rw [Db.mem_listed, Finset.mem_inter, Db.mem_listed]
  unfold Db.sweep
  rw [Finset.mem_filter]
  exact and_congr_right fun _ => ⟨fun kept => kept rfl, fun staged _ => staged⟩

theorem listed_sweep_of_ne {other : Text} (distinct : other ≠ slug) :
    (db.sweep slug).listed other = db.listed other := by
  ext domain
  rw [Db.mem_listed, Db.mem_listed]
  unfold Db.sweep
  rw [Finset.mem_filter]
  exact and_iff_left fun same => absurd same distinct

theorem listed_applyChunk (db : Db) (slug cursor : Text) (size : Nat) :
    (db.applyChunk slug cursor size).listed slug =
      db.listed slug ∪ (Pages.page db.stage cursor size).toFinset := by
  ext domain
  rw [Db.mem_listed, Finset.mem_union, Db.mem_listed, List.mem_toFinset]
  unfold Db.applyChunk
  rw [Finset.mem_union, List.mem_toFinset, List.mem_map]
  constructor
  · rintro (old | ⟨_, member, ⟨⟩⟩)
    · exact .inl old
    · exact .inr member
  · rintro (old | member)
    · exact .inl old
    · exact .inr ⟨domain, member, rfl⟩

theorem listed_applyChunk_of_ne {other : Text} (distinct : other ≠ slug) (cursor : Text)
    (size : Nat) :
    (db.applyChunk slug cursor size).listed other = db.listed other := by
  ext domain
  rw [Db.mem_listed, Db.mem_listed]
  unfold Db.applyChunk
  rw [Finset.mem_union, List.mem_toFinset, List.mem_map]
  constructor
  · rintro (old | ⟨_, _, ⟨⟩⟩)
    · exact old
    · exact absurd rfl distinct
  · exact .inl

theorem categories_of_update {update : Category → Category} {row : Category}
    (found : (db.updateCategory slug update).categories slug = some row) : ∃ old,
    row = update old := by
  simp only [Db.updateCategory, if_true] at found
  obtain ⟨old, _, rfl⟩ := Option.map_eq_some_iff.mp found
  exact ⟨old, rfl⟩

theorem Sound.sweepAndRecord {feed rest : Feed} {staged : Nat} (asked : response = .feed feed)
    (others : ∀ other, other ≠ slug → db.listed other = before.listed other)
    (complete : feed.breaks = none) (some_domain : feedDomains feed ≠ ∅)
    (stage : db.stage = feedDomains feed) (count : staged = (feedDomains feed).card)
    (old : ∀ domain ∈ before.listed slug, domain ∈ db.listed slug)
    (all : ∀ domain ∈ feedDomains feed, domain ∈ db.listed slug) :
    Sound before slug response (sweepAndRecord db slug rest staged throws) := by
  have exact_list : (db.sweep slug).listed slug = feedDomains feed := by
    rw [listed_sweep, stage]
    exact Finset.inter_eq_right.mpr all
  have others' : ∀ other, other ≠ slug → (db.sweep slug).listed other = before.listed other :=
    fun other distinct => (listed_sweep_of_ne distinct).trans (others other distinct)
  unfold State.sweepAndRecord
  split
  · exact .fail others fun _ => ⟨feed, asked, complete, some_domain, old⟩
  · dsimp only
    split
    · exact .done others' (.inr ⟨feed, asked, complete, some_domain, exact_list⟩)
    · split
      · exact .done others' (.inr ⟨feed, asked, complete, some_domain, exact_list⟩)
      · refine .done others' ⟨feed, asked, complete, some_domain, exact_list, count, ?_⟩
        intro row found
        obtain ⟨_, rfl⟩ := categories_of_update found
        exact count

/-- A page keeps what is known and moves the cursor to its last domain. -/
theorem Sound.applyPage {feed rest : Feed} {cursor : Text} {staged : Nat} (positive : 0 < size)
    (asked : response = .feed feed) (shape : rest = { feed with lines := rest.lines })
    (others : ∀ other, other ≠ slug → db.listed other = before.listed other)
    (now : Applying before slug feed db cursor staged) :
    Sound before slug response (applyPage size db slug rest cursor staged throws) := by
  have storing : ∀ message, Answered before slug response db (.failed .storing message) :=
    fun _ => ⟨feed, asked, now.complete, now.nonempty, now.old⟩
  have others' : ∀ other, other ≠ slug → (db.applyChunk slug cursor size).listed other =
      before.listed other :=
    fun other distinct => (listed_applyChunk_of_ne distinct cursor size).trans
      (others other distinct)
  have keeps : ∀ domain ∈ db.listed slug, domain ∈ (db.applyChunk slug cursor size).listed
      slug := by
    intro domain member
    rw [listed_applyChunk]
    exact Finset.mem_union_left _ member
  have adds : ∀ domain ∈ Pages.page db.stage cursor size, domain ∈
      (db.applyChunk slug cursor size).listed slug := by
    intro domain member
    rw [listed_applyChunk]
    exact Finset.mem_union_right _ (List.mem_toFinset.mpr member)
  unfold State.applyPage
  split
  · exact .fail others storing
  · split
    · exact .fail others storing
    · split
      · rename_i last
        refine .sweepAndRecord asked others' now.complete now.nonempty now.stage now.staged
          (fun domain member => keeps domain (now.old domain member)) ?_
        intro domain member
        rcases le_or_gt domain cursor with reached | beyond
        · exact keeps domain (now.covered domain member reached)
        · exact adds domain (Pages.mem_page_of_last last (now.stage ▸ member) beyond)
      · rename_i boundary found
        refine .wait others' ⟨feed, asked, shape, now.complete, now.nonempty, now.stage,
          now.staged, ?_, ?_, ?_⟩
        · exact fun domain member => keeps domain (now.old domain member)
        · intro domain member
          rw [listed_applyChunk] at member
          rcases Finset.mem_union.mp member with listed | paged
          · exact now.added domain listed
          · exact .inr (now.stage ▸ (Pages.mem_of_mem_page (List.mem_toFinset.mp paged)).1)
        · intro domain member within
          rcases le_or_gt domain cursor with reached | beyond
          · exact keeps domain (now.covered domain member reached)
          · exact adds domain (Pages.mem_page_of_le positive found (now.stage ▸ member)
              beyond within)

theorem nil_lt_of_mem_feedDomains {feed : Feed} {domain : Text}
    (member : domain ∈ feedDomains feed) :
    ([] : Text) < domain := by
  obtain ⟨line, _, parsed⟩ := List.mem_filterMap.mp (List.mem_toFinset.mp member)
  obtain ⟨first, rest, rfl⟩ := List.exists_cons_of_ne_nil (parseDomainLine_ne_nil parsed)
  exact List.nil_lt_cons first rest

theorem Sound.beginApply {feed rest : Feed} (positive : 0 < size) (asked : response = .feed feed)
    (shape : rest = { feed with lines := rest.lines }) (complete : feed.breaks = none)
    (same : db.domains = before.domains) (stage : db.stage = feedDomains feed) :
    Sound before slug response (beginApply size db slug rest throws) := by
  unfold State.beginApply
  split
  · exact .done (others_of_same same) (.inl same)
  · split
    · rename_i none
      have empty : feedDomains feed = ∅ := by
        rw [← stage]
        exact Finset.card_eq_zero.mp none
      split
      · exact .done (others_of_same same) (.inl same)
      · exact .fail (others_of_same same) fun _ => ⟨same, feed, asked, empty⟩
    · rename_i staged
      have some_domain : feedDomains feed ≠ ∅ := by
        rintro empty
        exact staged (by rw [stage, empty, Finset.card_empty])
      have listed : db.listed slug = before.listed slug := listed_congr same slug
      split
      · exact .fail (others_of_same same) fun _ =>
          ⟨feed, asked, complete, some_domain, fun domain member => listed.symm ▸ member⟩
      · refine .applyPage positive asked shape (others_of_same same)
          ⟨complete, some_domain, stage, by rw [stage], ?_, ?_, ?_⟩
        · exact fun domain member => listed.symm ▸ member
        · exact fun domain member => .inl (listed ▸ member)
        · intro domain member reached
          exact absurd (nil_lt_of_mem_feedDomains member) (not_lt.mpr reached)

theorem flush_ok {batch : List Text} {after : Db} (flushed : flush db batch throws = .ok after) :
    after.domains = db.domains ∧ after.stage = db.stage ∪ batch.toFinset := by
  unfold flush at flushed
  split at flushed
  · rename_i empty
    obtain rfl := Except.ok.inj flushed
    rw [empty]
    exact ⟨rfl, (Finset.union_empty _).symm⟩
  · split at flushed
    · cases flushed
    · obtain rfl := Except.ok.inj flushed
      exact ⟨rfl, rfl⟩

theorem Sound.readFeed {rest : Feed} {batch : List Text} (positive : 0 < size)
    (now : Waiting before slug response db (.staging rest batch)) :
    Sound before slug response (readFeed size db slug rest batch throws) := by
  obtain ⟨feed, read, asked, lines, shape, same, staged⟩ := now
  unfold State.readFeed
  split
  · rename_i line later more
    rw [more] at lines
    have split_lines : feed.lines = (read ++ [line]) ++
        later := by rw [lines, List.append_assoc]; rfl
    have shape' : { rest with lines := later } = { feed with lines := later } := by rw [shape]
    dsimp only
    split
    · rename_i unparsed
      refine .wait (others_of_same same) ⟨feed, read ++ [line], asked, split_lines,
        shape', same, ?_⟩
      rw [staged, List.filterMap_append, List.filterMap_cons, unparsed, List.filterMap_nil,
        List.append_nil]
    · rename_i domain parsed
      have staged' : db.stage ∪ (batch ++ [domain]).toFinset =
          ((read ++ [line]).filterMap parseDomainLine).toFinset := by
        rw [List.filterMap_append, List.filterMap_cons, parsed, List.filterMap_nil,
          List.toFinset_append, List.toFinset_append, ← Finset.union_assoc, staged]
      split
      · split
        · exact .abandon same _
        · rename_i after flushed
          obtain ⟨domains, stage⟩ := flush_ok flushed
          refine .wait (others_of_same (domains.trans same)) ⟨feed, read ++ [line], asked,
            split_lines, shape',
            domains.trans same, ?_⟩
          rw [stage, List.toFinset_nil, Finset.union_empty]
          exact staged'
      · exact .wait (others_of_same same) ⟨feed, read ++ [line], asked, split_lines, shape',
          same, staged'⟩
  · rename_i ended
    split
    · exact .abandon same _
    · rename_i unbroken
      split
      · exact .abandon same _
      · rename_i after flushed
        obtain ⟨domains, stage⟩ := flush_ok flushed
        refine .beginApply positive asked shape (by rw [shape] at unbroken; exact unbroken)
          (domains.trans same) ?_
        rw [stage, staged, feedDomains, lines, ended, List.append_nil]

theorem Sound.respond (asked : Response) (now : Waiting before slug response db (.fetching asked)) :
    Sound before slug response (respond db slug asked throws) := by
  obtain ⟨rfl, rfl⟩ := now
  unfold State.respond
  split
  · exact .fail (fun _ _ => rfl) fun _ => rfl
  · exact .fail (fun _ _ => rfl) fun _ => rfl
  · split
    · exact .done (fun _ _ => rfl) (.inl rfl)
    · exact .done (fun _ _ => rfl) ⟨rfl, rfl⟩
  · rename_i feed
    split
    · exact .done (fun _ _ => rfl) (.inl rfl)
    · refine .wait (fun _ _ => rfl) ⟨feed, [], rfl, rfl, rfl, rfl, ?_⟩
      rfl

theorem Sound.advance {s : State} (positive : 0 < size) (sound : Sound before slug response s)
    (throws : Throws) :
    Sound before slug response (s.advance size throws) := by
  unfold State.advance
  split
  · exact sound
  · rename_i refresh under_way
    obtain ⟨same, known⟩ := sound.waits refresh under_way
    rw [same]
    split
    · rename_i asked fetching
      rw [fetching] at known
      exact .respond asked known
    · rename_i rest batch staging
      rw [staging] at known
      exact .readFeed positive known
    · rename_i rest cursor staged applying
      rw [applying] at known
      obtain ⟨feed, asked, shape, now⟩ := known
      exact .applyPage positive asked shape sound.others now

/-- A refresh that has just been asked for, with no other under way. -/
def asked (before : Db) (slug : Text) (response : Response) : State :=
  ({ db := before } : State).refreshCategory slug response

/-- A refresh from its start to any wait and to its end, while others are refused. -/
def Run (size : Nat) : State → State → Prop := Relation.ReflTransGen (Step size)

theorem Run.sound {s : State} (positive : 0 < size)
    (run : Run size (asked before slug response) s) :
    Sound before slug response s := by
  induction run with
  | refl => exact .wait (fun _ _ => rfl) ⟨rfl, rfl⟩
  | tail _ step sound =>
    cases step with
    | advance throws => exact sound.advance positive throws
    | refused other response busy =>
      rw [refreshCategory, if_pos busy]
      exact sound

end Sound

/-! ## A refresh comes to its end -/

/-- The refresh goes on once for each entry, where the statements throw as it says. -/
def goOn (size : Nat) (s : State) : List Throws → State
  | [] => s
  | throws :: rest => (s.advance size throws).goOn size rest

/-- How often a phase can go on at most: for each line it may read and stage one, and then
for each page. -/
def left (db : Db) : Phase → Nat
  | .fetching (.feed feed) => 2 * feed.lines.length + 3
  | .fetching _ => 1
  | .staging feed batch => 2 * feed.lines.length + (db.stage ∪ batch.toFinset).card + 2
  | .applying _ cursor _ => (Pages.above db.stage cursor).length + 1

theorem left_staging (db : Db) (feed : Feed) (batch : List Text) : left db (.staging feed batch) =
    2 * feed.lines.length + (db.stage ∪ batch.toFinset).card + 2 := rfl

/-- The refresh has ended, or can go on fewer times than `bound`. -/
def EndsWithin (s : State) (bound : Nat) : Prop :=
  ∀ refresh, s.refresh = some refresh → left s.db refresh.phase < bound

section Ends

variable {size bound : Nat} {db : Db} {slug : Text} {throws : Throws}

theorem endsWithin_done (answer : Answer) : (done db answer).EndsWithin bound := nofun

theorem endsWithin_wait {phase : Phase} (few : left db phase < bound) :
    (wait db slug phase).EndsWithin bound := by
  rintro _ ⟨⟩
  exact few

theorem endsWithin_fail (part : Part) (message : Text) :
    (fail db slug part message throws).EndsWithin bound := by
  unfold fail
  split <;> exact endsWithin_done _

theorem endsWithin_abandon (message : Text) :
    (abandon db slug message throws).EndsWithin bound := by
  unfold abandon
  split
  · exact endsWithin_done _
  · exact endsWithin_fail _ _

theorem endsWithin_sweepAndRecord (feed : Feed) (staged : Nat) :
    (sweepAndRecord db slug feed staged throws).EndsWithin bound := by
  unfold sweepAndRecord
  split
  · exact endsWithin_fail _ _
  · dsimp only
    split
    · exact endsWithin_done _
    · split <;> exact endsWithin_done _

theorem endsWithin_applyPage (feed : Feed) {cursor : Text} (staged : Nat)
    (few : (Pages.above db.stage cursor).length < bound) :
    (applyPage size db slug feed cursor staged throws).EndsWithin bound := by
  unfold applyPage
  split
  · exact endsWithin_fail _ _
  · split
    · exact endsWithin_fail _ _
    · split
      · exact endsWithin_sweepAndRecord _ _
      · rename_i boundary found
        exact endsWithin_wait (Nat.lt_of_le_of_lt (Pages.length_above_lt found) few)

theorem endsWithin_beginApply (feed : Feed) (few : db.stage.card < bound) :
    (beginApply size db slug feed throws).EndsWithin bound := by
  unfold beginApply
  split
  · exact endsWithin_done _
  · split
    · split
      · exact endsWithin_done _
      · exact endsWithin_fail _ _
    · split
      · exact endsWithin_fail _ _
      · exact endsWithin_applyPage _ _ ((Pages.length_above_le _ _).trans_lt few)

theorem endsWithin_readFeed (feed : Feed) (batch : List Text) :
    (readFeed size db slug feed batch throws).EndsWithin (left db (.staging feed batch)) := by
  unfold readFeed
  split
  · rename_i line lines more
    have fewer : 2 * lines.length + (db.stage ∪ batch.toFinset).card + 4 ≤ left db
        (.staging feed batch) := by
      rw [left_staging, more, List.length_cons]
      omega
    have grows : ∀ domain, (db.stage ∪ (batch ++ [domain]).toFinset).card ≤
        (db.stage ∪ batch.toFinset).card + 1 := by
      intro domain
      rw [List.toFinset_append, ← Finset.union_assoc]
      exact (Finset.card_union_le _ _).trans
        (Nat.add_le_add_left (List.toFinset_card_le [domain]) _)
    dsimp only
    split
    · refine endsWithin_wait (Nat.lt_of_lt_of_le ?_ fewer)
      rw [left_staging]
      dsimp only
      omega
    · rename_i domain _
      have most := grows domain
      split
      · split
        · exact endsWithin_abandon _
        · rename_i after flushed
          refine endsWithin_wait (Nat.lt_of_lt_of_le ?_ fewer)
          rw [left_staging, (flush_ok flushed).2, List.toFinset_nil, Finset.union_empty]
          dsimp only
          omega
      · refine endsWithin_wait (Nat.lt_of_lt_of_le ?_ fewer)
        rw [left_staging]
        dsimp only
        omega
  · split
    · exact endsWithin_abandon _
    · split
      · exact endsWithin_abandon _
      · rename_i after flushed
        refine endsWithin_beginApply _ ?_
        rw [(flush_ok flushed).2, left_staging]
        omega

theorem endsWithin_advance {s : State} {refresh : Refresh} (under_way : s.refresh = some refresh) :
    (s.advance size throws).EndsWithin (left s.db refresh.phase) := by
  unfold advance
  rw [under_way]
  dsimp only
  split
  · rename_i response fetching
    rw [fetching]
    unfold respond
    split
    · exact endsWithin_fail _ _
    · exact endsWithin_fail _ _
    · split <;> exact endsWithin_done _
    · rename_i feed
      split
      · exact endsWithin_done _
      · refine endsWithin_wait ?_
        simp [left, Db.clearStage]
  · rename_i feed batch staging
    rw [staging]
    exact endsWithin_readFeed feed batch
  · rename_i feed cursor staged applying
    rw [applying]
    exact endsWithin_applyPage feed staged (Nat.lt_succ_self _)

theorem goOn_ends {s : State} (plan : List Throws) (enough : s.EndsWithin (plan.length + 1)) :
    (s.goOn size plan).refresh = none := by
  induction plan generalizing s with
  | nil =>
    cases under_way : s.refresh with
    | none => exact under_way
    | some refresh =>
      have none_left : left s.db refresh.phase = 0 := Nat.lt_one_iff.mp (enough refresh under_way)
      cases phase : refresh.phase with
      | fetching response => cases response <;> simp [phase, left] at none_left
      | staging feed batch => simp [phase, left] at none_left
      | applying feed cursor staged => simp [phase, left] at none_left
  | cons throws rest ih =>
    refine ih ?_
    cases under_way : s.refresh with
    | none =>
      unfold advance
      rw [under_way]
      intro refresh still
      rw [under_way] at still
      cases still
    | some refresh =>
      intro later still
      have fewer := endsWithin_advance under_way later still
      exact Nat.lt_of_lt_of_le fewer (Nat.le_of_lt_succ (enough refresh under_way))

theorem goOn_run {s : State} (plan : List Throws) : Run size s (s.goOn size plan) := by
  induction plan generalizing s with
  | nil => exact .refl
  | cons throws rest ih => exact .head (.advance s throws) ih

end Ends

/-! ## When nothing throws -/

/-- No statement throws. -/
def quiet : Throws := fun _ => none

/-- The stream is not broken. -/
def Unbroken : Phase → Prop
  | .fetching response => ∃ feed, response = .feed feed ∧ feed.breaks = none
  | .staging feed _ => feed.breaks = none
  | .applying _ _ _ => True

/-- Nothing has gone wrong but that the feed has no valid domain. -/
structure Undisturbed (s : State) : Prop where
  stream : ∀ refresh, s.refresh = some refresh → Unbroken refresh.phase
  answer : ∀ part message, s.answer = some (.failed part message) → part = .empty

section Quiet

variable {size : Nat} {db : Db} {slug : Text}

theorem undisturbed_wait {phase : Phase} (unbroken : Unbroken phase) :
    Undisturbed (wait db slug phase) := by
  refine ⟨?_, nofun⟩
  rintro _ ⟨⟩
  exact unbroken

theorem undisturbed_applyPage (feed : Feed) (cursor : Text) (staged : Nat) :
    Undisturbed (applyPage size db slug feed cursor staged quiet) := by
  unfold applyPage
  simp only [quiet]
  split
  · exact ⟨nofun, nofun⟩
  · exact undisturbed_wait trivial

theorem undisturbed_beginApply (feed : Feed) :
    Undisturbed (beginApply size db slug feed quiet) := by
  unfold beginApply
  simp only [quiet]
  split
  · refine ⟨nofun, ?_⟩
    rintro _ _ ⟨⟩
    rfl
  · exact undisturbed_applyPage feed [] db.stage.card

theorem flush_quiet (db : Db) (batch : List Text) : ∃ after, flush db batch quiet = .ok after := by
  unfold flush
  split
  · exact ⟨_, rfl⟩
  · exact ⟨_, rfl⟩

theorem undisturbed_readFeed {feed : Feed} (unbroken : feed.breaks = none) (batch : List Text) :
    Undisturbed (readFeed size db slug feed batch quiet) := by
  unfold readFeed
  split
  · dsimp only
    split
    · exact undisturbed_wait unbroken
    · rename_i domain _
      obtain ⟨after, flushed⟩ := flush_quiet db (batch ++ [domain])
      rw [flushed]
      split
      · exact undisturbed_wait unbroken
      · exact undisturbed_wait unbroken
  · rw [unbroken]
    obtain ⟨after, flushed⟩ := flush_quiet db batch
    simp only [flushed]
    exact undisturbed_beginApply feed

theorem Undisturbed.advance {s : State} (undisturbed : Undisturbed s) :
    Undisturbed (s.advance size quiet) := by
  unfold State.advance
  split
  · exact undisturbed
  · rename_i refresh under_way
    have unbroken := undisturbed.stream refresh under_way
    split
    · rename_i response fetching
      rw [fetching] at unbroken
      obtain ⟨feed, rfl, complete⟩ := unbroken
      exact undisturbed_wait complete
    · rename_i feed batch staging
      rw [staging] at unbroken
      exact undisturbed_readFeed unbroken batch
    · exact undisturbed_applyPage _ _ _

theorem Undisturbed.goOn {s : State} (undisturbed : Undisturbed s) (turns : Nat) :
    Undisturbed (s.goOn size (List.replicate turns quiet)) := by
  induction turns generalizing s with
  | zero => exact undisturbed
  | succ turns ih => exact ih undisturbed.advance

end Quiet

/-! ## The guarantees -/

section Guarantees

variable {before : Db} {slug : Text} {response : Response} {s : State}

/-- What is in both lists is in the list wherever a refresh has come to. -/
theorem Sound.in_both (sound : Sound before slug response s) {feed : Feed}
    (sent : response = .feed feed) {domain : Text} (old : domain ∈ before.listed slug)
    (new : domain ∈ feedDomains feed) :
    domain ∈ s.db.listed slug := by
  have stays : s.db.domains = before.domains → domain ∈ s.db.listed slug :=
    fun same => (listed_congr same slug).symm ▸ old
  have exactly : ∀ {other : Feed}, response = .feed other → s.db.listed slug = feedDomains other →
      domain ∈ s.db.listed slug := by
    intro other sent' listed
    obtain rfl : other = feed := Response.feed.inj (sent'.symm.trans sent)
    rw [listed]
    exact new
  cases under_way : s.refresh with
  | some refresh =>
    obtain ⟨_, known⟩ := sound.waits refresh under_way
    cases phase : refresh.phase with
    | fetching asked =>
      rw [phase] at known
      exact stays (congrArg Db.domains known.2)
    | staging rest batch =>
      rw [phase] at known
      obtain ⟨_, _, _, _, _, same, _⟩ := known
      exact stays same
    | applying rest cursor staged =>
      rw [phase] at known
      obtain ⟨_, _, _, now⟩ := known
      exact now.old domain old
  | none =>
    obtain ⟨answer, _, known⟩ := sound.answers under_way
    cases answer with
    | notModified count => exact stays known.2
    | refreshed count =>
      obtain ⟨other, sent', _, _, listed, _⟩ := known
      exact exactly sent' listed
    | failed part message =>
      cases part with
      | download => exact stays known
      | empty => exact stays known.1
      | storing =>
        obtain ⟨_, _, _, _, kept⟩ := known
        exact kept domain old
      | uncaught =>
        rcases known with same | ⟨other, sent', _, _, listed⟩
        · exact stays same
        · exact exactly sent' listed

/-- Without a feed that is whole and has a valid domain the list stays as it is. -/
theorem Sound.nothing_new (sound : Sound before slug response s)
    (nothing : ∀ feed, response = .feed feed → feed.breaks ≠ none ∨ feedDomains feed = ∅) :
    s.db.listed slug = before.listed slug := by
  have impossible : ∀ {feed : Feed}, response = .feed feed → feed.breaks = none →
      feedDomains feed ≠ ∅ → False := by
    intro feed sent complete nonempty
    rcases nothing feed sent with broken | empty
    · exact broken complete
    · exact nonempty empty
  cases under_way : s.refresh with
  | some refresh =>
    obtain ⟨_, known⟩ := sound.waits refresh under_way
    cases phase : refresh.phase with
    | fetching asked =>
      rw [phase] at known
      rw [known.2]
    | staging rest batch =>
      rw [phase] at known
      obtain ⟨_, _, _, _, _, same, _⟩ := known
      exact listed_congr same slug
    | applying rest cursor staged =>
      rw [phase] at known
      obtain ⟨_, sent, _, now⟩ := known
      exact (impossible sent now.complete now.nonempty).elim
  | none =>
    obtain ⟨answer, _, known⟩ := sound.answers under_way
    cases answer with
    | notModified count => exact listed_congr known.2 slug
    | refreshed count =>
      obtain ⟨_, sent, complete, nonempty, _⟩ := known
      exact (impossible sent complete nonempty).elim
    | failed part message =>
      cases part with
      | download => exact listed_congr known slug
      | empty => exact listed_congr known.1 slug
      | storing =>
        obtain ⟨_, sent, complete, nonempty, _⟩ := known
        exact (impossible sent complete nonempty).elim
      | uncaught =>
        rcases known with same | ⟨_, sent, complete, nonempty, _⟩
        · exact listed_congr same slug
        · exact (impossible sent complete nonempty).elim

theorem Sound.answered (sound : Sound before slug response s) (ended : s.refresh = none)
    {answer : Answer} (given : s.answer = some answer) : Answered before slug response s.db
    answer := by
  obtain ⟨other, same, known⟩ := sound.answers ended
  obtain rfl := Option.some.inj (given.symm.trans same)
  exact known

/-- A feed that comes whole and has a valid domain is applied when nothing throws. -/
theorem refresh_succeeds {feed : Feed} (sent : response = .feed feed)
    (complete : feed.breaks = none) (nonempty : feedDomains feed ≠ ∅) {size : Nat}
    (positive : 0 < size) : ∃ turns,
      ((asked before slug response).goOn size (List.replicate turns quiet)).answer =
      some (.refreshed (feedDomains feed).card) := by
  subst sent
  refine ⟨2 * feed.lines.length + 3, ?_⟩
  have ended : ((asked before slug (.feed feed)).goOn size
      (List.replicate (2 * feed.lines.length + 3) quiet)).refresh = none := by
    refine goOn_ends _ ?_
    rintro _ ⟨⟩
    rw [List.length_replicate]
    exact Nat.lt_succ_self _
  have undisturbed : Undisturbed ((asked before slug (.feed feed)).goOn size
      (List.replicate (2 * feed.lines.length + 3) quiet)) :=
    Undisturbed.goOn (@undisturbed_wait before slug (.fetching (.feed feed)) ⟨feed, rfl, complete⟩)
      _
  have run : Run size (asked before slug (.feed feed))
      ((asked before slug (.feed feed)).goOn size
      (List.replicate (2 * feed.lines.length + 3) quiet)) := goOn_run _
  have sound := run.sound positive
  obtain ⟨answer, given, known⟩ := sound.answers ended
  rw [given]
  cases answer with
  | notModified count => cases known.1
  | refreshed count =>
    obtain ⟨_, ⟨⟩, _, _, _, counted, _⟩ := known
    rw [counted]
  | failed part message =>
    obtain rfl := undisturbed.answer part message given
    obtain ⟨_, _, ⟨⟩, empty⟩ := known
    exact absurd empty nonempty

/-- **A refresh never under-blocks: at every wait and after its end what is in the old list
and in the feed is in the list; a refresh that succeeds leaves exactly the feed's valid
domains, and counts them; one that gets nothing new, or whose download fails, leaves the
old list; one whose writes fail has lost nothing of it; no other category changes; and it
ends, with success when a feed with a valid domain comes whole and nothing throws.** -/
theorem refresh_never_under_blocks (before : Db) (slug : Text) (response : Response) :
    (∀ s, Run blocklistInsertBatch (asked before slug response) s →
      (∀ feed, response = .feed feed → ∀ domain ∈ before.listed slug, domain ∈ feedDomains feed →
        domain ∈ s.db.listed slug) ∧
      (∀ count, s.refresh = none → s.answer = some (.refreshed count) → ∃ feed,
        response = .feed feed ∧ feed.breaks = none ∧ s.db.listed slug = feedDomains feed ∧
        count = (feedDomains feed).card ∧ ∀ row, s.db.categories slug = some row →
        row.domainCount = (feedDomains feed).card) ∧
      ((∀ feed, response = .feed feed → feed.breaks ≠ none ∨ feedDomains feed = ∅) →
        s.db.listed slug = before.listed slug) ∧
      (∀ message, s.refresh = none → s.answer = some (.failed .download message) →
        s.db.listed slug = before.listed slug) ∧
      (∀ message, s.refresh = none → s.answer = some (.failed .storing message) →
        ∀ domain ∈ before.listed slug, domain ∈ s.db.listed slug) ∧
      ∀ other, other ≠ slug → s.db.listed other = before.listed other) ∧
    (∀ s, Run blocklistInsertBatch (asked before slug response) s → ∃ turns, ∀ plan : List Throws,
      turns ≤ plan.length → (s.goOn blocklistInsertBatch plan).refresh = none) ∧
    ∀ feed, response = .feed feed → feed.breaks = none → feedDomains feed ≠ ∅ → ∃ turns,
      ((asked before slug response).goOn blocklistInsertBatch (List.replicate turns quiet)).answer =
        some (.refreshed (feedDomains feed).card) := by
  have positive : 0 < blocklistInsertBatch := by decide
  refine ⟨?_, ?_, ?_⟩
  · intro s run
    have sound := run.sound positive
    refine ⟨?_, ?_, sound.nothing_new, ?_, ?_, sound.others⟩
    · exact fun feed sent domain old new => sound.in_both sent old new
    · intro count ended given
      obtain ⟨feed, sent, complete, _, listed, counted, recorded⟩ := sound.answered ended given
      exact ⟨feed, sent, complete, listed, counted, recorded⟩
    · intro message ended given
      exact listed_congr (sound.answered ended given) slug
    · intro message ended given
      obtain ⟨_, _, _, _, kept⟩ := sound.answered ended given
      exact kept
  · intro s _
    cases under_way : s.refresh with
    | none =>
      refine ⟨0, fun plan _ => goOn_ends plan ?_⟩
      intro refresh still
      rw [under_way] at still
      cases still
    | some refresh =>
      refine ⟨left s.db refresh.phase, fun plan enough => goOn_ends plan ?_⟩
      intro other still
      rw [under_way] at still
      obtain rfl := Option.some.inj still
      exact Nat.lt_succ_of_le enough
  · intro feed sent complete nonempty
    exact refresh_succeeds sent complete nonempty positive

end Guarantees

end State

end Blocklist

end Cidrella
