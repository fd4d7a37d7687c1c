import Cidrella.CidrMatch
import Cidrella.DnsNames
import Cidrella.DnsProxy

/-!
# The filtering policy of the proxy

The verdicts of `utils/dns-proxy.js`, which both transports ask. A query name is looked up
label by label, from the whole name up to the last two labels, on the allowlist and on the
blocklist; an answer's addresses by their countries.

The two walks go over the same names (`mem_domainSuffixes`), so a block and an exemption go
down the tree alike: below a blocked name everything is blocked but what the allowlist covers,
and what it covers is blocked neither by name nor by country (`verdicts_below`). In every run of
the proxy the queries that are refused are blocked ones, all of them while no handler throws
(`filter_holds`).
-/

set_option autoImplicit false

namespace Cidrella

namespace DnsPolicy

open CidrMatch DnsNames

/-- `geoip_mode`. -/
inductive GeoipMode where
  | blocklist
  | allowlist
  deriving DecidableEq

/-- A row of `blocklist_domains`, in the order of its key. -/
structure BlockedDomain where
  domain : Text
  categorySlug : Text
  deriving DecidableEq

/-- What the module holds in memory, and the table it looks names up in. -/
structure Policy where
  blocklistEnabled : Bool
  blocklistCategories : Option (List Text)
  blocklistRedirectIp : Text
  blocklistRedirectIp6 : Text
  blocklistDomains : List BlockedDomain
  allowlist : List Text
  geoipMode : GeoipMode
  geoipRules : Option (List Text)
  geoipAllowEntries : List CidrEntry
  filteringPausedUntil : Nat
  exemptClients : List Text

/-! ## Names -/

/-- `domainSuffixes`: the whole name first, the bare last label never. -/
def domainSuffixes (name : Text) : List Text :=
  let labels := (toLowerCase name).splitOn '.'
  (List.range (labels.length - 1)).map fun i => ['.'].intercalate (labels.drop i)

/-- A domain covers a name: it is the name, or ends it after a dot. -/
def Covers (domain name : Text) : Prop := domain = name ∨ ('.' :: domain) <:+ name

theorem intercalate_cons_cons {sep : Char} {label next : Text} {labels : List Text} :
    [sep].intercalate (label :: next :: labels) = label ++ sep :: [sep].intercalate
    (next :: labels) := by
  simp [List.intercalate]

theorem intercalate_drop {labels : List Text} {i : Nat} (short : i < labels.length) :
    Covers (['.'].intercalate (labels.drop i)) (['.'].intercalate labels) := by
  induction labels generalizing i with
  | nil => exact absurd short (Nat.not_lt_zero _)
  | cons label labels ih =>
    cases i with
    | zero => exact .inl rfl
    | succ i =>
      cases labels with
      | nil => simp at short
      | cons next labels =>
        rw [List.drop_succ_cons, intercalate_cons_cons]
        refine .inr ?_
        obtain same | ends := ih (i := i) (by simpa using short)
        · rw [same]
          exact List.suffix_append _ _
        · exact ends.trans ((List.suffix_cons _ _).trans (List.suffix_append _ _))

theorem two_le_length_splitOn {name : Text} (dotted : '.' ∈ name) :
    2 ≤ (name.splitOn '.').length := by
  obtain ⟨front, back, rfl⟩ := List.append_of_mem dotted
  rw [List.splitOn_append_cons_self, List.length_append]
  have first := List.length_pos_iff.mpr (List.splitOn_ne_nil '.' front)
  have second := List.length_pos_iff.mpr (List.splitOn_ne_nil '.' back)
  omega

/-- **The names that are looked up** are those with a dot that cover the name. -/
theorem mem_domainSuffixes {candidate name : Text} : candidate ∈ domainSuffixes name ↔
    '.' ∈ candidate ∧ Covers candidate (toLowerCase name) := by
  rw [domainSuffixes, List.mem_map]
  generalize toLowerCase name = name
  constructor
  · rintro ⟨i, listed, rfl⟩
    have short := List.mem_range.mp listed
    have covers : Covers (['.'].intercalate ((name.splitOn '.').drop i))
        (['.'].intercalate (name.splitOn '.')) :=
      intercalate_drop (by omega)
    rw [List.intercalate_splitOn] at covers
    refine ⟨?_, covers⟩
    obtain ⟨label, rest, first⟩ := List.exists_cons_of_length_pos (l := (name.splitOn '.').drop i)
      (by
      rw [List.length_drop]; omega)
    obtain ⟨next, labels, second⟩ := List.exists_cons_of_length_pos (l := rest) (by
      have length := congrArg List.length first
      rw [List.length_drop, List.length_cons] at length
      omega)
    rw [first, second, intercalate_cons_cons]
    exact List.mem_append_right _ List.mem_cons_self
  · rintro ⟨dotted, rfl | ⟨front, rfl⟩⟩
    · refine ⟨0, List.mem_range.mpr ?_, by rw [List.drop_zero, List.intercalate_splitOn]⟩
      have := two_le_length_splitOn dotted
      omega
    · have parts : (front ++ '.' :: candidate).splitOn '.' = front.splitOn '.' ++
        candidate.splitOn '.' :=
        List.splitOn_append_cons_self _ _
      refine ⟨(front.splitOn '.').length, List.mem_range.mpr ?_, ?_⟩
      · have := two_le_length_splitOn dotted
        rw [parts, List.length_append]
        omega
      · rw [parts, List.drop_left, List.intercalate_splitOn]

theorem Covers.trans {first second third : Text} (covers : Covers first second)
    (also : Covers second third) :
    Covers first third := by
  obtain rfl | ends := covers
  · exact also
  · obtain rfl | more := also
    · exact .inr ends
    · exact .inr (ends.trans ((List.suffix_cons _ _).trans more))

namespace Policy

/-- `isAllowlisted`. -/
def isAllowlisted (policy : Policy) (queryName : Text) : Bool :=
  (domainSuffixes queryName).any fun candidate => candidate ∈ policy.allowlist

/-- The categories a domain is listed in. -/
def categoriesOf (policy : Policy) (domain : Text) : List Text :=
  (policy.blocklistDomains.filter (·.domain = domain)).map (·.categorySlug)

/-- `slug || 'unknown'`. -/
def reasonOf (slug : Text) : Text := if slug = [] then "unknown".toList else slug

/-- `checkBlocklist`. -/
def checkBlocklist (policy : Policy) (queryName : Text) : Option Text :=
  match policy.blocklistCategories with
  | none => none
  | some categories =>
    if !policy.blocklistEnabled || categories = [] then none
    else if policy.isAllowlisted queryName then none
    else
      (domainSuffixes queryName).findSome? fun candidate =>
        ((policy.categoriesOf candidate).find? (· ∈ categories)).map reasonOf

/-! ## Verdicts -/

/-- Why filtering is off. -/
inductive Bypass where
  | paused
  | host
  deriving DecidableEq

/-- `filteringBypass`. -/
def filteringBypass (policy : Policy) (clientIp : Text) (now : Nat) : Option Bypass :=
  if now < policy.filteringPausedUntil then some .paused
  else if clientIp ≠ [] && clientIp ∈ policy.exemptClients then some .host
  else none

/-- The codes of the answers to a blocked query. -/
inductive ResponseCode where
  | noerror
  | nxdomain
  deriving DecidableEq

/-- A verdict on a query. -/
inductive Inbound where
  | forward
  | block (blockReason : Text) (responseCode : ResponseCode)
  deriving DecidableEq

/-- `evaluateInboundPolicy`. -/
def evaluateInboundPolicy (policy : Policy) (queryName clientIp : Text) (now : Nat) : Inbound :=
  if queryName = [] || (policy.filteringBypass clientIp now).isSome then .forward
  else
    match policy.checkBlocklist queryName with
    | none => .forward
    | some blockedCategory =>
      .block blockedCategory
        (if policy.blocklistRedirectIp ≠ [] || policy.blocklistRedirectIp6 ≠ [] then .noerror
        else .nxdomain)

/-- `isGeoipAllowed`, with `ipInAny`. -/
def isGeoipAllowed (policy : Policy) (ip : Text) : Bool :=
  policy.geoipAllowEntries.any (ipMatchesEntry ip)

/-- `blockingCountryCodes`. -/
def blockingCountryCodes (policy : Policy) (countryCodes : List Text) : List Text :=
  match policy.geoipRules with
  | none => []
  | some rules =>
    match policy.geoipMode with
    | .blocklist => countryCodes.filter (· ∈ rules)
    | .allowlist => countryCodes.filter (· ∉ rules)

/-- Where an answer is on the map. -/
structure Destination (Point : Type) where
  country : Text
  point : Option Point

/-- A verdict on an answer. -/
inductive Resolved (Point : Type) where
  | forward (destination : Option (Destination Point))
  | block (blockReason : Text) (countryCodes : List Text) (destination : Option (Destination Point))

/-- The addresses of an answer that have a country and no exemption. -/
def placed (policy : Policy) (lookup : Text → Option Text) (ips : List Text) : List (Text × Text) :=
  (ips.filter fun ip => !policy.isGeoipAllowed ip).filterMap fun ip =>
    (lookup ip).map fun country => (ip, country)

/-- `evaluateResolvedPolicy`. -/
def evaluateResolvedPolicy {Point : Type} (policy : Policy) (lookup : Text → Option Text)
    (pointOf : Text → Option Point) (queryName : Text) (ips : List Text) (clientIp : Text)
    (now : Nat) :
    Resolved Point :=
  let placed := policy.placed lookup ips
  let destinationOf (entry : Option (Text × Text)) := entry.map fun p =>
      (⟨p.2, pointOf p.1⟩ : Destination Point)
  if (policy.filteringBypass clientIp now).isSome then .forward (destinationOf placed.head?)
  else
    match policy.blockingCountryCodes (placed.map Prod.snd) with
    | [] => .forward (destinationOf placed.head?)
    | first :: rest =>
      if policy.isAllowlisted queryName then .forward (destinationOf placed.head?)
      else .block first (first :: rest) (destinationOf (placed.find? (·.2 = first)))

/-! ## The answer to a blocked query -/

/-- The type of a question, as far as a blocked answer goes. -/
inductive QueryType where
  | a
  | aaaa
  | other (name : Text)
  deriving DecidableEq

/-- A question. -/
structure Question where
  name : Text
  type : QueryType
  deriving DecidableEq

/-- An answer, with a TTL of 300. -/
structure Answer where
  type : QueryType
  name : Text
  data : Text
  deriving DecidableEq

/-- The address that a blocked question is answered with. -/
def sinkhole (policy : Policy) : QueryType → Text
  | .a => policy.blocklistRedirectIp
  | .aaaa => policy.blocklistRedirectIp6
  | .other _ => []

/-- `createBlockedResponse`: the code and the answers. -/
def createBlockedResponse (policy : Policy) (questions : List Question) :
    ResponseCode × List Answer :=
  if policy.blocklistRedirectIp ≠ [] || policy.blocklistRedirectIp6 ≠ [] then
    (.noerror, questions.filterMap fun question =>
      if policy.sinkhole question.type ≠ [] then
        some ⟨question.type, question.name, policy.sinkhole question.type⟩
      else none)
  else (.nxdomain, [])

/-! ## Down the tree of names -/

variable {policy : Policy} {queryName sub clientIp : Text} {now : Nat}

theorem isAllowlisted_iff : policy.isAllowlisted queryName = true ↔
    ∃ domain ∈ policy.allowlist, '.' ∈ domain ∧ Covers domain (toLowerCase queryName) := by
  rw [isAllowlisted, List.any_eq_true]
  simp only [mem_domainSuffixes, decide_eq_true_eq]
  exact ⟨fun ⟨domain, covers, listed⟩ => ⟨domain, listed, covers⟩,
    fun ⟨domain, listed, covers⟩ => ⟨domain, covers, listed⟩⟩

/-- **A blocked name** has a listed domain over it, and no allowlisted one. -/
theorem checkBlocklist_isSome : (policy.checkBlocklist queryName).isSome = true ↔
    ∃ categories, policy.blocklistCategories = some categories ∧ policy.blocklistEnabled = true ∧
      policy.isAllowlisted queryName = false ∧
      ∃ domain ∈ domainSuffixes queryName, ∃ slug ∈ policy.categoriesOf domain,
      slug ∈ categories := by
  rw [checkBlocklist]
  cases policy.blocklistCategories with
  | none => simp
  | some categories =>
    simp only [Option.some.injEq, exists_eq_left']
    split
    · next off =>
        refine iff_of_false Bool.false_ne_true ?_
        rintro ⟨on, -, domain, -, slug, -, listed⟩
        rw [on, Bool.not_true, Bool.false_or, decide_eq_true_iff] at off
        rw [off] at listed
        cases listed
    · next on =>
        have enabled : policy.blocklistEnabled = true := by
          cases flag : policy.blocklistEnabled with
          | true => rfl
          | false => simp [flag] at on
        rw [enabled, and_iff_right rfl]
        split
        · next allowed => simp [allowed]
        · next refused =>
            rw [Bool.not_eq_true] at refused
            rw [refused, and_iff_right rfl, List.findSome?_isSome_iff]
            refine exists_congr fun domain => and_congr_right fun _ => ?_
            rw [Option.isSome_map, List.find?_isSome]
            simp only [decide_eq_true_eq]

theorem blocks_iff : policy.evaluateInboundPolicy queryName clientIp now ≠ .forward ↔
    queryName ≠ [] ∧ policy.filteringBypass clientIp now = none ∧
      (policy.checkBlocklist queryName).isSome = true := by
  rw [evaluateInboundPolicy]
  split
  · next off =>
      refine iff_of_false (fun other => other rfl) ?_
      rintro ⟨named, filtered, -⟩
      rw [filtered] at off
      simp [named] at off
  · next on =>
      simp only [Bool.or_eq_true, decide_eq_true_eq, not_or, Bool.not_eq_true,
        Option.isSome_eq_false_iff, Option.isNone_iff_eq_none] at on
      rw [and_iff_right on.1, and_iff_right on.2]
      cases policy.checkBlocklist queryName with
      | none => simp
      | some slug => simp

theorem blocks_iff_covered : policy.evaluateInboundPolicy queryName clientIp now ≠ .forward ↔
    policy.filteringBypass clientIp now = none ∧ policy.blocklistEnabled = true ∧
      (∃ categories, policy.blocklistCategories = some categories ∧ ∃ row ∈ policy.blocklistDomains,
        row.categorySlug ∈ categories ∧ '.' ∈ row.domain ∧
        Covers row.domain (toLowerCase queryName)) ∧
      ¬ ∃ domain ∈ policy.allowlist, '.' ∈ domain ∧ Covers domain (toLowerCase queryName) := by
  rw [blocks_iff, checkBlocklist_isSome, ← isAllowlisted_iff, Bool.not_eq_true]
  simp only [categoriesOf, List.mem_map, List.mem_filter, decide_eq_true_eq, mem_domainSuffixes]
  constructor
  · rintro ⟨-, filtered, categories, held, enabled, refused, domain, covers, slug,
      ⟨row, ⟨listed, rfl⟩, rfl⟩, on⟩
    exact ⟨filtered, enabled, ⟨categories, held, row, listed, on, covers⟩, refused⟩
  · rintro ⟨filtered, enabled, ⟨categories, held, row, listed, on, covers⟩, refused⟩
    refine ⟨?_, filtered, categories, held, enabled, refused, row.domain, covers, row.categorySlug,
      ⟨row, ⟨listed, rfl⟩, rfl⟩, on⟩
    rintro rfl
    obtain same | ends := covers.2
    · rw [same] at covers
      cases covers.1
    · cases List.suffix_nil.mp ends

/-- The verdict on an answer is to forward it. -/
def Resolved.Forwards {Point : Type} : Resolved Point → Prop
  | .forward _ => True
  | .block .. => False

/-- **The verdict on an answer**: a country of one of its addresses is against the rules, and the
allowlist does not cover the name. -/
theorem forwards_iff {Point : Type} (lookup : Text → Option Text) (pointOf : Text → Option Point)
    (ips : List Text) :
    (policy.evaluateResolvedPolicy lookup pointOf queryName ips clientIp now).Forwards ↔
      policy.filteringBypass clientIp now ≠ none ∨ policy.blockingCountryCodes
      ((policy.placed lookup ips).map Prod.snd) = [] ∨ policy.isAllowlisted queryName = true := by
  rw [evaluateResolvedPolicy]
  dsimp only
  split
  · next off =>
      exact iff_of_true trivial (.inl (Option.isSome_iff_ne_none.mp off))
  · next on =>
      rw [Bool.not_eq_true, Option.isSome_eq_false_iff, Option.isNone_iff_eq_none] at on
      rw [or_iff_right (not_not.mpr on)]
      split
      · next none => exact iff_of_true trivial (.inl none)
      · next first rest codes =>
          rw [or_iff_right (by rw [codes]; exact List.cons_ne_nil _ _)]
          split
          · next allowed => exact iff_of_true trivial allowed
          · next refused => exact iff_of_false id refused

variable (policy queryName sub clientIp now) in
/-- **Blocks and exemptions go down the tree of names.** Below a name whose queries are blocked
only what the allowlist covers is let through. Below an allowlisted name no query is blocked, and
no answer, whatever its countries. -/
theorem verdicts_below (below : Covers (toLowerCase queryName) (toLowerCase sub)) :
    (policy.evaluateInboundPolicy queryName clientIp now ≠ .forward →
      (policy.evaluateInboundPolicy sub clientIp now = .forward ↔ policy.isAllowlisted sub = true))
      ∧
    (policy.isAllowlisted queryName = true →
      policy.evaluateInboundPolicy sub clientIp now = .forward ∧
        ∀ {Point : Type} (lookup : Text → Option Text) (pointOf : Text → Option Point)
          (ips : List Text),
          (policy.evaluateResolvedPolicy lookup pointOf sub ips clientIp now).Forwards) := by
  have inherited : policy.isAllowlisted queryName = true → policy.isAllowlisted sub = true := by
    rw [isAllowlisted_iff, isAllowlisted_iff]
    exact fun ⟨domain, listed, dotted, covers⟩ => ⟨domain, listed, dotted, covers.trans below⟩
  have exempt (allowed : policy.isAllowlisted sub = true) :
      policy.evaluateInboundPolicy sub clientIp now = .forward := by
    by_contra blocked
    exact (blocks_iff_covered.mp blocked).2.2.2 (isAllowlisted_iff.mp allowed)
  refine ⟨fun blocked => ⟨fun forwarded => ?_, exempt⟩, fun allowed =>
    ⟨exempt (inherited allowed), ?_⟩⟩
  · obtain ⟨filtered, enabled, ⟨categories, held, row, listed, on, dotted, covers⟩, -⟩ :=
      blocks_iff_covered.mp blocked
    by_contra refused
    refine blocks_iff_covered.mpr ⟨filtered, enabled,
      ⟨categories, held, row, listed, on, dotted, covers.trans below⟩, ?_⟩ forwarded
    rwa [← isAllowlisted_iff]
  · intro Point lookup pointOf ips
    exact (forwards_iff lookup pointOf ips).mpr (.inr (.inr (inherited allowed)))

/-- A policy that blocks a domain but for one name of it. -/
def adsPolicy : Policy where
  blocklistEnabled := true
  blocklistCategories := some ["ads".toList]
  blocklistRedirectIp := []
  blocklistRedirectIp6 := []
  blocklistDomains := [⟨"example.com".toList, "ads".toList⟩]
  allowlist := ["ok.example.com".toList]
  geoipMode := .blocklist
  geoipRules := none
  geoipAllowEntries := []
  filteringPausedUntil := 0
  exemptClients := []

theorem verdicts_below_example :
    (adsPolicy.evaluateInboundPolicy "Example.com".toList [] 1 ≠ .forward →
      (adsPolicy.evaluateInboundPolicy "a.ok.example.com".toList [] 1 = .forward ↔
        adsPolicy.isAllowlisted "a.ok.example.com".toList = true)) ∧
    (adsPolicy.isAllowlisted "Example.com".toList = true →
      adsPolicy.evaluateInboundPolicy "a.ok.example.com".toList [] 1 = .forward ∧
        ∀ {Point : Type} (lookup : Text → Option Text) (pointOf : Text → Option Point)
          (ips : List Text),
          (adsPolicy.evaluateResolvedPolicy lookup pointOf "a.ok.example.com".toList ips
          [] 1).Forwards) :=
  verdicts_below adsPolicy "Example.com".toList "a.ok.example.com".toList [] 1
    (.inr ⟨"a.ok".toList, by decide⟩)

/-! ## The proxy under a policy -/

open DnsProxy

/-- What `handleQuery` is told of a query. -/
def verdict (policy : Policy) (queryName address : Text) (now : Nat) : Verdict :=
  let clientIp := (Address.canonicalizeIp address).getD address
  if policy.evaluateInboundPolicy queryName clientIp now = .forward then .forward else .block

/-- A run in which each query meets the policy of its time and handlers may throw, with what the
policy said of the queries and whether a handler threw. -/
inductive Filtered (nameOf : Bytes → Text) : Proxy → List Verdict → Bool → Prop where
  | start : Filtered nameOf {} [] false
  | query {p : Proxy} {met : List Verdict} {threw : Bool} (before : Filtered nameOf p met threw)
      (query : Query) (policy : Policy) (now : Nat) {inbound : Verdict}
      (said : policy.verdict (nameOf query.message) query.client.address now = inbound)
      (throws : Bool) :
      Filtered nameOf (p.outcome (p.handleQuery query inbound) throws) (met ++ [inbound])
      (threw || throws)
  | unread {p : Proxy} {met : List Verdict} {threw : Bool} (before : Filtered nameOf p met threw)
      (query : Query) (policy : Policy) (now : Nat) {inbound : Verdict}
      (said : policy.verdict (nameOf query.message) query.client.address now = inbound) :
      Filtered nameOf (p.unread query) (met ++ [inbound]) true
  | other {p after : Proxy} {met : List Verdict} {threw : Bool}
      (before : Filtered nameOf p met threw) (step : Proxy.Step (fun _ _ => False) p after)
      (throws : Bool) :
      Filtered nameOf (p.outcome after throws) met (threw || throws)

/-- The queries that were refused. -/
def refused (p : Proxy) : List Nat := (p.sent.filter (·.content = .blocked)).map (·.serial)

/-- The queries that others were asked, or that were answered otherwise. -/
def letIn (p : Proxy) : List Nat :=
  p.forwarded.map (·.serial) ++ p.pendingQueries.map (·.2.serial) ++ p.retrying.map (·.1.serial) ++
    (p.sent.filter (·.content ≠ .blocked)).map (·.serial)

theorem letIn_of_step {p after : Proxy} (step : Proxy.Step (fun _ _ => False) p after) :
    after.queries = p.queries ∧ refused after = refused p ∧ letIn after ⊆ letIn p := by
  cases step with
  | query query inbound allowed => exact allowed.elim
  | answered before later forwarded reply retry resolved asked sameId =>
    unfold Proxy.answer Proxy.handleDnsmasqResponse
    dsimp only
    split
    · exact ⟨rfl, rfl, by grind [letIn]⟩
    · have member := Proxy.find_eq_some ‹_›
      split <;> [skip; cases resolved]
      all_goals exact ⟨rfl, by grind [refused, Proxy.deliverResponse, Proxy.release],
        by grind [letIn, Proxy.deliverResponse, Proxy.release]⟩
  | timedOut serial number armed =>
    unfold Proxy.timeout
    dsimp only
    split
    · exact ⟨rfl, rfl, fun _ => id⟩
    · have member := Proxy.find_eq_some ‹_›
      exact ⟨rfl, by grind [refused, Proxy.release], by grind [letIn, Proxy.release]⟩
  | retried pending reply answer resolved waits =>
    cases answer <;> cases resolved
    all_goals exact ⟨rfl, by grind [refused, Proxy.retried, Proxy.deliverResponse],
      by grind [letIn, Proxy.retried, Proxy.deliverResponse]⟩

theorem letIn_handleQuery (p : Proxy) (query : Query) (inbound : Verdict) :
    (p.handleQuery query inbound).queries = p.queries ++ [query] ∧
      refused (p.handleQuery query inbound) = refused p ++
      (if inbound = .block then [p.queries.length] else []) ∧
        ∀ serial ∈ letIn (p.handleQuery query inbound), serial ∈ letIn p ∨
        (serial = p.queries.length ∧ inbound = .forward) := by
  have other : inbound ≠ .block → inbound = .forward := by cases inbound <;> simp
  unfold Proxy.handleQuery
  split_ifs <;> [skip; skip; split]
  all_goals exact ⟨rfl, by grind [refused, Proxy.respond, Proxy.forward],
    by grind [letIn, Proxy.respond, Proxy.forward]⟩

/-- The queries of which the policy said block. -/
def blockedOf (met : List Verdict) : List Nat :=
  (List.range met.length).filter fun serial => met[serial]? = some .block

theorem blockedOf_append (met : List Verdict) (inbound : Verdict) :
    blockedOf (met ++ [inbound]) = blockedOf met ++ if inbound = .block then [met.length]
    else [] := by
  rw [blockedOf, List.length_append, List.length_singleton, List.range_succ, List.filter_append]
  refine congrArg₂ _ (List.filter_congr fun serial known => ?_) ?_
  · rw [List.getElem?_append_left (List.mem_range.mp known)]
  · simp [List.filter_singleton]

theorem letIn_outcome (p after : Proxy) (throws : Bool) :
    (p.outcome after throws).queries = after.queries ∧
      refused (p.outcome after throws) = (if throws then refused p else refused after) ∧
      ∀ serial ∈ letIn (p.outcome after throws), serial ∈ letIn after ∨ serial ∈ letIn p := by
  cases throws with
  | false => exact ⟨rfl, rfl, fun _ => .inl⟩
  | true => exact ⟨rfl, rfl, by grind [letIn, Proxy.outcome]⟩

/-- **The filter holds in every run.** However the policy changes and whatever becomes of the
other queries, those that are refused are among those whose policy said so, once each and in
their order, and all of them while no handler throws; and only the rest are let in. -/
theorem filter_holds (nameOf : Bytes → Text) {p : Proxy} {met : List Verdict} {threw : Bool}
    (run : Filtered nameOf p met threw) :
    met.length = p.queries.length ∧ (refused p).Sublist (blockedOf met) ∧
      (threw = false → refused p = blockedOf met) ∧ ∀ serial ∈ letIn p,
      met[serial]? = some .forward := by
  induction run with
  | start => exact ⟨rfl, .slnil, fun _ => rfl, by simp [letIn]⟩
  | @query p met threw before query policy now inbound said throws ih =>
    obtain ⟨lengths, among, every, passed⟩ := ih
    obtain ⟨queries, refusals, inside⟩ := letIn_handleQuery p query inbound
    obtain ⟨kept, sends, within⟩ := letIn_outcome p (p.handleQuery query inbound) throws
    rw [refusals] at sends
    have told : ∀ serial ∈ letIn p, (met ++ [inbound])[serial]? = some .forward := by
      intro serial before
      have told := passed serial before
      rwa [List.getElem?_append_left (List.getElem?_eq_some_iff.mp told).1]
    refine ⟨by simp [lengths, kept, queries], ?_, fun quiet => ?_, fun serial member => ?_⟩
    · rw [sends, blockedOf_append, ← lengths]
      split
      · exact among.trans (List.sublist_append_left _ _)
      · exact among.append_right _
    · rw [Bool.or_eq_false_iff] at quiet
      rw [sends, quiet.2, if_neg Bool.false_ne_true, every quiet.1, blockedOf_append, lengths]
    · obtain handled | before := within serial member
      · obtain before | ⟨rfl, forwarded⟩ := inside serial handled
        · exact told serial before
        · rw [← lengths, List.getElem?_concat_length, forwarded]
      · exact told serial before
  | @unread p met threw before query policy now inbound said ih =>
    obtain ⟨lengths, among, every, passed⟩ := ih
    refine ⟨by simp [lengths, Proxy.unread], ?_, nofun, fun serial member => ?_⟩
    · rw [blockedOf_append]
      exact among.trans (List.sublist_append_left _ _)
    · have told := passed serial member
      rwa [List.getElem?_append_left (List.getElem?_eq_some_iff.mp told).1]
  | @other p after met threw before step throws ih =>
    obtain ⟨lengths, among, every, passed⟩ := ih
    obtain ⟨queries, refusals, inside⟩ := letIn_of_step step
    obtain ⟨kept, sends, within⟩ := letIn_outcome p after throws
    rw [refusals, ite_self] at sends
    refine ⟨by rw [lengths, kept, queries], sends ▸ among, fun quiet => ?_, fun serial member => ?_⟩
    · rw [Bool.or_eq_false_iff] at quiet
      rw [sends, every quiet.1]
    · exact passed serial ((within serial member).elim (fun handled => inside handled) id)

/-- A blocked query that is answered, one that is let in, and one whose client gave port 0. -/
def refusing : Proxy :=
  let first := ({} : Proxy).handleQuery ⟨[0, 7, 1], ⟨"10.0.0.9".toList, 5353, 0⟩⟩ .block
  let second := first.handleQuery ⟨[0, 8, 1], ⟨"10.0.0.9".toList, 5353, 0⟩⟩ .forward
  second.outcome (second.handleQuery ⟨[0, 9, 1], ⟨"10.0.0.9".toList, 0, 0⟩⟩ .block) true

theorem filter_holds_example :
    refused refusing = [0] ∧ blockedOf [.block, .forward, .block] = [0, 2] ∧
    (refused refusing).Sublist (blockedOf [.block, .forward, .block]) ∧
    ∀ serial ∈ letIn refusing, [Verdict.block, .forward, .block][serial]? = some .forward := by
  -- the name is allowed while the second query comes
  let allowed : Policy := { adsPolicy with allowlist := ["example.com".toList] }
  have blocks : adsPolicy.verdict "example.com".toList "10.0.0.9".toList 1 = .block := by decide
  have passes : allowed.verdict "example.com".toList "10.0.0.9".toList 2 = .forward := by decide
  have first := (@Filtered.start fun _ => "example.com".toList).query
    ⟨[0, 7, 1], ⟨"10.0.0.9".toList, 5353, 0⟩⟩ adsPolicy 1 blocks false
  have second := first.query ⟨[0, 8, 1], ⟨"10.0.0.9".toList, 5353, 0⟩⟩ allowed 2 passes false
  have third := second.query ⟨[0, 9, 1], ⟨"10.0.0.9".toList, 0, 0⟩⟩ adsPolicy 1 blocks true
  obtain ⟨-, among, -, passed⟩ := filter_holds _ third
  exact ⟨by decide, by decide, among, passed⟩

end Policy

end DnsPolicy

end Cidrella
