import Cidrella.Lib.Keyed
import Cidrella.ScopeOptions

/-!
# Changing the options of many scopes

`models/dhcp-bulk-options.js`: the scopes of a family get the option set of the defaults
editor. A preview does the writes, reads what every scope then serves, and takes the
writes back.

A scope is written by itself, and what it serves depends on its own row, its network and
the defaults alone, so a preview of all scopes shows each one what an apply to any
selection does. Its old rows and the columns that stood between the layers are gone, so
what it serves is what was written. What is written is more than what was ticked: the
rule that fills blanks from the network also fills a DNS server that was not ticked
(`bulk_change_exact_iff`).
-/

set_option autoImplicit false

namespace Cidrella

namespace BulkOptions

open ScopeOptions

/-! ## Option values -/

/-- A value of `fillScopeOptions`: `USE_DEFAULT`, null, or a text. -/
inductive OptionValue where
  | useDefault
  | blank
  | text (value : Text)
  deriving DecidableEq, Repr

/-- A map of codes to such values. -/
abbrev OptionValues := List (Nat × OptionValue)

/-- What a scope's network gives it: `{ parsed, gateway, domain, serverIp }`. -/
structure NetworkFacts where
  net : Network
  gateway : Option Addr
  domain : Option Text
  serverIp : Option Text

/-- A value a scope takes from its network. -/
structure OptionFill where
  code : Nat
  value : Text
  overwrite : Bool
  deriving DecidableEq, Repr

/-- A fill, where the network has the value. -/
def fillOf (code : Nat) (value : Option Text) (overwrite : Bool) : List OptionFill :=
  ((truthy value).map fun text => ⟨code, text, overwrite⟩).toList

/-- `networkOptionFills`. -/
def networkOptionFills (facts : NetworkFacts) : List OptionFill :=
  match facts.net.family with
  | .v6 => fillOf 24 facts.domain false ++ fillOf 23 facts.serverIp false
  | .v4 =>
    fillOf 3 (facts.gateway.map Addr.text) true ++ fillOf 1 (some (maskText facts.net)) true ++
      fillOf 28 (some (addressAt .v4 facts.net.lastBig).text) true ++
      fillOf 15 facts.domain false ++ fillOf 119 facts.domain false ++ fillOf 6 facts.serverIp false

/-- A value that JavaScript takes as true. -/
def isSet (value : Option OptionValue) : Bool :=
  match value with
  | none | some .blank => false
  | some .useDefault => true
  | some (.text value) => value ≠ []

/-- One fill of `fillScopeOptions`. -/
def fillOption (values : OptionValues) (fill : OptionFill) : OptionValues :=
  if fill.overwrite || !isSet (Assoc.get values fill.code) then
    Assoc.put values fill.code (.text fill.value)
  else values

/-- `fillScopeOptions`: the enabled options, then the network's values, whether or not
their codes are enabled. -/
def fillScopeOptions (enabled : OptionValues) (facts : NetworkFacts) : OptionValues :=
  (networkOptionFills facts).foldl fillOption
    (enabled.foldl (fun values entry => Assoc.put values entry.1 entry.2) [])

/-- The row of a value; a blank has none. -/
def rowOf (code : Nat) : OptionValue → Option ScopeOption
  | .useDefault => some ⟨code, none⟩
  | .blank => none
  | .text value => if value = [] then none else some ⟨code, some value⟩

/-- `writeScopeOptionRows`, for a scope without rows. The codes of a map differ, so no
insert is refused. -/
def writeScopeOptionRows (values : OptionValues) : List ScopeOption :=
  (values.filterMap fun entry => rowOf entry.1 entry.2).foldl
    (fun rows row => insertOption row rows) []

/-! ## The defaults -/

/-- A row of `dhcp_option_defaults`. -/
structure OptionDefault where
  code : Nat
  value : Option Text
  enabledByDefault : Bool
  family : Family
  deriving DecidableEq, Repr

/-- An option of the editor: `{ code, value }`. -/
structure EditorOption where
  code : Nat
  value : Option Text
  deriving DecidableEq, Repr

/-- What a bulk change reads and writes. -/
structure State where
  env : Env
  defaults : List OptionDefault

/-- The defaults the resolver reads. -/
def State.defaultValues (state : State) (family : Family) (code : Nat) : Option Text :=
  (state.defaults.find? fun row => row.family = family && row.value ≠ none && row.code = code).bind
    (·.value)

/-- `replaceDefaultOptions`. A code that comes twice is refused. -/
def replaceDefaultOptions (state : State) (options : List EditorOption) (enabledDefaults : List Nat)
    (family : Family) : Except OptionFailure State :=
  let given := options.filter fun option => option.code ≠ 0 && truthy option.value ≠ none
  let inserted := given.map fun option =>
    (⟨option.code, option.value, enabledDefaults.contains option.code, family⟩ : OptionDefault)
  let blanks := (enabledDefaults.dedup.filter fun code => !(given.map (·.code)).contains code).map
    fun code => (⟨code, none, true, family⟩ : OptionDefault)
  if (given.map (·.code)).Nodup then
    .ok { state with
      defaults := state.defaults.filter (·.family ≠ family) ++ inserted ++ blanks }
  else .error .unique

/-! ## The change -/

/-- The body of a request. -/
structure BulkRequest where
  family : Family
  options : List EditorOption
  enabled : List Nat
  saveDefaults : Bool

/-- `values.get(code)`: the last option of a code counts. -/
def BulkRequest.valueOf (request : BulkRequest) (code : Nat) : Option Text :=
  (request.options.reverse.find? (·.code = code)).bind (·.value)

/-- `enabledOptions`. -/
def BulkRequest.enabledOptions (request : BulkRequest) : OptionValues :=
  request.enabled.dedup.map fun code =>
    (code,
      match truthy (request.valueOf code) with
      | none => .blank
      | some text => if request.saveDefaults then .useDefault else .text text)

/-- `bulkChangeSkipReason`: a SLAAC-only scope sends no options. -/
def bulkChangeSkipReason (scope : Scope) : Option Text :=
  if scope.addressFamily = .v6 && scope.v6Mode = some .slaac then
    some "SLAAC only, sends no options".toList
  else none

/-- `ORDER BY sub.network_address, s.id`. -/
def scopeOrder (left right : Scope × SubnetRow) : Bool :=
  let leftText := (addressAt left.2.key.family left.2.key.networkBig).text
  let rightText := (addressAt right.2.key.family right.2.key.networkBig).text
  leftText < rightText || (leftText = rightText && left.1.id ≤ right.1.id)

/-- `familyScopes`. -/
def familyScopes (env : Env) (family : Family) : List (Scope × SubnetRow) :=
  ((env.scopes.filterMap fun scope =>
    (env.subnets.byId scope.subnetId).map fun subnet => (scope, subnet)).insertionSort
      (scopeOrder · ·)).filter fun entry => entry.1.addressFamily = family

/-- A changed option. -/
structure OptionChange where
  code : Nat
  before : Option Text
  after : Option Text
  beforeDefault : Bool
  afterDefault : Bool
  deriving DecidableEq, Repr

/-- Whether a code's value is the default's. -/
def linkedAt (values : Values) (code : Nat) : Bool :=
  (Assoc.get values code).any (·.2 = .default)

/-- `diff`. -/
def diff (before after : Values) : List OptionChange :=
  let codes := ((before.map Prod.fst ++ after.map Prod.fst).dedup).insertionSort (· ≤ ·)
  (codes.filter fun code => valueAt before code ≠ valueAt after code ||
    linkedAt before code ≠ linkedAt after code).map fun code =>
      ⟨code, valueAt before code, valueAt after code, linkedAt before code, linkedAt after code⟩

/-- What is told of a scope. -/
structure BulkScope where
  id : Nat
  subnetId : Nat
  subnetNet : Network
  description : Option Text
  enabled : Bool
  v6Mode : Option V6Mode
  pools : List (Addr × Addr)
  skipReason : Option Text
  changes : List OptionChange

/-- What a bulk change tells. -/
structure BulkResult where
  family : Family
  applied : List Nat
  scopes : List BulkScope

section Bulk

-- What `JSON.parse` makes of a column, and `getServerIpForSubnet`, which reads the host's
-- interfaces.
variable (parseList : Text → Option (List Text)) (serverIp : Network → Option Text)

/-- `effectiveMap`. -/
def effectiveMap (state : State) (scope : Scope) (subnet : SubnetRow) : Values :=
  let fresh := (state.env.scopes.find? (·.id = scope.id)).getD scope
  resolveEffectiveScopeOptions parseList (state.defaultValues fresh.addressFamily) fresh subnet

/-- The rows a scope of a network gets. -/
def replacementRows (request : BulkRequest) (subnet : SubnetRow) : List ScopeOption :=
  let values := fillScopeOptions request.enabledOptions
    ⟨subnet.key, subnet.info.gatewayAddress, subnet.info.domainName, serverIp subnet.key⟩
  -- Lease time is the scope's own field, never an option row.
  writeScopeOptionRows (if request.family = .v4 then Assoc.erase values 51 else values)

/-- `replaceScopeOptions`. -/
def replaceScopeOptions (request : BulkRequest) (state : State) (scope : Scope)
    (subnet : SubnetRow) :
    State :=
  { state with
    env :=
      { state.env with
        scopes := state.env.scopes.map fun row =>
          if row.id = scope.id then
            { row with
              dnsServers := none
              ntpServers := none
              domainSearch := none
              options := replacementRows serverIp request subnet }
          else row } }

/-- A scope that is written: not skipped, and selected where a selection is given. -/
def isTarget (scopeIds : Option (List Nat)) (scope : Scope) : Bool :=
  bulkChangeSkipReason scope = none && scopeIds.all (·.contains scope.id)

/-- What is told of a scope, by the database before and after the writes. -/
def bulkScope (before after : State) (scope : Scope) (subnet : SubnetRow) : BulkScope :=
  { id := scope.id
    subnetId := scope.subnetId
    subnetNet := subnet.key
    description := scope.description
    enabled := scope.enabled
    v6Mode := scope.v6Mode
    pools := (after.env.pools.filter (·.scopeId = scope.id)).map fun pool =>
    (pool.startIp, pool.endIp)
    skipReason := bulkChangeSkipReason scope
    changes := diff (effectiveMap parseList before scope subnet) (effectiveMap parseList after
    scope subnet) }

/-- `bulkChangeScopeOptions`: the database it leaves, and what it tells. -/
def bulkChangeScopeOptions (state : State) (request : BulkRequest) (scopeIds : Option (List Nat))
    (preview : Bool) : Except OptionFailure (State × BulkResult) := do
  let scopes := familyScopes state.env request.family
  let saved ←
    if request.saveDefaults then
      replaceDefaultOptions state request.options request.enabled request.family
    else .ok state
  let targets := scopes.filter fun entry => isTarget scopeIds entry.1
  let after := targets.foldl
    (fun state entry => replaceScopeOptions serverIp request state entry.1 entry.2) saved
  let result : BulkResult :=
    { family := request.family
      applied := targets.map (·.1.id)
      scopes := scopes.map fun entry => bulkScope parseList state after entry.1 entry.2 }
  -- A preview throws `ROLLBACK` out of its transaction.
  .ok (if preview then state else after, result)

end Bulk

/-! ## The rows of a scope -/

/-- The layers of a scope's own rows: the linked ones, then those that hold a value. -/
def rowValues (skip : Nat → Bool) (defaults : Nat → Option Text) (scope : Scope) : Values :=
  (explicitRows scope).foldl
    (fun values row => if skip row.code then values else ScopeOptions.set values row.code
    row.value .scope) (linkedValues defaults scope)

section Rows

variable {skip : Nat → Bool} {defaults : Nat → Option Text} {scope : Scope} {code : Nat}
    {text : Text}

theorem rowValues_frame (values : Values) (row : ScopeOption) (other : Nat)
    (differs : row.code ≠ other) :
    Assoc.get (if skip row.code then values else ScopeOptions.set values row.code row.value .scope)
      other = Assoc.get values other := by
  split
  · rfl
  · exact get_set_of_ne values (Ne.symm differs) _ _

theorem linkedValues_frame (values : Values) (row : ScopeOption) (other : Nat)
    (differs : row.code ≠ other) :
    Assoc.get (if scope.addressFamily = .v4 && row.code = 51 then values
      else ScopeOptions.set values row.code (defaults row.code) .default) other = Assoc.get
          values other := by
  split
  · rfl
  · exact get_set_of_ne values (Ne.symm differs) _ _

theorem get_linkedValues_of_not_linked
    (own : ∀ row ∈ scope.options, row.code = code → row.value ≠ none) :
    Assoc.get (linkedValues defaults scope) code = none := by
  unfold linkedValues
  refine (read_foldl_of_not_mem linkedValues_frame ?_ []).trans rfl
  intro row member same
  obtain ⟨within, linked⟩ := List.mem_filter.mp member
  exact own row within same (of_decide_eq_true linked)

theorem get_rowValues_of_not_mem (absent : ∀ row ∈ scope.options, row.code ≠ code) :
    Assoc.get (rowValues skip defaults scope) code = none :=
  (read_foldl_of_not_mem rowValues_frame (explicit_absent absent) _).trans
    (get_linkedValues_of_not_linked fun row member same => absurd same (absent row member))

theorem get_rowValues_of_explicit (distinct : (scope.options.map ScopeOption.code).Nodup)
    (member : (⟨code, some text⟩ : ScopeOption) ∈ scope.options) (solid : text ≠ [])
    (kept : skip code = false) :
    Assoc.get (rowValues skip defaults scope) code = some (text, .scope) := by
  refine read_foldl_of_mem rowValues_frame (explicit_distinct distinct) (explicit_mem member)
    (fun values => ?_) _
  simp only [kept, Bool.false_eq_true, if_false]
  rw [get_set, if_pos rfl, truthy_some solid]
  rfl

theorem get_rowValues_of_linked (distinct : (scope.options.map ScopeOption.code).Nodup)
    (member : (⟨code, none⟩ : ScopeOption) ∈ scope.options)
    (notLeaseTime : ¬ (scope.addressFamily = .v4 ∧ code = 51))
    (given : truthy (defaults code) = some text) :
    Assoc.get (rowValues skip defaults scope) code = some (text, .default) := by
  have noOwn : ∀ row ∈ explicitRows scope, row.code ≠ code := by
    intro row inside same
    obtain ⟨within, explicit⟩ := List.mem_filter.mp inside
    have isLinked : row = ⟨code, none⟩ := List.inj_on_of_nodup_map distinct within member same
    rw [isLinked] at explicit
    exact absurd explicit (by simp)
  refine (read_foldl_of_not_mem rowValues_frame noOwn _).trans ?_
  unfold linkedValues
  have linked : (⟨code, none⟩ : ScopeOption) ∈ scope.options.filter (·.value = none) :=
    List.mem_filter.mpr ⟨member, rfl⟩
  refine read_foldl_of_mem linkedValues_frame (distinct.sublist (List.filter_sublist.map _)) linked
    (fun values => ?_) []
  rw [if_neg (by simpa using notLeaseTime), get_set, if_pos rfl, given]
  rfl

end Rows

/-! ## What a cleared scope serves -/

/-- The codes a network gives whether or not a scope has a row of them. -/
def networkOwned : Family → List Nat
  | .v4 => [1, 3, 15, 28, 119]
  | .v6 => [24]

/-- The codes whose value is the network's, whatever a row says. -/
def topologyOwned : Family → List Nat
  | .v4 => [1, 3, 28]
  | .v6 => []

/-- A scope whose pre-catalog columns are empty. -/
structure Cleared (scope : Scope) : Prop where
  dnsServers : scope.dnsServers = none
  ntpServers : scope.ntpServers = none
  domainSearch : scope.domainSearch = none

theorem set_none (values : Values) (code : Nat) (source : Provenance) :
    ScopeOptions.set values code none source = values := rfl

/-- The layers of rows of a family. IPv4 51 is the lease time. -/
def leaseTimeSkip (family : Family) (code : Nat) : Bool := family = .v4 && code = 51

section Resolving

variable {parseList : Text → Option (List Text)} {defaults : Nat → Option Text} {scope : Scope}
  {subnet : SubnetRow} {code : Nat}

theorem get_topologyValues (free : code ≠ 1 ∧ code ≠ 3 ∧ code ≠ 28) (values : Values) :
    Assoc.get (topologyValues subnet values) code = Assoc.get values code := by
  obtain ⟨notMask, notRouter, notBroadcast⟩ := free
  have masked : Assoc.get (if subnet.key.family = .v4 then
      ScopeOptions.set (ScopeOptions.set values 1 (some (maskText subnet.key)) .network) 28
        (some (addressAt .v4 subnet.key.lastBig).text) .network else values) code =
      Assoc.get values code := by
    split
    · rw [get_set_of_ne _ notBroadcast, get_set_of_ne _ notMask]
    · rfl
  unfold topologyValues
  dsimp only
  split
  · rw [get_set_of_ne _ notRouter, masked]
  · rw [Assoc.get_erase, if_neg notRouter, masked]

/-- **A cleared scope serves its rows.** Below them there is at most the network, for the
codes that are its own. -/
theorem get_resolve_cleared (cleared : Cleared scope)
    (held : scope.addressFamily = .v4 → explicitRows scope ≠ [])
    (free : code ∉ topologyOwned scope.addressFamily) :
    ∃ fallback, Assoc.get (resolveEffectiveScopeOptions parseList defaults scope subnet) code =
        (Assoc.get (rowValues (leaseTimeSkip scope.addressFamily) defaults scope) code).or fallback
        ∧
      (code ∉ networkOwned scope.addressFamily → fallback = none) := by
  cases family : scope.addressFamily with
  | v6 =>
    have noLegacy : legacyListValue parseList none = none := rfl
    have rows : Assoc.get (resolveEffectiveScopeOptions parseList defaults scope subnet) code =
        Assoc.get (setMissing (rowValues (leaseTimeSkip .v6) defaults scope) 24
          ((truthy scope.domainName).or subnet.info.domainName) .network) code := by
      simp only [resolveEffectiveScopeOptions, family, resolveV6, cleared.dnsServers,
        cleared.ntpServers, cleared.domainSearch, noLegacy, set_none]
      rfl
    rw [rows, get_setMissing]
    split
    · rename_i search
      exact ⟨_, rfl, fun other => absurd (search ▸ List.mem_singleton_self 24) other⟩
    · exact ⟨none, (Option.or_none).symm, fun _ => rfl⟩
  | v4 =>
    have rows : Assoc.get (resolveEffectiveScopeOptions parseList defaults scope subnet) code =
        Assoc.get (setMissing (setMissing (topologyValues subnet
          (rowValues (leaseTimeSkip .v4) defaults scope)) 15 subnet.info.domainName .network) 119
            subnet.info.domainName .network) code := by
      have skip : (fun (values : Values) (row : ScopeOption) =>
          if row.code = 51 then values else ScopeOptions.set values row.code row.value .scope) =
          fun values row => if leaseTimeSkip .v4 row.code then values
            else ScopeOptions.set values row.code row.value .scope := by
        funext values row
        simp [leaseTimeSkip]
      simp only [resolveEffectiveScopeOptions, family, resolveV4, if_neg (held family), skip]
      rfl
    rw [family] at free
    have topology : code ≠ 1 ∧ code ≠ 3 ∧ code ≠ 28 := by
      simp only [topologyOwned, List.mem_cons, List.not_mem_nil, or_false, not_or] at free
      exact free
    rw [rows, get_setMissing, get_setMissing, get_topologyValues topology]
    by_cases search : code = 119
    · rw [if_pos search, if_neg (by rw [search]; decide)]
      exact ⟨_, rfl, fun other => absurd (by rw [search]; decide) other⟩
    · rw [if_neg search]
      split
      · rename_i domain
        exact ⟨_, rfl, fun other => absurd (by rw [domain]; decide) other⟩
      · exact ⟨none, (Option.or_none).symm, fun _ => rfl⟩

end Resolving

/-! ## What is filled -/

theorem get_fillOption (values : OptionValues) (fill : OptionFill) (code : Nat) :
    Assoc.get (fillOption values fill) code =
      if code = fill.code ∧ (fill.overwrite = true ∨ isSet (Assoc.get values code) = false) then
        some (.text fill.value)
      else Assoc.get values code := by
  unfold fillOption
  by_cases same : code = fill.code
  · subst same
    by_cases writes : fill.overwrite = true ∨ isSet (Assoc.get values fill.code) = false
    · rw [if_pos (by simpa using writes), Assoc.get_put_self, if_pos ⟨rfl, writes⟩]
    · rw [if_neg (by simpa using writes), if_neg fun both => writes both.2]
  · have other : ¬ (code = fill.code ∧
        (fill.overwrite = true ∨ isSet (Assoc.get values code) = false)) := fun both => same both.1
    rw [if_neg other]
    split
    · exact Assoc.get_put_of_ne _ _ same
    · rfl

section Fills

variable {fills : List OptionFill} {values : OptionValues} {code : Nat}

theorem get_foldl_fill_of_isSet (set : isSet (Assoc.get values code) = true)
    (fillsOnly : ∀ fill ∈ fills, fill.code = code → fill.overwrite = false) :
    Assoc.get (fills.foldl fillOption values) code = Assoc.get values code := by
  induction fills generalizing values with
  | nil => rfl
  | cons fill fills ih =>
    have first : Assoc.get (fillOption values fill) code = Assoc.get values code := by
      rw [get_fillOption]
      refine if_neg ?_
      rintro ⟨rfl, overwrites | unset⟩
      · rw [fillsOnly fill List.mem_cons_self rfl] at overwrites
        cases overwrites
      · rw [set] at unset
        cases unset
    rw [List.foldl_cons, ih (first ▸ set)
      fun other member => fillsOnly other (List.mem_cons_of_mem _ member)]
    exact first

theorem get_foldl_fill_cases : Assoc.get (fills.foldl fillOption values) code = Assoc.get
    values code ∨ ∃ fill ∈ fills, fill.code = code ∧
      Assoc.get (fills.foldl fillOption values) code = some (.text fill.value) := by
  induction fills generalizing values with
  | nil => exact .inl rfl
  | cons fill fills ih =>
    rw [List.foldl_cons]
    rcases @ih (fillOption values fill) with same | ⟨other, member, isCode, found⟩
    · rw [same, get_fillOption]
      split
      · rename_i written
        exact .inr ⟨fill, List.mem_cons_self, written.1.symm, rfl⟩
      · exact .inl rfl
    · exact .inr ⟨other, List.mem_cons_of_mem _ member, isCode, found⟩

theorem get_foldl_fill_of_not_mem (absent : ∀ fill ∈ fills, fill.code ≠ code) :
    Assoc.get (fills.foldl fillOption values) code = Assoc.get values code := by
  rcases @get_foldl_fill_cases fills values code with same | ⟨fill, member, isCode, -⟩
  · exact same
  · exact absurd isCode (absent fill member)

theorem get_foldl_fill_of_mem (distinct : (fills.map OptionFill.code).Nodup) {fill : OptionFill}
    (member : fill ∈ fills)
    (writes : fill.overwrite = true ∨ isSet (Assoc.get values fill.code) = false) :
    Assoc.get (fills.foldl fillOption values) fill.code = some (.text fill.value) := by
  induction fills generalizing values with
  | nil => cases member
  | cons first fills ih =>
    obtain ⟨new, distinctRest⟩ := List.nodup_cons.mp distinct
    rw [List.foldl_cons]
    rcases List.mem_cons.mp member with rfl | later
    · rw [get_foldl_fill_of_not_mem fun other inside same =>
        new (List.mem_map.mpr ⟨other, inside, same⟩), get_fillOption, if_pos ⟨rfl, writes⟩]
    · have differs : fill.code ≠ first.code :=
        fun same => new (List.mem_map.mpr ⟨fill, later, same⟩)
      refine ih distinctRest later ?_
      rwa [get_fillOption, if_neg fun both => differs both.1]

theorem nodup_foldl_fill (distinct : (values.map Prod.fst).Nodup) :
    ((fills.foldl fillOption values).map Prod.fst).Nodup := by
  induction fills generalizing values with
  | nil => exact distinct
  | cons fill fills ih =>
    refine ih ?_
    unfold fillOption
    split
    · exact Assoc.nodup_put distinct _ _
    · exact distinct

end Fills

theorem mem_fillOf {code : Nat} {value : Option Text} {overwrite : Bool} {fill : OptionFill} :
    fill ∈ fillOf code value overwrite ↔ ∃ text, truthy value = some text ∧
    fill = ⟨code, text, overwrite⟩ := by
  unfold fillOf
  cases truthy value with
  | none => simp
  | some text => simp

theorem codes_fillOf (code : Nat) (value : Option Text) (overwrite : Bool) :
    ((fillOf code value overwrite).map OptionFill.code).Sublist [code] := by
  unfold fillOf
  cases truthy value with
  | none => exact List.nil_sublist _
  | some text => exact List.Sublist.refl _

/-- The DNS servers of a family. -/
def dnsServersCode : Family → Nat
  | .v4 => 6
  | .v6 => 23

section Network

variable (facts : NetworkFacts)

theorem networkOptionFills_distinct : ((networkOptionFills facts).map OptionFill.code).Nodup := by
  unfold networkOptionFills
  cases facts.net.family with
  | v6 =>
    rw [List.map_append]
    exact List.Nodup.sublist ((codes_fillOf 24 _ _).append (codes_fillOf 23 _ _)) (by decide)
  | v4 =>
    simp only [List.map_append]
    exact List.Nodup.sublist ((((((codes_fillOf 3 _ _).append (codes_fillOf 1 _ _)).append
      (codes_fillOf 28 _ _)).append (codes_fillOf 15 _ _)).append (codes_fillOf 119 _ _)).append
        (codes_fillOf 6 _ _)) (by decide)

theorem networkOptionFills_cases {fill : OptionFill} (member : fill ∈ networkOptionFills facts) :
    (fill.code ∈ networkOwned facts.net.family ∨
      (fill.code = dnsServersCode facts.net.family ∧ truthy facts.serverIp = some fill.value)) ∧
    (fill.overwrite = true → fill.code ∈ topologyOwned facts.net.family) := by
  unfold networkOptionFills at member
  cases family : facts.net.family with
  | v6 =>
    rw [family] at member
    simp only [List.mem_append, mem_fillOf] at member
    rcases member with ⟨text, -, rfl⟩ | ⟨text, given, rfl⟩
    · simp [networkOwned]
    · exact ⟨.inr ⟨rfl, given⟩, by simp⟩
  | v4 =>
    rw [family] at member
    simp only [List.mem_append, mem_fillOf, or_assoc] at member
    rcases member with ⟨text, -, rfl⟩ | ⟨text, -, rfl⟩ | ⟨text, -, rfl⟩ | ⟨text, -, rfl⟩ |
      ⟨text, -, rfl⟩ | ⟨text, given, rfl⟩
    · simp [networkOwned, topologyOwned]
    · simp [networkOwned, topologyOwned]
    · simp [networkOwned, topologyOwned]
    · simp [networkOwned]
    · simp [networkOwned]
    · exact ⟨.inr ⟨rfl, given⟩, by simp⟩

theorem serverIp_fill {text : Text} (given : truthy facts.serverIp = some text) :
    ⟨dnsServersCode facts.net.family, text, false⟩ ∈ networkOptionFills facts := by
  unfold networkOptionFills
  cases family : facts.net.family with
  | v6 => exact List.mem_append_right _ (mem_fillOf.mpr ⟨text, given, rfl⟩)
  | v4 => exact List.mem_append_right _ (mem_fillOf.mpr ⟨text, given, rfl⟩)

theorem mask_fill (family : facts.net.family = .v4) :
    ⟨1, maskText facts.net, true⟩ ∈ networkOptionFills facts := by
  unfold networkOptionFills
  rw [family]
  simp only [List.mem_append, mem_fillOf]
  exact .inl (.inl (.inl (.inl (.inr ⟨_, truthy_some (Address.formatIp_ne_nil _ _), rfl⟩))))

end Network

/-! ## The rows that are written -/

/-- The value of a ticked option. -/
def BulkRequest.tickedValue (request : BulkRequest) (code : Nat) : OptionValue :=
  match truthy (request.valueOf code) with
  | none => .blank
  | some text => if request.saveDefaults then .useDefault else .text text

theorem enabledOptions_distinct (request : BulkRequest) :
    (request.enabledOptions.map Prod.fst).Nodup := by
  have keys : request.enabledOptions.map Prod.fst = request.enabled.dedup := by
    rw [BulkRequest.enabledOptions, List.map_map]
    exact List.map_id _
  rw [keys]
  exact request.enabled.nodup_dedup

theorem get_enabledOptions (request : BulkRequest) (code : Nat) :
    Assoc.get request.enabledOptions code =
      if code ∈ request.enabled then some (request.tickedValue code) else none := by
  split
  · rename_i ticked
    refine (Assoc.get_eq_some_iff (enabledOptions_distinct request)).mpr ?_
    exact List.mem_map.mpr ⟨code, List.mem_dedup.mpr ticked, rfl⟩
  · rename_i unticked
    refine Assoc.get_eq_none_iff.mpr fun member => unticked ?_
    obtain ⟨entry, inside, rfl⟩ := List.mem_map.mp member
    obtain ⟨other, ticked, rfl⟩ := List.mem_map.mp inside
    exact List.mem_dedup.mp ticked

section Written

variable (request : BulkRequest) (facts : NetworkFacts) {code : Nat} {text : Text}

theorem fillScopeOptions_distinct :
    ((fillScopeOptions request.enabledOptions facts).map Prod.fst).Nodup :=
  nodup_foldl_fill (Assoc.nodup_foldl_put List.nodup_nil)

theorem get_enabled (code : Nat) :
    Assoc.get (request.enabledOptions.foldl (fun values entry => Assoc.put values entry.1 entry.2)
      []) code = if code ∈ request.enabled then some (request.tickedValue code) else none := by
  rw [Assoc.get_foldl_put (enabledOptions_distinct request), Assoc.get_nil, Option.or_none,
    get_enabledOptions]

theorem get_fillScopeOptions_of_ticked (ticked : code ∈ request.enabled)
    (value : truthy (request.valueOf code) = some text)
    (free : code ∉ topologyOwned facts.net.family) :
    Assoc.get (fillScopeOptions request.enabledOptions facts) code =
      some (if request.saveDefaults then .useDefault else .text text) := by
  have entry := get_enabled request code
  rw [if_pos ticked, BulkRequest.tickedValue, value] at entry
  have solid : text ≠ [] := (truthy_eq_some value).2
  refine (get_foldl_fill_of_isSet ?_ fun fill member same => ?_).trans entry
  · rw [entry]
    cases request.saveDefaults <;> simp [isSet, solid]
  · by_contra overwrites
    rw [Bool.not_eq_false] at overwrites
    exact free (same ▸ (networkOptionFills_cases facts member).2 overwrites)

theorem get_fillScopeOptions_of_unticked (unticked : code ∉ request.enabled) {value : OptionValue}
    (found : Assoc.get (fillScopeOptions request.enabledOptions facts) code = some value) :
    code ∈ networkOwned facts.net.family ∨
      (code = dnsServersCode facts.net.family ∧ ∃ text, truthy facts.serverIp = some text) := by
  rcases @get_foldl_fill_cases (networkOptionFills facts)
    (request.enabledOptions.foldl (fun values entry => Assoc.put values entry.1 entry.2) []) code
    with same | ⟨fill, member, rfl, -⟩
  · rw [fillScopeOptions, same, get_enabled, if_neg unticked] at found
    cases found
  · exact (networkOptionFills_cases facts member).1.imp_right fun isDns => ⟨isDns.1, _, isDns.2⟩

theorem get_fillScopeOptions_of_serverIp
    (unticked : dnsServersCode facts.net.family ∉ request.enabled)
    (given : truthy facts.serverIp = some text) :
    Assoc.get (fillScopeOptions request.enabledOptions facts) (dnsServersCode facts.net.family) =
      some (.text text) := by
  refine get_foldl_fill_of_mem (networkOptionFills_distinct facts) (serverIp_fill facts given)
    (.inr ?_)
  rw [get_enabled, if_neg unticked]
  rfl

theorem get_fillScopeOptions_mask (family : facts.net.family = .v4) :
    Assoc.get (fillScopeOptions request.enabledOptions facts) 1 =
    some (.text (maskText facts.net)) :=
  get_foldl_fill_of_mem (networkOptionFills_distinct facts) (mask_fill facts family) (.inl rfl)

end Written

theorem code_rowOf {code : Nat} {value : OptionValue} {row : ScopeOption}
    (made : rowOf code value = some row) : code = row.code := by
  unfold rowOf at made
  split at made
  · obtain rfl := Option.some.inj made
    rfl
  · cases made
  · split at made
    · cases made
    · obtain rfl := Option.some.inj made
      rfl

theorem perm_foldl_insertOption (rows start : List ScopeOption) :
    (rows.foldl (fun rows row => insertOption row rows) start).Perm (rows ++ start) := by
  induction rows generalizing start with
  | nil => exact List.Perm.refl _
  | cons first rows ih =>
    exact (ih _).trans (((List.perm_orderedInsert _ first start).append_left rows).trans
      List.perm_middle)

section Rows

variable {values : OptionValues} (distinct : (values.map Prod.fst).Nodup)

include distinct

theorem mem_writeScopeOptionRows {row : ScopeOption} : row ∈ writeScopeOptionRows values ↔
    ∃ value, Assoc.get values row.code = some value ∧ rowOf row.code value = some row := by
  rw [writeScopeOptionRows, (perm_foldl_insertOption _ _).mem_iff, List.append_nil,
    List.mem_filterMap]
  constructor
  · rintro ⟨⟨key, value⟩, member, made⟩
    obtain rfl := code_rowOf made
    exact ⟨value, (Assoc.get_eq_some_iff distinct).mpr member, made⟩
  · rintro ⟨value, found, made⟩
    exact ⟨(row.code, value), (Assoc.get_eq_some_iff distinct).mp found, made⟩

theorem writeScopeOptionRows_distinct :
    ((writeScopeOptionRows values).map ScopeOption.code).Nodup := by
  have codes : ∀ entries : OptionValues,
      ((entries.filterMap fun entry => rowOf entry.1 entry.2).map ScopeOption.code).Sublist
        (entries.map Prod.fst) := by
    intro entries
    induction entries with
    | nil => exact List.Sublist.refl _
    | cons entry entries ih =>
      cases made : rowOf entry.1 entry.2 with
      | none =>
        simp only [List.filterMap_cons, made]
        exact ih.trans (List.sublist_cons_self _ _)
      | some row =>
        simp only [List.filterMap_cons, made, List.map_cons, ← code_rowOf made]
        exact ih.cons_cons _
  rw [writeScopeOptionRows, ((perm_foldl_insertOption _ _).map _).nodup_iff, List.append_nil]
  exact distinct.sublist (codes values)

end Rows

/-! ## The scope that is left -/

/-- What a bulk change makes of a scope. -/
def changedScope (serverIp : Network → Option Text) (request : BulkRequest) (subnet : SubnetRow)
    (scope : Scope) : Scope :=
  { scope with
    dnsServers := none
    ntpServers := none
    domainSearch := none
    options := replacementRows serverIp request subnet }

section Changed

variable {serverIp : Network → Option Text} {request : BulkRequest} {subnet : SubnetRow}
  {scope : Scope}

theorem cleared_changedScope : Cleared (changedScope serverIp request subnet scope) :=
  ⟨rfl, rfl, rfl⟩

/-- The values that are written, by code. -/
def writtenValue (serverIp : Network → Option Text) (request : BulkRequest) (subnet : SubnetRow)
    (code : Nat) : Option OptionValue :=
  Assoc.get (fillScopeOptions request.enabledOptions
    ⟨subnet.key, subnet.info.gatewayAddress, subnet.info.domainName, serverIp subnet.key⟩) code

theorem mem_replacementRows {row : ScopeOption}
    (notLeaseTime : ¬ (request.family = .v4 ∧ row.code = 51)) :
    row ∈ replacementRows serverIp request subnet ↔
      ∃ value, writtenValue serverIp request subnet row.code = some value ∧
        rowOf row.code value = some row := by
  have distinct := fillScopeOptions_distinct request
    ⟨subnet.key, subnet.info.gatewayAddress, subnet.info.domainName, serverIp subnet.key⟩
  unfold replacementRows writtenValue
  dsimp only
  by_cases v4 : request.family = .v4
  · rw [if_pos v4, mem_writeScopeOptionRows (Assoc.nodup_erase distinct 51), Assoc.get_erase,
      if_neg fun lease => notLeaseTime ⟨v4, lease⟩]
  · rw [if_neg v4, mem_writeScopeOptionRows distinct]

theorem leaseTime_not_written (v4 : request.family = .v4) :
    ∀ row ∈ replacementRows serverIp request subnet, row.code ≠ 51 := by
  have distinct := fillScopeOptions_distinct request
    ⟨subnet.key, subnet.info.gatewayAddress, subnet.info.domainName, serverIp subnet.key⟩
  intro row member lease
  unfold replacementRows at member
  dsimp only at member
  rw [if_pos v4, mem_writeScopeOptionRows (Assoc.nodup_erase distinct 51), Assoc.get_erase,
    if_pos lease] at member
  obtain ⟨value, found, -⟩ := member
  cases found

theorem replacementRows_distinct :
    ((replacementRows serverIp request subnet).map ScopeOption.code).Nodup := by
  have distinct := fillScopeOptions_distinct request
    ⟨subnet.key, subnet.info.gatewayAddress, subnet.info.domainName, serverIp subnet.key⟩
  unfold replacementRows
  dsimp only
  split
  · exact writeScopeOptionRows_distinct (Assoc.nodup_erase distinct 51)
  · exact writeScopeOptionRows_distinct distinct

theorem explicitRows_changedScope (family : subnet.key.family = .v4) :
    explicitRows (changedScope serverIp request subnet scope) ≠ [] := by
  have written : (⟨1, some (maskText subnet.key)⟩ : ScopeOption) ∈
      replacementRows serverIp request subnet := by
    refine (mem_replacementRows (by simp)).mpr ⟨.text (maskText subnet.key), ?_, ?_⟩
    · exact get_fillScopeOptions_mask request _ family
    · exact if_neg (Address.formatIp_ne_nil _ _)
  exact List.ne_nil_of_mem (explicit_mem written)

end Changed

/-! ## What a changed scope serves -/

section Serving

variable {parseList : Text → Option (List Text)} {serverIp : Network → Option Text}
  {defaults : Nat → Option Text} {request : BulkRequest} {subnet : SubnetRow} {scope : Scope}
  (family : scope.addressFamily = request.family) (network : subnet.key.family = request.family)

include family network

theorem get_changedScope {code : Nat} (free : code ∉ topologyOwned request.family) :
    ∃ fallback, Assoc.get (resolveEffectiveScopeOptions parseList defaults
        (changedScope serverIp request subnet scope) subnet) code =
      (Assoc.get (rowValues (leaseTimeSkip request.family) defaults
        (changedScope serverIp request subnet scope)) code).or fallback ∧
      (code ∉ networkOwned request.family → fallback = none) := by
  have isFamily : (changedScope serverIp request subnet scope).addressFamily = request.family :=
    family
  rw [← isFamily] at free ⊢
  exact get_resolve_cleared cleared_changedScope
    (fun v4 => explicitRows_changedScope (network.trans (isFamily.symm.trans v4))) free

/-- **A ticked option with a value is served with it.** -/
theorem served_ticked {code : Nat} {text : Text} (ticked : code ∈ request.enabled)
    (value : truthy (request.valueOf code) = some text) (free : code ∉ topologyOwned request.family)
    (notLeaseTime : ¬ (request.family = .v4 ∧ code = 51))
    (saved : request.saveDefaults = true → truthy (defaults code) = some text) :
    Assoc.get (resolveEffectiveScopeOptions parseList defaults
        (changedScope serverIp request subnet scope) subnet) code =
      some (text, if request.saveDefaults then .default else .scope) := by
  obtain ⟨fallback, reads, -⟩ :=
    @get_changedScope parseList serverIp defaults request subnet scope family network code free
  have skip : leaseTimeSkip request.family code = false := by
    simpa [leaseTimeSkip] using notLeaseTime
  have solid : text ≠ [] := (truthy_eq_some value).2
  have written : writtenValue serverIp request subnet code =
      some (if request.saveDefaults then .useDefault else .text text) :=
    get_fillScopeOptions_of_ticked request _ ticked value (network ▸ free)
  have distinct :
      ((changedScope serverIp request subnet scope).options.map ScopeOption.code).Nodup :=
    replacementRows_distinct
  rw [reads]
  cases save : request.saveDefaults with
  | true =>
    rw [save, if_pos rfl] at written
    have row : (⟨code, none⟩ : ScopeOption) ∈
        (changedScope serverIp request subnet scope).options :=
      (mem_replacementRows notLeaseTime).mpr ⟨.useDefault, written, rfl⟩
    rw [get_rowValues_of_linked distinct row (by rwa [show
      (changedScope serverIp request subnet scope).addressFamily = request.family from family])
      (saved save)]
    rfl
  | false =>
    rw [save] at written
    have row : (⟨code, some text⟩ : ScopeOption) ∈
        (changedScope serverIp request subnet scope).options :=
      (mem_replacementRows notLeaseTime).mpr ⟨.text text, written, if_neg solid⟩
    rw [get_rowValues_of_explicit distinct row solid skip]
    rfl

/-- What is served and neither ticked nor the network's is the host's address as the DNS
server. -/
theorem served_unticked {code : Nat} {entry : Text × Provenance} (unticked : code ∉ request.enabled)
    (foreign : code ∉ networkOwned request.family)
    (found : Assoc.get (resolveEffectiveScopeOptions parseList defaults
      (changedScope serverIp request subnet scope) subnet) code = some entry) :
    code = dnsServersCode request.family ∧ ∃ text, truthy (serverIp subnet.key) = some text := by
  have free : code ∉ topologyOwned request.family := by
    refine fun owned => foreign ?_
    cases isFamily : request.family with
    | v6 =>
      rw [isFamily] at owned
      exact absurd owned List.not_mem_nil
    | v4 =>
      rw [isFamily] at owned
      simp only [topologyOwned, List.mem_cons, List.not_mem_nil, or_false] at owned
      rcases owned with rfl | rfl | rfl <;> decide
  obtain ⟨fallback, reads, noFallback⟩ :=
    @get_changedScope parseList serverIp defaults request subnet scope family network code free
  rw [reads, noFallback foreign, Option.or_none] at found
  have row : ∃ row ∈ replacementRows serverIp request subnet, row.code = code := by
    by_contra absent
    push Not at absent
    have none : Assoc.get (rowValues (leaseTimeSkip request.family) defaults
        (changedScope serverIp request subnet scope)) code = none := get_rowValues_of_not_mem absent
    rw [none] at found
    cases found
  obtain ⟨row, member, rfl⟩ := row
  have notLeaseTime : ¬ (request.family = .v4 ∧ row.code = 51) :=
    fun lease => leaseTime_not_written lease.1 row member lease.2
  obtain ⟨value, written, -⟩ := (mem_replacementRows notLeaseTime).mp member
  rw [← network] at foreign ⊢
  exact (get_fillScopeOptions_of_unticked request _ unticked written).resolve_left foreign

theorem served_serverIp {text : Text} (unticked : dnsServersCode request.family ∉ request.enabled)
    (given : truthy (serverIp subnet.key) = some text) :
    Assoc.get (resolveEffectiveScopeOptions parseList defaults
      (changedScope serverIp request subnet scope) subnet) (dnsServersCode request.family) =
        some (text, .scope) := by
  have free : dnsServersCode request.family ∉ topologyOwned request.family := by
    cases request.family <;> decide
  have notLeaseTime : ¬ (request.family = .v4 ∧ dnsServersCode request.family = 51) := by
    cases request.family <;> decide
  have skip : leaseTimeSkip request.family (dnsServersCode request.family) = false := by
    simpa [leaseTimeSkip] using notLeaseTime
  have solid : text ≠ [] := (truthy_eq_some given).2
  obtain ⟨fallback, reads, -⟩ := @get_changedScope parseList serverIp defaults request subnet scope
    family network _ free
  have written : writtenValue serverIp request subnet (dnsServersCode request.family) =
      some (.text text) := by
    rw [← network] at unticked ⊢
    exact get_fillScopeOptions_of_serverIp request _ unticked given
  have row : (⟨dnsServersCode request.family, some text⟩ : ScopeOption) ∈
      (changedScope serverIp request subnet scope).options :=
    (mem_replacementRows notLeaseTime).mpr ⟨.text text, written, if_neg solid⟩
  have distinct :
      ((changedScope serverIp request subnet scope).options.map ScopeOption.code).Nodup :=
    replacementRows_distinct
  rw [reads, get_rowValues_of_explicit distinct row solid skip]
  rfl

end Serving

/-! ## The defaults that are saved -/

/-- A request whose options have codes of their own. -/
structure Distinct (request : BulkRequest) : Prop where
  codes : (request.options.map EditorOption.code).Nodup
  positive : ∀ option ∈ request.options, option.code ≠ 0

section Saving

variable {state : State} {request : BulkRequest} (distinct : Distinct request)

include distinct

theorem valueOf_eq {option : EditorOption} (member : option ∈ request.options) :
    request.valueOf option.code = option.value := by
  have codes : (request.options.reverse.map EditorOption.code).Nodup := by
    rw [List.map_reverse]
    exact List.nodup_reverse.mpr distinct.codes
  have found := Keyed.find?_of_mem codes (List.mem_reverse.mpr member)
  rw [BulkRequest.valueOf, found]
  rfl

/-- Saved defaults are the editor's values. -/
theorem replaceDefaultOptions_spec : ∃ saved,
    replaceDefaultOptions state request.options request.enabled request.family = .ok saved ∧
      saved.env = state.env ∧ ∀ option ∈ request.options, ∀ text, truthy option.value = some text →
        saved.defaultValues request.family option.code = some text := by
  have sublist := (List.filter_sublist (l := request.options)
    (p := fun option => option.code ≠ 0 && truthy option.value ≠ none)).map EditorOption.code
  refine ⟨_, if_pos (distinct.codes.sublist sublist), rfl, fun option member text value => ?_⟩
  have given : option ∈ request.options.filter fun option =>
      option.code ≠ 0 && truthy option.value ≠ none := by
    refine List.mem_filter.mpr ⟨member, ?_⟩
    simp [distinct.positive option member, value]
  have isText : option.value = some text := (truthy_eq_some value).1
  unfold State.defaultValues
  dsimp only
  rw [List.find?_append, List.find?_append]
  have others : (state.defaults.filter (·.family ≠ request.family)).find? (fun row =>
      row.family = request.family && row.value ≠ none && row.code = option.code) = none := by
    refine List.find?_eq_none.mpr fun row inside test => ?_
    have other := (List.mem_filter.mp inside).2
    simp only [Bool.and_eq_true, decide_eq_true_eq] at test other
    exact other test.1.1
  rw [others, Option.none_or, List.find?_map]
  cases found : (request.options.filter fun option =>
      option.code ≠ 0 && truthy option.value ≠ none).find? ((fun row : OptionDefault =>
        row.family = request.family && row.value ≠ none && row.code = option.code) ∘ fun option =>
          ⟨option.code, option.value, request.enabled.contains option.code, request.family⟩) with
  | none =>
    have test := List.find?_eq_none.mp found option given
    simp [isText] at test
  | some other =>
    have test := List.find?_some found
    simp only [Function.comp_apply, decide_true, Bool.true_and, Bool.and_eq_true,
      decide_eq_true_eq] at test
    have isOther := (List.mem_filter.mp (List.mem_of_find?_eq_some found)).1
    obtain rfl : other = option := List.inj_on_of_nodup_map distinct.codes isOther member test.2
    exact isText

end Saving

/-! ## The loop -/

theorem mem_familyScopes {env : Env} {family : Family} {scope : Scope} {subnet : SubnetRow} :
    (scope, subnet) ∈ familyScopes env family ↔ scope ∈ env.scopes ∧
      env.subnets.byId scope.subnetId = some subnet ∧ scope.addressFamily = family := by
  rw [familyScopes, List.mem_filter, List.mem_insertionSort, List.mem_filterMap]
  constructor
  · rintro ⟨⟨other, member, joined⟩, isFamily⟩
    obtain ⟨found, isSubnet, same⟩ := Option.map_eq_some_iff.mp joined
    obtain ⟨rfl, rfl⟩ := Prod.mk.inj same
    exact ⟨member, isSubnet, of_decide_eq_true isFamily⟩
  · rintro ⟨member, isSubnet, isFamily⟩
    exact ⟨⟨scope, member, by rw [isSubnet]; rfl⟩, decide_eq_true isFamily⟩

theorem familyScopes_distinct {env : Env} (ids : (env.scopes.map (·.id)).Nodup) (family : Family) :
    ((familyScopes env family).map (·.1.id)).Nodup := by
  have joined : ∀ scopes : List Scope, ((scopes.filterMap fun scope =>
      (env.subnets.byId scope.subnetId).map fun subnet => (scope, subnet)).map (·.1.id)).Sublist
        (scopes.map (·.id)) := by
    intro scopes
    induction scopes with
    | nil => exact List.Sublist.refl _
    | cons scope scopes ih =>
      cases found : env.subnets.byId scope.subnetId with
      | none =>
        simp only [List.filterMap_cons, found, Option.map_none]
        exact ih.trans (List.sublist_cons_self _ _)
      | some subnet =>
        simp only [List.filterMap_cons, found, Option.map_some]
        exact ih.cons_cons _
  refine List.Nodup.sublist (List.filter_sublist.map _) ?_
  rw [((List.perm_insertionSort _ _).map _).nodup_iff]
  exact ids.sublist (joined env.scopes)

theorem foldl_replaceScopeOptions {serverIp : Network → Option Text} {request : BulkRequest}
    {targets : List (Scope × SubnetRow)} (ids : (targets.map (·.1.id)).Nodup) (state : State) :
    targets.foldl (fun state entry => replaceScopeOptions serverIp request state entry.1 entry.2)
      state = { state with
        env := { state.env with
          scopes := state.env.scopes.map fun row =>
            match targets.find? (·.1.id = row.id) with
            | some entry => changedScope serverIp request entry.2 row
            | none => row } } := by
  induction targets generalizing state with
  | nil => simp
  | cons first targets ih =>
    obtain ⟨new, idsRest⟩ := List.nodup_cons.mp ids
    rw [List.foldl_cons, ih idsRest]
    simp only [replaceScopeOptions, List.map_map]
    congr 2
    refine List.map_congr_left fun row _ => ?_
    simp only [Function.comp_apply]
    by_cases here : row.id = first.1.id
    · have none : targets.find? (·.1.id = row.id) = none := by
        refine List.find?_eq_none.mpr fun entry member same => new ?_
        exact List.mem_map.mpr ⟨entry, member, (of_decide_eq_true same).trans here⟩
      rw [if_pos here, List.find?_cons_of_pos (by simpa using here.symm)]
      dsimp only
      rw [none]
      rfl
    · rw [if_neg here, List.find?_cons_of_neg (by simpa using Ne.symm here)]

/-- A database whose scopes have ids of their own and the families of their networks. -/
structure Sound (state : State) : Prop where
  ids : (state.env.scopes.map (·.id)).Nodup
  family : ∀ scope ∈ state.env.scopes, ∀ subnet,
    state.env.subnets.byId scope.subnetId = some subnet → subnet.key.family = scope.addressFamily

/-- The scopes a change writes. -/
def targetsOf (state : State) (request : BulkRequest) (scopeIds : Option (List Nat)) :
    List (Scope × SubnetRow) :=
  (familyScopes state.env request.family).filter fun entry => isTarget scopeIds entry.1

/-- The database after the loop. -/
def written (serverIp : Network → Option Text) (state saved : State) (request : BulkRequest)
    (scopeIds : Option (List Nat)) : State :=
  (targetsOf state request scopeIds).foldl
    (fun state entry => replaceScopeOptions serverIp request state entry.1 entry.2) saved

/-- What a scope serves. -/
def serves (parseList : Text → Option (List Text)) (state : State) (scope : Scope) :
    Option Values :=
  (state.env.subnets.byId scope.subnetId).map fun subnet =>
    resolveEffectiveScopeOptions parseList (state.defaultValues scope.addressFamily) scope subnet

section Loop

variable {parseList : Text → Option (List Text)} {serverIp : Network → Option Text}
  {state saved : State} {request : BulkRequest} {scopeIds : Option (List Nat)}

theorem mem_targetsOf {scope : Scope} {subnet : SubnetRow} :
    (scope, subnet) ∈ targetsOf state request scopeIds ↔ scope ∈ state.env.scopes ∧
      state.env.subnets.byId scope.subnetId = some subnet ∧ scope.addressFamily = request.family ∧
      isTarget scopeIds scope = true := by
  rw [targetsOf, List.mem_filter, mem_familyScopes]
  simp only [and_assoc]

theorem bulkChangeScopeOptions_eq
    (saves : (if request.saveDefaults then
      replaceDefaultOptions state request.options request.enabled request.family else .ok state) =
        .ok saved) (preview : Bool) :
    bulkChangeScopeOptions parseList serverIp state request scopeIds preview =
      .ok (if preview then state else written serverIp state saved request scopeIds,
        { family := request.family
          applied := (targetsOf state request scopeIds).map (·.1.id)
          scopes := (familyScopes state.env request.family).map fun entry =>
            bulkScope parseList state (written serverIp state saved request scopeIds)
              entry.1 entry.2 }) := by
  unfold bulkChangeScopeOptions
  dsimp only
  cases save : request.saveDefaults with
  | true =>
    rw [save, if_pos rfl] at saves
    rw [if_pos rfl, saves]
    rfl
  | false =>
    rw [save] at saves
    obtain rfl := Except.ok.inj saves
    rfl

variable (sound : Sound state) (kept : saved.env = state.env)

include sound

theorem targetsOf_distinct : ((targetsOf state request scopeIds).map (·.1.id)).Nodup :=
  (familyScopes_distinct sound.ids request.family).sublist (List.filter_sublist.map _)

theorem find?_targetsOf {scope : Scope} (member : scope ∈ state.env.scopes)
    {entry : Scope × SubnetRow} (found : (targetsOf state request scopeIds).find?
    (·.1.id = scope.id) = some entry) :
    entry.1 = scope ∧ entry ∈ targetsOf state request scopeIds := by
  have inside := List.mem_of_find?_eq_some found
  obtain ⟨isScope, -⟩ := mem_targetsOf.mp inside
  have sameId := List.find?_some found
  exact ⟨List.inj_on_of_nodup_map sound.ids isScope member (of_decide_eq_true sameId), inside⟩

include kept

theorem written_scopes : (written serverIp state saved request scopeIds).env.scopes =
    state.env.scopes.map fun row =>
      match (targetsOf state request scopeIds).find? (·.1.id = row.id) with
      | some entry => changedScope serverIp request entry.2 row
      | none => row := by
  rw [written, foldl_replaceScopeOptions (targetsOf_distinct sound), kept]

theorem written_rest : (written serverIp state saved request scopeIds).env.subnets =
    state.env.subnets ∧ (written serverIp state saved request scopeIds).env.pools =
    state.env.pools ∧ (written serverIp state saved request scopeIds).defaults =
    saved.defaults := by
  rw [written, foldl_replaceScopeOptions (targetsOf_distinct sound), kept]
  exact ⟨rfl, rfl, rfl⟩

theorem written_ids :
    ((written serverIp state saved request scopeIds).env.scopes.map (·.id)).Nodup := by
  rw [written_scopes sound kept, List.map_map]
  refine (List.map_congr_left fun row _ => ?_ : _ = state.env.scopes.map (·.id)) ▸ sound.ids
  simp only [Function.comp_apply]
  split <;> rfl

theorem mem_written_of_target {scope : Scope} {subnet : SubnetRow}
    (target : (scope, subnet) ∈ targetsOf state request scopeIds) :
    changedScope serverIp request subnet scope ∈
      (written serverIp state saved request scopeIds).env.scopes := by
  obtain ⟨member, isSubnet, -⟩ := mem_targetsOf.mp target
  rw [written_scopes sound kept]
  refine List.mem_map.mpr ⟨scope, member, ?_⟩
  cases found : (targetsOf state request scopeIds).find? (·.1.id = scope.id) with
  | none =>
    have test := List.find?_eq_none.mp found _ target
    simp at test
  | some entry =>
    obtain ⟨rfl, inside⟩ := find?_targetsOf sound member found
    obtain ⟨-, isOther, -⟩ := mem_targetsOf.mp inside
    have same := Option.some.inj (isOther.symm.trans isSubnet)
    dsimp only
    rw [same]

theorem mem_written_of_not_target {scope : Scope} (member : scope ∈ state.env.scopes)
    (other : scope.id ∉ (targetsOf state request scopeIds).map (·.1.id)) :
    scope ∈ (written serverIp state saved request scopeIds).env.scopes := by
  rw [written_scopes sound kept]
  refine List.mem_map.mpr ⟨scope, member, ?_⟩
  cases found : (targetsOf state request scopeIds).find? (·.1.id = scope.id) with
  | none => rfl
  | some entry =>
    obtain ⟨rfl, inside⟩ := find?_targetsOf sound member found
    exact absurd (List.mem_map.mpr ⟨entry, inside, rfl⟩) other

/-- What `SELECT * FROM dhcp_scopes WHERE id = ?` reads afterwards. -/
theorem find?_written {scope : Scope} {subnet : SubnetRow}
    (listed : (scope, subnet) ∈ familyScopes state.env request.family) :
    (written serverIp state saved request scopeIds).env.scopes.find? (·.id = scope.id) =
      some (if isTarget scopeIds scope then changedScope serverIp request subnet scope
      else scope) := by
  obtain ⟨member, isSubnet, isFamily⟩ := mem_familyScopes.mp listed
  have ids : ((written serverIp state saved request scopeIds).env.scopes.map (·.id)).Nodup :=
    written_ids sound kept
  by_cases target : isTarget scopeIds scope = true
  · rw [if_pos target]
    have changed : changedScope serverIp request subnet scope ∈
        (written serverIp state saved request scopeIds).env.scopes :=
      mem_written_of_target sound kept (mem_targetsOf.mpr ⟨member, isSubnet, isFamily, target⟩)
    exact Keyed.find?_of_mem ids changed
  · rw [if_neg target]
    refine Keyed.find?_of_mem ids (mem_written_of_not_target sound kept member fun applied =>
      target ?_)
    obtain ⟨⟨other, network⟩, inside, same⟩ := List.mem_map.mp applied
    obtain ⟨isOther, -, -, isTarget⟩ := mem_targetsOf.mp inside
    exact List.inj_on_of_nodup_map sound.ids isOther member same ▸ isTarget

theorem defaultValues_written :
    (written serverIp state saved request scopeIds).defaultValues = saved.defaultValues := by
  obtain ⟨-, -, defaults⟩ : _ ∧ _ ∧
    (written serverIp state saved request scopeIds).defaults = saved.defaults :=
    written_rest sound kept
  funext family code
  rw [State.defaultValues, defaults]
  rfl

theorem effectiveMap_written {scope : Scope} {subnet : SubnetRow}
    (listed : (scope, subnet) ∈ familyScopes state.env request.family) :
    effectiveMap parseList (written serverIp state saved request scopeIds) scope subnet =
      resolveEffectiveScopeOptions parseList (saved.defaultValues request.family)
        (if isTarget scopeIds scope then changedScope serverIp request subnet scope else scope)
        subnet := by
  obtain ⟨-, -, isFamily⟩ := mem_familyScopes.mp listed
  have family : (if isTarget scopeIds scope then changedScope serverIp request subnet scope
      else scope).addressFamily = request.family := by
    split <;> exact isFamily
  rw [effectiveMap, find?_written sound kept listed, defaultValues_written sound kept,
    Option.getD_some, family]

theorem changes_written {scope : Scope} {subnet : SubnetRow} {otherIds : Option (List Nat)}
    (listed : (scope, subnet) ∈ familyScopes state.env request.family)
    (same : isTarget scopeIds scope = isTarget otherIds scope) :
    (bulkScope parseList state (written serverIp state saved request scopeIds) scope subnet).changes
      = (bulkScope parseList state (written serverIp state saved request otherIds) scope
        subnet).changes := by
  have reads : effectiveMap parseList (written serverIp state saved request scopeIds) scope subnet =
      effectiveMap parseList (written serverIp state saved request otherIds) scope subnet := by
    rw [effectiveMap_written sound kept listed, effectiveMap_written sound kept listed, same]
  exact congrArg (diff _) reads

theorem serves_written (scope : Scope) :
    serves parseList (written serverIp state saved request scopeIds) scope =
      (state.env.subnets.byId scope.subnetId).map fun subnet =>
        resolveEffectiveScopeOptions parseList (saved.defaultValues scope.addressFamily) scope
            subnet := by
  obtain ⟨subnets, -, -⟩ : (written serverIp state saved request scopeIds).env.subnets =
    state.env.subnets ∧ _ ∧ _ := written_rest sound kept
  rw [serves, subnets, defaultValues_written sound kept]

end Loop

/-! ## The change does what it shows -/

/-- Values that are the ones a request asks for, and the network's own. -/
structure ServesSet (values : Values) (request : BulkRequest) : Prop where
  ticked : ∀ option ∈ request.options, option.code ∈ request.enabled →
    ∀ text, truthy option.value = some text → option.code ∉ topologyOwned request.family →
      ¬ (request.family = .v4 ∧ option.code = 51) →
        ∃ source, Assoc.get values option.code = some (text, source) ∧
          (source = .default ↔ request.saveDefaults = true)
  nothingElse : ∀ code, (Assoc.get values code).isSome →
    code ∈ request.enabled ∨ code ∈ networkOwned request.family

/-- A change that does what its preview shows, and nothing else: a preview of some scopes
against an apply to others. -/
structure DoesWhatItShows (parseList : Text → Option (List Text)) (serverIp : Network → Option Text)
    (state : State) (request : BulkRequest) (previewIds scopeIds : Option (List Nat))
    (shown : BulkResult) (after : State) (applied : BulkResult) : Prop where
  preview : bulkChangeScopeOptions parseList serverIp state request previewIds true = .ok
    (state, shown)
  apply : bulkChangeScopeOptions parseList serverIp state request scopeIds false = .ok
    (after, applied)
  lists : applied.scopes.map (·.id) = shown.scopes.map (·.id)
  shows : ∀ entry ∈ shown.scopes, ∀ other ∈ applied.scopes, other.id = entry.id →
    previewIds.all (·.contains entry.id) → scopeIds.all (·.contains entry.id) →
      other.changes = entry.changes
  changed : ∀ id ∈ applied.applied, ∃ fresh values, after.env.scopes.find? (·.id = id) =
    some fresh ∧ serves parseList after fresh = some values ∧ ServesSet values request
  others : request.saveDefaults = false → ∀ scope ∈ state.env.scopes, scope.id ∉ applied.applied →
    after.env.scopes.find? (·.id = scope.id) = some scope ∧
      serves parseList after scope = serves parseList state scope

section Exact

variable {parseList : Text → Option (List Text)} {serverIp : Network → Option Text}
  {state saved : State} {request : BulkRequest} {scopeIds : Option (List Nat)}

theorem exists_saved (distinct : Distinct request) (state : State) : ∃ saved,
    (if request.saveDefaults then
      replaceDefaultOptions state request.options request.enabled request.family else .ok state) =
        .ok saved ∧ saved.env = state.env ∧ (request.saveDefaults = false → saved = state) ∧
      (request.saveDefaults = true → ∀ option ∈ request.options, ∀ text,
        truthy option.value = some text → saved.defaultValues request.family option.code =
        some text) := by
  cases save : request.saveDefaults with
  | false => exact ⟨state, rfl, rfl, fun _ => rfl, (nomatch ·)⟩
  | true =>
    obtain ⟨saved, saves, kept, values⟩ := @replaceDefaultOptions_spec state request distinct
    exact ⟨saved, saves, kept, (nomatch ·), fun _ => values⟩

/-- **What a changed scope serves is the request's set, unless the host's address comes
with it.** -/
theorem servesSet_changedScope_iff (distinct : Distinct request) {defaults : Nat → Option Text}
    (linked : request.saveDefaults = true → ∀ option ∈ request.options, ∀ text,
      truthy option.value = some text → defaults option.code = some text)
    {scope : Scope} {subnet : SubnetRow} (family : scope.addressFamily = request.family)
    (network : subnet.key.family = request.family) :
    ServesSet (resolveEffectiveScopeOptions parseList defaults
        (changedScope serverIp request subnet scope) subnet) request ↔
      dnsServersCode request.family ∈ request.enabled ∨ truthy (serverIp subnet.key) = none := by
  constructor
  · intro serves
    by_contra neither
    obtain ⟨unticked, given⟩ := not_or.mp neither
    obtain ⟨text, isText⟩ := Option.ne_none_iff_exists'.mp given
    have served := @served_serverIp parseList serverIp defaults request subnet scope family
      network text unticked isText
    rcases serves.nothingElse (dnsServersCode request.family)
      (by rw [served]; rfl) with ticked | owned
    · exact unticked ticked
    · cases isFamily : request.family <;> rw [isFamily] at owned <;> exact absurd owned (by decide)
  · intro fine
    refine ⟨fun option member ticked text value free notLeaseTime => ?_, fun code found => ?_⟩
    · have isValue : truthy (request.valueOf option.code) = some text :=
        (valueOf_eq distinct member).symm ▸ value
      have isDefault : request.saveDefaults = true → truthy (defaults option.code) = some text := by
        intro save
        rw [linked save option member text value]
        exact truthy_some (truthy_eq_some value).2
      refine ⟨_, served_ticked family network ticked isValue free notLeaseTime isDefault, ?_⟩
      cases request.saveDefaults <;> simp
    · by_contra neither
      obtain ⟨unticked, foreign⟩ := not_or.mp neither
      obtain ⟨entry, isEntry⟩ := Option.isSome_iff_exists.mp found
      obtain ⟨rfl, text, given⟩ := served_unticked family network unticked foreign isEntry
      rcases fine with ticked | absent
      · exact unticked ticked
      · rw [absent] at given
        cases given

theorem target_serves (sound : Sound state) (distinct : Distinct request)
    (kept : saved.env = state.env) (linked : request.saveDefaults = true →
      ∀ option ∈ request.options, ∀ text, truthy option.value = some text →
      saved.defaultValues request.family option.code = some text)
    {scope : Scope} {subnet : SubnetRow}
    (inside : (scope, subnet) ∈ targetsOf state request scopeIds) :
    ∃ fresh values,
      (written serverIp state saved request scopeIds).env.scopes.find? (·.id = scope.id) =
      some fresh ∧ serves parseList (written serverIp state saved request scopeIds) fresh =
      some values ∧ (ServesSet values request ↔ dnsServersCode request.family ∈ request.enabled ∨
        truthy (serverIp subnet.key) = none) := by
  obtain ⟨member, isSubnet, isFamily, target⟩ := mem_targetsOf.mp inside
  have network := (sound.family scope member subnet isSubnet).trans isFamily
  refine ⟨changedScope serverIp request subnet scope,
    resolveEffectiveScopeOptions parseList (saved.defaultValues scope.addressFamily)
      (changedScope serverIp request subnet scope) subnet, ?_, ?_,
    servesSet_changedScope_iff distinct (isFamily ▸ linked) isFamily network⟩
  · rw [find?_written sound kept (mem_familyScopes.mpr ⟨member, isSubnet, isFamily⟩), if_pos target]
  · have joined : state.env.subnets.byId (changedScope serverIp request subnet scope).subnetId =
        some subnet := isSubnet
    rw [serves_written sound kept, joined]
    rfl

/-- A change that serves nothing else has its DNS servers ticked, or no address of the host
to serve. -/
theorem dnsServers_of_doesWhatItShows (sound : Sound state) (distinct : Distinct request)
    {previewIds : Option (List Nat)} {shown applied : BulkResult} {after : State}
    (does : DoesWhatItShows parseList serverIp state request previewIds scopeIds shown
    after applied) {scope : Scope} {subnet : SubnetRow}
    (inside : (scope, subnet) ∈ targetsOf state request scopeIds) :
    dnsServersCode request.family ∈ request.enabled ∨ truthy (serverIp subnet.key) = none := by
  obtain ⟨saved, saves, kept, -, linked⟩ := exists_saved distinct state
  have results := does.apply
  rw [bulkChangeScopeOptions_eq saves false] at results
  obtain ⟨rfl, rfl⟩ := Prod.mk.inj (Except.ok.inj results)
  obtain ⟨fresh, values, found, served, set⟩ := does.changed scope.id
    (List.mem_map.mpr ⟨_, inside, rfl⟩)
  obtain ⟨other, othersValues, foundOther, servedOther, exact⟩ :=
    @target_serves parseList serverIp state saved request scopeIds sound distinct kept linked
      scope subnet inside
  obtain rfl := Option.some.inj (found.symm.trans foundOther)
  obtain rfl := Option.some.inj (served.symm.trans servedOther)
  exact exact.mp set

/-- **A bulk change does what its preview shows, and nothing else, exactly when every
scope it writes has its DNS servers ticked or no address of the host on its network.** -/
theorem bulk_change_exact_iff (sound : Sound state) (distinct : Distinct request)
    (previewIds : Option (List Nat)) :
    (∃ shown after applied,
      DoesWhatItShows parseList serverIp state request previewIds scopeIds shown after applied) ↔
        ∀ scope ∈ state.env.scopes, scope.addressFamily = request.family →
          isTarget scopeIds scope = true → ∀ subnet, state.env.subnets.byId scope.subnetId =
            some subnet → dnsServersCode request.family ∈ request.enabled ∨
            truthy (serverIp subnet.key) = none := by
  constructor
  · rintro ⟨shown, after, applied, does⟩ scope member isFamily target subnet isSubnet
    exact dnsServers_of_doesWhatItShows sound distinct does
      (mem_targetsOf.mpr ⟨member, isSubnet, isFamily, target⟩)
  · intro fine
    obtain ⟨saved, saves, kept, unsaved, linked⟩ := exists_saved distinct state
    refine ⟨_, _, _, bulkChangeScopeOptions_eq saves true, bulkChangeScopeOptions_eq saves false,
      ?_, ?_, ?_, ?_⟩
    · simp only [List.map_map]
      rfl
    · intro entry inShown other inApplied same inPreview inScopes
      obtain ⟨⟨scope, subnet⟩, listed, rfl⟩ := List.mem_map.mp inShown
      obtain ⟨listedOther, isListed, rfl⟩ := List.mem_map.mp inApplied
      obtain rfl := List.inj_on_of_nodup_map (familyScopes_distinct sound.ids request.family)
        isListed listed same
      refine changes_written sound kept listed ?_
      exact congrArg (decide (bulkChangeSkipReason scope = none) && ·)
        (inScopes.trans inPreview.symm)
    · intro id isApplied
      obtain ⟨⟨scope, subnet⟩, inside, rfl⟩ := List.mem_map.mp isApplied
      obtain ⟨member, isSubnet, isFamily, target⟩ := mem_targetsOf.mp inside
      obtain ⟨fresh, values, found, served, exact⟩ :=
        target_serves sound distinct kept linked inside
      exact ⟨fresh, values, found, served,
        exact.mpr (fine scope member isFamily target subnet isSubnet)⟩
    · intro save scope member other
      obtain rfl := unsaved save
      refine ⟨?_, serves_written sound rfl scope⟩
      exact Keyed.find?_of_mem (written_ids sound rfl)
        (mem_written_of_not_target sound rfl member other)

end Exact

/-- A scope of `10.0.0.0/24`. -/
def tenState : State where
  env :=
    { subnets :=
        { rows := [sampleSubnet]
          nextId := 2
          fresh := by decide
          idsDistinct := by decide
          keysDistinct := by decide }
      scopes := [sampleScope]
      pools := []
      reservations := []
      leases := []
      records := []
      zones := []
      settings := ⟨none, none, true⟩
      vendorHostname := fun _ => none }
  defaults := []

/-- A time server, and the codes that are ticked. -/
def timeRequest (enabled : List Nat) : BulkRequest where
  family := .v4
  options := [⟨42, some "10.0.0.9".toList⟩]
  enabled := enabled
  saveDefaults := false

theorem sound_tenState : Sound tenState where
  ids := List.nodup_singleton _
  family := by
    intro scope member subnet isSubnet
    obtain rfl := List.mem_singleton.mp member
    obtain rfl : sampleSubnet = subnet := Option.some.inj isSubnet
    rfl

theorem distinct_timeRequest (enabled : List Nat) : Distinct (timeRequest enabled) where
  codes := List.nodup_singleton _
  positive := by
    intro option member
    obtain rfl := List.mem_singleton.mp member
    decide

/-- With the DNS servers ticked, the host's address is one of the blanks that are filled. -/
theorem bulk_change_exact_ticked : ∃ shown after applied,
    DoesWhatItShows (fun _ => none) (fun _ => some "10.0.0.2".toList) tenState
      (timeRequest [6, 42]) none (some [1]) shown after applied :=
  (bulk_change_exact_iff sound_tenState (distinct_timeRequest [6, 42]) none).mpr
    fun _ _ _ _ _ _ => .inl (by decide)

/-- A time server alone is ticked, and the host's address is served as the DNS server too. -/
theorem dns_server_comes_unticked :
    ¬ ∀ (parseList : Text → Option (List Text)) (serverIp : Network → Option Text) (state : State)
      (request : BulkRequest) (previewIds scopeIds : Option (List Nat)), Sound state →
        Distinct request → ∃ shown after applied,
          DoesWhatItShows parseList serverIp state request previewIds scopeIds shown after
          applied := by
  intro always
  obtain ⟨shown, after, applied, does⟩ :=
    always (fun _ => none) (fun _ => some "10.0.0.2".toList) tenState (timeRequest [42]) none
      (some [1]) sound_tenState (distinct_timeRequest [42])
  have inside : (sampleScope, sampleSubnet) ∈ targetsOf tenState (timeRequest [42]) (some [1]) :=
    mem_targetsOf.mpr ⟨List.mem_singleton_self _, rfl, rfl, rfl⟩
  rcases dnsServers_of_doesWhatItShows sound_tenState (distinct_timeRequest [42]) does inside with
    ticked | absent
  · exact absurd ticked (by decide)
  · exact absurd absent (by decide)

end BulkOptions

end Cidrella
