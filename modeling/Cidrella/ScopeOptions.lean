import Cidrella.Lib.Assoc
import Cidrella.Lib.Fallible
import Cidrella.DhcpTopology

/-!
# The options of a DHCP scope

`models/dhcp-scope.js`: what is stored of a submitted list of options, and what a scope
serves. A value that equals the one the network would give is not stored, so that it
follows the network; the resolver then looks for it in the layers above the network. An
option that was submitted is served as submitted unless a legacy column of the scope
stands in one of those layers (`submitted_option_served_iff`).
-/

set_option autoImplicit false

namespace Cidrella

namespace ScopeOptions

/-- An entry of a submitted list. -/
structure OptionInput where
  code : Nat
  value : Option Text
  useDefault : Bool := false
  deriving DecidableEq, Repr

/-- What a submitted scope sets. A field that was not sent is `none`. -/
structure ScopeFields where
  leaseTime : Option Text := none
  dnsServers : Option (Option Text) := none
  domainName : Option (Option Text) := none
  gateway : Option (Option Addr) := none
  ntpServers : Option (Option Text) := none
  domainSearch : Option (Option Text) := none
  enabled : Option Bool := none
  description : Option (Option Text) := none
  v6Mode : Option (Option V6Mode) := none
  options : Option (List OptionInput) := none
  deriving Repr

/-- Where a served value comes from. -/
inductive Provenance where
  | default
  | scope
  | legacyScope
  | network
  deriving DecidableEq, Repr

/-- Why options are refused. -/
inductive OptionFailure where
  /-- `DHCP option 51 is represented by the scope lease_time field`. -/
  | leaseTimeOption
  /-- `UNIQUE constraint failed`. -/
  | unique
  deriving DecidableEq, Repr

/-! ## Storing -/

/-- The mask of a network, as a text. -/
def maskText (net : Network) : Text := Address.formatIp (maskOf net.bits net.prefixLen) net.bits

/-- `computeInheritedOptions`, by code. -/
def computeInheritedOptions (subnet : SubnetRow) (code : Nat) : Option Text :=
  match subnet.key.family with
  | .v6 => if code = 24 then truthy subnet.info.domainName else none
  | .v4 =>
    if code = 3 then subnet.info.gatewayAddress.map Addr.text
    else if code = 1 then some (maskText subnet.key)
    else if code = 28 then some (addressAt .v4 subnet.key.lastBig).text
    else if code = 15 || code = 119 then truthy subnet.info.domainName
    else none

/-- An option row goes in, unless its code is there. -/
def insertRow (rows : List ScopeOption) (row : ScopeOption) :
    Except OptionFailure (List ScopeOption) :=
  if rows.any (·.code = row.code) then .error .unique else .ok (insertOption row rows)

/-- One entry of `saveScopeOptions`. -/
def saveOption (subnet : SubnetRow) (rows : List ScopeOption) (input : OptionInput) :
    Except OptionFailure (List ScopeOption) :=
  if input.code = 0 || (!input.useDefault && truthy input.value = none) then .ok rows
  else if subnet.key.family = .v4 && input.code = 51 then .error .leaseTimeOption
  else if input.useDefault then insertRow rows ⟨input.code, none⟩
  else if computeInheritedOptions subnet input.code = input.value then .ok rows
  else insertRow rows ⟨input.code, input.value⟩

/-- `saveScopeOptions`, into the rows the scope has. -/
def saveScopeOptions (subnet : SubnetRow) (rows : List ScopeOption) (inputs : List OptionInput) :
    Except OptionFailure (List ScopeOption) :=
  inputs.foldlM (saveOption subnet) rows

/-- The row `createScope` inserts. -/
def insertedRow (id rangeId : Nat) (fields : ScopeFields) (subnet : SubnetRow)
    (defaultLeaseTime : Text) :
    Scope :=
  { id
    rangeId
    subnetId := subnet.id
    addressFamily := subnet.key.family
    v6Mode := fields.v6Mode.join
    leaseTime := (truthy fields.leaseTime).getD defaultLeaseTime
    enabled := true
    domainName := truthy fields.domainName.join
    gateway := fields.gateway.join
    dnsServers := truthy fields.dnsServers.join
    ntpServers := truthy fields.ntpServers.join
    domainSearch := truthy fields.domainSearch.join
    description := truthy fields.description.join }

/-- `createScope`: a new scope has no option rows. -/
def createScope (id rangeId : Nat) (fields : ScopeFields) (subnet : SubnetRow)
    (defaultLeaseTime : Text) :
    Except OptionFailure Scope := do
  let row := insertedRow id rangeId fields subnet defaultLeaseTime
  let options ← match fields.options with
    | none => .ok []
    | some inputs => saveScopeOptions subnet [] inputs
  .ok { row with options }

/-- The row `updateScope` leaves, before its options. -/
def updatedRow (scope : Scope) (fields : ScopeFields) : Scope :=
  { scope with
    leaseTime := fields.leaseTime.getD scope.leaseTime
    dnsServers := fields.dnsServers.getD scope.dnsServers
    domainName := fields.domainName.getD scope.domainName
    gateway := fields.gateway.getD scope.gateway
    ntpServers := (fields.ntpServers.map truthy).getD scope.ntpServers
    domainSearch := (fields.domainSearch.map truthy).getD scope.domainSearch
    enabled := fields.enabled.getD scope.enabled
    description := fields.description.getD scope.description
    v6Mode := fields.v6Mode.getD scope.v6Mode }

/-- `updateScope`: a submitted list takes the place of the scope's rows. -/
def updateScope (scope : Scope) (fields : ScopeFields) (subnet : SubnetRow) :
    Except OptionFailure Scope := do
  let row := updatedRow scope fields
  let options ← match fields.options with
    | none => .ok scope.options
    | some inputs => saveScopeOptions subnet [] inputs
  .ok { row with options }

/-! ## Serving -/

/-- The values found so far. -/
abbrev Values := List (Nat × Text × Provenance)

/-- `set`: an empty value leaves what is there. -/
def set (values : Values) (code : Nat) (value : Option Text) (source : Provenance) : Values :=
  match truthy value with
  | none => values
  | some text => Assoc.put values code (text, source)

/-- A value for a code that has none. -/
def setMissing (values : Values) (code : Nat) (value : Option Text) (source : Provenance) :
    Values :=
  if (Assoc.get values code).isSome then values else set values code value source

section Resolve

-- What `JSON.parse` makes of a column that holds an array.
variable (parseList : Text → Option (List Text))

/-- `legacyListValue`. -/
def legacyListValue (json : Option Text) : Option Text := do
  let values ← parseList (← truthy json)
  if values = [] then none else some (List.intercalate [','] values)

/-- The rows that hold a value. -/
def explicitRows (scope : Scope) : List ScopeOption := scope.options.filter (·.value ≠ none)

/-- The linked rows, with the values the defaults have now. IPv4 51 is the lease time. -/
def linkedValues (defaults : Nat → Option Text) (scope : Scope) : Values :=
  (scope.options.filter (·.value = none)).foldl
    (fun values row =>
      if scope.addressFamily = .v4 && row.code = 51 then values
      else set values row.code (defaults row.code) .default)
    []

/-- `resolveEffectiveScopeOptions` of a DHCPv6 scope. -/
def resolveV6 (defaults : Nat → Option Text) (scope : Scope) (subnet : SubnetRow) : Values :=
  let values := linkedValues defaults scope
  let values := set values 23 (legacyListValue parseList scope.dnsServers) .legacyScope
  let values := set values 24 scope.domainSearch .legacyScope
  let values := set values 56 (legacyListValue parseList scope.ntpServers) .legacyScope
  let values := (explicitRows scope).foldl (fun values row => set values row.code row.value .scope)
      values
  setMissing values 24 ((truthy scope.domainName).or subnet.info.domainName) .network

/-- The legacy columns of a DHCPv4 scope, which count when it holds no value of its own. -/
def legacyV4 (scope : Scope) (values : Values) : Values :=
  let values := set values 3 (scope.gateway.map Addr.text) .legacyScope
  let values := set values 15 scope.domainName .legacyScope
  let values := set values 42 (legacyListValue parseList scope.ntpServers) .legacyScope
  set values 119 scope.domainSearch .legacyScope

/-- The mask, broadcast and router of the network. -/
def topologyValues (subnet : SubnetRow) (values : Values) : Values :=
  let values :=
    if subnet.key.family = .v4 then
      set (set values 1 (some (maskText subnet.key)) .network) 28
        (some (addressAt .v4 subnet.key.lastBig).text) .network
    else values
  match subnet.info.gatewayAddress with
  | some gateway => set values 3 (some gateway.text) .network
  | none => Assoc.erase values 3

/-- `resolveEffectiveScopeOptions` of a DHCPv4 scope. -/
def resolveV4 (defaults : Nat → Option Text) (scope : Scope) (subnet : SubnetRow) : Values :=
  let values := (explicitRows scope).foldl
    (fun values row => if row.code = 51 then values else set values row.code row.value .scope)
    (linkedValues defaults scope)
  let values := if explicitRows scope = [] then legacyV4 parseList scope values else values
  let values := topologyValues subnet values
  let values := setMissing values 15 subnet.info.domainName .network
  setMissing values 119 subnet.info.domainName .network

/-- `resolveEffectiveScopeOptions`: the options a scope serves, by code. `defaults` are the
values of its family's defaults. -/
def resolveEffectiveScopeOptions (defaults : Nat → Option Text) (scope : Scope)
    (subnet : SubnetRow) :
    Values :=
  match scope.addressFamily with
  | .v6 => resolveV6 parseList defaults scope subnet
  | .v4 => resolveV4 parseList defaults scope subnet

/-- The value a scope serves for a code. -/
def served (defaults : Nat → Option Text) (scope : Scope) (subnet : SubnetRow) (code : Nat) :
    Option Text :=
  (Assoc.get (resolveEffectiveScopeOptions parseList defaults scope subnet) code).map Prod.fst

end Resolve

/-! ## What is stored -/

/-- The entry has a value of its own. -/
def OptionInput.IsExplicit (input : OptionInput) : Prop :=
  0 < input.code ∧ input.useDefault = false ∧ ∃ text, text ≠ [] ∧ input.value = some text

/-- The entry becomes a row: it is linked, or has a value that the network does not give. -/
def Kept (subnet : SubnetRow) (input : OptionInput) : Prop :=
  0 < input.code ∧ (input.useDefault = true ∨
    input.IsExplicit ∧ computeInheritedOptions subnet input.code ≠ input.value)

/-- The row an entry becomes. -/
def OptionInput.row (input : OptionInput) : ScopeOption :=
  ⟨input.code, if input.useDefault then none else input.value⟩

theorem truthy_eq_none {value : Option Text} : truthy value = none ↔ ∀ text, value = some text →
    text = [] := by
  cases value with
  | none => simp [truthy]
  | some text => simp [truthy, Option.filter]

theorem insertRow_eq_ok {rows after : List ScopeOption} {row : ScopeOption}
    (done : insertRow rows row = .ok after) :
    (∀ other, other ∈ after ↔ other = row ∨ other ∈ rows) ∧
      ((rows.map ScopeOption.code).Nodup → (after.map ScopeOption.code).Nodup) := by
  unfold insertRow at done
  split at done
  · cases done
  · rename_i free
    obtain rfl := Except.ok.inj done
    have perm : (insertOption row rows).Perm (row :: rows) := List.perm_orderedInsert _ row rows
    refine ⟨fun other => perm.mem_iff.trans List.mem_cons, ?_⟩
    intro distinct
    rw [(perm.map ScopeOption.code).nodup_iff, List.map_cons, List.nodup_cons]
    refine ⟨?_, distinct⟩
    intro taken
    obtain ⟨other, member, same⟩ := List.mem_map.mp taken
    exact free (List.any_eq_true.mpr ⟨other, member, decide_eq_true same⟩)

/-- What one entry adds. -/
theorem saveOption_eq_ok {subnet : SubnetRow} {rows after : List ScopeOption} {input : OptionInput}
    (done : saveOption subnet rows input = .ok after) :
    (∀ row, row ∈ after ↔ row ∈ rows ∨ Kept subnet input ∧ row = input.row) ∧
      ((rows.map ScopeOption.code).Nodup → (after.map ScopeOption.code).Nodup) := by
  unfold saveOption at done
  split at done
  · rename_i skipped
    obtain rfl := Except.ok.inj done
    refine ⟨fun row => ⟨.inl, ?_⟩, id⟩
    rintro (member | ⟨⟨positive, kept⟩, -⟩)
    · exact member
    · rw [Bool.or_eq_true, decide_eq_true_eq, Bool.and_eq_true, Bool.not_eq_true',
        decide_eq_true_eq] at skipped
      rcases skipped with zero | ⟨own, blank⟩
      · exact absurd zero (Nat.ne_of_gt positive)
      · rcases kept with linked | ⟨⟨-, -, text, solid, same⟩, -⟩
        · rw [own] at linked
          cases linked
        · exact absurd (truthy_eq_none.mp blank text same) solid
  · rename_i skipped
    rw [Bool.or_eq_true, decide_eq_true_eq, not_or, Bool.and_eq_true, Bool.not_eq_true',
      decide_eq_true_eq] at skipped
    obtain ⟨nonzero, filled⟩ := skipped
    have positive := Nat.pos_of_ne_zero nonzero
    split at done
    · cases done
    · split at done
      · rename_i linked
        obtain ⟨members, distinct⟩ := insertRow_eq_ok done
        refine ⟨fun row => ?_, distinct⟩
        have same : input.row = ⟨input.code, none⟩ := by rw [OptionInput.row, if_pos linked]
        rw [members, same, or_comm]
        exact or_congr_right ⟨fun made => ⟨⟨positive, .inl linked⟩, made⟩, And.right⟩
      · rename_i own
        rw [Bool.not_eq_true] at own
        have explicit : input.IsExplicit := by
          refine ⟨positive, own, ?_⟩
          by_contra blank
          refine filled ⟨own, truthy_eq_none.mpr fun text same => ?_⟩
          by_contra solid
          exact blank ⟨text, solid, same⟩
        have same : input.row = ⟨input.code, input.value⟩ := by
          rw [OptionInput.row, own]
          rfl
        split at done
        · rename_i inherited
          obtain rfl := Except.ok.inj done
          refine ⟨fun row => ⟨.inl, ?_⟩, id⟩
          rintro (member | ⟨⟨-, linked | ⟨-, differs⟩⟩, -⟩)
          · exact member
          · rw [own] at linked
            cases linked
          · exact absurd inherited differs
        · rename_i differs
          obtain ⟨members, distinct⟩ := insertRow_eq_ok done
          refine ⟨fun row => ?_, distinct⟩
          rw [members, same, or_comm]
          exact or_congr_right ⟨fun made => ⟨⟨positive, .inr ⟨explicit, differs⟩⟩, made⟩, And.right⟩

theorem saveScopeOptions_eq_ok {subnet : SubnetRow} {inputs : List OptionInput}
    {rows after : List ScopeOption} (done : saveScopeOptions subnet rows inputs = .ok after) :
    (∀ row, row ∈ after ↔ row ∈ rows ∨ ∃ input ∈ inputs, Kept subnet input ∧ row = input.row) ∧
      ((rows.map ScopeOption.code).Nodup → (after.map ScopeOption.code).Nodup) := by
  unfold saveScopeOptions at done
  induction inputs generalizing rows with
  | nil =>
    obtain rfl := Except.ok.inj done
    exact ⟨fun row => by simp, id⟩
  | cons input inputs ih =>
    rw [List.foldlM_cons] at done
    obtain ⟨middle, first, rest⟩ := bind_eq_ok.mp done
    obtain ⟨added, distinctFirst⟩ := saveOption_eq_ok first
    obtain ⟨members, distinct⟩ := ih rest
    refine ⟨fun row => ?_, fun before => distinct (distinctFirst before)⟩
    rw [members, added, List.exists_mem_cons_iff, or_assoc]

/-! ## What is served -/

theorem get_set (values : Values) (code other : Nat) (value : Option Text) (source : Provenance) :
    Assoc.get (set values code value source) other =
      if other = code then ((truthy value).map (·, source)).or (Assoc.get values other)
      else Assoc.get values other := by
  unfold set
  cases truthy value with
  | none => simp
  | some text =>
    by_cases same : other = code
    · rw [if_pos same, same, Assoc.get_put_self]
      rfl
    · rw [if_neg same, Assoc.get_put_of_ne _ _ same]

theorem get_set_of_ne (values : Values) {code other : Nat} (differs : other ≠ code)
    (value : Option Text) (source : Provenance) :
    Assoc.get (set values code value source) other = Assoc.get values other := by
  rw [get_set, if_neg differs]

theorem get_setMissing (values : Values) (code other : Nat) (value : Option Text)
    (source : Provenance) : Assoc.get (setMissing values code value source) other =
      if other = code then (Assoc.get values other).or ((truthy value).map (·, source))
      else Assoc.get values other := by
  unfold setMissing
  by_cases same : other = code
  · subst same
    rw [if_pos rfl]
    cases found : Assoc.get values other with
    | none => rw [if_neg (by simp), get_set, if_pos rfl, found, Option.or_none, Option.none_or]
    | some entry => simp [found]
  · rw [if_neg same]
    split
    · rfl
    · exact get_set_of_ne values same value source

/-- The value of a code. -/
def valueAt (values : Values) (code : Nat) : Option Text := (Assoc.get values code).map Prod.fst

theorem valueAt_set (values : Values) (code other : Nat) (value : Option Text)
    (source : Provenance) :
    valueAt (set values code value source) other =
      if other = code then (truthy value).or (valueAt values other) else valueAt values other := by
  rw [valueAt, get_set]
  split
  · rw [Option.map_or, Option.map_map]
    exact congrArg (Option.or · _) (congrFun Option.map_id _)
  · rfl

theorem valueAt_set_of_ne (values : Values) {code other : Nat} (differs : other ≠ code)
    (value : Option Text) (source : Provenance) : valueAt (set values code value source) other =
    valueAt values other := by
  rw [valueAt_set, if_neg differs]

theorem valueAt_setMissing (values : Values) (code other : Nat) (value : Option Text)
    (source : Provenance) :
    valueAt (setMissing values code value source) other =
      if other = code then (valueAt values other).or (truthy value) else valueAt values other := by
  rw [valueAt, get_setMissing]
  split
  · rw [Option.map_or, Option.map_map]
    exact congrArg (Option.or _ ·) (congrFun Option.map_id _)
  · rfl

theorem valueAt_erase_of_ne (values : Values) {code other : Nat} (differs : other ≠ code) :
    valueAt (Assoc.erase values code) other = valueAt values other := by
  rw [valueAt, Assoc.get_erase, if_neg differs]
  rfl

section Rows

variable {β : Type} {read : Values → Nat → β} {step : Values → ScopeOption → Values}
  (frame : ∀ values row code, row.code ≠ code → read (step values row) code = read values code)

include frame

theorem read_foldl_of_not_mem {rows : List ScopeOption} {code : Nat}
    (absent : ∀ row ∈ rows, row.code ≠ code) (values : Values) :
    read (rows.foldl step values) code = read values code := by
  induction rows generalizing values with
  | nil => rfl
  | cons row rows ih =>
    rw [List.foldl_cons, ih fun other member => absent other (List.mem_cons_of_mem _ member)]
    exact frame values row code (absent row List.mem_cons_self)

theorem read_foldl_of_mem {rows : List ScopeOption} {row : ScopeOption} {value : β}
    (distinct : (rows.map ScopeOption.code).Nodup) (member : row ∈ rows)
    (sets : ∀ values, read (step values row) row.code = value) (values : Values) :
    read (rows.foldl step values) row.code = value := by
  induction rows generalizing values with
  | nil => exact absurd member List.not_mem_nil
  | cons first rows ih =>
    rw [List.map_cons, List.nodup_cons] at distinct
    rw [List.foldl_cons]
    rcases List.mem_cons.mp member with rfl | later
    · rw [read_foldl_of_not_mem frame, sets]
      intro other inside same
      exact distinct.1 (List.mem_map.mpr ⟨other, inside, same⟩)
    · exact ih distinct.2 later (step values first)

end Rows

theorem valueAt_foldl_of_not_mem {step : Values → ScopeOption → Values}
    (frame : ∀ values row code, row.code ≠ code → valueAt (step values row) code = valueAt
    values code) {rows : List ScopeOption} {code : Nat} (absent : ∀ row ∈ rows, row.code ≠ code)
    (values : Values) :
    valueAt (rows.foldl step values) code = valueAt values code :=
  read_foldl_of_not_mem frame absent values

theorem valueAt_foldl_of_mem {step : Values → ScopeOption → Values}
    (frame : ∀ values row code, row.code ≠ code → valueAt (step values row) code = valueAt
    values code) {rows : List ScopeOption} {row : ScopeOption} {value : Option Text}
    (distinct : (rows.map ScopeOption.code).Nodup) (member : row ∈ rows)
    (sets : ∀ values, valueAt (step values row) row.code = value) (values : Values) :
    valueAt (rows.foldl step values) row.code = value :=
  read_foldl_of_mem frame distinct member sets values

section Served

variable (parseList : Text → Option (List Text)) (defaults : Nat → Option Text) {scope : Scope}
  {subnet : SubnetRow} {code : Nat} {text : Text}

theorem valueAt_linkedValues (absent : ∀ row ∈ scope.options, row.code ≠ code) :
    valueAt (linkedValues defaults scope) code = none := by
  unfold linkedValues
  rw [valueAt_foldl_of_not_mem]
  · rfl
  · intro values row other differs
    split
    · rfl
    · exact valueAt_set_of_ne values (Ne.symm differs) _ _
  · exact fun row member => absent row (List.mem_of_mem_filter member)

theorem explicit_absent (absent : ∀ row ∈ scope.options, row.code ≠ code) :
    ∀ row ∈ explicitRows scope, row.code ≠ code :=
  fun row member => absent row (List.mem_of_mem_filter member)

theorem explicit_mem (member : (⟨code, some text⟩ : ScopeOption) ∈ scope.options) :
    (⟨code, some text⟩ : ScopeOption) ∈ explicitRows scope :=
  List.mem_filter.mpr ⟨member, rfl⟩

theorem explicit_distinct (distinct : (scope.options.map ScopeOption.code).Nodup) :
    ((explicitRows scope).map ScopeOption.code).Nodup :=
  distinct.sublist (List.filter_sublist.map _)

theorem truthy_some (solid : text ≠ []) : truthy (some text) = some text := by
  rw [truthy, Option.filter_some, decide_eq_true solid]
  rfl

theorem truthy_eq_some {value : Option Text} (given : truthy value = some text) :
    value = some text ∧ text ≠ [] := by
  obtain ⟨same, solid⟩ := Option.filter_eq_some_iff.mp given
  exact ⟨same, of_decide_eq_true solid⟩

theorem valueAt_resolveV6_of_mem (distinct : (scope.options.map ScopeOption.code).Nodup)
    (member : (⟨code, some text⟩ : ScopeOption) ∈ scope.options) (solid : text ≠ []) :
    valueAt (resolveV6 parseList defaults scope subnet) code = some text := by
  have frame : ∀ (values : Values) (row : ScopeOption) (other : Nat), row.code ≠ other →
      valueAt (set values row.code row.value .scope) other = valueAt values other :=
    fun values row other differs => valueAt_set_of_ne values (Ne.symm differs) _ _
  have sets : ∀ values : Values, valueAt (set values code (some text) .scope) code = some text := by
    intro values
    rw [valueAt_set, if_pos rfl, truthy_some solid]
    rfl
  unfold resolveV6
  dsimp only
  rw [valueAt_setMissing,
    valueAt_foldl_of_mem frame (explicit_distinct distinct) (explicit_mem member) sets]
  split <;> rfl

theorem valueAt_resolveV6_search (absent : ∀ row ∈ scope.options, row.code ≠ 24) :
    valueAt (resolveV6 parseList defaults scope subnet) 24 =
      (truthy scope.domainSearch).or
      ((truthy scope.domainName).or (truthy subnet.info.domainName)) := by
  unfold resolveV6
  dsimp only
  rw [valueAt_setMissing, if_pos rfl, valueAt_foldl_of_not_mem ?_ (explicit_absent absent),
    valueAt_set_of_ne _ (by decide), valueAt_set, if_pos rfl, valueAt_set_of_ne _ (by decide),
    valueAt_linkedValues defaults absent, Option.or_none]
  · congr 1
    cases named : truthy scope.domainName with
    | none => rfl
    | some name =>
      rw [Option.some_or, Option.some_or]
      obtain ⟨same, solid⟩ := Option.filter_eq_some_iff.mp named
      exact truthy_some (by simpa using solid)
  · exact fun values row other differs => valueAt_set_of_ne values (Ne.symm differs) _ _

theorem valueAt_topologyValues (free : code ≠ 1 ∧ code ≠ 3 ∧ code ≠ 28) (values : Values) :
    valueAt (topologyValues subnet values) code = valueAt values code := by
  obtain ⟨notMask, notRouter, notBroadcast⟩ := free
  have masked : valueAt (if subnet.key.family = .v4 then
      set (set values 1 (some (maskText subnet.key)) .network) 28
        (some (addressAt .v4 subnet.key.lastBig).text) .network else values) code = valueAt
        values code := by
    split
    · rw [valueAt_set_of_ne _ notBroadcast, valueAt_set_of_ne _ notMask]
    · rfl
  unfold topologyValues
  dsimp only
  split
  · rw [valueAt_set_of_ne _ notRouter, masked]
  · rw [valueAt_erase_of_ne _ notRouter, masked]

theorem valueAt_rowsV4 (absent : ∀ row ∈ scope.options, row.code ≠ code) :
    valueAt ((explicitRows scope).foldl
      (fun values row => if row.code = 51 then values else set values row.code row.value .scope)
      (linkedValues defaults scope)) code = none := by
  rw [valueAt_foldl_of_not_mem _ (explicit_absent absent), valueAt_linkedValues defaults absent]
  intro values row other differs
  split
  · rfl
  · exact valueAt_set_of_ne values (Ne.symm differs) _ _

theorem valueAt_resolveV4_of_mem (distinct : (scope.options.map ScopeOption.code).Nodup)
    (member : (⟨code, some text⟩ : ScopeOption) ∈ scope.options) (solid : text ≠ [])
    (free : code ≠ 1 ∧ code ≠ 3 ∧ code ≠ 28) (notLeaseTime : code ≠ 51) :
    valueAt (resolveV4 parseList defaults scope subnet) code = some text := by
  have frame : ∀ (values : Values) (row : ScopeOption) (other : Nat), row.code ≠ other →
      valueAt (if row.code = 51 then values else set values row.code row.value .scope) other =
        valueAt values other := by
    intro values row other differs
    split
    · rfl
    · exact valueAt_set_of_ne values (Ne.symm differs) _ _
  have sets : ∀ values : Values,
      valueAt (if code = 51 then values else set values code (some text) .scope) code =
      some text := by
    intro values
    rw [if_neg notLeaseTime, valueAt_set, if_pos rfl, truthy_some solid]
    rfl
  have some : explicitRows scope ≠ [] := List.ne_nil_of_mem (explicit_mem member)
  unfold resolveV4
  dsimp only
  rw [if_neg some, valueAt_setMissing, valueAt_setMissing, valueAt_topologyValues free,
    valueAt_foldl_of_mem frame (explicit_distinct distinct) (explicit_mem member) sets]
  split <;> split <;> rfl

/-- The legacy column that stands before the network's value. -/
def legacyFor (scope : Scope) (code : Nat) : Option Text :=
  match scope.addressFamily with
  | .v4 => if code = 15 then truthy scope.domainName else if code = 119
      then truthy scope.domainSearch else none
  | .v6 => if code = 24 then (truthy scope.domainSearch).or (truthy scope.domainName) else none

/-- Without a row, a DHCPv4 scope serves its legacy column when it has no value of its own,
and else the network's. -/
theorem valueAt_resolveV4_domain (v4 : scope.addressFamily = .v4) (domain : code = 15 ∨ code = 119)
    (absent : ∀ row ∈ scope.options, row.code ≠ code) :
    valueAt (resolveV4 parseList defaults scope subnet) code =
      (if explicitRows scope = [] then legacyFor scope code else none).or
      (truthy subnet.info.domainName) := by
  have none := valueAt_rowsV4 defaults absent
  unfold resolveV4
  dsimp only
  by_cases empty : explicitRows scope = []
  · rw [empty, List.foldl_nil] at none
    rw [if_pos empty, if_pos empty, empty, List.foldl_nil]
    rcases domain with rfl | rfl
    · rw [valueAt_setMissing, if_neg (by decide), valueAt_setMissing, if_pos rfl,
        valueAt_topologyValues (by decide)]
      simp [legacyV4, valueAt_set, none, legacyFor, v4]
    · rw [valueAt_setMissing, if_pos rfl, valueAt_setMissing, if_neg (by decide),
        valueAt_topologyValues (by decide)]
      simp [legacyV4, valueAt_set, none, legacyFor, v4]
  · rw [if_neg empty, if_neg empty]
    rcases domain with rfl | rfl
    · rw [valueAt_setMissing, if_neg (by decide), valueAt_setMissing, if_pos rfl,
        valueAt_topologyValues (by decide), none]
    · rw [valueAt_setMissing, if_pos rfl, valueAt_setMissing, if_neg (by decide),
        valueAt_topologyValues (by decide), none]

theorem valueAt_resolveV4_search (absent : ∀ row ∈ scope.options, row.code ≠ 24) :
    valueAt (resolveV4 parseList defaults scope subnet) 24 = none := by
  have none := valueAt_rowsV4 defaults absent
  unfold resolveV4
  dsimp only
  rw [valueAt_setMissing, if_neg (by decide), valueAt_setMissing, if_neg (by decide),
    valueAt_topologyValues (by decide)]
  split
  · simp [legacyV4, valueAt_set, none]
  · exact none

theorem valueAt_resolveV6_of_not_mem (others : code ≠ 23 ∧ code ≠ 24 ∧ code ≠ 56)
    (absent : ∀ row ∈ scope.options, row.code ≠ code) :
    valueAt (resolveV6 parseList defaults scope subnet) code = none := by
  unfold resolveV6
  dsimp only
  rw [valueAt_setMissing, if_neg others.2.1, valueAt_foldl_of_not_mem ?_ (explicit_absent absent),
    valueAt_set_of_ne _ others.2.2, valueAt_set_of_ne _ others.2.1, valueAt_set_of_ne _ others.1,
    valueAt_linkedValues defaults absent]
  exact fun values row other differs => valueAt_set_of_ne values (Ne.symm differs) _ _

end Served

/-! ## Saved and served -/

/-- The codes of a DHCPv4 scope that its network and its lease time decide. -/
def Owned (scope : Scope) (code : Nat) : Prop :=
  scope.addressFamily = .v4 ∧ (code = 1 ∨ code = 3 ∨ code = 28 ∨ code = 51)

/-- An entry equals what the network gives, so it is not stored, and a legacy column with
another value stands before the network: on IPv4 when no other entry is stored either. -/
def Shadowed (subnet : SubnetRow) (row : Scope) (inputs : List OptionInput) (input : OptionInput) :
    Prop :=
  computeInheritedOptions subnet input.code = input.value ∧
    (row.addressFamily ≠ subnet.key.family ∨
      ((row.addressFamily = .v4 → ∀ other ∈ inputs, other.IsExplicit →
          computeInheritedOptions subnet other.code = other.value) ∧
        ∃ legacy, legacyFor row input.code = some legacy ∧ some legacy ≠ input.value))

/-- What a network gives that it does not decide is its domain. -/
theorem inherited_domain {subnet : SubnetRow} {code : Nat} {text : Text}
    (inherited : computeInheritedOptions subnet code = some text) :
    (subnet.key.family = .v6 ∧ code = 24 ∧ truthy subnet.info.domainName = some text) ∨
    (subnet.key.family = .v4 ∧ ((code = 1 ∨ code = 3 ∨ code = 28) ∨
      (code = 15 ∨ code = 119) ∧ truthy subnet.info.domainName = some text)) := by
  unfold computeInheritedOptions at inherited
  cases family : subnet.key.family with
  | v6 =>
    simp only [family] at inherited
    split at inherited
    · rename_i search
      exact .inl ⟨rfl, search, inherited⟩
    · cases inherited
  | v4 =>
    simp only [family] at inherited
    refine .inr ⟨rfl, ?_⟩
    split at inherited
    · rename_i router
      exact .inl (.inr (.inl router))
    · split at inherited
      · rename_i mask
        exact .inl (.inl mask)
      · split at inherited
        · rename_i broadcast
          exact .inl (.inr (.inr broadcast))
        · split at inherited
          · rename_i domain
            exact .inr ⟨by simpa using domain, inherited⟩
          · cases inherited

theorem or_eq_some_iff_not_exists {legacy : Option Text} {text : Text} :
    legacy.or (some text) = some text ↔ ¬ ∃ other, legacy = some other ∧
    some other ≠ some text := by
  cases legacy with
  | none => simp
  | some other => simp

section Saved

variable (parseList : Text → Option (List Text)) (defaults : Nat → Option Text)
  {subnet : SubnetRow} {row : Scope} {inputs : List OptionInput} {rows : List ScopeOption}

theorem explicitRows_eq_nil_iff (scope : Scope)
    (members : ∀ stored, stored ∈ scope.options ↔ ∃ input ∈ inputs, Kept subnet input ∧
    stored = input.row) :
    explicitRows scope = [] ↔ ∀ other ∈ inputs, other.IsExplicit →
      computeInheritedOptions subnet other.code = other.value := by
  rw [explicitRows, List.filter_eq_nil_iff]
  constructor
  · intro none other member explicit
    by_contra differs
    refine none other.row
      ((members _).mpr ⟨other, member, ⟨explicit.1, .inr ⟨explicit, differs⟩⟩, rfl⟩) ?_
    obtain ⟨-, own, text, -, value⟩ := explicit
    simp [OptionInput.row, own, value]
  · intro all stored member held
    obtain ⟨other, inside, ⟨-, kept⟩, rfl⟩ := (members stored).mp member
    rcases kept with linked | ⟨explicit, differs⟩
    · simp [OptionInput.row, linked] at held
    · exact differs (all other inside explicit)

/-- What is served in place of an entry that was not stored. -/
theorem served_dropped_iff
    (members : ∀ stored, stored ∈ rows ↔ ∃ input ∈ inputs, Kept subnet input ∧ stored = input.row)
    {input : OptionInput} {text : Text} (absent : ∀ stored ∈ rows, stored.code ≠ input.code)
    (inherited : computeInheritedOptions subnet input.code = some text)
    (value : input.value = some text) (free : ¬ Owned row input.code) :
    valueAt (resolveEffectiveScopeOptions parseList defaults { row with options := rows } subnet)
        input.code = some text ↔ ¬ Shadowed subnet row inputs input := by
  have same : computeInheritedOptions subnet input.code = input.value := inherited.trans value.symm
  have mismatch : row.addressFamily ≠ subnet.key.family →
      ¬ ¬ Shadowed subnet row inputs input := fun differ => not_not_intro ⟨same, .inl differ⟩
  cases family : row.addressFamily with
  | v4 =>
    simp only [resolveEffectiveScopeOptions]
    rcases inherited_domain inherited with ⟨network, search, -⟩ | ⟨network,
      topology | ⟨code, domain⟩⟩
    · rw [search] at absent ⊢
      rw [valueAt_resolveV4_search parseList defaults absent]
      exact iff_of_false (by simp) (mismatch (by rw [family, network]; decide))
    · exact absurd ⟨family, by omega⟩ free
    · have saved :
        ({ row with addressFamily := .v4, options := rows } : Scope).addressFamily = .v4 := rfl
      have empty := explicitRows_eq_nil_iff { row with addressFamily := .v4, options :=
        rows } members
      have legacy : legacyFor { row with addressFamily := .v4, options := rows } input.code =
          legacyFor row input.code := by
        rw [legacyFor, legacyFor, family]
      rw [valueAt_resolveV4_domain parseList defaults saved code absent, domain,
        or_eq_some_iff_not_exists, not_iff_not, legacy, Shadowed, value]
      constructor
      · rintro ⟨legacy, shown, differs⟩
        split at shown
        · rename_i none
          exact ⟨inherited, .inr ⟨fun _ => empty.mp none, legacy, shown, differs⟩⟩
        · cases shown
      · rintro ⟨-, differ | ⟨alone, legacy, shown, differs⟩⟩
        · exact absurd (family.trans network.symm) differ
        · rw [if_pos (empty.mpr (alone family))]
          exact ⟨legacy, shown, differs⟩
  | v6 =>
    simp only [resolveEffectiveScopeOptions]
    rcases inherited_domain inherited with ⟨network, search, domain⟩ | ⟨network, code⟩
    · rw [search] at absent ⊢
      have legacy : legacyFor row input.code = (truthy row.domainSearch).or
          (truthy row.domainName) := by
        rw [legacyFor, family, search]
        rfl
      rw [valueAt_resolveV6_search parseList defaults absent, domain, ← Option.or_assoc,
        or_eq_some_iff_not_exists, not_iff_not, Shadowed, value, legacy]
      constructor
      · intro shown
        refine ⟨inherited, .inr ⟨?_, shown⟩⟩
        rw [family]
        intro v4
        cases v4
      · rintro ⟨-, differ | ⟨-, shown⟩⟩
        · exact absurd (family.trans network.symm) differ
        · exact shown
    · have others : input.code ≠ 23 ∧ input.code ≠ 24 ∧ input.code ≠ 56 := by
        rcases code with topology | ⟨domain, -⟩ <;> omega
      rw [valueAt_resolveV6_of_not_mem parseList defaults others absent]
      exact iff_of_false (by simp) (mismatch (by rw [family, network]; decide))

/-- The options of a scope whose rows were saved from a list. -/
theorem served_saved_iff (distinct : (inputs.map OptionInput.code).Nodup)
    (saved : saveScopeOptions subnet [] inputs = .ok rows) {input : OptionInput}
    (member : input ∈ inputs) (explicit : input.IsExplicit) (free : ¬ Owned row input.code) :
    served parseList defaults { row with options := rows } subnet input.code = input.value ↔
      ¬ Shadowed subnet row inputs input := by
  obtain ⟨rowsOf, distinctRows⟩ := saveScopeOptions_eq_ok saved
  have members : ∀ stored, stored ∈ rows ↔ ∃ input ∈ inputs, Kept subnet input ∧
      stored = input.row := by
    intro stored
    rw [rowsOf]
    simp
  have codes := distinctRows List.nodup_nil
  obtain ⟨positive, own, text, solid, value⟩ := id explicit
  have valueAtServed : served parseList defaults { row with options := rows } subnet input.code =
      valueAt (resolveEffectiveScopeOptions parseList defaults { row with options := rows } subnet)
      input.code :=
    rfl
  rw [valueAtServed, value]
  by_cases inherited : computeInheritedOptions subnet input.code = input.value
  · -- The entry is not stored, so whatever is served comes from the layers around the rows.
    have absent : ∀ stored ∈ rows, stored.code ≠ input.code := by
      intro stored inside same
      obtain ⟨other, among, ⟨-, kept⟩, rfl⟩ := (members stored).mp inside
      obtain rfl : other = input := List.inj_on_of_nodup_map distinct among member same
      rcases kept with linked | ⟨-, differs⟩
      · rw [own] at linked
        cases linked
      · exact differs inherited
    rw [value] at inherited
    exact served_dropped_iff parseList defaults members absent inherited value free
  · -- The entry is a row, and a row is served.
    have stored : (⟨input.code, some text⟩ : ScopeOption) ∈ rows := by
      refine (members _).mpr ⟨input, member, ⟨positive, .inr ⟨explicit, inherited⟩⟩, ?_⟩
      rw [OptionInput.row, own, value]
      rfl
    refine iff_of_true ?_ fun shadowed => inherited shadowed.1
    cases family : row.addressFamily with
    | v6 =>
      simp only [resolveEffectiveScopeOptions]
      exact valueAt_resolveV6_of_mem parseList defaults codes stored solid
    | v4 =>
      simp only [resolveEffectiveScopeOptions]
      have others : ¬ (input.code = 1 ∨ input.code = 3 ∨ input.code = 28 ∨ input.code = 51) :=
        fun owned => free ⟨family, owned⟩
      push Not at others
      obtain ⟨notMask, notRouter, notBroadcast, notLeaseTime⟩ := others
      exact valueAt_resolveV4_of_mem parseList defaults codes stored solid
        ⟨notMask, notRouter, notBroadcast⟩ notLeaseTime

theorem updateScope_eq_ok {scope stored : Scope} {fields : ScopeFields}
    (sent : fields.options = some inputs) (done : updateScope scope fields subnet = .ok stored) :
    ∃ rows, saveScopeOptions subnet [] inputs = .ok rows ∧
      stored = { updatedRow scope fields with options := rows } := by
  unfold updateScope at done
  rw [sent] at done
  obtain ⟨rows, saved, same⟩ := bind_eq_ok.mp done
  exact ⟨rows, saved, (Except.ok.inj same).symm⟩

theorem createScope_eq_ok {id rangeId : Nat} {fields : ScopeFields} {defaultLeaseTime : Text}
    {stored : Scope} (sent : fields.options = some inputs)
    (done : createScope id rangeId fields subnet defaultLeaseTime = .ok stored) :
    ∃ rows, saveScopeOptions subnet [] inputs = .ok rows ∧
      stored = { insertedRow id rangeId fields subnet defaultLeaseTime with options := rows } := by
  unfold createScope at done
  rw [sent] at done
  obtain ⟨rows, saved, same⟩ := bind_eq_ok.mp done
  exact ⟨rows, saved, (Except.ok.inj same).symm⟩

end Saved

/-- **After a scope was updated or created with a list of options, an option with a value of
its own, of a code that the network does not decide, is served with the value submitted
exactly when no legacy column stands before it.** -/
theorem submitted_option_served_iff (parseList : Text → Option (List Text))
    (defaults : Nat → Option Text) (subnet : SubnetRow) (fields : ScopeFields)
    {inputs : List OptionInput} (sent : fields.options = some inputs)
    (distinct : (inputs.map OptionInput.code).Nodup) :
    (∀ scope stored, updateScope scope fields subnet = .ok stored →
      ∀ input ∈ inputs, input.IsExplicit → ¬ Owned stored input.code →
        (served parseList defaults stored subnet input.code = input.value ↔
          ¬ Shadowed subnet (updatedRow scope fields) inputs input)) ∧
    ∀ id rangeId defaultLeaseTime stored, createScope id rangeId fields subnet
      defaultLeaseTime = .ok stored → ∀ input ∈ inputs, input.IsExplicit →
        ¬ Owned stored input.code →
          (served parseList defaults stored subnet input.code = input.value ↔ ¬ Shadowed subnet
          (insertedRow id rangeId fields subnet defaultLeaseTime) inputs input) := by
  constructor
  · intro scope stored done input member explicit free
    obtain ⟨rows, saved, rfl⟩ := updateScope_eq_ok sent done
    exact served_saved_iff parseList defaults distinct saved member explicit free
  · intro id rangeId defaultLeaseTime stored done input member explicit free
    obtain ⟨rows, saved, rfl⟩ := createScope_eq_ok sent done
    exact served_saved_iff parseList defaults distinct saved member explicit free

/-- The network `10.0.0.0/24` with the domain `new.lan`. -/
def sampleSubnet : SubnetRow :=
  ⟨1, ⟨.v4, 0x0a000000, 24, Network.ten_prefix_le_24, Network.ten_aligned_24, Network.ten_fits,
    Network.ten_unmapped⟩, { domainName := some "new.lan".toList }⟩

/-- A scope that still has a domain in its legacy column. -/
def sampleScope : Scope where
  id := 1
  rangeId := 1
  subnetId := 1
  addressFamily := .v4
  v6Mode := none
  leaseTime := "24h".toList
  enabled := true
  domainName := some "old.lan".toList

/-- A domain and a time server are submitted. -/
def sampleFields : ScopeFields :=
  { options := some [⟨15, some "new.lan".toList, false⟩, ⟨42, some "10.0.0.9".toList, false⟩] }

theorem submitted_option_served_sample : ∃ stored, updateScope sampleScope sampleFields
    sampleSubnet = .ok stored ∧ served (fun _ => none) (fun _ => none) stored sampleSubnet 15 =
    some "new.lan".toList := by
  have done : ∃ stored, updateScope sampleScope sampleFields sampleSubnet = .ok stored := ⟨_, rfl⟩
  obtain ⟨stored, done⟩ := done
  have explicit : (⟨15, some "new.lan".toList, false⟩ : OptionInput).IsExplicit :=
    ⟨by decide, rfl, _, by decide, rfl⟩
  refine ⟨stored, done, ?_⟩
  refine ((submitted_option_served_iff (fun _ => none) (fun _ => none) sampleSubnet sampleFields rfl
    (by decide)).1 sampleScope stored done ⟨15, some "new.lan".toList, false⟩ (by decide)
    explicit ?_).mpr ?_
  · rintro ⟨-, owned⟩
    revert owned
    decide
  · rintro ⟨-, differ | ⟨alone, -⟩⟩
    · exact differ rfl
    · have other := alone rfl ⟨42, some "10.0.0.9".toList, false⟩ (by decide)
        ⟨by decide, rfl, _, by decide, rfl⟩
      revert other
      decide

/-- The network's own domain, submitted alone, is not stored, and the legacy column's is
served. -/
theorem legacy_domain_is_served : ∃ (fields : ScopeFields) (stored : Scope) (input : OptionInput),
    fields.options = some [input] ∧ input.IsExplicit ∧
    updateScope sampleScope fields sampleSubnet = .ok stored ∧ ¬ Owned stored input.code ∧
    served (fun _ => none) (fun _ => none) stored sampleSubnet input.code ≠ input.value := by
  refine ⟨{ options := some [⟨15, some "new.lan".toList, false⟩] }, _, _, rfl, ?_, rfl, ?_, ?_⟩
  · exact ⟨by decide, rfl, _, by decide, rfl⟩
  · rintro ⟨-, owned⟩
    revert owned
    decide
  · decide

end ScopeOptions

end Cidrella
