import Cidrella.Address

/-!
# The lifecycle vocabulary

`models/ip-lifecycle.js`: the allocation states, the sources that own them, the
transitions each source may make, and the rule that picks an address's one hostname.
-/

set_option autoImplicit false

namespace Cidrella

/-- `ALLOCATION_STATE`. -/
inductive AllocationState where
  | unassigned
  | reserved
  | staticDns
  | dynamicDhcp
  | staticDhcp
  | slaac
  | system
  | gateway
  | quarantined
  deriving DecidableEq, Repr

/-- `LIFECYCLE_SOURCE`. -/
inductive LifecycleSource where
  | adminReservation
  | dns
  | dhcpReservation
  | dhcpLease
  | slaac
  | topology
  | reconciliation
  deriving DecidableEq, Repr

/-- `ALLOCATION_TRANSITIONS`: the states a source may move an address to. -/
def allocationTransitions : LifecycleSource → AllocationState → List AllocationState
  | .adminReservation, .unassigned => [.reserved]
  | .adminReservation, .reserved => [.reserved, .unassigned]
  | .dns, .unassigned => [.staticDns, .reserved]
  | .dns, .reserved => [.staticDns, .reserved, .unassigned]
  | .dns, .staticDns => [.staticDns, .unassigned, .reserved]
  | .dhcpReservation, .unassigned => [.staticDhcp]
  | .dhcpReservation, .reserved => [.staticDhcp]
  | .dhcpReservation, .staticDhcp => [.staticDhcp, .unassigned]
  | .dhcpLease, .unassigned => [.dynamicDhcp]
  | .dhcpLease, .dynamicDhcp => [.dynamicDhcp, .unassigned]
  | .slaac, .unassigned => [.slaac]
  | .slaac, .slaac => [.slaac, .unassigned]
  | .topology, .unassigned => [.system, .gateway]
  | .topology, .system => [.system, .unassigned]
  | .topology, .gateway => [.gateway, .unassigned]
  | .reconciliation, _ =>
    [.unassigned, .reserved, .staticDns, .dynamicDhcp, .staticDhcp, .slaac, .system, .gateway,
      .quarantined]
  | _, _ => []

/-- `canTransitionAllocation`. -/
def canTransitionAllocation (current target : AllocationState) (source : LifecycleSource) : Bool :=
  target ∈ allocationTransitions source current

/-- `macIsAuthoritative`: the MAC of these allocations comes from DHCP. -/
def macIsAuthoritative : AllocationState → Bool
  | .staticDhcp | .dynamicDhcp => true
  | _ => false

/-- An admin declared the address, as opposed to CIDRella having observed it
(`isAdminDeclared`). -/
def isAdminDeclared : AllocationState → Bool
  | .reserved | .staticDns | .staticDhcp | .system | .gateway => true
  | _ => false

/-- A text that JavaScript takes as true: neither null nor empty. -/
def truthy (text : Option Text) : Option Text := text.filter (· ≠ [])

/-- The hostname an allocation shows and the protocol it comes from. -/
structure CanonicalHostname where
  hostname : Option Text
  source : Option LifecycleSource
  deriving DecidableEq, Repr

/-- The name of one protocol, or none. -/
def CanonicalHostname.of (hostname : Option Text) (source : LifecycleSource) : CanonicalHostname :=
  match truthy hostname with
  | some name => ⟨some name, some source⟩
  | none => ⟨none, none⟩

/-- `canonicalHostnameForAllocation`. States without a protocol owner take the available
names in a fixed order. An address without a row has no allocation state. -/
def canonicalHostnameForAllocation (allocationState : Option AllocationState)
    (dnsHostname reservationHostname leaseHostname : Option Text) : CanonicalHostname :=
  match allocationState with
  | some .staticDns | some .gateway => .of dnsHostname .dns
  | some .system => ⟨none, none⟩
  | some .staticDhcp => .of reservationHostname .dhcpReservation
  | some .dynamicDhcp => .of leaseHostname .dhcpLease
  | _ =>
    if (truthy dnsHostname).isSome then .of dnsHostname .dns
    else if (truthy reservationHostname).isSome then .of reservationHostname .dhcpReservation
    else .of leaseHostname .dhcpLease

end Cidrella
