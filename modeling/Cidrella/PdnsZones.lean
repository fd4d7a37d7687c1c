import Cidrella.Lib.KeyedDiff
import Cidrella.NetworkRelations
import Cidrella.ReverseDns
import Cidrella.ScanCoverage
import Cidrella.SortKeys

/-!
# Zones as PowerDNS serves them

`backends/pdns/render.js`: the zones that Authoritative should hold, made from the DNS model
that all backends share. A zone is a map of rrsets by owner and type. The zones come first
from the rows of `dns_zones`, each with the records of its own; then every address with a
name and no `PTR` gets one in the zone that covers it, and every reserved name a zone of
its own.

Types of records have no bar in them, so a key of the source, `name|type`, is a pair here.
-/

set_option autoImplicit false

namespace Cidrella

open Address DnsNames

namespace Pdns

/-! ## Zones -/

/-- The type of an rrset. -/
inductive RrType where
  | soa
  | ns
  | a
  | aaaa
  | cname
  | ptr
  | mx
  | srv
  | txt
  | other (name : Text)
  deriving DecidableEq, Repr

/-- An owner and a type. -/
abbrev RrKey := Text × RrType

/-- The records of one owner and type, as their contents. -/
structure Rrset where
  name : Text
  type : RrType
  ttl : Nat
  records : List Text
  deriving DecidableEq, Repr

/-- `${rrset.name}|${rrset.type}`. -/
def Rrset.key (rrset : Rrset) : RrKey := (rrset.name, rrset.type)

/-- One more record: the lowest time to live counts, and a content is there once. -/
def Rrset.add (rrset : Rrset) (ttl : Nat) (content : Text) : Rrset :=
  { rrset with
    ttl := min rrset.ttl ttl
    records := if content ∈ rrset.records then rrset.records else rrset.records ++ [content] }

/-- A zone. No two of its rrsets have one owner and type. -/
structure Zone where
  name : Text
  rrsets : List Rrset
  distinct : (rrsets.map Rrset.key).Nodup
  deriving DecidableEq, Repr

namespace Zone

/-- `zone.rrsets.get`. -/
def get (zone : Zone) (key : RrKey) : Option Rrset := Keyed.lookup Rrset.key zone.rrsets key

/-- `zone.rrsets.has`. -/
def has (zone : Zone) (key : RrKey) : Bool := (zone.get key).isSome

/-- New rrsets under the same keys. -/
def mapRrsets (zone : Zone) (change : Rrset → Rrset) (keeps : ∀ rrset,
    (change rrset).key = rrset.key) :
    Zone where
  name := zone.name
  rrsets := zone.rrsets.map change
  distinct := by
    have same : (zone.rrsets.map change).map Rrset.key = zone.rrsets.map Rrset.key := by
      rw [List.map_map]
      exact List.map_congr_left fun rrset _ => keeps rrset
    rw [same]
    exact zone.distinct

/-- `zone.put`. -/
def put (zone : Zone) (owner : Text) (type : RrType) (ttl : Nat) (content : Text) : Zone :=
  if new : zone.get (owner, type) = none then
    { name := zone.name
      rrsets := zone.rrsets ++ [⟨owner, type, ttl, [content]⟩]
      distinct := by
        rw [List.map_append, List.nodup_append']
        refine ⟨zone.distinct, List.nodup_singleton _, fun key old added => ?_⟩
        obtain ⟨rrset, member, rfl⟩ := List.mem_map.mp old
        exact Keyed.lookup_eq_none.mp new rrset member (List.mem_singleton.mp added) }
  else
    zone.mapRrsets (fun rrset => if rrset.key = (owner, type) then rrset.add ttl content else rrset)
      (fun rrset => by split <;> rfl)

end Zone

/-! ## Names and contents -/

/-- `LOCAL_RECORD_TTL`. -/
def localRecordTtl : Nat := 60

/-- A letter of a label that may stand at its ends. -/
def isLabelEnd (c : Char) : Bool := ('a' ≤ c && c ≤ 'z') || c.isDigit || c = '_'

/-- `LABEL`. -/
def isLabelText (label : Text) : Bool :=
  label = ['*'] ||
    (1 ≤ label.length && label.length ≤ 63 && label.all (fun c => isLabelEnd c || c = '-') &&
      label.head?.any isLabelEnd && label.getLast?.any isLabelEnd)

/-- `absoluteName`. -/
def absoluteName (name : Text) : Option Text :=
  let bare := normalizeDnsName name
  if bare = [] || 253 < bare.length then none
  else
    let labels := bare.splitOn '.'
    if labels.all isLabelText && labels.tail.all (· ≠ ['*']) then some (bare ++ ['.']) else none

/-- `inZone`. -/
def inZone (name zone : Text) : Bool := name = zone || endsWith name ('.' :: zone)

/-- A byte inside the quotes of a `TXT` string. -/
def txtByte (byte : UInt8) : Text :=
  if byte = 0x22 || byte = 0x5c then ['\\', Char.ofNat byte.toNat]
  else if 0x20 ≤ byte && byte < 0x7f then [Char.ofNat byte.toNat]
  else '\\' :: Text.padStart 3 '0' (Nat.toDigits 10 byte.toNat)

/-- `txtContent`. -/
def txtContent (value : Text) : Text :=
  let strings := match bytes value with
    | [] => [[]]
    | all => all.toChunks 255
  [' '].intercalate (strings.map fun string => '"' :: string.flatMap txtByte ++ ['"'])

/-- `value.length`: code points above the first plane are two units. -/
def utf16Length (value : Text) : Nat := (value.map fun c => if 0x10000 ≤ c.toNat then 2 else 1).sum

/-- `validateTxtValue(value) == null`. -/
def isTxtValue (value : Text) : Bool :=
  value ≠ [] && utf16Length value ≤ 4096 && value.all fun c =>
    !(c = '\r' || c = '\n' || c.toNat ≤ 0x08 || (0x0b ≤ c.toNat && c.toNat ≤ 0x1f) || c.toNat =
      0x7f)

/-- A record of the DNS model. -/
structure DnsRecord where
  id : Nat
  zoneId : Nat
  zoneName : Text
  zoneType : Dns.ZoneType
  name : Text
  type : RrType
  value : Text
  priority : Option Nat := none
  weight : Option Nat := none
  port : Option Nat := none
  ttl : Option Nat := none
  fqdn : Text
  placeholder : Bool := false
  deriving DecidableEq, Repr

/-- `servedTtl`. -/
def servedTtl (record : DnsRecord) : Nat :=
  match record.ttl with
  | some ttl => if 0 < ttl then ttl else localRecordTtl
  | none => localRecordTtl

/-- A number in a content. -/
def number (n : Nat) : Text := Nat.toDigits 10 n

/-- `recordContent`: the content of a record, or none when it cannot be served. -/
def recordContent (record : DnsRecord) : Option Text :=
  match record.type with
  | .a => if (parseIp record.value).any (·.bits = ipv4Bits) then canonicalizeIp record.value
      else none
  | .aaaa => if (parseIp record.value).any (·.bits ≠ ipv4Bits) then canonicalizeIp record.value
      else none
  | .cname | .ptr => absoluteName record.value
  | .mx => (absoluteName record.value).map fun target =>
    [' '].intercalate [number (record.priority.getD 10), target]
  | .srv => do
      let target ← absoluteName record.value
      let port ← record.port
      some ([' '].intercalate
        [number (record.priority.getD 0), number (record.weight.getD 0), number port, target])
  | .txt => if isTxtValue record.value then some (txtContent record.value) else none
  | .soa | .ns | .other _ => none

/-- `email.replace('@', '.')`. -/
def replaceAt (email : Text) : Text :=
  match email.dropWhile (· ≠ '@') with
  | [] => email
  | _ :: rest => email.takeWhile (· ≠ '@') ++ '.' :: rest

/-- `mailbox`. -/
def mailbox (email : Text) : Option Text := absoluteName (replaceAt email)

/-- What a new zone starts with. -/
structure SoaFields where
  ns : Text
  admin : Text
  serial : Option Nat := none
  refresh : Option Nat := none
  retry : Option Nat := none
  expire : Option Nat := none
  minimum : Option Nat := none

/-- `DERIVED_SOA`. -/
def derivedSoa : SoaFields where
  ns := "ns1.localhost.".toList
  admin := "admin.localhost.".toList

/-- `emptyZone`. -/
def emptyZone (name : Text) (soa : SoaFields) : Zone :=
  ((⟨name, [], List.nodup_nil⟩ : Zone).put name .soa localRecordTtl
    ([' '].intercalate [soa.ns, soa.admin, number (soa.serial.getD 1),
      number (soa.refresh.getD 3600), number (soa.retry.getD 900), number (soa.expire.getD 604800),
      number (soa.minimum.getD 86400)])).put
    name .ns localRecordTtl soa.ns

/-- `derivedZone`. -/
def derivedZone (name : Text) : Zone := emptyZone name derivedSoa

/-- `isPrivateNetwork`. -/
def isPrivateNetwork (cidr : Text) : Bool :=
  (parseNetwork cidr).any fun net => !ScanCoverage.isGloballyRoutable net

/-- `coveringZone`: the longest zone that a name is in. -/
def coveringZone (names : List Text) (owner : Text) : Option Text :=
  names.foldl
    (fun best name =>
      if inZone owner name && best.all (fun other => other.length < name.length)
        then some name else best)
    none

/-! ## The names of addresses -/

/-- A name that an address is served under. -/
structure HostName where
  fqdn : Text
  key : Text
  deriving DecidableEq, Repr

/-- `lowerFqdn`. -/
def lowerFqdn (name : Text) : Text := toLowerCase (dropFinalDot (trim name))

/-- The name that the first `PTR` of an address gives. -/
def ptrName (records : List DnsRecord) (ip : Text) : Option Text :=
  (records.find? fun ptr => ptr.type = .ptr && Dns.ipForPtrRecord ptr.name ptr.zoneName =
    some ip).map fun ptr => lowerFqdn ptr.value

/-- The names of some records, each once. -/
def hostNames (records : List DnsRecord) : List HostName :=
  records.foldl
    (fun names record =>
      if names.any (·.key = lowerFqdn record.fqdn) then names
      else names ++ [⟨record.fqdn, lowerFqdn record.fqdn⟩])
    []

/-- The names with the canonical one first. -/
def canonicalFirst (canonical : Option Text) (names : List HostName) : List HostName :=
  match truthy canonical with
  | none => names
  | some canonical =>
    match names.find? (·.key = canonical) with
    | none => names
    | some first => first :: names.eraseP (·.key = canonical)

/-- `servedHostsByAddress`. -/
def servedHostsByAddress (records : List DnsRecord) : List (Text × List HostName) :=
  let hosts := records.filter fun record =>
    record.zoneType = .forward && (record.type = .a || record.type = .aaaa)
  (hosts.map DnsRecord.value).eraseDups.map fun ip =>
    (ip, canonicalFirst (ptrName records ip) (hostNames (hosts.filter (·.value = ip))))

/-! ## The zones there should be -/

/-- A row of `dns_zones`. -/
structure ZoneRow where
  id : Nat
  name : Text
  soaPrimaryNs : Text
  soaAdminEmail : Text
  soaSerial : Option Nat := none
  soaRefresh : Option Nat := none
  soaRetry : Option Nat := none
  soaExpire : Option Nat := none
  soaMinimumTtl : Option Nat := none
  deriving DecidableEq, Repr

/-- The DNS model. No two records have one id. -/
structure DnsModel where
  zones : List ZoneRow
  records : List DnsRecord
  networks : List Text := []
  ids : (records.map DnsRecord.id).Nodup

/-- The records of a row that may be served. -/
def ofZone (records : List DnsRecord) (row : ZoneRow) : List DnsRecord :=
  records.filter fun record => record.zoneId = row.id && !record.placeholder

/-- `cnames.get`: the first `CNAME` at a name below the zone's own. -/
def cnameAt (records : List DnsRecord) (name owner : Text) : Option Nat :=
  (records.find? fun record =>
    record.type = .cname && absoluteName record.fqdn = some owner && owner ≠ name).map DnsRecord.id

/-- Whether a zone serves a record at a name. -/
def servesAt (records : List DnsRecord) (name owner : Text) (record : DnsRecord) : Bool :=
  inZone owner name && (cnameAt records name owner).all (· = record.id) &&
    (record.type ≠ .cname || (cnameAt records name owner).isSome)

/-- One round of the loop over the records of a zone. -/
def putRecord (records : List DnsRecord) (zone : Zone) (record : DnsRecord) : Zone :=
  match absoluteName record.fqdn with
  | none => zone
  | some owner =>
    if !servesAt records zone.name owner record then zone
    else if record.type = .ptr && zone.has (owner, .ptr) then zone
    else
      match recordContent record with
      | none => zone
      | some content => zone.put owner record.type (servedTtl record) content

/-- The zone of a row before its records, if it has valid names. -/
def bareZone (row : ZoneRow) : Option Zone := do
  let name ← absoluteName row.name
  let ns ← absoluteName row.soaPrimaryNs
  let admin ← mailbox row.soaAdminEmail
  some (emptyZone name
    ⟨ns, admin, row.soaSerial, row.soaRefresh, row.soaRetry, row.soaExpire, row.soaMinimumTtl⟩)

/-- The zone of a row. -/
def zoneOfRow (records : List DnsRecord) (row : ZoneRow) : Option Zone :=
  (bareZone row).map fun zone => (ofZone records row).foldl (putRecord (ofZone records row)) zone

/-- `out.set`. -/
def setZone (out : List Zone) (zone : Zone) : List Zone :=
  if out.any (·.name = zone.name) then out.map fun other => if other.name = zone.name
    then zone else other
  else out ++ [zone]

/-- The zones of the rows. -/
def rowZones (model : DnsModel) : List Zone :=
  model.zones.foldl (fun out row => ((zoneOfRow model.records row).map (setZone out)).getD out) []

/-- Where the loop that makes `PTR`s is. -/
structure PtrState where
  out : List Zone
  withPtr : List Text

/-- The zone that the `PTR` of an address is put into, and the zones with it. -/
def zoneForPtr (out : List Zone) (network reverse owner : Text) : List Zone × Text :=
  match coveringZone (out.map Zone.name) owner with
  | some zoneName => (out, zoneName)
  | none =>
    let zoneName :=
      if isPrivateNetwork network then
        let names := ((parseNetwork network).map Dns.generateReverseNames).getD []
        (absoluteName ((names.find? fun name => inZone owner (name ++ ['.'])).getD reverse)).getD []
      else owner
    (if out.any (·.name = zoneName) then out else out ++ [derivedZone zoneName], zoneName)

/-- What a `PTR` is made of, when an address gets one: its reverse name, the name it points
to and the network it is in. -/
def derivedPtr (networks : List Text) (host : Text × List HostName) :
    Option (Text × Text × Text) := do
  let reverse ← Dns.reverseNameOf host.1
  let first ← host.2.head?
  let target ← absoluteName first.fqdn
  let network ← networks.find? fun cidr => (networkContains cidr host.1).getD false
  some (reverse, target, network)

/-- One round of the loop over the names of addresses. -/
def derivePtr (networks : List Text) (state : PtrState) (host : Text × List HostName) : PtrState :=
  match derivedPtr networks host with
  | none => state
  | some (reverse, target, network) =>
    let owner := reverse ++ ['.']
    if owner ∈ state.withPtr then state
    else
      let (out, zoneName) := zoneForPtr state.out network reverse owner
      { out := out.map fun zone =>
          if zone.name = zoneName then zone.put owner .ptr localRecordTtl target else zone
        withPtr := state.withPtr ++ [owner] }

/-- The names that have a `PTR`. -/
def ptrOwners (out : List Zone) : List Text :=
  (out.flatMap Zone.rrsets).filterMap fun rrset => if rrset.type = .ptr
    then some rrset.name else none

/-- One round of the loop over the reserved names. -/
def addReserved (out : List Zone) (domain : Text) : List Zone :=
  match absoluteName domain with
  | none => out
  | some name => if out.any (·.name = name) then out else out ++ [derivedZone name]

/-- The order of texts, by their characters. -/
def textLe : Text → Text → Bool
  | [], _ => true
  | _ :: _, [] => false
  | a :: left, b :: right => a.toNat < b.toNat || (a = b && textLe left right)

/-- `contents.sort()`. -/
def sortTexts (texts : List Text) : List Text := texts.mergeSort textLe

/-- A zone with its contents sorted. -/
def Zone.sorted (zone : Zone) : Zone :=
  zone.mapRrsets (fun rrset => { rrset with records := sortTexts rrset.records }) fun _ => rfl

/-- `desiredZones`. -/
def desiredZones (model : DnsModel) (reserved : List Text) : List Zone :=
  let out := rowZones model
  let state := (servedHostsByAddress model.records).foldl (derivePtr model.networks)
      ⟨out, ptrOwners out⟩
  (reserved.foldl addReserved state.out).map Zone.sorted

end Pdns

end Cidrella
