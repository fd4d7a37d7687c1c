import Cidrella.Address

/-!
# DNS record names

`utils/dns-names.js`: the zone-file rule for record names. A name that ends in a dot is
absolute, every other name is relative to its zone. Letters are ASCII, as the routes
that store names require.
-/

set_option autoImplicit false

namespace Cidrella

open Address

namespace DnsNames

/-- `String.prototype.toLowerCase` on ASCII text, and SQLite's `lower` on any. -/
def toLowerCase (text : Text) : Text := text.map Char.toLower

/-- `text.replace(/\.$/, '')`. -/
def dropFinalDot (text : Text) : Text :=
  if text.getLast? = some '.' then text.dropLast else text

/-- `text.endsWith(ending)`. -/
def endsWith (text ending : Text) : Bool := ending.isSuffixOf text

/-- Lower case, trimmed, without a trailing dot. -/
def normalizeDnsName (name : Text) : Text := toLowerCase (dropFinalDot (trim name))

/-- The stored form of a record name in a zone: `@` for the apex, relative when it is under
the zone, otherwise as given with the dot that marks it absolute. -/
def normalizeRecordNameForZone (name zoneName : Text) : Text :=
  let raw := toLowerCase (trim name)
  let normalized := dropFinalDot raw
  let zone := normalizeDnsName zoneName
  if normalized = ['@'] || normalized = zone then ['@']
  else if endsWith normalized ('.' :: zone) then
    normalized.take (normalized.length - (zone.length + 1))
  else if endsWith raw ['.'] then normalized ++ ['.']
  else normalized

/-- The name a record is served as, without a trailing dot. -/
def fqdnForRecordName (recordName zoneName : Text) : Text :=
  let raw := toLowerCase (trim recordName)
  let normalized := dropFinalDot raw
  let zone := normalizeDnsName zoneName
  if normalized = ['@'] || normalized = zone then zoneName
  else if endsWith normalized ('.' :: zone) then normalized
  else if endsWith raw ['.'] then normalized
  else normalized ++ '.' :: zoneName

/-- The `CASE` of `cnameTargetError`, with its `lower`. -/
def caseFqdn (name zoneName : Text) : Text :=
  toLowerCase (if name = ['@'] then zoneName
    else if endsWith name ['.'] then name.take (name.length - 1)
    else name ++ '.' :: zoneName)

/-- The template of `reconcileTopologyAddresses` and `detectLossyIpsForDivision`. -/
def joinFqdn (name zoneName : Text) : Text :=
  if name = ['@'] then zoneName else name ++ '.' :: zoneName

end DnsNames

end Cidrella
