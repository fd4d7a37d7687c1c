import Cidrella.Db
import Cidrella.RecordNames

/-!
# Leases carried from one DHCP server to the other

`backends/kea/leases.js` and the lease file of `backends/dnsmasq/dhcp.js`. A lease leaves a
server as a `BackendLease` and enters the other one as a row of that server's own kind:
the arguments of `lease4-add` or `lease6-add`, or the words of a line of the lease file. A
lease that is read from either and written there again is the same lease
(`same_of_keaRoundTrip`, `same_of_lineRoundTrip`).
-/

set_option autoImplicit false

namespace Cidrella

open Address DnsNames Text

namespace LeaseHandover

/-! ## Leases -/

/-- A text that is not empty. The words of a lease file hold no blanks either. -/
structure Word where
  text : Text
  filled : text ≠ []
  deriving DecidableEq, Repr

namespace Word

theorem printer_filled : "printer".toList ≠ [] := by decide

/-- `String(value).toLowerCase()`. -/
def lower (word : Word) : Word := ⟨toLowerCase word.text, by simpa [toLowerCase] using word.filled⟩

theorem toLower_eq_star {c : Char} : c.toLower = '*' ↔ c = '*' := by
  rcases toLower_eq_self_or_upper c with same | upper
  · rw [same]
  · exact of_decide_eq_true (@upperLetters_all (fun c => c.toLower = '*' ↔ c = '*')
      (by decide) c upper)

theorem lower_lower (word : Word) : word.lower.lower = word.lower := by
  unfold lower toLowerCase
  simp only [List.map_map]
  congr 1
  exact List.map_congr_left fun c _ => toLower_toLower c

theorem lower_eq_star {word : Word} : word.lower.text = ['*'] ↔ word.text = ['*'] := by
  show word.text.map Char.toLower = ['*'] ↔ word.text = ['*']
  cases word.text with
  | nil => simp
  | cons c rest => simp [toLower_eq_star]

end Word

/-- A `BackendLease`. An empty text and a missing one are both `none`. -/
structure Lease where
  ip : Text
  mac : Option Word
  hostname : Option Word
  clientId : Option Word
  expiresAt : Expiry
  dhcpVersion : Family
  duid : Option Word
  iaid : Option Nat
  temporary : Bool
  deriving DecidableEq, Repr

/-- What a DHCP server knows the client of a lease by. Client ids and DUIDs are hex digits,
whose case means nothing. -/
structure Identity where
  dhcpVersion : Family
  mac : Option Word
  clientId : Option Word
  duid : Option Word
  iaid : Option Nat
  temporary : Bool
  deriving DecidableEq, Repr

/-- The client of a lease. -/
def Lease.identity (lease : Lease) : Identity where
  dhcpVersion := lease.dhcpVersion
  mac := lease.mac
  clientId := lease.clientId.map Word.lower
  duid := lease.duid
  iaid := lease.iaid
  temporary := lease.temporary

/-- The same address for the same client under the same name. -/
def Lease.Same (lease other : Lease) : Prop :=
  lease.ip = other.ip ∧ lease.identity = other.identity ∧ lease.hostname = other.hostname

instance (lease other : Lease) : Decidable (lease.Same other) :=
  inferInstanceAs (Decidable (_ ∧ _ ∧ _))

/-! ## Kea's leases -/

/-- `lease_type` of a DHCPv6 lease. -/
inductive LeaseType where
  | na
  | ta
  | pd
  deriving DecidableEq, Repr

/-- A lease as Kea keeps it, of either family. -/
structure KeaLease where
  family : Family
  ip : Text
  hwAddress : Option Word := none
  clientId : Option Word := none
  duid : Option Word := none
  iaid : Nat := 0
  type : LeaseType := .na
  hostname : Option Word := none
  state : Nat := 0
  cltt : Nat
  validLft : Nat
  deriving DecidableEq, Repr

/-- `INFINITE_LIFETIME`. -/
def infiniteLifetime : Nat := 0xffffffff

/-- `expiresAt` of a lease in Kea. -/
def KeaLease.expiresAt (lease : KeaLease) : Expiry :=
  if lease.validLft = infiniteLifetime then .infinite else .at (lease.cltt + lease.validLft)

/-- `backendLeaseFromKea`. -/
def backendLeaseFromKea (lease : KeaLease) : Option Lease :=
  if lease.state ≠ 0 then none
  else match lease.family with
    | .v6 =>
      -- A delegated prefix is not an address on the network.
      if lease.type = .pd then none
      else
        let duid := lease.duid.map Word.lower
        some {
          ip := lease.ip
          mac := none
          hostname := lease.hostname
          clientId := duid
          expiresAt := lease.expiresAt
          dhcpVersion := .v6
          duid
          iaid := some lease.iaid
          temporary := lease.type = .ta }
    | .v4 => some {
        ip := lease.ip
        mac := lease.hwAddress.map Word.lower
        hostname := lease.hostname
        clientId := lease.clientId.map Word.lower
        expiresAt := lease.expiresAt
        dhcpVersion := .v4
        duid := none
        iaid := none
        temporary := false }

/-- The arguments of `lease4-add` and `lease6-add`; `timing` is `valid-lft` and `expire`. -/
structure KeaArguments where
  family : Family
  ip : Text
  hwAddress : Option Word := none
  clientId : Option Word := none
  duid : Option Word := none
  iaid : Nat := 0
  type : LeaseType := .na
  timing : Option (Nat × Nat)
  hostname : Option Word
  deriving DecidableEq, Repr

/-- `keaLeaseArguments`; times are whole seconds. -/
def keaLeaseArguments (now : Nat) (lease : Lease) : KeaArguments :=
  let timing := match lease.expiresAt with
    | .infinite => none
    | .at expire => some (max 1 (expire - now), expire)
  match lease.dhcpVersion with
  | .v6 => {
      family := .v6
      ip := lease.ip
      duid := lease.duid.or lease.clientId
      iaid := lease.iaid.getD 0
      type := if lease.temporary then .ta else .na
      timing
      hostname := lease.hostname }
  | .v4 => {
      family := .v4
      ip := lease.ip
      hwAddress := lease.mac
      clientId := lease.clientId
      timing
      hostname := lease.hostname }

/-- What `lease4-add` and `lease6-add` store; a lease without times gets its subnet's. -/
def leaseAdd (now subnetLifetime : Nat) (arguments : KeaArguments) : KeaLease where
  family := arguments.family
  ip := arguments.ip
  hwAddress := arguments.hwAddress
  clientId := arguments.clientId
  duid := arguments.duid
  iaid := arguments.iaid
  type := arguments.type
  hostname := arguments.hostname
  cltt := match arguments.timing with
    | none => now
    | some (valid, expire) => expire - valid
  validLft := match arguments.timing with
    | none => subnetLifetime
    | some (valid, _) => valid

theorem ip_of_backendLeaseFromKea {row : KeaLease} {lease : Lease}
    (read : backendLeaseFromKea row = some lease) :
    lease.ip = row.ip := by
  unfold backendLeaseFromKea at read
  split at read
  · exact absurd read nofun
  · split at read
    · split at read
      · exact absurd read nofun
      · rw [← Option.some.inj read]
    · rw [← Option.some.inj read]

theorem ip_leaseAdd (now subnetLifetime : Nat) (lease : Lease) :
    (leaseAdd now subnetLifetime (keaLeaseArguments now lease)).ip = lease.ip := by
  unfold keaLeaseArguments leaseAdd
  cases lease.dhcpVersion <;> rfl

theorem same_of_keaRoundTrip (now subnetLifetime : Nat) {row : KeaLease} {lease : Lease}
    (read : backendLeaseFromKea row = some lease) :
    ∃ back, backendLeaseFromKea (leaseAdd now subnetLifetime (keaLeaseArguments now lease)) =
      some back ∧ back.Same lease := by
  unfold backendLeaseFromKea at read
  split at read
  · exact absurd read nofun
  · cases family : row.family with
    | v4 =>
      rw [family] at read
      obtain rfl := Option.some.inj read
      refine ⟨_, rfl, rfl, ?_, rfl⟩
      simp [Lease.identity, leaseAdd, keaLeaseArguments, Function.comp_def, Word.lower_lower]
    | v6 =>
      rw [family] at read
      dsimp only at read
      split at read
      · exact absurd read nofun
      · rename_i address
        obtain rfl := Option.some.inj read
        cases type : row.type with
        | pd => exact absurd type address
        | na =>
          refine ⟨_, rfl, rfl, ?_, rfl⟩
          simp [Lease.identity, leaseAdd, keaLeaseArguments, Function.comp_def, Word.lower_lower]
        | ta =>
          refine ⟨_, rfl, rfl, ?_, rfl⟩
          simp [Lease.identity, leaseAdd, keaLeaseArguments, Function.comp_def, Word.lower_lower]

/-! ## dnsmasq's lease file -/

/-- The words of a line of the lease file; a line of four words has no client id. -/
structure LeaseLine where
  expiry : Nat
  identity : Word
  ip : Text
  hostname : Word
  clientId : Option Word
  deriving DecidableEq, Repr

/-- The word that stands for no name and no client id. -/
def star : Word := ⟨['*'], List.cons_ne_nil _ _⟩

/-- A word, or `null` for a star. -/
def unlessStar (word : Word) : Option Word := if word = star then none else some word

/-- `isValidAddress` of `utils/cidr.js`. -/
def isValidAddress (ip : Text) : Bool := (parseIp ip { zoneId := false }).isSome

/-- `isValidIpv6`. -/
def isValidIpv6 (ip : Text) : Bool := (parseIp ip).any (·.bits = ipv6Bits)

/-- A decimal numeral: `\d+`. -/
def isNumeral (text : Text) : Bool := text ≠ [] && text.all Char.isDigit

/-- `/^(T?)(\d+)$/`. -/
def iaidMatch (identity : Text) : Option (Bool × Nat) :=
  let (temporary, digits) := match identity with
    | 'T' :: rest => (true, rest)
    | other => (false, other)
  if isNumeral digits then some (temporary, readDigits 10 digits) else none

/-- `parseLeaseLine`, of a line that is a lease's. -/
def parseLeaseLine (line : LeaseLine) : Option Lease :=
  if !isValidAddress line.ip then none
  else
    let hostname := unlessStar line.hostname
    let clientId := line.clientId.bind unlessStar
    let expiresAt := if line.expiry = 0 then .infinite else .at line.expiry
    if isValidIpv6 line.ip then
      (iaidMatch line.identity.text).map fun (temporary, iaid) => {
        ip := line.ip
        mac := none
        hostname
        clientId
        expiresAt
        dhcpVersion := .v6
        duid := clientId.map Word.lower
        iaid := some iaid
        temporary }
    else some {
      ip := line.ip
      mac := some line.identity.lower
      hostname
      clientId
      expiresAt
      dhcpVersion := .v4
      duid := none
      iaid := none
      temporary := false }

/-- What a template literal makes of `null`. -/
def null : Word := ⟨['n', 'u', 'l', 'l'], List.cons_ne_nil _ _⟩

/-- A number in decimal digits. -/
def decimal (n : Nat) : Word := ⟨Nat.toDigits 10 n, Nat.toDigits_ne_nil⟩

/-- `${temporary ? 'T' : ''}${iaid}`. -/
def iaidWord (temporary : Bool) (iaid : Option Nat) : Word :=
  let number := (iaid.map decimal).getD null
  if temporary then ⟨'T' :: number.text, List.cons_ne_nil _ _⟩ else number

/-- `formatLeaseLine`. -/
def formatLeaseLine (lease : Lease) : LeaseLine where
  expiry := match lease.expiresAt with
    | .infinite => 0
    | .at time => time
  identity := match lease.dhcpVersion with
    | .v6 => iaidWord lease.temporary lease.iaid
    | .v4 => lease.mac.getD null
  ip := lease.ip
  hostname := lease.hostname.getD star
  clientId := match lease.dhcpVersion with
    | .v6 => some ((lease.duid.or lease.clientId).getD star)
    | .v4 => some (lease.clientId.getD star)

theorem ip_of_parseLeaseLine {line : LeaseLine} {lease : Lease}
    (read : parseLeaseLine line = some lease) :
    lease.ip = line.ip := by
  unfold parseLeaseLine at read
  split at read
  · exact absurd read nofun
  · dsimp only at read
    split at read
    · obtain ⟨_, -, rfl⟩ := Option.map_eq_some_iff.mp read
      rfl
    · rw [← Option.some.inj read]

theorem iaidMatch_iaidWord (temporary : Bool) (iaid : Nat) :
    iaidMatch (iaidWord temporary (some iaid)).text = some (temporary, iaid) := by
  have numeral : isNumeral (Nat.toDigits 10 iaid) = true := by
    simp only [isNumeral, Nat.toDigits_ne_nil, ne_eq, not_false_eq_true, decide_true, Bool.true_and,
      List.all_eq_true]
    exact forall_mem_toDigits (by decide) _ (fun d small => isDigit_digitChar small) iaid
  have value : readDigits 10 (Nat.toDigits 10 iaid) = iaid :=
    readDigits_toDigits (by decide) (by decide) iaid
  cases temporary with
  | true => simp [iaidMatch, iaidWord, decimal, numeral, value]
  | false =>
    show iaidMatch (Nat.toDigits 10 iaid) = _
    unfold iaidMatch
    -- The numeral does not begin with a `T`.
    cases digits : Nat.toDigits 10 iaid with
    | nil => exact absurd digits Nat.toDigits_ne_nil
    | cons c rest =>
      rw [digits] at numeral value
      have first : c ≠ 'T' := by
        rintro rfl
        simp [isNumeral] at numeral
      simp [first, numeral, value]

theorem unlessStar_of_ne {word : Word} (other : word ≠ star) : unlessStar word = some word :=
  if_neg other

theorem ne_star_of_unlessStar {word other : Word} (read : unlessStar word = some other) :
    other ≠ star := by
  unfold unlessStar at read
  split at read
  · exact absurd read nofun
  · rename_i named
    exact Option.some.inj read ▸ named

theorem lower_ne_star {word : Word} (named : word ≠ star) : word.lower ≠ star := by
  intro same
  have text : word.text = ['*'] := Word.lower_eq_star.mp (congrArg Word.text same)
  refine named ?_
  cases word
  cases text
  rfl

theorem unlessStar_getD {word : Option Word} (named : ∀ w, word = some w → w ≠ star) :
    unlessStar (word.getD star) = word := by
  cases word with
  | none => rfl
  | some w => exact unlessStar_of_ne (named w rfl)

theorem same_of_lineRoundTrip {line : LeaseLine} {lease : Lease}
    (read : parseLeaseLine line = some lease) :
    ∃ back, parseLeaseLine (formatLeaseLine lease) = some back ∧ back.Same lease := by
  have name : unlessStar ((unlessStar line.hostname).getD star) = unlessStar line.hostname :=
    unlessStar_getD fun _ => ne_star_of_unlessStar
  have clientNamed : ∀ w, line.clientId.bind unlessStar = some w → w ≠ star := by
    intro w found
    obtain ⟨_, -, found⟩ := Option.bind_eq_some_iff.mp found
    exact ne_star_of_unlessStar found
  unfold parseLeaseLine at read
  split at read
  · exact absurd read nofun
  · rename_i valid
    dsimp only at read
    generalize line.clientId.bind unlessStar = clientId at read clientNamed
    split at read
    · rename_i v6
      obtain ⟨⟨temporary, iaid⟩, -, rfl⟩ := Option.map_eq_some_iff.mp read
      have client : unlessStar (((clientId.map Word.lower).or clientId).getD star) = clientId.map
          Word.lower := by
        cases clientId with
        | none => rfl
        | some w => exact unlessStar_of_ne (lower_ne_star (clientNamed w rfl))
      unfold parseLeaseLine formatLeaseLine
      simp only [valid, v6, if_true, iaidMatch_iaidWord, Option.map_some, Option.bind_some,
        client, name]
      refine ⟨_, rfl, rfl, ?_, rfl⟩
      simp [Lease.identity, Function.comp_def, Word.lower_lower]
    · rename_i v4
      obtain rfl := Option.some.inj read
      unfold parseLeaseLine formatLeaseLine
      simp only [valid, v4, Option.bind_some, unlessStar_getD clientNamed, name]
      refine ⟨_, rfl, rfl, ?_, rfl⟩
      simp [Lease.identity, Word.lower_lower]

end LeaseHandover

end Cidrella
