import Cidrella.Lib.Blocks
import Cidrella.RecordNames
import Cidrella.ScanCoverage

/-!
# The two writers of `dnsmasq.conf`

`regenerateDnsmasqConf` and `applyInterfaceConfig` of `backends/dnsmasq/dnsmasq.js`. Both
read the file, drop the lines they manage, put their own block back and write the file
when the bytes differ. What they report is whether the directives differ, comments aside.

The position of either block depends on a line the other may have moved, so the lines are
taken through `Blocks.SharedLines`: what the blocks and the patterns of the two writers have
to do with each other is checked here, and the fixed point is a theorem about lists. There is
one unless queries go to an upstream that is an IPv4-mapped text: at that
`regenerateDnsmasqConf` throws (`writers_settle`).
-/

set_option autoImplicit false

namespace Cidrella

namespace Dnsmasq

open Address Blocks DnsNames

/-! ## What the writers read -/

/-- An address in `os.networkInterfaces()`. The system's texts have no line breaks. -/
structure InterfaceAddress where
  family : Family
  address : Text
  oneLine : '\n' ∉ address
  deriving DecidableEq

/-- An entry of `os.networkInterfaces()`. -/
structure SystemInterface where
  name : Text
  addresses : List InterfaceAddress
  oneLine : '\n' ∉ name
  deriving DecidableEq

/-- An entry of the setting `interface_config`: its name, and whether its fields are truthy.
An entry that is no object has none. -/
structure InterfaceChoice where
  name : Text
  dns : Bool
  dhcp : Bool
  deriving DecidableEq

/-- The settings the two writers read. `listenPort` is `Number(dns_listen_port)` where that is
a natural number. -/
structure Settings where
  dnssecEnabled : Bool
  noRecursion : Bool
  upstreamServers : List Text
  backupServers : List Text
  forwarderEncryption : Option Text
  encryptedUpstreams : List (List Text)
  interfaceConfig : List InterfaceChoice
  dnsEnabled : Bool
  dhcpEnabled : Bool
  proxyBypass : Bool
  ipv6Enabled : Bool
  listenPort : Option Nat
  deriving DecidableEq

/-- What the writers ask of the host. -/
structure Host where
  supportsDnssec : Bool
  hasDistroTrustAnchors : Bool
  interfaces : List SystemInterface
  deriving DecidableEq

/-! ## Lines -/

/-- `content.split('\n')`. -/
def linesOf (content : Text) : List Text := content.splitOn '\n'

/-- `lines.join('\n')`. -/
def contentOf (lines : List Text) : Text := ['\n'].intercalate lines

/-- `directivesOf`: what dnsmasq reads of a file. -/
def directivesOf (content : Text) : Text :=
  contentOf (((linesOf content).map trim).filter fun line => line ≠ [] && line.head? ≠ some '#')

/-- `writeIfChanged`: whether the directives changed, and the file afterwards. -/
def writeIfChanged (oldContent newContent : Text) : Bool × Text :=
  if newContent = oldContent then (false, oldContent)
  else (directivesOf newContent ≠ directivesOf oldContent, newContent)

/-! ## The lines of `regenerateDnsmasqConf` -/

/-- The characters `.` of a regular expression stands for. -/
def isDot (c : Char) : Bool := c ∉ ['\n', '\r', '\u2028', '\u2029']

/-- `/^dnssec-check-unsigned(=.*)?$/`. -/
def isCheckUnsigned (t : Text) : Bool :=
  t = "dnssec-check-unsigned".toList ||
    ("dnssec-check-unsigned=".toList.isPrefixOf t && (t.drop 22).all isDot)

/-- `/^conf-file=.*trust-anchor/i`. -/
def isTrustAnchorFile (t : Text) : Bool :=
  let lower := t.map Char.toLower
  "conf-file=".toList.isPrefixOf lower &&
    ((lower.drop 10).takeWhile isDot).tails.any ("trust-anchor".toList.isPrefixOf ·)

/-- `isManagedDnssecLine`. -/
def isManagedDnssecLine (line : Text) : Bool :=
  let t := trim line
  t = "dnssec".toList || t = "dnssec-no-timecheck".toList || isCheckUnsigned t ||
    "trust-anchor=".toList.isPrefixOf t || isTrustAnchorFile t

/-- `RESERVED_LOCAL_DOMAINS`. -/
def reservedDomains : List Text :=
  ["localhost".toList, "invalid".toList, "test".toList, "onion".toList, "resolver.arpa".toList,
    "0.in-addr.arpa".toList, "127.in-addr.arpa".toList, "254.169.in-addr.arpa".toList,
    "255.255.255.255.in-addr.arpa".toList, "2.0.192.in-addr.arpa".toList,
    "100.51.198.in-addr.arpa".toList, "113.0.203.in-addr.arpa".toList, "10.in-addr.arpa".toList] ++
  (List.range 16).map (fun i => Nat.toDigits 10 (16 + i) ++ ".172.in-addr.arpa".toList) ++
  ["168.192.in-addr.arpa".toList, (List.replicate 32 "0.".toList).flatten ++ "ip6.arpa".toList,
    "1.".toList ++ (List.replicate 31 "0.".toList).flatten ++ "ip6.arpa".toList,
    "8.e.f.ip6.arpa".toList, "9.e.f.ip6.arpa".toList, "a.e.f.ip6.arpa".toList,
    "b.e.f.ip6.arpa".toList, "8.b.d.0.1.0.0.2.ip6.arpa".toList]

/-- `SITE_LOCAL_DOMAINS`. -/
def siteDomains : List Text :=
  ["home.arpa".toList, "internal".toList, "local".toList, "d.f.ip6.arpa".toList] ++
  (List.range 64).map fun i => Nat.toDigits 10 (64 + i) ++ ".100.in-addr.arpa".toList

/-- `MANAGED_LOCAL_DOMAINS`. -/
def managedLocalDomains : List Text := reservedDomains ++ siteDomains

/-- The group of `/^local=\/([^/]+)\/$/`. -/
def localDomain (t : Text) : Option Text :=
  let rest := t.drop 7
  if "local=/".toList.isPrefixOf t && rest.getLast? = some '/' && rest.dropLast ≠ [] &&
    '/' ∉ rest.dropLast then some rest.dropLast else none

/-- `isManagedLocalAnswerLine`. -/
def isManagedLocalAnswerLine (line : Text) : Bool :=
  let t := trim line
  t = "no-hosts".toList || "local-ttl=".toList.isPrefixOf t ||
    (localDomain t).any (· ∈ managedLocalDomains)

/-- The lines `regenerateDnsmasqConf` strips. -/
def isForwardingLine (line : Text) : Bool :=
  "server=".toList.isPrefixOf line || isManagedDnssecLine line || isManagedLocalAnswerLine line

/-- `buildDnssecLines`. -/
def buildDnssecLines (host : Host) : List Text :=
  ["dnssec".toList, "dnssec-check-unsigned".toList, "dnssec-no-timecheck".toList,
    if host.hasDistroTrustAnchors then "conf-file=/usr/share/dnsmasq/trust-anchors.conf".toList
    else ("trust-anchor=.,20326,8,2," ++
      "E06D44B80B8F1D39A95C0B0D7C65D08458E880409BBC683457104237C7F8EC8D").toList]

/-- `forwardedAddresses`. -/
def forwardedAddresses (settings : Settings) : List Text :=
  if settings.noRecursion then []
  else if settings.forwarderEncryption = some "tls".toList ||
      settings.forwarderEncryption = some "https".toList then settings.encryptedUpstreams.flatten
  else settings.upstreamServers ++ settings.backupServers

/-- `isPublicAddress`. `parseNetwork` throws at the single address of an IPv4-mapped text. -/
def isPublicAddress (address : Text) : Option Bool :=
  match addressToBig address with
  | none => some false
  | some addr =>
    (parseNetwork (address ++ '/' :: Nat.toDigits 10 addr.family.bits)).map
      ScanCoverage.isGloballyRoutable

/-- An IPv4-mapped text: an address with a colon that is read as IPv4. -/
def IsMappedText (address : Text) : Prop :=
  ':' ∈ address ∧ ∃ addr, addressToBig address = some addr ∧ addr.family = .v4

/-- `addresses.every(isPublicAddress)`. -/
def everyPublic : List Text → Option Bool
  | [] => some true
  | address :: rest => do
      if ← isPublicAddress address then everyPublic rest else some false

/-- `reservedLocalDomains`. -/
def reservedLocalDomains (addresses : List Text) : Option (List Text) := do
  if ← everyPublic addresses then some (reservedDomains ++ siteDomains) else some reservedDomains

/-- A line of `reservedLocalLines`. -/
def localLine (domain : Text) : Text := "local=/".toList ++ domain ++ ['/']

/-- `LOCAL_ANSWER_LINES`. -/
def localAnswerLines : List Text := ["no-hosts".toList, "local-ttl=60".toList]

/-- The block behind `no-resolv`. -/
def forwardingBlock (settings : Settings) (domains : List Text) : List Text :=
  localAnswerLines ++ domains.map localLine ++
    if settings.noRecursion then [] else ["server=127.0.0.1#5356".toList]

/-- The block at the end. -/
def dnssecBlock (host : Host) (settings : Settings) : List Text :=
  if settings.dnssecEnabled && host.supportsDnssec then buildDnssecLines host else []

/-- `regenerateDnsmasqConf`: whether it reports a change, and the file afterwards. -/
def regenerateDnsmasqConf (host : Host) (settings : Settings) :
    Option Text → Option (Bool × Option Text)
  | none => some (false, none)
  | some content => do
      let filtered := (linesOf content).filter fun line => !isForwardingLine line
      let domains ← reservedLocalDomains (forwardedAddresses settings)
      let placed := insertAfter (fun line => trim line = "no-resolv".toList)
        (forwardingBlock settings domains) filtered
      let (changed, written) :=
          writeIfChanged content (contentOf (placed ++ dnssecBlock host settings))
      some (changed, some written)

/-! ## The lines of `applyInterfaceConfig` -/

/-- The lines `applyInterfaceConfig` strips. -/
def isInterfaceLine (line : Text) : Bool :=
  line.head? ≠ some '#' &&
    ("listen-address=".toList.isPrefixOf line || "interface=".toList.isPrefixOf line ||
      "no-dhcp-interface=".toList.isPrefixOf line || line = "bind-dynamic".toList ||
      "port=".toList.isPrefixOf line)

/-- `resolveDnsListenPort`. -/
def resolveDnsListenPort (listenPort : Option Nat) : Nat :=
  match listenPort with
  | some port => if 1 ≤ port && port ≤ 65535 then port else 53
  | none => 53

/-- `resolveDnsmasqInternalPort`. -/
def resolveDnsmasqInternalPort (lanPort : Nat) : Nat := if lanPort = 5353 then 5354 else 5353

/-- `backendDnsPort`. -/
def backendDnsPort (settings : Settings) : Option Nat :=
  if settings.dnsEnabled then
    let lan := resolveDnsListenPort settings.listenPort
    some (if settings.proxyBypass then lan else resolveDnsmasqInternalPort lan)
  else none

/-- `/^fe[89ab]/i`. -/
def isLinkLocalText (address : Text) : Bool :=
  match address.map Char.toLower with
  | 'f' :: 'e' :: c :: _ => c ∈ ['8', '9', 'a', 'b']
  | _ => false

/-- `listenableAddresses`. -/
def listenableAddresses (settings : Settings) (addresses : List InterfaceAddress) :
    List InterfaceAddress :=
  addresses.filter fun a =>
    a.family = .v4 || (settings.ipv6Enabled && a.family = .v6 && !isLinkLocalText a.address)

/-- The system's interface of a name. -/
def Host.interface? (host : Host) (name : Text) : Option SystemInterface :=
  host.interfaces.find? (·.name = name)

/-- `selectInterfaceNames('any', …)` with a configuration: the interfaces of the host it
enables, with what it says of each. -/
def selectedChoices (host : Host) (settings : Settings) :
    List (SystemInterface × InterfaceChoice) :=
  (settings.interfaceConfig.filter fun entry => entry.dns || entry.dhcp).filterMap fun entry =>
    (host.interface? entry.name).map (·, entry)

/-- `selectInterfaceNames('any', …)` without a configuration. -/
def realInterfaces (host : Host) : List SystemInterface :=
  host.interfaces.filter fun iface => iface.name ≠ "lo".toList

/-- The line `key=value`. -/
def keyLine (key : String) (value : Text) : Text := key.toList ++ '=' :: value

/-- The `listen-address` lines of an interface. -/
def listenLines (settings : Settings) (iface : SystemInterface) : List Text :=
  (listenableAddresses settings iface.addresses).map fun a => keyLine "listen-address" a.address

/-- The lines of a configured interface. -/
def choiceLines (settings : Settings) (chosen : SystemInterface × InterfaceChoice) : List Text :=
  keyLine "interface" chosen.1.name ::
    (if settings.proxyBypass && chosen.2.dns && settings.dnsEnabled
    then listenLines settings chosen.1
      else []) ++
    if !chosen.2.dhcp || !settings.dhcpEnabled then [keyLine "no-dhcp-interface" chosen.1.name]
    else []

/-- The lines of an interface on a fresh deploy. -/
def freshLines (settings : Settings) (iface : SystemInterface) : List Text :=
  (if settings.dhcpEnabled then keyLine "interface" iface.name
    else keyLine "no-dhcp-interface" iface.name) ::
    if settings.proxyBypass && settings.dnsEnabled then listenLines settings iface else []

/-- Whether loopback has an IPv6 address. -/
def hasIpv6Loopback (host : Host) : Bool :=
  (host.interface? "lo".toList).any fun lo => lo.addresses.any (·.family = .v6)

/-- `newDirectives`. -/
def interfaceBlock (host : Host) (settings : Settings) : List Text :=
  ["bind-dynamic".toList, keyLine "listen-address" "127.0.0.1".toList,
    keyLine "port" (Nat.toDigits 10 ((backendDnsPort settings).getD 0))] ++
  (if settings.ipv6Enabled && hasIpv6Loopback host then [keyLine "listen-address" "::1".toList]
    else []) ++
  if settings.interfaceConfig ≠ [] then
    (selectedChoices host settings).flatMap (choiceLines settings)
  else (realInterfaces host).flatMap (freshLines settings)

/-- `applyInterfaceConfig`: whether it reports a change, and the file afterwards. -/
def applyInterfaceConfig (host : Host) (settings : Settings) : Option Text → Bool × Option Text
  | none => (false, none)
  | some content =>
    let filtered := (linesOf content).filter fun line => !isInterfaceLine line
    let placed := insertBefore isManagedDnssecLine (interfaceBlock host settings) filtered
    let (changed, written) := writeIfChanged content (contentOf placed)
    (changed, some written)

/-- Behind public addresses only, no address of the list is an IPv4-mapped text. -/
def MappedFree (addresses : List Text) : Prop :=
  ∀ front address back, addresses = front ++ address :: back →
    (∀ other ∈ front, isPublicAddress other = some true) → ¬ IsMappedText address

/-- The lines of the file neither writer manages. -/
def unmanagedLines : Option Text → List Text
  | none => []
  | some content => (linesOf content).filter fun line => !isForwardingLine line &&
      !isInterfaceLine line

/-- Once each writer has run, neither reports a change nor touches the file, and both have kept
the lines neither manages. -/
def Settles (host : Host) (settings : Settings) (file : Option Text) : Prop :=
  ∃ changed regenerated, regenerateDnsmasqConf host settings file = some (changed, regenerated) ∧
    ∃ changed' applied, applyInterfaceConfig host settings regenerated = (changed', applied) ∧
      regenerateDnsmasqConf host settings applied = some (false, applied) ∧
      applyInterfaceConfig host settings applied = (false, applied) ∧
      unmanagedLines regenerated = unmanagedLines file ∧
      unmanagedLines applied = unmanagedLines regenerated

/-! ## Mapped texts -/

theorem parseNetwork_single {address : Text} {addr : Addr}
    (found : addressToBig address = some addr) :
    parseNetwork (address ++ '/' :: Nat.toDigits 10 addr.family.bits) =
      if ':' ∈ address ∧ addr.family = .v4 then none else networkOf addr addr.family.bits := by
  obtain ⟨prefixPart, addressPart⟩ := takeWhile_reverse_of_not_mem address
    (slash_not_mem_decimal addr.family.bits)
  have slash : '/' ∈ address ++ '/' :: Nat.toDigits 10 addr.family.bits := by simp
  have some : address ≠ [] := by
    rintro rfl
    exact absurd found nofun
  have digits : (Nat.toDigits 10 addr.family.bits).all Char.isDigit = true :=
    List.all_eq_true.mpr fun c member => isDigit_of_mem_decimal member
  have noColon : ':' ∉ Nat.toDigits 10 addr.family.bits := fun member =>
    absurd (isDigit_of_mem_decimal member) (by decide)
  have read : Text.readDigits 10 (Nat.toDigits 10 addr.family.bits) = addr.family.bits :=
    Text.readDigits_toDigits (by decide) (by decide) _
  rw [parseNetwork, if_pos slash, prefixPart, addressPart]
  simp only [readNetwork, some, Nat.toDigits_ne_nil, digits, decide_false, Bool.or_self,
    Bool.not_true, Bool.false_eq_true, if_false, found, Option.bind_eq_bind, Option.bind_some, read,
    List.mem_append, List.mem_cons, noColon, or_false, Bool.and_eq_true, decide_eq_true_eq]
  have short : ipv4Bits < 96 := by decide
  cases addr.family with
  | v4 => simp [Family.bits, short]
  | v6 => simp

/-- `isPublicAddress` throws at the mapped texts. -/
theorem isPublicAddress_eq_none_iff {address : Text} : isPublicAddress address = none ↔
    IsMappedText address := by
  rw [isPublicAddress]
  cases found : addressToBig address with
  | none => exact iff_of_false nofun fun mapped => by simp [IsMappedText, found] at mapped
  | some addr =>
    dsimp only
    rw [Option.map_eq_none_iff, parseNetwork_single found]
    split
    · rename_i mapped
      exact iff_of_true rfl ⟨mapped.1, addr, found, mapped.2⟩
    · rename_i plain
      refine iff_of_false (by simp [networkOf]) ?_
      rintro ⟨colon, other, same, four⟩
      obtain rfl := Option.some.inj (found.symm.trans same)
      exact plain ⟨colon, four⟩

theorem everyPublic_isSome_iff {addresses : List Text} :
    (everyPublic addresses).isSome = true ↔ MappedFree addresses := by
  induction addresses with
  | nil => exact iff_of_true rfl fun front address back split => absurd split.symm (by simp)
  | cons address rest ih =>
    have cons_iff : MappedFree (address :: rest) ↔
        ¬ IsMappedText address ∧ (isPublicAddress address = some true → MappedFree rest) := by
      constructor
      · refine fun free => ⟨free [] address rest rfl (by simp),
          fun isPublic front other back split all => ?_⟩
        exact free (address :: front) other back (by rw [split]; rfl)
          (List.forall_mem_cons.mpr ⟨isPublic, all⟩)
      · rintro ⟨unmapped, free⟩ front other back split all
        cases front with
        | nil => exact (List.cons.inj split).1 ▸ unmapped
        | cons first front =>
          obtain ⟨rfl, later⟩ := List.cons.inj split
          obtain ⟨isPublic, others⟩ := List.forall_mem_cons.mp all
          exact free isPublic front other back later others
    rw [cons_iff, ← isPublicAddress_eq_none_iff, everyPublic]
    cases known : isPublicAddress address with
    | none => simp
    | some isPublic => cases isPublic <;> simp [ih]

/-! ## The patterns and the blocks -/

theorem prefix_trim {front line : Text} (solid : ∀ c ∈ front, isTrimmed c = false)
    (starts : front <+: line) : front <+: trim line := by
  obtain ⟨back, rfl⟩ := starts
  cases front with
  | nil => exact List.nil_prefix
  | cons c rest =>
    have start : ((c :: rest) ++ back).dropWhile isTrimmed = (c :: rest) ++ back := by
      rw [List.cons_append, List.dropWhile_cons_of_neg]
      simp [solid c List.mem_cons_self]
    have whole : (c :: rest).rdropWhile isTrimmed = c :: rest := by
      rw [List.rdropWhile_eq_self_iff]
      intro nonempty
      simp [solid _ (List.getLast_mem nonempty)]
    rw [trim_eq_rdropWhile, start, List.rdropWhile, List.reverse_append, List.dropWhile_append]
    split
    · rw [← List.rdropWhile, whole]
    · rw [List.reverse_append, List.reverse_reverse]
      exact List.prefix_append _ _

theorem anchor_unmanaged {line : Text} (anchor : trim line = "no-resolv".toList) :
    isForwardingLine line = false ∧ isInterfaceLine line = false := by
  have starts : ∀ front : Text, (front.all fun c => !isTrimmed c) = true →
      front.isPrefixOf "no-resolv".toList = false → front.isPrefixOf line = false := by
    intro front solid other
    by_contra starts
    have kept := prefix_trim (solid_of_all solid)
      (List.isPrefixOf_iff_prefix.mp (eq_true_of_ne_false starts))
    rw [anchor, ← List.isPrefixOf_iff_prefix, other] at kept
    exact absurd kept Bool.false_ne_true
  have notBind : line ≠ "bind-dynamic".toList := by
    rintro rfl
    exact absurd anchor (by decide)
  refine ⟨?_, ?_⟩
  · rw [isForwardingLine, starts _ (by decide) (by decide), isManagedDnssecLine,
      isManagedLocalAnswerLine, anchor]
    decide
  · simp only [isInterfaceLine, Bool.and_eq_false_iff, Bool.or_eq_false_iff,
      decide_eq_false_iff_not]
    exact .inr ⟨⟨⟨⟨starts _ (by decide) (by decide), starts _ (by decide) (by decide)⟩,
      starts _ (by decide) (by decide)⟩, notBind⟩, starts _ (by decide) (by decide)⟩

theorem managedDomain_plain {domain : Text} (managed : domain ∈ managedLocalDomains) :
    domain ≠ [] ∧ ∀ c ∈ domain, c ≠ '/' ∧ isTrimmed c = false := by
  have all : (managedLocalDomains.all fun domain =>
      !domain.isEmpty && domain.all fun c => c ≠ '/' && !isTrimmed c) = true := by
    decide +kernel
  simpa using List.all_eq_true.mp all domain managed

theorem mem_localLine {domain : Text} {c : Char} :
    c ∈ localLine domain ↔ c ∈ "local=/".toList ∨ c ∈ domain ∨ c = '/' :=
  (List.mem_append.trans (or_congr List.mem_append List.mem_singleton)).trans or_assoc

theorem trim_localLine {domain : Text} (managed : domain ∈ managedLocalDomains) :
    trim (localLine domain) = localLine domain := by
  refine trim_eq_self fun c member => ?_
  obtain inKey | inDomain | rfl := mem_localLine.mp member
  · exact @solid_of_all "local=/".toList (by decide) c inKey
  · exact ((managedDomain_plain managed).2 c inDomain).2
  · rfl

theorem localDomain_localLine {domain : Text} (managed : domain ∈ managedLocalDomains) :
    localDomain (localLine domain) = some domain := by
  obtain ⟨nonempty, plain⟩ := managedDomain_plain managed
  have noSlash : '/' ∉ domain := fun member => (plain '/' member).1 rfl
  have rest : (localLine domain).drop 7 = domain ++ ['/'] := rfl
  have starts : "local=/".toList.isPrefixOf (localLine domain) = true :=
    List.isPrefixOf_iff_prefix.mpr ⟨domain ++ ['/'], (List.append_assoc _ _ _).symm⟩
  rw [localDomain, starts, rest, List.getLast?_concat, List.dropLast_concat]
  simp [nonempty, noSlash]

theorem forwardingBlock_managed {settings : Settings} {domains : List Text}
    (managed : ∀ domain ∈ domains, domain ∈ managedLocalDomains) {line : Text}
    (member : line ∈ forwardingBlock settings domains) :
    isForwardingLine line = true ∧ isInterfaceLine line = false ∧ isManagedDnssecLine line = false ∧
      '\n' ∉ line := by
  simp only [forwardingBlock, List.mem_append, List.mem_map] at member
  obtain (answer | ⟨domain, listed, rfl⟩) | server := member
  · revert line
    decide
  · have known := managed domain listed
    refine ⟨?_, rfl, ?_, ?_⟩
    · rw [isForwardingLine, isManagedLocalAnswerLine, trim_localLine known,
        localDomain_localLine known]
      simp [known]
    · rw [isManagedDnssecLine, trim_localLine known]
      rfl
    · intro member
      obtain inKey | inDomain | slash := mem_localLine.mp member
      · exact absurd inKey (by decide)
      · exact absurd ((managedDomain_plain known).2 _ inDomain).2 (by decide)
      · exact absurd slash (by decide)
  · split at server
    · exact absurd server List.not_mem_nil
    · rw [List.mem_singleton.mp server]
      decide

theorem dnssecBlock_managed {host : Host} {settings : Settings} {line : Text}
    (member : line ∈ dnssecBlock host settings) :
    isManagedDnssecLine line = true ∧ isInterfaceLine line = false ∧ '\n' ∉ line := by
  rw [dnssecBlock] at member
  split at member
  · rw [buildDnssecLines] at member
    cases distro : host.hasDistroTrustAnchors with
    | true =>
      rw [distro] at member
      revert line
      decide
    | false =>
      rw [distro] at member
      revert line
      decide
  · exact absurd member List.not_mem_nil

/-- The keys of the lines `applyInterfaceConfig` writes. -/
def interfaceKeys : List String := ["listen-address", "interface", "no-dhcp-interface", "port"]

/-- The shape of the lines `applyInterfaceConfig` writes. -/
inductive IsInterfaceDirective : Text → Prop where
  | bind : IsInterfaceDirective "bind-dynamic".toList
  | keyed {key : String} {value : Text} (known : key ∈ interfaceKeys) (oneLine : '\n' ∉ value) :
      IsInterfaceDirective (keyLine key value)

theorem directive_of_mem_listenLines {settings : Settings} {iface : SystemInterface} {line : Text}
    (member : line ∈ listenLines settings iface) : IsInterfaceDirective line := by
  obtain ⟨a, -, rfl⟩ := List.mem_map.mp member
  exact .keyed (by decide) a.oneLine

theorem directive_of_mem_choiceLines {settings : Settings}
    {chosen : SystemInterface × InterfaceChoice} {line : Text}
    (member : line ∈ choiceLines settings chosen) : IsInterfaceDirective line := by
  simp only [choiceLines, List.mem_append, List.mem_cons] at member
  obtain (rfl | listens) | quiet := member
  · exact .keyed (by decide) chosen.1.oneLine
  · split at listens
    · exact directive_of_mem_listenLines listens
    · exact absurd listens List.not_mem_nil
  · split at quiet
    · rw [List.mem_singleton.mp quiet]
      exact .keyed (by decide) chosen.1.oneLine
    · exact absurd quiet List.not_mem_nil

theorem directive_of_mem_freshLines {settings : Settings} {iface : SystemInterface} {line : Text}
    (member : line ∈ freshLines settings iface) : IsInterfaceDirective line := by
  simp only [freshLines, List.mem_cons] at member
  obtain rfl | listens := member
  · split
    · exact .keyed (by decide) iface.oneLine
    · exact .keyed (by decide) iface.oneLine
  · split at listens
    · exact directive_of_mem_listenLines listens
    · exact absurd listens List.not_mem_nil

theorem directive_of_mem_interfaceBlock {host : Host} {settings : Settings} {line : Text}
    (member : line ∈ interfaceBlock host settings) : IsInterfaceDirective line := by
  simp only [interfaceBlock, List.mem_append, List.mem_cons, List.not_mem_nil, or_false] at member
  obtain ((rfl | rfl | rfl) | loopback) | interfaces := member
  · exact .bind
  · exact .keyed (by decide) (by decide)
  · exact .keyed (by decide) fun member => absurd (isDigit_of_mem_decimal member) (by decide)
  · split at loopback
    · rw [List.mem_singleton.mp loopback]
      exact .keyed (by decide) (by decide)
    · exact absurd loopback List.not_mem_nil
  · split at interfaces
    · obtain ⟨chosen, -, inChoice⟩ := List.mem_flatMap.mp interfaces
      exact directive_of_mem_choiceLines inChoice
    · obtain ⟨iface, -, inFresh⟩ := List.mem_flatMap.mp interfaces
      exact directive_of_mem_freshLines inFresh

theorem isForwardingLine_keyLine {key : String} {value : Text} (solid : ∀ c ∈ key.toList,
    isTrimmed c = false) (notServer : "server=".toList.isPrefixOf (keyLine key value) = false)
    (notDnssec : ∀ line rest, trim line = key.toList ++ rest → isManagedDnssecLine line = false)
    (notLocal : ∀ line rest, trim line = key.toList ++ rest →
    isManagedLocalAnswerLine line = false) :
    isForwardingLine (keyLine key value) = false := by
  have starts : key.toList <+: keyLine key value := ⟨'=' :: value, rfl⟩
  obtain ⟨rest, same⟩ := prefix_trim solid starts
  rw [isForwardingLine, notServer, notDnssec _ rest same.symm, notLocal _ rest same.symm]
  rfl

/-- A line of the second writer is one it strips, and none of the first writer's. -/
theorem IsInterfaceDirective.managed {line : Text} (directive : IsInterfaceDirective line) :
    isInterfaceLine line = true ∧ isForwardingLine line = false ∧ '\n' ∉ line := by
  cases directive with
  | bind => decide
  | @keyed key value known oneLine =>
    have keyPlain : ∀ key ∈ interfaceKeys, '\n' ∉ key.toList ∧
        (key.toList.all fun c => !isTrimmed c) = true := by
      decide
    obtain ⟨keyOneLine, keySolid⟩ := keyPlain key known
    have solid := solid_of_all keySolid
    have lineOneLine : '\n' ∉ keyLine key value := by
      rw [keyLine, List.mem_append, List.mem_cons]
      rintro (inKey | isEquals | inValue)
      · exact keyOneLine inKey
      · exact absurd isEquals (by decide)
      · exact oneLine inValue
    refine ⟨?_, ?_, lineOneLine⟩
    · simp only [interfaceKeys, List.mem_cons, List.not_mem_nil, or_false] at known
      obtain rfl | rfl | rfl | rfl := known <;> rfl
    · refine isForwardingLine_keyLine solid ?_ (fun line rest same => ?_) fun line rest same => ?_
      · simp only [interfaceKeys, List.mem_cons, List.not_mem_nil, or_false] at known
        obtain rfl | rfl | rfl | rfl := known <;> rfl
      · rw [isManagedDnssecLine, same]
        simp only [interfaceKeys, List.mem_cons, List.not_mem_nil, or_false] at known
        obtain rfl | rfl | rfl | rfl := known <;> rfl
      · rw [isManagedLocalAnswerLine, same]
        simp only [interfaceKeys, List.mem_cons, List.not_mem_nil, or_false] at known
        obtain rfl | rfl | rfl | rfl := known <;> rfl

/-! ## The fixed point -/

/-- `reservedLocalDomains` yields managed domains. -/
theorem managed_of_reservedLocalDomains {addresses domains : List Text}
    (done : reservedLocalDomains addresses = some domains) :
    ∀ domain ∈ domains, domain ∈ managedLocalDomains := by
  obtain ⟨everyOne, -, picked⟩ := Option.bind_eq_some_iff.mp done
  cases everyOne with
  | true =>
    cases picked
    exact fun domain member => member
  | false =>
    cases picked
    exact fun domain member => List.mem_append_left _ member

/-- The two writers as writers of one list of lines. -/
def sharedLines (host : Host) (settings : Settings) {domains : List Text}
    (managed : ∀ domain ∈ domains, domain ∈ managedLocalDomains) : SharedLines Text where
  upper := isForwardingLine
  lower := isInterfaceLine
  anchor := fun line => trim line = "no-resolv".toList
  closing := isManagedDnssecLine
  head := forwardingBlock settings domains
  middle := interfaceBlock host settings
  tail := dnssecBlock host settings
  anchor_upper := fun _ anchor => (anchor_unmanaged (of_decide_eq_true anchor)).1
  anchor_lower := fun _ anchor => (anchor_unmanaged (of_decide_eq_true anchor)).2
  closing_upper := fun line closes => by simp [isForwardingLine, closes]
  head_upper := fun _ member => (forwardingBlock_managed managed member).1
  head_lower := fun _ member => (forwardingBlock_managed managed member).2.1
  head_closing := fun _ member => (forwardingBlock_managed managed member).2.2.1
  middle_lower := fun _ member => (directive_of_mem_interfaceBlock member).managed.1
  middle_upper := fun _ member => (directive_of_mem_interfaceBlock member).managed.2.1
  tail_closing := fun _ member => (dnssecBlock_managed member).1
  tail_lower := fun _ member => (dnssecBlock_managed member).2.1

theorem linesOf_contentOf {lines : List Text} (some : lines ≠ []) (oneLine : ∀ line ∈ lines,
    '\n' ∉ line) :
    linesOf (contentOf lines) = lines :=
  List.splitOn_intercalate '\n' oneLine some

theorem oneLine_of_mem_linesOf {content line : Text} (member : line ∈ linesOf content) :
    '\n' ∉ line :=
  Text.not_mem_of_mem_splitOn member

theorem writeIfChanged_snd (oldContent newContent : Text) :
    (writeIfChanged oldContent newContent).2 = newContent := by
  rw [writeIfChanged]
  split
  · exact Eq.symm ‹_›
  · rfl

theorem writeIfChanged_self (content : Text) : writeIfChanged content content = (false, content) :=
  if_pos rfl

section Runs

variable {host : Host} {settings : Settings} {domains : List Text}
  (managed : ∀ domain ∈ domains, domain ∈ managedLocalDomains)

theorem regenerateDnsmasqConf_some
    (found : reservedLocalDomains (forwardedAddresses settings) = some domains) (content : Text) :
    regenerateDnsmasqConf host settings (some content) =
      some (Prod.map id some (writeIfChanged content
        (contentOf ((sharedLines host settings managed).writeUpper (linesOf content))))) := by
  rw [regenerateDnsmasqConf, found]
  rfl

theorem applyInterfaceConfig_some (content : Text) :
    applyInterfaceConfig host settings (some content) =
      Prod.map id some (writeIfChanged content
        (contentOf ((sharedLines host settings managed).writeLower (linesOf content)))) :=
  rfl

theorem linesOf_writeUpper (content : Text) :
    linesOf (contentOf ((sharedLines host settings managed).writeUpper (linesOf content))) =
      (sharedLines host settings managed).writeUpper (linesOf content) := by
  refine linesOf_contentOf (fun none => ?_) fun line member => ?_
  · have first : "no-hosts".toList ∈ (sharedLines host settings managed).writeUpper
      (linesOf content) :=
      List.mem_append_left _ (List.mem_append_left _ (List.mem_append_right _ List.mem_cons_self))
    rw [none] at first
    exact absurd first List.not_mem_nil
  · obtain placed | inTail := List.mem_append.mp member
    · obtain inHead | kept := mem_insertAfter placed
      · exact (forwardingBlock_managed managed inHead).2.2.2
      · exact oneLine_of_mem_linesOf (List.mem_of_mem_filter kept)
    · exact (dnssecBlock_managed inTail).2.2

theorem linesOf_writeLower {lines : List Text} (oneLine : ∀ line ∈ lines, '\n' ∉ line) :
    linesOf (contentOf ((sharedLines host settings managed).writeLower lines)) =
      (sharedLines host settings managed).writeLower lines := by
  refine linesOf_contentOf (fun none => ?_) fun line member => ?_
  · have first : "bind-dynamic".toList ∈ (sharedLines host settings managed).writeLower lines :=
      List.mem_append_left _ (List.mem_append_right _ List.mem_cons_self)
    rw [none] at first
    exact absurd first List.not_mem_nil
  · obtain inMiddle | kept := mem_splice member
    · exact (directive_of_mem_interfaceBlock inMiddle).managed.2.2
    · exact oneLine line (List.mem_of_mem_filter kept)

end Runs

variable {host : Host} {settings : Settings}

theorem unmanagedLines_regenerate {file written : Option Text} {changed : Bool}
    (ran : regenerateDnsmasqConf host settings file = some (changed, written)) :
    unmanagedLines written = unmanagedLines file := by
  cases file with
  | none =>
    cases ran
    rfl
  | some content =>
    obtain ⟨domains, found, -⟩ := Option.bind_eq_some_iff.mp ran
    have managed := managed_of_reservedLocalDomains found
    rw [regenerateDnsmasqConf_some managed found] at ran
    have now : _ = written := congrArg Prod.snd (Option.some.inj ran)
    rw [Prod.map_snd, writeIfChanged_snd] at now
    rw [← now, unmanagedLines, linesOf_writeUpper]
    exact (sharedLines host settings managed).free_writeUpper (linesOf content)

theorem unmanagedLines_applyInterfaceConfig (file : Option Text) :
    unmanagedLines (applyInterfaceConfig host settings file).2 = unmanagedLines file := by
  cases file with
  | none => rfl
  | some content =>
    have managed : ∀ domain ∈ ([] : List Text), domain ∈ managedLocalDomains := fun _ member =>
      absurd member List.not_mem_nil
    rw [applyInterfaceConfig_some managed, Prod.map_snd, writeIfChanged_snd, unmanagedLines,
      linesOf_writeLower managed fun line => oneLine_of_mem_linesOf]
    exact (sharedLines host settings managed).free_writeLower (linesOf content)

/-- Writers that have run share a fixed point. -/
theorem settled_of_ran {file regenerated applied : Option Text} {changed changed' : Bool}
    (ran : regenerateDnsmasqConf host settings file = some (changed, regenerated))
    (next : applyInterfaceConfig host settings regenerated = (changed', applied)) :
    regenerateDnsmasqConf host settings applied = some (false, applied) ∧
      applyInterfaceConfig host settings applied = (false, applied) ∧
      unmanagedLines regenerated = unmanagedLines file ∧
      unmanagedLines applied = unmanagedLines regenerated := by
  have kept : unmanagedLines applied = unmanagedLines regenerated := by
    have same := @unmanagedLines_applyInterfaceConfig host settings regenerated
    rwa [next] at same
  suffices settled : regenerateDnsmasqConf host settings applied = some (false, applied) ∧
      applyInterfaceConfig host settings applied = (false, applied) from
    ⟨settled.1, settled.2, unmanagedLines_regenerate ran, kept⟩
  cases file with
  | none =>
    cases ran
    cases next
    exact ⟨rfl, rfl⟩
  | some content =>
    obtain ⟨domains, found, -⟩ := Option.bind_eq_some_iff.mp ran
    have managed := managed_of_reservedLocalDomains found
    let shared := sharedLines host settings managed
    rw [regenerateDnsmasqConf_some managed found] at ran
    have first : _ = regenerated := congrArg Prod.snd (Option.some.inj ran)
    rw [Prod.map_snd, writeIfChanged_snd] at first
    rw [← first, applyInterfaceConfig_some managed, linesOf_writeUpper,
      SharedLines.writeLower_writeUpper] at next
    have second : _ = applied := congrArg Prod.snd next
    rw [Prod.map_snd, writeIfChanged_snd] at second
    rw [← second]
    have lines : linesOf (contentOf (shared.settled (linesOf content))) = shared.settled
        (linesOf content) := by
      have upperLines := @linesOf_writeUpper host settings domains managed content
      rw [← SharedLines.writeLower_writeUpper]
      refine linesOf_writeLower managed fun line member => ?_
      rw [← upperLines] at member
      exact oneLine_of_mem_linesOf member
    refine ⟨?_, ?_⟩
    · rw [regenerateDnsmasqConf_some managed found, lines, SharedLines.writeUpper_settled,
        writeIfChanged_self]
      rfl
    · rw [applyInterfaceConfig_some managed, lines, SharedLines.writeLower_settled,
        writeIfChanged_self]
      rfl

/-- **The two writers share a fixed point** exactly where there is no file, or no upstream that
queries go to is an IPv4-mapped text; at such a text the first writer throws. -/
theorem writers_settle (host : Host) (settings : Settings) (file : Option Text) :
    Settles host settings file ↔
    (file.isSome = true → MappedFree (forwardedAddresses settings)) := by
  constructor
  · rintro ⟨changed, regenerated, ran, -⟩ there
    obtain ⟨content, rfl⟩ := Option.isSome_iff_exists.mp there
    obtain ⟨domains, found, -⟩ := Option.bind_eq_some_iff.mp ran
    obtain ⟨everyOne, all, -⟩ := Option.bind_eq_some_iff.mp found
    exact everyPublic_isSome_iff.mp (Option.isSome_iff_exists.mpr ⟨everyOne, all⟩)
  · intro free
    have ran : ∃ written, regenerateDnsmasqConf host settings file = some written := by
      cases file with
      | none => exact ⟨_, rfl⟩
      | some content =>
        obtain ⟨everyOne, all⟩ :=
          Option.isSome_iff_exists.mp (everyPublic_isSome_iff.mpr (free rfl))
        rw [regenerateDnsmasqConf, reservedLocalDomains, all]
        cases everyOne <;> exact ⟨_, rfl⟩
    obtain ⟨⟨changed, regenerated⟩, ran⟩ := ran
    exact ⟨changed, regenerated, ran, _, _, rfl, settled_of_ran ran rfl⟩

/-- A host with one interface besides loopback, and dnsmasq with DNSSEC. -/
def sampleHost : Host where
  supportsDnssec := true
  hasDistroTrustAnchors := true
  interfaces := [⟨"lo".toList, [⟨.v4, "127.0.0.1".toList, by decide⟩], by decide⟩,
    ⟨"eth0".toList, [⟨.v4, "192.168.1.2".toList, by decide⟩], by decide⟩]

/-- DNSSEC on, one public upstream, DNS in front of dnsmasq switched off. -/
def sampleSettings : Settings where
  dnssecEnabled := true
  noRecursion := false
  upstreamServers := ["9.9.9.9".toList]
  backupServers := []
  forwarderEncryption := none
  encryptedUpstreams := []
  interfaceConfig := [⟨"eth0".toList, true, true⟩]
  dnsEnabled := true
  dhcpEnabled := true
  proxyBypass := true
  ipv6Enabled := false
  listenPort := some 53

/-- A file with lines of either writer in the wrong places. -/
def sampleContent : Text :=
  "dnssec\nport=5353\n# kept\n no-resolv\nserver=9.9.9.9\ncache-size=0\n".toList

theorem writers_settle_sample : Settles sampleHost sampleSettings (some sampleContent) := by
  refine (writers_settle sampleHost sampleSettings (some sampleContent)).mpr fun _ => ?_
  exact everyPublic_isSome_iff.mp (by decide +kernel)

/-- An encrypted upstream that is written as an IPv4-mapped address. -/
def mappedSettings : Settings :=
  { sampleSettings with
    forwarderEncryption := some "tls".toList
    encryptedUpstreams := [["::ffff:8.8.8.8".toList]] }

/-- **A mapped upstream stops the first writer** every time: it throws before anything is
written. -/
theorem mapped_upstream_throws :
    ¬ Settles sampleHost mappedSettings (some "no-resolv\n".toList) := by
  rintro ⟨changed, regenerated, ran, -⟩
  have throws : regenerateDnsmasqConf sampleHost mappedSettings (some "no-resolv\n".toList) =
      none := by
    decide +kernel
  exact absurd (throws.symm.trans ran) nofun

end Dnsmasq

end Cidrella
