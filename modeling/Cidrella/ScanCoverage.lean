import Cidrella.Db

/-!
# Which addresses the scanner will probe

`utils/scan-coverage.js`, the one definition the scheduler and the passive staleness
sweep share, and `isGloballyRoutableCidr` of `utils/ip.js`.
-/

set_option autoImplicit false

namespace Cidrella

namespace ScanCoverage

/-- The keys of `INTERVAL_MS` that mean "do scan". -/
def scanningIntervalKeys : List Text :=
  ["5m".toList, "15m".toList, "30m".toList, "1h".toList, "4h".toList]

/-- `MAX_SCAN_SIZE`. -/
def maxScanSize : Nat := 4096

/-- SQLite's `TRIM`, which removes spaces only. -/
def sqlTrim (text : Text) : Text :=
  ((text.dropWhile (· = ' ')).reverse.dropWhile (· = ' ')).reverse

/-- `scanEnabledSql`: the network's own switch, then the default setting, then on. -/
def scanEnabled (env : Env) (subnet : SubnetInfo) : Bool :=
  subnet.scanEnabled.getD
    (if env.settings.defaultScanEnabled = some "0".toList ||
      env.settings.defaultScanEnabled = some "false".toList then false else true)

/-- The interval arm of `scannerCoveredSql`. -/
def scansAtInterval (interval : Option Text) : Bool :=
  interval.any fun text =>
    let trimmed := sqlTrim text
    trimmed ∈ scanningIntervalKeys ||
      (trimmed ≠ [] && trimmed.all Char.isDigit && 0 < Text.readDigits 10 trimmed)

/-- `scannerCoveredSql`. An IPv6 scan never echoes the network's anycast address. -/
def scannerCovered (env : Env) (subnet : SubnetRow) (ip : IpInfo) : Bool :=
  subnet.info.status = .allocated &&
  (subnet.key.family = .v6 || subnet.key.sizeBig ≤ maxScanSize) &&
  scanEnabled env subnet.info &&
  scansAtInterval (subnet.info.scanInterval <|> env.settings.defaultScanInterval) &&
  ip.scanEnabled ≠ some false &&
  (subnet.key.family ≠ .v6 || ip.allocationState ≠ .system)

/-- `NON_GLOBAL_IPV4_RANGES` and `NON_GLOBAL_IPV6_RANGES`. -/
def nonGlobalRanges : Family → List Text
  | .v4 =>
    ["0.0.0.0/8".toList, "10.0.0.0/8".toList, "100.64.0.0/10".toList, "127.0.0.0/8".toList,
      "169.254.0.0/16".toList, "172.16.0.0/12".toList, "192.0.0.0/24".toList,
      "192.0.2.0/24".toList, "192.168.0.0/16".toList, "198.18.0.0/15".toList,
      "198.51.100.0/24".toList, "203.0.113.0/24".toList, "224.0.0.0/4".toList,
      "240.0.0.0/4".toList]
  | .v6 =>
    ["::/128".toList, "::1/128".toList, "::ffff:0:0/96".toList, "fc00::/7".toList,
      "fe80::/10".toList, "ff00::/8".toList, "2001:db8::/32".toList]

/-- `isGloballyRoutableCidr`. -/
def isGloballyRoutable (net : Network) : Bool :=
  !(nonGlobalRanges net.family).any fun range => (parseNetwork range).any (net.overlaps ·)

/-- `isAutomaticScanAllowed`: public networks are scanned only by name. -/
def isAutomaticScanAllowed (env : Env) (subnet : SubnetRow) : Bool :=
  if subnet.key.family = .v6 && !env.settings.ipv6Enabled then false
  else subnet.info.scanEnabled = some true || !isGloballyRoutable subnet.key

end ScanCoverage

end Cidrella
