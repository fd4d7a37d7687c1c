import Cidrella.Lib.FloorSearch
import Cidrella.Lib.Framing
import Cidrella.Lib.JsonText
import Cidrella.Lib.Layout
import Cidrella.Lib.TypedArrays
import Cidrella.Lib.Utf8
import Cidrella.Network

/-!
# The city table

`utils/geo-cities.js`: the file format of city-level places and the lookup in it. A table
holds rows of address blocks, IPv4 /22 and IPv6 /40, each with a place. The encoder lays the
rows of a family out as four arrays, with gaps between the rows filled in, behind a header in
JSON that says where the arrays start; the decoder reads the header and views the arrays, and
a lookup searches the starts.

A loop that is still running has no result (`floorIndex`, `cityPlaceIn`).
-/

set_option autoImplicit false

namespace Cidrella

open Address Layout TypedArrays

/-- `FAMILIES[family].blockBits`. -/
def Family.blockBits : Family → Nat
  | .v4 => 22
  | .v6 => 40

/-- How many bits of an address its block leaves out. -/
def Family.shift (family : Family) : Nat := family.bits - family.blockBits

/-- The family's name in the header. -/
def Family.name : Family → Text
  | .v4 => ['4']
  | .v6 => ['6']

namespace GeoCities

/-! ## Tables -/

/-- A run of blocks with a place, latitude and longitude in hundredths of a degree. -/
structure Row where
  start : Nat
  stop : Nat
  country : Text
  lat : Int
  lon : Int

/-- The row has a block. -/
def Row.has (block : Nat) (row : Row) : Bool := row.start ≤ block && block ≤ row.stop

/-- A row of a finished table: blocks of the family, a country of two letters, and degrees of
sixteen bits. -/
structure Row.Valid (family : Family) (row : Row) : Prop where
  ordered : row.start ≤ row.stop
  within : row.stop < 2 ^ family.blockBits
  letters : ∃ first second, row.country = [first, second] ∧ first.isUpper = true ∧
    second.isUpper = true
  latitude : -2 ^ 15 ≤ row.lat ∧ row.lat < 2 ^ 15
  longitude : -2 ^ 15 ≤ row.lon ∧ row.lon < 2 ^ 15

/-- The rows of a family, as a finished table has them: ascending and disjoint. -/
structure Rows (family : Family) where
  rows : List Row
  valid : ∀ row ∈ rows, row.Valid family
  ascending : rows.Pairwise fun row later => row.stop < later.start

/-- A finished table. -/
structure Table where
  v4 : Rows .v4
  v6 : Rows .v6

/-- `table[family]`. -/
def Table.of (table : Table) : (family : Family) → Rows family
  | .v4 => table.v4
  | .v6 => table.v6

/-! ## Columns -/

/-- A row as it is stored: a gap has no place. -/
structure StoredRow where
  start : Nat
  stop : Nat
  country : Option Text := none
  lat : Option Int := none
  lon : Option Int := none

/-- A row with its place. -/
def Row.stored (row : Row) : StoredRow := ⟨row.start, row.stop, row.country, row.lat, row.lon⟩

/-- A row behind those before it, with the gap between filled in. -/
def addRow (out : List StoredRow) (row : Row) : List StoredRow :=
  let gap : List StoredRow :=
    match out.getLast? with
    | some prev => if prev.stop + 1 < row.start
        then [{ start := prev.stop + 1, stop := row.start - 1 }] else []
    | none => []
  out ++ gap ++ [row.stored]

/-- The rows with the gaps filled in, up to the family's last block. -/
def fillGaps (family : Family) (rows : List Row) : List StoredRow :=
  let out := rows.foldl addRow []
  let lastBlock := 2 ^ family.blockBits - 1
  match out.getLast? with
  | some last => if last.stop < lastBlock then out ++
      [{ start := last.stop + 1, stop := lastBlock }] else out
  | none => out

/-- `countryCode(cc)`: two letters in two bytes, or zero. -/
def countryCode : Option Text → Nat
  | some (first :: second :: _) => first.toNat <<< 8 ||| second.toNat
  | some [first] => first.toNat <<< 8
  | _ => 0

/-- A typed array: the width of its numbers in bytes, and their bits. -/
structure TypedArray where
  size : Nat
  numbers : List Nat

/-- The array's buffer. -/
def TypedArray.bytes (a : TypedArray) : Bytes := a.numbers.flatMap (bytesLE a.size)

/-- `a.byteLength`. -/
def TypedArray.byteLength (a : TypedArray) : Nat := a.size * a.numbers.length

/-- The arrays of a family. -/
structure Columns where
  starts : TypedArray
  countries : TypedArray
  lats : TypedArray
  lons : TypedArray

/-- The bytes of a start: an IPv4 start is stored as an address, in 32 bits. -/
def startSize : Family → Nat
  | .v4 => 4
  | .v6 => 8

/-- The bits of a start. An IPv6 start is stored as the number of its block, in floating
point. -/
def startBits (family : Family) (start : Nat) : Nat :=
  match family with
  | .v4 => start * 2 ^ family.shift % 2 ^ 32
  | .v6 => bitsOfNat start

/-- `toColumns(family, rows)`. -/
def toColumns (family : Family) (rows : List Row) : Columns :=
  let out := fillGaps family rows
  { starts := ⟨startSize family, out.map fun row => startBits family row.start⟩
    countries := ⟨2, out.map fun row => countryCode row.country % 2 ^ 16⟩
    lats := ⟨2, out.map fun row => ofInt16 (row.lat.getD 0)⟩
    lons := ⟨2, out.map fun row => ofInt16 (row.lon.getD 0)⟩ }

/-- The sections of a family, in their order in the file. -/
def Columns.sections (c : Columns) : List TypedArray := [c.starts, c.countries, c.lats, c.lons]

/-- The sections of a table. -/
def sections (table : Table) : List TypedArray :=
  (toColumns .v4 (table.of .v4).rows).sections ++ (toColumns .v6 (table.of .v6).rows).sections

/-! ## The header -/

/-- `align8(n)`. -/
def align8 (n : Nat) : Nat := (n + 7) / 8 * 8

/-- A natural number. -/
def natural (n : Nat) : Json := .number (Json.decimal n)

/-- The members that the encoder sets behind the facts. -/
inductive Field where
  | format
  | families
  | offsets
  | length
  deriving DecidableEq

/-- A field's name. -/
def Field.name : Field → Text
  | format => "format".toList
  | families => "families".toList
  | offsets => "offsets".toList
  | length => "length".toList

/-- What every file says about itself. -/
def standardFacts : List (Text × Json) :=
  [(Field.format.name, natural 1),
    ("source".toList, .string "DB-IP City Lite".toList),
    ("license".toList, .string "CC BY 4.0".toList),
    ("attribution".toList, .string "IP Geolocation by DB-IP".toList),
    ("cellKm".toList, natural 100)]

/-- What the header says about a family. -/
def familyHeader (family : Family) (rows : Nat) : Json :=
  .object
    [("rows".toList, natural rows),
      ("blockBits".toList, natural family.blockBits),
      ("sections".toList,
        .array [.string "starts".toList, .string "countries".toList, .string "lats".toList, .string
        "lons".toList])]

/-- The header before its offsets are known. -/
def bareHeader (table : Table) (facts : List (Text × Json)) : List (Text × Json) :=
  Json.put (Json.spread standardFacts facts) Field.families.name
    (.object
      [(Family.v4.name, familyHeader .v4 (toColumns .v4 (table.of .v4).rows).starts.numbers.length),
        (Family.v6.name,
        familyHeader .v6 (toColumns .v6 (table.of .v6).rows).starts.numbers.length)])

/-- A header as it stands in the file. -/
def headerBytes (header : List (Text × Json)) : Bytes :=
  Utf8.encode (Json.stringify (.object header))

/-- Where the sections start behind a header. -/
def firstOffset (header : List (Text × Json)) : Nat := align8 (8 + 4 + (headerBytes header).length)

/-- A header with the offsets of sections that start at `offset`. -/
def setOffsets (sizes : List Nat) (header : List (Text × Json)) (offset : Nat) :
    List (Text × Json) :=
  Json.put
    (Json.put header Field.offsets.name (.array ((offsetsFrom align8 offset sizes).map natural)))
    Field.length.name (natural (endFrom align8 offset sizes))

/-! ## Encoding -/

/-- `MAGIC`. -/
def magic : Text := "CIDRGEO1".toList

/-- `encodeCityTable(table, facts)`, if it does not throw. The offsets are settled in two
passes, each from the length of the header before it. -/
def encodeCityTable (table : Table) (facts : List (Text × Json)) : Option Bytes :=
  let parts := sections table
  let sizes := parts.map TypedArray.byteLength
  let bare := bareHeader table facts
  let first := setOffsets sizes bare (firstOffset bare)
  let offset := firstOffset first
  let header := headerBytes (setOffsets sizes first offset)
  let length := endFrom align8 offset sizes
  -- `writeUInt32LE` throws for a number or a place out of range
  if header.length < 2 ^ 32 ∧ 8 + 4 ≤ length then
    some (copyAll (List.replicate length 0)
      ((0, magic.map fun c => UInt8.ofNat c.toNat) :: (8, bytesLE 4 header.length) ::
        (8 + 4, header) :: (offsetsFrom align8 offset sizes).zip (parts.map TypedArray.bytes)))
  else none

/-! ## Decoding -/

/-- The arrays of a family as they are read. -/
structure CityColumns where
  starts : List Double
  countries : List Nat
  lats : List Int
  lons : List Int

/-- A table as it is read. -/
structure CityTable where
  header : Json
  v4 : CityColumns
  v6 : CityColumns

/-- `table.families[family]`. -/
def CityTable.families (table : CityTable) : Family → CityColumns
  | .v4 => table.v4
  | .v6 => table.v6

/-- The bytes as `toString('ascii')` shows them: the highest bit is left out. -/
def asciiText (bytes : Bytes) : Text := bytes.map fun byte => Char.ofNat (byte.toNat % 128)

/-- `buf.readUInt32LE(offset)`. -/
def readUInt32LE (buf : Bytes) (offset : Nat) : Option Nat :=
  if offset + 4 ≤ buf.length then some (numberLE (slice buf offset 4)) else none

/-- `value === n`. -/
def isNumber (n : Nat) : Option Json → Bool
  | some (.number numeral) => numeral.value = n
  | _ => false

/-- A number that an array is indexed or measured with. What is no number, which the encoder
never writes there, is none. -/
def toIndex : Json → Option Nat
  | .number numeral => if 0 ≤ numeral.value then some numeral.value.floor.toNat else none
  | _ => none

/-- `values[i]`. -/
def item? (i : Nat) : Json → Option Json
  | .array items => items[i]?
  | _ => none

/-- `new Type(bytes.buffer, offset, rows)`, for numbers of `size` bytes. -/
def view (size : Nat) (buf : Bytes) (offset rows : Nat) : Option (List Nat) :=
  if offset % size = 0 ∧ offset + size * rows ≤ buf.length then
    some (elements size rows (slice buf offset (size * rows)))
  else none

/-- A start as it is read. -/
def startOf (family : Family) (number : Nat) : Double :=
  match family with
  | .v4 => .finite number
  | .v6 => ofBits number

/-- The arrays of a family, its sections being `section` and the three that follow. -/
def viewFamily (family : Family) (buf : Bytes) (header : Json) (firstSection : Nat) :
    Option CityColumns := do
  let rows ← (((header.get? Field.families.name).bind (Json.get? family.name)).bind
    (Json.get? "rows".toList)).bind toIndex
  let offset := fun i => ((header.get? Field.offsets.name).bind (item? (firstSection + i))).bind
      toIndex
  let starts ← view (startSize family) buf (← offset 0) rows
  let countries ← view 2 buf (← offset 1) rows
  let lats ← view 2 buf (← offset 2) rows
  let lons ← view 2 buf (← offset 3) rows
  some ⟨starts.map (startOf family), countries, lats.map toInt16, lons.map toInt16⟩

/-- `decodeCityTable(buf)`, if it does not throw. -/
def decodeCityTable (buf : Bytes) : Option CityTable :=
  if asciiText (slice buf 0 8) = magic then do
    let headerLength ← readUInt32LE buf 8
    let header ← Json.parse (Utf8.decode (slice buf (8 + 4) headerLength))
    if isNumber 1 (header.get? Field.format.name) && isNumber buf.length
        (header.get? Field.length.name) then do
      let v4 ← viewFamily .v4 buf header 0
      let v6 ← viewFamily .v6 buf header 4
      some ⟨header, v4, v6⟩
    else none
  else none

/-! ## Looking up -/

/-- `starts[i] <= key`. -/
def startsBy (starts : List Double) (key : Nat) (i : Int) : Bool :=
  (starts[i.toNat]?).any (Double.atMost key)

/-- `floorIndex(starts, key)`: the last index whose start is at most the key. The sum of the
bounds is cut to 32 bits before it is halved. -/
def floorIndex (rounds : Nat) (starts : List Double) (key : Nat) : Option Int :=
  FloorSearch.floorSearch (fun lo hi => (lo + hi) % 2 ^ 32 / 2) (startsBy starts key) rounds 0
    (starts.length - 1) (-1)

/-- A place: a country, latitude and longitude. -/
structure Place where
  country : Text
  lat : ℚ
  lon : ℚ
  deriving DecidableEq

/-- Hundredths of a degree in degrees. -/
def degrees (hundredths : Int) : ℚ := hundredths / 100

/-- The family of an address that was read. -/
def familyOf (parsed : ParsedIp) : Family := if parsed.bits = ipv4Bits then .v4 else .v6

/-- `cityPlaceIn(table, ip)`. -/
def cityPlaceIn (rounds : Nat) (table : CityTable) (ip : Text) : Option (Option Place) :=
  match parseIp ip { zoneId := false } with
  | none => some none
  | some parsed =>
    let columns := table.families (familyOf parsed)
    let key :=
      match familyOf parsed with
      | .v4 => parsed.value
      | .v6 => parsed.value >>> (128 - Family.v6.blockBits)
    (floorIndex rounds columns.starts key).map fun i =>
      let code := columns.countries.getD i.toNat 0
      if i < 0 ∨ code = 0 then none
      else
        some
          { country := [Char.ofNat (code >>> 8), Char.ofNat (code &&& 0xff)]
            lat := degrees (columns.lats.getD i.toNat 0)
            lon := degrees (columns.lons.getD i.toNat 0) }

end GeoCities

end Cidrella
