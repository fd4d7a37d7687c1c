import Cidrella.Lib.Buffer
import Cidrella.Address

/-!
# Answers to DHCP probes

`parseOffer` of `utils/dhcp-probe.js` and `parseAdvertise` of `utils/dhcpv6-probe.js`. Both
read what any host on the link may send: options of a code, a length and data, nested in one
another, with lengths that need not be true.

`parseAdvertise` has no fault on any bytes (`parseAdvertise_survives`). `parseOffer` has one:
the message type is read from an option of any length, also of length zero, and when such an
option is the end of the packet the read is past it. `probe_parsers_survive_iff` says that
nothing else goes wrong.
-/

set_option autoImplicit false

namespace Cidrella

namespace Probe

open Address Buffer

/-! ## Offers -/

/-- `MAGIC_COOKIE`. -/
def magicCookie : Nat := 0x63825363

/-- `ipToStr`. -/
def ipToStr (buf : Bytes) (off : Nat) : Except Fault Text := do
  let a ← element buf off
  let b ← element buf (off + 1)
  let c ← element buf (off + 2)
  let d ← element buf (off + 3)
  .ok (['.'].intercalate ([a, b, c, d].map (Nat.toDigits 10)))

/-- A byte in two hexadecimal digits. -/
def hexByte (byte : UInt8) : Text := Text.padStart 2 '0' (Nat.toDigits 16 byte.toNat)

/-- What the options of an offer say. -/
structure OfferOptions where
  msgType : Option Nat := none
  serverId : Option Text := none
  gateway : Option Text := none
  subnetMask : Option Text := none
  dns : List Text := []
  deriving DecidableEq, Repr

/-- What `parseOffer` returns. -/
structure Offer where
  msgType : Option Nat
  xid : Nat
  yiaddr : Text
  siaddr : Text
  giaddr : Option Text
  chaddr : Text
  serverId : Option Text
  gateway : Option Text
  subnetMask : Option Text
  dns : List Text
  deriving DecidableEq, Repr

/-- The addresses of an option, of four bytes each. -/
def readAddresses (buf : Bytes) (off len : Nat) : Except Fault (List Text) :=
  (List.range (len / 4)).mapM fun i => ipToStr buf (off + 4 * i)

/-- The body of the option walk: what one option says. Only the message type is read
without a look at the length. -/
def offerOption (buf : Bytes) (code len off : Nat) (said : OfferOptions) :
    Except Fault OfferOptions :=
  if code = 53 then do
    let msgType ← readUInt8 buf off
    .ok { said with msgType := some msgType }
  else if code = 54 then
    if 4 ≤ len then do
      let ip ← ipToStr buf off
      .ok { said with serverId := some ip }
    else .ok said
  else if code = 3 then
    if 4 ≤ len then do
      let ip ← ipToStr buf off
      .ok { said with gateway := some ip }
    else .ok said
  else if code = 1 then
    if 4 ≤ len then do
      let ip ← ipToStr buf off
      .ok { said with subnetMask := some ip }
    else .ok said
  else if code = 6 then do
    let ips ← readAddresses buf off len
    .ok { said with dns := said.dns ++ ips }
  else .ok said

/-- The option walk of `parseOffer`. -/
def walkOffer (buf : Bytes) : (rounds off : Nat) → OfferOptions → Except Fault OfferOptions
  | 0, _, _ => .error .running
  | rounds + 1, off, said =>
    if off < buf.length then do
      let code ← readUInt8 buf off
      if code = 255 then .ok said
      else if code = 0 then walkOffer buf rounds (off + 1) said
      else if off + 1 ≥ buf.length then .ok said
      else do
        let len ← readUInt8 buf (off + 1)
        if off + 2 + len > buf.length then .ok said
        else do
          let said ← offerOption buf code len (off + 2) said
          walkOffer buf rounds (off + 2 + len) said
    else .ok said

/-- `parseOffer`. -/
def parseOffer (buf : Bytes) : Except Fault (Option Offer) :=
  if buf.length < 240 then .ok none
  else do
    let cookie ← readUIntBE buf 236 4
    if cookie ≠ magicCookie then .ok none
    else do
      let op ← readUInt8 buf 0
      if op ≠ 2 then .ok none
      else do
        let xid ← readUIntBE buf 4 4
        let yiaddr ← ipToStr buf 16
        let siaddr ← ipToStr buf 20
        let giaddr ← ipToStr buf 24
        let chaddr := [':'].intercalate ((subarray buf 28 34).map hexByte)
        let said ← walkOffer buf (buf.length + 1) 240 {}
        if said.msgType ≠ some 2 then .ok none
        else
          .ok (some {
            msgType := said.msgType, xid, yiaddr, siaddr
            giaddr := if giaddr = "0.0.0.0".toList then none else some giaddr
            chaddr, serverId := said.serverId, gateway := said.gateway
            subnetMask := said.subnetMask, dns := said.dns })

/-! ## Advertisements -/

/-- An option: its code and its data, a view of the buffer. -/
structure Option6 where
  code : Nat
  data : Bytes
  deriving DecidableEq, Repr

/-- `options`: those between two offsets. One that does not fit ends them. -/
def options (buf : Bytes) (stop : Nat) : (rounds off : Nat) → Except Fault (List Option6)
  | 0, _ => .error .running
  | rounds + 1, off =>
    if off + 4 ≤ stop then do
      let code ← readUIntBE buf off 2
      let len ← readUIntBE buf (off + 2) 2
      if off + 4 + len > stop then .ok []
      else do
        let later ← options buf stop rounds (off + 4 + len)
        .ok (⟨code, subarray buf (off + 4) (off + 4 + len)⟩ :: later)
    else .ok []

/-- `data.toString('latin1')`. -/
def latin1 (data : Bytes) : Text := data.map fun byte => Char.ofNat byte.toNat

/-- The labels read so far as one more name, if there are any. -/
def endName (labels names : List Text) : List Text :=
  if labels ≠ [] then names ++ [['.'].intercalate labels] else names

/-- The loop of `parseDomainList`. -/
def domainLoop (data : Bytes) : (rounds off : Nat) → (labels names : List Text) →
    Except Fault (List Text)
  | 0, _, _, _ => .error .running
  | rounds + 1, off, labels, names =>
    if off < data.length then do
      let len ← element data off
      if len = 0 then domainLoop data rounds (off + 1) [] (endName labels names)
      else if off + 1 + len > data.length then .ok (endName labels names)
      else
        domainLoop data rounds (off + 1 + len)
          (labels ++ [latin1 (subarray data (off + 1) (off + 1 + len))]) names
    else .ok (endName labels names)

/-- `parseDomainList`. -/
def parseDomainList (data : Bytes) : Except Fault (List Text) := domainLoop data
    (data.length + 1) 0 [] []

/-- A status code and its message. -/
structure Status where
  code : Nat
  message : Text
  deriving DecidableEq, Repr

/-- An address that a server offers. -/
structure OfferedAddress where
  address : Text
  preferred : Nat
  valid : Nat
  deriving DecidableEq, Repr

/-- What `parseAdvertise` returns. -/
structure Advertise where
  msgType : Nat
  xid : Nat
  serverDuid : Option Text := none
  clientDuid : Option Text := none
  addresses : List OfferedAddress := []
  dns : List Text := []
  domains : List Text := []
  preference : Option Nat := none
  status : Option Status := none
  rapidCommit : Bool := false
  deriving DecidableEq, Repr

/-- `readAddress`. -/
def readAddress (buf : Bytes) (off : Nat) : Except Fault Text := do
  let hi ← readUIntBE buf off 8
  let lo ← readUIntBE buf (off + 8) 8
  .ok (formatIp (hi <<< 64 ||| lo) ipv6Bits)

/-- `duidFromBytes`. -/
def duidFromBytes (data : Bytes) : Option Text :=
  if data = [] then none else some ([':'].intercalate (data.map hexByte))

section
-- how a status message is decoded from its bytes; decoding replaces what is malformed
variable (utf8 : Bytes → Text)

/-- `parseStatus`. -/
def parseStatus (data : Bytes) : Except Fault (Option Status) :=
  if data.length < 2 then .ok none
  else do
    let code ← readUIntBE data 0 2
    .ok (some ⟨code, utf8 (subarray data 2 data.length)⟩)

/-- An option inside an identity association. -/
def associationOption (result : Advertise) (sub : Option6) : Except Fault Advertise :=
  if sub.code = 5 ∧ 24 ≤ sub.data.length then do
    let address ← readAddress sub.data 0
    let preferred ← readUIntBE sub.data 16 4
    let valid ← readUIntBE sub.data 20 4
    .ok { result with addresses := result.addresses ++ [⟨address, preferred, valid⟩] }
  else if sub.code = 13 ∧ result.status.isNone then do
    let status ← parseStatus utf8 sub.data
    .ok { result with status }
  else .ok result

/-- The switch of `parseAdvertise`. -/
def advertiseOption (result : Advertise) (option : Option6) : Except Fault Advertise :=
  let data := option.data
  if option.code = 2 then .ok { result with serverDuid := duidFromBytes data }
  else if option.code = 1 then .ok { result with clientDuid := duidFromBytes data }
  else if option.code = 3 then
    if data.length < 12 then .ok result
    else do
      let subs ← options data data.length (data.length + 1) 12
      subs.foldlM (associationOption utf8) result
  else if option.code = 23 then do
    let ips ← (List.range (data.length / 16)).mapM fun i => readAddress data (16 * i)
    .ok { result with dns := result.dns ++ ips }
  else if option.code = 24 then do
    let domains ← parseDomainList data
    .ok { result with domains }
  else if option.code = 7 then
    if 1 ≤ data.length then do
      let preference ← readUInt8 data 0
      .ok { result with preference := some preference }
    else .ok result
  else if option.code = 13 then do
    let status ← parseStatus utf8 data
    .ok { result with status }
  else if option.code = 14 then .ok { result with rapidCommit := true }
  else .ok result

/-- `parseAdvertise`. -/
def parseAdvertise (buf : Bytes) : Except Fault (Option Advertise) :=
  if buf.length < 4 then .ok none
  else do
    let msgType ← readUInt8 buf 0
    if msgType ≠ 2 ∧ msgType ≠ 7 then .ok none
    else do
      let xid ← readUIntBE buf 1 3
      let all ← options buf buf.length (buf.length + 1) 4
      let result ← all.foldlM (advertiseOption utf8) { msgType, xid }
      if result.serverDuid.isNone then .ok none else .ok (some result)

end

/-! ## Advertisements survive -/

section
variable (utf8 : Bytes → Text)

theorem options_survives {buf : Bytes} {stop rounds off : Nat} (inside : stop ≤ buf.length)
    (enough : stop < off + rounds) (positive : 0 < rounds) :
    Survives (options buf stop rounds off) := by
  induction rounds generalizing off with
  | zero => exact absurd positive (lt_irrefl 0)
  | succ rounds ih =>
    rw [options]
    refine survives_ite (fun room => ?_) fun _ => survives_ok _
    refine survives_bind (survives_readUIntBE (by omega)) fun code _ => ?_
    refine survives_bind (survives_readUIntBE (by omega)) fun len _ => ?_
    refine survives_ite (fun _ => survives_ok _) fun fits => ?_
    exact survives_bind (ih (by omega) (by omega)) fun _ _ => survives_ok _

theorem domainLoop_survives {data : Bytes} {rounds off : Nat} (enough : data.length < off + rounds)
    (within : off ≤ data.length) (labels names : List Text) :
    Survives (domainLoop data rounds off labels names) := by
  induction rounds generalizing off labels names with
  | zero => omega
  | succ rounds ih =>
    rw [domainLoop]
    refine survives_ite (fun room => ?_) fun _ => survives_ok _
    refine survives_bind (survives_element room) fun len _ => ?_
    refine survives_ite (fun _ => ih (by omega) (by omega) _ _) fun _ => ?_
    exact survives_ite (fun _ => survives_ok _) fun fits => ih (by omega) (by omega) _ _

theorem parseDomainList_survives (data : Bytes) : Survives (parseDomainList data) :=
  domainLoop_survives (by omega) (Nat.zero_le _) _ _

theorem readAddress_survives {buf : Bytes} {off : Nat} (inside : off + 16 ≤ buf.length) :
    Survives (readAddress buf off) := by
  refine survives_bind (survives_readUIntBE (by omega)) fun _ _ => ?_
  exact survives_bind (survives_readUIntBE (by omega)) fun _ _ => survives_ok _

theorem parseStatus_survives (data : Bytes) : Survives (parseStatus utf8 data) := by
  refine survives_ite (fun _ => survives_ok _) fun long => ?_
  exact survives_bind (survives_readUIntBE (by omega)) fun _ _ => survives_ok _

theorem associationOption_survives (result : Advertise) (sub : Option6) :
    Survives (associationOption utf8 result sub) := by
  refine survives_ite (fun address => ?_) fun _ => survives_ite (fun _ => ?_) fun _ => survives_ok _
  · have long := address.2
    refine survives_bind (readAddress_survives (by omega)) fun _ _ => ?_
    refine survives_bind (survives_readUIntBE (by omega)) fun _ _ => ?_
    exact survives_bind (survives_readUIntBE (by omega)) fun _ _ => survives_ok _
  · exact survives_bind (parseStatus_survives utf8 _) fun _ _ => survives_ok _

theorem advertiseOption_survives (result : Advertise) (option : Option6) :
    Survives (advertiseOption utf8 result option) := by
  refine survives_ite (fun _ => survives_ok _) fun _ => ?_
  refine survives_ite (fun _ => survives_ok _) fun _ => ?_
  refine survives_ite (fun _ => ?_) fun _ => ?_
  · refine survives_ite (fun _ => survives_ok _) fun long => ?_
    refine survives_bind (options_survives le_rfl (by omega) (by omega)) fun subs _ => ?_
    exact survives_foldlM (associationOption_survives utf8) subs result
  refine survives_ite (fun _ => ?_) fun _ => ?_
  · refine survives_bind (survives_mapM fun i member => readAddress_survives ?_) fun _ _ =>
      survives_ok _
    have below := List.mem_range.mp member
    omega
  refine survives_ite (fun _ => ?_) fun _ => ?_
  · exact survives_bind (parseDomainList_survives _) fun _ _ => survives_ok _
  refine survives_ite (fun _ => ?_) fun _ => ?_
  · refine survives_ite (fun long => ?_) fun _ => survives_ok _
    exact survives_bind (survives_readUInt8 (by omega)) fun _ _ => survives_ok _
  refine survives_ite (fun _ => ?_) fun _ => ?_
  · exact survives_bind (parseStatus_survives utf8 _) fun _ _ => survives_ok _
  exact survives_ite (fun _ => survives_ok _) fun _ => survives_ok _

/-- **`parseAdvertise` survives any bytes.** -/
theorem parseAdvertise_survives (buf : Bytes) : Survives (parseAdvertise utf8 buf) := by
  refine survives_ite (fun _ => survives_ok _) fun long => ?_
  refine survives_bind (survives_readUInt8 (by omega)) fun msgType _ => ?_
  refine survives_ite (fun _ => survives_ok _) fun _ => ?_
  refine survives_bind (survives_readUIntBE (by omega)) fun xid _ => ?_
  refine survives_bind (options_survives le_rfl (by omega) (by omega)) fun all _ => ?_
  refine survives_bind (survives_foldlM (advertiseOption_survives utf8) all _) fun result _ => ?_
  exact survives_ite (fun _ => survives_ok _) fun _ => survives_ok _

end

/-! ## Where an offer fails -/

/-- Complete options: pads, and codes that are no end with as many bytes as they say. -/
inductive CompleteOptions : Bytes → Prop where
  | nil : CompleteOptions []
  | pad {rest : Bytes} : CompleteOptions rest → CompleteOptions (0 :: rest)
  | option {code len : UInt8} {data rest : Bytes} : code ≠ 255 → code ≠ 0 →
      data.length = len.toNat → CompleteOptions rest →
      CompleteOptions (code :: len :: (data ++ rest))

/-- The bytes are complete options and, after them, a message type of length zero. -/
def EndsInEmptyType (bytes : Bytes) : Prop := ∃ front, CompleteOptions front ∧
    bytes = front ++ [53, 0]

theorem not_endsInEmptyType_nil : ¬ EndsInEmptyType [] := by
  rintro ⟨front, -, same⟩
  exact absurd same (by simp)

theorem not_endsInEmptyType_single (code : UInt8) : ¬ EndsInEmptyType [code] := by
  rintro ⟨front, complete, same⟩
  have sizes := congrArg List.length same
  rw [List.length_append] at sizes
  simp only [List.length_cons, List.length_nil] at sizes
  omega

theorem endsInEmptyType_pad {rest : Bytes} : EndsInEmptyType (0 :: rest) ↔
    EndsInEmptyType rest := by
  constructor
  · rintro ⟨front, complete, same⟩
    cases complete with
    | nil => cases same
    | pad complete => exact ⟨_, complete, (List.cons.inj same).2⟩
    | option _ notPad _ _ => exact absurd (List.cons.inj same).1.symm notPad
  · rintro ⟨front, complete, rfl⟩
    exact ⟨0 :: front, complete.pad, rfl⟩

theorem not_endsInEmptyType_end (rest : Bytes) : ¬ EndsInEmptyType (255 :: rest) := by
  rintro ⟨front, complete, same⟩
  cases complete with
  | nil => cases same
  | pad complete => cases same
  | option notEnd _ _ _ => exact notEnd (List.cons.inj same).1.symm

theorem not_endsInEmptyType_short {code len : UInt8} {rest : Bytes} (notPad : code ≠ 0)
    (short : rest.length < len.toNat) : ¬ EndsInEmptyType (code :: len :: rest) := by
  rintro ⟨front, complete, same⟩
  cases complete with
  | nil =>
    obtain ⟨-, tail⟩ := List.cons.inj same
    obtain ⟨rfl, rfl⟩ := List.cons.inj tail
    cases short
  | pad complete => exact notPad (List.cons.inj same).1
  | option _ _ size _ =>
    simp only [List.cons_append, List.cons.injEq] at same
    obtain ⟨rfl, rfl, rfl⟩ := same
    rw [List.append_assoc, List.length_append] at short
    omega

theorem endsInEmptyType_option {code len : UInt8} {rest : Bytes} (notEnd : code ≠ 255)
    (notPad : code ≠ 0) (fits : len.toNat ≤ rest.length)
    (other : ¬ (code = 53 ∧ len = 0 ∧ rest = [])) :
    EndsInEmptyType (code :: len :: rest) ↔ EndsInEmptyType (rest.drop len.toNat) := by
  constructor
  · rintro ⟨front, complete, same⟩
    cases complete with
    | nil =>
      obtain ⟨rfl, tail⟩ := List.cons.inj same
      obtain ⟨rfl, rfl⟩ := List.cons.inj tail
      exact absurd ⟨rfl, rfl, rfl⟩ other
    | pad complete => exact absurd (List.cons.inj same).1 notPad
    | option _ _ size complete =>
      simp only [List.cons_append, List.cons.injEq] at same
      obtain ⟨rfl, rfl, rfl⟩ := same
      exact ⟨_, complete, by rw [List.append_assoc, ← size, List.drop_left]⟩
  · rintro ⟨front, complete, same⟩
    refine ⟨code :: len :: (rest.take len.toNat ++ front), .option notEnd notPad ?_ complete, ?_⟩
    · rw [List.length_take, Nat.min_eq_left fits]
    · rw [List.cons_append, List.cons_append, List.append_assoc, ← same, List.take_append_drop]

section
variable {buf : Bytes} {off : Nat}

theorem ipToStr_survives (inside : off + 4 ≤ buf.length) : Survives (ipToStr buf off) := by
  refine survives_bind (survives_element (by omega)) fun _ _ => ?_
  refine survives_bind (survives_element (by omega)) fun _ _ => ?_
  refine survives_bind (survives_element (by omega)) fun _ _ => ?_
  exact survives_bind (survives_element (by omega)) fun _ _ => survives_ok _

theorem readAddresses_survives {len : Nat} (inside : off + len ≤ buf.length) :
    Survives (readAddresses buf off len) := by
  refine survives_mapM fun i member => ipToStr_survives ?_
  have below := List.mem_range.mp member
  omega

theorem offerOption_survives {code len : Nat} (said : OfferOptions)
    (inside : off + len ≤ buf.length) (first : code = 53 → off < buf.length) :
    Survives (offerOption buf code len off said) := by
  refine survives_ite (fun type => ?_) fun _ => ?_
  · exact survives_bind (survives_readUInt8 (first type)) fun _ _ => survives_ok _
  refine survives_ite (fun _ => survives_ite (fun long => ?_) fun _ => survives_ok _) fun _ => ?_
  · exact survives_bind (ipToStr_survives (by omega)) fun _ _ => survives_ok _
  refine survives_ite (fun _ => survives_ite (fun long => ?_) fun _ => survives_ok _) fun _ => ?_
  · exact survives_bind (ipToStr_survives (by omega)) fun _ _ => survives_ok _
  refine survives_ite (fun _ => survives_ite (fun long => ?_) fun _ => survives_ok _) fun _ => ?_
  · exact survives_bind (ipToStr_survives (by omega)) fun _ _ => survives_ok _
  refine survives_ite (fun _ => ?_) fun _ => survives_ok _
  exact survives_bind (readAddresses_survives inside) fun _ _ => survives_ok _

theorem offerOption_fails {len : Nat} (said : OfferOptions) (past : buf.length ≤ off) :
    ¬ Survives (offerOption buf 53 len off said) := by
  have fault : readUInt8 buf off = .error .outOfRange := if_neg (by omega)
  rintro ⟨value, done⟩
  rw [offerOption, if_pos rfl, fault] at done
  cases done

theorem survives_bind_ok {α β : Type} {value : α} {f : α → Except Fault β} {x : Except Fault α}
    (first : x = .ok value) : Survives (x >>= f) ↔ Survives (f value) := by
  rw [first]
  rfl

/-- **The walk fails exactly at a message type of length zero that ends the buffer.** -/
theorem walkOffer_survives_iff {rounds : Nat} (enough : buf.length < off + rounds)
    (within : off ≤ buf.length) (said : OfferOptions) : Survives (walkOffer buf rounds off said) ↔
    ¬ EndsInEmptyType (buf.drop off) := by
  induction rounds generalizing off said with
  | zero => omega
  | succ rounds ih =>
    rw [walkOffer]
    split
    case isFalse ended =>
      rw [List.drop_eq_nil_of_le (Nat.not_lt.mp ended)]
      exact iff_of_true (survives_ok _) not_endsInEmptyType_nil
    case isTrue room =>
      rw [survives_bind_ok (readUInt8_eq room), List.drop_eq_getElem_cons room]
      generalize buf[off] = code
      have nat : ∀ other : UInt8, code ≠ other → ¬ code.toNat = other.toNat :=
        fun other differs same =>
        differs (UInt8.toNat_inj.mp same)
      by_cases isEnd : code = 255
      · subst isEnd
        exact iff_of_true (survives_ok _) (not_endsInEmptyType_end _)
      by_cases isPad : code = 0
      · subst isPad
        rw [endsInEmptyType_pad]
        exact ih (by omega) room said
      rw [if_neg (show ¬ code.toNat = 255 from nat 255 isEnd),
        if_neg (show ¬ code.toNat = 0 from nat 0 isPad)]
      split
      case isTrue last =>
        rw [List.drop_eq_nil_of_le last]
        exact iff_of_true (survives_ok _) (not_endsInEmptyType_single code)
      case isFalse more =>
        have next : off + 1 < buf.length := by omega
        rw [survives_bind_ok (readUInt8_eq next), List.drop_eq_getElem_cons next]
        generalize buf[off + 1] = len
        have size : (buf.drop (off + 1 + 1)).length = buf.length - (off + 1 + 1) := List.length_drop
        split
        case isTrue long =>
          exact iff_of_true (survives_ok _) (not_endsInEmptyType_short isPad (by omega))
        case isFalse fits =>
          by_cases empty : code = 53 ∧ len = 0 ∧ buf.drop (off + 1 + 1) = []
          · obtain ⟨rfl, rfl, none⟩ := empty
            rw [none]
            refine iff_of_false ?_ (not_not.mpr ⟨[], .nil, rfl⟩)
            have past : buf.length ≤ off + 2 := List.drop_eq_nil_iff.mp none
            rintro ⟨value, done⟩
            obtain ⟨after, said', -⟩ := bind_eq_ok.mp done
            exact offerOption_fails said past ⟨after, said'⟩
          · have first : code.toNat = 53 → off + 2 < buf.length := by
              intro isType
              have type : code = 53 := UInt8.toNat_inj.mp isType
              by_contra past
              refine empty ⟨type, UInt8.toNat_inj.mp ?_, List.drop_eq_nil_of_le (by omega)⟩
              change len.toNat = 0
              omega
            obtain ⟨after, done⟩ := offerOption_survives said
                (show off + 1 + 1 + len.toNat ≤ buf.length by omega) first
            rw [survives_bind_ok done, endsInEmptyType_option isEnd isPad (by omega) empty,
              List.drop_drop]
            exact ih (by omega) (by omega) after

/-- **`parseOffer` fails exactly on an offer that ends in an empty message type.** -/
theorem parseOffer_survives_iff (buf : Bytes) : Survives (parseOffer buf) ↔
    ¬ (240 ≤ buf.length ∧ numberBE ((buf.drop 236).take 4) = magicCookie ∧ buf.head? = some 2 ∧
      EndsInEmptyType (buf.drop 240)) := by
  rw [parseOffer]
  split
  case isTrue short => exact iff_of_true (survives_ok _) fun failing => absurd failing.1 (by omega)
  case isFalse long =>
    have cookie : readUIntBE buf 236 4 = .ok (numberBE ((buf.drop 236).take 4)) := if_pos (by omega)
    rw [survives_bind_ok cookie]
    split
    case isTrue other => exact iff_of_true (survives_ok _) fun failing => other failing.2.1
    case isFalse isCookie =>
      have start : 0 < buf.length := by omega
      rw [survives_bind_ok (readUInt8_eq start)]
      have head : buf.head? = some buf[0] := by rw [List.head?_eq_getElem?,
        List.getElem?_eq_getElem start]
      rw [head]
      split
      case isTrue other =>
        refine iff_of_true (survives_ok _) fun failing => other ?_
        rw [Option.some.inj failing.2.2.1]
        rfl
      case isFalse isReply =>
        have reply : buf[0] = 2 := UInt8.toNat_inj.mp (not_not.mp isReply)
        have walked := @walkOffer_survives_iff buf 240 (buf.length + 1) (by omega) (by omega) {}
        have failing : (240 ≤ buf.length ∧ numberBE ((buf.drop 236).take 4) = magicCookie ∧
            some buf[0] = some 2 ∧ EndsInEmptyType (buf.drop 240)) ↔
            EndsInEmptyType (buf.drop 240) :=
          ⟨fun all => all.2.2.2, fun ends =>
            ⟨by omega, not_not.mp isCookie, congrArg some reply, ends⟩⟩
        rw [failing, ← walked]
        obtain ⟨xid, readXid⟩ : Survives (readUIntBE buf 4 4) := survives_readUIntBE (by omega)
        obtain ⟨yiaddr, readYiaddr⟩ : Survives (ipToStr buf 16) := ipToStr_survives (by omega)
        obtain ⟨siaddr, readSiaddr⟩ : Survives (ipToStr buf 20) := ipToStr_survives (by omega)
        obtain ⟨giaddr, readGiaddr⟩ : Survives (ipToStr buf 24) := ipToStr_survives (by omega)
        rw [survives_bind_ok readXid, survives_bind_ok readYiaddr, survives_bind_ok readSiaddr,
          survives_bind_ok readGiaddr]
        constructor
        · rintro ⟨value, done⟩
          obtain ⟨said, walk, -⟩ := bind_eq_ok.mp done
          exact ⟨said, walk⟩
        · exact fun survived => survives_bind survived fun said _ =>
            survives_ite (fun _ => survives_ok _) fun _ => survives_ok _

/-- **The probe parsers survive any packet but one kind**: an offer whose last two bytes,
where an option starts, are a message type of length zero. -/
theorem probe_parsers_survive_iff (utf8 : Bytes → Text) (buf : Bytes) :
    (Survives (parseOffer buf) ∧ Survives (parseAdvertise utf8 buf)) ↔
      ¬ (240 ≤ buf.length ∧ numberBE ((buf.drop 236).take 4) = magicCookie ∧ buf.head? = some 2 ∧
        EndsInEmptyType (buf.drop 240)) := by
  rw [parseOffer_survives_iff]
  exact and_iff_left (parseAdvertise_survives utf8 buf)

/-- The header of an offer and a message type of length zero. -/
def emptyTypeOffer : Bytes := 2 :: List.replicate 235 0 ++ [0x63, 0x82, 0x53, 0x63, 53, 0]

/-- **The read of the message type throws.** -/
theorem parseOffer_throws : parseOffer emptyTypeOffer = .error .outOfRange ∧
    ¬ Survives (parseOffer emptyTypeOffer) := by
  have thrown : parseOffer emptyTypeOffer = .error .outOfRange := by decide +kernel
  refine ⟨thrown, ?_⟩
  rintro ⟨offer, done⟩
  cases thrown.symm.trans done

end

end Probe

end Cidrella
