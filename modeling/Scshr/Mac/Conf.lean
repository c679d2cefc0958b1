import Scshr.Tunnel.Pairing

/-! The configuration parser of the Mac helper (`tools/mac-tunnel/conf.go`).  A Go
string is its bytes.  The errors carry the data their texts are printed from. -/
namespace Scshr.Mac

open Common Lib.Decimal Tunnel

/-! ## `strings` and `strconv` -/

/-- The white space of Unicode that UTF-8 writes in two bytes: U+0085 and U+00A0. -/
def isSpace2 (a b : UInt8) : Bool := a = 0xC2 && (b = 0x85 || b = 0xA0)

/-- Those in three bytes: U+1680, U+2000..U+200A, U+2028, U+2029, U+202F, U+205F and
U+3000. -/
def isSpace3 (a b c : UInt8) : Bool :=
  a = 0xE1 && b = 0x9A && c = 0x80 ||
  a = 0xE2 && b = 0x80 && (0x80 ≤ c && c ≤ 0x8A || c = 0xA8 || c = 0xA9 || c = 0xAF) ||
  a = 0xE2 && b = 0x81 && c = 0x9F ||
  a = 0xE3 && b = 0x80 && c = 0x80

/-- Drops white space in front, given what two and three bytes are white space. -/
def trimWith (two : UInt8 → UInt8 → Bool) (three : UInt8 → UInt8 → UInt8 → Bool) : Bytes → Bytes
  | a :: b :: c :: rest =>
      if isSpace a then trimWith two three (b :: c :: rest)
      else if two a b then trimWith two three (c :: rest)
      else if three a b c then trimWith two three rest
      else a :: b :: c :: rest
  | [a, b] =>
      if isSpace a then trimWith two three [b] else if two a b then [] else [a, b]
  | [a] => if isSpace a then [] else [a]
  | [] => []

def trimEnd (s : Bytes) : Bytes :=
  (trimWith (fun b a => isSpace2 a b) (fun c b a => isSpace3 a b c) s.reverse).reverse

def trimSpace (s : Bytes) : Bytes := trimEnd (trimWith isSpace2 isSpace3 s)

def asciiLower (c : UInt8) : UInt8 := if isUpper c then c + 32 else c

def carriageReturn : UInt8 := 13
def hash : UInt8 := 35
def bracket : UInt8 := 91
def comma : UInt8 := 44

def trimSuffixReturn (s : Bytes) : Bytes :=
  if s.getLast? = some carriageReturn then s.dropLast else s

def cutEquals (line : Bytes) : Option (Bytes × Bytes) :=
  if equalsSign ∈ line then
    some (line.takeWhile (· ≠ equalsSign), (line.dropWhile (· ≠ equalsSign)).drop 1)
  else none

def atoi (s : Bytes) : Option Int :=
  let (negative, digits) := splitSign s
  let value : Int := if negative then -(read digits : Int) else read digits
  if digits = [] ∨ !digits.all isDigit then none
  else if value < -9223372036854775808 ∨ 9223372036854775807 < value then none
  else some value

/-! ## Keys and addresses -/

/-- `base64.StdEncoding.DecodeString`: line ends are skipped, the bits behind the last
byte are not looked at. -/
def stdDecodeString (s : Bytes) : Option Bytes :=
  let chars := s.filter fun c => c ≠ newline && c ≠ carriageReturn
  let body := (chars.reverse.dropWhile (· = equalsSign)).reverse
  if chars.length % 4 ≠ 0 ∨ chars.length - body.length > 2 ∨ body.length % 4 = 1 then none
  else (b64Bits stdAlphabet body 0 0).map fun result => result.1

inductive KeyError where
  | wrongLength
  | notBase64
  | nonCanonical
  deriving DecidableEq, Repr

def decodeKey (s : Bytes) : Except KeyError Bytes :=
  if s.length ≠ 44 ∨ s.getLast? ≠ some equalsSign then .error .wrongLength
  else
    match stdDecodeString s with
    | none => .error .notBase64
    | some raw =>
        if raw.length ≠ 32 then .error .notBase64
        else if b64Encode stdAlphabet true raw ≠ s then .error .nonCanonical
        else .ok raw

structure Addr4 where
  a : UInt8
  b : UInt8
  c : UInt8
  d : UInt8
  deriving DecidableEq, Repr

/-- An octet as `netip.ParseAddr` takes it: without a leading zero. -/
def octetValue (field : Bytes) : Option UInt8 :=
  if field = [] ∨ !field.all isDigit ∨ strip field ≠ field ∨ read field > 255 then none
  else some (UInt8.ofNat (read field))

def parseAddr4 (s : Bytes) : Option Addr4 :=
  match (s.splitOn dot).map octetValue with
  | [some a, some b, some c, some d] => some ⟨a, b, c, d⟩
  | _ => none

/-- The loop of `netip.ParseAddr` over the groups of an IPv6 address, of which `left` may still
come; `ellipsis` says that `::` was read. -/
def isGroups6 : Nat → Bool → Bytes → Bool
  | 0, _, _ => false
  | left + 1, ellipsis, s =>
      let digits := s.takeWhile isXDigit
      if digits = [] ∨ digits.length > 4 then false
      else
        match s.dropWhile isXDigit with
        | [] => ellipsis == (left != 0)
        | c :: rest =>
            if c = dot then
              -- an IPv4 address in place of the last two groups
              left != 0 && (parseAddr4 s).isSome && ellipsis == (left != 1)
            else if c ≠ colon then false
            else
              match rest with
              | [] => false
              | next :: after =>
                  if next = colon then
                    if ellipsis then false
                    else if after = [] then left != 0
                    else isGroups6 left true after
                  else isGroups6 left ellipsis (next :: after)

/-- The IPv6 addresses of `netip.ParseAddr` without a zone, which a prefix must not have. -/
def isAddr6 (s : Bytes) : Bool :=
  if s.take 2 = [colon, colon] then s.length = 2 || isGroups6 8 true (s.drop 2)
  else isGroups6 8 false s

def prefixBits (most : Nat) (bits : Bytes) : Option Nat :=
  if bits.length > 1 ∧ ¬ bits.head?.any (fun c => 49 ≤ c && c ≤ 57) then none
  else if bits = [] ∨ !bits.all isDigit ∨ read bits > most then none
  else some (read bits)

/-- `netip.ParsePrefix` on the IPv4 prefixes; what is none of them is turned down. -/
def parsePrefix4 (s : Bytes) : Option (Addr4 × Nat) :=
  match s.splitOn slash with
  | [addr, bits] =>
      match parseAddr4 addr, prefixBits 32 bits with
      | some a, some n => some (a, n)
      | _, _ => none
  | _ => none

def isPrefix6 (s : Bytes) : Bool :=
  match s.splitOn slash with
  | [addr, bits] => isAddr6 addr && (prefixBits 128 bits).isSome
  | _ => false

inductive HostError where
  | notPrefix
  | notIpv4
  | wider
  | outside
  | networkOrBroadcast
  deriving DecidableEq, Repr

def hostInTunnel (cidr : Bytes) : Except HostError Addr4 :=
  match parsePrefix4 cidr with
  | none => .error (if isPrefix6 cidr then .notIpv4 else .notPrefix)
  | some (a, bits) =>
      if bits ≠ 32 then .error .wider
      else if (a.a, a.b, a.c) ≠ (10, 77, 77) then .error .outside
      else if a.d = 0 ∨ a.d = 255 then .error .networkOrBroadcast
      else .ok a

/-! ## The parser -/

/-- `conf`; an address that is not set is the zero `netip.Addr`. -/
structure Conf where
  privateKey : Bytes := []
  address : Option Addr4 := none
  listenPort : UInt16 := 0
  hasPeer : Bool := false
  peerPublicKey : Bytes := []
  peerAllowedIp : Option Addr4 := none
  deriving DecidableEq, Repr

inductive ConfSection where
  | interface
  | peer
  deriving DecidableEq, Repr

def ConfSection.text : ConfSection → Bytes
  | .interface => ascii "interface"
  | .peer => ascii "peer"

def ConfSection.header : ConfSection → Bytes
  | .interface => ascii "[Interface]"
  | .peer => ascii "[Peer]"

def ConfSection.keys : ConfSection → List Bytes
  | .interface => [ascii "privatekey", ascii "address", ascii "listenport"]
  | .peer => [ascii "publickey", ascii "allowedips"]

inductive LineError where
  | unknownSection (line : Bytes)
  | notKeyValue (line : Bytes)
  | beforeSection (key : Bytes)
  | duplicateKey (key : Bytes)
  | notAllowed (inside : ConfSection) (key : Bytes)
  | key (field : String) (why : KeyError)
  | host (field : String) (why : HostError)
  | port (val : Bytes)
  | severalAllowedIps
  deriving DecidableEq, Repr

inductive ConfError where
  | line (number : Nat) (why : LineError)
  | interfaces (found : Nat)
  | peers (found : Nat)
  | missing (inside : ConfSection) (field : String)
  | ownAddress
  deriving DecidableEq, Repr

structure Parse where
  conf : Conf := {}
  current : Option ConfSection := none
  seenInterface : Nat := 0
  seenPeer : Nat := 0
  seen : List Bytes := []
  deriving DecidableEq, Repr

def dupKey (inside : ConfSection) (key : Bytes) (seenPeer : Nat) : Bytes :=
  inside.text ++ [dot] ++ key ++ [dot] ++ write seenPeer

def setInterface (conf : Conf) (key val : Bytes) : Except LineError Conf :=
  if key = ascii "privatekey" then
    match decodeKey val with
    | .error why => .error (.key "PrivateKey" why)
    | .ok _ => .ok { conf with privateKey := val }
  else if key = ascii "address" then
    match hostInTunnel val with
    | .error why => .error (.host "Address" why)
    | .ok a => .ok { conf with address := some a }
  else if key = ascii "listenport" then
    match atoi val with
    | none => .error (.port val)
    | some p =>
        if p < 1 ∨ 65535 < p then .error (.port val)
        else .ok { conf with listenPort := UInt16.ofNat p.toNat }
  else .ok conf

def setPeer (conf : Conf) (key val : Bytes) : Except LineError Conf :=
  if key = ascii "publickey" then
    match decodeKey val with
    | .error why => .error (.key "PublicKey" why)
    | .ok _ => .ok { conf with peerPublicKey := val }
  else if key = ascii "allowedips" then
    match val.splitOn comma with
    | [part] =>
        match hostInTunnel (trimSpace part) with
        | .error why => .error (.host "AllowedIPs" why)
        | .ok a => .ok { conf with peerAllowedIp := some a }
    | _ => .error .severalAllowedIps
  else .ok conf

def setField : ConfSection → Conf → Bytes → Bytes → Except LineError Conf
  | .interface => setInterface
  | .peer => setPeer

def confLine (raw : Bytes) : Bytes :=
  let line := trimSpace (trimSuffixReturn raw)
  if hash ∈ line then trimSpace (line.takeWhile (· ≠ hash)) else line

def parseHeader (state : Parse) (line : Bytes) : Except LineError Parse :=
  if line = ConfSection.interface.header then
    .ok { state with
      current := some .interface
      seenInterface := state.seenInterface + 1 }
  else if line = ConfSection.peer.header then
    .ok { state with
      current := some .peer
      seenPeer := state.seenPeer + 1 }
  else .error (.unknownSection line)

section

-- `strings.ToLower` on a text with bytes from 0x80 on, where it goes by Unicode's tables
variable (lowerRunes : Bytes → Bytes)

def lowerText (s : Bytes) : Bytes :=
  if s.all (· < 128) then s.map asciiLower else lowerRunes s

def confEntry (line : Bytes) : Option (Bytes × Bytes) :=
  (cutEquals line).map fun (k, v) => (lowerText lowerRunes (trimSpace k), trimSpace v)

def parseEntry (state : Parse) (line : Bytes) : Except LineError Parse :=
  match confEntry lowerRunes line with
  | none => .error (.notKeyValue line)
  | some (key, val) =>
      match state.current with
      | none => .error (.beforeSection key)
      | some inside =>
          let dup := dupKey inside key state.seenPeer
          if dup ∈ state.seen then .error (.duplicateKey key)
          else if key ∉ inside.keys then .error (.notAllowed inside key)
          else
            match setField inside state.conf key val with
            | .error why => .error why
            | .ok conf => .ok { state with conf := conf, seen := dup :: state.seen }

def parseLine (state : Parse) (line : Bytes) : Except LineError Parse :=
  if line.head? = some bracket then parseHeader state line
  else parseEntry lowerRunes state line

def parseLines : Nat → List Bytes → Parse → Except ConfError Parse
  | _, [], state => .ok state
  | number, raw :: rest, state =>
      let line := confLine raw
      if line = [] then parseLines (number + 1) rest state
      else
        match parseLine lowerRunes state line with
        | .error why => .error (.line number why)
        | .ok next => parseLines (number + 1) rest next

def finishConf (state : Parse) : Except ConfError Conf :=
  let conf := state.conf
  if state.seenInterface ≠ 1 then .error (.interfaces state.seenInterface)
  else if state.seenPeer > 1 then .error (.peers state.seenPeer)
  else if conf.privateKey = [] then .error (.missing .interface "PrivateKey")
  else if conf.address = none then .error (.missing .interface "Address")
  else if conf.listenPort = 0 then .error (.missing .interface "ListenPort")
  else if state.seenPeer = 1 then
    if conf.peerPublicKey = [] then .error (.missing .peer "PublicKey")
    else if conf.peerAllowedIp = none then .error (.missing .peer "AllowedIPs")
    else if conf.peerAllowedIp = conf.address then .error .ownAddress
    else .ok { conf with hasPeer := true }
  else .ok conf

def parseConf (text : Bytes) : Except ConfError Conf :=
  match parseLines lowerRunes 1 (text.splitOn newline) {} with
  | .error why => .error why
  | .ok state => finishConf state

end

/-! ## The UAPI text -/

def hexDigit (value : Nat) : UInt8 :=
  if value < 10 then UInt8.ofNat (48 + value) else UInt8.ofNat (87 + value)

def hexEncode (raw : Bytes) : Bytes :=
  raw.flatMap fun byte => [hexDigit (byte.toNat / 16), hexDigit (byte.toNat % 16)]

def Addr4.text (addr : Addr4) : Bytes :=
  write addr.a.toNat ++ [dot] ++ write addr.b.toNat ++ [dot] ++ write addr.c.toNat ++ [dot] ++
    write addr.d.toNat

def uapiPeer (conf : Conf) (publicKey : Bytes) : List Bytes := [
  ascii "public_key=" ++ hexEncode publicKey,
  ascii "replace_allowed_ips=true",
  ascii "allowed_ip=" ++ (conf.peerAllowedIp.map Addr4.text).getD (ascii "invalid IP") ++
    ascii "/32"]

def uapi (conf : Conf) : Except KeyError (List Bytes) :=
  match decodeKey conf.privateKey with
  | .error why => .error why
  | .ok privateKey =>
      let interface := [
        ascii "private_key=" ++ hexEncode privateKey,
        ascii "listen_port=" ++ write conf.listenPort.toNat,
        ascii "replace_peers=true"]
      if conf.hasPeer then
        match decodeKey conf.peerPublicKey with
        | .error why => .error why
        | .ok publicKey => .ok (interface ++ uapiPeer conf publicKey ++ [[]])
      else .ok (interface ++ [[]])

end Scshr.Mac
