import Scshr.Common.Bytes
import Scshr.Lib.Decimal

/-! Pairing descriptors and route policy (`tunnel/pairing.cpp`) and the rendered
configuration (`tunnel/wgconfig.cpp`).  A `std::string` is its bytes; a function
that returns `false` and leaves its result alone is an `Option`, one that also
reports or throws a text is an `Except`.  `std::to_string`, `std::stol` and
`std::isdigit` are those of `Lib.Decimal`. -/
namespace Scshr.Tunnel

open Common Lib Lib.Decimal

def ascii (text : String) : Bytes := text.toList.map fun char => UInt8.ofNat char.toNat

-- a literal is `String.ofList` of its characters, but `toList` of it decodes its bytes
theorem ascii_ofList (chars : List Char) :
    ascii (String.ofList chars) = chars.map fun char => UInt8.ofNat char.toNat := by
  rw [ascii, String.toList_ofList]

theorem notMem_ascii (chars : List Char) (h : c ∉ chars.map fun char => UInt8.ofNat char.toNat) :
    c ∉ ascii (String.ofList chars) := by
  rwa [ascii_ofList]

def isUpper (c : UInt8) : Bool := 65 ≤ c && c ≤ 90

def isLower (c : UInt8) : Bool := 97 ≤ c && c ≤ 122

def isAlnum (c : UInt8) : Bool := isDigit c || isUpper c || isLower c

def isXDigit (c : UInt8) : Bool := isDigit c || 65 ≤ c && c ≤ 70 || 97 ≤ c && c ≤ 102

def dot : UInt8 := 46
def slash : UInt8 := 47
def colon : UInt8 := 58
def equalsSign : UInt8 := 61
def hyphen : UInt8 := 45

/-! ## Base64 -/

def urlAlphabet : Bytes :=
  ascii "ABCDEFGHIJKLMNOPQRSTUVWXYZabcdefghijklmnopqrstuvwxyz0123456789-_"

def stdAlphabet : Bytes :=
  ascii "ABCDEFGHIJKLMNOPQRSTUVWXYZabcdefghijklmnopqrstuvwxyz0123456789+/"

def alphabetIndex (alphabet : Bytes) (c : UInt8) : Option Nat :=
  if c = 0 then none else alphabet.idxOf? c

/-- `alphabet[(v >> shift) & 63]`. -/
def sextetOf (alphabet : Bytes) (v shift : Nat) : UInt8 :=
  alphabet.getD ((v >>> shift) % 64) 0

def b64Encode (alphabet : Bytes) (pad : Bool) : Bytes → Bytes
  | a :: b :: c :: rest =>
      let v := a.toNat * 65536 + b.toNat * 256 + c.toNat
      sextetOf alphabet v 18 :: sextetOf alphabet v 12 :: sextetOf alphabet v 6 ::
        sextetOf alphabet v 0 :: b64Encode alphabet pad rest
  | [a, b] =>
      let v := a.toNat * 65536 + b.toNat * 256
      [sextetOf alphabet v 18, sextetOf alphabet v 12, sextetOf alphabet v 6] ++
        if pad then [equalsSign] else []
  | [a] =>
      let v := a.toNat * 65536
      [sextetOf alphabet v 18, sextetOf alphabet v 12] ++
        if pad then [equalsSign, equalsSign] else []
  | [] => []

/-- The decoding loop: the bytes pushed, the accumulator and its number of unread bits. -/
def b64Bits (alphabet : Bytes) : Bytes → Nat → Nat → Option (Bytes × Nat × Nat)
  | [], acc, bits => some ([], acc, bits)
  | c :: rest, acc, bits =>
      match alphabetIndex alphabet c with
      | none => none
      | some v =>
          let acc := (acc * 64 + v) % 4294967296
          if bits + 6 ≥ 8 then
            (b64Bits alphabet rest acc (bits + 6 - 8)).map fun result =>
              (UInt8.ofNat (acc >>> (bits + 6 - 8)) :: result.1, result.2)
          else b64Bits alphabet rest acc (bits + 6)

def b64DecodeBody (alphabet body : Bytes) : Option Bytes :=
  if body.length % 4 = 1 then none
  else
    match b64Bits alphabet body 0 0 with
    | none => none
    | some (out, acc, bits) =>
        if bits ≥ 6 then none
        else if bits ≠ 0 ∧ acc % (1 <<< bits) ≠ 0 then none
        else some out

def b64Decode (alphabet : Bytes) (requirePad : Bool) (input : Bytes) : Option Bytes :=
  if requirePad then
    let body := (input.reverse.dropWhile (· = equalsSign)).reverse
    if input = [] ∨ input.length % 4 ≠ 0 ∨ input.length - body.length > 2 then none
    else b64DecodeBody alphabet body
  else if equalsSign ∈ input then none
  else b64DecodeBody alphabet input

def base64urlEncode (raw : Bytes) : Bytes := b64Encode urlAlphabet false raw

def base64urlDecode (input : Bytes) : Option Bytes := b64Decode urlAlphabet false input

/-! ## Addresses -/

/-- The digits of one octet: their number, their value and the rest of the text. -/
def digitRun : Bytes → Nat → Nat → Option (Nat × Nat × Bytes)
  | c :: rest, digits, n =>
      if isDigit c then
        if digits + 1 > 3 then none else digitRun rest (digits + 1) (push n c)
      else some (digits, n, c :: rest)
  | [], digits, n => some (digits, n, [])

/-- One octet: at most three digits, no leading zero in front of a single digit. -/
def parseOctet (s : Bytes) : Option (Nat × Bytes) :=
  match digitRun s 0 0 with
  | none => none
  | some (digits, n, rest) =>
      if digits = 0 ∨ digits > 1 ∧ n < 10 ∨ n > 255 then none else some (n, rest)

/-- The loop of `parse_ipv4` with the number of octets that may still come. -/
def parseOctets : Nat → Bytes → Nat → Option Nat
  | 0, _, _ => none
  | left + 1, s, v =>
      match parseOctet s with
      | none => none
      | some (n, []) => if left = 0 then some (v * 256 + n) else none
      | some (n, c :: rest) =>
          if c ≠ dot ∨ rest = [] then none else parseOctets left rest (v * 256 + n)

def parseIpv4 (s : Bytes) : Option UInt32 := (parseOctets 4 s 0).map UInt32.ofNat

def hexValue (c : UInt8) : Nat :=
  if isDigit c then c.toNat - 48 else if c ≥ 97 then c.toNat - 87 else c.toNat - 55

def hexRun : Bytes → Nat → Nat → Option (Nat × Nat × Bytes)
  | c :: rest, digits, g =>
      if isXDigit c then
        if digits + 1 > 4 then none else hexRun rest (digits + 1) (g * 16 + hexValue c)
      else some (digits, g, c :: rest)
  | [], digits, g => some (digits, g, [])

/-- The groups in front of and behind the gap, if there is one. -/
structure Ipv6Groups where
  head : List Nat
  tail : List Nat
  afterGap : Bool
  deriving DecidableEq

def Ipv6Groups.push (groups : Ipv6Groups) (g : Nat) : Ipv6Groups :=
  if groups.afterGap then { groups with tail := groups.tail ++ [g] }
  else { groups with head := groups.head ++ [g] }

/-- The loop of `parse_ipv6` with the number of groups that may still come. -/
def parseGroups : Nat → Bytes → Ipv6Groups → Option Ipv6Groups
  | 0, _, _ => none
  | left + 1, s, groups =>
      match hexRun s 0 0 with
      | none => none
      | some (digits, g, rest) =>
          if digits = 0 then none
          else
            match rest with
            | [] => some (groups.push g)
            | c :: rest =>
                if c ≠ colon then none
                else
                  match rest with
                  | [] => none
                  | next :: after =>
                      if next = colon then
                        if groups.afterGap then none
                        else if after = [] then some { groups.push g with afterGap := true }
                        else parseGroups left after { groups.push g with afterGap := true }
                      else parseGroups left (next :: after) (groups.push g)

def groupBytes (group : Nat) : Bytes := [UInt8.ofNat (group / 256), UInt8.ofNat group]

def ipv6Bytes (groups : Ipv6Groups) : Option Bytes :=
  let total := groups.head.length + groups.tail.length
  if groups.afterGap then
    if total > 7 then none
    else some ((groups.head ++ List.replicate (8 - total) 0 ++ groups.tail).flatMap groupBytes)
  else if total ≠ 8 then none
  else some (groups.head.flatMap groupBytes)

def parseIpv6 (s : Bytes) : Option Bytes :=
  if s = [] ∨ s.length > 45 then none
  else if s.take 2 = [colon, colon] then
    if s.length = 2 then some (List.replicate 16 0)
    else (parseGroups 8 (s.drop 2) ⟨[], [], true⟩).bind ipv6Bytes
  else if s.head? = some colon then none
  else (parseGroups 8 s ⟨[], [], false⟩).bind ipv6Bytes

def ipv4UsableEndpoint (v : UInt32) : Bool :=
  if v = 0 ∨ v = 0xffffffff then false
  else if v >>> 24 = 127 then false
  else if v >>> 28 = 0xE then false
  else if v >>> 28 = 0xF then false
  else true

/-- The loop of `valid_hostname` over the labels. -/
def validLabels : Bytes → Nat → Bool
  | [], label => label ≠ 0
  | c :: rest, label =>
      if c = dot then if label = 0 then false else validLabels rest 0
      else if !(isAlnum c || c = hyphen) then false
      else if c = hyphen ∧ (label = 0 ∨ rest = [] ∨ rest.head? = some dot) then false
      else if label + 1 > 63 then false
      else validLabels rest (label + 1)

def validHostname (h : Bytes) : Bool :=
  if h = [] ∨ h.length > 253 then false
  else if h.head? = some dot ∨ h.getLast? = some dot then false
  else if !validLabels h 0 then false
  else !h.all fun c => isDigit c || c = dot

def splitCidr (cidr : Bytes) : Option (UInt32 × Nat) :=
  if slash ∉ cidr then none
  else
    let a := cidr.takeWhile (· ≠ slash)
    let l := cidr.drop (a.length + 1)
    if l = [] ∨ l.length > 2 ∨ !l.all isDigit then none
    else if l.length > 1 ∧ l.head? = some 48 then none
    else if read l > 32 then none
    else (parseIpv4 a).map fun addr => (addr, read l)

def tunnelSubnet : Bytes := ascii "10.77.77.0/24"

def validWgKey (b64 : Bytes) : Bool :=
  if b64.length ≠ 44 ∨ b64.getD 43 0 ≠ equalsSign ∨ b64.getD 42 0 = equalsSign then false
  else
    match b64Decode stdAlphabet true b64 with
    | none => false
    | some raw => raw.length = 32

def validEndpointHost (host : Bytes) : Bool :=
  if host = [] ∨ host.length > 255 then false
  else if host.head? = some 91 then
    if host.length < 4 ∨ host.getLast? ≠ some 93 then false
    else
      match parseIpv6 ((host.drop 1).take (host.length - 2)) with
      | none => false
      | some a =>
          if a.all (· = 0) then false
          else if a.head? = some 0xff then false
          else !(a.getLast? = some 1 && (a.take 15).all (· = 0))
  else
    match parseIpv4 host with
    | some v => ipv4UsableEndpoint v
    | none => validHostname host

def validTunnelIp (ip : Bytes) : Bool :=
  match parseIpv4 ip, splitCidr tunnelSubnet with
  | some v, some (net, len) =>
      let mask : UInt32 := if len = 0 then 0 else 0xffffffff <<< UInt32.ofNat (32 - len)
      if v &&& mask ≠ net &&& mask then false
      else if v = net &&& mask then false
      else if v = (net &&& mask) ||| ~~~mask then false
      else true
  | _, _ => false

/-- `route_allowed`; the text is what `why` receives. -/
def routeAllowed (cidr : Bytes) : Except String Unit :=
  match splitCidr cidr with
  | none => .error "not a valid IPv4 CIDR"
  | some (addr, len) =>
      if len ≠ 32 then .error "only exact /32 host routes are permitted"
      else if addr = 0 then .error "unspecified address"
      else if addr >>> 24 = 127 then .error "loopback address"
      else if addr >>> 28 = 0xE then .error "multicast address"
      else if addr = 0xffffffff then .error "broadcast address"
      else if !validTunnelIp (cidr.takeWhile (· ≠ slash)) then
        .error "outside the scshr tunnel subnet 10.77.77.0/24"
      else .ok ()

def hostRoute (ip : Bytes) : Bytes := ip ++ ascii "/32"

/-! ## Descriptors -/

structure ServerDescriptor where
  publicKey : Bytes
  endpointHost : Bytes
  listenPort : UInt16 := 51820
  macIp : Bytes := ascii "10.77.77.1"
  winIp : Bytes := ascii "10.77.77.2"
  deriving DecidableEq

structure ClientDescriptor where
  publicKey : Bytes
  winIp : Bytes := ascii "10.77.77.2"
  deriving DecidableEq

/-- `parse_fields`: exactly the expected keys in order, one `k=v` a line. -/
def parseFields : List String → Bytes → Except String (List Bytes)
  | [], _ => .error "unexpected extra field"
  | key :: keys, body =>
      let line := body.takeWhile (· ≠ newline)
      let want := ascii key ++ [equalsSign]
      if line.length ≤ want.length ∨ line.take want.length ≠ want then
        .error ("expected field " ++ key)
      else
        let value := line.drop want.length
        match body.drop line.length with
        | [] => if keys = [] then .ok [value] else .error "missing fields"
        | _ :: rest =>
            if rest = [] then .error "trailing newline"
            else (parseFields keys rest).map fun values => value :: values

def parsePort (s : Bytes) : Option UInt16 :=
  if s = [] ∨ s.length > 5 ∨ !s.all isDigit then none
  else if s.length > 1 ∧ s.head? = some 48 then none
  else if read s < 1 ∨ read s > 65535 then none
  else some (UInt16.ofNat (read s))

/-- `decode_prefixed`; `name` is the tag in front of the colon, its last character the
version. -/
def decodePrefixed (code : Bytes) (name : String) : Except String Bytes :=
  let tag := ascii name ++ [colon]
  if code.length ≤ tag.length ∨ code.take tag.length ≠ tag then
    if code.length > tag.length ∧ code.take (tag.length - 2) = tag.take (tag.length - 2) ∧
        code.getD (tag.length - 1) 0 = colon then
      .error "unsupported descriptor version"
    else .error ("not a " ++ name ++ " descriptor")
  else
    let payload := code.drop tag.length
    if payload.length > 1024 then .error "descriptor too long"
    else
      match base64urlDecode payload with
      | none => .error "invalid base64url payload"
      | some body => if body = [] then .error "empty payload" else .ok body

def field (key : String) (value : Bytes) : Bytes := ascii key ++ [equalsSign] ++ value

def serverBody (d : ServerDescriptor) : Bytes :=
  field "k" d.publicKey ++ [newline] ++ field "e" d.endpointHost ++ [newline] ++
    field "p" (write d.listenPort.toNat) ++ [newline] ++ field "s" d.macIp ++ [newline] ++
    field "c" d.winIp

def clientBody (d : ClientDescriptor) : Bytes :=
  field "k" d.publicKey ++ [newline] ++ field "c" d.winIp

def encodeServer (d : ServerDescriptor) : Except String Bytes :=
  if !validWgKey d.publicKey then .error "server descriptor: invalid WireGuard public key"
  else if !validEndpointHost d.endpointHost then .error "server descriptor: invalid endpoint host"
  else if d.listenPort = 0 then .error "server descriptor: invalid listen port"
  else if !validTunnelIp d.macIp then .error "server descriptor: invalid mac tunnel IP"
  else if !validTunnelIp d.winIp then .error "server descriptor: invalid windows tunnel IP"
  else if d.macIp = d.winIp then .error "server descriptor: tunnel IPs must differ"
  else .ok (ascii "SCST1:" ++ base64urlEncode (serverBody d))

def encodeClient (d : ClientDescriptor) : Except String Bytes :=
  if !validWgKey d.publicKey then .error "client descriptor: invalid WireGuard public key"
  else if !validTunnelIp d.winIp then .error "client descriptor: invalid windows tunnel IP"
  else .ok (ascii "SCCL1:" ++ base64urlEncode (clientBody d))

/-- The checks of `decode_server` on the fields, in its order. -/
def checkServer (key host port mac win : Bytes) : Except String ServerDescriptor :=
  match parsePort port with
  | none => .error "invalid listen port"
  | some listenPort =>
      if !validWgKey key then .error "invalid WireGuard public key"
      else if !validEndpointHost host then .error "invalid endpoint host"
      else if !validTunnelIp mac then .error "mac tunnel IP outside 10.77.77.0/24"
      else if !validTunnelIp win then .error "windows tunnel IP outside 10.77.77.0/24"
      else if mac = win then .error "tunnel IPs must differ"
      else (routeAllowed (hostRoute mac)).map fun _ => ⟨key, host, listenPort, mac, win⟩

def checkClient (key win : Bytes) : Except String ClientDescriptor :=
  if !validWgKey key then .error "invalid WireGuard public key"
  else if !validTunnelIp win then .error "windows tunnel IP outside 10.77.77.0/24"
  else (routeAllowed (hostRoute win)).map fun _ => ⟨key, win⟩

/-- What `decode_server` computes in front of its assignments. -/
def readServer (code : Bytes) : Except String ServerDescriptor :=
  (decodePrefixed code "SCST1").bind fun body =>
    (parseFields ["k", "e", "p", "s", "c"] body).bind fun fields =>
      checkServer (fields.getD 0 []) (fields.getD 1 []) (fields.getD 2 []) (fields.getD 3 [])
        (fields.getD 4 [])

def readClient (code : Bytes) : Except String ClientDescriptor :=
  (decodePrefixed code "SCCL1").bind fun body =>
    (parseFields ["k", "c"] body).bind fun fields =>
      checkClient (fields.getD 0 []) (fields.getD 1 [])

structure Decoded (α : Type) where
  accepted : Bool
  out : α
  error : String
  deriving DecidableEq

/-- `out` is assigned and `error` cleared on success, `error` assigned on failure. -/
def assign {α : Type} (result : Except String α) (out : α) : Decoded α :=
  match result with
  | .ok value => ⟨true, value, ""⟩
  | .error text => ⟨false, out, text⟩

def decodeServer (code : Bytes) (out : ServerDescriptor) : Decoded ServerDescriptor :=
  assign (readServer code) out

def decodeClient (code : Bytes) (out : ClientDescriptor) : Decoded ClientDescriptor :=
  assign (readClient code) out

/-! ## The configuration of the Windows side -/

structure WindowsTunnelConfig where
  privateKey : Bytes
  winIp : Bytes := ascii "10.77.77.2"
  peerPublicKey : Bytes
  peerIp : Bytes := ascii "10.77.77.1"
  endpointHost : Bytes
  endpointPort : UInt16 := 51820
  deriving DecidableEq

def windowsConf (c : WindowsTunnelConfig) : Bytes :=
  ascii "# Generated by scshr init - do not edit by hand.\n" ++
    ascii "# scshr application tunnel: one Windows peer <-> one macOS peer, " ++
    ascii "no default route, no DNS.\n" ++
    ascii "[Interface]\n" ++
    ascii "PrivateKey = " ++ c.privateKey ++ ascii "\n" ++
    ascii "Address = " ++ c.winIp ++ ascii "/32\n" ++
    ascii "\n" ++
    ascii "[Peer]\n" ++
    ascii "PublicKey = " ++ c.peerPublicKey ++ ascii "\n" ++
    ascii "AllowedIPs = " ++ c.peerIp ++ ascii "/32\n" ++
    ascii "Endpoint = " ++ c.endpointHost ++ ascii ":" ++ write c.endpointPort.toNat ++
    ascii "\n" ++
    ascii "PersistentKeepalive = " ++ write 25 ++ ascii "\n"

def renderWindowsConf (c : WindowsTunnelConfig) : Except String Bytes :=
  if !validWgKey c.privateKey then .error "tunnel config: invalid local private key"
  else if !validWgKey c.peerPublicKey then .error "tunnel config: invalid peer public key"
  else if !validTunnelIp c.winIp then .error "tunnel config: invalid local tunnel address"
  else if !validEndpointHost c.endpointHost then .error "tunnel config: invalid endpoint host"
  else if c.endpointPort = 0 then .error "tunnel config: invalid endpoint port"
  else
    match routeAllowed (hostRoute c.peerIp) with
    | .error why => .error ("tunnel config: peer route rejected: " ++ why)
    | .ok () =>
        if c.peerIp = c.winIp then
          .error "tunnel config: local and peer tunnel IPs must differ"
        else .ok (windowsConf c)

end Scshr.Tunnel
