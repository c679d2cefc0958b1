import Scshr.Lib.TextLines
import Scshr.Mac.Conf

/-! The pure part of `tools/scshr-macos-tunnel.sh`: its checks, its generators and the
reading of settings and of a Windows code.  Arguments and files are their bytes.  The
tools behave as POSIX says on text files; `grep` and `sed` go line by line, so a check
that calls `grep -q` is passed by one good line among others. -/
namespace Scshr.Mac

open Common Lib Lib.Decimal Tunnel

/-! ## The shell and its tools -/

def grepQuiet (accepts : Bytes → Bool) (text : Bytes) : Bool :=
  (Text.lines newline text).any accepts

def isBlank (c : UInt8) : Bool := c = 32 || c = 9

/-- The number an operand of `[ -le ]` stands for: `strtoimax` skips white space in
front, newlines included; behind the digits only blanks may follow. -/
def testNumber (word : Bytes) : Option Int :=
  let (negative, digits) := splitSign (word.dropWhile isSpace)
  let run := digits.takeWhile isDigit
  let value : Int := if negative then -(read run : Int) else read run
  if run = [] then none
  else if !(digits.dropWhile isDigit).all isBlank then none
  else if value < -9223372036854775808 ∨ 9223372036854775807 < value then none
  else some value

/-- `[ "$word" -le bound ]`; a word that is no number fails the test. -/
def testLe (word : Bytes) (bound : Int) : Bool :=
  match testNumber word with
  | none => false
  | some value => value ≤ bound

def testGe (word : Bytes) (bound : Int) : Bool :=
  match testNumber word with
  | none => false
  | some value => bound ≤ value

/-- `$(...)` drops the newlines at the end and the bytes 0. -/
def substitution (output : Bytes) : Bytes :=
  ((output.filter (· ≠ 0)).reverse.dropWhile (· = newline)).reverse

def stripPrefix (front text : Bytes) : Option Bytes :=
  if front.isPrefixOf text then some (text.drop front.length) else none

/-- `IFS=. read -r` into so many variables and one more, which takes the rest. -/
def readFields : Nat → Bytes → List Bytes
  | 0, line =>
      let word := line.takeWhile (· ≠ dot)
      -- a single dot behind the last field is not part of it
      [if (line.dropWhile (· ≠ dot)).drop 1 = [] then word else line]
  | more + 1, line =>
      line.takeWhile (· ≠ dot) :: readFields more ((line.dropWhile (· ≠ dot)).drop 1)

/-! ## Checks -/

def isWgKeyChar (c : UInt8) : Bool := stdAlphabet.contains c

/-- `^[A-Za-z0-9+/]{42}[A-Za-z0-9+/=]=$`. -/
def wgKeyLine (line : Bytes) : Bool :=
  line.length = 44 && (line.take 42).all isWgKeyChar &&
    ((line.drop 42).take 1).all (fun c => isWgKeyChar c || c = equalsSign) &&
    line.drop 43 = [equalsSign]

def isWgKey (key : Bytes) : Bool := grepQuiet wgKeyLine key

def tunnelSubnetPrefix : Bytes := ascii "10.77.77."
def defaultMacIp : Bytes := ascii "10.77.77.1"
def defaultWinIp : Bytes := ascii "10.77.77.2"
def defaultListenPort : Bytes := ascii "51820"

/-- `^[0-9]{1,3}$`. -/
def octetLine (line : Bytes) : Bool := line.all isDigit && 1 ≤ line.length && line.length ≤ 3

def isTunnelIp (ip : Bytes) : Bool :=
  match stripPrefix tunnelSubnetPrefix ip with
  | none => false
  | some last => grepQuiet octetLine last && testGe last 1 && testLe last 254

/-- `^[1-9][0-9]{0,4}$`. -/
def portLine (line : Bytes) : Bool :=
  line.all isDigit && 1 ≤ line.length && line.length ≤ 5 && line.head? ≠ some 48

def isPort (port : Bytes) : Bool := grepQuiet portLine port && testLe port 65535

/-- `^[0-9]+(\.[0-9]+){3}$`. -/
def quadLine (line : Bytes) : Bool :=
  (line.splitOn dot).length = 4 &&
    (line.splitOn dot).all fun octet => octet ≠ [] && octet.all isDigit

/-- `[A-Za-z0-9]([A-Za-z0-9-]*[A-Za-z0-9])?`. -/
def hostLabel (label : Bytes) : Bool :=
  label.all (fun c => isAlnum c || c = hyphen) && label.head?.any isAlnum &&
    label.getLast?.any isAlnum

def hostLine (line : Bytes) : Bool := (line.splitOn dot).all hostLabel

def isEndpointHost (host : Bytes) : Bool :=
  if host = [] then false
  else if host.length > 253 then false
  else if grepQuiet quadLine host then
    let octets := readFields 3 (host.takeWhile (· ≠ newline))
    let a := octets.headD []
    -- `-lt 224`
    octets.all (testLe · 255) && a ≠ ascii "0" && a ≠ ascii "127" && testLe a 223
  else grepQuiet hostLine host

/-! ## Generators -/

def interfaceLines (privateKey macIp port : Bytes) : List Bytes := [
  ascii "# Generated by scshr-macos-tunnel.sh - do not edit by hand.",
  ascii "# scshr application tunnel: one macOS peer <-> one Windows peer, no forwarding, no NAT.",
  ascii "[Interface]",
  ascii "PrivateKey = " ++ privateKey,
  ascii "Address = " ++ macIp ++ ascii "/32",
  ascii "ListenPort = " ++ port]

def peerLines (publicKey ip : Bytes) : List Bytes := [
  [],
  ascii "[Peer]",
  ascii "PublicKey = " ++ publicKey,
  ascii "AllowedIPs = " ++ ip ++ ascii "/32"]

def renderConf (privateKey macIp port : Bytes) (peer : Option (Bytes × Bytes)) : Bytes :=
  Text.unlines newline (interfaceLines privateKey macIp port ++
    match peer with
    | none => []
    | some (publicKey, ip) => peerLines publicKey ip)

def pfHeader : List Bytes := [
  ascii "# Generated by scshr-macos-tunnel.sh - do not edit by hand.",
  ascii "# scshr Screen Sharing isolation. First match wins (quick), so the passes come first.",
  ascii "# Address-based on purpose: the utun interface number is not stable across boots."]

def sentence (words : List Bytes) : Bytes := [32].intercalate words

/-- The words of `ACTION in quick proto PROTO from SOURCE to DESTINATION port PORTS`. -/
def pfRule (action : List Bytes) (proto source destination : Bytes) (ports : List Bytes) :
    List Bytes :=
  action ++ [ascii "in", ascii "quick", ascii "proto", proto, ascii "from", source, ascii "to",
    destination, ascii "port"] ++ ports

def pfTcpPorts : List Bytes := [ascii "\x7b", ascii "5900", ascii "\x7d"]

def pfUdpPorts : List Bytes :=
  [ascii "\x7b", ascii "5900", ascii "5901", ascii "5902", ascii "\x7d"]

def pfRuleWords (macIp winIp port : Bytes) : List (List Bytes) :=
  let pass := [ascii "pass"]
  let block := [ascii "block", ascii "drop"]
  let keep := [ascii "keep", ascii "state"]
  let any := ascii "any"
  let inside := ascii "127.0.0.1"
  [pfRule pass (ascii "udp") any any [port] ++ keep,
    pfRule pass (ascii "tcp") inside inside pfTcpPorts ++ keep,
    pfRule pass (ascii "udp") inside inside pfUdpPorts ++ keep,
    pfRule pass (ascii "tcp") winIp macIp pfTcpPorts ++ keep,
    pfRule pass (ascii "udp") winIp macIp pfUdpPorts ++ keep,
    pfRule block (ascii "tcp") any any pfTcpPorts,
    pfRule block (ascii "udp") any any pfUdpPorts]

def renderPf (macIp winIp port : Bytes) : Bytes :=
  Text.unlines newline (pfHeader ++ (pfRuleWords macIp winIp port).map sentence)

/-- `tr '+/' '-_'`. -/
def toUrl (c : UInt8) : UInt8 := if c = 43 then 45 else if c = 47 then 95 else c

/-- `tr -- '-_' '+/'`. -/
def toStd (c : UInt8) : UInt8 := if c = hyphen then 43 else if c = 95 then slash else c

def b64urlEncode (raw : Bytes) : Bytes :=
  ((b64Encode stdAlphabet true raw).map toUrl).filter (· ≠ equalsSign)

abbrev Died := Except Bytes

def dieUnless (accepted : Bool) (text : Bytes) : Died Unit :=
  if accepted then .ok () else .error text

def renderServerCode (key host port macIp winIp : Bytes) : Died Bytes := do
  dieUnless (isWgKey key) (ascii "invalid WireGuard public key")
  dieUnless (isEndpointHost host) (ascii "invalid endpoint host: " ++ host)
  dieUnless (isPort port) (ascii "invalid listen port: " ++ port)
  dieUnless (isTunnelIp macIp) (ascii "invalid mac tunnel IP: " ++ macIp)
  dieUnless (isTunnelIp winIp) (ascii "invalid windows tunnel IP: " ++ winIp)
  dieUnless (macIp ≠ winIp) (ascii "tunnel IPs must differ")
  .ok (ascii "SCST1:" ++ b64urlEncode (ascii "k=" ++ key ++ ascii "\ne=" ++ host ++
    ascii "\np=" ++ port ++ ascii "\ns=" ++ macIp ++ ascii "\nc=" ++ winIp))

/-! ## Settings -/

/-- `setting`: the last line of the file with that key, unless it is empty. -/
def setting (file : Option Bytes) (key : String) (default : Bytes) : Bytes :=
  match file with
  | none => default
  | some text =>
      let values := (Text.lines newline text).filterMap (stripPrefix (ascii key ++ [equalsSign]))
      let value := substitution (values.getLast?.getD [])
      if value ≠ [] then value else default

def settingsText (endpoint port macIp winIp peerPub : Bytes) : Bytes :=
  Text.unlines newline [ascii "endpoint=" ++ endpoint, ascii "listen_port=" ++ port,
    ascii "mac_ip=" ++ macIp, ascii "win_ip=" ++ winIp, ascii "peer_public_key=" ++ peerPub]

/-! ## The Windows code -/

section

-- `base64 --decode`, which fails or prints the bytes
variable (base64Decode : Bytes → Option Bytes)

def b64urlDecode (input : Bytes) : Option Bytes :=
  let s := substitution input
  match s.length % 4 with
  | 2 => base64Decode ((s ++ [equalsSign, equalsSign]).map toStd)
  | 3 => base64Decode ((s ++ [equalsSign]).map toStd)
  | 1 => none
  | _ => base64Decode (s.map toStd)

/-- `sed -n 'Ns/^key=//p'`, with the lines counted from 0. -/
def sedField (index : Nat) (key : String) (body : Bytes) : Bytes :=
  (((Text.lines newline body)[index]?).bind (stripPrefix (ascii key ++ [equalsSign]))).getD []

/-- `^[A-Za-z0-9_-]+$`. -/
def payloadLine (line : Bytes) : Bool := line ≠ [] && line.all urlAlphabet.contains

/-- `decode_client_code`: what it stores in `WIN_PUB` and `WIN_IP`. -/
def decodeClientCode (settings : Option Bytes) (code : Bytes) : Died (Bytes × Bytes) :=
  match stripPrefix (ascii "SCCL1:") code with
  | none =>
      .error (if (ascii "SCCL").isPrefixOf code && (code.drop 4).contains colon
        then ascii "unsupported pairing descriptor version"
        else ascii "not an SCCL1 pairing descriptor")
  | some payload => do
      dieUnless (payload ≠ []) (ascii "empty pairing descriptor")
      dieUnless (payload.length ≤ 1024) (ascii "pairing descriptor too long")
      dieUnless (grepQuiet payloadLine payload) (ascii "invalid base64url payload")
      match b64urlDecode base64Decode payload with
      | none => .error (ascii "invalid base64url payload")
      | some output => do
          let body := substitution output
          dieUnless (body.count newline = 1) (ascii "malformed pairing descriptor")
          let winPub := sedField 0 "k" body
          let winIp := sedField 1 "c" body
          dieUnless (winPub ≠ []) (ascii "malformed pairing descriptor: missing key field")
          dieUnless (winIp ≠ []) (ascii "malformed pairing descriptor: missing address field")
          dieUnless (isWgKey winPub)
            (ascii "invalid WireGuard public key in pairing descriptor")
          dieUnless (isTunnelIp winIp)
            (ascii "windows tunnel IP outside 10.77.77.0/24: " ++ winIp)
          dieUnless (winIp ≠ setting settings "mac_ip" defaultMacIp)
            (ascii "the paired peer claims this Mac's tunnel address")
          .ok (winPub, winIp)

end

end Scshr.Mac
