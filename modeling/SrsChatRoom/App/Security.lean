import SrsChatRoom.App.Sdp

/-!
# Access rules (`srs_app_security.cpp`, `srs_protocol_utility.cpp`)

A rule allows or denies playing or publishing to all addresses, to one, or to a network `a.b.c.d/n`.
The argument of a rule is read by `srs_is_ipv4`, which looks at the characters only, by `atoi`, and
by `inet_pton`, whose failures count as the address 0.0.0.0. The number that `atoi` gives is the
index into the table of masks; `none` stands for an index outside of the table.
-/

namespace SrsChatRoom.App.Security

open TextStream (Text)
open Sdp (atoi cStr)

/-! ## Addresses -/

/-- A part of an address in decimal, as `inet_pton` takes it. -/
def octet (s : Text) : Option ℕ :=
  if s ≠ [] ∧ s.length ≤ 3 ∧ (s.all Char.isDigit) ∧ (s.head? = some '0' → s.length = 1) ∧
      Nat.ofDigitChars 10 s 0 ≤ 255 then
    some (Nat.ofDigitChars 10 s 0)
  else none

/-- `inet_pton(AF_INET, ...)`, with the number in the order of the host. -/
def inetPton (s : Text) : Option (BitVec 32) :=
  match (cStr s).splitOn '.' with
  | [a, b, c, d] => do
    let a ← octet a
    let b ← octet b
    let c ← octet c
    let d ← octet d
    return BitVec.ofNat 32 (((a * 256 + b) * 256 + c) * 256 + d)
  | _ => none

/-- `srs_is_ipv4` -/
def srsIsIpv4 (domain : Text) : Bool := domain.all fun ch => ch = '.' ∨ '0' ≤ ch ∧ ch ≤ '9'

/-- `srs_ipv4_to_num` -/
def srsIpv4ToNum (ip : Text) : BitVec 32 := (inetPton ip).getD 0

/-- `srs_ipv4_within_mask` -/
def srsIpv4WithinMask (ip network mask : Text) : Bool :=
  srsIpv4ToNum ip &&& srsIpv4ToNum mask = srsIpv4ToNum network &&& srsIpv4ToNum mask

/-- The masks of `CIDR_VALUES`. -/
def cidrValues : List String :=
  ["128.0.0.0", "192.0.0.0", "224.0.0.0", "240.0.0.0", "248.0.0.0", "252.0.0.0", "254.0.0.0",
   "255.0.0.0", "255.128.0.0", "255.192.0.0", "255.224.0.0", "255.240.0.0", "255.248.0.0",
   "255.252.0.0", "255.254.0.0", "255.255.0.0", "255.255.128.0", "255.255.192.0",
   "255.255.224.0", "255.255.240.0", "255.255.248.0", "255.255.252.0", "255.255.254.0",
   "255.255.255.0", "255.255.255.128", "255.255.255.192", "255.255.255.224",
   "255.255.255.240", "255.255.255.248", "255.255.255.252", "255.255.255.254",
   "255.255.255.255"]

/-- What stands in front of the slash. -/
def addressPart (s : Text) : Text := s.takeWhile (· ≠ '/')

/-- What stands behind it. -/
def lengthPart (s : Text) : Text := (s.dropWhile (· ≠ '/')).tail

/-- `cidr_length_num`: an `int` that becomes a `size_t`. -/
def cidrLengthNum (cidrLength : Text) : ℕ := ((atoi (cStr cidrLength)) % 2 ^ 64).toNat

/-- `srs_get_cidr_mask` -/
def srsGetCidrMask (s : Text) : Option Text :=
  if '/' ∉ s then
    if srsIsIpv4 s then cidrValues[32 - 1]?.map String.toList else some []
  else if ¬ srsIsIpv4 (addressPart s) then some []
  else if lengthPart s = [] then some []
  else if cidrLengthNum (lengthPart s) = 0 then some []
  else cidrValues[cidrLengthNum (lengthPart s) - 1]?.map String.toList

/-- `srs_get_cidr_ipv4` -/
def srsGetCidrIpv4 (s : Text) : Text :=
  if '/' ∉ s then if srsIsIpv4 s then s else []
  else if ¬ srsIsIpv4 (addressPart s) then []
  else if lengthPart s = [] then []
  else if cidrLengthNum (lengthPart s) = 0 then []
  else addressPart s

/-! ## Rules -/

/-- `SrsRtmpConnType` -/
inductive SrsRtmpConnType
  | unknown
  | play
  | hlsPlay
  | flvPlay
  | rtcPlay
  | srtPlay
  | fmlePublish
  | flashPublish
  | haivisionPublish
  | rtcPublish
  | srtPublish
deriving DecidableEq

/-- The kind that a rule has to be of for the connection, its first argument. -/
def SrsRtmpConnType.kind : SrsRtmpConnType → Option Text
  | .play | .hlsPlay | .flvPlay | .rtcPlay | .srtPlay => some "play".toList
  | .fmlePublish | .flashPublish | .haivisionPublish | .rtcPublish | .srtPublish =>
    some "publish".toList
  | .unknown => none

/-- `SrsConfDirective`, as far as a rule has it. -/
structure SrsConfDirective where
  name : Text
  args : List Text

/-- `arg0()` -/
def SrsConfDirective.arg0 (rule : SrsConfDirective) : Text := rule.args.headD []

/-- `arg1()` -/
def SrsConfDirective.arg1 (rule : SrsConfDirective) : Text := (rule.args[1]?).getD []

/-- The test of an address against the argument of a rule. -/
def matchesAddress (arg ip : Text) : Option Bool :=
  (srsGetCidrMask arg).map fun cidrMask =>
    (arg = "all".toList ∨ arg = ip) ||
      (srsIsIpv4 (srsGetCidrIpv4 arg) && cidrMask ≠ [] &&
        srsIpv4WithinMask ip (srsGetCidrIpv4 arg) cidrMask)

/-- What `allow_check` and `deny_check` do with a rule of their name. -/
def SrsConfDirective.matchesClient (rule : SrsConfDirective) (type : SrsRtmpConnType) (ip : Text) :
    Option Bool :=
  (matchesAddress rule.arg1 ip).map fun matched => type.kind = some rule.arg0 && matched

/-- The answers: success and the three errors. -/
inductive Verdict
  | ok
  | security
  | deny
  | allow
deriving DecidableEq

/-- The loop over the rules with a name: whether one of them matches. -/
def anyMatches (type : SrsRtmpConnType) (ip : Text) : List SrsConfDirective → Option Bool
  | [] => some false
  | rule :: rules =>
    (rule.matchesClient type ip).bind fun matched =>
      if matched then some true else anyMatches type ip rules

/-- The rules with a name. -/
def named (name : String) (rules : List SrsConfDirective) : List SrsConfDirective :=
  rules.filter fun rule => rule.name = name.toList

/-- `deny_check` -/
def denyCheck (rules : List SrsConfDirective) (type : SrsRtmpConnType) (ip : Text) :
    Option Verdict :=
  (anyMatches type ip (named "deny" rules)).map fun matched => if matched then .deny else .ok

/-- `allow_check` -/
def allowCheck (rules : List SrsConfDirective) (type : SrsRtmpConnType) (ip : Text) :
    Option Verdict :=
  (anyMatches type ip (named "allow" rules)).map fun matched =>
    if matched then .ok
    else if 0 < (named "allow" rules).length ∨
        (named "deny" rules).length + (named "allow" rules).length = 0 then .allow
    else .ok

/-- `do_check` -/
def doCheck (rules : Option (List SrsConfDirective)) (type : SrsRtmpConnType) (ip : Text) :
    Option Verdict :=
  match rules with
  | none => some .security
  | some rules =>
    (denyCheck rules type ip).bind fun verdict =>
      if verdict ≠ .ok then some verdict else allowCheck rules type ip

end SrsChatRoom.App.Security
