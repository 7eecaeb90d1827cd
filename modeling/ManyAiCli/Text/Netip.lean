import ManyAiCli.Text.Strings
import Mathlib.Algebra.Group.Nat.Defs

/-! Addresses of the net and their text, after Go's `net/netip`. -/

namespace ManyAiCli.Text

/-- `netip.Addr`; an address of version 6 may have a zone. -/
inductive Addr where
  | v4 (bits : BitVec 32)
  | v6 (bits : BitVec 128) (zone : List Char)
  deriving DecidableEq, Repr

namespace Addr

/-- An address of version 4 that is mapped to version 6 becomes one of version 4. -/
def unmap : Addr → Addr
  | .v4 bits => .v4 bits
  | .v6 bits zone => if bits >>> 32 = 0xFFFF#128 then .v4 (bits.setWidth 32) else .v6 bits zone

def isUnspecified : Addr → Bool
  | .v4 bits => bits = 0
  | .v6 bits zone => bits = 0 && zone.isEmpty

def isLoopback : Addr → Bool
  | .v4 bits => bits >>> 24 = 127#32
  | .v6 bits _ => bits = 1

/-- 10.0.0.0/8, 172.16.0.0/12, 192.168.0.0/16 and fc00::/7. -/
def isPrivate : Addr → Bool
  | .v4 bits => bits >>> 24 = 10#32 || bits >>> 20 = 0xAC1#32 || bits >>> 16 = 0xC0A8#32
  | .v6 bits _ => bits >>> 121 = 0x7E#128

/-- 169.254.0.0/16 and fe80::/10. -/
def isLinkLocalUnicast : Addr → Bool
  | .v4 bits => bits >>> 16 = 0xA9FE#32
  | .v6 bits _ => bits >>> 118 = 0x3FA#128

/-- 224.0.0.0/24 and the link-local scope of ff00::/8. -/
def isLinkLocalMulticast : Addr → Bool
  | .v4 bits => bits >>> 8 = 0xE00000#32
  | .v6 bits _ => (bits >>> 112) &&& 0xFF0F#128 = 0xFF02#128

/-- 224.0.0.0/4 and ff00::/8. -/
def isMulticast : Addr → Bool
  | .v4 bits => bits >>> 28 = 0xE#32
  | .v6 bits _ => bits >>> 120 = 0xFF#128

end Addr

/-! ### From text -/

/-- A byte in decimal, without leading zeros. -/
def parseOctet (s : List Char) : Option ℕ :=
  if s = [] ∨ s.all Char.isDigit = false ∨ (s.head? = some '0' ∧ s.length > 1) then none
  else (s.foldl (fun n c => n * 10 + (c.toNat - 48)) 0 |> some).filter (· ≤ 255)

/-- Four bytes. -/
def parseIPv4Fields (s : List Char) : Option (List ℕ) :=
  let fields := s.splitOn '.'
  if fields.length = 4 then fields.mapM parseOctet else none

def hexValue (c : Char) : Option ℕ :=
  if '0' ≤ c ∧ c ≤ '9' then some (c.toNat - 48)
  else if 'a' ≤ c ∧ c ≤ 'f' then some (c.toNat - 87)
  else if 'A' ≤ c ∧ c ≤ 'F' then some (c.toNat - 55)
  else none

/-- The hex digits in front, one to four, and the rest. -/
def hexGroup (s : List Char) : Option (ℕ × List Char) :=
  let digits := s.takeWhile fun c => (hexValue c).isSome
  if digits = [] ∨ digits.length > 4 then none
  else some (digits.foldl (fun n c => n * 16 + (hexValue c).getD 0) 0, s.drop digits.length)

/-- The loop of `parseIPv6`, for as many groups as there is room: the bytes, and how many of
them are before the ellipsis. -/
def ipv6Groups : ℕ → Option ℕ → List ℕ → List Char → Option (List ℕ × Option ℕ)
  | 0, ellipsis, ip, s => if s = [] then some (ip, ellipsis) else none
  | room + 1, ellipsis, ip, s =>
    match hexGroup s with
    | none => none
    | some (acc, rest) =>
      if rest.head? = some '.' then
        if (ellipsis = none ∧ ip.length ≠ 12) ∨ ip.length + 4 > 16 then none
        else (parseIPv4Fields s).map fun fields => (ip ++ fields, ellipsis)
      else
        let ip := ip ++ [acc / 256, acc % 256]
        match rest with
        | [] => some (ip, ellipsis)
        | [_] => none
        | c :: d :: rest =>
          if c ≠ ':' then none
          else if d ≠ ':' then ipv6Groups room ellipsis ip (d :: rest)
          else if ellipsis.isSome then none
          else if rest = [] then some (ip, some ip.length)
          else ipv6Groups room (some ip.length) ip rest

def bytesValue (bytes : List ℕ) : ℕ := bytes.foldl (fun n b => n * 256 + b) 0

/-- The ellipsis stands for one group at least. -/
def expandEllipsis (ip : List ℕ) : Option ℕ → Option (List ℕ)
  | none => if ip.length < 16 then none else some ip
  | some n => if ip.length < 16 then some (ip.take n ++ List.replicate (16 - ip.length) 0 ++ ip.drop n) else none

def parseIPv6 (text : List Char) : Option Addr :=
  let s := text.takeWhile (· ≠ '%')
  let zone := (text.drop s.length).drop 1
  if s.length < text.length ∧ zone = [] then none
  else if s = [':', ':'] then some (.v6 0 zone)
  else
    let parsed := match s with
      | ':' :: ':' :: s => ipv6Groups 8 (some 0) [] s
      | s => ipv6Groups 8 none [] s
    (parsed.bind fun (ip, ellipsis) => expandEllipsis ip ellipsis).map fun ip => .v6 (BitVec.ofNat 128 (bytesValue ip)) zone

/-- `netip.ParseAddr`: the first of the three characters decides. -/
def parseAddr (s : List Char) : Option Addr :=
  match s.find? fun c => c = '.' || c = ':' || c = '%' with
  | some '.' => (parseIPv4Fields s).map fun fields => .v4 (BitVec.ofNat 32 (bytesValue fields))
  | some ':' => parseIPv6 s
  | _ => none

/-! ### To text -/

def octet (bits : BitVec 32) (i : ℕ) : ℕ := bits.toNat / 256 ^ (3 - i) % 256

def group (bits : BitVec 128) (i : ℕ) : ℕ := bits.toNat / 65536 ^ (7 - i) % 65536

def formatIPv4 (bits : BitVec 32) : List Char :=
  ['.'].intercalate ((List.range 4).map fun i => Nat.toDigits 10 (octet bits i))

/-- How many groups from here on are zero. -/
def zerosFrom (bits : BitVec 128) (i : ℕ) : ℕ :=
  (((List.range 8).drop i).takeWhile fun j => group bits j = 0).length

/-- The first longest run of two or more zero groups: its start and its end. -/
def zeroRun (bits : BitVec 128) : Option (ℕ × ℕ) :=
  (List.range 8).foldl (fun best i =>
    let l := zerosFrom bits i
    if 2 ≤ l ∧ (best.map fun (run : ℕ × ℕ) => run.2 - run.1).getD 0 < l then some (i, i + l) else best) none

def formatGroups (bits : BitVec 128) (first last : ℕ) : List Char :=
  [':'].intercalate (((List.range last).drop first).map fun i => Nat.toDigits 16 (group bits i))

def formatIPv6 (bits : BitVec 128) : List Char :=
  match zeroRun bits with
  | none => formatGroups bits 0 8
  | some (zeroStart, zeroEnd) => formatGroups bits 0 zeroStart ++ [':', ':'] ++ formatGroups bits zeroEnd 8

/-- `net.IP.String`, which does not know the zone. -/
def ipString (a : Addr) : List Char :=
  match a.unmap with
  | .v4 bits => formatIPv4 bits
  | .v6 bits _ => formatIPv6 bits

example : parseAddr "fe80::1%eth0".toList = some (.v6 0xFE800000000000000000000000000001#128 "eth0".toList) := by
  decide +kernel

example : ipString (.v6 0x20010DB8000000000000000000000001#128 []) = "2001:db8::1".toList := by
  decide +kernel

end ManyAiCli.Text
