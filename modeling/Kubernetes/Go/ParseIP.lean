import Mathlib
import Kubernetes.Go.Net

/-!
# `ParseIPSloppy`: addresses from text

`k8s.io/utils/net.ParseIPSloppy` is the copy of Go's `net.ParseIP` kept in
`k8s.io/utils/internal/third_party/forked/golang/net`, which still reads IPv4 octets with
leading zeros.  A text is read as IPv4 when a dot comes before any colon, as IPv6 when a colon
does, and is no address otherwise.  An IPv4 result is 16 bytes long, as `net.IPv4` makes it; an
IPv6 text may end in an IPv4 address, and one `::` stands for the zero groups it leaves out.

Texts are lists of characters.  Go reads bytes, but a character outside ASCII is no digit, dot
or colon in either reading, so both stop at it alike.

On top of the parser sit the classifications of `k8s.io/utils/net` that service validation
calls: `IsIPv4String`, `IsIPv6String` and `IsDualStackIPStrings`.
-/

namespace Kubernetes
namespace Go

/-! ## Numbers -/

/-- `big`: `dtoi` and `xtoi` give up on a number this large. -/
def big : Nat := 0xFFFFFF
attribute [grind] big

/-- The loop of `dtoi` and `xtoi` in base `base`: the digits at the front of `s` onto `n`,
`i` of them read so far.  It fails on no digit at all and on a number reaching `big`, and
hands back the number with the text after it. -/
def digitsLoop (base : Nat) (digit : Char → Option Nat) :
    List Char → Nat → Nat → Option (Nat × List Char)
  | [], n, i => if i = 0 then none else some (n, [])
  | c :: s, n, i =>
      match digit c with
      | some d =>
          let n := n * base + d
          if n ≥ big then none else digitsLoop base digit s n (i + 1)
      | none => if i = 0 then none else some (n, c :: s)
attribute [grind] digitsLoop

/-- The value of a decimal digit. -/
def decDigit (c : Char) : Option Nat :=
  if '0' ≤ c ∧ c ≤ '9' then some (c.toNat - '0'.toNat) else none
attribute [grind] decDigit

/-- The value of a hexadecimal digit, in either case. -/
def hexDigit (c : Char) : Option Nat :=
  if '0' ≤ c ∧ c ≤ '9' then some (c.toNat - '0'.toNat)
  else if 'a' ≤ c ∧ c ≤ 'f' then some (c.toNat - 'a'.toNat + 10)
  else if 'A' ≤ c ∧ c ≤ 'F' then some (c.toNat - 'A'.toNat + 10)
  else none
attribute [grind] hexDigit

/-- `dtoi`: the decimal number at the front of `s`. -/
def dtoi (s : List Char) : Option (Nat × List Char) :=
  digitsLoop 10 decDigit s 0 0
attribute [grind] dtoi

/-- `xtoi`: the hexadecimal number at the front of `s`. -/
def xtoi (s : List Char) : Option (Nat × List Char) :=
  digitsLoop 16 hexDigit s 0 0
attribute [grind] xtoi

/-! ## `parseIPv4` -/

/-- The loop of `parseIPv4` from octet `i`, `k` octets still to read, `v` the octets read so far
as one number: every octet but the first after a dot, each a decimal number up to `0xFF`.  A
missing octet or dot fails.  Leading zeros pass: the fork keeps Go 1.17's check of them
commented out. -/
def parseIPv4Loop : Nat → Nat → Nat → List Char → Option (Nat × List Char)
  | 0, _, v, s => some (v, s)
  | k + 1, i, v, s =>
      if s = [] then none
      else
        let afterDot : Option (List Char) :=
          if i > 0 then (if s.head? = some '.' then some s.tail else none) else some s
        match afterDot with
        | none => none
        | some s =>
            match dtoi s with
            | none => none
            | some (n, s) => if n > 0xFF then none else parseIPv4Loop k (i + 1) (v * 256 + n) s
attribute [grind] parseIPv4Loop

/-- `parseIPv4`: four octets and nothing after them, as the 32 bits of the address. -/
def parseIPv4Bits (s : List Char) : Option (BitVec 32) :=
  match parseIPv4Loop 4 0 0 s with
  | some (v, []) => some (BitVec.ofNat 32 v)
  | _ => none
attribute [grind] parseIPv4Bits

/-- `parseIPv4`, with the 16-byte result of `IPv4(p[0], p[1], p[2], p[3])`. -/
def parseIPv4 (s : List Char) : IP :=
  match parseIPv4Bits s with
  | some a => .v6 (v4InV6Prefix ++ a)
  | none => .nil
attribute [grind] parseIPv4

/-! ## `parseIPv6` -/

/-- The state of the loop of `parseIPv6`: the bytes written so far (`i` is their number), the
position of the ellipsis if one was read, and the text left. -/
structure IPv6Scan where
  bytes : List Nat
  ellipsis : Option Nat
  rest : List Char

/-- The two bytes of a 16-bit group. -/
def groupBytes (n : Nat) : List Nat := [n / 256, n % 256]
attribute [grind] groupBytes

/-- The four bytes of an IPv4 address. -/
def v4Bytes (a : BitVec 32) : List Nat :=
  [a.toNat / 2 ^ 24, a.toNat / 2 ^ 16 % 256, a.toNat / 2 ^ 8 % 256, a.toNat % 256]
attribute [grind] v4Bytes

/-- The loop of `parseIPv6` while fewer than 16 bytes are written, on fuel: a hexadecimal group
of at most 16 bits; before a dot, an IPv4 address that ends the text and fills the last four
bytes (or any four, after an ellipsis); after a group, the end of the text, or a colon and more,
where a second colon is the ellipsis, allowed once.  Each round writes at least two bytes, so
fuel `8` runs the loop to its end. -/
def parseIPv6Loop : Nat → IPv6Scan → Option IPv6Scan
  | 0, st => some st
  | fuel + 1, st =>
      if st.bytes.length < 16 then
        match xtoi st.rest with
        | none => none
        | some (n, afterGroup) =>
            if n > 0xFFFF then none
            else if afterGroup.head? = some '.' then
              if st.ellipsis.isNone && st.bytes.length ≠ 12 then none
              else if st.bytes.length + 4 > 16 then none
              else
                match parseIPv4Bits st.rest with
                | none => none
                | some a => some ⟨st.bytes ++ v4Bytes a, st.ellipsis, []⟩
            else
              let bytes := st.bytes ++ groupBytes n
              match afterGroup with
              | [] => some ⟨bytes, st.ellipsis, []⟩
              | [_] => none
              | c :: s =>
                  if c ≠ ':' then none
                  else
                    match s with
                    | ':' :: s =>
                        if st.ellipsis.isSome then none
                        else if s = [] then some ⟨bytes, some bytes.length, []⟩
                        else parseIPv6Loop fuel ⟨bytes, some bytes.length, s⟩
                    | s => parseIPv6Loop fuel ⟨bytes, st.ellipsis, s⟩
      else some st
attribute [grind] parseIPv6Loop

/-- The 16 bytes as one number, the first byte highest. -/
def bytesValue (bytes : List Nat) : Nat :=
  bytes.foldl (fun v b => v * 256 + b) 0
attribute [grind] bytesValue

/-- `parseIPv6`: a leading ellipsis, the loop, then the text used up and the ellipsis expanded
into the zero bytes that are missing, standing for at least one group. -/
def parseIPv6 (s : List Char) : IP :=
  let start : IPv6Scan :=
    match s with
    | ':' :: ':' :: s => ⟨[], some 0, s⟩
    | s => ⟨[], none, s⟩
  -- `::` alone is the zero address
  if start.ellipsis = some 0 ∧ start.rest = [] then .v6 0
  else
    match parseIPv6Loop 8 start with
    | none => .nil
    | some st =>
        if st.rest ≠ [] then .nil
        else if st.bytes.length < 16 then
          match st.ellipsis with
          | none => .nil
          | some e =>
              .v6 (BitVec.ofNat 128 (bytesValue
                (st.bytes.take e ++ List.replicate (16 - st.bytes.length) 0 ++ st.bytes.drop e)))
        else if st.ellipsis.isSome then .nil
        else .v6 (BitVec.ofNat 128 (bytesValue st.bytes))
attribute [grind] parseIPv6

/-! ## `ParseIP` and the classifications -/

/-- `ParseIP` of the fork: the first dot or colon decides how the text is read. -/
def parseIP (s : List Char) : IP :=
  match s.find? (fun c => c = '.' ∨ c = ':') with
  | some '.' => parseIPv4 s
  | some ':' => parseIPv6 s
  | _ => .nil
attribute [grind] parseIP

/-- `netutils.ParseIPSloppy`. -/
def parseIPSloppy (s : String) : IP :=
  parseIP s.toList
attribute [grind] parseIPSloppy

/-- `netutils.IsIPv6`: an address that `To4` does not make 4 bytes long. -/
def isIPv6 (ip : IP) : Bool :=
  ip != .nil && ip.to4 == .nil
attribute [grind] isIPv6

/-- `netutils.IsIPv4String`. -/
def isIPv4String (s : String) : Bool :=
  parseIPSloppy s != .nil && (parseIPSloppy s).to4 != .nil
attribute [grind] isIPv4String

/-- `netutils.IsIPv6String`. -/
def isIPv6String (s : String) : Bool :=
  isIPv6 (parseIPSloppy s)
attribute [grind] isIPv6String

/-- The loop of `IsDualStackIPs`: whether an IPv4 and an IPv6 address were seen; a nil address
is an error. -/
def isDualStackIPsLoop : List IP → Bool → Bool → Except String Bool
  | [], v4Found, v6Found => .ok (v4Found && v6Found)
  | ip :: ips, v4Found, v6Found =>
      if ip = .nil then .error "ip <nil> is invalid"
      else if v4Found && v6Found then isDualStackIPsLoop ips v4Found v6Found
      else if isIPv6 ip then isDualStackIPsLoop ips v4Found true
      else isDualStackIPsLoop ips true v6Found
attribute [grind] isDualStackIPsLoop

/-- `netutils.IsDualStackIPStrings`: every text an address, and one of each family among them. -/
def isDualStackIPStrings (ips : List String) : Except String Bool :=
  isDualStackIPsLoop (ips.map parseIPSloppy) false false
attribute [grind] isDualStackIPStrings

example : parseIPSloppy "10.0.0.1" = .v6 (v4InV6Prefix ++ (0x0a000001 : BitVec 32)) := by decide
example : parseIPSloppy "010.000.000.001" = parseIPSloppy "10.0.0.1" := by decide
example : parseIPSloppy "fd00::1" = .v6 0xfd000000000000000000000000000001 := by decide
example : parseIPSloppy "::ffff:10.0.0.1" = parseIPSloppy "10.0.0.1" := by decide
example : parseIPSloppy "1:2:3:4:5:6:7::8" = .nil := by decide
example : isIPv6String "::ffff:10.0.0.1" = false ∧ isIPv4String "::ffff:10.0.0.1" = true := by
  decide

end Go
end Kubernetes
