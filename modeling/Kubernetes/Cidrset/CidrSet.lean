import Mathlib
import Kubernetes.Go.Net
import Kubernetes.Go.BigInt
import Kubernetes.Go.Strconv

/-!
# `nodeipam/ipam/cidrset`: the node CIDR blocks of a cluster CIDR

A `CidrSet` cuts the cluster CIDR into `maxCIDRs = 2 ^ (nodeMaskSize - clusterMaskSize)`
blocks of the node mask size, numbered by the bits of the address between the two prefixes:
`indexToCIDRBlock` builds block `i` (for IPv6 from the two 64-bit halves of the address), and
`getIndexForIP` reads the number back, by an `xor` with the cluster address and a shift.
`used` is the bitmap of the blocks handed out and `allocatedCIDRs` their count;
`AllocateNext` scans the bitmap from `nextCandidate`, `Occupy` and `Release` set and clear the
bits from `getBeginningAndEndIndices`.

The mutex, the metrics and the label are left out.  An error is the value it prints
(`CidrError`); a panic of the runtime is `CidrError.panic` with its text.
-/

namespace Kubernetes
namespace Cidrset

open Go Bits

/-- `clusterSubnetMaxDiff`. -/
def clusterSubnetMaxDiff : Int := 16
attribute [grind] clusterSubnetMaxDiff

/-- The errors of the package: `ErrCIDRRangeNoCIDRsRemaining`, `ErrCIDRSetSubNetTooBig`, the
errors built by `fmt.Errorf` with the values they print, and a panic. -/
inductive CidrError
  | noCIDRsRemaining
  | subNetTooBig
  | nilCIDR (clusterCIDR : IPNet)
  | outOfClusterRange (cidr clusterCIDR : IPNet)
  | outOfAllocatorRange (ip : IP) (nodeMaskSize : Int)
  | invalidIP (ip : IP)
  | panic (msg : String)
  deriving DecidableEq, Repr

/-- `CidrSet`. -/
structure CidrSet where
  clusterCIDR : IPNet
  clusterMaskSize : Int
  nodeMask : IPMask
  nodeMaskSize : Int
  maxCIDRs : Int
  allocatedCIDRs : Int
  nextCandidate : Int
  used : Nat
  deriving DecidableEq, Repr

/-- `1 << uint32(n)` as a Go `int`: the count is `n` modulo `2 ^ 32`, and the bit leaves the
64 bits from a count of 64 on. -/
def oneShiftLeft (n : Int) : Int :=
  let count := (n % 2 ^ 32).toNat
  if count < 64 then wrap64 (2 ^ count) else 0
attribute [grind] oneShiftLeft

/-- `NewCIDRSet`. -/
def newCIDRSet (clusterCIDR : IPNet) (subNetMaskSize : Int) : Except CidrError CidrSet :=
  let (clusterMaskSize, bits) := clusterCIDR.mask.size
  if clusterCIDR.ip.to4 = .nil ∧ subNetMaskSize - clusterMaskSize > clusterSubnetMaxDiff then
    .error .subNetTooBig
  else
    .ok { clusterCIDR := clusterCIDR, nodeMask := cidrMask subNetMaskSize bits
          clusterMaskSize := clusterMaskSize
          maxCIDRs := oneShiftLeft (subNetMaskSize - clusterMaskSize)
          nodeMaskSize := subNetMaskSize, allocatedCIDRs := 0, nextCandidate := 0, used := 0 }
attribute [grind] newCIDRSet

namespace CidrSet

variable (s : CidrSet)

/-- `indexToCIDRBlock`: the cluster address with the index after the cluster prefix, for
IPv6 written into the two 64-bit halves (into the right one only, or both when the node mask
reaches past bit 64). -/
def indexToCIDRBlock (index : Int) : IPNet :=
  let ip := match s.clusterCIDR.ip.to4, s.clusterCIDR.ip.to16 with
    | .v4 _, _ =>
        let j := BitVec.ofInt 32 index <<< (BitVec.ofInt 32 (32 - s.nodeMaskSize)).toNat
        IP.v4 (s.clusterCIDR.ip.first4 ||| j)
    | _, .v6 a =>
        let leftClusterIP := a.extractLsb' 64 64
        let rightClusterIP := a.extractLsb' 0 64
        let idx := BitVec.ofInt 64 index
        if s.nodeMaskSize ≤ 64 then
          IP.v6 ((leftClusterIP ||| idx <<< (BitVec.ofInt 64 (64 - s.nodeMaskSize)).toNat) ++
            rightClusterIP)
        else
          let leftClusterIP :=
            if s.clusterMaskSize < 64 then
              let btl := (BitVec.ofInt 64 (s.nodeMaskSize - 64)).toNat
              let indexMaxBit := 64 - leadingZeros64 idx
              if indexMaxBit > btl then leftClusterIP ||| idx >>> btl else leftClusterIP
            else leftClusterIP
          IP.v6 (leftClusterIP ++
            (rightClusterIP ||| idx <<< (BitVec.ofInt 64 (128 - s.nodeMaskSize)).toNat))
    | _, _ => IP.nil
  ⟨ip, s.nodeMask⟩
attribute [grind] indexToCIDRBlock

/-- `getIndexForIP`: the bits of `ip` after the cluster prefix, by an `xor` with the cluster
address and a shift (in `uint32` for IPv4, in a `big.Int` cut to its low 64 bits for IPv6),
refused from `maxCIDRs` on. -/
def getIndexForIP (ip : IP) : Except CidrError Int :=
  match ip.to4, ip.to16 with
  | .v4 ip4, _ =>
      if s.clusterCIDR.ip = .nil then .error (.panic "runtime error: index out of range [3] with length 0")
      else
        let cidrIndex :=
          (s.clusterCIDR.ip.first4 ^^^ ip4) >>> (BitVec.ofInt 32 (32 - s.nodeMaskSize)).toNat
        if BitVec.ofInt 32 s.maxCIDRs ≤ cidrIndex then .error (.outOfAllocatorRange ip s.nodeMaskSize)
        else .ok cidrIndex.toNat
  | _, .v6 _ =>
      let bigIP := (s.clusterCIDR.ip.setBytes ^^^ ip.setBytes) >>>
        (BitVec.ofInt 64 (128 - s.nodeMaskSize)).toNat
      let cidrIndex := bigIP % 2 ^ 64
      if (BitVec.ofInt 64 s.maxCIDRs).toNat ≤ cidrIndex then
        .error (.outOfAllocatorRange ip s.nodeMaskSize)
      else .ok cidrIndex
  | _, _ => .error (.invalidIP ip)
attribute [grind] getIndexForIP

/-- `getIndexForCIDR`. -/
def getIndexForCIDR (cidr : IPNet) : Except CidrError Int :=
  s.getIndexForIP cidr.ip
attribute [grind] getIndexForCIDR

/-- The last address of `cidr`, its host bits set, as `getBeginningAndEndIndices` builds it
from the bytes of the address and of the mask (for IPv6 in two halves). -/
def lastAddress (cidr : IPNet) : Except CidrError IP :=
  match cidr.ip.to4 with
  | .nil =>
      match cidr.ip, cidr.mask with
      | .v6 a, .v6 m =>
          .ok (.v6 ((a.extractLsb' 64 64 ||| ~~~m.extractLsb' 64 64) ++
            (a.extractLsb' 0 64 ||| ~~~m.extractLsb' 0 64)))
      | .v6 _, _ => .error (.panic "runtime error: slice bounds out of range [:8] with capacity 4")
      | _, _ => .error (.panic "runtime error: slice bounds out of range [:8] with capacity 0")
  | _ =>
      match cidr.mask with
      | .nil => .error (.panic "runtime error: index out of range [3] with length 0")
      | mask => .ok (.v4 (cidr.ip.first4 ||| ~~~mask.first4))
attribute [grind] lastAddress

/-- `getBeginningAndEndIndices`: the blocks from the one of the first address of `cidr` to the
one of its last, or all of them when `cidr` is no longer than the cluster prefix; an error
when neither network holds the other's address. -/
def getBeginningAndEndIndices (cidr : Option IPNet) : Except CidrError (Int × Int) :=
  match cidr with
  | none => .error (.nilCIDR s.clusterCIDR)
  | some cidr =>
      let maskSize := cidr.mask.size.1
      if !s.clusterCIDR.contains (cidr.ip.mask s.clusterCIDR.mask) &&
          !cidr.contains (s.clusterCIDR.ip.mask cidr.mask) then
        .error (.outOfClusterRange cidr s.clusterCIDR)
      else if s.clusterMaskSize < maskSize then do
        let begin ← s.getIndexForCIDR ⟨cidr.ip.mask s.nodeMask, s.nodeMask⟩
        let ip ← lastAddress cidr
        let end_ ← s.getIndexForCIDR ⟨ip.mask s.nodeMask, s.nodeMask⟩
        return (begin, end_)
      else .ok (0, s.maxCIDRs - 1)
attribute [grind] getBeginningAndEndIndices

/-- The scan of `AllocateNext` from `candidate`, for at most `n` more turns: the first index
whose bit is clear, or the index where the turns run out. -/
def scanCandidate : Nat → Int → Except CidrError Int
  | 0, candidate => .ok candidate
  | n + 1, candidate =>
      match bigBit s.used candidate with
      | .error msg => .error (.panic msg)
      | .ok b => if b = false then .ok candidate else scanCandidate n ((candidate + 1).tmod s.maxCIDRs)
attribute [grind] scanCandidate

/-- `AllocateNext`. -/
def allocateNext : Except CidrError (IPNet × CidrSet) :=
  if s.allocatedCIDRs = s.maxCIDRs then .error .noCIDRsRemaining
  else do
    let candidate ← s.scanCandidate s.maxCIDRs.toNat s.nextCandidate
    if s.maxCIDRs = 0 then .error (.panic "runtime error: integer divide by zero")
    else
      let s' := { s with nextCandidate := (candidate + 1).tmod s.maxCIDRs
                         used := setBit s.used candidate.toNat true
                         allocatedCIDRs := s.allocatedCIDRs + 1 }
      return (s'.indexToCIDRBlock candidate, s')
attribute [grind] allocateNext

/-- The loop of `Occupy` (`v = true`) and of `Release` (`v = false`) over `n` indices from
`i`: a bit that is not `v` becomes `v`, and the count follows it. -/
def markRange (v : Bool) : CidrSet → Int → Nat → Except CidrError CidrSet
  | s, _, 0 => .ok s
  | s, i, n + 1 =>
      match bigBit s.used i with
      | .error msg => .error (.panic msg)
      | .ok b =>
          let s := if b ≠ v then
              { s with used := setBit s.used i.toNat v
                       allocatedCIDRs := s.allocatedCIDRs + if v then 1 else -1 }
            else s
          markRange v s (i + 1) n
attribute [grind] markRange

/-- `Occupy`. -/
def occupy (cidr : Option IPNet) : Except CidrError CidrSet := do
  let (begin, end_) ← s.getBeginningAndEndIndices cidr
  markRange true s begin (end_ - begin + 1).toNat
attribute [grind] occupy

/-- `Release`. -/
def release (cidr : Option IPNet) : Except CidrError CidrSet := do
  let (begin, end_) ← s.getBeginningAndEndIndices cidr
  markRange false s begin (end_ - begin + 1).toNat
attribute [grind] release

end CidrSet

end Cidrset
end Kubernetes
