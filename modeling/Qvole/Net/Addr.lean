import Qvole.Lib.Bytes

/-!
# Internet addresses

The addresses of the standard library's `net` module, with their `Display` texts. A socket address
carries no flow label: its text has none either, so address and text determine each other.
-/

namespace Qvole

structure Ipv4Addr where
  a : UInt8
  b : UInt8
  c : UInt8
  d : UInt8
  deriving DecidableEq, Repr

/-- An IPv6 address as its eight segments. -/
structure Ipv6Addr where
  s0 : UInt16
  s1 : UInt16
  s2 : UInt16
  s3 : UInt16
  s4 : UInt16
  s5 : UInt16
  s6 : UInt16
  s7 : UInt16
  deriving DecidableEq, Repr

inductive IpAddr where
  | v4 (ip : Ipv4Addr)
  | v6 (ip : Ipv6Addr)
  deriving DecidableEq, Repr

inductive SocketAddr where
  | v4 (ip : Ipv4Addr) (port : UInt16)
  | v6 (ip : Ipv6Addr) (port : UInt16) (scopeId : UInt32)
  deriving DecidableEq, Repr

namespace Ipv6Addr

def segments (ip : Ipv6Addr) : List UInt16 :=
  [ip.s0, ip.s1, ip.s2, ip.s3, ip.s4, ip.s5, ip.s6, ip.s7]

def isLoopback (ip : Ipv6Addr) : Bool := ip = ⟨0, 0, 0, 0, 0, 0, 0, 1⟩

/-- The IPv4 address of `::ffff:a.b.c.d`. -/
def toIpv4Mapped (ip : Ipv6Addr) : Option Ipv4Addr :=
  if ip.s0 = 0 ∧ ip.s1 = 0 ∧ ip.s2 = 0 ∧ ip.s3 = 0 ∧ ip.s4 = 0 ∧ ip.s5 = 0xffff then
    some ⟨(ip.s6 >>> 8).toUInt8, ip.s6.toUInt8, (ip.s7 >>> 8).toUInt8, ip.s7.toUInt8⟩
  else none

end Ipv6Addr

/-- `SocketAddr::new`: an IP and a port, scope zero. -/
def SocketAddr.new (ip : IpAddr) (port : UInt16) : SocketAddr :=
  match ip with
  | .v4 ip => .v4 ip port
  | .v6 ip => .v6 ip port 0

def IpAddr.isUnspecified : IpAddr → Bool
  | .v4 ip => ip = ⟨0, 0, 0, 0⟩
  | .v6 ip => ip = ⟨0, 0, 0, 0, 0, 0, 0, 0⟩

def IpAddr.isMulticast : IpAddr → Bool
  | .v4 ip => 224 ≤ ip.a && ip.a ≤ 239
  | .v6 ip => ip.s0 &&& 0xff00 = 0xff00

def Ipv4Addr.broadcast : Ipv4Addr := ⟨255, 255, 255, 255⟩

def SocketAddr.ip : SocketAddr → IpAddr
  | .v4 ip _ => .v4 ip
  | .v6 ip _ _ => .v6 ip

def SocketAddr.port : SocketAddr → UInt16
  | .v4 _ port => port
  | .v6 _ port _ => port

/-! ### Texts -/

/-- A number in decimal, without leading zeros. -/
def decimal (n : Nat) : Bytes := (Nat.toDigits 10 n).map Char.byte

def hexadecimal (n : Nat) : Bytes := (Nat.toDigits 16 n).map Char.byte

def Ipv4Addr.toText (ip : Ipv4Addr) : Bytes :=
  decimal ip.a.toNat ++ ascii "." ++ decimal ip.b.toNat ++ ascii "." ++ decimal ip.c.toNat ++
    ascii "." ++ decimal ip.d.toNat

def segmentsText (segments : List UInt16) : Bytes :=
  (ascii ":").intercalate (segments.map fun s => hexadecimal s.toNat)

/-- Start and length of the first longest run of zero segments: `current` is the run being read,
`longest` the best so far, and `i` the index of the next segment. -/
def longestZeroRun : List UInt16 → (i : Nat) → (current longest : Nat × Nat) → Nat × Nat
  | [], _, _, longest => longest
  | segment :: rest, i, current, longest =>
      if segment = 0 then
        let current := if current.2 = 0 then (i, 1) else (current.1, current.2 + 1)
        longestZeroRun rest (i + 1) current (if current.2 > longest.2 then current else longest)
      else longestZeroRun rest (i + 1) (0, 0) longest

def Ipv6Addr.toText (ip : Ipv6Addr) : Bytes :=
  match ip.toIpv4Mapped with
  | some ip => ascii "::ffff:" ++ ip.toText
  | none =>
      let zeroes := longestZeroRun ip.segments 0 (0, 0) (0, 0)
      if zeroes.2 > 1 then
        segmentsText (ip.segments.take zeroes.1) ++ ascii "::" ++
          segmentsText (ip.segments.drop (zeroes.1 + zeroes.2))
      else segmentsText ip.segments

def IpAddr.toText : IpAddr → Bytes
  | .v4 ip => ip.toText
  | .v6 ip => ip.toText

def SocketAddr.toText : SocketAddr → Bytes
  | .v4 ip port => ip.toText ++ ascii ":" ++ decimal port.toNat
  | .v6 ip port scopeId =>
      let scope := if scopeId = 0 then [] else ascii "%" ++ decimal scopeId.toNat
      ascii "[" ++ ip.toText ++ scope ++ ascii "]:" ++ decimal port.toNat

end Qvole
