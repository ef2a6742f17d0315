import Qvole.Net.Addr

/-!
# Reading addresses and ports

The standard library's parsers for `IpAddr`, `SocketAddr` and `u16`. A reader takes a text and returns what it
read with the rest, or `none`.
-/

namespace Qvole

/-- `char::to_digit`. -/
def toDigit (radix : Nat) (c : UInt8) : Option Nat :=
  let digit :=
    if 48 ≤ c ∧ c ≤ 57 then c.toNat - 48
    else if 97 ≤ c ∧ c ≤ 122 then c.toNat - 97 + 10
    else if 65 ≤ c ∧ c ≤ 90 then c.toNat - 65 + 10
    else radix
  if digit < radix then some digit else none

/-- The value of a text of digits. -/
def digitsValue (radix : Nat) (digits : Bytes) : Nat :=
  digits.foldl (fun n c => n * radix + (toDigit radix c).getD 0) 0

/-- A number below `limit` in at most `maxDigits` digits. -/
def readNumber (radix maxDigits : Nat) (allowZeroPrefix : Bool) (limit : Nat) (s : Bytes) :
    Option (Nat × Bytes) :=
  let digits := s.takeWhile fun c => (toDigit radix c).isSome
  if digits.length = 0 ∨ digits.length > maxDigits then none
  else if !allowZeroPrefix ∧ s.head? = some 48 ∧ digits.length > 1 then none
  else if digitsValue radix digits ≥ limit then none
  else some (digitsValue radix digits, s.drop digits.length)

/-- `str::parse` to a signed integer type with the given bounds: a sign and digits. -/
def parseInt (low high : Int) (s : Bytes) : Option Int :=
  let digits := if s.head? = some 43 ∨ s.head? = some 45 then s.drop 1 else s
  let magnitude : Int := digitsValue 10 digits
  let value := if s.head? = some 45 then -magnitude else magnitude
  if digits = [] then none
  else if digits.any fun c => (toDigit 10 c).isNone then none
  else if low ≤ value ∧ value ≤ high then some value
  else none

def readGivenChar (c : UInt8) : Bytes → Option Bytes
  | [] => none
  | d :: rest => if d = c then some rest else none

/-- Reads `sep` first, except in front of the first item. -/
def readSeparator {α : Type} (sep : UInt8) (index : Nat) (inner : Bytes → Option (α × Bytes))
    (s : Bytes) : Option (α × Bytes) :=
  if index > 0 then (readGivenChar sep s).bind inner else inner s

def readIpv4Addr (s : Bytes) : Option (Ipv4Addr × Bytes) := do
  let (a, s) ← readNumber 10 3 false 256 s
  let (b, s) ← readSeparator 46 1 (readNumber 10 3 false 256) s
  let (c, s) ← readSeparator 46 2 (readNumber 10 3 false 256) s
  let (d, s) ← readSeparator 46 3 (readNumber 10 3 false 256) s
  return (⟨.ofNat a, .ofNat b, .ofNat c, .ofNat d⟩, s)

/-- Up to `left` groups, the first of them with index `i`: the groups, whether they end in an
embedded IPv4 address, and the rest. -/
def readGroups : (left i : Nat) → Bytes → List UInt16 × Bool × Bytes
  | 0, _, s => ([], false, s)
  | left + 1, i, s =>
      match if left > 0 then readSeparator 58 i readIpv4Addr s else none with
      | some (ip, s) =>
          ([.ofNat (ip.a.toNat * 256 + ip.b.toNat), .ofNat (ip.c.toNat * 256 + ip.d.toNat)], true, s)
      | none =>
          match readSeparator 58 i (readNumber 16 4 true 65536) s with
          | some (group, s) =>
              let others := readGroups left (i + 1) s
              (.ofNat group :: others.1, others.2.1, others.2.2)
          | none => ([], false, s)

def Ipv6Addr.ofSegments (segments : List UInt16) : Ipv6Addr :=
  ⟨segments.getD 0 0, segments.getD 1 0, segments.getD 2 0, segments.getD 3 0, segments.getD 4 0,
    segments.getD 5 0, segments.getD 6 0, segments.getD 7 0⟩

def readIpv6Addr (s : Bytes) : Option (Ipv6Addr × Bytes) :=
  let (head, headIpv4, s) := readGroups 8 0 s
  if head.length = 8 then some (.ofSegments head, s)
  else if headIpv4 then none
  else do
    let s ← readGivenChar 58 s
    let s ← readGivenChar 58 s
    let (tail, _, s) := readGroups (8 - (head.length + 1)) 0 s
    return (.ofSegments (head ++ List.replicate (8 - head.length - tail.length) 0 ++ tail), s)

/-- `IpAddr::from_str`: the whole text has to be read. -/
def IpAddr.parse (s : Bytes) : Option IpAddr :=
  let read : Option (IpAddr × Bytes) :=
    match readIpv4Addr s with
    | some (ip, rest) => some (.v4 ip, rest)
    | none => (readIpv6Addr s).map fun r => (.v6 r.1, r.2)
  match read with
  | some (ip, []) => some ip
  | _ => none

/-- A decimal number with any number of digits, leading zeros included. -/
def readDecimal (limit : Nat) (s : Bytes) : Option (Nat × Bytes) :=
  readNumber 10 s.length true limit s

def readPort (s : Bytes) : Option (UInt16 × Bytes) := do
  let s ← readGivenChar 58 s
  let (port, s) ← readDecimal 65536 s
  return (.ofNat port, s)

def readScopeId (s : Bytes) : Option (UInt32 × Bytes) := do
  let s ← readGivenChar 37 s
  let (scopeId, s) ← readDecimal (2 ^ 32) s
  return (.ofNat scopeId, s)

def readSocketAddrV4 (s : Bytes) : Option (SocketAddr × Bytes) := do
  let (ip, s) ← readIpv4Addr s
  let (port, s) ← readPort s
  return (.v4 ip port, s)

def readSocketAddrV6 (s : Bytes) : Option (SocketAddr × Bytes) := do
  let s ← readGivenChar 91 s
  let (ip, s) ← readIpv6Addr s
  let (scopeId, s) := (readScopeId s).getD (0, s)
  let s ← readGivenChar 93 s
  let (port, s) ← readPort s
  return (.v6 ip port scopeId, s)

/-- `SocketAddr::from_str`: the whole text has to be read. -/
def SocketAddr.parse (s : Bytes) : Option SocketAddr :=
  match (readSocketAddrV4 s).or (readSocketAddrV6 s) with
  | some (addr, []) => some addr
  | _ => none

/-- `u16::from_str`: decimal, with an optional plus sign. -/
def parseU16 (s : Bytes) : Option UInt16 :=
  let digits := if s.head? = some 43 then s.tail else s
  if digits = [] ∨ !(digits.all fun c => (toDigit 10 c).isSome) then none
  else if digitsValue 10 digits < 65536 then some (.ofNat (digitsValue 10 digits))
  else none

end Qvole
