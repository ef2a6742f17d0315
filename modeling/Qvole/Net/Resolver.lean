import Qvole.Lib.Outcome
import Qvole.Lib.Utf8
import Qvole.Net.Parse

/-!
# Host and port

The splitter of `resolver.rs` and its lookup of ports, with the texts of its errors. A range of a `str`
that is out of bounds or cuts a character is a panic; `i64` arithmetic wraps.
-/

namespace Qvole.Resolver

open Outcome (fail expect)

def addrErr (addr : Bytes) (why : String) : Bytes :=
  ascii "address " ++ addr ++ ascii ": " ++ ascii why

/-- The host, and from where on no bracket may follow: an opening one, a closing one. -/
def splitHost (hostport : Bytes) (i : Nat) : Outcome Bytes (Bytes × Nat × Nat) :=
  if hostport.head? = some 91 then
    match hostport.findIdx? (· == 93) with
    | none => fail (addrErr hostport "missing ']' in address")
    | some close => do
        let after := close + 1
        if after = hostport.length then fail (addrErr hostport "missing port in address")
        else if after ≠ i then
          if (← expect hostport[after]?) = 58 then
            fail (addrErr hostport "too many colons in address")
          else fail (addrErr hostport "missing port in address")
        else
          return (← expect (hostport.strSlice 1 close), 1, after)
  else do
    let host ← expect (hostport.strSlice 0 i)
    if host.contains 58 then fail (addrErr hostport "too many colons in address")
    else return (host, 0, 0)

def splitHostPort (hostport : Bytes) : Outcome Bytes (Bytes × Bytes) :=
  match Bytes.rposition (· == 58) hostport with
  | none => fail (addrErr hostport "missing port in address")
  | some i => do
      let (host, j, k) ← splitHost hostport i
      if (← expect (hostport.strSlice j hostport.length)).contains 91 then
        fail (addrErr hostport "unexpected '[' in address")
      else if (← expect (hostport.strSlice k hostport.length)).contains 93 then
        fail (addrErr hostport "unexpected ']' in address")
      else return (host, ← expect (hostport.strSlice (i + 1) hostport.length))

/-! ### Ports -/

/-- `u32::MAX`, as an `i64`. -/
def portMax : Int := 4294967295

/-- `1 << 30`. -/
def portCutoff : Int := 1073741824

def wrapI64 (n : Int) : Int :=
  (n + 9223372036854775808) % 18446744073709551616 - 9223372036854775808

/-- `i64::saturating_add`. -/
def saturatingAdd (a b : Int) : Int :=
  max (-9223372036854775808) (min 9223372036854775807 (a + b))

/-- The loop over the digits, at the number read so far. -/
def parsePortDigits (n : Int) : Bytes → Option Int
  | [] => some n
  | c :: rest => do
      let d ← toDigit 10 c
      if n ≥ portCutoff then return portMax
      else
        let n := wrapI64 (n * 10)
        let nn := saturatingAdd n d
        if nn < n ∨ nn > portMax then return portMax else parsePortDigits nn rest

/-- A sign and decimal digits, clamped; `none` is a text with another character, and a service. -/
def parsePort (service : Bytes) : Option Int :=
  if service = [] then some 0
  else do
    let (neg, digits) :=
      match Bytes.stripPrefix [43] service with
      | some rest => (false, rest)
      | none =>
          match Bytes.stripPrefix [45] service with
          | some rest => (true, rest)
          | none => (false, service)
    let n ← parsePortDigits 0 digits
    let v :=
      if !neg ∧ n ≥ portCutoff then portCutoff - 1
      else if neg ∧ n > portCutoff then portCutoff
      else n
    return if neg then -v else v

/-- The number of bytes of the whitespace character at the start of a text, or 0. -/
def whitespaceLength : Bytes → Nat
  | 0xc2 :: b :: _ => if b = 0x85 ∨ b = 0xa0 then 2 else 0
  | 0xe1 :: 0x9a :: 0x80 :: _ => 3
  | 0xe2 :: 0x80 :: b :: _ =>
      if (0x80 ≤ b ∧ b ≤ 0x8a) ∨ b = 0xa8 ∨ b = 0xa9 ∨ b = 0xaf then 3 else 0
  | 0xe2 :: 0x81 :: 0x9f :: _ => 3
  | 0xe3 :: 0x80 :: 0x80 :: _ => 3
  | b :: _ => if (9 ≤ b ∧ b ≤ 13) ∨ b = 32 then 1 else 0
  | [] => 0

/-- Reads on behind the bytes `field` of a field, past `skip` bytes of whitespace. -/
def splitWhitespaceFrom (field : Bytes) : (skip : Nat) → Bytes → List Bytes
  | _, [] => if field = [] then [] else [field]
  | skip + 1, _ :: rest => splitWhitespaceFrom field skip rest
  | 0, c :: rest =>
      match whitespaceLength (c :: rest) with
      | 0 => splitWhitespaceFrom (field ++ [c]) 0 rest
      | more + 1 =>
          (if field = [] then [] else [field]) ++ splitWhitespaceFrom [] more rest

/-- `str::split_whitespace`. -/
def splitWhitespace (s : Bytes) : List Bytes := splitWhitespaceFrom [] 0 s

/-- The port of a line `<name> <port>/udp <alias>..` that names the service. -/
def serviceLine (service line : Bytes) : Option UInt16 :=
  match splitWhitespace (Bytes.splitOnce 35 line).1 with
  | name :: portnet :: aliases =>
      match Bytes.splitOnce 47 portnet with
      | (_, none) => none
      | (port, some net) => do
          let port ← parsePort port
          if ¬ (0 ≤ port ∧ port ≤ 65535) then none
          else if net ≠ ascii "udp" then none
          else if (name :: aliases).contains service then some (.ofNat port.toNat)
          else none
  | _ => none

/-- Looks through the lines of `/etc/services`, if it can be read. The carriage return that `str::lines`
takes off a line is whitespace here. -/
def servicesLookup (etcServices : Option Bytes) (service : Bytes) : Option UInt16 := do
  (List.splitOn 10 (← etcServices)).findSome? (serviceLine service)

def lookupPort (etcServices : Option Bytes) (service : Bytes) : Outcome Bytes UInt16 :=
  match parsePort service with
  | some port =>
      if 0 ≤ port ∧ port ≤ 65535 then .ok (.ofNat port.toNat)
      else fail (addrErr service "invalid port")
  | none =>
      match servicesLookup etcServices service with
      | some port => .ok port
      | none => fail (ascii "lookup udp/" ++ service ++ ascii ": unknown port")

end Qvole.Resolver
