import Qvole.Lib.Outcome
import Qvole.Net.Addr
import Qvole.Spake2.Curve

/-!
# Connection codes

How a connection code is made and which room it names, from `code.rs`. A code is the bytes of its
text.
-/

namespace Qvole.Spake2

open Outcome (fail)

inductive CodeError where
  | randIntRange (max : Nat)
  | generateCode (why : Bytes)
  deriving DecidableEq, Repr

def CodeError.text : CodeError → Bytes
  | .randIntRange max => ascii "randInt: max out of range: " ++ decimal max
  | .generateCode why => ascii "generate code: " ++ why

/-- Draws until one is below `limit`. -/
def acceptBelow (limit : Nat) : List UInt16 → Outcome CodeError (Nat × List UInt16)
  | [] => .error .unfinished
  | draw :: draws =>
      if draw.toNat < limit then .ok (draw.toNat, draws) else acceptBelow limit draws

/-- A number below `max`, and the draws that are left. -/
def randInt (max : Nat) (draws : List UInt16) : Outcome CodeError (Nat × List UInt16) :=
  if max = 0 ∨ max > 65536 then fail (.randIntRange max)
  else do
    let (v, draws) ← acceptBelow (65536 / max * max) draws
    return (v % max, draws)

def drawVals : List Nat → List UInt16 → Outcome CodeError (List Nat)
  | [], _ => return []
  | max :: maxes, draws => do
      let (v, draws) ← Outcome.mapErr (fun error => .generateCode error.text) (randInt max draws)
      return v :: (← drawVals maxes draws)

/-- `{:04}`. -/
def fourDigits (n : Nat) : Bytes := List.replicate (4 - (decimal n).length) 48 ++ decimal n

/-- A code `0000-word-word-word`, from the draws of the random source. -/
def generateCode (words : List Bytes) (draws : List UInt16) : Outcome CodeError Bytes := do
  let vals ← drawVals [10000, words.length, words.length, words.length] draws
  let number ← .expect vals[0]?
  let first ← .expect (vals[1]?.bind (words[·]?))
  let second ← .expect (vals[2]?.bind (words[·]?))
  let third ← .expect (vals[3]?.bind (words[·]?))
  return fourDigits number ++ 45 :: (first ++ 45 :: (second ++ 45 :: third))

def isAsciiDigit (c : UInt8) : Bool := 48 ≤ c && c ≤ 57

/-- Codes of the form `1234-word-word-word`. -/
def isGeneratedCode (code : Bytes) : Bool :=
  code.length ≥ 5 && (code.take 4).all isAsciiDigit && code[4]? == some 45

def hexAlphabet : Bytes := ascii "0123456789abcdef"

/-- Lowercase hex, with an encoder of its own. -/
def hexEncode (bytes : Bytes) : Bytes :=
  bytes.flatMap fun b : UInt8 =>
    [hexAlphabet.getD (b >>> 4).toNat 0, hexAlphabet.getD (b &&& 0x0f).toNat 0]

/-- The digits of a generated code; of any other code the first bytes of a hash. -/
def nameplate (H : Primitives) (code : Bytes) : Bytes :=
  if isGeneratedCode code then code.take 4
  else hexEncode ((H.sha256 (ascii "qvole-nameplate:" ++ code)).take 4)

end Qvole.Spake2
