import Qvole.Lib.Outcome
import Qvole.Lib.Source
import Qvole.Lib.Utf8
import Qvole.Tunnel.Stream

/-!
# Reading tunnel requests

Port of `read_requests_from_stream`: the peer's requests come as lines `TYPE listen target`, the last
of them `END`. The bytes arrive in chunks of the stream's choosing and are kept in a buffer between
reads. A read that never returns is an unfinished call.
-/

namespace Qvole.Tunnel

open Outcome (fail expect)

def scannerMaxTokenSize : Nat := 4096
def maxTunnelRequests : Nat := 100
def chunkSize : Nat := 4096

inductive TunnelRequestError where
  | tooMany
  | invalidLine (line : Bytes)
  | invalidType (typ line : Bytes)
  /-- The read itself failed. -/
  | readFailed
  | tokenTooLong
  deriving DecidableEq, Repr

/-! ### Lines -/

/-- The bytes of the last read, how many of them were used, and what is still to come. -/
structure LineReader where
  chunk : Bytes
  pos : Nat
  source : Source

def LineReader.start (source : Source) : LineReader := { chunk := [], pos := 0, source }

/-- What the reader has not used yet. -/
def LineReader.unread (reader : LineReader) : Bytes :=
  reader.chunk.drop reader.pos ++ reader.source.bytes

/-- `chunk[pos]`, and the step behind it. -/
def LineReader.take (reader : LineReader) :
    Outcome TunnelRequestError (Option UInt8 × LineReader) := do
  let b ← expect reader.chunk[reader.pos]?
  return (some b, { reader with pos := reader.pos + 1 })

/-- The next byte, or none at the end of the stream. -/
def LineReader.nextByte (ending : Ending) (reader : LineReader) :
    Outcome TunnelRequestError (Option UInt8 × LineReader) :=
  if reader.pos ≥ reader.chunk.length then
    match reader.source.read chunkSize with
    | none =>
        match ending with
        | .fin => .ok (none, { reader with chunk := [], pos := 0 })
        | .reset => fail .readFailed
        | .silent => .error .unfinished
    | some (chunk, source) => LineReader.take { chunk, pos := 0, source }
  else reader.take

/-- Reads on behind the bytes `line` of a line. -/
def readLineFrom (ending : Ending) : Nat → Bytes → LineReader →
    Outcome TunnelRequestError (Bytes × LineReader)
  | 0, _, _ => .error .unfinished
  | fuel + 1, line, reader => do
      match ← reader.nextByte ending with
      | (none, reader) => return (line, reader)
      | (some b, reader) =>
          if b = 10 then return (line ++ [b], reader)
          else if line.length ≥ scannerMaxTokenSize then fail .tokenTooLong
          else readLineFrom ending fuel (line ++ [b]) reader

/-- One line with its LF. It has none at the end of the stream, and nothing may be left. -/
def LineReader.readLine (ending : Ending) (reader : LineReader) :
    Outcome TunnelRequestError (Bytes × LineReader) :=
  readLineFrom ending (reader.unread.length + 1) [] reader

/-- Drops one byte `c` at the end. -/
def dropEnd (c : UInt8) (line : Bytes) : Bytes :=
  if line.getLast? = some c then line.dropLast else line

/-- Without one LF and then one CR at the end, as text. -/
def stripEol (line : Bytes) : Bytes := Bytes.fromUtf8Lossy (dropEnd 13 (dropEnd 10 line))

/-! ### Requests -/

/-- Keeps printable ASCII. -/
def parseAddr (s : Bytes) : Bytes := s.filter fun c => 32 ≤ c && c < 127

def parseType (typ : Bytes) : Option TunnelType :=
  if typ = ascii "L" then some .L
  else if typ = ascii "R" then some .R
  else none

/-- `splitn(3, ' ')`, when there are three parts. -/
def splitThree (text : Bytes) : Option (Bytes × Bytes × Bytes) :=
  match Bytes.splitOnce 32 text with
  | (_, none) => none
  | (first, some rest) =>
      match Bytes.splitOnce 32 rest with
      | (_, none) => none
      | (second, some third) => some (first, second, third)

def parseRequestLine (text : Bytes) : Outcome TunnelRequestError TunnelRequest :=
  match splitThree text with
  | none => fail (.invalidLine text)
  | some (typ, listen, target) =>
      match parseType typ with
      | none => fail (.invalidType typ text)
      | some typ => .ok { typ, listenAddr := parseAddr listen, targetAddr := parseAddr target }

/-- Reads on behind the requests `reqs`. -/
def readRequestsFrom (ending : Ending) : Nat → List TunnelRequest → LineReader →
    Outcome TunnelRequestError (List TunnelRequest)
  | 0, _, _ => .error .unfinished
  | fuel + 1, reqs, reader => do
      let (line, reader) ← reader.readLine ending
      if line = [] then return reqs
      else if stripEol line = ascii "END" then return reqs
      else if reqs.length ≥ maxTunnelRequests then fail .tooMany
      else
        let req ← parseRequestLine (stripEol line)
        readRequestsFrom ending fuel (reqs ++ [req]) reader

/-- No line is empty, so there are not more of them than bytes. -/
def readRequestsFromStream (ending : Ending) (source : Source) :
    Outcome TunnelRequestError (List TunnelRequest) :=
  readRequestsFrom ending (source.bytes.length + 1) [] (.start source)

end Qvole.Tunnel
