import Qvole.Exchange.Hex
import Qvole.Relay.Room

/-!
# Registration, the client's side

What `register_and_exchange` does to get and keep its place in a room: the variables
`pending_cookie`, `last_reg_sent` and `received_regd`, the `REG` it sends when one is due, and the
handling of the relay's `REGD`.
-/

namespace Qvole.Exchange

/-- Space, tab, LF, VT, FF and CR. -/
def ws : Bytes := [32, 9, 10, 11, 12, 13]

/-- The slice between the leading and the trailing blanks. A text of blanks only makes the two
overlap, and slicing panics. -/
def trimAscii (b : Bytes) : Option Bytes :=
  let start := (b.takeWhile ws.contains).length
  let stop := b.length - (b.reverse.takeWhile ws.contains).length
  if start ≤ stop then some ((b.take stop).drop start) else none

structure Registrar where
  pendingCookie : Bytes
  lastRegSent : Option Instant
  receivedRegd : Bool
  deriving DecidableEq, Repr

namespace Registrar

def new : Registrar := { pendingCookie := [], lastRegSent := none, receivedRegd := false }

def regLine (client : Registrar) (room : Room) : Bytes :=
  if client.pendingCookie.isEmpty then ascii "REG " ++ room ++ ascii "\n"
  else ascii "REG " ++ room ++ ascii " " ++ client.pendingCookie ++ ascii "\n"

/-- The top of the loop: a `REG` when none was sent yet or the interval has passed. -/
def register (client : Registrar) (room : Room) (now : Instant) (regInterval : Duration) :
    Registrar × Option Bytes :=
  if client.lastRegSent.all fun t => now - t > regInterval then
    ({ client with lastRegSent := some now }, some (client.regLine room))
  else (client, none)

/-- A `REGD` for this room: an acceptance, or a challenge to answer at once. -/
def onPayload (client : Registrar) (payload : Bytes) : Option Registrar :=
  match Bytes.stripPrefix (ascii "OK ") payload with
  | some okRest => (trimAscii okRest).map fun _ => { client with receivedRegd := true }
  | none =>
      if payload.length = 32 ∧ (hexDecode payload).isSome then
        some { client with pendingCookie := payload, lastRegSent := none }
      else some client

/-- A received datagram, as far as registration is concerned; `none` is the panic of `trim_ascii`. -/
def onDatagram (client : Registrar) (room : Room) (data : Bytes) : Option Registrar :=
  (trimAscii data).bind fun line =>
    match Bytes.stripPrefix (ascii "REGD ") line with
    | none => some client
    | some rest =>
        match Bytes.splitOnce 32 rest with
        | (_, none) => some client
        | (relayRoom, some relayPayload) =>
            if relayRoom ≠ room then some client
            else (trimAscii relayPayload).bind client.onPayload

end Registrar

theorem trimAscii_core {head core tail : Bytes} (hhead : ∀ c ∈ head, ws.contains c = true)
    (hcore : Bytes.Solid ws.contains core) (htail : ∀ c ∈ tail, ws.contains c = true) :
    trimAscii (head ++ core ++ tail) = some core := by
  have hstart := Bytes.takeWhile_append_solid hhead hcore tail
  have hstop := Bytes.takeWhile_reverse_append (hcore.append_last head) htail
  have hlength : (head ++ core ++ tail).length - tail.length = (head ++ core).length := by
    rw [List.length_append, Nat.add_sub_cancel]
  unfold trimAscii
  simp only [hstart, hstop, hlength, List.take_left, List.drop_left]
  rw [if_pos (by rw [List.length_append]; omega)]

theorem trimAscii_append {b tail : Bytes} (hb : Bytes.Solid ws.contains b)
    (htail : ∀ c ∈ tail, ws.contains c = true) : trimAscii (b ++ tail) = some b := by
  simpa using @trimAscii_core [] b tail (by simp) hb htail

theorem trimAscii_of_solid {b : Bytes} (hb : Bytes.Solid ws.contains b) :
    trimAscii b = some b := by
  simpa using @trimAscii_append b [] hb (by simp)

end Qvole.Exchange
