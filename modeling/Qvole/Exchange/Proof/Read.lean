import Qvole.Exchange.Loop

/-!
# Reading the relay's lines

The loop reads a line as a message; the registration follows from the message. Hex is plain text, so
the check for UTF-8 never stands in the way of it. What the loop sends to register is what the
registration by itself sends.
-/

namespace Qvole.Exchange

open Bytes (isUtf8 isUtf8_of_ascii)

theorem le_of_val {c v : UInt8} (h : val c = some v) : c ≤ 127 := by
  unfold val at h
  split at h
  · rename_i hdigit
    exact UInt8.le_trans hdigit.2 (by decide)
  · split at h
    · rename_i hlower
      exact UInt8.le_trans hlower.2 (by decide)
    · split at h
      · rename_i hupper
        exact UInt8.le_trans hupper.2 (by decide)
      · cases h

theorem ascii_of_hexDecode {b out : Bytes} (h : hexDecode b = some out) : ∀ c ∈ b, c ≤ 127 := by
  induction b using hexDecode.induct generalizing out with
  | case1 => simp
  | case2 _ => cases h
  | case3 high low rest ih =>
      rw [hexDecode] at h
      simp only [Option.bind_eq_bind, Option.bind_eq_some_iff] at h
      obtain ⟨v, hhigh, w, hlow, tail, htail, -⟩ := h
      intro c hc
      rcases List.mem_cons.mp hc with rfl | hc
      · exact le_of_val hhigh
      · rcases List.mem_cons.mp hc with rfl | hc
        · exact le_of_val hlow
        · exact ih htail c hc

/-! ### The registration as part of the loop -/

/-- What a message does to the registration. -/
def Registrar.onMessage (client : Registrar) : Message → Registrar
  | .accepted _ => { client with receivedRegd := true }
  | .challenge cookie => { client with pendingCookie := cookie, lastRegSent := none }
  | _ => client

theorem onPayload_eq (client : Registrar) (payload : Bytes) :
    client.onPayload payload = (classifyRegd payload).map client.onMessage := by
  unfold Registrar.onPayload classifyRegd
  cases Bytes.stripPrefix (ascii "OK ") payload with
  | some okRest =>
      simp only [Option.map_map]
      rfl
  | none =>
      by_cases hhex : (hexDecode payload).isSome = true
      · obtain ⟨out, hout⟩ := Option.isSome_iff_exists.mp hhex
        have hutf8 := isUtf8_of_ascii (ascii_of_hexDecode hout)
        simp only [hhex, hutf8, and_true]
        split <;> rfl
      · rw [if_neg fun h => hhex h.2, if_neg fun h => hhex h.2.2]
        rfl

/-- The registration follows from what the datagram means. -/
theorem onDatagram_eq (client : Registrar) (room : Room) (data : Bytes) :
    client.onDatagram room data = (readDatagram room data).map client.onMessage := by
  unfold Registrar.onDatagram readDatagram
  cases trimAscii data with
  | none => rfl
  | some line =>
      rw [Option.bind_some, Option.bind_some, classify]
      cases Bytes.stripPrefix (ascii "REGD ") line with
      | none =>
          simp only
          split
          · split <;> rfl
          · split
            · split <;> rfl
            · rfl
      | some rest =>
          rcases hsplit : Bytes.splitOnce 32 rest with ⟨relayRoom, _ | relayPayload⟩
          · simp only [hsplit]
            rfl
          · simp only [hsplit]
            split
            · rfl
            · cases trimAscii relayPayload with
              | none => rfl
              | some payload => exact onPayload_eq client payload

/-- The loop sends the `REG` of its registration. It reads the clock again behind the send, which is the
time that the registration keeps. -/
theorem sendReg_eq_register (s : Session) (room : Room) (regInterval : Duration) (clock : TurnClock) :
    let registered := s.registrar.register room clock.reg regInterval
    (s.sendReg regInterval clock).2.map (Sent.wire room) = registered.2.toList ∧
      (s.sendReg regInterval clock).1 = { s with
        registrar := if registered.2.isSome then { registered.1 with lastRegSent := some clock.regSent }
          else registered.1 } := by
  intro registered
  unfold Session.sendReg
  split
  · rename_i hdue
    have hregistered : registered = ({ s.registrar with lastRegSent := some clock.reg },
        some (s.registrar.regLine room)) := if_pos hdue
    rw [hregistered]
    exact ⟨rfl, rfl⟩
  · rename_i hearly
    have hregistered : registered = (s.registrar, none) := if_neg hearly
    rw [hregistered]
    exact ⟨rfl, rfl⟩

end Qvole.Exchange
