import Qvole.Exchange.Proof.Read
import Qvole.Net.Proof.RoundTrip
import Qvole.Relay.Proof.Delivery
import Qvole.Spake2.Code
import Qvole.Spake2.Proof.Points

/-!
# Message formats

Client and relay format and parse each other's datagrams with code of their own. In every room that a
connection code can name, what either side sends is read by the other as what it is.
-/

namespace Qvole.Exchange

open Relay (Reply Cookie validRoomName isAsciiHexdigit isValidHex parsePacket parseMsg)
open Spake2 (Primitives nameplate)
open Bytes (isUtf8 isUtf8_of_ascii)

/-! ### The room of a code -/

theorem hexEncode_eq (b : Bytes) : Spake2.hexEncode b = Relay.toHexLower b :=
  Relay.toHexLower_eq b

theorem printable_of_hexdigit (c : UInt8) : isAsciiHexdigit c = true → (33 ≤ c && c ≤ 126) = true := by
  apply Relay.forall_byte (P := fun c => isAsciiHexdigit c = true → (33 ≤ c && c ≤ 126) = true)
  decide +kernel

theorem hexdigit_of_digit (c : UInt8) : Spake2.isAsciiDigit c = true → isAsciiHexdigit c = true := by
  apply Relay.forall_byte (P := fun c => Spake2.isAsciiDigit c = true → isAsciiHexdigit c = true)
  decide +kernel

/-- A room is four digits or eight hex digits. -/
theorem nameplate_hex (H : Primitives) (hsha : ∀ input, (H.sha256 input).length = 32)
    (code : Bytes) :
    ((nameplate H code).length = 4 ∨ (nameplate H code).length = 8) ∧
      ∀ c ∈ nameplate H code, isAsciiHexdigit c = true := by
  unfold nameplate
  split
  · rename_i hgenerated
    simp only [Spake2.isGeneratedCode, Bool.and_eq_true, decide_eq_true_eq, List.all_eq_true]
      at hgenerated
    obtain ⟨⟨hlong, hdigits⟩, -⟩ := hgenerated
    exact ⟨Or.inl (List.length_take_of_le (Nat.le_of_succ_le hlong)),
      fun c hc => hexdigit_of_digit c (hdigits c hc)⟩
  · rw [hexEncode_eq]
    refine ⟨Or.inr ?_, fun c hc => Relay.isAsciiHexdigit_of_mem_toHexLower hc⟩
    rw [Relay.length_toHexLower, List.length_take, hsha]
    rfl

theorem validRoomName_nameplate (H : Primitives) (hsha : ∀ input, (H.sha256 input).length = 32)
    (code : Bytes) : validRoomName (nameplate H code) = true := by
  obtain ⟨hlength, hhex⟩ := nameplate_hex H hsha code
  have hne : (nameplate H code).isEmpty = false := by
    rw [List.isEmpty_eq_false_iff]
    intro hnil
    rw [hnil] at hlength
    exact absurd hlength (by decide)
  have hshort : ¬ (nameplate H code).length > Relay.maxRoomNameLen := by
    rw [Relay.maxRoomNameLen]
    omega
  rw [validRoomName, if_neg (by simp [hne, hshort]), List.all_eq_true]
  exact fun c hc => printable_of_hexdigit c (hhex c hc)

/-! ### What the relay reads -/

theorem length_toHexLower (b : Bytes) : (toHexLower b).length = 2 * b.length := by
  rw [Relay.toHexLower_eq, Relay.length_toHexLower]

/-- A `MSG` of the client with a payload that is not too long. -/
theorem saysMsg_wire {room : Room} (hroom : validRoomName room = true) {phase payload : Bytes}
    (hphase : phase = ascii "spake2" ∨ phase = ascii "confirm") (hne : payload ≠ [])
    (hshort : payload.length ≤ 512) :
    Relay.SaysMsg (ascii "MSG " ++ room ++ ascii " " ++ phase ++ ascii " " ++ toHexLower payload ++
      ascii "\n") room phase (toHexLower payload) := by
  have hhex := Relay.isValidHex_iff.mp (Relay.isValidHex_toHexLower hne)
  rw [← Relay.toHexLower_eq] at hhex
  obtain ⟨hbody, heven, hdigits⟩ := hhex
  have hblank : ∀ c ∈ toHexLower payload, Relay.ws.contains c = false :=
    fun c hc => (Relay.not_blank_of_hexdigit c (hdigits c hc)).1
  have hline : Bytes.Solid Relay.ws.contains (ascii "MSG " ++ room ++ ascii " " ++ phase ++
      ascii " " ++ toHexLower payload) := by
    refine Bytes.Solid.append ⟨77, ?_, by decide⟩ (Bytes.solid_of_forall hbody hblank)
    simp only [List.append_assoc, List.head?_append]
    rfl
  refine ⟨?_, Relay.trimAsciiSpace_append hline (Relay.forall_mem_newline (by decide)), hphase,
    hroom, hbody, heven, hdigits, ?_⟩
  · have hlen := Relay.length_room_le hroom
    have hphaseLen : phase.length ≤ 7 := by
      rcases hphase with rfl | rfl <;> decide
    have hmsg : (ascii "MSG ").length = 4 := by decide
    have hspace : (ascii " ").length = 1 := by decide
    have hnl : (ascii "\n").length = 1 := by decide
    simp only [List.length_append, hmsg, hspace, hnl, length_toHexLower, Relay.maxDatagramLen]
    omega
  · rw [length_toHexLower, Relay.maxMsgBodyLen]
    omega

/-- A cookie as the client keeps it: 32 hex digits in either case. -/
def HexCookie (cookie : Bytes) : Prop :=
  cookie.length = 32 ∧ ∀ c ∈ cookie, isAsciiHexdigit c = true

theorem HexCookie.ne_nil {cookie : Bytes} (h : HexCookie cookie) : cookie ≠ [] := by
  intro hnil
  have hlength := h.1
  rw [hnil] at hlength
  cases hlength

theorem hv_isSome (c : UInt8) : isAsciiHexdigit c = true → (Relay.hv c).isSome = true := by
  apply Relay.forall_byte (P := fun c => isAsciiHexdigit c = true → (Relay.hv c).isSome = true)
  decide +kernel

theorem hexDecode_isSome {b : Bytes} (heven : b.length % 2 = 0)
    (hb : ∀ c ∈ b, isAsciiHexdigit c = true) : (Relay.hexDecode b).isSome = true := by
  induction b using Relay.hexDecode.induct with
  | case1 => rfl
  | case2 _ => cases heven
  | case3 high low rest ih =>
      obtain ⟨v, hv⟩ := Option.isSome_iff_exists.mp (hv_isSome high (hb high List.mem_cons_self))
      obtain ⟨w, hw⟩ := Option.isSome_iff_exists.mp
        (hv_isSome low (hb low (List.mem_cons_of_mem _ List.mem_cons_self)))
      have hrest : rest.length % 2 = 0 := by
        rw [List.length_cons, List.length_cons] at heven
        omega
      obtain ⟨tail, htail⟩ := Option.isSome_iff_exists.mp
        (ih hrest fun c hc => hb c (List.mem_cons_of_mem _ (List.mem_cons_of_mem _ hc)))
      simp [Relay.hexDecode, hv, hw, htail]

/-- What the client sends, by the sizes of its fields. -/
def RegularSent : Sent → Prop
  | .reg cookie => cookie = [] ∨ HexCookie cookie
  | .spake2 payload => payload.length = spake2PayloadLen
  | .confirm cand => cand.confirmPayload.length = confirmPayloadSize

/-- The relay reads each datagram of a client in the room as what it is, and finds nothing wrong with
its form. -/
structure RelayReads (room : Room) : Prop where
  sizes : ∀ sent : Sent, RegularSent sent →
    sent.wire room ≠ [] ∧ (sent.wire room).length ≤ Relay.maxDatagramLen
  reg : parsePacket (Sent.wire room (.reg [])) = .reg room [] ∧
    ∀ (T : Relay.Tables) cfg src clock rnd,
      T.handleReg cfg room [] src clock rnd = T.regInitial cfg room src clock rnd
  regCookie : ∀ cookie, HexCookie cookie → parsePacket (Sent.wire room (.reg cookie)) =
      .reg room cookie ∧ ∃ cookieBytes, Relay.hexDecode cookie = some cookieBytes ∧
    ∀ (T : Relay.Tables) cfg src clock rnd, T.handleReg cfg room cookie src clock rnd =
      T.regWithCookie cfg room cookieBytes src clock rnd
  spake2 : ∀ payload : Bytes, payload.length = spake2PayloadLen →
    ∃ rest, parsePacket (Sent.wire room (.spake2 payload)) = .msg rest ∧
      parseMsg rest = .ok (room, ascii "spake2", toHexLower payload)
  confirm : ∀ cand : PeerCandidate, cand.confirmPayload.length = confirmPayloadSize →
    ∃ rest, parsePacket (Sent.wire room (.confirm cand)) = .msg rest ∧
      parseMsg rest = .ok (room, ascii "confirm", toHexLower cand.confirmPayload)

theorem saysMsg_spake2 {room : Room} (hroom : validRoomName room = true) {payload : Bytes}
    (hlength : payload.length = spake2PayloadLen) :
    Relay.SaysMsg (Sent.wire room (.spake2 payload)) room (ascii "spake2") (toHexLower payload) := by
  have hwire : Sent.wire room (.spake2 payload) = ascii "MSG " ++ room ++ ascii " " ++
      ascii "spake2" ++ ascii " " ++ toHexLower payload ++ ascii "\n" := by
    simp only [Sent.wire, List.append_assoc]
    rfl
  rw [hwire]
  refine saysMsg_wire hroom (Or.inl rfl) ?_ (by rw [hlength]; decide)
  exact List.ne_nil_of_length_pos (by rw [hlength]; decide)

theorem saysMsg_confirm {room : Room} (hroom : validRoomName room = true) {cand : PeerCandidate}
    (hlength : cand.confirmPayload.length = confirmPayloadSize) :
    Relay.SaysMsg (Sent.wire room (.confirm cand)) room (ascii "confirm")
      (toHexLower cand.confirmPayload) := by
  have hwire : Sent.wire room (.confirm cand) = ascii "MSG " ++ room ++ ascii " " ++
      ascii "confirm" ++ ascii " " ++ toHexLower cand.confirmPayload ++ ascii "\n" := by
    simp only [Sent.wire, List.append_assoc]
    rfl
  rw [hwire]
  refine saysMsg_wire hroom (Or.inr rfl) ?_ (by rw [hlength]; decide)
  exact List.ne_nil_of_length_pos (by rw [hlength]; decide)

theorem relayReads {room : Room} (hroom : validRoomName room = true) : RelayReads room := by
  refine ⟨?_, ⟨?_, ?_⟩, ?_, ?_, ?_⟩
  · intro sent hregular
    cases sent with
    | reg cookie =>
        refine ⟨?_, ?_⟩
        · rw [Sent.wire, Relay.regLine_eq]
          simp [ascii]
        · refine Relay.length_regLine_le hroom ?_
          rcases hregular with rfl | hhex
          · exact Nat.zero_le _
          · exact hhex.1.le
    | spake2 payload =>
        exact ⟨by simp [Sent.wire, ascii], (saysMsg_spake2 hroom hregular).size⟩
    | confirm cand =>
        exact ⟨by simp [Sent.wire, ascii], (saysMsg_confirm hroom hregular).size⟩
  · exact Relay.parsePacket_regLine hroom (Or.inl rfl) (Nat.zero_le _)
  · intro T cfg src clock rnd
    rw [Relay.Tables.handleReg, if_pos rfl]
  · intro cookie hcookie
    have hvalid : isValidHex cookie = true :=
      Relay.isValidHex_iff.mpr ⟨hcookie.ne_nil, by rw [hcookie.1], hcookie.2⟩
    obtain ⟨cookieBytes, hbytes⟩ := Option.isSome_iff_exists.mp
      (hexDecode_isSome (by rw [hcookie.1]) hcookie.2)
    refine ⟨Relay.parsePacket_regLine hroom (Or.inr (Relay.unblank_of_hex hcookie.ne_nil hcookie.2))
      hcookie.1.le, cookieBytes, hbytes, fun T cfg src clock rnd => ?_⟩
    rw [Relay.Tables.handleReg, if_neg hcookie.ne_nil, if_neg, hbytes]
    rintro (hinvalid | hlength)
    · rw [hvalid] at hinvalid
      cases hinvalid
    · exact hlength hcookie.1
  · exact fun payload hlength => Relay.parse_iff_saysMsg.mpr (saysMsg_spake2 hroom hlength)
  · exact fun cand hlength => Relay.parse_iff_saysMsg.mpr (saysMsg_confirm hroom hlength)

/-! ### What the client reads -/

theorem readDatagram_msgd (room : Room) {phase body : Bytes} (hhex : isValidHex body = true)
    (target : SocketAddr) :
    readDatagram room (Reply.wire (.msgd phase body target)) =
      classify room (ascii "MSGD " ++ phase ++ ascii " " ++ body) ∧
    isUtf8 body = true := by
  obtain ⟨hne, -, hdigits⟩ := Relay.isValidHex_iff.mp hhex
  have hunblank := Relay.unblank_of_hex hne hdigits
  have hline : Bytes.Solid ws.contains (ascii "MSGD " ++ phase ++ ascii " " ++ body) := by
    refine Bytes.Solid.append ⟨77, ?_, by decide⟩ hunblank.solidClient
    simp only [List.append_assoc, List.head?_append]
    rfl
  constructor
  · rw [readDatagram, Reply.wire, trimAscii_append hline (Relay.forall_mem_newline (by decide))]
    rfl
  · refine isUtf8_of_ascii fun c hc => ?_
    have hprintable := printable_of_hexdigit c (hdigits c hc)
    rw [Bool.and_eq_true, decide_eq_true_eq, decide_eq_true_eq] at hprintable
    exact UInt8.le_trans hprintable.2 (by decide)

theorem readDatagram_spake2 (room : Room) {body : Bytes} (hhex : isValidHex body = true)
    (target : SocketAddr) :
    readDatagram room (Reply.wire (.msgd (ascii "spake2") body target)) = some (.spake2 body) := by
  obtain ⟨hread, hutf8⟩ := readDatagram_msgd room hhex target
  have hline : ascii "MSGD " ++ ascii "spake2" ++ ascii " " ++ body =
      ascii "MSGD spake2 " ++ body := rfl
  have hregd : Bytes.stripPrefix (ascii "REGD ") (ascii "MSGD spake2 " ++ body) = none := rfl
  rw [hread, hline, classify, hregd, Bytes.stripPrefix_append]
  simp only [hutf8, if_true]

theorem readDatagram_confirm (room : Room) {body : Bytes} (hhex : isValidHex body = true)
    (target : SocketAddr) :
    readDatagram room (Reply.wire (.msgd (ascii "confirm") body target)) = some (.confirm body) := by
  obtain ⟨hread, hutf8⟩ := readDatagram_msgd room hhex target
  have hline : ascii "MSGD " ++ ascii "confirm" ++ ascii " " ++ body =
      ascii "MSGD confirm " ++ body := rfl
  have hregd : Bytes.stripPrefix (ascii "REGD ") (ascii "MSGD confirm " ++ body) = none := rfl
  have hspake2 : Bytes.stripPrefix (ascii "MSGD spake2 ") (ascii "MSGD confirm " ++ body) = none :=
    rfl
  rw [hread, hline, classify, hregd, hspake2, Bytes.stripPrefix_append]
  simp only [hutf8, if_true]

theorem adoptable_toText (src : SocketAddr) : adoptable src.toText = decide (src.port ≠ 0) := by
  have hprintable := src.toText_spec.1
  have hutf8 : isUtf8 src.toText = true := by
    refine isUtf8_of_ascii fun c hc => ?_
    have hc := List.all_eq_true.mp hprintable c hc
    rw [printable, Bool.and_eq_true, decide_eq_true_eq, decide_eq_true_eq] at hc
    exact UInt8.le_trans hc.2 (by decide)
  have hall : (src.toText.all fun b => 33 ≤ b && b ≤ 126) = true := hprintable
  rw [adoptable, hutf8, src.parse_toText, hall]
  simp

/-- What the relay sends to a client of the room. -/
def RegularReply (room : Room) : Reply → Prop
  | .regd room' _ => room' = room
  | .challenge room' _ _ => room' = room
  | .msgd phase body _ => (phase = ascii "spake2" ∨ phase = ascii "confirm") ∧
      isValidHex body = true ∧ body.length ≤ Relay.maxMsgBodyLen

/-- The client reads each datagram of the relay for its room as what it is, and none of them is too
long for its buffer. -/
structure ClientReads (room : Room) : Prop where
  challenge : ∀ cookie src, readDatagram room (Reply.wire (.challenge room cookie src)) =
    some (.challenge (Relay.toHexLower cookie.bytes))
  accepted : ∀ src : SocketAddr, readDatagram room (Reply.wire (.regd room src)) =
      some (.accepted src.toText) ∧
    SocketAddr.parse src.toText = some src ∧ adoptable src.toText = decide (src.port ≠ 0)
  spake2 : ∀ body target, isValidHex body = true →
    readDatagram room (Reply.wire (.msgd (ascii "spake2") body target)) = some (.spake2 body)
  confirm : ∀ body target, isValidHex body = true →
    readDatagram room (Reply.wire (.msgd (ascii "confirm") body target)) = some (.confirm body)
  sizes : ∀ reply, RegularReply room reply → (Reply.wire reply).length ≤ readBufferSize

theorem clientReads {room : Room} (hroom : validRoomName room = true) : ClientReads room := by
  refine ⟨fun cookie src => Relay.readDatagram_challenge hroom cookie src, fun src => ?_,
    fun body target hhex => readDatagram_spake2 room hhex target,
    fun body target hhex => readDatagram_confirm room hhex target, ?_⟩
  · exact ⟨Relay.readDatagram_accepted hroom src, src.parse_toText, adoptable_toText src⟩
  · intro reply hregular
    have hroomLength := Relay.length_room_le hroom
    have hregd : (ascii "REGD ").length = 5 := rfl
    have hok : (ascii " OK ").length = 4 := rfl
    have hmsgd : (ascii "MSGD ").length = 5 := rfl
    have hspace : (ascii " ").length = 1 := rfl
    have hnl : (ascii "\n").length = 1 := rfl
    cases reply with
    | regd room' src =>
        have haddr := src.toText_spec.2
        rw [hregular]
        simp only [Reply.wire, List.length_append, hregd, hok, hnl, readBufferSize]
        omega
    | challenge room' cookie src =>
        rw [hregular]
        simp only [Reply.wire, List.length_append, hregd, hspace, hnl, Relay.length_cookie,
          readBufferSize]
        omega
    | msgd phase body target =>
        obtain ⟨hphase, -, hbody⟩ := hregular
        have hphaseLength : phase.length ≤ 7 := by
          rcases hphase with rfl | rfl <;> decide
        rw [Relay.maxMsgBodyLen] at hbody
        simp only [Reply.wire, List.length_append, hmsgd, hspace, hnl, readBufferSize]
        omega

/-- **Client and relay speak the same format** in the room of every connection code. -/
theorem formats_agree (H : Primitives) (hsha : ∀ input, (H.sha256 input).length = 32)
    (code : Bytes) : RelayReads (nameplate H code) ∧ ClientReads (nameplate H code) :=
  ⟨relayReads (validRoomName_nameplate H hsha code),
    clientReads (validRoomName_nameplate H hsha code)⟩

theorem formats_agree_generated :
    nameplate Spake2.smallHashes (ascii "1234-apple-lake-moon") = ascii "1234" ∧
      RelayReads (ascii "1234") ∧ ClientReads (ascii "1234") := by
  have hsha : ∀ input, (Spake2.smallHashes.sha256 input).length = 32 := by
    intro input
    simp [Spake2.smallHashes, Spake2.smallRepr]
  have hroom : nameplate Spake2.smallHashes (ascii "1234-apple-lake-moon") = ascii "1234" := by
    decide +kernel
  have hagree := formats_agree Spake2.smallHashes hsha (ascii "1234-apple-lake-moon")
  rw [hroom] at hagree
  exact ⟨hroom, hagree⟩

end Qvole.Exchange
