import Qvole.Relay.Proof.Trim

/-!
# Client and relay on the wire

The relay reads a client's registration as the room and the cookie the client put in it, and a
client takes the cookie out of the relay's challenge. The two sides trim blanks and code hex with
functions of their own.
-/

namespace Qvole.Relay

open Exchange (Registrar)

/-! ### Room names and cookies have no blanks -/

theorem forall_mem_newline {p : UInt8 → Prop} (h : p 10) : ∀ c ∈ ascii "\n", p c := by
  intro c hc
  obtain rfl : c = 10 := List.mem_singleton.mp hc
  exact h

theorem forall_byte {P : UInt8 → Prop} (h : ∀ n : Fin 256, P (UInt8.ofNat n)) (c : UInt8) : P c := by
  simpa using h ⟨c.toNat, c.toNat_lt⟩

theorem not_blank_of_printable (c : UInt8) :
    (33 ≤ c && c ≤ 126) = true → ws.contains c = false ∧ Exchange.ws.contains c = false ∧ c ≠ 32 := by
  apply forall_byte (P := fun c => (33 ≤ c && c ≤ 126) = true →
    ws.contains c = false ∧ Exchange.ws.contains c = false ∧ c ≠ 32)
  decide +kernel

theorem not_blank_of_hexdigit (c : UInt8) :
    isAsciiHexdigit c = true → ws.contains c = false ∧ Exchange.ws.contains c = false ∧ c ≠ 32 := by
  apply forall_byte (P := fun c => isAsciiHexdigit c = true →
    ws.contains c = false ∧ Exchange.ws.contains c = false ∧ c ≠ 32)
  decide +kernel

structure Unblank (b : Bytes) : Prop where
  ne_nil : b ≠ []
  relay : ∀ c ∈ b, ws.contains c = false
  client : ∀ c ∈ b, Exchange.ws.contains c = false
  space : (32 : UInt8) ∉ b

theorem unblank_room {room : Room} (h : validRoomName room = true) : Unblank room := by
  unfold validRoomName at h
  split at h
  · cases h
  · rename_i hlen
    simp only [Bool.or_eq_true, List.isEmpty_iff, decide_eq_true_eq, not_or] at hlen
    rw [List.all_eq_true] at h
    refine ⟨hlen.1, fun c hc => ?_, fun c hc => ?_, fun hc => ?_⟩
    · exact (not_blank_of_printable c (h c hc)).1
    · exact (not_blank_of_printable c (h c hc)).2.1
    · exact (not_blank_of_printable 32 (h 32 hc)).2.2 rfl

theorem unblank_of_hex {b : Bytes} (hne : b ≠ []) (hb : ∀ c ∈ b, isAsciiHexdigit c = true) :
    Unblank b :=
  ⟨hne, fun c hc => (not_blank_of_hexdigit c (hb c hc)).1,
    fun c hc => (not_blank_of_hexdigit c (hb c hc)).2.1,
    fun hc => (not_blank_of_hexdigit 32 (hb 32 hc)).2.2 rfl⟩

theorem unblank_cookie (cookie : Cookie) : Unblank (toHexLower cookie.bytes) := by
  refine unblank_of_hex ?_ fun c hc => isAsciiHexdigit_of_mem_toHexLower hc
  intro hnil
  have hlen := length_toHexLower cookie.bytes
  rw [hnil, cookie.length_eq] at hlen
  exact absurd hlen (by decide)

theorem Unblank.solid {b : Bytes} (h : Unblank b) : Bytes.Solid ws.contains b :=
  Bytes.solid_of_forall h.ne_nil h.relay

theorem Unblank.solidClient {b : Bytes} (h : Unblank b) : Bytes.Solid Exchange.ws.contains b :=
  Bytes.solid_of_forall h.ne_nil h.client

theorem length_cookie (cookie : Cookie) : (toHexLower cookie.bytes).length = 32 := by
  rw [length_toHexLower, cookie.length_eq]
  rfl

theorem toHexLower_eq (b : Bytes) : Exchange.toHexLower b = toHexLower b := by
  have hbyte : ∀ byte : UInt8, [Exchange.hexDigits.getD (byte >>> 4).toNat 0,
      Exchange.hexDigits.getD (byte &&& 0x0f).toNat 0] = hexByte byte := by
    apply forall_byte
    decide +kernel
  simp only [Exchange.toHexLower, toHexLower, hbyte]

theorem hexDecode_cookie (cookie : Cookie) :
    hexDecode (toHexLower cookie.bytes) = some cookie.bytes :=
  hexDecode_toHexLower cookie.bytes

/-! ### The relay reads the client's registration -/

/-- What follows `REG`. -/
def regText (room : Room) (cookie : Bytes) : Bytes :=
  if cookie.isEmpty then room else room ++ ascii " " ++ cookie

theorem solid_regText {room : Room} (hroom : validRoomName room = true) {cookie : Bytes}
    (hcookie : cookie = [] ∨ Unblank cookie) : Bytes.Solid ws.contains (regText room cookie) := by
  rcases hcookie with rfl | hcookie
  · exact (unblank_room hroom).solid
  · rw [regText, if_neg (by simpa using hcookie.ne_nil)]
    refine Bytes.Solid.append ?_ hcookie.solid
    obtain ⟨c, hc, hblank⟩ := (unblank_room hroom).solid.1
    refine ⟨c, ?_, hblank⟩
    cases room with
    | nil => simp at hc
    | cons e rest => simpa using hc

theorem splitOnce_regText {room : Room} (hroom : validRoomName room = true) {cookie : Bytes}
    (hcookie : cookie = [] ∨ Unblank cookie) :
    (Bytes.splitOnce 32 (regText room cookie)).1 = room ∧
      (((Bytes.splitOnce 32 (regText room cookie)).2.map trimAsciiSpace).getD []) = cookie := by
  have hspace := (unblank_room hroom).space
  rcases hcookie with rfl | hcookie
  · have hsplit : Bytes.splitOnce 32 (regText room []) = (room, none) :=
      Bytes.splitOnce_of_notMem hspace
    rw [hsplit]
    exact ⟨rfl, rfl⟩
  · have hsplit : Bytes.splitOnce 32 (regText room cookie) = (room, some cookie) := by
      rw [regText, if_neg (by simpa using hcookie.ne_nil), List.append_assoc]
      exact Bytes.splitOnce_append hspace _
    rw [hsplit]
    exact ⟨rfl, trimAsciiSpace_of_solid hcookie.solid⟩

theorem length_room_le {room : Room} (hroom : validRoomName room = true) : room.length ≤ 64 := by
  unfold validRoomName at hroom
  split at hroom
  · cases hroom
  · rename_i hcond
    rw [Bool.or_eq_true, not_or] at hcond
    have hlong := hcond.2
    rw [decide_eq_true_eq] at hlong
    exact Nat.le_of_not_lt hlong

theorem length_regText_le (room : Room) (cookie : Bytes) :
    (regText room cookie).length ≤ room.length + 1 + cookie.length := by
  have hone : (ascii " ").length = 1 := by decide
  unfold regText
  split
  · omega
  · rw [List.length_append, List.length_append, hone]

theorem regLine_eq (client : Registrar) (room : Room) :
    client.regLine room = ascii "REG " ++ regText room client.pendingCookie ++ ascii "\n" := by
  unfold Registrar.regLine regText
  split
  · rfl
  · simp only [List.append_assoc]

theorem length_regLine_le {client : Registrar} {room : Room} (hroom : validRoomName room = true)
    (hshort : client.pendingCookie.length ≤ 32) :
    (client.regLine room).length ≤ maxDatagramLen := by
  have htext := length_regText_le room client.pendingCookie
  have hlen := length_room_le hroom
  have hreg : (ascii "REG ").length = 4 := by decide
  have hnl : (ascii "\n").length = 1 := by decide
  rw [regLine_eq, List.length_append, List.length_append, hreg, hnl, maxDatagramLen]
  omega

/-- **The relay reads a registration back.** -/
theorem parsePacket_regLine {client : Registrar} {room : Room} (hroom : validRoomName room = true)
    (hcookie : client.pendingCookie = [] ∨ Unblank client.pendingCookie)
    (hshort : client.pendingCookie.length ≤ 32) :
    parsePacket (client.regLine room) = .reg room client.pendingCookie := by
  have hsolid := solid_regText hroom hcookie
  have hline : Bytes.Solid ws.contains (ascii "REG " ++ regText room client.pendingCookie) :=
    Bytes.Solid.append ⟨82, by decide, by decide⟩ hsolid
  have htrim : trimAsciiSpace (client.regLine room) =
      ascii "REG " ++ regText room client.pendingCookie := by
    rw [regLine_eq]
    exact trimAsciiSpace_append hline (forall_mem_newline (by decide))
  have hlength : (ascii "REG ").length = 4 := by decide
  have hsize : ((client.regLine room).isEmpty || (client.regLine room).length > maxDatagramLen) =
      false := by
    rw [Bool.or_eq_false_iff]
    constructor
    · rw [List.isEmpty_eq_false_iff, regLine_eq]
      simp [ascii]
    · rw [decide_eq_false_iff_not, not_lt]
      exact length_regLine_le hroom hshort
  have hreg : (ascii "REG " ++ regText room client.pendingCookie).length ≥ cmdPrefixLen ∧
      (ascii "REG ").isPrefixOf (ascii "REG " ++ regText room client.pendingCookie) = true := by
    refine ⟨?_, List.isPrefixOf_iff_prefix.mpr ⟨_, rfl⟩⟩
    rw [List.length_append, hlength]
    exact Nat.le_add_right _ _
  have hdrop : (ascii "REG " ++ regText room client.pendingCookie).drop cmdPrefixLen =
      regText room client.pendingCookie := List.drop_left' hlength
  have hne : room.isEmpty = false := List.isEmpty_eq_false_iff.mpr (unblank_room hroom).ne_nil
  obtain ⟨hfirst, hsecond⟩ := splitOnce_regText hroom hcookie
  unfold parsePacket
  rw [if_neg (by rw [hsize]; exact Bool.false_ne_true), htrim]
  simp only [hreg, and_self, if_true]
  unfold parseReg
  simp only [hdrop, trimAsciiSpace_of_solid hsolid, hfirst, hsecond, hne, hroom, Bool.not_true,
    Bool.false_eq_true, if_false]

def regWords (room : Room) : Option Cookie → Bytes
  | none => room
  | some cookie => room ++ ascii " " ++ toHexLower cookie.bytes

def cookieText : Option Cookie → Bytes
  | none => []
  | some cookie => toHexLower cookie.bytes

def regData (room : Room) (cookie : Option Cookie) : Bytes :=
  ascii "REG " ++ regWords room cookie ++ ascii "\n"

theorem regLine_eq_regData {client : Registrar} {cookie : Option Cookie}
    (hclient : client.pendingCookie = cookieText cookie) (room : Room) :
    client.regLine room = regData room cookie := by
  unfold Registrar.regLine regData
  rw [hclient]
  cases cookie with
  | none => rfl
  | some cookie =>
      have hne : (toHexLower cookie.bytes).isEmpty = false :=
        List.isEmpty_eq_false_iff.mpr (unblank_cookie cookie).ne_nil
      simp only [cookieText, hne, Bool.false_eq_true, if_false, regWords, List.append_assoc]

theorem parsePacket_regData {room : Room} (hroom : validRoomName room = true)
    (cookie : Option Cookie) : parsePacket (regData room cookie) = .reg room (cookieText cookie) := by
  have hclient : ({ Registrar.new with pendingCookie := cookieText cookie } : Registrar).regLine room =
      regData room cookie := regLine_eq_regData rfl room
  rw [← hclient]
  cases cookie with
  | none => exact parsePacket_regLine hroom (Or.inl rfl) (Nat.zero_le _)
  | some cookie =>
      exact parsePacket_regLine hroom (Or.inr (unblank_cookie cookie)) (length_cookie cookie).le

/-! ### The client reads the relay's answers -/

theorem unblank_decimal (n : Nat) : Unblank (decimal n) := by
  have hdigit : ∀ c ∈ decimal n, isAsciiHexdigit c = true := by
    intro c hc
    obtain ⟨d, hd, rfl⟩ := List.mem_map.mp hc
    have hrange := Nat.isDigit_of_mem_toDigits (by decide) (by decide) hd
    rw [Char.isDigit_iff_toNat] at hrange
    have hzero : '0'.toNat = 48 := rfl
    have hnine : '9'.toNat = 57 := rfl
    have hbyte : d.byte.toNat = d.toNat := by
      rw [Char.byte, Nat.toUInt8, UInt8.toNat_ofNat']
      omega
    simp only [isAsciiHexdigit, Bool.or_eq_true, Bool.and_eq_true, decide_eq_true_eq,
      UInt8.le_iff_toNat_le, hbyte, UInt8.reduceToNat]
    omega
  exact unblank_of_hex (by simp [decimal, Nat.toDigits_ne_nil]) hdigit

theorem solid_toText (src : SocketAddr) : Bytes.Solid Exchange.ws.contains src.toText := by
  cases src with
  | v4 ip port =>
      refine Bytes.Solid.append ?_ (unblank_decimal port.toNat).solidClient
      obtain ⟨c, hc, hblank⟩ := (unblank_decimal ip.a.toNat).solidClient.1
      refine ⟨c, ?_, hblank⟩
      simp only [Ipv4Addr.toText, List.append_assoc, List.head?_append, Option.mem_def.mp hc]
      rfl
  | v6 ip port scopeId =>
      refine Bytes.Solid.append ⟨91, ?_, by decide⟩ (unblank_decimal port.toNat).solidClient
      simp only [List.append_assoc, List.head?_append]
      rfl

section Client

variable {room : Room} (hroom : validRoomName room = true) (client : Registrar)

include hroom

theorem readDatagram_regd {payload : Bytes} (hpayload : Bytes.Solid Exchange.ws.contains payload) :
    Exchange.readDatagram room (ascii "REGD " ++ room ++ ascii " " ++ payload ++ ascii "\n") =
      Exchange.classifyRegd payload := by
  have hrest : Bytes.Solid Exchange.ws.contains (ascii "REGD " ++ (room ++ 32 :: payload)) := by
    have hhead : ∃ c ∈ (ascii "REGD " ++ room ++ ascii " ").head?,
        Exchange.ws.contains c = false := by
      refine ⟨82, ?_, by decide⟩
      simp only [List.append_assoc, List.head?_append]
      rfl
    have hsolid := Bytes.Solid.append hhead hpayload
    rw [List.append_assoc, List.append_assoc] at hsolid
    exact hsolid
  have hline : Exchange.trimAscii (ascii "REGD " ++ room ++ ascii " " ++ payload ++ ascii "\n") =
      some (ascii "REGD " ++ (room ++ 32 :: payload)) := by
    have hspace : ascii " " ++ payload = 32 :: payload := rfl
    rw [List.append_assoc (ascii "REGD "), List.append_assoc (ascii "REGD "),
      List.append_assoc room, hspace]
    exact Exchange.trimAscii_append hrest (forall_mem_newline (by decide))
  rw [Exchange.readDatagram, hline, Option.bind_some, Exchange.classify, Bytes.stripPrefix_append]
  simp only [Bytes.splitOnce_append (unblank_room hroom).space, ne_eq, not_true_eq_false, if_false,
    Exchange.trimAscii_of_solid hpayload, Option.bind_some]

theorem readDatagram_challenge (cookie : Cookie) (src : SocketAddr) :
    Exchange.readDatagram room (Reply.wire (.challenge room cookie src)) =
      some (.challenge (toHexLower cookie.bytes)) := by
  have hlen := length_cookie cookie
  have hnotOk : Bytes.stripPrefix (ascii "OK ") (toHexLower cookie.bytes) = none := by
    unfold Bytes.stripPrefix
    rw [if_neg]
    intro hok
    obtain ⟨rest, hrest⟩ := List.isPrefixOf_iff_prefix.mp hok
    exact (unblank_cookie cookie).space (hrest ▸ by simp [ascii, Char.byte])
  have hdecoded : Exchange.hexDecode (toHexLower cookie.bytes) = some cookie.bytes := by
    rw [← toHexLower_eq, Exchange.hexDecode_toHexLower]
  have hutf8 := Bytes.isUtf8_of_ascii (Exchange.ascii_of_hexDecode hdecoded)
  unfold Reply.wire
  rw [readDatagram_regd hroom (unblank_cookie cookie).solidClient]
  unfold Exchange.classifyRegd
  simp only [hnotOk, hlen, hutf8, hdecoded, Option.isSome_some, and_self, if_true]

theorem readDatagram_accepted (src : SocketAddr) :
    Exchange.readDatagram room (Reply.wire (.regd room src)) = some (.accepted src.toText) := by
  have hpayload : Bytes.Solid Exchange.ws.contains (ascii "OK " ++ src.toText) :=
    Bytes.Solid.append ⟨79, by decide, by decide⟩ (solid_toText src)
  have hwire : Reply.wire (.regd room src) =
      ascii "REGD " ++ room ++ ascii " " ++ (ascii "OK " ++ src.toText) ++ ascii "\n" := by
    simp [Reply.wire, ascii]
  rw [hwire, readDatagram_regd hroom hpayload]
  unfold Exchange.classifyRegd
  rw [Bytes.stripPrefix_append]
  simp only [Exchange.trimAscii_of_solid (solid_toText src), Option.map_some]

/-- **A challenge is remembered.** The client keeps the cookie and answers at once. -/
theorem onDatagram_challenge (cookie : Cookie) (src : SocketAddr) :
    client.onDatagram room (Reply.wire (.challenge room cookie src)) =
      some { client with pendingCookie := toHexLower cookie.bytes, lastRegSent := none } := by
  rw [Exchange.onDatagram_eq, readDatagram_challenge hroom]
  rfl

/-- An acceptance is noted; the cookie that earned it is kept. -/
theorem onDatagram_accepted (src : SocketAddr) :
    client.onDatagram room (Reply.wire (.regd room src)) =
      some { client with receivedRegd := true } := by
  rw [Exchange.onDatagram_eq, readDatagram_accepted hroom]
  rfl

end Client

/-! ### Handshakes -/

def Cookie.fill (byte : UInt8) : Cookie := ⟨List.replicate pendingCookieBytes byte, by simp⟩

def regEvent (room : Room) (cookie : Option Cookie) (src : SocketAddr) (now : Instant)
    (rnd : Cookie) : Event :=
  .packet (regData room cookie) src (.same now) rnd

/-- A registration and the answer to its challenge. -/
def handshake (room : Room) (src : SocketAddr) (now : Instant) (cookie : Cookie) : List Event :=
  [regEvent room none src now cookie, regEvent room (some cookie) src now cookie]

end Qvole.Relay
