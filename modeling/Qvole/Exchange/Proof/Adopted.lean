import Qvole.Exchange.Connect
import Qvole.Exchange.Proof.Agreement
import Qvole.Exchange.Proof.Candidates

/-!
# Adopted addresses on the way to the peer

The text of an address is taken from the relay as it stands. It reaches the peer in a field of fixed
size, and the peer reads the same address from it. The parser of addresses puts no bound on a text:
scopes and ports may have any number of leading zeros.
-/

namespace Qvole.Exchange

open Spake2 (Curve Primitives Generators State)

/-! ### Adopted texts -/

theorem charFrom_toNat {b : UInt8} (hb : b ≤ 126) : (charFrom b).toNat = b.toNat := by
  have hle : b.toNat ≤ 126 := hb
  have hvalid : b.toNat.isValidChar := Or.inl (by omega)
  rw [charFrom, Char.ofNat, dif_pos hvalid]
  rfl

theorem plainText_textOf {b : Bytes} (hb : ∀ c ∈ b, 33 ≤ c ∧ c ≤ 126) : PlainText (textOf b) := by
  intro c hc
  rw [textOf, String.toList_ofList, List.mem_map] at hc
  obtain ⟨byte, hbyte, rfl⟩ := hc
  obtain ⟨hlow, hhigh⟩ := hb byte hbyte
  have hlow : 33 ≤ byte.toNat := hlow
  have hhigh' : byte.toNat ≤ 126 := hhigh
  rw [charFrom_toNat hhigh]
  omega

theorem asBytes_textOf {b : Bytes} (hb : ∀ c ∈ b, 33 ≤ c ∧ c ≤ 126) : asBytes (textOf b) = b := by
  rw [asBytes_eq_map (plainText_textOf hb), textOf, String.toList_ofList, List.map_map]
  calc b.map ((fun c => UInt8.ofNat c.toNat) ∘ charFrom)
      = b.map id := List.map_congr_left fun c hc => by
        rw [Function.comp_apply, charFrom_toNat (hb c hc).2, UInt8.ofNat_toNat, id]
    _ = b := List.map_id b

/-- What is known of a text that was adopted. -/
theorem adoptable_spec {extAddr : Bytes} (h : adoptable extAddr = true) :
    (∃ addr, SocketAddr.parse extAddr = some addr ∧ addr.port ≠ 0) ∧
      ∀ c ∈ extAddr, 33 ≤ c ∧ c ≤ 126 := by
  rw [adoptable, Bool.and_eq_true, Bool.and_eq_true] at h
  obtain ⟨⟨-, hparsed⟩, hall⟩ := h
  refine ⟨?_, fun c hc => ?_⟩
  · cases haddr : SocketAddr.parse extAddr with
    | none => simp [haddr] at hparsed
    | some addr => exact ⟨addr, rfl, by simpa [haddr] using hparsed⟩
  · have hc := List.all_eq_true.mp hall c hc
    simpa using hc

theorem peerUdpAddr_textOf {extAddr : Bytes} {addr : SocketAddr} (h : adoptable extAddr = true)
    (hparsed : SocketAddr.parse extAddr = some addr) :
    peerUdpAddr (textOf extAddr) =
      if invalidPeer addr then .fail (.invalidPeerAddr (textOf extAddr)) else .ok addr := by
  rw [peerUdpAddr, asBytes_textOf (adoptable_spec h).2, hparsed]

/-! ### The way to the peer -/

/-- What the keys and the messages of a key agreement look like from one of its two sides. The other
side has the same keys, and points and fingerprints the other way round. -/
structure Pairing where
  confirmKey : Bytes
  encKey : Bytes
  myPoint : Bytes
  peerPoint : Bytes
  myFingerprint : Bytes
  peerFingerprint : Bytes
  length_encKey : encKey.length = 32
  length_myPoint : myPoint.length = pointLen
  length_peerPoint : peerPoint.length = pointLen
  length_myFingerprint : myFingerprint.length = fingerprintSize
  length_peerFingerprint : peerFingerprint.length = fingerprintSize
  distinct : myFingerprint ≠ peerFingerprint

section Pairing

variable {F P : Type} [Field F] [DecidableEq F] (C : Curve F P) (H : Primitives)
  (G : Generators C H)

def Pairing.build (pairing : Pairing) (draws : ConfirmDraws) (myAddr : String) :
    Outcome ExchangeError Bytes :=
  buildConfirmPayload C H G draws pairing.confirmKey pairing.encKey pairing.myPoint
    pairing.peerPoint pairing.myFingerprint pairing.peerFingerprint myAddr

/-- What the other side reads. -/
def Pairing.peerReads (pairing : Pairing) (payload : Bytes) : Outcome ExchangeError String :=
  processConfirmMsg C H G (toHexLower payload) pairing.confirmKey pairing.encKey pairing.peerPoint
    pairing.myPoint pairing.peerFingerprint pairing.myFingerprint

/-- The address can be sent, and the peer gets the text that was sent and from it the address. -/
structure Advertisable (pairing : Pairing) (draws : ConfirmDraws) (extAddr : Bytes)
    (myAddr : String) : Prop where
  fits : ∀ length max, pairing.build C H G draws myAddr ≠ .fail (.addressTooLong length max)
  delivered : ∃ payload, pairing.build C H G draws myAddr = .ok payload ∧
    pairing.peerReads C H G payload = .ok myAddr
  parsed : ∃ addr, SocketAddr.parse extAddr = some addr ∧
    peerUdpAddr myAddr = if invalidPeer addr then .fail (.invalidPeerAddr myAddr) else .ok addr

variable {C H G}

theorem Pairing.build_tooLong {n : F × F} (hn : C.affineXy G.n = .ok n) (pairing : Pairing)
    (draws : ConfirmDraws) {myAddr : String} (hlong : maxMetadataSize < (asBytes myAddr).length) :
    pairing.build C H G draws myAddr =
      .fail (.addressTooLong (asBytes myAddr).length maxMetadataSize) := by
  have hnonempty : draws.confirmNonce ≠ [] := by
    apply List.ne_nil_of_length_pos
    rw [draws.length_confirmNonce]
    decide
  obtain ⟨confirm, hconfirm⟩ : ∃ confirm, Spake2.computeConfirm C H G pairing.confirmKey
      pairing.myPoint pairing.peerPoint draws.confirmNonce pairing.myFingerprint
      pairing.peerFingerprint = .ok confirm :=
    ⟨_, Spake2.computeConfirm_eq_ok.mpr ⟨hnonempty, pairing.length_myFingerprint,
      pairing.length_peerFingerprint, pairing.distinct, n, hn, rfl⟩⟩
  unfold Pairing.build buildConfirmPayload
  rw [hconfirm, Outcome.mapErr_ok, Outcome.ok_bind]
  simp only [gt_iff_lt, if_pos hlong]

/-- A text that fits arrives. -/
theorem Pairing.exists_payload (hH : H.Lawful) {n : F × F} (hn : C.affineXy G.n = .ok n)
    (pairing : Pairing) (draws : ConfirmDraws) {myAddr : String} (hplain : PlainText myAddr)
    (hfits : (asBytes myAddr).length ≤ maxMetadataSize) :
    ∃ payload, pairing.build C H G draws myAddr = .ok payload ∧
      pairing.peerReads C H G payload = .ok myAddr :=
  confirm_roundtrip hH hn pairing.length_encKey pairing.length_myPoint pairing.length_peerPoint
    pairing.length_myFingerprint pairing.length_peerFingerprint pairing.distinct draws hplain hfits

end Pairing

/-! ### Adopting -/

theorem classify_accepted {room : Room} {line extAddr : Bytes}
    (h : classify room line = some (.accepted extAddr)) : ∃ rest, line = ascii "REGD " ++ rest := by
  unfold classify at h
  split at h
  · rename_i rest hrest
    exact ⟨rest, Bytes.eq_append_of_stripPrefix hrest⟩
  · split at h
    · split at h <;> cases h
    · split at h
      · split at h <;> cases h
      · cases h

variable {F S P : Type} [Field F] [DecidableEq F] [Field S] [AddCommGroup P] [DecidableEq P]
  [Module S P] {C : Curve F P} {H : Primitives} {G : Generators C H}

/-- The text becomes the address of this side if it can be one. -/
theorem myAddr_receive {party : Party F S} {data extAddr : Bytes}
    (hread : readDatagram party.room data = some (.accepted extAddr)) (s : Session) (turn : Turn) :
    (party.receive C H G s turn data).1.session.myAddr =
      if adoptable extAddr then textOf extAddr else s.myAddr := by
  rw [readDatagram, Option.bind_eq_some_iff] at hread
  obtain ⟨line, hline, hclassified⟩ := hread
  obtain ⟨rest, rfl⟩ := classify_accepted hclassified
  have hmeter : s.meter (ascii "REGD " ++ rest) turn.clock.window = (s, false) := by
    rw [Session.meter]
    rfl
  simp only [Party.receive, hline, hmeter, hclassified, Bool.false_eq_true, if_false]
  rfl

/-- **Adopted addresses can be advertised** exactly when their text fits the field for it. -/
theorem adopted_advertisable_iff (hC : C.Lawful) (hH : H.Lawful) {party : Party F S}
    {data extAddr : Bytes} (hread : readDatagram party.room data = some (.accepted extAddr))
    (hadopted : adoptable extAddr = true) (s : Session) (turn : Turn) (pairing : Pairing)
    (draws : ConfirmDraws) :
    Advertisable C H G pairing draws extAddr
        (party.receive C H G s turn data).1.session.myAddr ↔
      extAddr.length ≤ maxMetadataSize := by
  obtain ⟨⟨addr, haddr, -⟩, hall⟩ := adoptable_spec hadopted
  obtain ⟨n, hn⟩ := hC.toEncoded_ne_zero G.n (G.n_ne_zero hC)
  have hn := Spake2.affineXy_of_toEncoded hC hn
  have hbytes : asBytes (textOf extAddr) = extAddr := asBytes_textOf hall
  rw [myAddr_receive hread, if_pos hadopted]
  constructor
  · intro h
    by_contra hlong
    have hlonger : maxMetadataSize < (asBytes (textOf extAddr)).length := by
      rw [hbytes]
      exact Nat.lt_of_not_le hlong
    exact h.fits _ _ (pairing.build_tooLong hn draws hlonger)
  · intro hfits
    have hfits' : (asBytes (textOf extAddr)).length ≤ maxMetadataSize := by rwa [hbytes]
    obtain ⟨payload, hbuilt, hreads⟩ :=
      pairing.exists_payload (G := G) hH hn draws (plainText_textOf hall) hfits'
    refine ⟨fun length max htooLong => ?_, ⟨payload, hbuilt, hreads⟩, addr, haddr,
      peerUdpAddr_textOf hadopted haddr⟩
    cases hbuilt.symm.trans htooLong

def smallPairing : Pairing where
  confirmKey := smallViewA.confirmKey
  encKey := smallViewA.encKey
  myPoint := smallViewA.effectiveMyPoint
  peerPoint := smallViewA.effectivePeerPoint
  myFingerprint := List.replicate 32 1
  peerFingerprint := smallViewA.peerFingerprint
  length_encKey := by decide +kernel
  length_myPoint := by decide +kernel
  length_peerPoint := by decide +kernel
  length_myFingerprint := rfl
  length_peerFingerprint := by decide +kernel
  distinct := by decide +kernel

/-- The relay confirms an address. -/
def smallRegd (extAddr : Bytes) : Bytes := ascii "REGD r OK " ++ extAddr ++ ascii "\n"

/-- My address once the relay has confirmed it. -/
def smallAdopted (extAddr : Bytes) : String :=
  (smallParty.receive Spake2.smallCurve Spake2.smallHashes Spake2.smallGenerators
    (.new smallParty.bound) (smallTurn 0 [] (by decide)) (smallRegd extAddr)).1.session.myAddr

theorem adopted_advertisable_iff_scoped :
    Advertisable Spake2.smallCurve Spake2.smallHashes Spake2.smallGenerators smallPairing smallDraws
      (ascii "[fe80::1%0007]:4000") (smallAdopted (ascii "[fe80::1%0007]:4000")) := by
  have hread : readDatagram smallParty.room (smallRegd (ascii "[fe80::1%0007]:4000")) =
      some (.accepted (ascii "[fe80::1%0007]:4000")) := by
    decide +kernel
  exact (adopted_advertisable_iff Spake2.smallCurve_lawful Spake2.smallHashes_lawful hread
    (by decide +kernel) _ _ smallPairing smallDraws).mpr (by decide)

/-- A scope with many leading zeros. -/
def longAddr : Bytes := ascii "[fe80::1%0000000000000000000000000000000000000007]:4000"

/-- An address of 55 bytes is adopted and cannot be sent. -/
theorem long_address_adopted :
    readDatagram smallParty.room (smallRegd longAddr) = some (.accepted longAddr) ∧
      adoptable longAddr = true ∧
      ¬ Advertisable Spake2.smallCurve Spake2.smallHashes Spake2.smallGenerators smallPairing
        smallDraws longAddr (smallAdopted longAddr) := by
  have hread : readDatagram smallParty.room (smallRegd longAddr) = some (.accepted longAddr) := by
    decide +kernel
  have hadopted : adoptable longAddr = true := by decide +kernel
  have htooLong : smallPairing.build Spake2.smallCurve Spake2.smallHashes Spake2.smallGenerators
      smallDraws (smallAdopted longAddr) = .fail (.addressTooLong 55 52) := by
    decide +kernel
  exact ⟨hread, hadopted, fun h => h.fits 55 52 htooLong⟩

end Qvole.Exchange
