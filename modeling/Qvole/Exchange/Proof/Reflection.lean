import Qvole.Exchange.Proof.Candidates

/-!
# Reflected confirmations

A confirmation names its sender before its receiver. One that this side built names this side as the
sender, so this side accepts it for no candidate: there it would have to name the candidate. HMAC is
taken to be injective on the inputs that this side feeds it.
-/

namespace Qvole.Exchange

open Spake2 (Curve Primitives Generators State)

variable {F S P : Type} [Field F] [DecidableEq F] [Field S] [AddCommGroup P] [DecidableEq P]
  [Module S P] {C : Curve F P} {H : Primitives} {G : Generators C H} {party : Party F S}

/-! ### What is refused at intake -/

theorem processSpakeMsg_not_reflected {body payload myPointM myPointN myFingerprint : Bytes}
    {state : State F S} {view : ProcessedSpake} (hdecoded : hexDecode body = some payload)
    (h : processSpakeMsg C H G body state myPointM myPointN myFingerprint = .ok view) :
    view.peerFingerprint ≠ myFingerprint ∧ payload.take pointLen ≠ myPointM := by
  unfold processSpakeMsg at h
  simp only [hdecoded] at h
  split at h
  · cases h
  · split at h
    · cases h
    · split at h
      · cases h
      · rename_i hfingerprint
        split at h
        · cases h
        · rename_i hpoint
          simp only [Outcome.bind_eq_ok, Outcome.mapErr_eq_ok, pure, Except.pure,
            Except.ok.injEq] at h
          obtain ⟨secret, -, keys, -, rfl⟩ := h
          exact ⟨Ne.symm hfingerprint, Ne.symm hpoint⟩

/-! ### The confirmations of this side -/

/-- The input of the HMAC of a confirmation between this side and a candidate. -/
def queryOf (C : Curve F P) (H : Primitives) (G : Generators C H) (cand : PeerCandidate)
    (nonce sender receiver : Bytes) : Set (Bytes × Bytes) :=
  {q | ∃ n, C.affineXy G.n = .ok n ∧
    q = (cand.confirmKey, Spake2.confirmInput (C.marshalPoint n) cand.effectiveMyPoint cand.point
      nonce sender receiver)}

omit [AddCommGroup P] [DecidableEq P] in
theorem queryOf_subsingleton (cand : PeerCandidate) (nonce sender receiver : Bytes) :
    (queryOf C H G cand nonce sender receiver).Subsingleton := by
  rintro q ⟨n', hn', rfl⟩ q' ⟨n'', hn'', rfl⟩
  obtain rfl := Except.ok.inj (hn'.symm.trans hn'')
  rfl

/-- The inputs that this side fed to HMAC for the confirmations it sent, and those that it feeds to
it to check a confirmation with `nonce` on its candidates. -/
def queriesOf (C : Curve F P) (H : Primitives) (G : Generators C H) (party : Party F S)
    (history : List (Machine.Record Loop Turn Sent)) (loop : Loop) (nonce : Bytes) :
    Set (Bytes × Bytes) :=
  {q | (∃ r ∈ history, ∃ cand, .confirm cand ∈ r.sent ∧
      q ∈ queryOf C H G cand (cand.confirmPayload.take confirmNonceSize) party.myFingerprint
        cand.fingerprint) ∨
    ∃ key cand, loop.session.candidates.lookup key = some cand ∧
      q ∈ queryOf C H G cand nonce cand.fingerprint party.myFingerprint}

theorem TakenUp.lengths (hC : C.Lawful) {r : Machine.Record Loop Turn Sent} {key : Bytes}
    {cand : PeerCandidate} (h : TakenUp C H G party r key cand) :
    cand.effectiveMyPoint.length = pointLen ∧ cand.point.length = pointLen := by
  obtain ⟨hexBody, payload, view, cp, -, haccepts, -, rfl⟩ := h
  obtain ⟨secret, hderived⟩ := derived_of_processSpakeMsg haccepts.processed
  exact ⟨hderived.length_myPoint hC, hderived.length_peerPoint⟩

/-- **Reflected confirmations never authenticate.** Take any payload with the HMAC of a confirmation
that this side sent; the other bytes may be anything. This side accepts it for no candidate in its
table. And no candidate there has this side's fingerprint or M-point. -/
theorem reflection_of_run (hC : C.Lawful) (hH : H.Lawful)
    {history : List (Machine.Record Loop Turn Sent)} {loop : Loop} {now : Nat}
    (hrun : Machine.Run (party.machine C H G) history loop now) :
    (∀ r ∈ history, ∀ mine, .confirm mine ∈ r.sent → ∀ hexBody payload,
      hexDecode hexBody = some payload →
      (payload.take (confirmNonceSize + confirmHmacSize)).drop confirmNonceSize =
        (mine.confirmPayload.take (confirmNonceSize + confirmHmacSize)).drop confirmNonceSize →
      Set.InjOn (fun q => H.hmac q.1 q.2)
        (queriesOf C H G party history loop (payload.take confirmNonceSize)) →
      ∀ key cand, loop.session.candidates.lookup key = some cand →
        ∀ addr, party.checkConfirm C H G cand hexBody ≠ .ok addr) ∧
    ∀ key cand, loop.session.candidates.lookup key = some cand →
      cand.fingerprint ≠ party.myFingerprint ∧
        ∀ payload, hexDecode key = some payload →
          payload.take pointLen ≠ party.state.blindedBytesM C := by
  obtain ⟨htable, hsent⟩ := takenUp_of_run hrun
  constructor
  · intro r hr mine hmine hexBody payload hdecoded hhmac hinj key cand hcand addr haccepted
    obtain ⟨r₀, hr₀, htaken⟩ := htable key cand hcand
    obtain ⟨r₁, hr₁, key₁, htaken₁⟩ := hsent r hr mine hmine
    obtain ⟨hmyPoint, hpeerPoint⟩ := htaken.lengths hC
    obtain ⟨hmyPoint₁, hpeerPoint₁⟩ := htaken₁.lengths hC
    -- the confirmation this side built and the one it would have to have received
    have hbuilt : Spake2.computeConfirm C H G mine.confirmKey mine.effectiveMyPoint mine.point
        (mine.confirmPayload.take confirmNonceSize) party.myFingerprint mine.fingerprint =
          .ok ((mine.confirmPayload.take (confirmNonceSize + confirmHmacSize)).drop
            confirmNonceSize) := by
      obtain ⟨hexBody₁, payload₁, view₁, cp₁, -, haccepts₁, -, rfl⟩ := htaken₁
      exact confirm_of_buildConfirmPayload hH haccepts₁.built
    obtain ⟨-, hsender, hreceiver, hne, n, hn, hexpected⟩ :=
      Spake2.computeConfirm_eq_ok.mp (confirm_of_processConfirmMsg hdecoded haccepted)
    obtain ⟨-, hsender₁, hreceiver₁, -, n₁, hn₁, hcomputed⟩ :=
      Spake2.computeConfirm_eq_ok.mp hbuilt
    obtain rfl := Except.ok.inj (hn.symm.trans hn₁)
    -- the two HMACs agree, so do their inputs, and with them the senders named there
    have hquery := hinj (Or.inr ⟨key, cand, hcand, n, hn, rfl⟩)
      (Or.inl ⟨r, hr, mine, hmine, n, hn, rfl⟩) (hexpected.symm.trans (hhmac.trans hcomputed))
    obtain ⟨-, heq, -⟩ := Spake2.confirmInput_inj hmyPoint hpeerPoint hmyPoint₁ hpeerPoint₁
      (hsender.trans hsender₁.symm) (hreceiver.trans hreceiver₁.symm) (Prod.mk.inj hquery).2
    exact hne heq
  · intro key cand hcand
    obtain ⟨payload, view, cp, hlength, hkey, hprocessed, rfl⟩ :=
      (sound_of_run hrun).spells key cand hcand
    have hdecoded : hexDecode key = some payload := by
      rw [hkey, hexDecode_toHexLower]
    obtain ⟨hfingerprint, hpoint⟩ := processSpakeMsg_not_reflected hdecoded hprocessed
    refine ⟨hfingerprint, fun payload' hdecoded' => ?_⟩
    obtain rfl := Option.some.inj (hdecoded.symm.trans hdecoded')
    exact hpoint

/-! ### On the small curve -/

/-- The small hashes with a checksum for HMAC that depends on the order of the bytes. -/
def orderedHashes : Primitives :=
  { Spake2.smallHashes with
    hmac := fun _ input =>
      Spake2.smallRepr (input.foldl (fun n b => (n * 3 + b.toNat) % 251) 0) }

theorem orderedHashes_lawful : orderedHashes.Lawful where
  length_hkdf := Spake2.smallHashes_lawful.length_hkdf
  length_hmac _ _ := by simp [orderedHashes, Spake2.smallRepr]
  gcmSeal_isSome := Spake2.smallHashes_lawful.gcmSeal_isSome
  length_gcmSeal := Spake2.smallHashes_lawful.length_gcmSeal
  gcmOpen_gcmSeal := Spake2.smallHashes_lawful.gcmOpen_gcmSeal

theorem orderedHashes_m :
    Spake2.hashToCurve Spake2.smallCurve orderedHashes 5 Spake2.mSeed =
      .ok Spake2.smallGenerators.m := by
  decide +kernel

theorem orderedHashes_n :
    Spake2.hashToCurve Spake2.smallCurve orderedHashes 5 Spake2.nSeed =
      .ok Spake2.smallGenerators.n := by
  decide +kernel

def orderedGenerators : Generators Spake2.smallCurve orderedHashes where
  m := Spake2.smallGenerators.m
  n := Spake2.smallGenerators.n
  fuel := 5
  m_eq := orderedHashes_m
  n_eq := orderedHashes_n

def orderedMachine : Machine Loop Turn Sent :=
  smallParty.machine Spake2.smallCurve orderedHashes orderedGenerators

def orderedLoop : Loop := orderedMachine.exec orderedMachine.init [smallSpake2Turn 0]

theorem orderedLoop_run : Machine.Run
    (smallParty.machine Spake2.smallCurve orderedHashes orderedGenerators)
    [orderedMachine.record orderedMachine.init (smallSpake2Turn 0)] orderedLoop 0 :=
  Machine.Run.snoc (smallSpake2Turn 0) Machine.Run.nil (Nat.zero_le _)

def orderedView : ProcessedSpake :=
  (smallParty.process Spake2.smallCurve orderedHashes orderedGenerators
    (toHexLower smallPeerPayload)).get (by decide +kernel)

/-- The candidate of the run, with the confirmation sent to it. -/
def orderedCand : PeerCandidate :=
  .new orderedView ((smallParty.buildConfirm Spake2.smallCurve orderedHashes orderedGenerators
    smallDraws orderedView "192.168.0.2:4000").get (by decide +kernel))

theorem reflection_of_run_mirror :
    smallParty.checkConfirm Spake2.smallCurve orderedHashes orderedGenerators orderedCand
      (toHexLower orderedCand.confirmPayload) ≠ .ok "192.168.0.2:4000" := by
  have hsent : (orderedMachine.record orderedMachine.init (smallSpake2Turn 0)).sent =
      [.reg [], .confirm orderedCand] := by
    decide +kernel
  have htable : orderedLoop.session.candidates.entries =
      [⟨toHexLower smallPeerPayload, orderedCand⟩] := by
    decide +kernel
  have hn : Spake2.smallCurve.affineXy orderedGenerators.n = .ok (1, 2) := by decide +kernel
  have hcand : orderedLoop.session.candidates.lookup (toHexLower smallPeerPayload) =
      some orderedCand :=
    AList.lookup_eq_some_iff.mpr (htable ▸ List.mem_cons_self)
  refine (reflection_of_run Spake2.smallCurve_lawful orderedHashes_lawful orderedLoop_run).1 _
    List.mem_cons_self orderedCand (by rw [hsent]; simp) _ _ (hexDecode_toHexLower _) rfl ?_ _ _
    hcand _
  -- two inputs only: the one of the confirmation sent and the one of its check
  have hqueries : ∀ q ∈ queriesOf Spake2.smallCurve orderedHashes orderedGenerators smallParty
      [orderedMachine.record orderedMachine.init (smallSpake2Turn 0)] orderedLoop
      (orderedCand.confirmPayload.take confirmNonceSize),
      q ∈ queryOf Spake2.smallCurve orderedHashes orderedGenerators orderedCand
        (orderedCand.confirmPayload.take confirmNonceSize) smallParty.myFingerprint
        orderedCand.fingerprint ∨
      q ∈ queryOf Spake2.smallCurve orderedHashes orderedGenerators orderedCand
        (orderedCand.confirmPayload.take confirmNonceSize) orderedCand.fingerprint
        smallParty.myFingerprint := by
    rintro q (⟨r, hr, cand, hmem, hq⟩ | ⟨key, cand, hlookup, hq⟩)
    · rw [List.mem_singleton.mp hr, hsent] at hmem
      obtain rfl : cand = orderedCand := by simpa using hmem
      exact Or.inl hq
    · rw [AList.lookup_eq_some_iff, htable] at hlookup
      cases List.mem_singleton.mp hlookup
      exact Or.inr hq
  have hdistinct : ∀ q q', q ∈ queryOf Spake2.smallCurve orderedHashes orderedGenerators orderedCand
        (orderedCand.confirmPayload.take confirmNonceSize) smallParty.myFingerprint
        orderedCand.fingerprint →
      q' ∈ queryOf Spake2.smallCurve orderedHashes orderedGenerators orderedCand
        (orderedCand.confirmPayload.take confirmNonceSize) orderedCand.fingerprint
        smallParty.myFingerprint →
      orderedHashes.hmac q.1 q.2 ≠ orderedHashes.hmac q'.1 q'.2 := by
    rintro q q' ⟨n, hn', rfl⟩ ⟨n', hn'', rfl⟩
    rw [hn] at hn' hn''
    cases hn'
    cases hn''
    decide +kernel
  intro q hq q' hq' heq
  rcases hqueries q hq with hq | hq <;> rcases hqueries q' hq' with hq' | hq'
  · exact queryOf_subsingleton _ _ _ _ hq hq'
  · exact absurd heq (hdistinct q q' hq hq')
  · exact absurd heq.symm (hdistinct q' q hq' hq)
  · exact queryOf_subsingleton _ _ _ _ hq hq'

end Qvole.Exchange
