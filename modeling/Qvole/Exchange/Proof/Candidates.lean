import Qvole.Exchange.Proof.Turns
import Qvole.Exchange.Proof.Binding

/-!
# The candidate table

Whatever the relay sends, the table of candidates and the map of sending times have the same keys,
neither grows beyond its bound, and a candidate is what its key says: the view that this side
derives from the payload the key spells.
-/

namespace Qvole.Exchange

open Spake2 (Curve Primitives Generators State)

/-! ### The table under its operations -/

namespace Session

variable {s : Session} {turn : Turn}

theorem minByKey_mem {value : CandidateEntry → Option Instant} {entries : List CandidateEntry}
    {e : CandidateEntry} (h : minByKey value entries = some e) : e ∈ entries := by
  have hfold : ∀ (rest : List CandidateEntry) (first : CandidateEntry),
      rest.foldl (fun least e => if earlier (value e) (value least) then e else least) first ∈
        first :: rest := by
    intro rest
    induction rest with
    | nil => intro first; simp
    | cons d rest ih =>
        intro first
        rw [List.foldl_cons]
        rcases List.mem_cons.mp (ih (if earlier (value d) (value first) then d else first)) with
          heq | hmem
        · rw [heq]
          split
          · exact List.mem_cons_of_mem _ List.mem_cons_self
          · exact List.mem_cons_self
        · exact List.mem_cons_of_mem _ (List.mem_cons_of_mem _ hmem)
  cases entries with
  | nil => cases h
  | cons first rest =>
      obtain rfl := Option.some.inj h
      exact hfold rest first

/-- The candidate given up when the table is full is one of the table. -/
theorem makeRoom_cases (s : Session) (turn : Turn) :
    (s.makeRoom turn = s ∧ s.candidates.size < maxCandidates) ∨
      ∃ key ∈ s.candidates, s.makeRoom turn =
        { s with
          candidates := s.candidates.erase key
          confirmLastSent := s.confirmLastSent.erase key } := by
  unfold makeRoom
  by_cases hfull : s.candidates.size ≥ maxCandidates
  · rw [if_pos hfull]
    right
    split
    · rename_i e he
      exact ⟨e.1, AList.mem_of_lookup (lookup_of_mem_arrange (minByKey_mem he)), rfl⟩
    · rename_i hnone
      have hempty : turn.arrange s.candidates.entries = [] := by
        cases hentries : turn.arrange s.candidates.entries with
        | nil => rfl
        | cons e rest =>
            rw [hentries] at hnone
            cases hnone
      have hlength := (turn.arrange_perm s.candidates.entries).length_eq
      rw [hempty] at hlength
      have hsize : s.candidates.size = 0 := by
        simpa [AList.size, AList.keys, List.keys] using hlength.symm
      rw [hsize] at hfull
      exact absurd hfull (by decide)
  · rw [if_neg hfull]
    exact Or.inl ⟨rfl, Nat.lt_of_not_le hfull⟩

/-- The keys of the two maps are the same. -/
def SameKeys (s : Session) : Prop := ∀ key, key ∈ s.confirmLastSent ↔ key ∈ s.candidates

theorem SameKeys.makeRoom (h : s.SameKeys) (turn : Turn) : (s.makeRoom turn).SameKeys := by
  rcases s.makeRoom_cases turn with ⟨hsame, -⟩ | ⟨key, -, hroom⟩
  · rwa [hsame]
  · intro key'
    rw [hroom, AList.mem_erase, AList.mem_erase, h key']

theorem SameKeys.insertCandidate (h : s.SameKeys) (key : Bytes) (cand : PeerCandidate)
    (now : Instant) : (s.insertCandidate key cand now).SameKeys := by
  intro key'
  rw [Session.insertCandidate, AList.mem_insert, AList.mem_insert, h key']

theorem size_makeRoom (hsize : s.candidates.size ≤ maxCandidates) (turn : Turn) :
    (s.makeRoom turn).candidates.size < maxCandidates := by
  rcases s.makeRoom_cases turn with ⟨hsame, hlt⟩ | ⟨key, hkey, hroom⟩
  · rwa [hsame]
  · have herase := AList.size_erase s.candidates key
    rw [if_pos hkey] at herase
    rw [hroom]
    change (s.candidates.erase key).size < maxCandidates
    omega

theorem lookup_makeRoom {key : Bytes} {cand : PeerCandidate}
    (h : (s.makeRoom turn).candidates.lookup key = some cand) :
    s.candidates.lookup key = some cand := by
  rcases s.makeRoom_cases turn with ⟨hsame, -⟩ | ⟨key', -, hroom⟩
  · rwa [hsame] at h
  · rw [hroom, AList.lookup_erase_ite] at h
    split at h
    · cases h
    · exact h

theorem myAddr_makeRoom (s : Session) (turn : Turn) : (s.makeRoom turn).myAddr = s.myAddr := by
  rcases s.makeRoom_cases turn with ⟨hsame, -⟩ | ⟨key, -, hroom⟩
  · rw [hsame]
  · rw [hroom]

theorem bufferedConfirms_makeRoom (s : Session) (turn : Turn) :
    (s.makeRoom turn).bufferedConfirms = s.bufferedConfirms := by
  rcases s.makeRoom_cases turn with ⟨hsame, -⟩ | ⟨key, -, hroom⟩
  · rw [hsame]
  · rw [hroom]

end Session

section Party

variable {F S P : Type} [Field F] [DecidableEq F] [Field S] [AddCommGroup P] [DecidableEq P]
  [Module S P] {C : Curve F P} {H : Primitives} {G : Generators C H} {party : Party F S}

/-! ### What a key spells -/

/-- Only the payload proper counts: neither the bytes after it nor the spelling of its hex. -/
theorem process_payloadKey {hexBody payload : Bytes} (hdecoded : hexDecode hexBody = some payload)
    (hlong : spake2PayloadLen ≤ payload.length) :
    party.process C H G (payloadKey payload) = party.process C H G hexBody := by
  have hM : (payload.take spake2PayloadLen).take pointLen = payload.take pointLen := by
    rw [List.take_take, Nat.min_eq_left (by decide)]
  have hN : (payload.take spake2PayloadLen).take (pointLen * 2) = payload.take (pointLen * 2) := by
    rw [List.take_take, Nat.min_eq_left (by decide)]
  have hall : (payload.take spake2PayloadLen).take spake2PayloadLen =
      payload.take spake2PayloadLen := by
    rw [List.take_take, Nat.min_self]
  have hlength : (payload.take spake2PayloadLen).length = spake2PayloadLen :=
    List.length_take_of_le hlong
  unfold Party.process processSpakeMsg payloadKey
  simp only [hexDecode_toHexLower, hdecoded, hlength, hM, hN, hall, lt_irrefl, if_false,
    if_neg (Nat.not_lt_of_le hlong)]

/-! ### The invariant -/

/-- The candidate is the view that this side derives from the payload spelled by the key. -/
def Spells (C : Curve F P) (H : Primitives) (G : Generators C H) (party : Party F S) (key : Bytes)
    (cand : PeerCandidate) : Prop :=
  ∃ payload view cp, payload.length = spake2PayloadLen ∧ key = toHexLower payload ∧
    party.process C H G key = .ok view ∧ cand = .new view cp

structure Session.Sound (C : Curve F P) (H : Primitives) (G : Generators C H) (party : Party F S)
    (s : Session) : Prop where
  candidates_le : s.candidates.size ≤ maxCandidates
  sameKeys : s.SameKeys
  buffered_le : s.bufferedConfirms.length ≤ maxBufferedConfirms
  spells : ∀ key cand, s.candidates.lookup key = some cand → Spells C H G party key cand

theorem Acceptable.spells {draws : ConfirmDraws} {myAddr : String} {hexBody payload cp : Bytes}
    {view : ProcessedSpake} (h : Acceptable C H G party draws myAddr hexBody payload view cp) :
    Spells C H G party (payloadKey payload) (.new view cp) := by
  refine ⟨payload.take spake2PayloadLen, view, cp, List.length_take_of_le h.long, rfl, ?_, rfl⟩
  rw [process_payloadKey h.decoded h.long]
  exact h.processed

theorem sound_new (bound : SocketAddr) : (Session.new bound).Sound C H G party := by
  refine ⟨Nat.zero_le _, fun key => ?_, Nat.zero_le _, fun key cand h => ?_⟩
  · simp [Session.new]
  · simp [Session.new] at h

theorem Session.Sound.quiet {s s' : Session} {sent : List Sent} (h : s.Sound C H G party)
    (hquiet : Quiet s s' sent) : s'.Sound C H G party := by
  refine ⟨hquiet.candidates ▸ h.candidates_le, fun key => ?_,
    hquiet.bufferedConfirms ▸ h.buffered_le, fun key cand hcand => ?_⟩
  · rw [hquiet.candidates, ← h.sameKeys key]
    constructor
    · intro hstamped
      rcases hquiet.stamped key hstamped with hold | hcand
      · exact hold
      · exact (h.sameKeys key).mpr hcand
    · exact hquiet.kept key
  · exact h.spells key cand (hquiet.candidates ▸ hcand)

theorem Session.Sound.insertCandidate {s : Session} (h : s.Sound C H G party) (turn : Turn)
    {key : Bytes} {cand : PeerCandidate} (hcand : Spells C H G party key cand) (now : Instant) :
    ((s.makeRoom turn).insertCandidate key cand now).Sound C H G party := by
  have hsize := Session.size_makeRoom h.candidates_le turn
  refine ⟨?_, (h.sameKeys.makeRoom turn).insertCandidate key cand now, ?_, ?_⟩
  · rw [Session.insertCandidate, AList.size_insert]
    split <;> omega
  · rw [Session.insertCandidate, s.bufferedConfirms_makeRoom]
    exact h.buffered_le
  · intro key' cand' hlookup
    rw [Session.insertCandidate, AList.lookup_insert_ite] at hlookup
    split at hlookup
    · rename_i heq
      cases hlookup
      rw [heq]
      exact hcand
    · exact h.spells key' cand' (Session.lookup_makeRoom hlookup)

theorem Session.Sound.buffer {s : Session} (h : s.Sound C H G party) (hexBody : Bytes) :
    (s.buffer hexBody).Sound C H G party := by
  unfold Session.buffer
  split
  · rename_i hroom
    refine ⟨h.candidates_le, h.sameKeys, ?_, h.spells⟩
    rw [List.length_append, List.length_singleton]
    exact hroom
  · exact h

omit [Field S] [AddCommGroup P] [DecidableEq P] [Module S P] in
theorem CandidateStep.session {s : Session} {cand : PeerCandidate} {loop : Loop}
    (h : CandidateStep C H G party s cand loop) : loop.session = s := by
  cases h <;> rfl

omit [Field S] [AddCommGroup P] [DecidableEq P] [Module S P] in
theorem ConfirmStep.candidates {s : Session} {hexBody : Bytes} {loop : Loop}
    (h : ConfirmStep C H G party s hexBody loop) : loop.session.candidates = s.candidates := by
  cases h with
  | buffered _ =>
      unfold Session.buffer
      split <;> rfl
  | authenticated => rfl
  | crashed => rfl

omit [Field S] [AddCommGroup P] [DecidableEq P] [Module S P] in
theorem ConfirmStep.myAddr {s : Session} {hexBody : Bytes} {loop : Loop}
    (h : ConfirmStep C H G party s hexBody loop) : loop.session.myAddr = s.myAddr := by
  cases h with
  | buffered _ =>
      unfold Session.buffer
      split <;> rfl
  | authenticated => rfl
  | crashed => rfl

theorem TurnStep.sound {s : Session} {turn : Turn} {loop : Loop} {sent : List Sent}
    (hs : s.Sound C H G party) (h : TurnStep C H G party s turn loop sent) :
    loop.session.Sound C H G party := by
  cases h with
  | idle s' result sent hquiet _ => exact hs.quiet hquiet
  | adopted s' sent extAddr hquiet _ =>
      have hs' := hs.quiet hquiet
      exact ⟨hs'.candidates_le, hs'.sameKeys, hs'.buffered_le, hs'.spells⟩
  | added s' sent hexBody payload view cp loop hquiet _ haccepts _ hcand =>
      rw [hcand.session]
      exact (hs.quiet hquiet).insertCandidate turn haccepts.spells _
  | confirmed s' sent hexBody loop hquiet _ hconfirm =>
      cases hconfirm with
      | buffered _ => exact (hs.quiet hquiet).buffer hexBody
      | authenticated => exact hs.quiet hquiet
      | crashed => exact hs.quiet hquiet

/-! ### Runs -/

/-- The rule for invariants of the session. -/
theorem session_inv {I : Session → Prop} (hinit : I (.new party.bound))
    (hstep : ∀ {s turn loop sent}, TurnStep C H G party s turn loop sent → I s → I loop.session)
    {history : List (Machine.Record Loop Turn Sent)} {loop : Loop} {now : Nat}
    (hrun : Machine.Run (party.machine C H G) history loop now) : I loop.session := by
  refine hrun.stateInv (I := fun loop => I loop.session) hinit ?_
  intro loop turn hI
  rcases machine_step (C := C) (H := H) (G := G) party loop turn with ⟨hend, -⟩ | ⟨hturn, -⟩
  · rwa [hend]
  · exact hstep hturn hI

theorem sound_of_run {history : List (Machine.Record Loop Turn Sent)} {loop : Loop} {now : Nat}
    (hrun : Machine.Run (party.machine C H G) history loop now) :
    loop.session.Sound C H G party :=
  session_inv (sound_new _) (fun h hs => h.sound hs) hrun

theorem TurnStep.candidates_of_known {s : Session} {turn : Turn} {loop : Loop} {sent : List Sent}
    (h : TurnStep C H G party s turn loop sent) {hexBody payload : Bytes}
    (hhears : turn.Hears party.room (.spake2 hexBody)) (hdecoded : hexDecode hexBody = some payload)
    (hknown : payloadKey payload ∈ s.candidates) : loop.session.candidates = s.candidates := by
  cases h with
  | idle s' result sent hquiet _ => exact hquiet.candidates
  | adopted s' sent extAddr hquiet _ => exact hquiet.candidates
  | added s' sent hexBody' payload' view cp loop hquiet hhears' haccepts hnew _ =>
      cases hhears.unique hhears'
      obtain rfl := Option.some.inj (hdecoded.symm.trans haccepts.decoded)
      exact absurd hknown hnew
  | confirmed s' sent hexBody' loop hquiet hhears' _ => cases hhears.unique hhears'

/-- **The candidate table.** After any number of turns the table has at most its bound of entries,
the sending times have the same keys, the buffer is within its bound, and every entry is the view
derived from the payload that its key spells in lowercase. A payload that is in the table is not
entered again, whatever follows it in its message and however its hex is written. -/
theorem candidates_of_run {history : List (Machine.Record Loop Turn Sent)} {loop : Loop} {now : Nat}
    (hrun : Machine.Run (party.machine C H G) history loop now) :
    loop.session.Sound C H G party ∧
      ∀ turn hexBody payload, turn.Hears party.room (.spake2 hexBody) →
        hexDecode hexBody = some payload → payloadKey payload ∈ loop.session.candidates →
          ((party.machine C H G).step loop turn).1.session.candidates =
            loop.session.candidates := by
  refine ⟨sound_of_run hrun, fun turn hexBody payload hhears hdecoded hknown => ?_⟩
  rcases machine_step (C := C) (H := H) (G := G) party loop turn with ⟨hend, -⟩ | ⟨hturn, -⟩
  · rw [hend]
  · exact hturn.candidates_of_known hhears hdecoded hknown

/-! ### Where candidates come from -/

/-- The candidate was taken up in the turn that `r` records, with the address of that moment. -/
def TakenUp (C : Curve F P) (H : Primitives) (G : Generators C H) (party : Party F S)
    (r : Machine.Record Loop Turn Sent) (key : Bytes) (cand : PeerCandidate) : Prop :=
  ∃ hexBody payload view cp, r.event.Hears party.room (.spake2 hexBody) ∧
    Acceptable C H G party r.event.draws r.before.session.myAddr hexBody payload view cp ∧
    key = payloadKey payload ∧ cand = .new view cp

theorem TurnStep.lookup {s : Session} {turn : Turn} {loop : Loop} {sent : List Sent}
    (h : TurnStep C H G party s turn loop sent) {key : Bytes} {cand : PeerCandidate}
    (hcand : loop.session.candidates.lookup key = some cand) :
    s.candidates.lookup key = some cand ∨
      ∃ hexBody payload view cp, turn.Hears party.room (.spake2 hexBody) ∧
        Acceptable C H G party turn.draws s.myAddr hexBody payload view cp ∧
        key = payloadKey payload ∧ cand = .new view cp := by
  cases h with
  | idle s' result sent hquiet _ => exact Or.inl (hquiet.candidates ▸ hcand)
  | adopted s' sent extAddr hquiet _ => exact Or.inl (hquiet.candidates ▸ hcand)
  | added s' sent hexBody payload view cp loop hquiet hhears haccepts _ hstep =>
      rw [hstep.session, Session.insertCandidate, AList.lookup_insert_ite] at hcand
      split at hcand
      · rename_i heq
        cases hcand
        exact Or.inr ⟨hexBody, payload, view, cp, hhears, haccepts, heq, rfl⟩
      · exact Or.inl (hquiet.candidates ▸ Session.lookup_makeRoom hcand)
  | confirmed s' sent hexBody loop hquiet _ hconfirm =>
      rw [hconfirm.candidates, hquiet.candidates] at hcand
      exact Or.inl hcand

theorem TurnStep.sent {s : Session} {turn : Turn} {loop : Loop} {sent : List Sent}
    (h : TurnStep C H G party s turn loop sent) {cand : PeerCandidate}
    (hcand : .confirm cand ∈ sent) :
    (∃ key, s.candidates.lookup key = some cand) ∨
      ∃ hexBody payload view cp, turn.Hears party.room (.spake2 hexBody) ∧
        Acceptable C H G party turn.draws s.myAddr hexBody payload view cp ∧
        cand = .new view cp := by
  cases h with
  | idle s' result sent hquiet _ => exact Or.inl (hquiet.confirms cand hcand)
  | adopted s' sent extAddr hquiet _ => exact Or.inl (hquiet.confirms cand hcand)
  | added s' sent hexBody payload view cp loop hquiet hhears haccepts _ _ =>
      rcases List.mem_append.mp hcand with hold | hnew
      · exact Or.inl (hquiet.confirms cand hold)
      · cases List.mem_singleton.mp hnew
        exact Or.inr ⟨hexBody, payload, view, cp, hhears, haccepts, rfl⟩
  | confirmed s' sent hexBody loop hquiet _ _ => exact Or.inl (hquiet.confirms cand hcand)

theorem TurnStep.myAddr {s : Session} {turn : Turn} {loop : Loop} {sent : List Sent}
    (h : TurnStep C H G party s turn loop sent) :
    loop.session.myAddr = s.myAddr ∨
      ∃ extAddr, turn.Hears party.room (.accepted extAddr) ∧ adoptable extAddr = true ∧
        loop.session.myAddr = textOf extAddr := by
  cases h with
  | idle s' result sent hquiet _ => exact Or.inl hquiet.myAddr
  | adopted s' sent extAddr hquiet hhears =>
      simp only [Session.adopt]
      split
      · rename_i hadoptable
        exact Or.inr ⟨extAddr, hhears, hadoptable, rfl⟩
      · exact Or.inl hquiet.myAddr
  | added s' sent hexBody payload view cp loop hquiet _ _ _ hstep =>
      rw [hstep.session, Session.insertCandidate, Session.myAddr_makeRoom]
      exact Or.inl hquiet.myAddr
  | confirmed s' sent hexBody loop hquiet _ hconfirm =>
      rw [hconfirm.myAddr]
      exact Or.inl hquiet.myAddr

/-- Every candidate in the table, and every one whose confirmation was sent, was taken up in some
turn of the run. -/
theorem takenUp_of_run {history : List (Machine.Record Loop Turn Sent)} {loop : Loop} {now : Nat}
    (hrun : Machine.Run (party.machine C H G) history loop now) :
    (∀ key cand, loop.session.candidates.lookup key = some cand →
      ∃ r ∈ history, TakenUp C H G party r key cand) ∧
    ∀ r ∈ history, ∀ cand, .confirm cand ∈ r.sent →
      ∃ r' ∈ history, ∃ key, TakenUp C H G party r' key cand := by
  refine hrun.inv (G := fun _ _ => True) (I := fun history loop _ =>
    (∀ key cand, loop.session.candidates.lookup key = some cand →
      ∃ r ∈ history, TakenUp C H G party r key cand) ∧
    ∀ r ∈ history, ∀ cand, .confirm cand ∈ r.sent →
      ∃ r' ∈ history, ∃ key, TakenUp C H G party r' key cand) ?_ ?_ fun _ _ => trivial
  · refine ⟨fun key cand h => ?_, by simp⟩
    simp [Party.machine, Session.new] at h
  · intro history loop now turn _ _ _ hI
    obtain ⟨htable, hsent⟩ := hI
    let r := (party.machine C H G).record loop turn
    have hold : ∀ {key cand}, (∃ r ∈ history, TakenUp C H G party r key cand) →
        ∃ r' ∈ history ++ [r], TakenUp C H G party r' key cand := by
      rintro key cand ⟨r', hr', htaken⟩
      exact ⟨r', List.mem_append_left _ hr', htaken⟩
    have hlast : r ∈ history ++ [r] := List.mem_append_right _ List.mem_cons_self
    rcases machine_step (C := C) (H := H) (G := G) party loop turn with ⟨hend, -⟩ | ⟨hturn, -⟩
    · refine ⟨fun key cand hcand => ?_, fun r' hr' cand hcand => ?_⟩
      · rw [hend] at hcand
        exact hold (htable key cand hcand)
      · rcases List.mem_append.mp hr' with hr' | hr'
        · obtain ⟨r'', hr'', key, htaken⟩ := hsent r' hr' cand hcand
          exact ⟨r'', List.mem_append_left _ hr'', key, htaken⟩
        · rw [List.mem_singleton.mp hr', Machine.record, hend] at hcand
          cases hcand
    · refine ⟨fun key cand hcand => ?_, fun r' hr' cand hcand => ?_⟩
      · rcases hturn.lookup hcand with hbefore | hnew
        · exact hold (htable key cand hbefore)
        · exact ⟨r, hlast, hnew⟩
      · rcases List.mem_append.mp hr' with hr' | hr'
        · obtain ⟨r'', hr'', key, htaken⟩ := hsent r' hr' cand hcand
          exact ⟨r'', List.mem_append_left _ hr'', key, htaken⟩
        · rw [List.mem_singleton.mp hr'] at hcand
          rcases hturn.sent hcand with ⟨key, hbefore⟩ | hnew
          · obtain ⟨r'', hr'', htaken⟩ := hold (htable key cand hbefore)
            exact ⟨r'', hr'', key, htaken⟩
          · obtain ⟨hexBody, payload, view, cp, hhears, haccepts, heq⟩ := hnew
            exact ⟨r, hlast, payloadKey payload, hexBody, payload, view, cp, hhears, haccepts,
              rfl, heq⟩

end Party

/-! ### On the small curve -/

def smallParty : Party (ZMod 5) (ZMod 7) where
  room := ascii "r"
  state := Spake2.smallStateA
  myFingerprint := List.replicate 32 1
  bound := .v4 ⟨192, 168, 0, 2⟩ 4000
  deadline := fromMillis 90000
  regInterval := fromMillis 30000
  spake2Resend := fromMillis 2000
  confirmResend := fromMillis 2000

def smallMachine : Machine Loop Turn Sent :=
  smallParty.machine Spake2.smallCurve Spake2.smallHashes Spake2.smallGenerators

def smallTurn (now : Instant) (data : Bytes) (fits : data.length ≤ readBufferSize) : Turn where
  cancelled := false
  clock := .same now
  arrange := id
  arrange_perm := List.Perm.refl
  inbound := .datagram data fits
  draws := smallDraws

/-- The payload of the other side. -/
def smallPeerPayload : Bytes :=
  spake2Payload Spake2.smallCurve Spake2.smallStateB (List.replicate 32 2)

def smallSpake2Turn (now : Instant) : Turn :=
  smallTurn now (ascii "MSGD spake2 " ++ toHexLower smallPeerPayload ++ ascii "\n")
    (by decide +kernel)

/-- The same payload with a byte behind it, spelled in capitals. -/
def smallRepeatedTurn (now : Instant) : Turn :=
  smallTurn now (ascii "MSGD spake2 " ++ toHexLower smallPeerPayload ++ ascii "FF\n")
    (by decide +kernel)

/-- The loop after the payload has come once. -/
def smallLoop : Loop := smallMachine.exec smallMachine.init [smallSpake2Turn 0]

theorem smallLoop_run : Machine.Run
    (smallParty.machine Spake2.smallCurve Spake2.smallHashes Spake2.smallGenerators)
    (smallMachine.trace smallMachine.init [smallSpake2Turn 0]) smallLoop 0 :=
  smallMachine.run_exec (by decide)

theorem candidates_of_run_repeated :
    smallLoop.session.candidates.size = 1 ∧
      ((smallParty.machine Spake2.smallCurve Spake2.smallHashes Spake2.smallGenerators).step
        smallLoop (smallRepeatedTurn 1)).1.session.candidates = smallLoop.session.candidates := by
  refine ⟨by decide +kernel, ?_⟩
  apply (candidates_of_run smallLoop_run).2 (smallRepeatedTurn 1)
    (toHexLower smallPeerPayload ++ ascii "FF") (smallPeerPayload ++ [255])
  · exact ⟨_, _, ascii "MSGD spake2 " ++ toHexLower smallPeerPayload ++ ascii "FF", rfl,
      by decide +kernel, by decide +kernel⟩
  · decide +kernel
  · decide +kernel

end Qvole.Exchange
