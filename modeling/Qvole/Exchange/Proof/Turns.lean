import Qvole.Exchange.Loop

/-!
# What one turn can do

A turn of the exchange loop leaves the candidates and the buffered confirmations as they are, adopts
an address, takes up one candidate, or handles one confirmation. Every invariant of the loop is
proved by going through these cases.
-/

namespace Qvole.Exchange

open Spake2 (Curve Primitives Generators State)

/-- The turn receives a datagram that means `message`. -/
def Turn.Hears (turn : Turn) (room : Room) (message : Message) : Prop :=
  ∃ data fits line, turn.inbound = .datagram data fits ∧ trimAscii data = some line ∧
    classify room line = some message

theorem Turn.Hears.unique {turn : Turn} {room : Room} {message message' : Message}
    (h : turn.Hears room message) (h' : turn.Hears room message') : message = message' := by
  obtain ⟨data, fits, line, hinbound, hline, hmessage⟩ := h
  obtain ⟨data', fits', line', hinbound', hline', hmessage'⟩ := h'
  rw [hinbound] at hinbound'
  cases hinbound'
  rw [hline] at hline'
  cases hline'
  rw [hmessage] at hmessage'
  exact Option.some.inj hmessage'

/-- The key of a SPAKE2 payload: trailing bytes do not count. -/
def payloadKey (payload : Bytes) : Bytes := toHexLower (payload.take spake2PayloadLen)

/-- The session after the sends of a turn and the count of its datagram: only the times of sending
and the registration have changed, and what was sent again is in the table. -/
structure Quiet (s s' : Session) (sent : List Sent) : Prop where
  candidates : s'.candidates = s.candidates
  bufferedConfirms : s'.bufferedConfirms = s.bufferedConfirms
  myAddr : s'.myAddr = s.myAddr
  stamped : ∀ key, key ∈ s'.confirmLastSent → key ∈ s.confirmLastSent ∨ key ∈ s.candidates
  kept : ∀ key, key ∈ s.confirmLastSent → key ∈ s'.confirmLastSent
  confirms : ∀ cand, .confirm cand ∈ sent → ∃ key, s.candidates.lookup key = some cand

namespace Session

variable {s : Session} {turn : Turn}

theorem quiet_refl (s : Session) : Quiet s s [] :=
  ⟨rfl, rfl, rfl, fun _ h => Or.inl h, fun _ h => h, by simp⟩

theorem sendReg_quiet (s : Session) (regInterval : Duration) (clock : TurnClock) :
    Quiet s (s.sendReg regInterval clock).1 (s.sendReg regInterval clock).2 := by
  unfold sendReg
  split
  · exact ⟨rfl, rfl, rfl, fun _ h => Or.inl h, fun _ h => h, by simp⟩
  · exact s.quiet_refl

theorem sendSpake2_quiet (s : Session) (payload : Bytes) (spake2Resend : Duration)
    (clock : TurnClock) :
    Quiet s (s.sendSpake2 payload spake2Resend clock).1
      (s.sendSpake2 payload spake2Resend clock).2 := by
  unfold sendSpake2
  split
  · exact ⟨rfl, rfl, rfl, fun _ h => Or.inl h, fun _ h => h, by simp⟩
  · exact s.quiet_refl

theorem mem_foldl_insert (entries : List CandidateEntry) (stamp : Bytes → Instant)
    (sent : Table Bytes Instant) (key : Bytes) :
    key ∈ entries.foldl (fun sent e => sent.insert e.1 (stamp e.1)) sent ↔
      key ∈ sent ∨ ∃ e ∈ entries, e.1 = key := by
  induction entries generalizing sent with
  | nil => simp
  | cons e entries ih =>
      rw [List.foldl_cons, ih, AList.mem_insert]
      constructor
      · rintro ((rfl | hsent) | ⟨e', he', rfl⟩)
        · exact Or.inr ⟨e, List.mem_cons_self, rfl⟩
        · exact Or.inl hsent
        · exact Or.inr ⟨e', List.mem_cons_of_mem e he', rfl⟩
      · rintro (hsent | ⟨e', he', rfl⟩)
        · exact Or.inl (Or.inr hsent)
        · rcases List.mem_cons.mp he' with rfl | he'
          · exact Or.inl (Or.inl rfl)
          · exact Or.inr ⟨e', he', rfl⟩

theorem lookup_of_mem_arrange {e : CandidateEntry} (h : e ∈ turn.arrange s.candidates.entries) :
    s.candidates.lookup e.1 = some e.2 :=
  AList.lookup_eq_some_iff.mpr ((turn.arrange_perm _).mem_iff.mp h)

theorem resendConfirms_quiet (s : Session) (confirmResend : Duration) (turn : Turn) :
    Quiet s (s.resendConfirms confirmResend turn).1 (s.resendConfirms confirmResend turn).2 := by
  have hdue : ∀ e ∈ s.resends confirmResend turn, s.candidates.lookup e.1 = some e.2 :=
    fun e he => lookup_of_mem_arrange (List.mem_filter.mp he).1
  refine ⟨rfl, rfl, rfl, fun key hkey => ?_, fun key hkey => ?_, fun cand hcand => ?_⟩
  · rcases (mem_foldl_insert _ _ _ _).mp hkey with hold | ⟨e, he, rfl⟩
    · exact Or.inl hold
    · exact Or.inr (AList.mem_of_lookup (hdue e he))
  · exact (mem_foldl_insert _ _ _ _).mpr (Or.inl hkey)
  · obtain ⟨e, he, heq⟩ := List.mem_map.mp hcand
    cases heq
    exact ⟨e.1, hdue e he⟩

theorem meter_quiet (s : Session) (line : Bytes) (now : Instant) :
    Quiet s (s.meter line now).1 [] := by
  unfold meter
  split
  · simp only
    split <;> exact ⟨rfl, rfl, rfl, fun _ h => Or.inl h, fun _ h => h, by simp⟩
  · exact s.quiet_refl

end Session

theorem Quiet.trans {s s' s'' : Session} {sent sent' : List Sent} (h : Quiet s s' sent)
    (h' : Quiet s' s'' sent') : Quiet s s'' (sent ++ sent') := by
  refine ⟨h'.candidates.trans h.candidates, h'.bufferedConfirms.trans h.bufferedConfirms,
    h'.myAddr.trans h.myAddr, fun key hkey => ?_, fun key hkey => h'.kept key (h.kept key hkey),
    fun cand hcand => ?_⟩
  · rcases h'.stamped key hkey with hold | hcand
    · exact h.stamped key hold
    · exact Or.inr (h.candidates ▸ hcand)
  · rcases List.mem_append.mp hcand with hfirst | hsecond
    · exact h.confirms cand hfirst
    · obtain ⟨key, hkey⟩ := h'.confirms cand hsecond
      exact ⟨key, h.candidates ▸ hkey⟩

section Party

variable {F S P : Type} [Field F] [DecidableEq F] [Field S] [AddCommGroup P] [DecidableEq P]
  [Module S P] {C : Curve F P} {H : Primitives} {G : Generators C H} {party : Party F S}
  {s : Session} {turn : Turn} {hexBody : Bytes}

/-! ### One SPAKE2 message -/

/-- The payload is one that this turn takes up, unless it is known. -/
structure Acceptable (C : Curve F P) (H : Primitives) (G : Generators C H) (party : Party F S)
    (draws : ConfirmDraws) (myAddr : String) (hexBody payload : Bytes) (view : ProcessedSpake)
    (cp : Bytes) : Prop where
  decoded : hexDecode hexBody = some payload
  long : spake2PayloadLen ≤ payload.length
  processed : party.process C H G hexBody = .ok view
  built : party.buildConfirm C H G draws view myAddr = .ok cp

/-- The cases of a SPAKE2 message. -/
inductive Spake2Step (C : Curve F P) (H : Primitives) (G : Generators C H) (party : Party F S)
    (s : Session) (turn : Turn) (hexBody : Bytes) : Loop × List Sent → Prop
  | known (payload : Bytes) : hexDecode hexBody = some payload →
      payloadKey payload ∈ s.candidates →
      Spake2Step C H G party s turn hexBody (⟨s, none⟩, [])
  | refused : (∀ payload view cp,
        ¬ Acceptable C H G party turn.draws s.myAddr hexBody payload view cp) →
      Spake2Step C H G party s turn hexBody (⟨s, none⟩, [])
  | crashed (fault : Fault ExchangeError) : (∀ error, fault ≠ .failed error) →
      (party.process C H G hexBody = .error fault ∨
        ∃ view, party.buildConfirm C H G turn.draws view s.myAddr = .error fault) →
      Spake2Step C H G party s turn hexBody (⟨s, some (.error fault)⟩, [])
  | added (payload : Bytes) (view : ProcessedSpake) (cp : Bytes) :
      Acceptable C H G party turn.draws s.myAddr hexBody payload view cp →
      payloadKey payload ∉ s.candidates →
      Spake2Step C H G party s turn hexBody
        (party.onCandidate C H G
          ((s.makeRoom turn).insertCandidate (payloadKey payload) (.new view cp)
            turn.clock.confirmSent) (.new view cp), [.confirm (.new view cp)])

theorem onSpake2_step :
    Spake2Step C H G party s turn hexBody (party.onSpake2 C H G s turn hexBody) := by
  unfold Party.onSpake2
  cases hdecoded : hexDecode hexBody with
  | none =>
      refine .refused fun payload view cp h => ?_
      cases hdecoded.symm.trans h.decoded
  | some payload =>
      simp only
      split
      · rename_i hshort
        refine .refused fun payload' view cp h => ?_
        obtain rfl := Option.some.inj (hdecoded.symm.trans h.decoded)
        exact absurd h.long (Nat.not_le_of_lt hshort)
      · rename_i hlong
        split
        · rename_i hknown
          exact .known payload hdecoded hknown
        · rename_i hnew
          cases hview : party.process C H G hexBody with
          | error fault =>
              cases fault with
              | failed error =>
                  refine .refused fun payload' view cp h => ?_
                  cases hview.symm.trans h.processed
              | panicked => exact .crashed .panicked (by simp) (Or.inl hview)
              | unfinished => exact .crashed .unfinished (by simp) (Or.inl hview)
          | ok view =>
              simp only
              cases hcp : party.buildConfirm C H G turn.draws view s.myAddr with
              | error fault =>
                  cases fault with
                  | failed error =>
                      refine .refused fun payload' view' cp h => ?_
                      obtain rfl := Except.ok.inj (hview.symm.trans h.processed)
                      cases hcp.symm.trans h.built
                  | panicked => exact .crashed .panicked (by simp) (Or.inr ⟨view, hcp⟩)
                  | unfinished => exact .crashed .unfinished (by simp) (Or.inr ⟨view, hcp⟩)
              | ok cp =>
                  exact .added payload view cp
                    ⟨hdecoded, Nat.le_of_not_lt hlong, hview, hcp⟩ hnew

/-- The cases of trying the buffered confirmations on a candidate. -/
inductive CandidateStep (C : Curve F P) (H : Primitives) (G : Generators C H) (party : Party F S)
    (s : Session) (cand : PeerCandidate) : Loop → Prop
  | none : (∀ hexBody ∈ s.bufferedConfirms,
        ∃ error, party.checkConfirm C H G cand hexBody = .fail error) →
      CandidateStep C H G party s cand ⟨s, none⟩
  | authenticated (hexBody : Bytes) (addr : String) : hexBody ∈ s.bufferedConfirms →
      party.checkConfirm C H G cand hexBody = .ok addr →
      CandidateStep C H G party s cand ⟨s, some (.ok (addr, cand.fingerprint, cand.isServer))⟩
  | crashed (fault : Fault ExchangeError) : (∀ error, fault ≠ .failed error) →
      CandidateStep C H G party s cand ⟨s, some (.error fault)⟩

omit [Field S] [AddCommGroup P] [DecidableEq P] [Module S P] in
theorem onCandidate_step (cand : PeerCandidate) :
    CandidateStep C H G party s cand (party.onCandidate C H G s cand) := by
  unfold Party.onCandidate
  rcases hfirst : Outcome.firstOk (party.checkConfirm C H G cand) s.bufferedConfirms with
    fault | found
  · refine .crashed fault fun error hfault => ?_
    rw [hfault] at hfirst
    exact Outcome.firstOk_ne_failed hfirst
  · rcases found with _ | ⟨hexBody, addr⟩
    · exact .none (Outcome.firstOk_eq_none_iff.mp hfirst)
    · obtain ⟨hmem, haddr⟩ := Outcome.firstOk_eq_some hfirst
      exact .authenticated hexBody addr hmem haddr

/-! ### One confirmation -/

inductive ConfirmStep (C : Curve F P) (H : Primitives) (G : Generators C H) (party : Party F S)
    (s : Session) (hexBody : Bytes) : Loop → Prop
  | buffered : (∀ key cand, s.candidates.lookup key = some cand →
        ∃ error, party.checkConfirm C H G cand hexBody = .fail error) →
      ConfirmStep C H G party s hexBody ⟨s.buffer hexBody, none⟩
  | authenticated (key : Bytes) (cand : PeerCandidate) (addr : String) :
      s.candidates.lookup key = some cand → party.checkConfirm C H G cand hexBody = .ok addr →
      ConfirmStep C H G party s hexBody ⟨s, some (.ok (addr, cand.fingerprint, cand.isServer))⟩
  | crashed (fault : Fault ExchangeError) : (∀ error, fault ≠ .failed error) →
      ConfirmStep C H G party s hexBody ⟨s, some (.error fault)⟩

omit [Field S] [AddCommGroup P] [DecidableEq P] [Module S P] in
theorem onConfirm_step :
    ConfirmStep C H G party s hexBody (party.onConfirm C H G s turn hexBody) := by
  unfold Party.onConfirm
  rcases hfirst : Outcome.firstOk (fun e : CandidateEntry => party.checkConfirm C H G e.2 hexBody)
    (turn.arrange s.candidates.entries) with fault | found
  · refine .crashed fault fun error hfault => ?_
    rw [hfault] at hfirst
    exact Outcome.firstOk_ne_failed hfirst
  · rcases found with _ | ⟨e, addr⟩
    · refine .buffered fun key cand hcand => ?_
      refine Outcome.firstOk_eq_none_iff.mp hfirst ⟨key, cand⟩ ?_
      exact (turn.arrange_perm _).mem_iff.mpr (AList.lookup_eq_some_iff.mp hcand)
    · obtain ⟨hmem, haddr⟩ := Outcome.firstOk_eq_some hfirst
      exact .authenticated e.1 e.2 addr (Session.lookup_of_mem_arrange hmem) haddr

/-! ### One turn -/

/-- The cases of a turn: the loop after it and what is sent. -/
inductive TurnStep (C : Curve F P) (H : Primitives) (G : Generators C H) (party : Party F S)
    (s : Session) (turn : Turn) : Loop → List Sent → Prop
  | idle (s' : Session) (result : Option Exchanged) (sent : List Sent) : Quiet s s' sent →
      (∀ x, result ≠ some (.ok x)) → TurnStep C H G party s turn ⟨s', result⟩ sent
  | adopted (s' : Session) (sent : List Sent) (extAddr : Bytes) : Quiet s s' sent →
      turn.Hears party.room (.accepted extAddr) →
      TurnStep C H G party s turn ⟨s'.adopt extAddr, none⟩ sent
  | added (s' : Session) (sent : List Sent) (hexBody payload : Bytes) (view : ProcessedSpake)
      (cp : Bytes) (loop : Loop) : Quiet s s' sent → turn.Hears party.room (.spake2 hexBody) →
      Acceptable C H G party turn.draws s.myAddr hexBody payload view cp →
      payloadKey payload ∉ s.candidates →
      CandidateStep C H G party
        ((s'.makeRoom turn).insertCandidate (payloadKey payload) (.new view cp)
          turn.clock.confirmSent) (.new view cp) loop →
      TurnStep C H G party s turn loop (sent ++ [.confirm (.new view cp)])
  | confirmed (s' : Session) (sent : List Sent) (hexBody : Bytes) (loop : Loop) :
      Quiet s s' sent → turn.Hears party.room (.confirm hexBody) →
      ConfirmStep C H G party s' hexBody loop → TurnStep C H G party s turn loop sent

omit [Field F] [DecidableEq F] [Field S] [AddCommGroup P] [DecidableEq P] [Module S P] in
theorem transmit_quiet (C : Curve F P) (party : Party F S) (s : Session) (turn : Turn) :
    Quiet s (party.transmit C s turn).1 (party.transmit C s turn).2 :=
  ((s.sendReg_quiet _ _).trans (Session.sendSpake2_quiet _ _ _ _)).trans
    (Session.resendConfirms_quiet _ _ _)

theorem handle_turnStep {s' : Session} {sent : List Sent} (hquiet : Quiet s s' sent)
    {message : Message} (hhears : turn.Hears party.room message) :
    TurnStep C H G party s turn (party.handle C H G s' turn message).1
      (sent ++ (party.handle C H G s' turn message).2) := by
  cases message with
  | accepted extAddr =>
      rw [Party.handle, List.append_nil]
      exact .adopted s' sent extAddr hquiet hhears
  | challenge cookie =>
      have hchallenged : Quiet s' (s'.challenged cookie) [] :=
        ⟨rfl, rfl, rfl, fun _ h => Or.inl h, fun _ h => h, by simp⟩
      exact .idle (s'.challenged cookie) none _ (hquiet.trans hchallenged) (by simp)
  | other => exact .idle s' none _ (hquiet.trans s'.quiet_refl) (by simp)
  | confirm hexBody =>
      rw [Party.handle, List.append_nil]
      exact .confirmed s' sent hexBody _ hquiet hhears onConfirm_step
  | spake2 hexBody =>
      rw [Party.handle]
      have hstep : Spake2Step C H G party s' turn hexBody (party.onSpake2 C H G s' turn hexBody) :=
        onSpake2_step
      generalize party.onSpake2 C H G s' turn hexBody = result at hstep ⊢
      cases hstep with
      | known payload _ _ => exact .idle s' none _ (hquiet.trans s'.quiet_refl) (by simp)
      | refused _ => exact .idle s' none _ (hquiet.trans s'.quiet_refl) (by simp)
      | crashed fault _ _ => exact .idle s' _ _ (hquiet.trans s'.quiet_refl) (by simp)
      | added payload view cp haccepts hnew =>
          rw [hquiet.myAddr] at haccepts
          rw [hquiet.candidates] at hnew
          exact .added s' sent hexBody payload view cp _ hquiet hhears haccepts hnew
            (onCandidate_step _)

/-- **Inversion.** Every turn is one of the cases. -/
theorem turn_turnStep (C : Curve F P) (H : Primitives) (G : Generators C H) (party : Party F S)
    (s : Session) (turn : Turn) :
    TurnStep C H G party s turn (party.turn C H G s turn).1 (party.turn C H G s turn).2 := by
  have hsent := transmit_quiet C party s turn
  unfold Party.turn
  split
  · exact .idle s _ [] s.quiet_refl (by simp [Outcome.fail])
  · split
    · exact .idle s _ [] s.quiet_refl (by simp [Outcome.fail])
    · simp only
      split
      · exact .idle _ none _ hsent (by simp)
      · exact .idle _ _ _ hsent (by simp [Outcome.fail])
      · rename_i data fits hinbound
        unfold Party.receive
        cases hline : trimAscii data with
        | none => exact .idle _ _ _ (hsent.trans (Session.quiet_refl _)) (by simp)
        | some line =>
            have hmetered := hsent.trans (Session.meter_quiet _ line turn.clock.window)
            simp only
            split
            · exact .idle _ none _ hmetered (by simp)
            · cases hmessage : classify party.room line with
              | none => exact .idle _ _ _ hmetered (by simp)
              | some message =>
                  rw [List.append_nil] at hmetered
                  exact handle_turnStep hmetered ⟨data, fits, line, hinbound, hline, hmessage⟩

/-- One step of the machine: nothing after the end, else a turn. -/
theorem machine_step (party : Party F S) (loop : Loop) (turn : Turn) :
    ((party.machine C H G).step loop turn = (loop, []) ∧ loop.result ≠ none) ∨
      (TurnStep C H G party loop.session turn ((party.machine C H G).step loop turn).1
        ((party.machine C H G).step loop turn).2 ∧ loop.result = none) := by
  cases hresult : loop.result with
  | some result =>
      refine Or.inl ⟨?_, by simp⟩
      simp only [Party.machine, hresult]
  | none =>
      refine Or.inr ⟨?_, rfl⟩
      simp only [Party.machine, hresult]
      exact turn_turnStep C H G party loop.session turn

end Party

end Qvole.Exchange
