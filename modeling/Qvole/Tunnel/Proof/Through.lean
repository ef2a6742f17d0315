import Qvole.Tunnel.Proof.Idle
import Qvole.Tunnel.Through

/-!
# What goes in at one end comes out at the other

Each end keeps what it has read and not written, the stream what it was given and has not delivered.
Together these are all that one TCP connection was read and the other one not written, in order. A
bridge that meets the end of the stream knows that the other one is over, or that there is none.
-/

namespace Qvole.Tunnel

open Copy

variable {ε : Type} {idle : Nat} {effects : List (Effect (IdleError ε))}

/-! ### The end of a copy -/

/-- A copy that has returned has ended both directions. -/
def Settled (copies : Copies (IdleError ε)) : Prop :=
  copies.pc = .returned → ∀ side, copies.done side = true

theorem settled_start : Settled (.start : Copies (IdleError ε)) := by
  intro h
  cases h

theorem pcBehindAb_ne_returned (done : Side → Bool) : pcBehindAb done ≠ .returned := by
  unfold pcBehindAb
  split <;> simp

theorem pcBehind_ne_returned (done : Side → Bool) (side : Side) : pcBehind done side ≠ .returned := by
  cases side with
  | ab => exact pcBehindAb_ne_returned done
  | ba => simp [pcBehind]

theorem Settled.step {copies : Copies (IdleError ε)} (h : Settled copies)
    (event : Copy.Event (IdleError ε)) : Settled (bidirectionalCopy copies event).1 := by
  cases event with
  | fire => exact h
  | advance io =>
      unfold Settled bidirectionalCopy
      cases hpc : copies.pc with
      | idle =>
          intro hreturned
          simp only [pcFirst] at hreturned
          split at hreturned
          · exact absurd hreturned (pcBehindAb_ne_returned _)
          · cases hreturned
      | polling side =>
          intro hreturned
          simp only [Copies.poll] at hreturned
          split at hreturned
          · cases hreturned
          · exact absurd hreturned (pcBehind_ne_returned _ _)
      | checking =>
          intro hreturned side
          simp only [Copies.check] at hreturned ⊢
          split at hreturned
          · rename_i hboth
            obtain ⟨hab, hba⟩ := Bool.and_eq_true_iff.mp hboth
            cases side with
            | ab => exact hab
            | ba => exact hba
          · cases hreturned
      | returned => exact fun _ => h hpc

theorem readBy_eq_nil {sent : List (Effect (IdleError ε))} (h : ¬ ReadsData sent) (side : Side) :
    readBy side sent = [] := by
  refine List.flatMap_eq_nil_iff.mpr fun effect heffect => ?_
  cases effect with
  | act other act =>
      cases act with
      | read b => exact absurd ⟨other, b, heffect⟩ h
      | wrote b => simp [Effect.readBytes, Act.readBytes]
      | finished how => simp [Effect.readBytes, Act.readBytes]
  | interrupt => rfl
  | returned => rfl

variable {e : Terminal ε}

/-! ### One end -/

/-- What a stream gives is the front of what it holds. -/
theorem Flow.read_ready {flow : Flow} {answer : ReadAnswer ε} {b : Bytes}
    (h : flow.read answer = .ready b) :
    flow.bytes = b ++ flow.bytes.drop b.length ∧ (b = [] → flow.bytes = [] ∧ flow.fin = true) := by
  cases answer with
  | pending => cases h
  | failed error => cases h
  | ready asked =>
      simp only [Flow.read] at h
      by_cases hempty : flow.bytes = []
      · rw [if_pos hempty] at h
        split at h
        · rename_i hfin
          obtain rfl := ReadAnswer.ready.inj h
          exact ⟨by simp, fun _ => ⟨hempty, hfin⟩⟩
        · cases h
      · rw [if_neg hempty] at h
        obtain rfl := ReadAnswer.ready.inj h
        refine ⟨?_, fun hnone => ?_⟩
        · rw [List.length_take, ← List.drop_eq_drop_min, List.take_append_drop]
        · cases hbytes : flow.bytes with
          | nil => exact absurd hbytes hempty
          | cons first rest => simp [hbytes] at hnone

theorem readsStream_of_ab {s : TunnelCopy ε} (hpc : s.copies.pc = .polling .ab)
    (hreads : s.reads = true) : s.readsStream = true := by
  simp [TunnelCopy.readsStream, hpc, hreads]

/-- **One end takes from the front of the stream**, and meets its end when it is empty and over. -/
theorem Terminal.step_inflow (idle : Nat) (e : Terminal ε) (turn : Turn ε) :
    let next := e.step idle turn
    e.inflow.bytes = readBy .ab next.2 ++ next.1.inflow.bytes ∧
      (finishedAs .ab .eof ∈ next.2 → e.inflow.bytes = [] ∧ e.inflow.fin = true) := by
  intro next
  have hin : next.1.inflow.bytes = e.inflow.bytes.drop (readBy .ab next.2).length := rfl
  rw [hin]
  have hstepped : Stepped idle e.bridge next.1.bridge _ next.2 := tunnelCopy_stepped idle e.bridge
    { turn with io := { turn.io with
      read := if e.bridge.readsStream then e.inflow.read turn.io.read else turn.io.read } }
  generalize next.2 = sent at hstepped
  cases hstepped with
  | quiet _ hquiet =>
      rw [readBy_eq_nil hquiet.1]
      exact ⟨by simp, fun heof => absurd ⟨.ab, heof⟩ hquiet.2.2⟩
  | data side b hpc hreads hread =>
      refine ⟨?_, by simp [finishedAs]⟩
      cases side with
      | ba => simp [readBy, Effect.readBytes]
      | ab =>
          simp only [readsStream_of_ab hpc hreads, if_true] at hread
          simpa [readBy, Effect.readBytes, Act.readBytes] using (Flow.read_ready hread).1
  | eof side hpc hreads hread =>
      refine ⟨by simp [readBy, finishedAs, Effect.readBytes, Act.readBytes], fun hmem => ?_⟩
      obtain rfl : side = .ab := by simpa [finishedAs, eq_comm] using hmem
      simp only [readsStream_of_ab hpc hreads, if_true] at hread
      exact (Flow.read_ready hread).2 rfl
  | reap side wake =>
      exact ⟨by simp [readBy, reapedAs, finishedAs, Effect.readBytes, Act.readBytes],
        by simp [reapedAs, finishedAs]⟩

/-! ### A stream between two ends -/

/-- How a flow stands to the effects of the end that writes it and of the end that reads it. `lead` was
on the stream before the first copy, `taken` read off it. -/
structure Linked (lead taken : Bytes) (writes reads : List (Effect (IdleError ε)))
    (writer : Copies (IdleError ε)) (flow : Flow) : Prop where
  bytes : lead ++ wroteBy .ba writes = taken ++ readBy .ab reads ++ flow.bytes
  closed : flow.fin = true → ∀ side, writer.done side = true
  eof : finishedAs .ab .eof ∈ reads → flow.bytes = [] ∧ flow.fin = true

variable {lead taken : Bytes} {writes reads : List (Effect (IdleError ε))}
  {writer : Copies (IdleError ε)} {flow : Flow}

/-- The end that reads makes a step. -/
theorem Linked.read (h : Linked lead taken writes reads writer e.inflow) (turn : Turn ε) :
    Linked lead taken writes (reads ++ (e.step idle turn).2) writer (e.step idle turn).1.inflow := by
  obtain ⟨hbytes, heof⟩ := e.step_inflow idle turn
  refine ⟨?_, h.closed, fun hmem => ?_⟩
  · rw [readBy_append, h.bytes, hbytes]
    simp
  · have hover : e.inflow.bytes = [] ∧ e.inflow.fin = true := by
      rcases List.mem_append.mp hmem with hold | hnew
      · exact h.eof hold
      · exact heof hnew
    have hleft : (e.step idle turn).1.inflow.bytes = [] := by
      rw [hover.1] at hbytes
      exact (List.append_eq_nil_iff.mp hbytes.symm).2
    exact ⟨hleft, hover.2⟩

/-- The end that writes makes a step. -/
theorem Linked.write (h : Linked lead taken writes reads e.bridge.copies e.outflow)
    (hcopied : Copied writes e.bridge.copies) (hsettled : Settled e.bridge.copies) (turn : Turn ε) :
    Linked lead taken (writes ++ (e.step idle turn).2) reads (e.step idle turn).1.bridge.copies
      (e.step idle turn).1.outflow := by
  have hpersists : e.outflow.fin = true → (∀ side, (e.step idle turn).1.bridge.copies.done side = true) ∧
      wroteBy .ba (e.step idle turn).2 = [] := by
    intro hfin
    have hnext : Copied (writes ++ (e.step idle turn).2) (e.step idle turn).1.bridge.copies :=
      hcopied.step _
    have hkeeps : ∀ side, (e.step idle turn).1.bridge.copies.done side = true ∧
        wroteBy side (e.step idle turn).2 = [] := by
      intro side
      obtain ⟨how, hended⟩ := (hcopied.done side).mp (h.closed hfin side)
      obtain ⟨hphase, -, hwrote⟩ := hcopied.ended_step hended _
      exact ⟨(hnext.done side).mpr ⟨how, hphase⟩, hwrote⟩
    exact ⟨fun side => (hkeeps side).1, (hkeeps .ba).2⟩
  have hout : (e.step idle turn).1.outflow.bytes =
      e.outflow.bytes ++ wroteBy .ba (e.step idle turn).2 := rfl
  refine ⟨?_, fun hfin => ?_, fun hmem => ?_⟩
  · rw [hout, wroteBy_append, ← List.append_assoc, h.bytes]
    simp
  · rcases (Bool.or_eq_true _ _).mp hfin with hold | hreturned
    · exact (hpersists hold).1
    · exact hsettled.step _ (of_decide_eq_true hreturned)
  · obtain ⟨hempty, hfin⟩ := h.eof hmem
    refine ⟨?_, (Bool.or_eq_true _ _).mpr (Or.inl hfin)⟩
    rw [hout, hempty, (hpersists hfin).2]
    rfl

/-! ### Runs -/

def nearOf (sent : List (TunnelledEffect ε)) : List (Effect (IdleError ε)) :=
  sent.filterMap fun effect =>
    match effect with
    | .near effect => some effect
    | _ => none

def farOf (sent : List (TunnelledEffect ε)) : List (Effect (IdleError ε)) :=
  sent.filterMap fun effect =>
    match effect with
    | .far effect => some effect
    | _ => none

/-- What holds of the effects of a run and of the state it has come to. -/
structure Through (header : Bytes) (idleFar : Nat) (sent : List (TunnelledEffect ε))
    (s : Tunnelled ε) : Prop where
  near : Copied (nearOf sent) s.near.copies
  nearSettled : Settled s.near.copies
  far : Copied (farOf sent) (s.far.getD (.start ε idleFar)).copies
  farSettled : Settled (s.far.getD (.start ε idleFar)).copies
  up : Linked header (if s.far.isSome then header else []) (nearOf sent) (farOf sent) s.near.copies s.up
  down : s.refused = false →
    Linked [] [] (farOf sent) (nearOf sent) (s.far.getD (.start ε idleFar)).copies s.down
  absent : s.far = none → farOf sent = []
  refused : s.refused = true →
    s.far = none ∧ readBy .ab (nearOf sent) = [] ∧ s.down.bytes = []
  refusal : .refused ∈ sent → s.refused = true
  connected : ∀ idx, .connected idx ∈ sent → idx = Bytes.beNat header

variable {header : Bytes} {idleNear idleFar : Nat} {sent : List (TunnelledEffect ε)}
  {s : Tunnelled ε}

theorem nearOf_near (sent : List (TunnelledEffect ε)) (more : List (Effect (IdleError ε))) :
    nearOf (sent ++ more.map .near) = nearOf sent ++ more ∧
      farOf (sent ++ more.map .near) = farOf sent := by
  simp [nearOf, farOf, List.filterMap_append, List.filterMap_map]

theorem farOf_far (sent : List (TunnelledEffect ε)) (more : List (Effect (IdleError ε))) :
    nearOf (sent ++ more.map .far) = nearOf sent ∧
      farOf (sent ++ more.map .far) = farOf sent ++ more := by
  simp [nearOf, farOf, List.filterMap_append, List.filterMap_map]

theorem through_start : Through header idleFar [] (.start ε idleNear header) where
  near := copied_start
  nearSettled := settled_start
  far := copied_start
  farSettled := settled_start
  up := ⟨by simp [Tunnelled.start, nearOf, farOf, wroteBy, readBy], by simp [Tunnelled.start],
    by simp [farOf]⟩
  down _ := ⟨by simp [Tunnelled.start, nearOf, farOf, wroteBy, readBy], by simp [Tunnelled.start],
    by simp [nearOf]⟩
  absent _ := rfl
  refused := by simp [Tunnelled.start]
  refusal := by simp
  connected := by simp

theorem Through.nearStep (h : Through header idleFar sent s) (turn : Turn ε) :
    let next := tunnelled idleNear idleFar s (.near turn)
    Through header idleFar (sent ++ next.2) next.1 := by
  obtain ⟨hnear, hfar⟩ := nearOf_near sent (Terminal.step idleNear ⟨s.near, s.down, s.up⟩ turn).2
  simp only [tunnelled]
  refine ⟨?_, h.nearSettled.step _, ?_, h.farSettled, ?_, fun hopen => ?_,
    fun hnone => hfar.trans (h.absent hnone), fun hrefused => ?_,
    fun hrefusal => h.refusal (by simpa using hrefusal), ?_⟩
  · rw [hnear]
    exact h.near.step _
  · rw [hfar]
    exact h.far
  · rw [hnear, hfar]
    exact Linked.write (e := ⟨s.near, s.down, s.up⟩) h.up h.near h.nearSettled turn
  · rw [hnear, hfar]
    exact Linked.read (e := ⟨s.near, s.down, s.up⟩) (h.down hopen) turn
  · obtain ⟨hnone, hread, hempty⟩ := h.refused hrefused
    have hinflow := (Terminal.step_inflow idleNear ⟨s.near, s.down, s.up⟩ turn).1
    obtain ⟨hnothing, hleft⟩ := List.append_eq_nil_iff.mp (hinflow.symm.trans hempty)
    exact ⟨hnone, by rw [hnear, readBy_append, hread, hnothing, List.append_nil], hleft⟩
  · intro idx hidx
    exact h.connected idx (by simpa using hidx)

theorem Through.not_refused {far : TunnelCopy ε} (h : Through header idleFar sent s)
    (hsome : s.far = some far) : s.refused = false := by
  by_contra hrefused
  have hnone := (h.refused (Bool.of_not_eq_false hrefused)).1
  simp [hsome] at hnone

theorem Through.farStep {far : TunnelCopy ε} (h : Through header idleFar sent s)
    (hsome : s.far = some far) (turn : Turn ε) :
    let next := tunnelled idleNear idleFar s (.far turn)
    Through header idleFar (sent ++ next.2) next.1 := by
  obtain ⟨hnear, hfar⟩ := farOf_far sent (Terminal.step idleFar ⟨far, s.up, s.down⟩ turn).2
  have hopen := h.not_refused hsome
  obtain ⟨hcopied, hsettled, hfarCopied, hfarSettled, hup, hdown, -, -, hrefusal, hconnected⟩ := h
  simp only [hsome, Option.getD_some, Option.isSome_some, if_true] at hfarCopied hfarSettled hup hdown
  simp only [tunnelled, hsome]
  refine ⟨?_, hsettled, ?_, hfarSettled.step _, ?_, fun _ => ?_, by simp, by simp [hopen],
    fun hmem => hrefusal (by simpa using hmem), ?_⟩
  · rw [hnear]
    exact hcopied
  · rw [hfar]
    exact hfarCopied.step _
  · rw [hnear, hfar]
    exact Linked.read (e := ⟨far, s.up, s.down⟩) hup turn
  · rw [hnear, hfar]
    exact Linked.write (e := ⟨far, s.up, s.down⟩) (hdown hopen) hfarCopied hfarSettled turn
  · intro idx hidx
    exact hconnected idx (by simpa using hidx)

/-- The header is taken off the stream. -/
theorem Through.connect (hlen : header.length = 2) (h : Through header idleFar sent s) :
    let next := tunnelled idleNear idleFar s .connect
    Through header idleFar (sent ++ next.2) next.1 := by
  simp only [tunnelled]
  split
  · rename_i hready
    obtain ⟨hcopied, hsettled, hfarCopied, hfarSettled, hup, hdown, habsent, -, hrefusal,
      hconnected⟩ := h
    have hnone : s.far = none := Option.isNone_iff_eq_none.mp hready.1
    have hopen : s.refused = false := hready.2.1
    simp only [hnone, Option.getD_none, Option.isSome_none] at hfarCopied hfarSettled hup hdown
    have hfarOf := habsent hnone
    have hbytes : s.up.bytes = header ++ wroteBy .ba (nearOf sent) := by
      simpa [hfarOf, readBy] using hup.bytes.symm
    have htake : s.up.bytes.take 2 = header := by rw [hbytes, ← hlen, List.take_left]
    have hdrop : s.up.bytes.drop 2 = wroteBy .ba (nearOf sent) := by
      rw [hbytes, ← hlen, List.drop_left]
    have hnear : nearOf (sent ++ [.connected (Bytes.beNat (s.up.bytes.take 2))]) = nearOf sent := by
      simp [nearOf]
    have hfar : farOf (sent ++ [.connected (Bytes.beNat (s.up.bytes.take 2))]) = farOf sent := by
      simp [farOf]
    refine ⟨hnear ▸ hcopied, hsettled, hfar ▸ hfarCopied, hfarSettled, ?_, fun _ => ?_, by simp,
      by simp [hopen], fun hmem => hrefusal (by simpa using hmem), ?_⟩
    · rw [hnear, hfar]
      refine ⟨?_, hup.closed, fun hmem => ?_⟩
      · simp [hdrop, hfarOf, readBy]
      · rw [hfarOf] at hmem
        cases hmem
    · rw [hnear, hfar]
      exact hdown hopen
    · intro idx hidx
      rcases List.mem_append.mp hidx with hold | hnew
      · exact hconnected idx hold
      · rw [htake] at hnew
        simpa using hnew
  · simpa using h

/-- The near end is told that there is nothing to come, and nothing came. -/
theorem Through.refuse (h : Through header idleFar sent s) :
    let next := tunnelled idleNear idleFar s .refuse
    Through header idleFar (sent ++ next.2) next.1 := by
  simp only [tunnelled]
  split
  · rename_i hready
    have hnone : s.far = none := Option.isNone_iff_eq_none.mp hready.1
    have hfarOf := h.absent hnone
    have hnear : nearOf (sent ++ [.refused]) = nearOf sent := by simp [nearOf]
    have hfar : farOf (sent ++ [.refused]) = farOf sent := by simp [farOf]
    have hempty : readBy .ab (nearOf sent) ++ s.down.bytes = [] := by
      simpa [hfarOf, wroteBy] using (h.down hready.2).bytes.symm
    refine ⟨hnear ▸ h.near, h.nearSettled, hfar ▸ h.far, h.farSettled, ?_, by simp,
      fun _ => hfar.trans hfarOf, fun _ => ⟨hnone, ?_⟩, fun _ => rfl, ?_⟩
    · rw [hnear, hfar]
      exact h.up
    · rw [hnear]
      exact List.append_eq_nil_iff.mp hempty
    · intro idx hidx
      exact h.connected idx (by simpa using hidx)
  · simpa using h

theorem Through.step (hlen : header.length = 2) (h : Through header idleFar sent s)
    (event : TunnelledEvent ε) :
    let next := tunnelled idleNear idleFar s event
    Through header idleFar (sent ++ next.2) next.1 := by
  cases event with
  | near turn => exact h.nearStep turn
  | connect => exact h.connect hlen
  | refuse => exact h.refuse
  | far turn =>
      cases hsome : s.far with
      | some far => exact h.farStep hsome turn
      | none => simpa [tunnelled, hsome] using h

variable {history : List (Machine.Record (Tunnelled ε) (TunnelledEvent ε) (TunnelledEffect ε))}
  {now : Nat}

theorem through_of_run (hlen : header.length = 2)
    (hrun : (tunnelledMachine ε idleNear idleFar header).Run history s now) :
    Through header idleFar (history.flatMap (·.sent)) s := by
  refine hrun.inv (G := fun _ _ => True)
    (I := fun history s _ => Through header idleFar (history.flatMap (·.sent)) s) ?_ ?_
    fun _ _ => trivial
  · exact through_start
  · intro history s now event _ _ _ h
    rw [List.flatMap_append, List.flatMap_singleton]
    exact h.step hlen event

/-! ### Delivery -/

/-- What one end has read and the other one has not written: what the reader of the stream holds, what
is on the stream, and what its writer holds. -/
def inFlight (reader : Copies (IdleError ε)) (flow : Flow) (writer : Copies (IdleError ε)) : Bytes :=
  (reader.phase .ab).unwritten ++ flow.bytes ++ (writer.phase .ba).unwritten

variable {reader : Copies (IdleError ε)}

theorem Linked.wroteBy_eq (h : Linked lead lead writes reads writer flow) :
    wroteBy .ba writes = readBy .ab reads ++ flow.bytes := by
  have hbytes := h.bytes
  rw [List.append_assoc] at hbytes
  exact List.append_cancel_left hbytes

/-- The sink at one end has the front of what was read at the other one. -/
theorem Linked.isPrefix (h : Linked lead lead writes reads writer flow)
    (hwriter : Copied writes writer) (hreader : Copied reads reader) :
    wroteBy .ab reads <+: readBy .ba writes := by
  have hread : wroteBy .ab reads <+: readBy .ab reads := (hreader.kept .ab).isPrefix
  have hflow : readBy .ab reads <+: wroteBy .ba writes := by
    rw [h.wroteBy_eq]
    exact List.prefix_append _ _
  exact (hread.trans hflow).trans (hwriter.kept .ba).isPrefix

theorem not_failed_of_clean {side : Side} (hcopied : Copied effects writer)
    (hclean : ∀ error, finishedAs side (.failed error) ∉ effects) : ¬ (writer.phase side).Failed := by
  rintro ⟨error, herror⟩
  exact hclean error ((hcopied.finished side _).mpr herror)

/-- Without a connection at the far end the near one has nothing to write. -/
theorem Through.wroteBy_of_absent (h : Through header idleFar sent s) (hnone : s.far = none) :
    wroteBy .ab (nearOf sent) = [] := by
  have hread : readBy .ab (nearOf sent) = [] := by
    cases hrefused : s.refused with
    | true => exact (h.refused hrefused).2.1
    | false =>
        have hempty := (h.down hrefused).wroteBy_eq
        rw [h.absent hnone] at hempty
        exact (List.append_eq_nil_iff.mp hempty.symm).1
  exact List.prefix_nil.mp (hread ▸ (h.near.kept .ab).isPrefix)

/-- Without a failure, what is missing is on its way. -/
theorem Linked.inFlight_eq (h : Linked lead lead writes reads writer flow)
    (hwriter : Copied writes writer) (hreader : Copied reads reader)
    (hwrites : ∀ error, finishedAs .ba (.failed error) ∉ writes)
    (hreads : ∀ error, finishedAs .ab (.failed error) ∉ reads) :
    readBy .ba writes = wroteBy .ab reads ++ inFlight reader flow writer := by
  calc readBy .ba writes
      = wroteBy .ba writes ++ (writer.phase .ba).unwritten :=
        (hwriter.kept .ba).eq_of_running (not_failed_of_clean hwriter hwrites)
    _ = readBy .ab reads ++ flow.bytes ++ (writer.phase .ba).unwritten := by rw [h.wroteBy_eq]
    _ = wroteBy .ab reads ++ (reader.phase .ab).unwritten ++ flow.bytes ++
          (writer.phase .ba).unwritten := by
        rw [(hreader.kept .ab).eq_of_running (not_failed_of_clean hreader hreads)]
    _ = wroteBy .ab reads ++ inFlight reader flow writer := by simp [inFlight]

/-- The end of the stream is the end of all that was read. -/
theorem Linked.complete (h : Linked lead lead writes reads writer flow)
    (hwriter : Copied writes writer) (hreader : Copied reads reader)
    (heof : finishedAs .ab .eof ∈ reads)
    (hclean : ∀ error, finishedAs .ba (.failed error) ∉ writes) :
    wroteBy .ab reads = readBy .ba writes := by
  obtain ⟨hempty, hfin⟩ := h.eof heof
  obtain ⟨how, hwritten⟩ := (hwriter.done .ba).mp (h.closed hfin .ba)
  have hended := (hreader.finished .ab .eof).mp heof
  have hreads : ∀ error, finishedAs .ab (.failed error) ∉ reads := by
    intro error hfailed
    rw [(hreader.finished .ab _).mp hfailed] at hended
    cases hended
  have hall := h.inFlight_eq hwriter hreader hclean hreads
  simpa [inFlight, hended, hempty, hwritten, Phase.unwritten] using hall.symm

theorem length_of_handleTunnelTcp {permit opened : Bool} {specIdx : Nat}
    (h : handleTunnelTcp permit opened specIdx = some header) :
    header.length = 2 ∧ Bytes.beNat header = specIdx := by
  unfold handleTunnelTcp at h
  split at h
  · cases h
  · split at h
    · cases h
    · split at h
      · cases h
      · obtain rfl := Option.some.inj h
        exact ⟨rfl, Bytes.beNat_be16 (by omega)⟩

/-- **Through the tunnel no byte is lost or moved.** At every point of every run the target has the
front of what the client sent, and the client of what the target sent. As long as nothing fails the
rest is on its way, and an end that met the end of the stream has written all that the other one
read, unless that failed. A connection that the far end refuses carries nothing. The far end learns the
index of the listener the connection came in at. -/
theorem tunnelled_delivers {permit opened : Bool} {specIdx : Nat}
    (hheader : handleTunnelTcp permit opened specIdx = some header)
    (hrun : (tunnelledMachine ε idleNear idleFar header).Run history s now) :
    let near := nearOf (history.flatMap (·.sent))
    let far := farOf (history.flatMap (·.sent))
    (wroteBy .ab far <+: readBy .ba near ∧ wroteBy .ab near <+: readBy .ba far) ∧
    (∀ bridge, s.far = some bridge →
      ((∀ error, finishedAs .ba (.failed error) ∉ near) →
        (∀ error, finishedAs .ab (.failed error) ∉ far) →
        readBy .ba near = wroteBy .ab far ++ inFlight bridge.copies s.up s.near.copies) ∧
      ((∀ error, finishedAs .ba (.failed error) ∉ far) →
        (∀ error, finishedAs .ab (.failed error) ∉ near) →
        readBy .ba far = wroteBy .ab near ++ inFlight s.near.copies s.down bridge.copies)) ∧
    (finishedAs .ab .eof ∈ far → (∀ error, finishedAs .ba (.failed error) ∉ near) →
      wroteBy .ab far = readBy .ba near) ∧
    (finishedAs .ab .eof ∈ near → (∀ error, finishedAs .ba (.failed error) ∉ far) →
      wroteBy .ab near = readBy .ba far) ∧
    (.refused ∈ history.flatMap (·.sent) → s.far = none ∧ far = [] ∧ wroteBy .ab near = []) ∧
    ∀ idx, .connected idx ∈ history.flatMap (·.sent) → idx = specIdx := by
  intro near far
  obtain ⟨hlen, hidx⟩ := length_of_handleTunnelTcp hheader
  have h := through_of_run hlen hrun
  have hindex : ∀ idx, .connected idx ∈ history.flatMap (·.sent) → idx = specIdx :=
    fun idx hmem => (h.connected idx hmem).trans hidx
  cases hsome : s.far with
  | none =>
      have hnone : far = [] := h.absent hsome
      have hnothing : wroteBy .ab near = [] := h.wroteBy_of_absent hsome
      refine ⟨⟨by simp [hnone, wroteBy], by simp [hnothing]⟩, by simp, by simp [hnone], ?_,
        fun _ => ⟨rfl, hnone, hnothing⟩, hindex⟩
      intro _ _
      rw [hnothing, hnone]
      rfl
  | some bridge =>
      have hup := h.up
      have hopen := h.not_refused hsome
      have hdown := h.down hopen
      have hfar := h.far
      simp only [hsome, Option.isSome_some, if_true, Option.getD_some] at hup hdown hfar
      refine ⟨⟨hup.isPrefix h.near hfar, hdown.isPrefix hfar h.near⟩, ?_, ?_, ?_, ?_, hindex⟩
      · rintro _ ⟨⟩
        exact ⟨hup.inFlight_eq h.near hfar, hdown.inFlight_eq hfar h.near⟩
      · exact fun heof hclean => hup.complete h.near hfar heof hclean
      · exact fun heof hclean => hdown.complete hfar h.near heof hclean
      · intro hrefusal
        cases hopen.symm.trans (h.refusal hrefusal)

def quickTurn (read : ReadAnswer Unit) : Turn Unit := { now := 0, timer := false, io := ⟨read, .took 9⟩ }

-- a refusal is met as the end of the stream
example :
    let M := tunnelledMachine Unit 0 0 (Bytes.be16 7)
    finishedAs .ab .eof ∈ nearOf ((M.trace M.init
      (.refuse :: List.replicate 9 (.near (quickTurn (.ready []))))).flatMap (·.sent)) := by
  decide

/-- A client sends two bytes and closes, while the target answers. -/
def twoBytes : List (TunnelledEvent Unit) :=
  List.replicate 9 (.near (quickTurn (.ready (ascii "hi")))) ++ .connect ::
    (List.replicate 9 (.far (quickTurn (.ready (ascii "hi")))) ++
      List.replicate 12 (.near (quickTurn (.ready []))) ++
      List.replicate 14 (.far (quickTurn (.ready []))))

theorem tunnelled_delivers_two :
    let M := tunnelledMachine Unit 0 0 (Bytes.be16 7)
    let sent := (M.trace M.init twoBytes).flatMap (·.sent)
    .connected 7 ∈ sent ∧ finishedAs .ab .eof ∈ farOf sent ∧
      wroteBy .ab (farOf sent) = ascii "hi" := by
  intro M sent
  have hordered : M.Ordered 0 twoBytes := by decide
  have hheader : handleTunnelTcp true true 7 = some (Bytes.be16 7) := by decide
  obtain ⟨-, -, hcomplete, -, -, -⟩ := tunnelled_delivers hheader (M.run_exec hordered)
  have hconnected : .connected 7 ∈ sent := by decide
  have heof : finishedAs .ab .eof ∈ farOf sent := by decide
  have hread : readBy .ba (nearOf sent) = ascii "hi" := by decide
  have hclean : ∀ error, finishedAs .ba (.failed error) ∉ nearOf sent := by
    intro error
    cases error with
    | writeZero => decide
    | io error =>
        cases error with
        | timedOut => decide
        | io error => cases error; decide
  exact ⟨hconnected, heof, (hcomplete heof hclean).trans hread⟩

end Qvole.Tunnel
