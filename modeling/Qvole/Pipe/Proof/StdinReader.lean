import Qvole.Pipe.StdinReader

/-!
# Standard input, put together again

What the polls hand out, up to the first error or the end of input, is the front of what the thread sent
up to its first error or end, whatever the sizes of chunks and buffers; and it is all of it once the end
is reported.
-/

namespace Qvole.Pipe

variable {ε : Type}

/-! ### What was sent and handed out -/

/-- A chunk with bytes in it. -/
def isChunk : Except ε Bytes → Bool
  | .ok b => !b.isEmpty
  | .error _ => false

def itemBytes : Except ε Bytes → Bytes
  | .ok b => b
  | .error _ => []

/-- The chunks before the first error or end, put together. -/
def chunksBefore (items : List (Except ε Bytes)) : Bytes := (items.takeWhile isChunk).flatMap itemBytes

def ReaderEffect.item? : ReaderEffect ε → Option (Except ε Bytes)
  | .sent item => some item
  | .polled _ _ => none

def ReaderEffect.bytes : ReaderEffect ε → Bytes
  | .polled _ (.ready b) => b
  | _ => []

/-- A poll that fails, or that reports the end: no bytes, with room for some. -/
def ReaderEffect.isEnd : ReaderEffect ε → Bool
  | .polled _ (.failed _) => true
  | .polled size (.ready b) => b.isEmpty && decide (0 < size)
  | _ => false

/-- All that was sent. -/
def sentItems (effects : List (ReaderEffect ε)) : List (Except ε Bytes) :=
  effects.filterMap ReaderEffect.item?

/-- The bytes handed out before the first error or end. -/
def delivered (effects : List (ReaderEffect ε)) : Bytes :=
  (effects.takeWhile fun effect => !effect.isEnd).flatMap ReaderEffect.bytes

/-- The thread sends the chunks that it reads. -/
theorem chunksBefore_threadSends (reads : List (Except ε Bytes)) :
    chunksBefore (threadSends reads) = chunksBefore reads := by
  induction reads with
  | nil => rfl
  | cons read reads ih =>
      cases read with
      | error e => rfl
      | ok b =>
          rw [threadSends]
          split
          · rename_i hb
            subst hb
            rfl
          · rename_i hb
            have hchunk : isChunk (.ok b : Except ε Bytes) = true := by simp [isChunk, hb]
            rw [chunksBefore, chunksBefore, List.takeWhile_cons_of_pos hchunk,
              List.takeWhile_cons_of_pos hchunk, List.flatMap_cons, List.flatMap_cons]
            exact congrArg _ ih

section Takes

variable {α : Type} {p : α → Bool} {l tail : List α}

theorem takeWhile_append_of_exists (h : ∃ a ∈ l, p a = false) :
    (l ++ tail).takeWhile p = l.takeWhile p := by
  induction l with
  | nil =>
      obtain ⟨a, ha, -⟩ := h
      cases ha
  | cons b l ih =>
      cases hb : p b with
      | false => simp [hb]
      | true =>
          have hrest : ∃ a ∈ l, p a = false := by
            obtain ⟨a, ha, hpa⟩ := h
            rcases List.mem_cons.mp ha with rfl | ha
            · rw [hb] at hpa
              cases hpa
            · exact ⟨a, ha, hpa⟩
          rw [List.cons_append, List.takeWhile_cons_of_pos hb, List.takeWhile_cons_of_pos hb, ih hrest]

theorem takeWhile_isPrefix (hfront : l <+: tail) : l.takeWhile p <+: tail.takeWhile p := by
  obtain ⟨more, rfl⟩ := hfront
  by_cases h : ∀ a ∈ l, p a = true
  · rw [List.takeWhile_append_of_pos h, List.takeWhile_eq_self_iff.mpr h]
    exact List.prefix_append l _
  · have hexists : ∃ a ∈ l, p a = false := by simpa using h
    exact ⟨[], (List.append_nil _).trans (takeWhile_append_of_exists hexists).symm⟩

end Takes

/-! ### One poll -/

variable {r : StdinReader ε} {effects : List (ReaderEffect ε)}

def StdinReader.unread (r : StdinReader ε) : Bytes := r.pending.getD []

/-- What a poll can do. -/
inductive PollStep (r : StdinReader ε) (size : Nat) : StdinReader ε → Polled ε → Prop
  | leftover {p pending} (hp : p ≠ []) (hunread : r.unread = p)
      (hpending : pending.getD [] = p.drop size) :
      PollStep r size { r with pending } (.ready (p.take size))
  | chunk {p pending rx} (hp : p ≠ []) (hunread : r.unread = []) (heof : r.eof = false)
      (hrx : r.rx = .ok p :: rx) (hpending : pending.getD [] = p.drop size) :
      PollStep r size { r with rx, pending } (.ready (p.take size))
  | ended (hunread : r.unread = []) (heof : r.eof = true) :
      PollStep r size { r with pending := none } (.ready [])
  | marker {rx} (hunread : r.unread = []) (heof : r.eof = false) (hrx : r.rx = .ok [] :: rx) :
      PollStep r size { r with rx, pending := none, eof := true } (.ready [])
  | hungUp (hunread : r.unread = []) (heof : r.eof = false) (hrx : r.rx = [])
      (hclosed : r.closed = true) :
      PollStep r size { r with pending := none, eof := true } (.ready [])
  | error {e rx} (hunread : r.unread = []) (heof : r.eof = false) (hrx : r.rx = .error e :: rx) :
      PollStep r size { r with rx, pending := none } (.failed e)
  | wait (hunread : r.unread = []) (heof : r.eof = false) :
      PollStep r size { r with pending := none } .pending

/-- The front of a chunk that fits, and what is left of it. -/
theorem front_of_chunk (p : Bytes) (size : Nat) :
    p.take (min p.length size) = p.take size ∧
      (if min p.length size < p.length then some (p.drop (min p.length size)) else none).getD [] =
        p.drop size := by
  rcases Nat.lt_or_ge size p.length with hless | hall
  · rw [Nat.min_eq_right (Nat.le_of_lt hless), if_pos hless]
    exact ⟨rfl, rfl⟩
  · rw [Nat.min_eq_left hall, if_neg (Nat.lt_irrefl _), List.take_length,
      List.take_of_length_le hall, List.drop_eq_nil_of_le hall]
    exact ⟨rfl, rfl⟩

theorem pollStep_pollRecv (size : Nat) (hunread : r.unread = []) :
    PollStep r size (StdinReader.pollRecv { r with pending := none } size).1
      (StdinReader.pollRecv { r with pending := none } size).2 := by
  unfold StdinReader.pollRecv
  split
  · rename_i heof
    exact .ended hunread heof
  · rename_i heof
    have heof : r.eof = false := by simpa using heof
    split
    · rename_i chunk rx hrx
      split
      · rename_i hchunk
        subst hchunk
        exact .marker hunread heof hrx
      · rename_i hchunk
        obtain ⟨htake, hdrop⟩ := front_of_chunk chunk size
        simp only [htake]
        exact .chunk hchunk hunread heof hrx hdrop
    · rename_i e rx hrx
      exact .error hunread heof hrx
    · rename_i hrx
      split
      · rename_i hclosed
        exact .hungUp hunread heof hrx hclosed
      · exact .wait hunread heof

theorem pollStep_pollRead (r : StdinReader ε) (size : Nat) :
    PollStep r size (r.pollRead size).1 (r.pollRead size).2 := by
  unfold StdinReader.pollRead
  split
  · rename_i p hpending
    split
    · rename_i hp
      obtain ⟨htake, hdrop⟩ := front_of_chunk p size
      simp only [htake]
      exact .leftover hp (by rw [StdinReader.unread, hpending]; rfl) hdrop
    · rename_i hp
      apply pollStep_pollRecv
      rw [StdinReader.unread, hpending]
      simpa using hp
  · rename_i hpending
    have hsame : r = { r with pending := none } := by rw [← hpending]
    have hunread : r.unread = [] := by rw [StdinReader.unread, hpending]; rfl
    have hstep := pollStep_pollRecv size hunread
    rw [← hsame] at hstep
    exact hstep

/-! ### Lists of effects -/

theorem bytes_of_isEnd {effect : ReaderEffect ε} (h : effect.isEnd = true) : effect.bytes = [] := by
  cases effect with
  | sent item => rfl
  | polled size result =>
      cases result with
      | pending => rfl
      | failed e => rfl
      | ready b =>
          simp only [ReaderEffect.isEnd, Bool.and_eq_true, List.isEmpty_iff] at h
          exact h.1

theorem sentItems_append (front rest : List (ReaderEffect ε)) :
    sentItems (front ++ rest) = sentItems front ++ sentItems rest :=
  List.filterMap_append

theorem delivered_of_quiet (h : ∀ effect ∈ effects, effect.isEnd = false) :
    delivered effects = effects.flatMap ReaderEffect.bytes := by
  rw [delivered, List.takeWhile_eq_self_iff.mpr]
  intro effect heffect
  simp [h effect heffect]

theorem delivered_append_of_end (h : ∃ effect ∈ effects, effect.isEnd = true)
    (rest : List (ReaderEffect ε)) : delivered (effects ++ rest) = delivered effects := by
  obtain ⟨effect, heffect, hend⟩ := h
  rw [delivered, takeWhile_append_of_exists ⟨effect, heffect, by simp [hend]⟩, delivered]

/-- Without an end before it, an effect adds its bytes. -/
theorem delivered_concat (h : ∀ effect ∈ effects, effect.isEnd = false) (effect : ReaderEffect ε) :
    delivered (effects ++ [effect]) = effects.flatMap ReaderEffect.bytes ++ effect.bytes := by
  cases hend : effect.isEnd with
  | false =>
      rw [delivered_of_quiet]
      · simp
      · rw [List.forall_mem_append, List.forall_mem_singleton]
        exact ⟨h, hend⟩
  | true =>
      have hall : ∀ e ∈ effects, (!e.isEnd) = true := by
        intro e he
        simp [h e he]
      rw [delivered, List.takeWhile_append_of_pos hall, bytes_of_isEnd hend]
      simp [hend]

theorem delivered_concat_nil {effect : ReaderEffect ε} (h : effect.bytes = []) :
    delivered (effects ++ [effect]) = delivered effects := by
  by_cases hend : ∃ e ∈ effects, e.isEnd = true
  · exact delivered_append_of_end hend _
  · have hquiet : ∀ e ∈ effects, e.isEnd = false := by
      intro e he
      by_contra hcontra
      exact hend ⟨e, he, by simpa using hcontra⟩
    rw [delivered_concat hquiet, delivered_of_quiet hquiet, h, List.append_nil]

theorem chunksBefore_append {taken rest : List (Except ε Bytes)}
    (h : ∀ item ∈ taken, isChunk item = true) :
    chunksBefore (taken ++ rest) = taken.flatMap itemBytes ++ chunksBefore rest := by
  rw [chunksBefore, List.takeWhile_append_of_pos h, List.flatMap_append]
  rfl

theorem chunksBefore_append_of_cut {items : List (Except ε Bytes)}
    (h : ∃ item ∈ items, isChunk item = false) (more : List (Except ε Bytes)) :
    chunksBefore (items ++ more) = chunksBefore items := by
  rw [chunksBefore, takeWhile_append_of_exists h, chunksBefore]

/-! ### Whole runs -/

/-- While neither an error nor the end was handed out: what was taken from the channel are chunks, and
they were handed out or are left over. -/
structure Live (effects : List (ReaderEffect ε)) (r : StdinReader ε) : Prop where
  eof : r.eof = false
  quiet : ∀ effect ∈ effects, effect.isEnd = false
  taken : ∃ taken, sentItems effects = taken ++ r.rx ∧ (∀ item ∈ taken, isChunk item = true) ∧
    effects.flatMap ReaderEffect.bytes ++ r.unread = taken.flatMap itemBytes

/-- Once an error or the end was taken from the channel: everything before it was handed out, and what
is handed out later does not count. -/
structure Settled (effects : List (ReaderEffect ε)) (r : StdinReader ε) : Prop where
  all : delivered effects = chunksBefore (sentItems effects)
  cut : (∃ item ∈ sentItems effects, isChunk item = false) ∨ r.closed = true
  settled : (∃ effect ∈ effects, effect.isEnd = true) ∨ r.eof = true ∧ r.unread = []

/-- Behind a report of the end, polls give nothing. -/
def QuietBehindEnd (effects : List (ReaderEffect ε)) : Prop :=
  ∀ front size rest, effects = front ++ .polled size (.ready []) :: rest → 0 < size →
    ∀ size' result, .polled size' result ∈ rest → result = .ready []

/-- Behind the end of input nothing is left over. -/
structure Quiet (effects : List (ReaderEffect ε)) (r : StdinReader ε) : Prop where
  unread : r.eof = true → r.unread = []
  reported : ∀ size, .polled size (.ready []) ∈ effects → 0 < size → r.eof = true
  later : QuietBehindEnd effects

theorem QuietBehindEnd.concat (h : QuietBehindEnd effects) (effect : ReaderEffect ε)
    (hnew : ∀ size, .polled size (.ready []) ∈ effects → 0 < size →
      ∀ size' result, effect = .polled size' result → result = .ready []) :
    QuietBehindEnd (effects ++ [effect]) := by
  intro front size rest heq hsize size' result hmem
  rcases List.eq_nil_or_concat rest with rfl | ⟨rest, last, rfl⟩
  · cases hmem
  · rw [List.concat_eq_append] at heq hmem
    rw [← List.cons_append, ← List.append_assoc] at heq
    obtain ⟨hfront, hlast⟩ := List.append_inj' heq rfl
    rcases List.mem_append.mp hmem with hold | hlatest
    · exact h front size rest hfront hsize size' result hold
    · rw [List.mem_singleton, ← (List.cons.inj hlast).1] at hlatest
      exact hnew size (by rw [hfront]; simp) hsize size' result hlatest.symm

variable {next : StdinReader ε} {result : Polled ε} {size : Nat}

/-- A poll that hands out bytes of a chunk is no end, whatever it had room for. -/
theorem isEnd_front {p : Bytes} (hp : p ≠ []) :
    (ReaderEffect.polled size (.ready (p.take size)) : ReaderEffect ε).isEnd = false := by
  cases p with
  | nil => exact absurd rfl hp
  | cons c p =>
      cases size with
      | zero => rfl
      | succ size => rfl

theorem sentItems_polled (effects : List (ReaderEffect ε)) (size : Nat) (result : Polled ε) :
    sentItems (effects ++ [.polled size result]) = sentItems effects := by
  rw [sentItems_append]
  exact List.append_nil _

/-- Nothing is left over, and what comes next in the channel is no chunk: all was handed out. -/
theorem Live.all_delivered (h : Live effects r) (hunread : r.unread = []) (hrx : chunksBefore r.rx = [])
    (hresult : (ReaderEffect.polled size result).bytes = []) :
    delivered (effects ++ [.polled size result]) =
      chunksBefore (sentItems (effects ++ [.polled size result])) := by
  obtain ⟨taken, hsent, htaken, hbytes⟩ := h.taken
  rw [hunread, List.append_nil] at hbytes
  rw [delivered_concat h.quiet, hresult, List.append_nil, sentItems_polled, hsent,
    chunksBefore_append htaken, hrx, List.append_nil, hbytes]

theorem Live.poll (h : Live effects r) (hstep : PollStep r size next result) :
    Live (effects ++ [.polled size result]) next ∨
      Settled (effects ++ [.polled size result]) next := by
  have heofR := h.eof
  obtain ⟨taken, hsent, htaken, hbytes⟩ := h.taken
  have hitems : sentItems (effects ++ [.polled size result]) = taken ++ r.rx := by
    rw [sentItems_polled, hsent]
  have hquiet' : ∀ {effect : ReaderEffect ε}, effect.isEnd = false →
      ∀ e ∈ effects ++ [effect], e.isEnd = false := by
    intro effect heffect
    rw [List.forall_mem_append, List.forall_mem_singleton]
    exact ⟨h.quiet, heffect⟩
  cases hstep with
  | @leftover p pending hp hunread hpending =>
      refine Or.inl ⟨heofR, hquiet' (isEnd_front hp), taken, hitems, htaken, ?_⟩
      have hleft : ({ r with pending } : StdinReader ε).unread = p.drop size := hpending
      rw [hleft, List.flatMap_append, List.flatMap_singleton, List.append_assoc, ← hbytes, hunread]
      exact congrArg _ (List.take_append_drop size p)
  | @chunk p pending rx hp hunread heof hrx hpending =>
      refine Or.inl ⟨heofR, hquiet' (isEnd_front hp), taken ++ [.ok p], ?_, ?_, ?_⟩
      · rw [hitems, hrx, List.append_assoc]
        rfl
      · rw [List.forall_mem_append, List.forall_mem_singleton]
        exact ⟨htaken, by simp [isChunk, hp]⟩
      · have hleft : ({ r with rx, pending } : StdinReader ε).unread = p.drop size := hpending
        rw [hunread, List.append_nil] at hbytes
        rw [hleft, List.flatMap_append, List.flatMap_singleton, List.append_assoc, hbytes,
          List.flatMap_append, List.flatMap_singleton]
        exact congrArg _ (List.take_append_drop size p)
  | ended hunread heof =>
      rw [heof] at heofR
      cases heofR
  | @marker rx hunread heof hrx =>
      refine Or.inr ⟨h.all_delivered hunread (by rw [hrx]; rfl) rfl, Or.inl ⟨.ok [], ?_, rfl⟩,
        Or.inr ⟨rfl, rfl⟩⟩
      rw [hitems, hrx]
      simp
  | hungUp hunread heof hrx hclosed =>
      exact Or.inr ⟨h.all_delivered hunread (by rw [hrx]; rfl) rfl, Or.inr hclosed, Or.inr ⟨rfl, rfl⟩⟩
  | @error e rx hunread heof hrx =>
      refine Or.inr ⟨h.all_delivered hunread (by rw [hrx]; rfl) rfl, Or.inl ⟨.error e, ?_, rfl⟩,
        Or.inl ⟨.polled size (.failed e), by simp, rfl⟩⟩
      rw [hitems, hrx]
      simp
  | wait hunread heof =>
      refine Or.inl ⟨heofR, hquiet' rfl, taken, hitems, htaken, ?_⟩
      rw [hunread] at hbytes
      rw [List.flatMap_append, List.flatMap_singleton, List.append_assoc]
      exact hbytes

/-- Behind the end a poll gives nothing. -/
theorem PollStep.behind_end (h : PollStep r size next result) (heofR : r.eof = true)
    (hunreadR : r.unread = []) : result = .ready [] ∧ next.eof = true ∧ next.unread = [] := by
  cases h with
  | leftover hp hunread _ => exact absurd (hunread.symm.trans hunreadR) hp
  | ended _ heof => exact ⟨rfl, heof, rfl⟩
  | chunk _ _ heof => simp [heof] at heofR
  | marker _ heof => simp [heof] at heofR
  | hungUp _ heof => simp [heof] at heofR
  | error _ heof => simp [heof] at heofR
  | wait _ heof => simp [heof] at heofR

theorem Settled.poll (h : Settled effects r) (hstep : PollStep r size next result) :
    Settled (effects ++ [.polled size result]) next := by
  have hitems := sentItems_polled effects size result
  have hclosed : next.closed = r.closed := by
    cases hstep <;> rfl
  obtain ⟨hall, hcut, hover⟩ := h
  rcases hover with hend | ⟨heofR, hunreadR⟩
  · refine ⟨?_, by rw [hitems, hclosed]; exact hcut, Or.inl ?_⟩
    · rw [delivered_append_of_end hend, hitems, hall]
    · obtain ⟨effect, heffect, hend⟩ := hend
      exact ⟨effect, List.mem_append_left _ heffect, hend⟩
  · obtain ⟨rfl, heofN, hunreadN⟩ := hstep.behind_end heofR hunreadR
    refine ⟨?_, by rw [hitems, hclosed]; exact hcut, Or.inr ⟨heofN, hunreadN⟩⟩
    rw [delivered_concat_nil rfl, hitems, hall]

theorem Quiet.poll (h : Quiet effects r) (hstep : PollStep r size next result) :
    Quiet (effects ++ [.polled size result]) next := by
  have hkeeps : r.eof = true → result = .ready [] ∧ next.eof = true ∧ next.unread = [] :=
    fun heof => hstep.behind_end heof (h.unread heof)
  -- a new report of the end comes from the end
  have hnew : result = .ready [] → 0 < size → next.eof = true := by
    intro hresult hsize
    have hfront : ∀ p : Bytes, p ≠ [] → p.take size ≠ [] := by
      intro p hp htake
      rw [List.take_eq_nil_iff] at htake
      rcases htake with hzero | hnil
      · omega
      · exact hp hnil
    cases hstep with
    | leftover hp _ _ => exact absurd (Polled.ready.inj hresult) (hfront _ hp)
    | chunk hp _ _ _ _ => exact absurd (Polled.ready.inj hresult) (hfront _ hp)
    | ended _ heof => exact heof
    | marker => rfl
    | hungUp => rfl
    | error => cases hresult
    | wait => cases hresult
  refine ⟨fun heof => ?_, fun size' hmem hsize => ?_, h.later.concat _ ?_⟩
  · by_cases heofR : r.eof = true
    · exact (hkeeps heofR).2.2
    · cases hstep with
      | ended => rfl
      | marker => rfl
      | hungUp => rfl
      | leftover => exact absurd heof heofR
      | chunk => exact absurd heof heofR
      | error => exact absurd heof heofR
      | wait => exact absurd heof heofR
  · rcases List.mem_append.mp hmem with hold | hlast
    · exact (hkeeps (h.reported size' hold hsize)).2.1
    · obtain ⟨rfl, rfl⟩ := ReaderEffect.polled.inj (List.mem_singleton.mp hlast)
      exact hnew rfl hsize
  · intro size' hmem hsize size'' result' heq
    obtain ⟨-, rfl⟩ := ReaderEffect.polled.inj heq
    exact (hkeeps (h.reported size' hmem hsize)).1

/-! The channel takes what is sent as long as its sender is there. -/

section Send

variable {item : Except ε Bytes}

theorem Live.send (h : Live effects r) (item : Except ε Bytes) :
    Live (effects ++ [.sent item]) { r with rx := r.rx ++ [item] } := by
  obtain ⟨heof, hquiet, taken, hsent, htaken, hbytes⟩ := h
  refine ⟨heof, ?_, taken, ?_, htaken, ?_⟩
  · rw [List.forall_mem_append, List.forall_mem_singleton]
    exact ⟨hquiet, rfl⟩
  · rw [sentItems_append, hsent, List.append_assoc]
    rfl
  · have hnone : (ReaderEffect.sent item).bytes = [] := rfl
    rw [List.flatMap_append, List.flatMap_singleton, hnone, List.append_nil]
    exact hbytes

theorem Settled.send (h : Settled effects r) (hopen : r.closed = false) (item : Except ε Bytes) :
    Settled (effects ++ [.sent item]) { r with rx := r.rx ++ [item] } := by
  obtain ⟨hall, hcut, hover⟩ := h
  have hcut : ∃ item ∈ sentItems effects, isChunk item = false := by
    rcases hcut with hcut | hclosed
    · exact hcut
    · rw [hopen] at hclosed
      cases hclosed
  refine ⟨?_, Or.inl ?_, ?_⟩
  · rw [delivered_concat_nil rfl, sentItems_append, chunksBefore_append_of_cut hcut, hall]
  · obtain ⟨other, hmem, hother⟩ := hcut
    exact ⟨other, by rw [sentItems_append]; exact List.mem_append_left _ hmem, hother⟩
  · rcases hover with ⟨effect, hmem, hend⟩ | hover
    · exact Or.inl ⟨effect, List.mem_append_left _ hmem, hend⟩
    · exact Or.inr hover

theorem Quiet.send (h : Quiet effects r) (item : Except ε Bytes) :
    Quiet (effects ++ [.sent item]) { r with rx := r.rx ++ [item] } := by
  refine ⟨h.unread, fun size hmem hsize => ?_, h.later.concat _ ?_⟩
  · rcases List.mem_append.mp hmem with hold | hlast
    · exact h.reported size hold hsize
    · cases List.mem_singleton.mp hlast
  · intro size _ _ size' result heq
    cases heq

end Send

/-- What holds of the effects of a run and of the reader behind it. -/
def Reassembled (effects : List (ReaderEffect ε)) (r : StdinReader ε) : Prop :=
  (Live effects r ∨ Settled effects r) ∧ Quiet effects r

theorem Reassembled.step (h : Reassembled effects r) (event : ReaderEvent ε) :
    Reassembled (effects ++ (r.step event).2) (r.step event).1 := by
  obtain ⟨hmain, hquiet⟩ := h
  cases event with
  | send item =>
      rw [StdinReader.step]
      split
      · rw [List.append_nil]
        exact ⟨hmain, hquiet⟩
      · rename_i hroom
        have hopen : r.closed = false := by simpa using fun hclosed => hroom (Or.inl hclosed)
        exact ⟨hmain.imp (·.send item) (·.send hopen item), hquiet.send item⟩
  | hangUp =>
      rw [StdinReader.step, List.append_nil]
      refine ⟨hmain.imp (fun h => ?_) (fun h => ?_), ⟨hquiet.unread, hquiet.reported, hquiet.later⟩⟩
      · exact ⟨h.eof, h.quiet, h.taken⟩
      · exact ⟨h.all, Or.inr rfl, h.settled⟩
  | poll size =>
      have hstep := pollStep_pollRead r size
      refine ⟨?_, hquiet.poll hstep⟩
      rcases hmain with hlive | hsettled
      · exact hlive.poll hstep
      · exact Or.inr (hsettled.poll hstep)

theorem reassembled_new : Reassembled [] (.new : StdinReader ε) := by
  refine ⟨Or.inl ⟨rfl, by simp, [], rfl, by simp, rfl⟩, ⟨fun _ => rfl, by simp, ?_⟩⟩
  intro front size rest heq
  simp at heq

theorem Reassembled.isPrefix (h : Reassembled effects r) :
    delivered effects <+: chunksBefore (sentItems effects) := by
  rcases h.1 with ⟨-, hquiet, taken, hsent, htaken, hbytes⟩ | hsettled
  · rw [delivered_of_quiet hquiet, hsent, chunksBefore_append htaken, ← hbytes, List.append_assoc]
    exact List.prefix_append _ _
  · exact ⟨[], (List.append_nil _).trans hsettled.all⟩

variable {history : List (Machine.Record (StdinReader ε) (ReaderEvent ε) (ReaderEffect ε))} {now : Nat}

/-- **Standard input arrives in order.** In every run, the bytes handed out before the first error or
end are the front of the chunks sent before the first error or end of the thread, and all of them once
an error or the end was handed out; behind the end, nothing is handed out. Sent by the thread, the
chunks are what it read. -/
theorem stdinReader_reassembles (hrun : (readerMachine ε).Run history r now) :
    let effects := history.flatMap (·.sent)
    delivered effects <+: chunksBefore (sentItems effects) ∧
      ((∃ effect ∈ effects, effect.isEnd = true) →
        delivered effects = chunksBefore (sentItems effects)) ∧
      QuietBehindEnd effects ∧
      ∀ reads, sentItems effects <+: threadSends reads → delivered effects <+: chunksBefore reads := by
  intro effects
  have h : Reassembled effects r := by
    refine hrun.inv (G := fun _ _ => True)
      (I := fun history r _ => Reassembled (history.flatMap (·.sent)) r) ?_ ?_ fun _ _ => trivial
    · exact reassembled_new
    · intro history r now event _ _ _ h
      rw [List.flatMap_append, List.flatMap_singleton]
      exact h.step event
  refine ⟨h.isPrefix, fun ⟨effect, heffect, hend⟩ => ?_, h.2.later, fun reads hreads => ?_⟩
  · rcases h.1 with hlive | hsettled
    · rw [hlive.quiet effect heffect] at hend
      cases hend
    · exact hsettled.all
  · have hchunks : chunksBefore (sentItems effects) <+: chunksBefore (threadSends reads) := by
      obtain ⟨more, hmore⟩ := takeWhile_isPrefix (p := isChunk) hreads
      rw [chunksBefore, chunksBefore, ← hmore, List.flatMap_append]
      exact List.prefix_append _ _
    rw [← chunksBefore_threadSends reads]
    exact h.isPrefix.trans hchunks

/-- A chunk of three bytes, read with no room, with too little and with too much, and the end. -/
def unevenReads : List (ReaderEvent Unit) :=
  [.send (.ok (ascii "xyz")), .poll 0, .poll 2, .send (.ok []), .hangUp, .poll 5, .poll 5]

theorem stdinReader_reassembles_uneven :
    let effects := ((readerMachine Unit).trace .new unevenReads).flatMap (·.sent)
    (∃ effect ∈ effects, effect.isEnd = true) ∧ delivered effects = ascii "xyz" := by
  intro effects
  have hordered : (readerMachine Unit).Ordered 0 unevenReads := by decide
  obtain ⟨-, hall, -⟩ := stdinReader_reassembles ((readerMachine Unit).run_exec hordered)
  have hend : ∃ effect ∈ effects, effect.isEnd = true := List.any_eq_true.mp (by decide)
  exact ⟨hend, (hall hend).trans (by decide)⟩

end Qvole.Pipe
