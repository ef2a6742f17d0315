import Qvole.Tunnel.Config

/-!
# Reading does not depend on the chunks

The buffer of the line reader is projected to the bytes it has not used. What a read of a line, of
the accept line or of all requests returns is then a function of these bytes and of how the stream
ends, so that a reader may think of the stream as one byte string that is cut at its LFs.
-/

namespace Qvole.Tunnel

open Outcome (fail expect mapErr)

variable {ending : Ending} {reader : LineReader} {source : Source} {line b rest : Bytes}

/-! ### Lines -/

/-- What a reader of lines meets behind the last byte. -/
def lineAtEnd (ending : Ending) (line : Bytes) : Outcome TunnelRequestError (Bytes × Bytes) :=
  match ending with
  | .fin => .ok (line, [])
  | .reset => fail .readFailed
  | .silent => .error .unfinished

/-- One line of a byte string, read behind the bytes `line`, and what follows it. -/
def cutLine (ending : Ending) (line b : Bytes) : Outcome TunnelRequestError (Bytes × Bytes) :=
  let (front, rest) := Bytes.splitOnce 10 b
  if (line ++ front).length > scannerMaxTokenSize then fail .tokenTooLong
  else
    match rest with
    | some rest => .ok (line ++ front ++ [10], rest)
    | none => lineAtEnd ending (line ++ front)

theorem unread_start (source : Source) : (LineReader.start source).unread = source.bytes := by
  simp [LineReader.start, LineReader.unread]

theorem take_eq (reader : LineReader) {c : UInt8} {tail : Bytes}
    (h : reader.chunk.drop reader.pos = c :: tail) :
    reader.take = .ok (some c, { reader with pos := reader.pos + 1 }) ∧
      reader.chunk.drop (reader.pos + 1) = tail := by
  have hget : reader.chunk[reader.pos]? = some c := by
    rw [← List.head?_drop, h]
    rfl
  refine ⟨by rw [LineReader.take, hget]; rfl, ?_⟩
  rw [← List.drop_drop, h]
  rfl

/-- **The buffer.** Either the stream is used up or the next byte of it is taken, whichever read
brought it. -/
theorem nextByte_cases (ending : Ending) (reader : LineReader) :
    (reader.unread = [] ∧
        (reader.nextByte ending).map (fun next => (next.1, next.2.unread)) =
          (lineAtEnd ending []).map (fun next => (none, next.2))) ∨
      ∃ c next, reader.nextByte ending = .ok (some c, next) ∧
        reader.unread = c :: next.unread := by
  unfold LineReader.nextByte
  by_cases hpos : reader.pos ≥ reader.chunk.length
  · have hdrop : reader.chunk.drop reader.pos = [] := List.drop_eq_nil_of_le hpos
    have hunread : reader.unread = reader.source.bytes := by
      rw [LineReader.unread, hdrop, List.nil_append]
    simp only [if_pos hpos, hunread]
    rcases reader.source.read_cases (show 0 < chunkSize by decide) with
      ⟨hread, hbytes⟩ | ⟨c, got, rest, hread, -, hbytes⟩
    · refine Or.inl ⟨hbytes, ?_⟩
      rw [hread]
      cases ending with
      | fin => simp [Except.map, LineReader.unread, lineAtEnd, hbytes]
      | reset => rfl
      | silent => rfl
    · obtain ⟨htake, hrest⟩ := take_eq ⟨c :: got, 0, rest⟩ rfl
      refine Or.inr ⟨c, _, by rw [hread]; exact htake, ?_⟩
      rw [hbytes, LineReader.unread, hrest]
  · have hlt : reader.pos < reader.chunk.length := Nat.lt_of_not_le hpos
    obtain ⟨htake, hrest⟩ := take_eq reader (List.drop_eq_getElem_cons hlt)
    simp only [if_neg hpos]
    refine Or.inr ⟨_, _, htake, ?_⟩
    rw [LineReader.unread, List.drop_eq_getElem_cons hlt, List.cons_append]
    rfl

theorem cutLine_cons {c : UInt8} (hc : c ≠ 10) (hline : line.length ≤ scannerMaxTokenSize) :
    cutLine ending line (c :: b) =
      if line.length ≥ scannerMaxTokenSize then fail .tokenTooLong
      else cutLine ending (line ++ [c]) b := by
  have hsplit : Bytes.splitOnce 10 (c :: b) =
      (c :: (Bytes.splitOnce 10 b).1, (Bytes.splitOnce 10 b).2) := by
    rw [Bytes.splitOnce, if_neg hc]
  simp only [cutLine, hsplit, List.append_assoc, List.singleton_append]
  by_cases hfull : line.length ≥ scannerMaxTokenSize
  · have hlong : (line ++ c :: (Bytes.splitOnce 10 b).1).length > scannerMaxTokenSize := by
      rw [List.length_append, List.length_cons]
      omega
    rw [if_pos hfull, if_pos hlong]
  · rw [if_neg hfull]

theorem readLineFrom_eq (fuel : Nat) (hfuel : reader.unread.length < fuel)
    (hline : line.length ≤ scannerMaxTokenSize) :
    (readLineFrom ending fuel line reader).map (fun result => (result.1, result.2.unread)) =
      cutLine ending line reader.unread := by
  induction fuel generalizing line reader with
  | zero => omega
  | succ fuel ih =>
      rw [readLineFrom]
      rcases nextByte_cases ending reader with ⟨hunread, hnext⟩ | ⟨c, next, hnext, hunread⟩
      · have hshort : ¬ line.length > scannerMaxTokenSize := Nat.not_lt_of_le hline
        have hcut : cutLine ending line reader.unread = lineAtEnd ending line := by
          simp [hunread, cutLine, Bytes.splitOnce, hshort]
        rw [hcut]
        cases hresult : reader.nextByte ending with
        | error fault =>
            rw [hresult] at hnext
            cases ending <;> cases hnext <;> rfl
        | ok next =>
            rw [hresult] at hnext
            cases ending with
            | fin =>
                obtain ⟨hnone, hend⟩ := Prod.mk.inj (Except.ok.inj hnext)
                rw [Outcome.ok_bind]
                obtain ⟨c, next⟩ := next
                subst hnone
                exact congrArg (fun rest => Except.ok (line, rest)) hend
            | reset => cases hnext
            | silent => cases hnext
      · rw [hnext, hunread, Outcome.ok_bind]
        by_cases hc : c = 10
        · have hshort : ¬ line.length > scannerMaxTokenSize := Nat.not_lt_of_le hline
          simp [hc, cutLine, Bytes.splitOnce, hshort, Except.map, pure, Except.pure]
        · have hnextFuel : next.unread.length < fuel := by
            rw [hunread, List.length_cons] at hfuel
            omega
          simp only [hc, if_false]
          rw [cutLine_cons hc hline]
          by_cases hfull : line.length ≥ scannerMaxTokenSize
          · rw [if_pos hfull, if_pos hfull]
            rfl
          · rw [if_neg hfull, if_neg hfull]
            apply ih hnextFuel
            rw [List.length_append, List.length_singleton]
            omega

theorem readLine_eq (ending : Ending) (reader : LineReader) :
    (reader.readLine ending).map (fun result => (result.1, result.2.unread)) =
      cutLine ending [] reader.unread :=
  readLineFrom_eq _ (Nat.lt_succ_self _) (Nat.zero_le _)

/-! ### Requests -/

/-- The requests of a byte string, behind the requests `reqs`. -/
def requestsOf (ending : Ending) : Nat → List TunnelRequest → Bytes →
    Outcome TunnelRequestError (List TunnelRequest)
  | 0, _, _ => .error .unfinished
  | fuel + 1, reqs, b => do
      let (line, rest) ← cutLine ending [] b
      if line = [] then return reqs
      else if stripEol line = ascii "END" then return reqs
      else if reqs.length ≥ maxTunnelRequests then fail .tooMany
      else
        let req ← parseRequestLine (stripEol line)
        requestsOf ending fuel (reqs ++ [req]) rest

theorem readRequestsFrom_eq (fuel : Nat) (reqs : List TunnelRequest) (reader : LineReader) :
    readRequestsFrom ending fuel reqs reader = requestsOf ending fuel reqs reader.unread := by
  induction fuel generalizing reqs reader with
  | zero => rfl
  | succ fuel ih =>
      rw [readRequestsFrom, requestsOf, ← readLine_eq ending reader]
      cases reader.readLine ending with
      | error fault => rfl
      | ok result =>
          obtain ⟨line, next⟩ := result
          simp only [Except.map, Outcome.ok_bind, ih]

/-- **Reading does not depend on the chunks.** What the requests are read as is decided by the bytes
of the stream and by how it ends. -/
theorem readRequestsFromStream_eq (ending : Ending) (source : Source) :
    readRequestsFromStream ending source =
      requestsOf ending (source.bytes.length + 1) [] source.bytes := by
  rw [readRequestsFromStream, readRequestsFrom_eq, unread_start]

/-! ### The accept line -/

theorem readAcceptFrom_line (ending : Ending) {front : Bytes} (hfront : 10 ∉ front)
    (hlen : (line ++ front).length ≤ scannerMaxTokenSize) (fuel : Nat)
    (hfuel : front.length < fuel) (hbytes : source.bytes = front ++ 10 :: rest) :
    ∃ next, readAcceptFrom ending fuel line source = .ok (line ++ front, next) ∧
      next.bytes = rest := by
  induction front generalizing line source fuel with
  | nil =>
      obtain ⟨fuel, rfl⟩ := Nat.exists_eq_succ_of_ne_zero (Nat.ne_of_gt hfuel)
      rcases source.read_cases (show 0 < 1 by decide) with
        ⟨-, hnone⟩ | ⟨c, got, next, hread, hgot, hcons⟩
      · simp [hnone] at hbytes
      · obtain rfl : got = [] := by simpa using hgot
        rw [hbytes, List.nil_append, List.nil_append, List.cons.injEq] at hcons
        obtain ⟨rfl, hrest⟩ := hcons
        refine ⟨next, ?_, hrest.symm⟩
        simp [readAcceptFrom, hread, expect, pure, Except.pure]
  | cons d front ih =>
      obtain ⟨fuel, rfl⟩ := Nat.exists_eq_succ_of_ne_zero (Nat.ne_zero_of_lt hfuel)
      rcases source.read_cases (show 0 < 1 by decide) with
        ⟨-, hnone⟩ | ⟨c, got, next, hread, hgot, hcons⟩
      · simp [hnone] at hbytes
      · obtain rfl : got = [] := by simpa using hgot
        rw [hbytes, List.nil_append, List.cons_append, List.cons.injEq] at hcons
        obtain ⟨rfl, hrest⟩ := hcons
        have hd : d ≠ 10 := fun heq => hfront (heq ▸ List.mem_cons_self)
        have hroom : ¬ line.length ≥ scannerMaxTokenSize := by
          rw [List.length_append, List.length_cons] at hlen
          omega
        have hlonger : (line ++ [d] ++ front).length ≤ scannerMaxTokenSize := by simpa using hlen
        obtain ⟨last, hlast, hlastBytes⟩ := ih (fun hmem => hfront (List.mem_cons_of_mem d hmem))
          hlonger fuel (Nat.lt_of_succ_lt_succ hfuel) hrest.symm
        refine ⟨last, ?_, hlastBytes⟩
        simpa [readAcceptFrom, hread, expect, hd, hroom] using hlast

end Qvole.Tunnel
