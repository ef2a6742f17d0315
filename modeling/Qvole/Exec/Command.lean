import Qvole.Lib.Utf8

/-!
# Commands

How `exec.rs` splits the command it runs into arguments, at blanks outside of quotes.
-/

namespace Qvole.Exec

/-- `owned_string`: the bytes as text, with what is not UTF-8 replaced. -/
def ownedString (bytes : Bytes) : Bytes :=
  if Bytes.isUtf8 bytes then bytes else Bytes.fromUtf8Lossy bytes

/-- The variables of the loop; `started` once a byte or a quote belongs to the current argument. -/
structure SplitState where
  args : List Bytes
  current : Bytes
  started : Bool
  inSingle : Bool
  inDouble : Bool
  deriving DecidableEq, Repr

def SplitState.init : SplitState :=
  { args := [], current := [], started := false, inSingle := false, inDouble := false }

def SplitState.step (st : SplitState) (c : UInt8) : SplitState :=
  if st.inSingle then
    if c = 39 then { st with inSingle := false } else { st with current := st.current ++ [c] }
  else if st.inDouble then
    if c = 34 then { st with inDouble := false } else { st with current := st.current ++ [c] }
  else if c = 39 then { st with inSingle := true, started := true }
  else if c = 34 then { st with inDouble := true, started := true }
  else if c = 32 ∨ c = 9 then
    if st.started then
      { st with args := st.args ++ [ownedString st.current], current := [], started := false }
    else st
  else { st with current := st.current ++ [c], started := true }

/-- The arguments of a command, or `none` for a quote that is not closed. -/
def splitCommand (s : Bytes) : Option (List Bytes) :=
  let st := s.foldl SplitState.step .init
  if st.inSingle || st.inDouble then none
  else if st.started then some (st.args ++ [ownedString st.current])
  else some st.args

end Qvole.Exec
