import Qvole.Tunnel.Proof.Reading

/-!
# The grammar of request lines

A reference for `read_requests_from_stream` that never sees a chunk, a buffer or a position: the bytes
are cut at every LF, and the lines are looked at one after the other. The reader returns what the
reference says, for every way the bytes may come in.
-/

namespace Qvole.Tunnel

open Outcome (fail)

/-! ### The reference -/

end Qvole.Tunnel
