import Qvole.Exchange.Loop

/-!
# The peer's address

What `connect_inner` makes of the address text that the exchange returned: it has to be a literal
address that datagrams can be sent to.
-/

namespace Qvole.Exchange

inductive ConnectError where
  | resolvePeer
  | invalidPeerAddr (peerAddrStr : String)
  deriving DecidableEq, Repr

/-- Not an address to send to. -/
def invalidPeer (addr : SocketAddr) : Bool :=
  addr.ip.isUnspecified || addr.ip.isMulticast || addr.ip = .v4 .broadcast || addr.port = 0

def peerUdpAddr (peerAddrStr : String) : Outcome ConnectError SocketAddr :=
  match SocketAddr.parse (asBytes peerAddrStr) with
  | none => .fail .resolvePeer
  | some addr => if invalidPeer addr then .fail (.invalidPeerAddr peerAddrStr) else .ok addr

end Qvole.Exchange
