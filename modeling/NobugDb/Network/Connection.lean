import NobugDb.Network.Protocol
import NobugDb.Core.ShardMap

/-!
# Connections

How the two ends of a connection read from it. A TCP stream keeps no boundaries: what one call of
`recv` returns is any number of the next bytes, at most as many as it has room for. The server
takes each such chunk for one request (`server.cc:120-189`), and the coordinator takes the first
one for a worker's whole reply (`tcp_client.cc:10-31`).
-/

namespace NobugDb

open Protocol (Request)

/-- What calls of `recv` with room for `room` bytes return, one after another, when these bytes
    have been sent. -/
structure Received (room : Nat) (chunks : List Wire) (bytes : Wire) : Prop where
  whole : chunks.flatten = bytes
  nonempty : ∀ chunk ∈ chunks, chunk ≠ []
  fits : ∀ chunk ∈ chunks, chunk.length ≤ room

/-- One call of `recv`, with nothing left when the other side has closed: its bytes, none when it
    returns 0, and what later calls return. -/
def recv : List Wire → Wire × List Wire
  | [] => ([], [])
  | chunk :: chunks => (chunk, chunks)

namespace Connection

/-- `kMaxRequestBytes` of `read_message`. -/
def kMaxRequestBytes : Nat := 2 ^ 20

/-- The room `read_message` gives `recv`. -/
def room : Nat := kMaxRequestBytes - 1

/-- The handlers of `Connection::run` by the type of a request (`server.cc:140-153`). -/
inductive Handler where
  | auth | query | rpcQuery | ping | quit | unknown
  deriving DecidableEq

/-- The handler of a request. -/
def handlerOf (request : Request) : Handler :=
  if request.type = "AUTH".toList then .auth
  else if request.type = "QUERY".toList then .query
  else if request.type = "RPC_QUERY".toList then .rpcQuery
  else if request.type = "PING".toList then .ping
  else if request.type = "QUIT".toList then .quit
  else .unknown

/-- `active_` after a message was handled: QUIT clears it. -/
def staysActive : Except String Request → Bool
  | .ok request => handlerOf request ≠ .quit
  | .error _ => true

/-- `Connection::run` (`server.cc:120-176`): what it handles, a request or the error of a message
    that is none. Each message is handled before the next is read. -/
def run : List Wire → List (Except String Request)
  | [] => []
  | message :: chunks =>
    if message = [] then []
    else
      Protocol.parseRequest message ::
        (if staysActive (Protocol.parseRequest message) then run chunks else [])

end Connection

/-- The room `tcp_exchange` gives `recv`. -/
def tcpRoom : Nat := 8192 - 1

/-- `tcp_exchange` (`tcp_client.cc:10-31`) on what the other side's reply comes in. -/
def tcpExchange (chunks : List Wire) : Wire := (recv chunks).1

/-- `TcpRpcClient::executeQuery` (`tcp_rpc_client.cc:8-20`) on what the worker's reply comes in. -/
def TcpRpcClient.executeQuery (endpoint : ShardEndpoint) (chunks : List Wire) : QueryResult :=
  let raw := tcpExchange chunks
  if raw.isEmpty then
    .errorResult ("RPC failed: no response from shard " ++ toString endpoint.shardId)
  else Protocol.parseQueryResult raw

end NobugDb
