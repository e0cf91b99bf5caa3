import NobugDb.Core.Dispatch
import NobugDb.Network.Connection

/-!
# Serving connections

`Connection::run` (`server.cc:120-176`) beside the database it serves. Each connection has a session
of its own. A message is read when the one before it has been handled, and the connection ends when
`recv` returns nothing, when it fails, and after QUIT. Nothing is done to the session then: the
connection is taken from the list of connections (`server.cc:295-302`).
-/

namespace NobugDb

open Connection (Handler handlerOf)

/-- The database with the calls in progress, and which connections have not ended. -/
structure Serving where
  dispatcher : Dispatcher
  active : Nat → Bool := fun _ => true

namespace Serving

/-- What can happen next. -/
inductive Event where
  /-- `read_message` returns on a connection, with no bytes when `recv` returns 0 or fails. `sends`
      is whether the reply can be sent, and `work` the statement of a query that is let through by
      the handler. -/
  | receive (s : Nat) (message : Wire) (sends : Bool) (work : Option (Functions × Command))
  /-- The call of a connection goes on, over storage that may fail. -/
  | resume (s : Nat) (storage : Storage)
  /-- A turn of `run_vacuum_worker`. -/
  | vacuumWorker

/-- The database that is served. -/
def db (sv : Serving) : Database := sv.dispatcher.db

/-- The loop of `Connection::run` ends. -/
def close (sv : Serving) (s : Nat) : Serving :=
  { sv with active := Function.update sv.active s false }

/-- The handlers of `Connection::run` (`server.cc:140-153`). -/
def handle (sv : Serving) (s : Nat) (sends : Bool) (work : Option (Functions × Command)) :
    Handler → Serving
  | .query | .rpcQuery =>
    match work with
    | none => sv
    | some (fns, command) => { sv with dispatcher := sv.dispatcher.step (.call fns s command) }
  -- an exception of `send_message` comes before `active_ = false`
  | .quit => if sends then sv.close s else sv
  | .auth | .ping | .unknown => sv

/-- One event. -/
def step (sv : Serving) : Event → Serving
  | .receive s message sends work =>
    if sv.active s && (sv.dispatcher.calls s).isNone then
      if message = [] then sv.close s
      else
        match Protocol.parseRequest message with
        | .ok request => sv.handle s sends work (handlerOf request)
        | .error _ => sv
    else sv
  | .resume s storage => { sv with dispatcher := sv.dispatcher.step (.resume s storage) }
  | .vacuumWorker => { sv with dispatcher := sv.dispatcher.step .vacuumWorker }

end Serving

end NobugDb
