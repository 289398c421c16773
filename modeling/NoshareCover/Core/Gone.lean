import NoshareCover.Core.Extra

/-!
# "Going away"

A client can leave a callback that is called once when the plugin is unloaded.  The list of them is
taken out before the first one is called, so a callback may call the API itself, for its own client
or for others.
-/

namespace NoshareCover

namespace Extra

/-- The address of a callback. -/
abbrev GoneCb := ℕ

structure Gone where
  client : ℕ
  cb : GoneCb
  /-- The pointer that the callback gets. -/
  user : ℕ
  /-- Which of the calls that set a callback it is from.  No function reads it. -/
  serial : ℕ
  deriving DecidableEq, Repr

/-- `CLIENTS` and `GONE`. -/
structure Api where
  clients : Clients
  gone : List Gone
  /-- How many callbacks were set so far. -/
  sets : ℕ
  deriving DecidableEq, Repr

/-- A call of the API, by a plugin or by one of its callbacks. -/
inductive Api.Call where
  | clients (call : Clients.Call)
  | setGoneCallback (client : ℕ) (cb : Option GoneCb) (user : ℕ)
  deriving DecidableEq, Repr

namespace Api

def init : Api := { clients := Clients.init, gone := [], sets := 0 }

def unregister (s : Api) (id : ℕ) : Api :=
  { s with clients := s.clients.unregister id, gone := s.gone.filter (·.client ≠ id) }

/-- `false` if the client doesn't exist; no callback (NULL) takes back the one that was set. -/
def setGoneCallback (s : Api) (client : ℕ) (cb : Option GoneCb) (user : ℕ) : Api × Bool :=
  if (Clients.clientMut client id s.clients.list).isNone then (s, false)
  else
    let gone := s.gone.filter (·.client ≠ client)
    match cb with
    | none => ({ s with gone }, true)
    | some cb =>
      ({ s with gone := gone ++ [{ client, cb, user, serial := s.sets }], sets := s.sets + 1 },
        true)

def call (s : Api) : Call → Api × Clients.Reply
  | .clients (.unregister id) => (s.unregister id, .done)
  | .clients call => ({ s with clients := (s.clients.step call).1 }, (s.clients.step call).2)
  | .setGoneCallback client cb user =>
    ((s.setGoneCallback client cb user).1, .written (s.setGoneCallback client cb user).2)

end Api

/-! ### What happened -/

inductive Mark where
  | set (g : Gone)
  /-- `unregister`, or `setGoneCallback` with NULL, has returned for the client. -/
  | takenBack (client : ℕ)
  | called (g : Gone)
  deriving DecidableEq, Repr

def Api.Call.mark (s : Api) : Api.Call → Option Mark
  | .clients (.unregister id) => some (.takenBack id)
  | .clients _ => none
  | .setGoneCallback client none _ => some (.takenBack client)
  | .setGoneCallback client (some cb) user =>
    if (s.setGoneCallback client (some cb) user).2 then
      some (.set { client, cb, user, serial := s.sets })
    else none

/-- The API, and what happened to callbacks so far, the newest first. -/
structure Session where
  api : Api
  past : List Mark
  deriving DecidableEq, Repr

namespace Session

def init : Session := { api := Api.init, past := [] }

def call (w : Session) (c : Api.Call) : Session :=
  { api := (w.api.call c).1, past := (c.mark w.api).toList ++ w.past }

/-- The callback is called. -/
def fire (w : Session) (g : Gone) : Session := { w with past := .called g :: w.past }

/-- The loop of `notifyGone` over the list that it took out.  `made` are the calls of the API that
the callbacks make, one after another. -/
def walk : List Gone → List (List Api.Call) → Session → Session
  | [], _, w => w
  | g :: list, made, w => walk list made.tail ((made.headD []).foldl call (w.fire g))

/-- Send "going away" to all clients. -/
def notifyGone (w : Session) (made : List (List Api.Call)) : Session :=
  walk w.api.gone made { w with api := { w.api with gone := [] } }

end Session

inductive Event where
  | call (c : Api.Call)
  | notifyGone (made : List (List Api.Call))
  deriving DecidableEq, Repr

/-- A call from outside of callbacks, or the whole of a notification. -/
def Session.step (w : Session) : Event → Session × Clients.Reply
  | .call c => (w.call c, (w.api.call c).2)
  | .notifyGone made => (w.notifyGone made, .done)

end Extra

end NoshareCover
