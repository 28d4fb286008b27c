import ElasticCache.Error
import ElasticCache.Http.SocketAddress
import ElasticCache.Metrics

/-!
# Pages of the probe and metrics servers

What the two servers of a fleet answer on each path, and the addresses they listen on.
-/

namespace ElasticCache

/-- An answer of a server. -/
structure Page where
  status : Nat
  contentType : Option String := none
  body : String
  deriving DecidableEq, Repr

namespace Page

/-- The path of a request target, which ends where a query starts. -/
def pathOf (target : String) : String := String.ofList (target.toList.takeWhile (· ≠ '?'))

/-- The answer on an unknown path. -/
def notFound : Page := { status := 404, body := "not found" }

/-- The answer of a server that is well. -/
def fine : Page := { status := 200, body := "ok" }

/-- The answer of the probe server. It is alive always, and ready when it was told so. -/
def probe (isReady : Bool) (target : String) : Page :=
  match pathOf target with
  | "/healthz" => fine
  | "/livez" => fine
  | "/readyz" => if isReady then fine else { status := 503, body := "not ready" }
  | _ => notFound

/-- The answer of the metrics server. -/
def metrics (m : Metrics) (target : String) : Page :=
  if pathOf target = "/metrics" then
    { status := 200
      contentType := some "text/plain; version=0.0.4"
      body := String.join (m.lines.map (· ++ "\n")) }
  else notFound

end Page

/-- The servers of a fleet. -/
inductive PageServer where
  | probes
  | metrics
  deriving DecidableEq, Repr

/-- The name of a server. -/
def PageServer.name : PageServer → String
  | .probes => "Health server"
  | .metrics => "Metrics server"

/-- The address at which a server listens when it is told to by a text. -/
def PageServer.listen (server : PageServer) (text : String) : Except Error SocketAddress :=
  match SocketAddress.parse? text with
  | none =>
    .error (.config s!"Invalid {server.name} address {text}: invalid socket address syntax")
  | some address =>
    match address.host.refusal? with
    | some failure => .error (.internal s!"Failed to bind {server.name}: {failure.message}")
    | none => .ok address

end ElasticCache
