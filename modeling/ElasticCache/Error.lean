/-!
# Errors

What can go wrong in an operation of the fleet, as causes, and the one wording of each.
-/

namespace ElasticCache

/-- Why the operating system refused an operation on a file or a connection. -/
inductive IoFailure where
  /-- The data ended before all requested bytes were read. -/
  | unexpectedEof
  /-- A file was expected where a directory is. -/
  | isADirectory
  /-- No route leads to the peer. -/
  | networkUnreachable
  /-- The address is not one of this host. -/
  | addressNotAvailable
  /-- The request makes no sense for what it was made to. -/
  | invalidArgument
  /-- There is no network device of the number. -/
  | noSuchDevice
  /-- A failure known by its text only. -/
  | other (text : String)
  deriving DecidableEq, Repr

/-- The text of an input or output failure. -/
def IoFailure.message : IoFailure → String
  | .unexpectedEof => "failed to fill whole buffer"
  | .isADirectory => "Is a directory (os error 21)"
  | .networkUnreachable => "Network is unreachable (os error 101)"
  | .addressNotAvailable => "Cannot assign requested address (os error 99)"
  | .invalidArgument => "Invalid argument (os error 22)"
  | .noSuchDevice => "No such device (os error 19)"
  | .other text => text

/-- The cause of a failed operation. -/
inductive Error where
  /-- A file or a connection failed. -/
  | io (failure : IoFailure)
  /-- A configuration value is not usable. -/
  | config (text : String)
  /-- An instance failed for reasons of its own. -/
  | internal (text : String)
  /-- A metric could not be registered. -/
  | metrics (text : String)
  /-- No tier can hold an entry of this size. -/
  | capacity (size : Nat)
  /-- A key is longer than the limit. -/
  | keyTooLarge (size max : Nat)
  /-- A value is longer than the limit. -/
  | valueTooLarge (size max : Nat)
  /-- An instance did not answer. -/
  | unavailable (uid : Nat) (reason : String)
  /-- An instance did not answer in time. -/
  | timeout (uid milliseconds : Nat)
  /-- A client sent a malformed request. -/
  | protocol (text : String)
  deriving DecidableEq, Repr

/-- The text of an error. -/
def Error.message : Error → String
  | .io failure => s!"I/O error: {failure.message}"
  | .config text => s!"Configuration error: {text}"
  | .internal text => s!"Internal error: {text}"
  | .metrics text => s!"Metrics error: Error: {text}"
  | .capacity size => s!"No capacity left for entry of {size} bytes"
  | .keyTooLarge size max => s!"Key of {size} bytes exceeds the {max} byte limit"
  | .valueTooLarge size max => s!"Value of {size} bytes exceeds the {max} byte limit"
  | .unavailable uid reason => s!"Instance {uid} unavailable: {reason}"
  | .timeout uid milliseconds => s!"Request to instance {uid} timed out after {milliseconds}ms"
  | .protocol text => s!"Protocol error: {text}"

end ElasticCache
