import EntityQuery.Http.Target

/-!
# The transport's own checks

A transport over HTTP is configured once, and then checks the URL of every request before it opens a
connection.  A URL has to be absolute, with a scheme and a host.  The scheme has to be `https`; plain
`http` is let through only by a configuration that allows it, which is meant for local servers.

The user agent goes out as a header, so it must not hold controls, the tab apart.
-/

set_option autoImplicit false

namespace EntityQuery.Http

/-- How a transport is set up.  Times are in milliseconds. -/
structure TransportConfig where
  userAgent : String
  /-- Whether plain HTTP is let through. -/
  allowsPlain : Bool
  requestTimeout : Nat
  maxBodySize : Nat
  poolIdleTimeout : Option Nat
  poolMaxIdlePerHost : Nat
deriving DecidableEq

namespace TransportConfig

/-- Encrypted connections only. -/
def standard : TransportConfig :=
  ⟨"odata-http/0.1.0", false, 30000, 10 * 1024 * 1024, some 90000, 32⟩

/-- The standard configuration, with plain HTTP for local servers. -/
def forTesting : TransportConfig := { standard with allowsPlain := true }

end TransportConfig

/-- Why a transport does not send. -/
inductive TransportFault
  | invalidHeaderValue
  | invalidUrl (url reason : String)
  | invalidScheme (scheme reason : String)
deriving DecidableEq

def TransportFault.message : TransportFault → String
  | invalidHeaderValue => "Invalid header value: failed to parse header value"
  | invalidUrl url reason => "Invalid URL '" ++ url ++ "': " ++ reason
  | invalidScheme scheme reason => "URL scheme '" ++ scheme ++ "' not allowed: " ++ reason

/-- Whether a byte may stand in the value of a header. -/
def isHeaderByte (b : UInt8) : Bool := (0x20 ≤ b && b != 0x7F) || b == 0x09

/-- A transport whose configuration was accepted. -/
structure HttpTransport where
  config : TransportConfig

namespace HttpTransport

/-- Sets a transport up. -/
def ofConfig (c : TransportConfig) : Except TransportFault HttpTransport :=
  if (Text.Utf8.encode c.userAgent).all isHeaderByte then .ok ⟨c⟩ else .error .invalidHeaderValue

/-- Whether a scheme is let through. -/
def checkScheme (t : HttpTransport) (url : String) : Option (List UInt8) → Except TransportFault Unit
  | none => .error (.invalidUrl url "absolute URL with scheme and host required")
  | some scheme =>
    if scheme = Target.bytes "https" then .ok ()
    else if scheme = Target.bytes "http" then
      if t.config.allowsPlain then .ok ()
      else
        .error (.invalidScheme "http" "plain HTTP requires TransportSecurity::AllowInsecureHttp")
    else .error (.invalidScheme (Text.Utf8.lossy scheme) "only http and https are supported")

/-- Checks a URL before a request to it is sent. -/
def check (t : HttpTransport) (url : String) : Except TransportFault Target :=
  match Target.ofText url with
  | .error f => .error (.invalidUrl url f.message)
  | .ok target => do
    t.checkScheme url target.scheme
    if target.hasAuthority then .ok target else .error (.invalidUrl url "missing host")

end HttpTransport

end EntityQuery.Http
