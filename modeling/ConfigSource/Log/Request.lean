import ConfigSource.Error.Members

/-!
# Requests in a log

Details that have a method, headers and a socket are a **request**, and what is logged of them is
one member `req`. It says by which identity, method and address the request came, with its query and
parameters if there are any, its headers, and the far end of the connection.

* `ConfigSource.Log.isRequest`: whether details are a request;
* `ConfigSource.Log.requestRecord`: what is logged of it.
-/

namespace ConfigSource

namespace Log

/-- Whether details are a request. -/
def isRequest (details : Value) : Bool :=
  (details.member "method").isTruthy && (details.member "headers").isTruthy
    && (details.member "socket").isTruthy

/-- The first of two values, or the second if the first counts as nothing. -/
def orElse (first second : Value) : Value := if first.isTruthy then first else second

/-- A value, or nothing if it counts as nothing. -/
def ifTruthy (v : Value) : Value := if v.isTruthy then v else .undefined

/-- The address that was asked for: the one that the request came in with, else a path that is a
text, else what is named as the address or the path inside it. -/
def requestAddress (request : Value) : Value :=
  let original := request.member "originalUrl"
  let address := request.member "url"
  if original.isTruthy then original
  else
    match request.member "path" with
    | .text path => .text path
    | _ => if address.isTruthy then orElse (address.member "path") address else .undefined

/-- What is logged of a request. -/
def requestRecord (request : Value) : Value :=
  let info := request.member "info"
  let connection := orElse info (request.member "socket")
  .record (Value.memberOf "id" (orElse (request.member "id") (info.member "id"))
    ++ Value.memberOf "method" (request.member "method")
    ++ Value.memberOf "url" (requestAddress request)
    ++ Value.memberOf "query" (ifTruthy (request.member "query"))
    ++ Value.memberOf "params" (ifTruthy (request.member "params"))
    ++ Value.memberOf "headers" (request.member "headers")
    ++ Value.memberOf "remoteAddress" (connection.member "remoteAddress")
    ++ Value.memberOf "remotePort" (connection.member "remotePort"))

end Log

end ConfigSource
