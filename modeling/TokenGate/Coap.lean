import TokenGate.Admission.Basic

/-!
# The CoAP resource

Tokens are posted to a CoAP resource. It answers requests of other methods, and requests with options
that it must not ignore, on its own; all others go through the endpoint, and it passes on the reply
unchanged.
-/

namespace TokenGate.Coap

/-- An option of a message. -/
structure CoapOption where
  number : Nat
  value : Bytes
  deriving DecidableEq, Repr

/-- A request as far as the resource looks at it. -/
structure Request where
  code : Nat
  options : List CoapOption
  payload : Bytes
  deriving DecidableEq, Repr

/-- A response. -/
structure Response where
  code : UInt8
  options : List CoapOption
  payload : Bytes
  deriving DecidableEq, Repr

/-- Why the resource answers a request on its own. -/
inductive Refusal where
  | badMethod
  | criticalOptionsRemain
  deriving DecidableEq, Repr

/-- The code of a POST request. -/
def postCode : Nat := 2

/-- The number of the option Content-Format. -/
def contentFormat : Nat := 12

/-- The number of the option Accept. -/
def acceptOption : Nat := 17

/-- The content format of tokens and replies, `application/ace+cbor`. -/
def aceCbor : UInt8 := 19

/-- The code of a response to a request with an option that must not be ignored: 4.02. -/
def badOption : UInt8 := 4 * 32 + 2

/-- The code of the response to a refused request. -/
def Refusal.code : Refusal → UInt8
  | badMethod => ResponseCode.methodNotAllowed.coap
  | criticalOptionsRemain => badOption

namespace CoapOption

/-- Whether an option must not be ignored, which its number tells. -/
def isCritical (o : CoapOption) : Bool := o.number % 2 == 1

/-- The number that the value of an option is, if it is no longer than two bytes. -/
def number? (o : CoapOption) : Option Nat :=
  if o.value.length ≤ 2 then some o.value.toNat else none

/-- Whether an option is one that the resource deals with: it says that the request is in the format
of tokens, or that the response may be in the format of replies. -/
def isUnderstood (o : CoapOption) : Bool :=
  (o.number == contentFormat || o.number == acceptOption) && o.number? == some aceCbor.toNat

end CoapOption

/-- Goes through options that may be ignored, up to one that must not be. -/
def ignoreElective : List CoapOption → Except Refusal Unit
  | [] => .ok ()
  | o :: options => if o.isCritical then .error .criticalOptionsRemain else ignoreElective options

/-- Looks at the code of a request and at its options. -/
def Request.check (request : Request) : Except Refusal Unit :=
  if request.code ≠ postCode then .error .badMethod
  else ignoreElective (request.options.filter fun o => !o.isUnderstood)

/-- What a request comes to. The endpoint gets to see it once nothing speaks against it any more, and
may then give no reply. -/
def extract (e : Endpoint) (sender : Option String) (request : Request) (server : Server) :
    Option (Except Refusal Endpoint.Reply) × Server :=
  match request.check with
  | .error refusal => (some (.error refusal), server)
  | .ok () =>
    let (reply, server) := e.process { payload := request.payload, sender } server
    (reply.map .ok, server)

/-- The response that passes on a reply. -/
def Response.ofReply (reply : Endpoint.Reply) : Response where
  code := reply.code.coap
  options := [⟨contentFormat, [aceCbor]⟩]
  payload := reply.payload

/-- The response to what a request came to. -/
def respond : Except Refusal Endpoint.Reply → Response
  | .ok reply => .ofReply reply
  | .error refusal => { code := refusal.code, options := [], payload := [] }

/-- How long a response is going to be, at most: the format takes two bytes, and the mark in front of
the payload one. -/
def Response.lengthEstimate (response : Response) : Nat :=
  if response.options.isEmpty then 0 else 2 + 1 + response.payload.length

/-- Answers a request. There is no response if the endpoint gives no reply. -/
def handle (e : Endpoint) (sender : Option String) (request : Request) (server : Server) :
    Option Response × Server :=
  let (outcome, server) := extract e sender request server
  (outcome.map respond, server)

end TokenGate.Coap
