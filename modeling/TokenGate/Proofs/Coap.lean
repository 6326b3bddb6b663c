import Mathlib.Algebra.Ring.Parity
import TokenGate.Coap
import TokenGate.Proofs.Admission.Channels
import TokenGate.Proofs.Admission.Replies

/-!
# The resource passes on what the endpoint says

A request is either refused on account of its code or of an option, and then the endpoint does not get to see it; or it is answered
with what the endpoint makes of its payload, and nothing else happens. Which of the two it is depends on the code and on the critical
options, however many other options there are, in whatever order. A run of requests therefore comes to what the admissions of those
that pass come to.
-/

namespace TokenGate.Coap

/-! ## Options -/

namespace CoapOption

/-- An option that asks for a response in the format of replies. The number of the format takes one byte, or two with a zero in front;
what is longer is no value of the option. -/
structure AsksForReplies (o : CoapOption) : Prop where
  number : o.number = 17
  value : o.value = [19] ∨ o.value = [0, 19]

/-- An option on account of which a request is refused. -/
structure IsForbidden (o : CoapOption) : Prop where
  critical : Odd o.number
  other : ¬o.AsksForReplies

instance (o : CoapOption) : Decidable o.IsForbidden :=
  decidable_of_iff (Odd o.number ∧ ¬(o.number = 17 ∧ (o.value = [19] ∨ o.value = [0, 19])))
    ⟨fun ⟨critical, other⟩ => ⟨critical, fun asks => other ⟨asks.number, asks.value⟩⟩,
      fun forbidden => ⟨forbidden.critical, fun ⟨number, value⟩ => forbidden.other ⟨number, value⟩⟩⟩

/-- Which values are the number of the format. -/
theorem number?_eq_aceCbor_iff (o : CoapOption) :
    o.number? = some aceCbor.toNat ↔ o.value = [19] ∨ o.value = [0, 19] := by
  obtain ⟨number, value⟩ := o
  match value with
  | [] => exact iff_of_false nofun (by simp)
  | [b] =>
    have digits : Bytes.toNat [b] = b.toNat := by simp [Bytes.toNat]
    simp [number?, digits, aceCbor, ← UInt8.toNat_inj]
  | [a, b] =>
    have digits : Bytes.toNat [a, b] = a.toNat * 256 + b.toNat := by simp [Bytes.toNat]
    have small := b.toNat_lt
    simp [number?, digits, aceCbor, ← UInt8.toNat_inj]
    omega
  | a :: b :: c :: rest => simp [number?]

/-- Of the options that are understood, only those that ask for replies are critical: the format of a request may be ignored. -/
theorem isUnderstood_iff_of_odd {o : CoapOption} (critical : Odd o.number) : o.isUnderstood = true ↔ o.AsksForReplies := by
  have apart : o.number ≠ contentFormat := by
    intro same
    rw [same] at critical
    revert critical
    decide
  unfold isUnderstood
  rw [Bool.and_eq_true, Bool.or_eq_true, beq_iff_eq, beq_iff_eq, beq_iff_eq, number?_eq_aceCbor_iff]
  constructor
  · rintro ⟨format | accept, value⟩
    · exact absurd format apart
    · exact ⟨accept, value⟩
  · exact fun asks => ⟨Or.inr asks.number, asks.value⟩

/-- What is left of the options that may not be ignored once those that are understood are taken out. -/
theorem isForbidden_iff (o : CoapOption) : o.IsForbidden ↔ o.isUnderstood = false ∧ o.isCritical = true := by
  have critical : o.isCritical = true ↔ Odd o.number := by rw [isCritical, beq_iff_eq, Nat.odd_iff]
  rw [critical, ← Bool.not_eq_true]
  constructor
  · rintro ⟨odd, other⟩
    exact ⟨mt (isUnderstood_iff_of_odd odd).mp other, odd⟩
  · rintro ⟨foreign, odd⟩
    exact ⟨odd, mt (isUnderstood_iff_of_odd odd).mpr foreign⟩

end CoapOption

/-- Going through options ends at a critical one, wherever it is. -/
theorem ignoreElective_eq (options : List CoapOption) :
    ignoreElective options = if options.any (·.isCritical) then .error .criticalOptionsRemain else .ok () := by
  induction options with
  | nil => rfl
  | cons o options ih =>
    rw [ignoreElective, ih, List.any_cons]
    cases o.isCritical with
    | true => rfl
    | false => rfl

/-! ## Requests -/

namespace Request

/-- A request that nothing speaks against. -/
structure Passes (request : Request) : Prop where
  code : request.code = 2
  options : ∀ o ∈ request.options, ¬o.IsForbidden

instance (request : Request) : Decidable request.Passes :=
  decidable_of_iff (request.code = 2 ∧ ∀ o ∈ request.options, ¬o.IsForbidden)
    ⟨fun ⟨code, options⟩ => ⟨code, options⟩, fun passes => ⟨passes.code, passes.options⟩⟩

variable {request : Request}

/-- The options of a POST request are all right unless one of them is forbidden. -/
theorem check_of_post (post : request.code = 2) :
    request.check = if ∃ o ∈ request.options, o.IsForbidden then .error .criticalOptionsRemain else .ok () := by
  have found : (request.options.filter fun o => !o.isUnderstood).any (·.isCritical) = true ↔
      ∃ o ∈ request.options, o.IsForbidden := by
    simp [CoapOption.isForbidden_iff]
  have read : request.check = ignoreElective (request.options.filter fun o => !o.isUnderstood) :=
    if_neg (not_not_intro post)
  rw [read, ignoreElective_eq]
  simp only [found]

/-- The check lets a request through exactly if nothing speaks against it. -/
theorem check_eq_ok_iff : request.check = .ok () ↔ request.Passes := by
  by_cases post : request.code = 2
  · rw [check_of_post post]
    by_cases forbidden : ∃ o ∈ request.options, o.IsForbidden
    · rw [if_pos forbidden]
      obtain ⟨o, among, refused⟩ := forbidden
      exact iff_of_false nofun fun passes => passes.options o among refused
    · rw [if_neg forbidden]
      exact iff_of_true rfl ⟨post, fun o among refused => forbidden ⟨o, among, refused⟩⟩
  · have refused : request.check = .error .badMethod := if_pos post
    rw [refused]
    exact iff_of_false nofun fun passes => post passes.code

end Request

/-! ## Responses -/

variable {e : Endpoint} {sender : Option String} {request : Request} {server : Server}

/-- A refused request is over before anything happens. -/
theorem handle_of_error {refusal : Refusal} (refused : request.check = .error refusal) :
    handle e sender request server = (some ⟨refusal.code, [], []⟩, server) := by
  simp only [handle, extract, refused, Option.map_some, respond]

/-- A request that something speaks against is refused before the server sees it. -/
theorem handle_of_not_passes (refused : ¬request.Passes) :
    ∃ refusal : Refusal, handle e sender request server = (some ⟨refusal.code, [], []⟩, server) := by
  cases checked : request.check with
  | ok _ => exact absurd (Request.check_eq_ok_iff.mp checked) refused
  | error refusal => exact ⟨refusal, handle_of_error checked⟩

/-- Any other request is a matter of the endpoint. -/
theorem handle_of_passes (passes : request.Passes) :
    handle e sender request server =
      ((e.process ⟨request.payload, sender⟩ server).1.map .ofReply, (e.process ⟨request.payload, sender⟩ server).2) := by
  simp only [handle, extract, Request.check_eq_ok_iff.mpr passes, Option.map_map]
  rfl

/-- An endpoint gives no reply only if a ciphertext is missing from the message. -/
theorem process_eq_none_iff (standard : e.profile.IsStandard) (message : Message) :
    (e.process message server).1 = none ↔ e.MissesCiphertext message server := by
  rw [← Endpoint.run_eq_detached_iff standard]
  unfold Endpoint.process Endpoint.receive
  rcases (e.run message).run server with ⟨⟨stage, failure⟩ | admitted, after⟩
  · cases failure with
    | detached => exact iff_of_true rfl ⟨stage, rfl⟩
    | rejected rejection => exact iff_of_false nofun nofun
    | internal text => exact iff_of_false nofun nofun
  · exact iff_of_false nofun nofun

/-- The response to every request: 4.05 if it is no POST request, and 4.02 if one of its options is forbidden, both without a payload
and without anything happening; and else what the endpoint makes of the payload, down to the server that is left. There is a response
unless the request gets to the endpoint with a ciphertext missing from it. -/
theorem handle_exact (e : Endpoint) (sender : Option String) (request : Request) (server : Server) :
    (request.code ≠ 2 → handle e sender request server = (some ⟨4 * 32 + 5, [], []⟩, server)) ∧
    (request.code = 2 → (∃ o ∈ request.options, o.IsForbidden) →
      handle e sender request server = (some ⟨4 * 32 + 2, [], []⟩, server)) ∧
    (request.code = 2 → (∀ o ∈ request.options, ¬o.IsForbidden) →
      (handle e sender request server).1 = (e.process ⟨request.payload, sender⟩ server).1.map
        (fun reply => ⟨reply.code.coap, [⟨12, [19]⟩], reply.payload⟩) ∧
      (handle e sender request server).2 = (e.process ⟨request.payload, sender⟩ server).2) ∧
    (e.profile.IsStandard → ((∃ response, (handle e sender request server).1 = some response) ↔
      ¬(request.Passes ∧ e.MissesCiphertext ⟨request.payload, sender⟩ server))) := by
  refine ⟨fun other => ?_, fun post forbidden => ?_, fun post allowed => ?_, fun standard => ?_⟩
  · exact handle_of_error (if_pos other)
  · exact handle_of_error ((Request.check_of_post post).trans (if_pos forbidden))
  · rw [handle_of_passes ⟨post, allowed⟩]
    exact ⟨rfl, rfl⟩
  · rw [← process_eq_none_iff standard, ← Option.ne_none_iff_exists']
    apply not_congr
    by_cases passes : request.Passes
    · rw [handle_of_passes passes, Option.map_eq_none_iff]
      exact (and_iff_right passes).symm
    · obtain ⟨refusal, handled⟩ := handle_of_not_passes passes
      rw [handled]
      exact iff_of_false nofun fun missing => passes missing.1

namespace Sample

/-- Options that a request may have: formats that are understood, in the shorter and in the longer form, another format of the request,
and an option of which nothing is known. -/
def allowed : List CoapOption := [⟨12, [19]⟩, ⟨12, [60]⟩, ⟨17, [0, 19]⟩, ⟨17, [19]⟩, ⟨2052, [1, 2, 3]⟩]

/-- A request with a token that is admitted if the endpoint gets to see it. -/
def posting (code : Nat) (options : List CoapOption) : Request :=
  { code, options, payload := Endpoint.Sample.known.payload }

end Sample

/-- The same token is refused along with the method, refused along with an option whose value is a byte too long, and else admitted. A
token without its ciphertext gets no response. -/
theorem handle_exact_of_options :
    handle Endpoint.Sample.endpoint none (Sample.posting 1 []) Endpoint.Sample.server =
      (some ⟨4 * 32 + 5, [], []⟩, Endpoint.Sample.server) ∧
    handle Endpoint.Sample.endpoint none (Sample.posting 2 (Sample.allowed ++ [⟨17, [0, 0, 19]⟩])) Endpoint.Sample.server =
      (some ⟨4 * 32 + 2, [], []⟩, Endpoint.Sample.server) ∧
    (handle Endpoint.Sample.endpoint none (Sample.posting 2 Sample.allowed) Endpoint.Sample.server).1 =
      some ⟨2 * 32 + 1, [⟨12, [19]⟩], [0xa1, 0x07, 0x41, 0x01]⟩ ∧
    (handle Endpoint.Sample.endpoint none (Sample.posting 2 Sample.allowed)
      Endpoint.Sample.server).2.repository.state.tokens.size = 1 ∧
    ¬∃ response, (handle Endpoint.Sample.endpoint none ⟨2, [], Endpoint.Sample.detached.payload⟩ Endpoint.Sample.server).1 =
      some response := by
  obtain ⟨method, _, _, _⟩ := handle_exact Endpoint.Sample.endpoint none (Sample.posting 1 []) Endpoint.Sample.server
  obtain ⟨_, option, _, _⟩ := handle_exact Endpoint.Sample.endpoint none
    (Sample.posting 2 (Sample.allowed ++ [⟨17, [0, 0, 19]⟩])) Endpoint.Sample.server
  obtain ⟨_, _, passed, _⟩ := handle_exact Endpoint.Sample.endpoint none (Sample.posting 2 Sample.allowed) Endpoint.Sample.server
  obtain ⟨_, _, _, silent⟩ := handle_exact Endpoint.Sample.endpoint none ⟨2, [], Endpoint.Sample.detached.payload⟩
    Endpoint.Sample.server
  obtain ⟨response, left⟩ := passed rfl (by decide)
  have missing : Endpoint.Sample.endpoint.MissesCiphertext Endpoint.Sample.detached Endpoint.Sample.server :=
    (process_eq_none_iff .dtls _).mp (by decide +kernel)
  refine ⟨method (by decide), option rfl (by decide), ?_, ?_, ?_⟩
  · rw [response]
    decide +kernel
  · rw [left]
    decide +kernel
  · exact mt (silent .dtls).mp (not_not_intro ⟨⟨rfl, nofun⟩, missing⟩)

/-! ## Runs of requests -/

/-- A request that is sent to an endpoint, perhaps over the channel of a sender. -/
structure Delivery where
  endpoint : Endpoint
  sender : Option String := none
  request : Request

/-- The message that the endpoint gets to see if the request passes. -/
def Delivery.message (d : Delivery) : Message := { payload := d.request.payload, sender := d.sender }

/-- What becomes of a server when requests are sent to it, one after another. -/
def serve (ds : List Delivery) (server : Server) : Server :=
  ds.foldl (fun server d => (handle d.endpoint d.sender d.request server).2) server

/-- A request leaves the server that the admission of its message leaves, or else the one it found. -/
theorem server_handle (d : Delivery) (server : Server) :
    (handle d.endpoint d.sender d.request server).2 =
      if d.request.Passes then (d.endpoint.receive d.message server).2 else server := by
  by_cases passes : d.request.Passes
  · rw [if_pos passes, handle_of_passes passes]
    rfl
  · obtain ⟨refusal, handled⟩ := handle_of_not_passes passes
    rw [if_neg passes, handled]

/-- What becomes of a server is a matter of the admissions alone: requests that do not pass have no part in it. -/
theorem serve_eq_receive (ds : List Delivery) (server : Server) :
    serve ds server =
      (ds.filter (·.request.Passes)).foldl (fun server d => (d.endpoint.receive d.message server).2) server := by
  unfold serve
  induction ds generalizing server with
  | nil => rfl
  | cons d ds ih =>
    rw [List.foldl_cons, ih, server_handle, List.filter_cons]
    by_cases passes : d.request.Passes <;> simp [passes]

/-- What admissions keep, requests keep. -/
theorem serve_keeps {P : Server → Prop} {ds : List Delivery} {server : Server} (holds : P server)
    (keeps : ∀ d ∈ ds, ∀ server, P server → P (d.endpoint.receive d.message server).2) : P (serve ds server) := by
  rw [serve_eq_receive]
  refine List.foldlRecOn _ _ holds fun server before d among => ?_
  exact keeps d (List.mem_of_mem_filter among) server before

/-- A server to which requests are sent stays one on which only exchanges bind senders. -/
theorem onlyExchangesBind_serve {ds : List Delivery} {server : Server} (standard : ∀ d ∈ ds, d.endpoint.profile.IsStandard)
    (before : server.OnlyExchangesBind) : (serve ds server).OnlyExchangesBind :=
  serve_keeps before fun d among _ before => before.post (standard d among) d.message

end TokenGate.Coap
