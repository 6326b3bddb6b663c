import TokenGate.Proofs.Admission.Retransmission
import TokenGate.Proofs.Cbor.Nesting

/-!
# How a token is presented

Under DTLS a client may post a token alone, in a byte string, or in a map that has nothing else, and may leave out the tags that
say what the token is. None of that is seen past the extraction of the token: the profile asks for parameters only, of which there
are none, and so the outcome is the same, whatever it is. The same goes for references, alone or in a map.
-/

namespace TokenGate

open Cbor

namespace Profile

/-! ## Profiles that ask for parameters only -/

/-- The profiles for clients that use DTLS. -/
inductive UsesDtls : Profile → Prop
  | dtls : UsesDtls .dtls
  | groupJoin {inner : Profile} (uses : UsesDtls inner) (policy : GroupPolicy) (known : Std.ExtTreeMap String GroupInfo) :
    UsesDtls (inner.groupJoin policy known)

variable {profile : Profile}

/-- A profile that uses DTLS, with or without groups, is a standard one. -/
theorem UsesDtls.isStandard (uses : profile.UsesDtls) : profile.IsStandard := by
  induction uses with
  | dtls => exact .dtls
  | groupJoin _ policy known ih => exact .groupJoin ih policy known

/-- A request need not be a map. -/
theorem UsesDtls.requiresMap (uses : profile.UsesDtls) : profile.requiresMap = false := by
  induction uses with
  | dtls => rfl
  | groupJoin _ policy known ih => exact ih

/-- Requests with the same parameters pass the same checks. -/
theorem UsesDtls.check_congr (uses : profile.UsesDtls) {request request' : Request} (same : request'.params = request.params)
    (claims : Claims) (isUpdate : Bool) : profile.check request' claims isUpdate = profile.check request claims isUpdate := by
  induction uses with
  | dtls => rfl
  | @groupJoin inner _ policy known ih =>
    have joins : JoinRequest.ofRequest policy request' claims = JoinRequest.ofRequest policy request claims := by
      unfold JoinRequest.ofRequest JoinRequest.asksForSignInfo Request.find?
      rw [same]
    simp only [Profile.groupJoin, ih, joins]

/-- What is set up for a token does not depend on the request that it came with. -/
theorem UsesDtls.setup_congr (uses : profile.UsesDtls) {request : Request} {claims : Claims} {isUpdate : Bool} {server : Server}
    {setup : Setup} (checked : ((profile.check request claims isUpdate).run server).1 = .ok setup) (token : CommittedToken)
    (other : Request) : setup { token with request := other } = setup token := by
  induction uses generalizing setup with
  | dtls =>
    cases checked
    rfl
  | groupJoin uses policy known ih =>
    obtain ⟨first, checked', ⟨_, rfl⟩ | ⟨join, _, rfl⟩⟩ := exists_of_check_groupJoin uses.isStandard.isTame checked
    · exact ih checked'
    · rw [Setup.welcoming, Setup.welcoming, ih checked']
      rfl

end Profile

namespace Endpoint

variable {e : Endpoint} {message message' : Message}

/-! ## Messages that come to the same -/

/-- What counts of what was read of a message: the parameters, the claims, and how the token was presented. -/
def gist (presented : Request × Claims × TokenOrigin) : Parameters × Claims × TokenOrigin :=
  (presented.1.params, presented.2)

/-- A token is committed in the same way whatever request it came with, if what is set up for it does not depend on that. -/
theorem commit_congr (e : Endpoint) (claims : Claims) (origin : TokenOrigin) {accepted : Accepted}
    (told : ∀ (token : CommittedToken) (other : Request), accepted.setup { token with request := other } = accepted.setup token)
    (request request' : Request) : e.commit request' claims origin accepted = e.commit request claims origin accepted := by
  have finishes : finish request' claims accepted = finish request claims accepted := by
    funext added
    have same := told { id := added.id, key := added.key, claims, request, isUpdate := accepted.isUpdate } request'
    simp only at same
    unfold finish
    simp only [same]
  rw [commit_eq, commit_eq, finishes]

/-- Messages from one sender, of which the same counts, come to the same. -/
theorem receive_congr (uses : e.profile.UsesDtls) (sender : message'.sender = message.sender)
    (same : (e.read message').map gist = (e.read message).map gist) (server : Server) :
    e.receive message' server = e.receive message server := by
  have runs : (e.run message').run server = (e.run message).run server := by
    have tame := uses.isStandard.isTame
    rw [run_eq_prepare tame, run_eq_prepare tame, prepare, prepare]
    cases read : e.read message with
    | error failed =>
      cases read' : e.read message' with
      | error failed' =>
        rw [read, read'] at same
        cases same
        rfl
      | ok presented' =>
        rw [read, read'] at same
        cases same
    | ok presented =>
      cases read' : e.read message' with
      | error failed' =>
        rw [read, read'] at same
        cases same
      | ok presented' =>
        obtain ⟨request, claims, origin⟩ := presented
        obtain ⟨request', claims', origin'⟩ := presented'
        rw [read, read'] at same
        obtain ⟨params, presents⟩ := Prod.mk.inj (Except.ok.inj same)
        obtain ⟨rfl, rfl⟩ := Prod.mk.inj presents
        have key : senderKey message' server = senderKey message server := by rw [senderKey, senderKey, sender]
        simp only [bind, Except.bind, key, uses.check_congr params]
        cases e.validate claims' server.host.clock with
        | error rejection => rfl
        | ok _ =>
          cases checked : ((e.profile.check request claims' (server.repository.updateApplies server.host claims'
              (senderKey message server))).run server).1 with
          | error failure => rfl
          | ok setup =>
            simp only [Except.mapError]
            rw [e.commit_congr claims' origin' (fun token other => uses.setup_congr checked token other) request request']
  unfold receive
  rw [runs]

/-- Messages of which the same counts get the same reply. -/
theorem process_congr (h : ∀ server, e.receive message' server = e.receive message server) (server : Server) :
    e.process message' server = e.process message server := by
  unfold process
  rw [h]

/-- What counts of a message without parameters is up to its token. -/
theorem gist_read {request : Request} (decoded : Request.decode message.payload e.profile.requiresMap = .ok request)
    (alone : request.params = []) :
    (e.read message).map gist =
      match extract request with
      | .error rejection => .error (.payloadDecoded, .rejected rejection)
      | .ok token => ((e.resolve token).mapError (.tokenExtracted, ·)).map fun presented => ([], presented) := by
  unfold read
  rw [decoded]
  simp only [bind, Except.bind, Except.mapError]
  cases extract request with
  | error rejection => rfl
  | ok token =>
    cases resolved : e.resolve token with
    | error failure => simp only [resolved, Except.map]
    | ok presented => simp only [resolved, Except.map, gist, alone]

/-- Messages without parameters, whose tokens amount to the same, come to the same. -/
theorem receive_eq_of_extract {request request' : Request} (uses : e.profile.UsesDtls)
    (sender : message'.sender = message.sender) (decoded : Request.decode message.payload false = .ok request)
    (decoded' : Request.decode message'.payload false = .ok request') (alone : request.params = [])
    (alone' : request'.params = []) (same : extract request' = extract request) (server : Server) :
    e.receive message' server = e.receive message server := by
  rw [← uses.requiresMap] at decoded decoded'
  refine receive_congr uses sender ?_ server
  rw [gist_read decoded alone, gist_read decoded' alone', same]

/-! ## Forms of a token -/

/-- Whether a payload that is this value is the token in it: it is when the value is neither a map nor a string. -/
def isOwnToken : Value → Bool
  | .map _ | .bytes _ | .text _ => false
  | _ => true

/-- A single item that is posted alone, and has room for tags around it. -/
structure IsItem (t : Bytes) (v : Value) : Prop where
  exact : decodeExact? t = some v
  own : isOwnToken v = true
  room : v.depth ≤ 250

/-- Some bytes, as they are or with tags in front that say that they are an encrypted message, or a claims set, or both. -/
inductive Tagged (t : Bytes) : Bytes → Prop
  | untagged : Tagged t t
  | message {tagged : Bytes} (head : Head.read tagged = .ok (.tag 16, t)) : Tagged t tagged
  | claims {tagged : Bytes} (head : Head.read tagged = .ok (.tag 61, t)) : Tagged t tagged
  | both {inner tagged : Bytes} (outer : Head.read tagged = .ok (.tag 61, inner)) (head : Head.read inner = .ok (.tag 16, t)) :
    Tagged t tagged

/-- The payloads that pose some bytes as a token: the bytes themselves, or what reads as a byte string of them, alone or as the
only parameter in a map. -/
inductive Poses (t : Bytes) : Bytes → Prop
  | alone : Poses t t
  | string {payload : Bytes} (decoded : decode? payload = some (.bytes t)) : Poses t payload
  | inMap {payload : Bytes} (decoded : decode? payload = some (.map [(.uint Parameter.accessToken.label, .bytes t)])) :
    Poses t payload

/-- The tags are written in one byte and in two. -/
theorem tagged_prefixes (t : Bytes) :
    Tagged t (0xd0 :: t) ∧ Tagged t (0xd8 :: 0x3d :: t) ∧ Tagged t (0xd8 :: 0x3d :: 0xd0 :: t) :=
  have message : Head.read (0xd0 :: t) = .ok (.tag 16, t) := Head.read_write_tag 16 t
  ⟨.message message, .claims (Head.read_write_tag 61 t), .both (Head.read_write_tag 61 (0xd0 :: t)) message⟩

/-- However bytes that are posted alone are posed, they are the token of the request, and there are no parameters. -/
theorem Poses.exists_request {t payload : Bytes} {v : Value} (poses : Poses t payload) (item : decode? t = some v)
    (own : isOwnToken v = true) :
    ∃ request, Request.decode payload false = .ok request ∧ request.params = [] ∧ request.token = some (.bytes t) := by
  cases poses with
  | alone =>
    unfold Request.decode
    rw [item]
    cases v with
    | map entries => nomatch own
    | bytes bs => nomatch own
    | text s => nomatch own
    | _ => exact ⟨_, rfl, rfl, rfl⟩
  | string decoded =>
    unfold Request.decode
    rw [decoded]
    exact ⟨_, rfl, rfl, rfl⟩
  | inMap decoded =>
    unfold Request.decode
    rw [decoded]
    exact ⟨_, rfl, rfl, rfl⟩

/-- Tags in front of an envelope are taken off again. -/
theorem Tagged.parseEnvelope_eq {t tagged : Bytes} {v : Value} (h : Tagged t tagged) (item : read? t = some (v, []))
    {envelope : Cose.Encrypt0} (enclosed : Cose.Encrypt0.ofValue? v = some envelope) (room : v.depth ≤ 250) :
    AccessToken.parseEnvelope tagged = AccessToken.parseEnvelope t ∧ ∃ w, decode? tagged = some w ∧ isOwnToken w = true := by
  -- An envelope is an array, which has no tags of its own.
  obtain ⟨items, rfl⟩ : ∃ items, v = .array items := by
    unfold Cose.Encrypt0.ofValue? at enclosed
    split at enclosed
    · exact ⟨_, rfl⟩
    · nomatch enclosed
  have bare : decode? t = some (.array items) := by rw [decode?, item, Option.map_some]
  have limit : maxDepth = 256 := rfl
  cases h with
  | untagged => exact ⟨rfl, _, bare, rfl⟩
  | message head =>
    have read := read?_tag (by decide) head item (by omega)
    have decoded : decode? tagged = some (.tag 16 (.array items)) := by rw [decode?, read, Option.map_some]
    refine ⟨?_, _, decoded, rfl⟩
    rw [AccessToken.parseEnvelope, AccessToken.parseEnvelope, decoded, bare]
    rfl
  | claims head =>
    have read := read?_tag (by decide) head item (by omega)
    have decoded : decode? tagged = some (.tag 61 (.array items)) := by rw [decode?, read, Option.map_some]
    refine ⟨?_, _, decoded, rfl⟩
    rw [AccessToken.parseEnvelope, AccessToken.parseEnvelope, decoded, bare]
    rfl
  | both outer head =>
    have inner := read?_tag (by decide) head item (by omega)
    have read := read?_tag (by decide) outer inner (by rw [Value.depth]; omega)
    have decoded : decode? tagged = some (.tag 61 (.tag 16 (.array items))) := by rw [decode?, read, Option.map_some]
    refine ⟨?_, _, decoded, rfl⟩
    rw [AccessToken.parseEnvelope, AccessToken.parseEnvelope, decoded, bare]
    rfl

/-! ## Forms that make no difference -/

/-- Under DTLS, with or without groups, a token that is a single item comes to the same and gets the same reply whether it is posted
alone, in a byte string or in a map, and an envelope also if it is tagged; and a reference does whether it is posted alone or in a
map. -/
theorem receive_of_forms (uses : e.profile.UsesDtls) (sender : Option String) (server : Server) :
    (∀ {t tagged payload : Bytes} {v : Value}, IsItem t v →
      tagged = t ∨ (∃ envelope, Cose.Encrypt0.ofValue? v = some envelope) ∧ Tagged t tagged → Poses tagged payload →
      e.receive ⟨payload, sender⟩ server = e.receive ⟨t, sender⟩ server ∧
        e.process ⟨payload, sender⟩ server = e.process ⟨t, sender⟩ server) ∧
    ∀ {payload payload' : Bytes} {s : String}, decode? payload = some (.text s) →
      decode? payload' = some (.map [(.uint Parameter.accessToken.label, .text s)]) →
      e.receive ⟨payload', sender⟩ server = e.receive ⟨payload, sender⟩ server ∧
        e.process ⟨payload', sender⟩ server = e.process ⟨payload, sender⟩ server := by
  refine ⟨?_, ?_⟩
  · intro t tagged payload v item forms poses
    have read := read?_of_decodeExact? item.exact
    have bare : decode? t = some v := by rw [decode?, read, Option.map_some]
    obtain ⟨request, decoded, alone, given⟩ := Poses.alone.exists_request bare item.own
    obtain ⟨same, w, present, own⟩ : AccessToken.parseEnvelope tagged = AccessToken.parseEnvelope t ∧
        ∃ w, decode? tagged = some w ∧ isOwnToken w = true := by
      rcases forms with rfl | ⟨⟨envelope, enclosed⟩, tags⟩
      · exact ⟨rfl, v, bare, item.own⟩
      · exact tags.parseEnvelope_eq read enclosed item.room
    obtain ⟨request', decoded', alone', given'⟩ := poses.exists_request present own
    have extracts : extract request' = extract request := by
      simp only [extract, given, given', AccessToken.ofValue, same]
    have receives : ∀ server, e.receive ⟨payload, sender⟩ server = e.receive ⟨t, sender⟩ server :=
      receive_eq_of_extract uses rfl decoded decoded' alone alone' extracts
    exact ⟨receives server, process_congr receives server⟩
  · intro payload payload' s present present'
    obtain ⟨request, decoded, alone, given⟩ : ∃ request, Request.decode payload false = .ok request ∧
        request.params = [] ∧ request.token = some (.text s) := by
      unfold Request.decode
      rw [present]
      exact ⟨_, rfl, rfl, rfl⟩
    obtain ⟨request', decoded', alone', given'⟩ : ∃ request, Request.decode payload' false = .ok request ∧
        request.params = [] ∧ request.token = some (.text s) := by
      unfold Request.decode
      rw [present']
      exact ⟨_, rfl, rfl, rfl⟩
    have extracts : extract request' = extract request := by simp only [extract, given, given']
    have receives : ∀ server, e.receive ⟨payload', sender⟩ server = e.receive ⟨payload, sender⟩ server :=
      receive_eq_of_extract uses rfl decoded decoded' alone alone' extracts
    exact ⟨receives server, process_congr receives server⟩

namespace Sample

/-- What the bytes of a token are: an array of a protected header, an unprotected one and a ciphertext. -/
def item : Value :=
  .array [.bytes [], .map [(.uint 5, .bytes (List.replicate 13 0x00))],
    .bytes [0x71, 0x79, 0x92, 0x0e, 0x60, 0x9d, 0x2d, 0x6f, 0x11, 0x0f, 0x3f, 0x17, 0xe6, 0xd7, 0x74, 0x93, 0x8d, 0xe5, 0xc5,
      0xbd, 0x71]]

theorem isItem_referring : IsItem referring.payload item :=
  ⟨by decide +kernel, rfl, by decide +kernel⟩

/-- The token with both tags, in a map. -/
def wrapped : Message where
  payload := [0xa1, 0x01, 0x58, 0x2b, 0xd8, 0x3d, 0xd0] ++ referring.payload

/-- A reference in a map. -/
def knownInMap : Message := { payload := [0xa1, 0x01, 0x61, 0x78] }

end Sample

/-- A token is admitted, and so is the same with tags in a map; and so it is with a reference. -/
theorem receive_of_forms_of_wrapped :
    (Sample.opener.receive Sample.referring Sample.server).1.result.isOk = true ∧
      Sample.opener.receive Sample.wrapped Sample.server = Sample.opener.receive Sample.referring Sample.server ∧
      (Sample.endpoint.receive Sample.known Sample.server).1.result.isOk = true ∧
      Sample.endpoint.receive Sample.knownInMap Sample.server = Sample.endpoint.receive Sample.known Sample.server := by
  have envelope : ∃ envelope, Cose.Encrypt0.ofValue? Sample.item = some envelope :=
    Option.isSome_iff_exists.mp (by decide +kernel)
  have poses : Poses (0xd8 :: 0x3d :: 0xd0 :: Sample.referring.payload) Sample.wrapped.payload := .inMap (by decide +kernel)
  have token := (receive_of_forms (e := Sample.opener) .dtls none Sample.server).1 Sample.isItem_referring
    (Or.inr ⟨envelope, (tagged_prefixes _).2.2⟩) poses
  have text : decode? Sample.known.payload = some (.text "x") := by decide +kernel
  have inMap : decode? Sample.knownInMap.payload = some (.map [(.uint 1, .text "x")]) := by decide +kernel
  have reference := (receive_of_forms (e := Sample.endpoint) .dtls none Sample.server).2 text inMap
  exact ⟨by decide +kernel, token.1, by decide +kernel, reference.1⟩

end Endpoint

end TokenGate
