import TokenGate.Proofs.Admission.Retransmission
import TokenGate.Proofs.Repository.Coexistence
import TokenGate.Proofs.Repository.Reopening
import TokenGate.Proofs.Repository.Rereading

/-!
# What survives

A store file that nobody else touches holds, after every operation, the document of the state in memory, or else what that state
was loaded from. A repository that is created on it later therefore has every token on the same terms exactly if the state comes
back. Whether it does is up to the claims and the keys: nothing checks when a token is admitted that it can be read again.
-/

namespace TokenGate

namespace Repository

/-! ## One repository and its file -/

/-- A repository whose store file holds the document of its state, or what the state was loaded from. The file is in use as long as
the repository is open. -/
structure IsOnFile (path : DiskPath) (r : Repository) (host : Host) : Prop where
  store : r.store = some path
  live : host.isLive path = r.isOpen
  content : load host path = .ok r.state ∨
    ∃ document, StoreDocument.ofState r.state = .ok document ∧ host.readFile path = .ok document.encode

variable {path : DiskPath} {r : Repository} {host : Host}

/-- However an operation ends, the file keeps pace with the state: a write that fails leaves both as they were. -/
theorem IsOnFile.of_ended (h : IsOnFile path r host) {α : Type} {effect : Effect α} (ended : Ended r host effect) :
    IsOnFile path effect.repository effect.host := by
  have live : ∀ state, (r.save state host).2.isLive path = r.isOpen := by
    intro state
    rw [Host.isLive, r.live_save]
    exact h.live
  cases ended with
  | refused e => exact h
  | unchanged value => exact h
  | @unsaved state e host' failed =>
    have kept := readFile_of_save_error h.store failed
    refine ⟨h.store, by simpa only [failed] using live state, h.content.imp (fun loads => (load_congr kept).trans loads) ?_⟩
    exact Exists.imp fun document both => ⟨both.1, kept.trans both.2⟩
  | @changed value state host' saved =>
    exact ⟨h.store, by simpa only [saved] using live state, Or.inr (readFile_of_save h.store saved)⟩
  | @closed value host' saved =>
    refine ⟨h.store, by simp [h.store, Host.release, Host.isLive], Or.inr ?_⟩
    simp only [Host.readFile_release]
    exact readFile_of_save h.store saved

/-- What is known stays on file, whatever operation is carried out. -/
theorem IsOnFile.carryOut (h : IsOnFile path r host) (op : Operation) :
    IsOnFile path (r.carryOut host op).1 (r.carryOut host op).2 := by
  cases op with
  | remove id => exact h.of_ended (Mutation.ended r host (.remove id))
  | purge now => exact h.of_ended (Mutation.ended r host (.purge now))
  | provision key => exact h.of_ended (Mutation.ended r host (.provision key))
  | bind sender key => exact h.of_ended (Mutation.ended r host (.bind sender key))
  | unbind sender => exact h.of_ended (Mutation.ended r host (.unbind sender))
  | challenge key challenge => exact h.of_ended (Mutation.ended r host (.challenge key challenge))
  | close => exact h.of_ended (Mutation.ended r host .close)

/-- The host may change in any way that leaves the file and its use alone. -/
theorem IsOnFile.meanwhile (h : IsOnFile path r host) {host' : Host} (file : host'.readFile path = host.readFile path)
    (use : host'.isLive path = host.isLive path) : IsOnFile path r host' where
  store := h.store
  live := use.trans h.live
  content := h.content.imp (fun loads => (load_congr file).trans loads)
    (Exists.imp fun _ both => ⟨both.1, file.trans both.2⟩)

/-- A repository that is created on a file has what was loaded from it. -/
theorem isOnFile_of_create {validator : Validator} {created : Repository × Host}
    (opened : create validator (some path) host = .ok created) :
    load host path = .ok created.1.state ∧ IsOnFile path created.1 created.2 := by
  unfold create at opened
  simp only [bind, Except.bind] at opened
  split at opened
  · nomatch opened
  · cases loads : load host path with
    | error e =>
      rw [loads] at opened
      nomatch opened
    | ok state =>
      rw [loads] at opened
      cases opened
      exact ⟨rfl, rfl, by simp [Host.claim, Host.isLive], Or.inl loads⟩

/-! ## Created again -/

/-- Whether a repository is created on a store file, with each token of a state on the same terms. -/
def Reopens (validator : Validator) (path : DiskPath) (host : Host) (s : RepositoryState) : Prop :=
  ∃ again host', create validator (some path) host = .ok (again, host') ∧ again.state.Retains s

/-- A repository that was closed has saved its state, and left its file. -/
theorem IsOnFile.saved_of_close (h : IsOnFile path r host) (closes : (r.close host).result = .ok ()) :
    (r.close host).host.isLive path = false ∧
      ∃ document, StoreDocument.ofState r.state = .ok document ∧ (r.close host).host.readFile path = .ok document.encode := by
  obtain ⟨host', saved, same⟩ := exists_save_of_close closes
  rw [same]
  refine ⟨by simp [h.store, Host.release, Host.isLive], ?_⟩
  simp only [Host.readFile_release]
  exact readFile_of_save h.store saved

/-- Repositories are created on free files that can be loaded. -/
theorem reopens_iff_of_isLive {validator : Validator} {s : RepositoryState} (free : host.isLive path = false) :
    Reopens validator path host s ↔ ∃ state, load host path = .ok state ∧ state.Retains s := by
  unfold Reopens create
  simp only [free, Bool.false_eq_true, if_false]
  cases load host path with
  | error e => exact iff_of_false nofun nofun
  | ok state => simp [bind, Except.bind]

/-- A document is loaded if it can be put together. -/
theorem load_eq_ok_iff {document : StoreDocument} (content : host.readFile path = .ok document.encode) {state : RepositoryState} :
    load host path = .ok state ↔ document.restore = .ok state := by
  unfold load
  simp only [content, document.decode?_encode]
  cases document.restore with
  | error e => exact iff_of_false nofun nofun
  | ok restored => exact ⟨fun same => congrArg Except.ok (Except.ok.inj same), fun same => congrArg Except.ok (Except.ok.inj same)⟩

/-- A repository that was consistent when its document was written is created again exactly if its state comes back. -/
theorem reopens_iff_of_document {validator : Validator} {prompt : Prop} (consistent : r.state.IsConsistent prompt)
    (free : host.isLive path = false) {document : StoreDocument} (written : StoreDocument.ofState r.state = .ok document)
    (content : host.readFile path = .ok document.encode) : Reopens validator path host r.state ↔ r.state.ComesBack := by
  rw [reopens_iff_of_isLive free, ← RepositoryState.exists_restore_retains_iff consistent.own written]
  simp only [load_eq_ok_iff content]

end Repository

/-! ## Setups -/

namespace Action

/-- A property of servers that neither a change of the channel ends, nor an operation on channels and challenges. -/
structure IsIndifferent (P : Server → Prop) : Prop where
  channel : ∀ (server : Server) (channel : Channel), P server → P { server with channel }
  operation : ∀ {α : Type} (server : Server) (effect : Repository.Effect α), Repository.Ended server.repository server.host effect →
    Repository.Binds (server.repository, server.host) effect.after → P server →
      P { server with repository := effect.repository, host := effect.host }

variable {P : Server → Prop} (h : IsIndifferent P)
include h

/-- What does not depend on channels is kept when a sender is bound. -/
theorem IsIndifferent.keeps_bindSender (sender : String) (key : KeyName) :
    Keeps P (committing fun r host => r.bindSender host sender key) :=
  fun server => h.operation server _ (Repository.Mutation.ended _ _ (.bind sender key)) (Repository.bindSender_binds _ _ _ _)

theorem IsIndifferent.keeps_unbindSender (sender : String) :
    Keeps P (committing fun r host => r.unbindSender host sender) :=
  fun server => h.operation server _ (Repository.Mutation.ended _ _ (.unbind sender)) (Repository.unbindSender_binds _ _ _)

theorem IsIndifferent.keeps_setChallenge (key : KeyName) (challenge : Bytes) :
    Keeps P (committing fun r host => r.setChallenge host key challenge) :=
  fun server => h.operation server _ (Repository.Mutation.ended _ _ (.challenge key challenge)) (Repository.setChallenge_binds _ _ _ _)

end Action

namespace Profile

variable {P : Server → Prop} (h : Action.IsIndifferent P)
include h

/-- What does not depend on channels is kept when a context is established. -/
theorem OscoreExchange.keeps_establish_of_isIndifferent (exchange : OscoreExchange) (token : CommittedToken) :
    Action.Keeps P (exchange.establish token) := by
  rw [establish_eq]
  refine .bind (fun server => h.channel server _) fun nonce2 => .bind (fun server => h.channel server _) fun id2 => ?_
  refine .bind (fun _ holds => holds) fun context => ?_
  refine .bind (h.keeps_bindSender _ _) fun _ => .bind (fun server => h.channel server _) fun evicted => ?_
  cases evicted with
  | none => exact .pure _
  | some old => exact .bind (.tryCatch (h.keeps_unbindSender _) fun _ => .pure _) fun _ => .pure _

/-- Setups keep whatever changes of the channel and operations on channels and challenges keep. -/
theorem Asks.keeps_of_isIndifferent {request : Request} {claims : Claims} {exchanging : Bool} {setup : Setup}
    (asks : Asks request claims exchanging setup) (token : CommittedToken) : Action.Keeps P (setup token) := by
  induction asks with
  | nothing => exact .pure _
  | exchange _ => exact OscoreExchange.keeps_establish_of_isIndifferent h _ token
  | welcoming _ join known ih =>
    refine .bind ih fun _ => .bind ?_ fun _ => .pure _
    exact .bind (fun server => h.channel server _) fun challenge => .bind (h.keeps_setChallenge _ _) fun _ => .pure _

end Profile

/-! ## Admissions -/

open Repository (Fits)

/-- A server whose repository is consistent, and whose store file keeps pace with it. -/
structure Server.IsKept (prompt : Prop) (path : DiskPath) (server : Server) : Prop where
  onFile : Repository.IsOnFile path server.repository server.host
  consistent : server.repository.state.IsConsistent prompt

/-- That a token can be withdrawn has nothing to do with channels and challenges. -/
theorem Action.isIndifferent_fits (prompt : Prop) (path : DiskPath) (added : AddedToken) :
    IsIndifferent fun server => server.IsKept prompt path ∧ Fits prompt added server.repository.state where
  channel _ _ := fun both => ⟨⟨both.1.onFile, both.1.consistent⟩, both.2⟩
  operation := by
    rintro _ server effect ended binds ⟨kept, fits⟩
    refine ⟨⟨kept.onFile.of_ended ended, ?_⟩, fits.congr binds.keys⟩
    refine kept.consistent.congr binds.tokens binds.byKey fun key known => ?_
    change key ∈ effect.after.1.state.keys
    rw [binds.keys]
    exact known

namespace Endpoint

variable {prompt : Prop} {path : DiskPath} {e : Endpoint} {server : Server}

/-- Taking a token back keeps what is known on file. -/
theorem isKept_failAfter {α : Type} (h : server.IsKept prompt path) {added : AddedToken}
    (fits : Fits prompt added server.repository.state) (failure : Failure) :
    ((failAfter added failure : Action Failure α).run server).2.IsKept prompt path := by
  rw [run_failAfter]
  exact ⟨h.onFile.of_ended (Repository.Mutation.ended _ _ (.withdraw added)),
    Repository.withdraw_isConsistent h.consistent fits server.host⟩

/-- The commit of a token keeps file and state together, also if the token is taken back. -/
theorem isKept_commit (h : server.IsKept prompt path) {p : Prepared} {exchanging : Bool}
    (asks : Profile.Asks p.request p.claims exchanging p.accepted.setup) :
    ((e.commit p.request p.claims p.origin p.accepted).run server).2.IsKept prompt path := by
  obtain ⟨consistent, fits⟩ := Repository.addToken_isConsistent h.consistent server.host p.claims e.shared p.accepted.senderKey p.origin
  have added : (p.addTo e server).IsKept prompt path :=
    ⟨h.onFile.of_ended (Repository.Mutation.ended _ _ (.add p.claims e.shared p.accepted.senderKey p.origin)), consistent⟩
  rw [run_commit_eq]
  cases adds : (p.addition e server).result with
  | error failure => exact added
  | ok token =>
    have fits : Fits prompt token (p.addTo e server).repository.state := fits token adds
    simp only
    by_cases agreed : token.isUpdate = p.accepted.isUpdate
    · have kept := asks.keeps_of_isIndifferent (Action.isIndifferent_fits prompt path token) (p.committed token) _ ⟨added, fits⟩
      rw [run_finish_of_agreed agreed]
      rcases setUp : (p.accepted.setup (p.committed token)).run (p.addTo e server) with ⟨failure | extras, after⟩
      · rw [setUp] at kept
        exact isKept_failAfter kept.1 kept.2 failure
      · rw [setUp] at kept
        exact kept.1
    · unfold finish
      rw [if_pos agreed]
      exact isKept_failAfter added fits _

/-- A posted message keeps file and state together. -/
theorem isKept_receive (standard : e.profile.IsStandard) (message : Message) (h : server.IsKept prompt path) :
    (e.receive message server).2.IsKept prompt path := by
  have kept : ((e.run message).run server).2.IsKept prompt path := by
    rw [run_eq_prepare standard.isTame]
    cases prepare : e.prepare message server with
    | error failed => exact h
    | ok p =>
      obtain ⟨_, asks⟩ := standard.asks ((isPrepared_iff e message server p).mpr prepare).checked
      exact isKept_commit h asks
  unfold receive
  rcases ran : (e.run message).run server with ⟨⟨stage, failure⟩ | admitted, after⟩
  · rw [ran] at kept
    cases failure with
    | detached => exact h
    | rejected rejection => exact kept
    | internal text => exact kept
  · rw [ran] at kept
    exact kept

end Endpoint

/-! ## Runs -/

namespace Server

/-- The servers that come of a repository on a store file that nobody else touches, by admissions and other operations; with the token
that was just added, if the last operation added one, and all tokens that were added. If `prompt`, tokens are only withdrawn right
after they were added. The file may have held anything that can be loaded, and any write may fail. -/
inductive Stored (prompt : Prop) (path : DiskPath) : Server → Option AddedToken → List AddedToken → Prop
  | start {validator : Validator} {host : Host} {created : Repository × Host} (channel : Channel)
    (opened : Repository.create validator (some path) host = .ok created) : Stored prompt path ⟨created.2, created.1, channel⟩ none []
  | post {server : Server} {last : Option AddedToken} {all : List AddedToken} (before : Stored prompt path server last all)
    {e : Endpoint} (standard : e.profile.IsStandard) (message : Message) : Stored prompt path (e.receive message server).2 none all
  | add {server : Server} {last : Option AddedToken} {all : List AddedToken} (before : Stored prompt path server last all)
    {claims : Claims} {shared : SharedKey} {senderKey : Option KeyName} {origin : TokenOrigin} {effect : Repository.Effect AddedToken}
    (adds : server.repository.addToken server.host claims shared senderKey origin = effect) :
    Stored prompt path { server with repository := effect.repository, host := effect.host } effect.result.toOption
      (effect.result.toOption.toList ++ all)
  | withdraw {server : Server} {last : Option AddedToken} {all : List AddedToken} (before : Stored prompt path server last all)
    {added : AddedToken} (among : added ∈ all) (promptly : prompt → last = some added) {effect : Repository.Effect Unit}
    (withdraws : server.repository.withdraw server.host added = effect) :
    Stored prompt path { server with repository := effect.repository, host := effect.host } none all
  | other {server : Server} {last : Option AddedToken} {all : List AddedToken} (before : Stored prompt path server last all)
    (op : Repository.Operation) : Stored prompt path { server with
      repository := (server.repository.carryOut server.host op).1
      host := (server.repository.carryOut server.host op).2 } none all
  | meanwhile {server : Server} {last : Option AddedToken} {all : List AddedToken} (before : Stored prompt path server last all)
    {host : Host} (channel : Channel) (file : host.readFile path = server.host.readFile path)
    (use : host.isLive path = server.host.isLive path) : Stored prompt path { server with host, channel } last all

/-- After every such run, file and state are together, and whatever was added can be withdrawn. -/
theorem Stored.isKept {prompt : Prop} {path : DiskPath} {server : Server} {last : Option AddedToken} {all : List AddedToken}
    (run : Stored prompt path server last all) : server.IsKept prompt path ∧
      (∀ added, last = some added → Fits prompt added server.repository.state) ∧
      ∀ added ∈ all, Fits False added server.repository.state := by
  induction run with
  | start channel opened =>
    obtain ⟨loads, onFile⟩ := Repository.isOnFile_of_create opened
    exact ⟨⟨onFile, Repository.isConsistent_of_load loads prompt⟩, nofun, nofun⟩
  | post before standard message ih =>
    obtain ⟨kept, _, fits⟩ := ih
    exact ⟨Endpoint.isKept_receive standard message kept, nofun, fun added among => (fits added among).late _⟩
  | @add server last all before claims shared senderKey origin effect adds ih =>
    obtain ⟨kept, _, fits⟩ := ih
    subst adds
    obtain ⟨consistent, fresh⟩ := Repository.addToken_isConsistent kept.consistent server.host claims shared senderKey origin
    refine ⟨⟨kept.onFile.of_ended (Repository.Mutation.ended _ _ (.add claims shared senderKey origin)), consistent⟩, ?_, ?_⟩
    · exact fun added made => fresh added (Repository.eq_ok_of_toOption made)
    · intro added among
      rcases List.mem_append.mp among with new | early
      · exact (fresh added (Repository.eq_ok_of_toOption (Option.mem_toList.mp new))).late _
      · exact (fits added early).late _
  | @withdraw server last all before added among promptly effect withdraws ih =>
    obtain ⟨kept, fresh, fits⟩ := ih
    subst withdraws
    have releases : Fits prompt added server.repository.state :=
      ⟨(fits added among).own, fun now => (fresh added (promptly now)).keyed now⟩
    exact ⟨⟨kept.onFile.of_ended (Repository.Mutation.ended _ _ (.withdraw added)),
      Repository.withdraw_isConsistent kept.consistent releases server.host⟩, nofun, fun other early => (fits other early).late _⟩
  | @other server last all before op ih =>
    obtain ⟨kept, _, fits⟩ := ih
    exact ⟨⟨kept.onFile.carryOut op, (Repository.changes_carryOut _ _ op).isConsistent kept.consistent⟩, nofun,
      fun added early => (fits added early).late _⟩
  | meanwhile before channel file use ih =>
    obtain ⟨kept, fresh, fits⟩ := ih
    exact ⟨⟨kept.onFile.meanwhile file use, kept.consistent⟩, fresh, fits⟩

/-- A store file is loaded again, with every token on the same terms, if the state comes back; and only then, once the state was
saved. If tokens were withdrawn promptly, what they keep is plain, and every key is legible or was decoded by itself and is plain, the
state comes back exactly if no such key is nested as deep as can be. -/
theorem Stored.reopens_iff {prompt : Prop} {path : DiskPath} {server : Server} {last : Option AddedToken} {all : List AddedToken}
    (run : Stored prompt path server last all) :
    (server.repository.state.ComesBack → ∀ validator,
      Repository.Reopens validator path (server.repository.discard server.host) server.repository.state) ∧
    ((server.repository.close server.host).result = .ok () → ∀ validator,
      Repository.Reopens validator path (server.repository.close server.host).host server.repository.state ↔
        server.repository.state.ComesBack) ∧
    (prompt →
      (∀ (id : TokenId) (record : TokenRecord), server.repository.state.tokens[id]? = some record → record.IsPlain id) →
      (∀ (name : KeyName) (bound : BoundKey), server.repository.state.keys[name]? = some bound →
        bound.key.IsLegible ∨ ∃ key : Cose.Key, bound.key = .cose key ∧ key.IsPlain) →
      (server.repository.state.ComesBack ↔
        ∀ (name : KeyName) (bound : BoundKey), server.repository.state.keys[name]? = some bound →
          ∀ key : Cose.Key, bound.key = .cose key → key.IsPlain → ∀ p ∈ key.params, p.2.depth ≤ 254)) := by
  obtain ⟨⟨onFile, consistent⟩, _⟩ := run.isKept
  refine ⟨fun back validator => ?_, fun closes validator => ?_, fun promptly plain keys => ⟨?_, ?_⟩⟩
  · have free := Repository.isLive_discard onFile.store onFile.live
    have same := server.repository.readFile_discard server.host path
    rcases onFile.content with loads | ⟨document, written, content⟩
    · rw [Repository.reopens_iff_of_isLive free]
      exact ⟨_, (Repository.load_congr same).trans loads, .refl _⟩
    · exact (Repository.reopens_iff_of_document consistent free written (same.trans content)).mpr back
  · obtain ⟨free, document, written, content⟩ := onFile.saved_of_close closes
    exact Repository.reopens_iff_of_document consistent free written content
  · intro back name bound found key same decoded
    exact (PopKey.isLegible_iff_of_isPlain decoded).mp (same ▸ back.keys name bound found)
  · intro shallow
    refine ⟨fun id record found => (plain id record found).comesBack, fun name bound found => ?_, consistent.keyed promptly⟩
    rcases keys name bound found with legible | ⟨key, same, decoded⟩
    · exact legible
    · rw [same]
      exact (PopKey.isLegible_iff_of_isPlain decoded).mpr (shallow name bound found key same decoded)

namespace Sample

/-- A message with a token that refers to the key `a` and carries, besides its claims, one whose label is a tag for integers on a byte
string that is cut up. -/
def labelled : Message where
  payload := [0x83, 0x43, 0xa1, 0x01, 0x0a, 0xa1, 0x05, 0x4d] ++ List.replicate 13 0x00 ++ [0x58, 0x1f, 0x73, 0x79, 0x92, 0x0e,
    0x60, 0x92, 0xcd, 0x6d, 0x58, 0xcf, 0x35, 0x37, 0xff, 0xa4, 0xaf, 0x16, 0xc8, 0x72, 0x9d, 0xe2, 0xb4, 0x5c, 0x14, 0xa5, 0xd5,
    0x3d, 0x11, 0x3a, 0x69, 0xb2, 0xb7]

/-- What the message comes to on a repository that knows the key, on a new file. -/
def answered : Admission × Server :=
  Endpoint.Sample.opener.receive labelled ⟨Repository.Sample.agreed.2, Repository.Sample.agreed.1, Endpoint.Sample.channel⟩

theorem stored_answered : Stored True Repository.Sample.storeFile answered.2 none [] := by
  have start : Stored True Repository.Sample.storeFile ⟨Repository.Sample.opened.2, Repository.Sample.opened.1, Endpoint.Sample.channel⟩
      none [] := .start Endpoint.Sample.channel (Repository.eq_ok_of_toOption (Option.some_get _).symm)
  exact (start.other (.provision (Repository.Sample.popKey 0x61))).post .dtls labelled

end Sample

/-- The token is admitted and saved, but the label is read again as that of the expiration, so that no repository is created on the
file any more. -/
theorem Stored.reopens_iff_of_label :
    Sample.answered.1.result.isOk = true ∧ (Sample.answered.2.repository.close Sample.answered.2.host).result = .ok () ∧
      ∀ validator, ¬Repository.Reopens validator Repository.Sample.storeFile
        (Sample.answered.2.repository.close Sample.answered.2.host).host Sample.answered.2.repository.state := by
  -- All of this is computed at once, so that the token is decrypted only once.
  have computed : Sample.answered.1.result.isOk = true ∧
      (Sample.answered.2.repository.close Sample.answered.2.host).result.toOption.isSome = true ∧
        Sample.answered.2.repository.state.tokens[(⟨[1]⟩ : TokenId)]?.any (fun record => record.claims.reread?.isNone) = true := by
    decide +kernel
  obtain ⟨admitted, closed, lost⟩ := computed
  obtain ⟨_, made⟩ := Option.isSome_iff_exists.mp closed
  have closes := Repository.eq_ok_of_toOption made
  obtain ⟨_, exactly, _⟩ := Sample.stored_answered.reopens_iff
  refine ⟨admitted, closes, fun validator reopens => ?_⟩
  obtain ⟨record, found, unread⟩ := (Option.any_eq_true _ _).mp lost
  obtain ⟨again, read, _⟩ := ((exactly closes validator).mp reopens).tokens _ record found
  rw [read] at unread
  nomatch unread

end Server

end TokenGate
