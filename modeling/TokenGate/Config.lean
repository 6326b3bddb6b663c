import TokenGate.Admission.Basic
import TokenGate.Profile.GroupJoin
import TokenGate.Text.Hex
import TokenGate.Toml.Reading

/-!
# Configuration

The settings of a server, read from TOML: who it is, whom it trusts, the key shared with the issuer,
the keys agreed on out of band, and what scopes are worth. A setting with an unknown name is an error.
Keys are hexadecimal, which is looked at only when they are used.
-/

namespace TokenGate

/-- The settings for the key shared with the issuer. -/
structure SharedKeyConfig where
  key : String
  /-- The COSE label of the algorithm; AES-CCM-16-128-128 if there is none. -/
  alg : Int64 := 30
  deriving DecidableEq, Repr

/-- The settings for a key agreed on out of band. -/
structure KeyConfig where
  kid : String
  k : String
  deriving DecidableEq, Repr

/-- The settings for a group. -/
structure GroupConfig where
  signAlg : Option Int64
  signParameters : Option (List (List Int64))
  signKeyParameters : Option (List Int64)
  credFmt : Option Int64
  deriving DecidableEq, Repr

/-- The settings for groups. -/
structure GroupsConfig where
  root : String
  managers : List String
  groups : Std.ExtTreeMap String GroupConfig
  /-- The methods of roles, perhaps in several parts; if there are none, the usual ones. -/
  roleMethods : List (Role × List Method)

/-- The settings of a server. -/
structure Config where
  audiences : List String
  issuers : List String
  asUri : String
  tokenStore : Option DiskPath
  sharedKey : SharedKeyConfig
  keys : List KeyConfig
  /-- The methods that a permission name allows on resources. -/
  scopes : Std.ExtTreeMap String (Std.ExtTreeMap String (List Method))
  groups : Option GroupsConfig

/-- Why there are no settings, or they are of no use. -/
inductive ConfigError where
  /-- The file cannot be read. -/
  | unreadable
  /-- The text is no TOML, or not the settings of a server. -/
  | malformed
  | noAudience
  | noIssuer
  | badHex (setting : String) (error : Text.Hex.Error)
  | badSharedKey (error : CryptoError)
  | repository (error : RepositoryError)
  deriving DecidableEq

/-- The wording of an error that is about the settings themselves. -/
def ConfigError.message? : ConfigError → Option String
  | noAudience => some "Configuration error: at least one audience is required"
  | noIssuer => some "Configuration error: at least one issuer is required"
  | badHex setting error =>
    some ("Configuration error: " ++ setting ++ " is not valid hex: " ++ error.message)
  | badSharedKey error => some ("Configuration error: as_key: " ++ error.message)
  | repository error => error.message?
  | unreadable | malformed => none

namespace Config

/-- A setting that may be missing. -/
def optional? {α : Type} (read : Toml → Option α) : Option Toml → Option (Option α)
  | none => some none
  | some v => (read v).map some

/-- A setting that is `missing` where it is not made. -/
def withDefault? {α : Type} (read : Toml → Option α) (missing : α) (v : Option Toml) : Option α :=
  (optional? read v).map (·.getD missing)

/-- Several texts. -/
def texts? : Toml → Option (List String) := Toml.items? Toml.text?

/-- Several integers. -/
def integers? : Toml → Option (List Int64) := Toml.items? Toml.integer?

/-- Several methods, by their names. -/
def methods? : Toml → Option (List Method) := Toml.items? fun v => v.name?.bind Method.ofName?

/-- Settings for every key of a table. -/
def table? {α : Type} (read : Toml → Option α) (v : Toml) : Option (Std.ExtTreeMap String α) :=
  (v.entries? read).map fun entries => .ofList entries

/-- The settings for the shared key. -/
def sharedKey? (v : Toml) : Option SharedKeyConfig := do
  match ← v.parts? ["key", "alg"] with
  | [some key, alg] => some { key := ← key.text?, alg := ← withDefault? Toml.integer? 30 alg }
  | _ => none

/-- The settings for a key agreed on out of band. -/
def key? (v : Toml) : Option KeyConfig := do
  match ← v.parts? ["kid", "k"] with
  | [some kid, some k] => some { kid := ← kid.text?, k := ← k.text? }
  | _ => none

/-- Whether a record that is an array has all of its parts. -/
def isComplete (size : Nat) : Toml → Bool
  | .array items => size ≤ items.length
  | _ => true

/-- The settings for a group. -/
def group? (v : Toml) : Option GroupConfig := do
  match ← v.parts? ["sign_alg", "sign_parameters", "sign_key_parameters", "cred_fmt"] with
  | [signAlg, signParameters, signKeyParameters, credFmt] =>
    if isComplete 4 v then
      some { signAlg := ← optional? Toml.integer? signAlg
             signParameters := ← optional? (Toml.items? integers?) signParameters
             signKeyParameters := ← optional? integers? signKeyParameters
             credFmt := ← optional? Toml.integer? credFmt }
    else none
  | _ => none

/-- The methods of a role. -/
def roleMethods? (v : Toml) : Option (Role × List Method) := do
  match ← v.parts? ["role", "methods"] with
  | [some role, some methods] => some (← Role.ofName? (← role.name?), ← methods? methods)
  | _ => none

/-- The settings for groups. -/
def groups? (v : Toml) : Option GroupsConfig := do
  match ← v.parts? ["root", "manager_audiences", "groups", "role_methods"] with
  | [root, managers, groups, roleMethods] =>
    some { root := ← withDefault? Toml.text? "ace-group" root
           managers := ← withDefault? texts? [] managers
           groups := ← withDefault? (table? group?) ∅ groups
           roleMethods := ← withDefault? (Toml.items? roleMethods?) [] roleMethods }
  | _ => none

/-- The names of all settings. -/
def settings : List String :=
  ["audiences", "issuers", "as_uri", "token_store", "as_key", "keys", "scopes", "groups"]

/-- The settings that a TOML table makes. -/
def ofToml? (v : Toml) : Option Config := do
  match ← v.parts? settings with
  | [some audiences, some issuers, asUri, tokenStore, some sharedKey, keys, scopes, groups] =>
    some { audiences := ← texts? audiences
           issuers := ← texts? issuers
           asUri := ← withDefault? Toml.text? "" asUri
           tokenStore := (← optional? Toml.text? tokenStore).map .mk
           sharedKey := ← sharedKey? sharedKey
           keys := ← withDefault? (Toml.items? key?) [] keys
           scopes := ← withDefault? (table? (table? methods?)) ∅ scopes
           groups := ← optional? groups? groups }
  | _ => none

/-- The settings in a text. There has to be someone to issue tokens, and someone they are for. -/
def decode (s : String) : Except ConfigError Config :=
  match (Toml.decode? s).bind ofToml? with
  | none => .error .malformed
  | some config =>
    if config.audiences.isEmpty then .error .noAudience
    else if config.issuers.isEmpty then .error .noIssuer
    else .ok config

/-- The settings in a file. -/
def load (host : Host) (path : DiskPath) : Except ConfigError Config :=
  match (host.readFile path).toOption.bind Text.ofUtf8? with
  | some s => decode s
  | none => .error .unreadable

namespace GroupsConfig

/-- The methods of each role: all parts put together. -/
def methodsOfRoles (parts : List (Role × List Method)) : Std.ExtTreeMap Role Methods :=
  parts.foldl (fun all (role, methods) =>
    all.insert role ((all.getD role ∅).insertMany methods)) ∅

/-- The group policy that the settings make. -/
def policy (config : GroupsConfig) : GroupPolicy :=
  let base : GroupPolicy :=
    { root := config.root, managers := .ofList config.managers, groups := .ofList config.groups.keys }
  if config.roleMethods.isEmpty then base
  else { base with roleMethods := methodsOfRoles config.roleMethods }

end GroupsConfig

/-- The group policy that the settings make, if they are about groups. -/
def groupPolicy? (config : Config) : Option GroupPolicy := config.groups.map GroupsConfig.policy

/-- The policy that the settings make. -/
def scopePolicy (config : Config) : ScopePolicy where
  audiences := config.audiences
  grants := config.scopes.toList.flatMap fun (name, resources) =>
    resources.toList.map fun (resource, methods) => { name, resource, methods }
  groups := config.groupPolicy?

/-- The bytes of a setting in hexadecimal. -/
def bytesOf (setting s : String) : Except ConfigError Bytes :=
  (Text.Hex.decode s).mapError (.badHex setting)

/-- The key shared with the issuer. -/
def shared (config : Config) : Except ConfigError SharedKey := do
  let alg ← (CcmAlgorithm.ofLabel config.sharedKey.alg).mapError .badSharedKey
  let key ← bytesOf "as_key.key" config.sharedKey.key
  (SharedKey.create key alg).mapError .badSharedKey

/-- A key agreed on out of band. -/
def popKey (config : KeyConfig) : Except ConfigError PopKey := do
  .ok (.symmetric (Text.utf8 config.kid) (← bytesOf ("key " ++ config.kid) config.k))

/-- A repository on its host after keys were made known to it. If one of them is refused, the
repository is given up. -/
def provision (r : Repository) (host : Host) :
    List PopKey → Except ConfigError Repository × Host
  | [] => (.ok r, host)
  | key :: keys =>
    let effect := r.provisionKey host key
    match effect.result with
    | .ok _ => provision effect.repository effect.host keys
    | .error e => (.error (.repository e), effect.repository.discard effect.host)

/-- Opens the repository, with all keys that were agreed on out of band. -/
def openRepository (config : Config) (validator : Validator) (host : Host) :
    Except ConfigError Repository × Host :=
  match config.keys.mapM popKey with
  | .error e => (.error e, host)
  | .ok keys =>
    match Repository.create validator config.tokenStore host with
    | .error e => (.error (.repository e), host)
    | .ok (r, host) => provision r host keys

/-- The place where tokens are posted to, for some profile. -/
def endpoint (config : Config) (validator : Validator) (profile : Profile) :
    Except ConfigError Endpoint := do
  .ok { profile, validator, shared := ← config.shared, issuers := config.issuers
        audiences := config.audiences, asUri := config.asUri }

/-- An array of integers as a value. -/
def integerArray (ns : List Int64) : Cbor.Value := .array (ns.map .ofInt64)

/-- What is told about a group to members that ask, if it is known how they sign. -/
def groupInfo? (config : GroupConfig) : Option Profile.GroupInfo :=
  config.signAlg.map fun signAlg =>
    { signAlg
      signParameters := config.signParameters.map fun ps => .array (ps.map integerArray)
      signKeyParameters := config.signKeyParameters.map integerArray
      credFmt := config.credFmt }

/-- A profile with the joining of groups added to it, if the settings are about groups. -/
def groupJoin? (config : Config) (inner : Profile) : Option Profile :=
  config.groups.map fun groups =>
    Profile.groupJoin inner (GroupsConfig.policy groups)
      (groups.groups.filterMap fun _ group => groupInfo? group)

end Config

end TokenGate
