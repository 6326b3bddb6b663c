/-!
# Claim keys

The claims that the server acts on, each with its registered label and name.
-/

namespace TokenGate

/-- A claim that the server acts on. -/
inductive ClaimKey where
  | iss
  | sub
  | aud
  | exp
  | nbf
  | iat
  | cti
  | cnf
  | scope
  | aceProfile
  | cnonce
  | exi
  deriving DecidableEq, Repr

namespace ClaimKey

/-- Every claim key, in the order of their labels. -/
def all : List ClaimKey :=
  [iss, sub, aud, exp, nbf, iat, cti, cnf, scope, aceProfile, cnonce, exi]

/-- The label of a claim in a claims set. -/
def label : ClaimKey → UInt64
  | iss => 1
  | sub => 2
  | aud => 3
  | exp => 4
  | nbf => 5
  | iat => 6
  | cti => 7
  | cnf => 8
  | scope => 9
  | aceProfile => 38
  | cnonce => 39
  | exi => 40

/-- The registered name of a claim. -/
def name : ClaimKey → String
  | iss => "iss"
  | sub => "sub"
  | aud => "aud"
  | exp => "exp"
  | nbf => "nbf"
  | iat => "iat"
  | cti => "cti"
  | cnf => "cnf"
  | scope => "scope"
  | aceProfile => "ace_profile"
  | cnonce => "cnonce"
  | exi => "exi"

/-- The claim with a label. -/
def ofLabel? (n : UInt64) : Option ClaimKey := all.find? fun k => k.label = n

theorem mem_all (k : ClaimKey) : k ∈ all := by
  cases k <;> simp [all]

theorem ofLabel?_label (k : ClaimKey) : ofLabel? k.label = some k := by
  cases k <;> rfl

end ClaimKey

end TokenGate
