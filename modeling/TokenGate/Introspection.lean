import TokenGate.Claims.Basic

/-!
# Introspection

The issuer's view of a token, which the server asks for by the token's reference, or by the text of
its identifier. How the question gets to the issuer is up to the application.
-/

namespace TokenGate

/-- What the issuer says about a token. -/
inductive IntrospectionAnswer where
  | active (claims : Claims)
  | inactive
  /-- No answer came, or none that could be read. -/
  | failed

/-- The issuer's answers, as a function of what it is asked about. -/
abbrev Introspection := String → IntrospectionAnswer

end TokenGate
