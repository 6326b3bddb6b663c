import TokenGate.Oscore.Derivation
import TokenGate.PopKey

/-!
# Established contexts

The contexts that are in use, most recently used first. There is room for a fixed number of them;
the least recently used one makes room for another. Identifiers for new contexts are single bytes
that count up and skip the ones in use.
-/

namespace TokenGate.Oscore

/-- How many contexts are kept. -/
def maxContexts : Nat := 16

/-- A context with the key of the token that it was set up for. -/
structure StoredContext where
  context : Context
  key : KeyName
  deriving DecidableEq, Repr

/-- The contexts in use, and the identifier handed out last. -/
structure Contexts where
  lastId : UInt8 := 0
  /-- Most recently used first. -/
  entries : List StoredContext := []
  deriving DecidableEq, Repr

namespace Contexts

/-- The first identifier after `last` that is not taken, skipping at most `skips` ones. -/
def nextFree (taken : UInt8 → Bool) : (skips : Nat) → (last : UInt8) → UInt8
  | 0, last => last + 1
  | skips + 1, last => if taken (last + 1) then nextFree taken skips (last + 1) else last + 1

/-- Whether an identifier is the peer's own or that of a context in use. -/
def isTaken (contexts : Contexts) (peerId : Bytes) (id : UInt8) : Bool :=
  peerId == [id] || contexts.entries.any fun e => e.context.recipientId == [id]

/-- An identifier for a new context with a peer. No more can be taken than there are contexts, and
one for the peer. -/
def takeId (contexts : Contexts) (peerId : Bytes) : Bytes × Contexts :=
  let id := nextFree (contexts.isTaken peerId) (maxContexts + 1) contexts.lastId
  ([id], { contexts with lastId := id })

/-- The contexts with another one put in front, and the one that made room for it. -/
def insert (contexts : Contexts) (entry : StoredContext) : Option StoredContext × Contexts :=
  if contexts.entries.length < maxContexts then
    (none, { contexts with entries := entry :: contexts.entries })
  else
    (contexts.entries.getLast?, { contexts with entries := entry :: contexts.entries.dropLast })

/-- There is never more than the fixed number of contexts. -/
theorem length_insert_le (contexts : Contexts) (entry : StoredContext)
    (h : contexts.entries.length ≤ maxContexts) :
    (contexts.insert entry).2.entries.length ≤ maxContexts := by
  have : 0 < maxContexts := by decide
  unfold insert
  split <;> simp only [List.length_cons, List.length_dropLast] <;> omega

/-- The context that receives with an identifier, which is a use of it and moves it to the front. -/
def find (contexts : Contexts) (recipientId : Bytes) : Option StoredContext × Contexts :=
  let isMatch (e : StoredContext) : Bool := e.context.recipientId == recipientId
  match contexts.entries.find? isMatch with
  | some entry =>
    (some entry, { contexts with entries := entry :: contexts.entries.eraseP isMatch })
  | none => (none, contexts)

/-- A use of a context moves it and changes nothing else. -/
theorem entries_find_perm (contexts : Contexts) (recipientId : Bytes) :
    (contexts.find recipientId).2.entries.Perm contexts.entries := by
  unfold find
  simp only
  split
  · rename_i entry found
    obtain ⟨isMatch, before, after, whole, others⟩ := List.find?_eq_some_iff_append.1 found
    have rest : contexts.entries.eraseP (fun e => e.context.recipientId == recipientId)
        = before ++ after := by
      rw [whole, List.eraseP_append_right _ (by simpa using others),
        List.eraseP_cons_of_pos (by simpa using isMatch)]
    rw [rest, whole]
    exact List.perm_middle.symm
  · exact List.Perm.refl _

/-- The last identifier and the number of contexts. -/
def describe (contexts : Contexts) : String :=
  "ContextStore \x7b last_id2: " ++ toString contexts.lastId.toNat ++ ", contexts: "
    ++ toString contexts.entries.length ++ " \x7d"

end Contexts

end TokenGate.Oscore
