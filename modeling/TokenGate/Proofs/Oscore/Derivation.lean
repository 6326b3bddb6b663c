import TokenGate.Oscore.Derivation
import TokenGate.Proofs.Cbor.Unambiguity
import TokenGate.Proofs.Cose.Labels

/-!
# Inputs of the key derivation

The keys of a context are expanded from a secret and a salt under infos. Everything that goes into salt and infos is written as
CBOR, so that it can be told from them: strings of different lengths never run into each other, and a salt does not become another
one by the zero bytes that an authentication code adds to a short key.
-/

namespace TokenGate.Oscore

open Cbor

variable {material : Material} {nonce1 nonce2 senderId recipientId : Bytes} {context : Context}

/-! ## Derived contexts -/

/-- A context is derived for different peers from material that asks for nothing unknown. -/
theorem derive_eq_ok_iff : derive material nonce1 nonce2 senderId recipientId = .ok context ↔
    material.version.filter (· ≠ 1) = none ∧ material.hkdf.filter (· ≠ hkdfSha256) = none ∧ senderId ≠ recipientId ∧
      ∃ keys, deriveKeys material.ms (masterSalt material.salt nonce1 nonce2) material.contextId senderId recipientId
          (material.alg.getD defaultAlgorithm) = .ok keys ∧
        context = { alg := material.alg.getD defaultAlgorithm, idContext := material.contextId, senderId, recipientId, keys } := by
  unfold derive
  constructor
  · intro h
    split at h
    · nomatch h
    · nomatch h
    · rename_i version hkdf
      split at h
      · nomatch h
      rename_i apart
      cases derived : deriveKeys material.ms (masterSalt material.salt nonce1 nonce2) material.contextId senderId recipientId
          (material.alg.getD defaultAlgorithm) with
      | error failure =>
        simp only [derived, bind, Except.bind] at h
        nomatch h
      | ok keys =>
        simp only [derived, bind, Except.bind] at h
        cases h
        exact ⟨version, hkdf, apart, keys, rfl, rfl⟩
  · rintro ⟨version, hkdf, apart, keys, derived, rfl⟩
    simp only [version, hkdf, if_neg apart, derived, bind, Except.bind]

/-- The keys of a context are expanded for each of the peers, and for neither of them, if the algorithm is known. -/
theorem deriveKeys_eq_ok_iff {secret salt : Bytes} {idContext : Option Bytes} {alg : Int64} {keys : DerivedKeys} :
    deriveKeys secret salt idContext senderId recipientId alg = .ok keys ↔
      ∃ keyLength nonceLength, lengths? alg = some (keyLength, nonceLength) ∧
        keys = {
          senderKey := Hkdf.expand (Hkdf.extract salt secret) (info senderId idContext alg "Key" keyLength) keyLength
          recipientKey := Hkdf.expand (Hkdf.extract salt secret) (info recipientId idContext alg "Key" keyLength) keyLength
          commonIv := Hkdf.expand (Hkdf.extract salt secret) (info [] idContext alg "IV" nonceLength) nonceLength } := by
  unfold deriveKeys
  split
  · rename_i unknown
    simp [unknown]
  · rename_i keyLength nonceLength known
    simp [known, eq_comm]

/-- The peers of a derived context are the ones it was derived for, and not the same. -/
theorem derive_ok (h : derive material nonce1 nonce2 senderId recipientId = .ok context) :
    context.senderId = senderId ∧ context.recipientId = recipientId ∧ senderId ≠ recipientId := by
  obtain ⟨_, _, apart, _, _, rfl⟩ := derive_eq_ok_iff.mp h
  exact ⟨rfl, rfl, apart⟩

/-! ## Salts -/

/-- The byte strings that a master salt is made of. An absent salt counts as the empty one. -/
def saltParts (salt : Option Bytes) (nonce1 nonce2 : Bytes) : List Bytes := [salt.getD [], nonce1, nonce2]

/-- A master salt is the encodings of its parts, one after the other. -/
theorem masterSalt_eq (salt : Option Bytes) (nonce1 nonce2 : Bytes) :
    masterSalt salt nonce1 nonce2 = Value.encodeItems ((saltParts salt nonce1 nonce2).map .bytes) := by
  simp [masterSalt, saltParts, Value.encodeItems]

/-- Byte strings in memory can be written. -/
theorem isWritable_of_mem_map {parts : List Bytes} (short : ∀ bs ∈ parts, bs.length < 2 ^ 64) :
    ∀ v ∈ parts.map Value.bytes, v.IsWritable := by
  intro v among
  obtain ⟨bs, part, rfl⟩ := List.mem_map.mp among
  exact .bytes (short bs part)

/-- A master salt says what it is made of and where it ends, whatever follows it. -/
theorem masterSalt_append_inj {salt salt' : Option Bytes} {nonce1' nonce2' rest rest' : Bytes}
    (short : ∀ bs ∈ saltParts salt nonce1 nonce2, bs.length < 2 ^ 64)
    (short' : ∀ bs ∈ saltParts salt' nonce1' nonce2', bs.length < 2 ^ 64)
    (same : masterSalt salt nonce1 nonce2 ++ rest = masterSalt salt' nonce1' nonce2' ++ rest') :
    saltParts salt nonce1 nonce2 = saltParts salt' nonce1' nonce2' ∧ rest = rest' := by
  rw [masterSalt_eq, masterSalt_eq] at same
  obtain ⟨parts, rests⟩ := Value.encodeItems_append_inj (fun v among => (isWritable_of_mem_map short v among).isTold)
    (isWritable_of_mem_map short') rfl same
  exact ⟨List.map_injective_iff.mpr (fun _ _ => Value.bytes.inj) parts, rests⟩

/-! ## Infos -/

/-- What goes into an info can be written: its lengths are those of strings in memory. -/
structure FitsInfo (id : Bytes) (idContext : Option Bytes) (kind : String) (length : Nat) : Prop where
  id : id.length < 2 ^ 64
  idContext : ∀ bs ∈ idContext, bs.length < 2 ^ 64
  kind : (Text.utf8 kind).length < 2 ^ 64
  length : length < 2 ^ 64

section

variable {id id' : Bytes} {idContext idContext' : Option Bytes} {alg alg' : Int64} {kind kind' : String} {length length' : Nat}

/-- The value that an info is the encoding of. -/
def infoValue (id : Bytes) (idContext : Option Bytes) (alg : Int64) (kind : String) (length : Nat) : Value :=
  .array [.bytes id, idContext.elim .null .bytes, .ofInt64 alg, .text kind, .uint (UInt64.ofNat length)]

/-- An info is the encoding of a value. -/
theorem info_eq (id : Bytes) (idContext : Option Bytes) (alg : Int64) (kind : String) (length : Nat) :
    info id idContext alg kind length = (infoValue id idContext alg kind length).encode := by
  cases idContext <;> rfl

/-- The value of an info can be written if what goes into it fits. -/
theorem FitsInfo.isWritable (h : FitsInfo id idContext kind length) (alg : Int64) :
    (infoValue id idContext alg kind length).IsWritable := by
  have context : (idContext.elim Value.null Value.bytes).IsWritable := by
    cases idContext with
    | none => exact .null
    | some bs => exact .bytes (h.idContext bs rfl)
  refine .array (by simp) ?_
  simp only [List.forall_mem_cons]
  exact ⟨.bytes h.id, context, Value.isWritable_ofInt64 alg, .text h.kind, .uint _, List.forall_mem_nil _⟩

/-- An info says what it is made of. -/
theorem info_inj (fits : FitsInfo id idContext kind length) (fits' : FitsInfo id' idContext' kind' length')
    (same : info id idContext alg kind length = info id' idContext' alg' kind' length') :
    id = id' ∧ idContext = idContext' ∧ alg = alg' ∧ kind = kind' ∧ length = length' := by
  rw [info_eq, info_eq] at same
  have values := ((fits.isWritable alg).encode_append_inj (fits'.isWritable alg') (congrArg (· ++ []) same)).1
  simp only [infoValue, Value.array.injEq, List.cons.injEq, Value.bytes.injEq, Value.text.injEq, Value.uint.injEq,
    and_true] at values
  obtain ⟨ids, contexts, algs, kinds, lengths⟩ := values
  refine ⟨ids, ?_, Value.ofInt64_inj algs, kinds, Value.length_inj fits.length fits'.length (congrArg some lengths)⟩
  cases idContext <;> cases idContext' <;> simp_all

/-- Infos for the keys of different peers, and for what is common to them, are different. -/
theorem nodup_infos (apart : id ≠ id') (fits : FitsInfo id idContext "Key" length) (fits' : FitsInfo id' idContext "Key" length)
    (fitsIv : FitsInfo [] idContext "IV" length') (alg : Int64) :
    [info id idContext alg "Key" length, info id' idContext alg "Key" length, info [] idContext alg "IV" length'].Nodup := by
  have peers : info id idContext alg "Key" length ≠ info id' idContext alg "Key" length :=
    fun same => apart (info_inj fits fits' same).1
  have kinds : ∀ {peer : Bytes}, FitsInfo peer idContext "Key" length →
      info peer idContext alg "Key" length ≠ info [] idContext alg "IV" length' :=
    fun fits same => absurd (info_inj fits fitsIv same).2.2.2.1 (by decide)
  simp only [List.nodup_cons, List.mem_cons, List.not_mem_nil, or_false, not_or, not_false_eq_true, List.nodup_nil, and_true]
  exact ⟨⟨peers, kinds fits⟩, kinds fits'⟩

end

/-! ## The derivation -/

/-- Keys and nonces of the algorithms are short. -/
theorem lengths?_le {alg : Int64} {keyLength nonceLength : Nat} (known : lengths? alg = some (keyLength, nonceLength)) :
    keyLength ≤ 32 ∧ nonceLength ≤ 13 := by
  obtain ⟨before, after, table, _⟩ := List.lookup_eq_some_iff.mp known
  have each : ∀ entry ∈ before ++ (alg, keyLength, nonceLength) :: after, entry.2.1 ≤ 32 ∧ entry.2.2 ≤ 13 := by
    rw [← table]
    decide
  exact each _ (List.mem_append_right before List.mem_cons_self)

/-- What the keys of a context are derived from is unambiguous. A master salt determines both nonces and the salt, and with any
number of zero bytes after it, it is no master salt. An info determines all that it is made of, where no context identifier is different
from the empty one. So the three keys of a context are expanded under three infos. -/
theorem derivation_unambiguous :
    (∀ (salt salt' : Option Bytes) (nonce1 nonce1' nonce2 nonce2' : Bytes),
      (∀ bs ∈ [salt.getD [], nonce1, nonce2, salt'.getD [], nonce1', nonce2'], bs.length < 2 ^ 64) →
      (masterSalt salt nonce1 nonce2 = masterSalt salt' nonce1' nonce2' ↔
        salt.getD [] = salt'.getD [] ∧ nonce1 = nonce1' ∧ nonce2 = nonce2') ∧
      ∀ zeros, 0 < zeros → masterSalt salt nonce1 nonce2 ++ List.replicate zeros 0 ≠ masterSalt salt' nonce1' nonce2') ∧
    (∀ (id id' : Bytes) (idContext idContext' : Option Bytes) (alg alg' : Int64) (kind kind' : String) (length length' : Nat),
      FitsInfo id idContext kind length → FitsInfo id' idContext' kind' length' →
      (info id idContext alg kind length = info id' idContext' alg' kind' length' ↔
        id = id' ∧ idContext = idContext' ∧ alg = alg' ∧ kind = kind' ∧ length = length')) ∧
    ∀ (material : Material) (nonce1 nonce2 senderId recipientId : Bytes) (context : Context),
      derive material nonce1 nonce2 senderId recipientId = .ok context →
      (∀ bs ∈ [material.contextId.getD [], senderId, recipientId], bs.length < 2 ^ 64) →
      ∃ keyLength nonceLength, lengths? context.alg = some (keyLength, nonceLength) ∧
        let key := Hkdf.extract (masterSalt material.salt nonce1 nonce2) material.ms
        let infoOf (id : Bytes) (kind : String) (length : Nat) : Bytes := info id material.contextId context.alg kind length
        context.keys = {
          senderKey := Hkdf.expand key (infoOf senderId "Key" keyLength) keyLength
          recipientKey := Hkdf.expand key (infoOf recipientId "Key" keyLength) keyLength
          commonIv := Hkdf.expand key (infoOf [] "IV" nonceLength) nonceLength } ∧
        [infoOf senderId "Key" keyLength, infoOf recipientId "Key" keyLength, infoOf [] "IV" nonceLength].Nodup := by
  refine ⟨?_, ?_, ?_⟩
  · intro salt salt' nonce1 nonce1' nonce2 nonce2' short
    have first : ∀ bs ∈ saltParts salt nonce1 nonce2, bs.length < 2 ^ 64 :=
      fun bs among => short bs (List.mem_append_left [salt'.getD [], nonce1', nonce2'] among)
    have second : ∀ bs ∈ saltParts salt' nonce1' nonce2', bs.length < 2 ^ 64 :=
      fun bs among => short bs (List.mem_append_right [salt.getD [], nonce1, nonce2] among)
    refine ⟨⟨fun same => ?_, ?_⟩, fun zeros some same => ?_⟩
    · have parts := (masterSalt_append_inj first second (congrArg (· ++ []) same)).1
      simpa [saltParts] using parts
    · rintro ⟨salts, rfl, rfl⟩
      rw [masterSalt, masterSalt, salts]
    · have rest := (masterSalt_append_inj first second (same.trans (List.append_nil _).symm)).2
      rw [List.replicate_eq_nil_iff] at rest
      omega
  · intro id id' idContext idContext' alg alg' kind kind' length length' fits fits'
    refine ⟨info_inj fits fits', ?_⟩
    rintro ⟨rfl, rfl, rfl, rfl, rfl⟩
    rfl
  · intro material nonce1 nonce2 senderId recipientId context ok short
    simp only [List.forall_mem_cons, List.not_mem_nil, false_imp_iff, implies_true, and_true] at short
    obtain ⟨contextShort, senderShort, recipientShort⟩ := short
    obtain ⟨_, _, apart, keys, derived, rfl⟩ := derive_eq_ok_iff.mp ok
    obtain ⟨keyLength, nonceLength, known, rfl⟩ := deriveKeys_eq_ok_iff.mp derived
    have small := lengths?_le known
    have named : ∀ bs ∈ material.contextId, bs.length < 2 ^ 64 := by
      intro bs present
      rw [Option.mem_def] at present
      rwa [present, Option.getD_some] at contextShort
    exact ⟨keyLength, nonceLength, known, rfl, nodup_infos apart ⟨senderShort, named, by decide, by omega⟩
      ⟨recipientShort, named, by decide, by omega⟩ ⟨by decide, named, by decide, by omega⟩ _⟩

namespace Sample

/-- Material whose context identifier is there and empty. -/
def unnamed : Material := { id := [0x61], ms := [0x2a], contextId := some [] }

end Sample

/-- A byte that is how an empty string is written may belong to either nonce, an absent context identifier looks like an empty one,
and one of the peers has the empty identifier, which also stands for neither of them. -/
theorem derivation_unambiguous_of_empty :
    masterSalt none [0x40] [] ≠ masterSalt none [] [0x40] ∧
      masterSalt none [] [0x40] ++ List.replicate 62 0 ≠ masterSalt none [0x40] [0x40] ∧
      info [] none 10 "Key" 16 ≠ info [] (some []) 10 "Key" 16 ∧
      ∃ context, derive Sample.unnamed [] [0x40] [] [0x40] = .ok context ∧ ∃ keyLength nonceLength,
        lengths? context.alg = some (keyLength, nonceLength) ∧
          [info [] (some []) context.alg "Key" keyLength, info [0x40] (some []) context.alg "Key" keyLength,
            info [] (some []) context.alg "IV" nonceLength].Nodup := by
  obtain ⟨salts, infos, contexts⟩ := derivation_unambiguous
  have shifted := salts none none [0x40] [] [] [0x40] (by decide)
  have padded := salts none none [] [0x40] [0x40] [0x40] (by decide)
  have absent := infos [] [] none (some []) 10 10 "Key" "Key" 16 16 ⟨by decide, nofun, by decide, by decide⟩
    ⟨by decide, by simp, by decide, by decide⟩
  have derived : ∃ context, derive Sample.unnamed [] [0x40] [] [0x40] = .ok context :=
    ⟨_, derive_eq_ok_iff.mpr ⟨rfl, rfl, by decide, _, deriveKeys_eq_ok_iff.mpr ⟨16, 13, rfl, rfl⟩, rfl⟩⟩
  obtain ⟨context, ok⟩ := derived
  obtain ⟨keyLength, nonceLength, known, _, nodup⟩ := contexts _ _ _ _ _ context ok (by decide)
  refine ⟨fun same => ?_, padded.2 62 (by decide), fun same => ?_, context, ok, keyLength, nonceLength, known, nodup⟩
  · exact absurd (shifted.1.mp same).2.1 (by decide)
  · exact absurd (absent.mp same).2.1 (by decide)

end TokenGate.Oscore
