import Mathlib.Data.List.Nodup
import Mathlib.Data.List.Perm.Subperm
import TokenGate.Profile.Oscore
import TokenGate.Proofs.KeyNames
import TokenGate.Proofs.Text.Utf8

/-!
# Identifiers of contexts

The identifier handed out for a new context is not the last one, and no context in use has it, as long as there are no more
contexts than there may be: as many identifiers are tried as can be taken, and one more. As senders, single bytes stay apart.
-/

namespace TokenGate.Oscore.Contexts

/-! ## The search for a free identifier -/

/-- The search goes up by one at a time, past identifiers that are taken, and stops at one that is not unless it runs out. -/
theorem exists_nextFree_eq (taken : UInt8 → Bool) (skips : Nat) (last : UInt8) :
    ∃ k ≤ skips, nextFree taken skips last = last + UInt8.ofNat (k + 1) ∧
      (∀ j < k, taken (last + UInt8.ofNat (j + 1)) = true) ∧
      (k < skips → taken (nextFree taken skips last) = false) := by
  induction skips generalizing last with
  | zero => exact ⟨0, Nat.le_refl 0, rfl, by simp, by simp⟩
  | succ skips ih =>
    have shift : ∀ n, last + 1 + UInt8.ofNat (n + 1) = last + UInt8.ofNat (n + 1 + 1) := by
      intro n
      rw [UInt8.ofNat_add (n + 1) 1, UInt8.add_assoc, UInt8.add_comm 1]
      rfl
    unfold nextFree
    by_cases first : taken (last + 1) = true
    · rw [if_pos first]
      obtain ⟨k, few, found, passed, free⟩ := ih (last + 1)
      refine ⟨k + 1, by omega, by rw [found, shift], ?_, fun more => free (by omega)⟩
      rintro (_ | j) before
      · exact first
      · rw [← shift]
        exact passed j (by omega)
    · rw [if_neg first]
      exact ⟨0, by omega, rfl, by simp, fun _ => Bool.not_eq_true _ ▸ first⟩

/-- Fewer steps than there are bytes do not lead back. -/
theorem add_ofNat_inj {last : UInt8} {m n : Nat} (small : m < 256) (small' : n < 256)
    (same : last + UInt8.ofNat m = last + UInt8.ofNat n) : m = n := by
  have same := congrArg UInt8.toNat same
  simp only [UInt8.toNat_add, UInt8.toNat_ofNat'] at same
  omega

/-- The identifier that is found is not the last one. -/
theorem nextFree_ne (taken : UInt8 → Bool) {skips : Nat} (short : skips < 255) (last : UInt8) :
    nextFree taken skips last ≠ last := by
  obtain ⟨k, few, found, _⟩ := exists_nextFree_eq taken skips last
  rw [found]
  intro same
  have zero : last + UInt8.ofNat (k + 1) = last + UInt8.ofNat 0 := same.trans (UInt8.add_zero last).symm
  exact absurd (add_ofNat_inj (by omega) (by omega) zero) (by omega)

/-- The identifier that is found is free if no more are taken than may be skipped. -/
theorem not_taken_nextFree {taken : UInt8 → Bool} (ids : List UInt8) (all : ∀ id, taken id = true → id ∈ ids) {skips : Nat}
    (few : ids.length ≤ skips) (short : skips < 255) (last : UInt8) : taken (nextFree taken skips last) = false := by
  obtain ⟨k, le, found, passed, free⟩ := exists_nextFree_eq taken skips last
  rcases Nat.lt_or_eq_of_le le with lt | rfl
  · exact free lt
  -- All that was skipped is taken, so there is nothing left that could be.
  · by_contra taken'
    rw [Bool.not_eq_false, found] at taken'
    let tried := (List.range (k + 1)).map fun j => last + UInt8.ofNat (j + 1)
    have distinct : tried.Nodup := by
      refine List.Nodup.map_on ?_ List.nodup_range
      intro i among j among' same
      rw [List.mem_range] at among among'
      have equal := add_ofNat_inj (by omega) (by omega) same
      omega
    have among : tried ⊆ ids := by
      intro id tries
      obtain ⟨j, before, rfl⟩ := List.mem_map.mp tries
      rw [List.mem_range] at before
      apply all
      rcases Nat.lt_or_eq_of_le (Nat.le_of_lt_succ before) with lt | rfl
      · exact passed j lt
      · exact taken'
    have size := (List.subperm_of_subset distinct among).length_le
    rw [List.length_map, List.length_range] at size
    omega

/-! ## Identifiers that are taken -/

/-- The identifier that is handed out counts as the last one, and is another one than before. -/
theorem lastId_takeId (contexts : Contexts) (peerId : Bytes) :
    (contexts.takeId peerId).1 = [(contexts.takeId peerId).2.lastId] ∧ (contexts.takeId peerId).2.lastId ≠ contexts.lastId :=
  ⟨rfl, nextFree_ne _ (by decide) _⟩

/-- The first bytes of the identifiers of all contexts. -/
def bytesInUse (contexts : Contexts) : List UInt8 := contexts.entries.map (·.context.recipientId.headD 0)

/-- What is taken is the first byte of an identifier of the peer or of a context. -/
theorem mem_of_isTaken {contexts : Contexts} {peerId : Bytes} {id : UInt8} (taken : contexts.isTaken peerId id = true) :
    id ∈ peerId.headD 0 :: contexts.bytesInUse := by
  rw [isTaken, Bool.or_eq_true, beq_iff_eq, List.any_eq_true] at taken
  rcases taken with rfl | ⟨entry, among, same⟩
  · exact List.mem_cons_self
  · rw [beq_iff_eq] at same
    refine List.mem_cons_of_mem _ (List.mem_map.mpr ⟨entry, among, ?_⟩)
    rw [same, List.headD_cons]

/-- No more identifiers are taken than may be skipped. -/
theorem not_isTaken_takeId {contexts : Contexts} (few : contexts.entries.length ≤ maxContexts) (peerId : Bytes) :
    contexts.isTaken peerId (contexts.takeId peerId).2.lastId = false := by
  refine not_taken_nextFree _ (fun _ => mem_of_isTaken) ?_ (by decide) _
  rw [List.length_cons, bytesInUse, List.length_map]
  omega

/-- The identifier that is handed out is neither the peer's own, nor that of a context in use. -/
theorem takeId_fresh {contexts : Contexts} (few : contexts.entries.length ≤ maxContexts) (peerId : Bytes) :
    (contexts.takeId peerId).1 ≠ peerId ∧
      ∀ entry ∈ contexts.entries, entry.context.recipientId ≠ (contexts.takeId peerId).1 := by
  have free := not_isTaken_takeId few peerId
  rw [isTaken, Bool.or_eq_false_iff, beq_eq_false_iff_ne, List.any_eq_false] at free
  refine ⟨Ne.symm free.1, ?_⟩
  intro entry among same
  exact free.2 entry among (beq_iff_eq.mpr same)

end TokenGate.Oscore.Contexts

namespace TokenGate

/-! ## Identifiers as senders -/

/-- The text of a single byte that is no text by itself is longer than a byte. -/
theorem Text.Base64.utf8_encode_ne (a b : UInt8) : utf8 (encode [a]) ≠ [b] := by
  intro same
  have sizes := congrArg List.length same
  rw [Text.Base64.encode, Text.utf8_ofList] at sizes
  simp only [Text.Base64.encodeWith, List.cons_append, List.nil_append, List.flatMap_cons, List.length_append,
    String.length_utf8EncodeChar, List.length_singleton] at sizes
  have first := Char.utf8Size_pos (Text.Base64.digit Text.Base64.standardDigits (a.toNat * 16 / 64))
  have second := Char.utf8Size_pos (Text.Base64.digit Text.Base64.standardDigits (a.toNat * 16))
  omega

/-- Single bytes have different names. -/
theorem KeyName.ofKid_singleton_inj {a b : UInt8} (same : KeyName.ofKid [a] = KeyName.ofKid [b]) : a = b := by
  rcases ofKid_eq_iff.mp same with equal | ⟨_, spelled⟩ | ⟨_, spelled⟩
  · exact List.singleton_inj.mp equal
  · exact absurd spelled.symm (Text.Base64.utf8_encode_ne a b)
  · exact absurd spelled.symm (Text.Base64.utf8_encode_ne b a)

/-- Contexts that receive with different bytes authenticate different senders. -/
theorem Profile.OscoreExchange.senderOf_singleton_inj {a b : UInt8} (same : senderOf [a] = senderOf [b]) : a = b :=
  KeyName.ofKid_singleton_inj (congrArg KeyName.mk same)

end TokenGate
