import TokenGate.Proofs.Oscore.Identifiers

/-!
# Identifiers in succession

The search for an identifier goes on until it comes to a byte that is not taken. It ends soon, since little is taken. Of identifiers
that are handed out one after the other none comes again before the counter has gone round all bytes, and each byte on its way was
handed out itself, or belongs to a peer or to a context.
-/

namespace TokenGate.Oscore.Contexts

/-! ## The search as such -/

/-- A search for an identifier after the last one: a number of increments of the counter, of which all but the last one come to a
byte that is taken. Nothing bounds it. -/
inductive Searches (taken : UInt8 → Bool) : (last : UInt8) → (increments : Nat) → (id : UInt8) → Prop
  | stop {last : UInt8} (free : taken (last + 1) = false) : Searches taken last 1 (last + 1)
  | skip {last id : UInt8} {increments : Nat} (passed : taken (last + 1) = true)
    (rest : Searches taken (last + 1) increments id) : Searches taken last (increments + 1) id

/-- A search with a bound that comes to a free identifier is the search as such. -/
theorem exists_searches_nextFree {taken : UInt8 → Bool} {skips : Nat} {last : UInt8}
    (free : taken (nextFree taken skips last) = false) :
    ∃ increments ≤ skips + 1, Searches taken last increments (nextFree taken skips last) := by
  induction skips generalizing last with
  | zero => exact ⟨1, Nat.le_refl 1, .stop free⟩
  | succ skips ih =>
    unfold nextFree at free ⊢
    by_cases first : taken (last + 1) = true
    · rw [if_pos first] at free ⊢
      obtain ⟨increments, few, rest⟩ := ih free
      exact ⟨increments + 1, by omega, .skip first rest⟩
    · rw [if_neg first] at free ⊢
      exact ⟨1, by omega, .stop free⟩

/-! ## The way of the counter -/

/-- The counter goes from one byte to another by a number of steps, and only comes by certain bytes. -/
structure Passes (bytes : List UInt8) (start : UInt8) (steps : Nat) (stop : UInt8) : Prop where
  stop_eq : stop = start + UInt8.ofNat steps
  among : ∀ j < steps, start + UInt8.ofNat (j + 1) ∈ bytes

theorem Passes.refl (bytes : List UInt8) (start : UInt8) : Passes bytes start 0 start where
  stop_eq := (UInt8.add_zero start).symm
  among := nofun

/-- A way that comes by certain bytes only comes by these and further ones. -/
theorem Passes.mono {bytes more : List UInt8} {start stop : UInt8} {steps : Nat} (h : Passes bytes start steps stop)
    (sub : ∀ byte ∈ bytes, byte ∈ more) : Passes more start steps stop :=
  ⟨h.stop_eq, fun j before => sub _ (h.among j before)⟩

/-- One way after the other. -/
theorem Passes.trans {bytes : List UInt8} {start middle stop : UInt8} {m n : Nat} (h : Passes bytes start m middle)
    (h' : Passes bytes middle n stop) : Passes bytes start (m + n) stop := by
  have shift : ∀ k, middle + UInt8.ofNat k = start + UInt8.ofNat (m + k) := by
    intro k
    rw [h.stop_eq, UInt8.ofNat_add, UInt8.add_assoc]
  refine ⟨by rw [h'.stop_eq, shift], fun j before => ?_⟩
  rcases Nat.lt_or_ge j m with early | late
  · exact h.among j early
  · have passed := h'.among (j - m) (by omega)
    rw [shift] at passed
    rwa [show j + 1 = m + (j - m + 1) by omega]

/-- A counter that comes back to where it was has come by all other bytes. -/
theorem Passes.length_of_return {bytes : List UInt8} {start : UInt8} {steps : Nat} (h : Passes bytes start steps start)
    (moved : 0 < steps) : 255 ≤ bytes.length := by
  have round : 256 ≤ steps := by
    by_contra short
    have still : start + UInt8.ofNat steps = start + UInt8.ofNat 0 := h.stop_eq.symm.trans (UInt8.add_zero start).symm
    exact absurd (add_ofNat_inj (by omega) (by omega) still) (by omega)
  let others := (List.range 255).map fun j => start + UInt8.ofNat (j + 1)
  have distinct : others.Nodup := by
    refine List.Nodup.map_on ?_ List.nodup_range
    intro i small j small' same
    rw [List.mem_range] at small small'
    have equal := add_ofNat_inj (by omega) (by omega) same
    omega
  have sub : others ⊆ bytes := by
    intro byte other
    obtain ⟨j, small, rfl⟩ := List.mem_map.mp other
    rw [List.mem_range] at small
    exact h.among j (by omega)
  have size := (List.subperm_of_subset distinct sub).length_le
  rwa [List.length_map, List.length_range] at size

/-- On its way to the next identifier, the counter only comes by that one, by the peer's byte, and by those of contexts. -/
theorem exists_passes_takeId (contexts : Contexts) (peerId : Bytes) :
    ∃ steps, 0 < steps ∧ Passes ((contexts.takeId peerId).2.lastId :: peerId.headD 0 :: contexts.bytesInUse) contexts.lastId steps
      (contexts.takeId peerId).2.lastId := by
  obtain ⟨k, _, found, passed, _⟩ := exists_nextFree_eq (contexts.isTaken peerId) (maxContexts + 1) contexts.lastId
  have found : (contexts.takeId peerId).2.lastId = contexts.lastId + UInt8.ofNat (k + 1) := found
  refine ⟨k + 1, Nat.succ_pos k, found, fun j before => ?_⟩
  rcases Nat.lt_or_eq_of_le (Nat.le_of_lt_succ before) with early | rfl
  · exact List.mem_cons_of_mem _ (mem_of_isTaken (passed j early))
  · rw [found]
    exact List.mem_cons_self

/-! ## One identifier after the other -/

/-- Identifiers that are handed out one after the other, the last one first, to whatever peers. In between, contexts may be used,
but none comes in. -/
inductive HandsOut (contexts : Contexts) : List Bytes → Contexts → Prop
  | nothing : HandsOut contexts [] contexts
  | take {ids : List Bytes} {later : Contexts} (before : HandsOut contexts ids later) (peerId : Bytes) :
    HandsOut contexts ((later.takeId peerId).1 :: ids) (later.takeId peerId).2
  | find {ids : List Bytes} {later : Contexts} (before : HandsOut contexts ids later) (recipientId : Bytes) :
    HandsOut contexts ids (later.find recipientId).2

variable {contexts later : Contexts} {ids : List Bytes}

/-- To use a context is not to hand out an identifier. -/
theorem lastId_find (contexts : Contexts) (recipientId : Bytes) : (contexts.find recipientId).2.lastId = contexts.lastId := by
  unfold find
  simp only
  split <;> rfl

/-- The contexts stay the same. -/
theorem HandsOut.perm (h : HandsOut contexts ids later) : later.entries.Perm contexts.entries := by
  induction h with
  | nothing => exact List.Perm.refl _
  | take _ _ ih => exact ih
  | find _ recipientId ih => exact (entries_find_perm _ recipientId).trans ih

/-- The way of the counter goes on to the identifier that is handed out next. -/
theorem HandsOut.exists_passes_takeId (h : HandsOut contexts ids later) (peerId : Bytes) {passed : List UInt8} {id : UInt8}
    {steps : Nat} (passes : Passes (passed ++ contexts.bytesInUse) id steps later.lastId) :
    ∃ more, 0 < more ∧ Passes ((later.takeId peerId).2.lastId :: peerId.headD 0 :: passed ++ contexts.bytesInUse) id (steps + more)
      (later.takeId peerId).2.lastId := by
  obtain ⟨more, moved, next⟩ := later.exists_passes_takeId peerId
  have same : ∀ byte, byte ∈ later.bytesInUse ↔ byte ∈ contexts.bytesInUse := fun byte => (h.perm.map _).mem_iff
  refine ⟨more, moved, (passes.mono fun byte before => ?_).trans (next.mono fun byte before => ?_)⟩
  · exact List.mem_cons_of_mem _ (List.mem_cons_of_mem _ before)
  · simp only [List.mem_cons, List.cons_append, List.mem_append, same] at before ⊢
    tauto

/-- From an identifier to the last one, the counter only comes by identifiers handed out since, by as many bytes of peers, and by
those of contexts. -/
theorem HandsOut.exists_passes (h : HandsOut contexts ids later) {id : UInt8} (among : [id] ∈ ids) :
    ∃ passed steps, passed.length + 2 ≤ 2 * ids.length ∧ Passes (passed ++ contexts.bytesInUse) id steps later.lastId := by
  induction h with
  | nothing => nomatch among
  | @take ids later before peerId ih =>
    rw [List.length_cons]
    rcases List.mem_cons.mp among with new | old
    · obtain rfl : id = (later.takeId peerId).2.lastId := List.singleton_inj.mp new
      exact ⟨[], 0, by simp only [List.length_nil]; omega, .refl _ _⟩
    · obtain ⟨passed, steps, few, passes⟩ := ih old
      obtain ⟨more, _, further⟩ := before.exists_passes_takeId peerId passes
      refine ⟨_, _, ?_, further⟩
      simp only [List.length_cons]
      omega
  | find _ recipientId ih =>
    rw [lastId_find]
    exact ih among

/-- As long as the counter cannot have gone round all bytes, no identifier comes again. -/
theorem HandsOut.nodup (h : HandsOut contexts ids later) (few : 2 * ids.length + contexts.entries.length < 257) : ids.Nodup := by
  induction h with
  | nothing => exact List.nodup_nil
  | @take ids later before peerId ih =>
    rw [List.length_cons] at few
    refine List.nodup_cons.mpr ⟨fun again => ?_, ih (by omega)⟩
    obtain ⟨passed, steps, short, passes⟩ := before.exists_passes again
    obtain ⟨more, moved, round⟩ := before.exists_passes_takeId peerId passes
    have size := round.length_of_return (by omega)
    simp only [List.length_cons, List.length_append, bytesInUse, List.length_map] at size
    omega
  | find _ _ ih => exact ih few

/-! ## Identifiers for new contexts -/

/-- As long as there are no more contexts than there may be, the search for an identifier ends after few increments with a byte that
is neither the peer's identifier nor that of a context; and of the identifiers handed out one after the other, none is among 120
twice. -/
theorem takeId_terminates {contexts : Contexts} (few : contexts.entries.length ≤ maxContexts) :
    (∀ peerId, ∃ increments ≤ 18, ∃ id, Searches (contexts.isTaken peerId) contexts.lastId increments id ∧
      contexts.takeId peerId = ([id], { contexts with lastId := id }) ∧ [id] ≠ peerId ∧
      ∀ entry ∈ contexts.entries, entry.context.recipientId ≠ [id]) ∧
    ∀ ids later, HandsOut contexts ids later → ids.length ≤ 120 → ids.Nodup := by
  constructor
  · intro peerId
    obtain ⟨increments, soon, search⟩ := exists_searches_nextFree (not_isTaken_takeId few peerId)
    obtain ⟨other, fresh⟩ := takeId_fresh few peerId
    exact ⟨increments, soon, _, search, rfl, other, fresh⟩
  · intro ids later h short
    refine h.nodup ?_
    have bound : maxContexts = 16 := rfl
    omega

namespace Sample

/-- A context that receives with a byte. -/
def entry (id : UInt8) : StoredContext := ⟨⟨10, none, [0xff, id], [id], ⟨[], [], []⟩⟩, ⟨"a"⟩⟩

/-- As many contexts as there may be, with the bytes that the counter comes to next. -/
def full : Contexts := { lastId := 255, entries := (List.range 16).map fun n => entry (.ofNat n) }

end Sample

/-- If all that can be taken is in the way, the search ends with the 18th increment. -/
theorem takeId_terminates_of_full :
    Sample.full.entries.length = 16 ∧ (Sample.full.takeId [16]).1 = [17] ∧
      (∃ increments ≤ 18, Searches (Sample.full.isTaken [16]) 255 increments 17) ∧
      ∀ ids later, HandsOut Sample.full ids later → ids.length ≤ 120 → ids.Nodup := by
  obtain ⟨ends, differ⟩ := @takeId_terminates Sample.full (by decide)
  refine ⟨by decide, by decide, ?_, differ⟩
  obtain ⟨increments, soon, id, search, handed, _⟩ := ends [16]
  have same : [id] = [17] := (congrArg Prod.fst handed).symm.trans (by decide)
  exact ⟨increments, soon, List.singleton_inj.mp same ▸ search⟩

end TokenGate.Oscore.Contexts
