import TokenGate.Proofs.Cbor.Reading

/-!
# Room to nest

The room that a reader is given for nesting does not matter beyond the depth of what it reads: a value that was read with some room
is read with any room that is enough for it, less or more.
-/

namespace TokenGate.Cbor

section

variable {α : Type} {item item' : Reader α}

/-- A reader that agrees on every item that was read reads them, too. -/
theorem readCount_of_forall {count : Nat} {bs rest : Bytes} {vs : List α} (h : readCount item count bs = some (vs, rest))
    (each : ∀ {bs rest v}, v ∈ vs → item bs = some (v, rest) → item' bs = some (v, rest)) :
    readCount item' count bs = some (vs, rest) := by
  induction count generalizing bs vs with
  | zero => exact h
  | succ count ih =>
    simp only [readCount, Option.bind_eq_bind, Option.bind_eq_some_iff] at h ⊢
    obtain ⟨⟨v, back⟩, first, ⟨others, rest'⟩, read, same⟩ := h
    dsimp only at read same
    cases same
    exact ⟨_, each List.mem_cons_self first, _, ih read fun among => each (List.mem_cons_of_mem v among), rfl⟩

theorem readUntilStop_of_forall {fuel : Nat} {bs rest : Bytes} {vs : List α} (h : readUntilStop item fuel bs = some (vs, rest))
    (each : ∀ {bs rest v}, v ∈ vs → item bs = some (v, rest) → item' bs = some (v, rest)) :
    readUntilStop item' fuel bs = some (vs, rest) := by
  induction fuel generalizing bs vs with
  | zero => nomatch h
  | succ fuel ih =>
    unfold readUntilStop at h ⊢
    split at h
    · exact h
    · simp only [Option.bind_eq_bind, Option.bind_eq_some_iff] at h ⊢
      obtain ⟨⟨v, back⟩, first, ⟨others, rest'⟩, read, same⟩ := h
      dsimp only at read same
      cases same
      exact ⟨_, each List.mem_cons_self first, _, ih read fun among => each (List.mem_cons_of_mem v among), rfl⟩

/-- Items are read together by any reader that reads each of them. -/
theorem readAll_of_forall {length : Option UInt64} {bs rest : Bytes} {vs : List α} (h : readAll item length bs = some (vs, rest))
    (each : ∀ {bs rest v}, v ∈ vs → item bs = some (v, rest) → item' bs = some (v, rest)) :
    readAll item' length bs = some (vs, rest) := by
  unfold readAll at h ⊢
  split at h
  · exact readCount_of_forall h each
  · exact readUntilStop_of_forall h each

/-- A reader that agrees on key and value reads the same entry. -/
theorem readEntry_of_both {bs rest : Bytes} {e : α × α} (h : readEntry item bs = some (e, rest))
    (key : ∀ {bs rest}, item bs = some (e.1, rest) → item' bs = some (e.1, rest))
    (value : ∀ {bs rest}, item bs = some (e.2, rest) → item' bs = some (e.2, rest)) :
    readEntry item' bs = some (e, rest) := by
  simp only [readEntry, Option.bind_eq_bind, Option.bind_eq_some_iff] at h ⊢
  obtain ⟨⟨k, _⟩, first, ⟨v, _⟩, second, same⟩ := h
  dsimp only at second same
  cases same
  exact ⟨_, key first, _, value second, rfl⟩

end

/-- A value is read with any room that is enough for its depth. -/
theorem readValue_of_depth_le {room enough : Nat} {bs rest : Bytes} {v : Value} (h : readValue room bs = some (v, rest))
    (deep : v.depth ≤ enough) : readValue enough bs = some (v, rest) := by
  induction room using Nat.strongRecOn generalizing enough bs v rest with
  | ind room ih =>
    unfold readValue at h ⊢
    split at h
    · cases h
    rename_i head back read
    split at h
    · exact h
    · exact h
    · exact h
    · exact h
    · exact h
    · exact h
    · cases h
    · rename_i length less
      obtain ⟨⟨vs, _⟩, read, same⟩ := Option.map_eq_some_iff.mp h
      cases same
      rw [Value.depth] at deep
      obtain ⟨room, rfl⟩ : ∃ room, enough = room + 1 := ⟨enough - 1, by omega⟩
      have items := readAll_of_forall read fun among item =>
        ih less (Nat.lt_succ_self less) item (Nat.le_trans (Value.depth_le_of_mem among) (Nat.le_of_succ_le_succ deep))
      simp only [items, Option.map_some]
    · rename_i length less
      obtain ⟨⟨es, _⟩, read, same⟩ := Option.map_eq_some_iff.mp h
      cases same
      rw [Value.depth] at deep
      obtain ⟨room, rfl⟩ : ∃ room, enough = room + 1 := ⟨enough - 1, by omega⟩
      have entries := readAll_of_forall read fun among entry =>
        have bounds := Value.depth_le_of_mem_entries among
        readEntry_of_both entry
          (fun key => ih less (Nat.lt_succ_self less) key (Nat.le_trans bounds.1 (Nat.le_of_succ_le_succ deep)))
          fun value => ih less (Nat.lt_succ_self less) value (Nat.le_trans bounds.2 (Nat.le_of_succ_le_succ deep))
      simp only [entries, Option.map_some]
    · rename_i number less
      cases tagged : taggedDigits? number back with
      | some digits =>
        rw [tagged] at h
        cases enough <;> simp only [tagged] <;> exact h
      | none =>
        rw [tagged] at h
        obtain ⟨⟨content, _⟩, read, same⟩ := Option.map_eq_some_iff.mp h
        cases same
        rw [Value.depth] at deep
        obtain ⟨room, rfl⟩ : ∃ room, enough = room + 1 := ⟨enough - 1, by omega⟩
        have inner := ih less (Nat.lt_succ_self less) read (Nat.le_of_succ_le_succ deep)
        simp only [tagged, inner, Option.map_some]
    · rename_i number
      cases tagged : taggedDigits? number back with
      | some digits =>
        rw [tagged] at h
        cases enough <;> simp only [tagged] <;> exact h
      | none =>
        rw [tagged] at h
        cases h
    · cases h
    · cases h

/-- However much room there is, the same is read. -/
theorem readValue_inj {room room' : Nat} {bs rest rest' : Bytes} {v v' : Value} (h : readValue room bs = some (v, rest))
    (h' : readValue room' bs = some (v', rest')) : v = v' ∧ rest = rest' := by
  have all := readValue_of_depth_le h (Nat.le_max_left v.depth v'.depth)
  have all' := readValue_of_depth_le h' (Nat.le_max_right v.depth v'.depth)
  exact Prod.mk.inj (Option.some.inj (all.symm.trans all'))

/-- No tag in a faithful value stands for an integer. -/
theorem Value.IsFaithful.isPlain {depth : Nat} {v : Value} (h : v.IsFaithful depth) : v.isPlain = true := by
  induction h with
  | tag plain _ ih => rw [Value.isPlain, plain, ih]; rfl
  | array _ _ ih => rw [Value.isPlain, Value.arePlainItems_eq, List.all_eq_true]; exact ih
  | map _ _ _ keys values =>
    rw [Value.isPlain, Value.arePlainEntries_eq, List.all_eq_true]
    intro e among
    rw [keys e among, values e among]
    rfl
  | _ => rfl

/-- What some bytes are is known by the item at their beginning. -/
theorem read?_of_decodeExact? {bs : Bytes} {v : Value} (h : decodeExact? bs = some v) : read? bs = some (v, []) := by
  unfold decodeExact? at h
  split at h
  · rename_i w read
    cases h
    exact read
  · nomatch h

/-- A tag, other than those of integers, may be put in front of an item that leaves room for it. -/
theorem read?_tag {number : UInt64} (other : number ≠ 2 ∧ number ≠ 3) {bs tagged rest : Bytes} {v : Value}
    (head : Head.read tagged = .ok (.tag number, bs)) (item : read? bs = some (v, rest)) (room : v.depth < maxDepth) :
    read? tagged = some (.tag number v, rest) := by
  have inner := readValue_of_depth_le item (Nat.le_of_lt_succ (room : v.depth < 255 + 1))
  have plain : taggedDigits? number bs = none := by
    rw [taggedDigits?, if_neg]
    rintro (two | three)
    · exact other.1 two
    · exact other.2 three
  rw [read?, maxDepth, readValue, head]
  simp only [plain, inner, Option.map_some]

end TokenGate.Cbor
