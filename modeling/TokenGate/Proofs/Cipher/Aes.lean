import TokenGate.Cipher.Aes

/-!
# Lengths in AES

The lengths of byte strings that are cut into pieces and combined, and of what AES makes of them: every round key of a key with at
least one word has 16 bytes, and so has every encrypted block.
-/

namespace TokenGate

/-! ## Byte strings -/

namespace Bytes

@[simp]
theorem length_xor (as bs : Bytes) : (as.xor bs).length = min as.length bs.length := List.length_zipWith

theorem length_padTo (n : Nat) (bs : Bytes) : (bs.padTo n).length = max n bs.length := by
  rw [padTo, List.length_append, List.length_replicate]
  omega

theorem length_pieces (size count : Nat) (bs : Bytes) : (pieces size count bs).length = count := by
  induction count generalizing bs with
  | zero => rfl
  | succ count ih => rw [pieces, List.length_cons, ih]

/-- As long as the string is long enough, all of its pieces have the same length. -/
theorem length_of_mem_pieces {size count : Nat} {bs piece : Bytes} (enough : count * size ≤ bs.length)
    (among : piece ∈ pieces size count bs) : piece.length = size := by
  induction count generalizing bs with
  | zero => nomatch among
  | succ count ih =>
    rw [Nat.succ_mul] at enough
    rcases List.mem_cons.mp among with rfl | among
    · rw [List.length_take]
      omega
    · exact ih (by rw [List.length_drop]; omega) among

/-- Nothing is left over of a string whose length is a multiple of the size. -/
theorem length_blocks {size count : Nat} {bs : Bytes} (positive : 0 < size) (length : bs.length = count * size) :
    (bs.blocks size).length = count ∧ ∀ block ∈ bs.blocks size, block.length = size := by
  have whole : (bs.length + size - 1) / size = count := by
    rw [length, Nat.div_eq_iff positive]
    omega
  rw [blocks, whole]
  exact ⟨length_pieces size count bs, fun block among => length_of_mem_pieces (Nat.le_of_eq length.symm) among⟩

/-- Strings of one length make a string of so many times that length. -/
theorem length_flatten {size : Nat} {strings : List Bytes} (each : ∀ bs ∈ strings, bs.length = size) :
    strings.flatten.length = strings.length * size := by
  induction strings with
  | nil => rw [List.flatten_nil, List.length_nil, List.length_nil, Nat.zero_mul]
  | cons bs strings ih =>
    rw [List.forall_mem_cons] at each
    rw [List.flatten_cons, List.length_append, each.1, ih each.2, List.length_cons, Nat.succ_mul, Nat.add_comm]

end Bytes

namespace Aes

/-! ## The key schedule -/

/-- A word of the key schedule is as long as the two words it is made of. -/
theorem length_nextWord (n i : Nat) {last back : Bytes} (length : last.length = 4) (length' : back.length = 4) :
    (nextWord n i last back).length = 4 := by
  have turned : ((last.drop 1 ++ last.take 1).map substitute).length = 4 := by
    rw [List.length_map, List.length_append, List.length_drop, List.length_take, length]
    rfl
  rw [nextWord, Bytes.length_xor, length']
  split
  · rw [Bytes.length_xor, turned]
    rfl
  · split
    · rw [List.length_map, length, Nat.min_self]
    · rw [length, Nat.min_self]

/-- The key schedule grows by one word at a time. -/
theorem length_extend {n : Nat} (positive : 0 < n) (count i : Nat) {latest : List Bytes} (enough : n ≤ latest.length)
    (each : ∀ word ∈ latest, word.length = 4) :
    (extend n count i latest).length = latest.length + count ∧ ∀ word ∈ extend n count i latest, word.length = 4 := by
  induction count generalizing i latest with
  | zero => exact ⟨rfl, each⟩
  | succ count ih =>
    have last : (latest.headD []).length = 4 := by
      cases latest with
      | nil =>
        rw [List.length_nil] at enough
        omega
      | cons word _ => exact each word List.mem_cons_self
    have back : (latest.getD (n - 1) []).length = 4 := by
      have among : n - 1 < latest.length := by omega
      rw [List.getD_eq_getElem?_getD, List.getElem?_eq_getElem among, Option.getD_some]
      exact each _ (List.getElem_mem among)
    have enough' : n ≤ (nextWord n i (latest.headD []) (latest.getD (n - 1) []) :: latest).length := Nat.le_succ_of_le enough
    obtain ⟨length, each'⟩ := ih (i + 1) enough' (List.forall_mem_cons.mpr ⟨length_nextWord n i last back, each⟩)
    refine ⟨?_, each'⟩
    rw [extend, length, List.length_cons, Nat.add_right_comm, Nat.add_assoc]

/-- A key of `n` words has `n + 7` round keys. -/
theorem length_roundKeys {n : Nat} {key : Bytes} (positive : 0 < n) (length : key.length = n * 4) :
    (roundKeys key).length = n + 7 ∧ ∀ roundKey ∈ roundKeys key, roundKey.length = 16 := by
  have words : key.length / 4 = n := by rw [length, Nat.mul_div_cancel n (by decide)]
  obtain ⟨own, own'⟩ := Bytes.length_blocks (by decide) length
  have enough : n ≤ (key.blocks 4).reverse.length := Nat.le_of_eq (by rw [List.length_reverse, own])
  obtain ⟨more, each⟩ := length_extend positive (3 * n + 28) n enough fun word among => own' word (List.mem_reverse.mp among)
  rw [roundKeys, words]
  refine Bytes.length_blocks (by decide) ?_
  rw [Bytes.length_flatten fun word among => each word (List.mem_reverse.mp among), List.length_reverse, more,
    List.length_reverse, own]
  omega

/-! ## Blocks -/

theorem length_mixColumn (column : Bytes) : (mixColumn column).length = column.length := by
  unfold mixColumn
  split <;> rfl

theorem length_shiftRows (block : Bytes) : (shiftRows block).length = 16 := by
  rw [shiftRows, List.length_map]
  rfl

/-- The rounds make a block of a block. -/
theorem length_rounds {keys : List Bytes} (each : ∀ key ∈ keys, key.length = 16) {block : Bytes}
    (length : block.length = 16) : (rounds keys block).length = 16 := by
  fun_induction rounds keys block with
  | case1 => exact length
  | case2 => rw [Bytes.length_xor, length_shiftRows, each _ List.mem_cons_self, Nat.min_self]
  | case3 key keys block _ columns ih =>
    obtain ⟨four, each'⟩ : columns.length = 4 ∧ ∀ column ∈ columns, column.length = 4 :=
      Bytes.length_blocks (by decide) (length_shiftRows _)
    have same : ∀ bs ∈ columns.map mixColumn, bs.length = 4 := by
      intro bs among
      obtain ⟨column, own, rfl⟩ := List.mem_map.mp among
      rw [length_mixColumn, each' column own]
    have mixed : (columns.flatMap mixColumn).length = 16 := by
      rw [List.flatMap_def, Bytes.length_flatten same, List.length_map, four]
    rw [List.forall_mem_cons] at each
    refine ih each.2 ?_
    rw [Bytes.length_xor, mixed, each.1, Nat.min_self]

/-- A block is encrypted as a block. -/
theorem length_encrypt {n : Nat} {key block : Bytes} (positive : 0 < n) (length : key.length = n * 4)
    (length' : block.length = 16) : (encrypt key block).length = 16 := by
  rw [encrypt, encryptWith]
  obtain ⟨many, each⟩ := length_roundKeys positive length
  cases keys : roundKeys key with
  | nil =>
    rw [keys, List.length_nil] at many
    omega
  | cons first others =>
    rw [keys, List.forall_mem_cons] at each
    refine length_rounds each.2 ?_
    rw [List.headD_cons, Bytes.length_xor, length', each.1, Nat.min_self]

end Aes

end TokenGate
