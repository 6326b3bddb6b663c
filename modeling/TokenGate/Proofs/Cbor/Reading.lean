import TokenGate.Proofs.Cbor.Measures
import TokenGate.Proofs.Lists
import TokenGate.Proofs.Text.Utf8

/-!
# What a reader can get out of bytes

A value takes at least as many bytes as its weight, and is nested no deeper than the reader allows. A value that was read can
therefore be written and read back, if none of its tags stands for an integer.
-/

namespace TokenGate.Cbor

/-! ## What reading takes -/

/-- Splitting loses no byte. -/
theorem length_of_splitAt? {n : Nat} {bs front back : Bytes} (h : bs.splitAt? n = some (front, back)) :
    front.length + back.length = bs.length := by
  unfold Bytes.splitAt? at h
  split at h
  · cases h
    rw [List.length_take, List.length_drop]
    omega
  · nomatch h

theorem length_of_word {width : Nat} {make : Nat → Argument} {bs rest : Bytes} {argument : Argument}
    (h : (match bs.splitAt? width with
      | some (digits, rest) => Except.ok (make digits.toNat, rest)
      | none => .error HeadError.endOfInput) = .ok (argument, rest)) : rest.length ≤ bs.length := by
  split at h
  · rename_i digits back split
    cases h
    have := length_of_splitAt? split
    omega
  · cases h

/-- An argument leaves no more bytes than there were. -/
theorem length_of_argument {info : UInt8} {bs rest : Bytes} {argument : Argument}
    (h : Argument.read info bs = .ok (argument, rest)) : rest.length ≤ bs.length := by
  unfold Argument.read at h
  split at h
  · cases h
    exact Nat.le_refl _
  split at h
  · exact length_of_word h
  split at h
  · exact length_of_word h
  split at h
  · exact length_of_word h
  split at h
  · exact length_of_word h
  split at h
  · cases h
    exact Nat.le_refl _
  · cases h

/-- A head takes at least a byte. -/
theorem length_of_head {bs rest : Bytes} {head : Head} (h : Head.read bs = .ok (head, rest)) : rest.length < bs.length := by
  cases bs with
  | nil => cases h
  | cons first bs =>
    simp only [Head.read, bind, Except.bind] at h
    split at h
    · cases h
    · rename_i argument read
      split at h
      · cases h
      · cases h
        exact Nat.lt_succ_of_le (length_of_argument read)

/-- Pieces of a string take no fewer bytes than they have, and a stop. -/
theorem length_of_pieces {lengthOf? : Head → Option (Option UInt64)} {fuel depth : Nat} {bs rest : Bytes} {all : List Bytes}
    (h : pieces lengthOf? fuel depth bs = some (all, rest)) : all.flatten.length + rest.length < bs.length := by
  induction fuel generalizing depth bs all with
  | zero => nomatch h
  | succ fuel ih =>
    unfold pieces at h
    split at h
    · nomatch h
    · rename_i rest' read
      have head := length_of_head read
      split at h
      · cases h
        simpa using head
      · have := ih h
        omega
    · rename_i head rest' _ read
      have head := length_of_head read
      split at h
      · nomatch h
      · have := ih h
        omega
      · simp only [Option.bind_eq_bind, Option.bind_eq_some_iff] at h
        obtain ⟨⟨piece, back⟩, split, ⟨more, rest''⟩, others, same⟩ := h
        dsimp only at others same
        cases same
        have := length_of_splitAt? split
        have := ih others
        simp only [List.flatten_cons, List.length_append]
        omega

/-- A byte string takes no fewer bytes than it has. -/
theorem length_of_readBytes {length : Option UInt64} {bs rest string : Bytes}
    (h : readBytes length bs = some (string, rest)) : string.length + rest.length ≤ bs.length := by
  unfold readBytes at h
  split at h
  · exact Nat.le_of_eq (length_of_splitAt? h)
  · simp only [Option.bind_eq_bind, Option.bind_eq_some_iff] at h
    obtain ⟨⟨all, back⟩, read, same⟩ := h
    cases same
    exact Nat.le_of_lt (length_of_pieces read)

/-- A text takes no fewer bytes than it has. -/
theorem length_of_readText {length : Option UInt64} {bs rest : Bytes} {s : String}
    (h : readText length bs = some (s, rest)) : (Text.utf8 s).length + rest.length ≤ bs.length := by
  unfold readText at h
  split at h
  · simp only [Option.bind_eq_bind, Option.bind_eq_some_iff] at h
    obtain ⟨⟨piece, back⟩, split, t, text, same⟩ := h
    cases same
    rw [Text.utf8_of_ofUtf8? text]
    exact Nat.le_of_eq (length_of_splitAt? split)
  · simp only [Option.bind_eq_bind, Option.bind_eq_some_iff] at h
    obtain ⟨⟨all, back⟩, read, texts, spelled, same⟩ := h
    cases same
    rw [Text.utf8_join, map_of_mapM spelled fun _ _ => Text.utf8_of_ofUtf8?]
    exact Nat.le_of_lt (length_of_pieces read)

section

variable {α : Type} {item : Reader α} {weight : α → Nat}
  (each : ∀ {bs rest v}, item bs = some (v, rest) → weight v + rest.length ≤ bs.length)
include each

/-- As many items as were announced take no fewer bytes than they weigh. -/
theorem weight_of_readCount {count : Nat} {bs rest : Bytes} {vs : List α} (h : readCount item count bs = some (vs, rest)) :
    (vs.map weight).sum + rest.length ≤ bs.length := by
  induction count generalizing bs vs with
  | zero =>
    cases h
    simp
  | succ count ih =>
    simp only [readCount, Option.bind_eq_bind, Option.bind_eq_some_iff] at h
    obtain ⟨⟨v, back⟩, first, ⟨others, rest'⟩, read, same⟩ := h
    dsimp only at read same
    cases same
    have taken := each first
    have more := ih read
    rw [List.map_cons, List.sum_cons]
    omega

theorem weight_of_readUntilStop {fuel : Nat} {bs rest : Bytes} {vs : List α} (h : readUntilStop item fuel bs = some (vs, rest)) :
    (vs.map weight).sum + rest.length ≤ bs.length := by
  induction fuel generalizing bs vs with
  | zero => nomatch h
  | succ fuel ih =>
    unfold readUntilStop at h
    split at h
    · rename_i back read
      cases h
      have := length_of_head read
      rw [List.map_nil, List.sum_nil]
      omega
    · simp only [Option.bind_eq_bind, Option.bind_eq_some_iff] at h
      obtain ⟨⟨v, back⟩, first, ⟨others, rest'⟩, read, same⟩ := h
      dsimp only at read same
      cases same
      have taken := each first
      have more := ih read
      rw [List.map_cons, List.sum_cons]
      omega

/-- Items take no fewer bytes than they weigh, in whichever way their number is told. -/
theorem weight_of_readAll {length : Option UInt64} {bs rest : Bytes} {vs : List α} (h : readAll item length bs = some (vs, rest)) :
    (vs.map weight).sum + rest.length ≤ bs.length := by
  unfold readAll at h
  split at h
  · exact weight_of_readCount each h
  · exact weight_of_readUntilStop each h

end

/-- An entry takes no fewer bytes than key and value weigh. -/
theorem weight_of_readEntry {value : Reader Value}
    (each : ∀ {bs rest v}, value bs = some (v, rest) → v.weight + rest.length ≤ bs.length) {bs rest : Bytes} {e : Value × Value}
    (h : readEntry value bs = some (e, rest)) : e.1.weight + e.2.weight + rest.length ≤ bs.length := by
  simp only [readEntry, Option.bind_eq_bind, Option.bind_eq_some_iff] at h
  obtain ⟨⟨k, _⟩, key, ⟨v, _⟩, read, same⟩ := h
  dsimp only at read same
  cases same
  have := each key
  have := each read
  dsimp only
  omega

/-- The integer that stands for a tagged byte string weighs no more than the string with its tag. -/
theorem weight_of_integerOfTag? {number : UInt64} {digits : Bytes} {v : Value} (h : integerOfTag? number digits = some v) :
    v.weight ≤ digits.length + 2 := by
  have strip : (Bytes.stripZeros digits).length ≤ digits.length := (List.dropWhile_sublist _).length_le
  simp only [integerOfTag?] at h
  split at h
  · cases h
    split <;> simp only [Value.weight] <;> omega
  · split at h
    · cases h
      split <;> simp only [Value.weight] <;> omega
    · cases h

/-- The digits of an integer take no fewer bytes than there are, and a head. -/
theorem length_of_taggedDigits? {number : UInt64} {bs digits rest : Bytes}
    (h : taggedDigits? number bs = some (digits, rest)) : digits.length + rest.length < bs.length := by
  unfold taggedDigits? at h
  split at h
  · split at h
    · rename_i n back read
      have head := length_of_head read
      split at h
      · have := length_of_splitAt? h
        omega
      · nomatch h
    · nomatch h
  · nomatch h

/-- How a reader of some depth takes a value off some bytes, whose head it has taken already. -/
inductive Reads (depth : Nat) (back : Bytes) : Value → Bytes → Prop
  | atom {v : Value} (weight : v.weight = 1) (flat : v.depth = 0) : Reads depth back v back
  | bytes {length : Option UInt64} {string rest : Bytes} (read : readBytes length back = some (string, rest)) :
    Reads depth back (.bytes string) rest
  | text {length : Option UInt64} {s : String} {rest : Bytes} (read : readText length back = some (s, rest)) :
    Reads depth back (.text s) rest
  | integer {number : UInt64} {digits rest : Bytes} {v : Value} (tagged : taggedDigits? number back = some (digits, rest))
    (stands : integerOfTag? number digits = some v) : Reads depth back v rest
  | tag {less : Nat} (deeper : less < depth) (number : UInt64) {content : Value} {rest : Bytes}
    (read : readValue less back = some (content, rest)) : Reads depth back (.tag number content) rest
  | array {less : Nat} (deeper : less < depth) {length : Option UInt64} {vs : List Value} {rest : Bytes}
    (read : readAll (readValue less) length back = some (vs, rest)) : Reads depth back (.array vs) rest
  | map {less : Nat} (deeper : less < depth) {length : Option UInt64} {es : List (Value × Value)} {rest : Bytes}
    (read : readAll (readEntry (readValue less)) length back = some (es, rest)) : Reads depth back (.map es) rest

/-- Whatever is read is read in one of these ways. -/
theorem reads_of_readValue {depth : Nat} {bs rest : Bytes} {v : Value} (h : readValue depth bs = some (v, rest)) :
    ∃ head back, Head.read bs = .ok (head, back) ∧ Reads depth back v rest := by
  unfold readValue at h
  split at h
  · nomatch h
  rename_i head back read
  refine ⟨head, back, read, ?_⟩
  split at h
  · cases h
    exact .atom rfl rfl
  · cases h
    exact .atom rfl rfl
  · obtain ⟨⟨string, _⟩, read, same⟩ := Option.map_eq_some_iff.mp h
    cases same
    exact .bytes read
  · obtain ⟨⟨s, _⟩, read, same⟩ := Option.map_eq_some_iff.mp h
    cases same
    exact .text read
  · split at h
    · cases h
      exact .atom rfl rfl
    · split at h
      · cases h
        exact .atom rfl rfl
      · split at h
        · cases h
          exact .atom rfl rfl
        · nomatch h
  · cases h
    exact .atom rfl rfl
  · nomatch h
  · obtain ⟨⟨vs, _⟩, read, same⟩ := Option.map_eq_some_iff.mp h
    cases same
    exact .array (Nat.lt_succ_self _) read
  · obtain ⟨⟨es, _⟩, read, same⟩ := Option.map_eq_some_iff.mp h
    cases same
    exact .map (Nat.lt_succ_self _) read
  · rename_i number less
    split at h
    · rename_i digits _ tagged
      obtain ⟨_, stands, same⟩ := Option.map_eq_some_iff.mp h
      cases same
      exact .integer tagged stands
    · obtain ⟨⟨content, _⟩, read, same⟩ := Option.map_eq_some_iff.mp h
      cases same
      exact .tag (Nat.lt_succ_self _) number read
  · split at h
    · rename_i digits _ tagged
      obtain ⟨_, stands, same⟩ := Option.map_eq_some_iff.mp h
      cases same
      exact .integer tagged stands
    · nomatch h
  · nomatch h
  · nomatch h

/-- What is read takes no fewer bytes than its weight. -/
theorem weight_of_readValue {depth : Nat} {bs rest : Bytes} {v : Value} (h : readValue depth bs = some (v, rest)) :
    v.weight + rest.length ≤ bs.length := by
  induction depth using Nat.strongRecOn generalizing bs v rest with
  | ind depth ih =>
    obtain ⟨head, back, read, reads⟩ := reads_of_readValue h
    have taken := length_of_head read
    cases reads with
    | atom weight flat => omega
    | bytes read =>
      have := length_of_readBytes read
      rw [Value.weight]
      omega
    | text read =>
      have := length_of_readText read
      rw [Value.weight]
      omega
    | integer tagged stands =>
      have := length_of_taggedDigits? tagged
      have := weight_of_integerOfTag? stands
      omega
    | tag deeper number read =>
      have := ih _ deeper read
      rw [Value.weight]
      omega
    | array deeper read =>
      have := weight_of_readAll (ih _ deeper) read
      rw [Value.weight, Value.weightItems_eq]
      omega
    | map deeper read =>
      have := weight_of_readAll (weight_of_readEntry (ih _ deeper)) read
      rw [Value.weight, Value.weightEntries_eq]
      omega

/-! ## How deep reading goes -/

section

variable {α : Type} {item : Reader α} {P : α → Prop} (each : ∀ {bs rest v}, item bs = some (v, rest) → P v)
include each

/-- What is true of every item that is read is true of as many as were announced. -/
theorem forall_of_readCount {count : Nat} {bs rest : Bytes} {vs : List α} (h : readCount item count bs = some (vs, rest)) :
    ∀ v ∈ vs, P v := by
  induction count generalizing bs vs with
  | zero =>
    cases h
    nofun
  | succ count ih =>
    simp only [readCount, Option.bind_eq_bind, Option.bind_eq_some_iff] at h
    obtain ⟨⟨v, back⟩, first, ⟨others, rest'⟩, read, same⟩ := h
    dsimp only at read same
    cases same
    exact List.forall_mem_cons.mpr ⟨each first, ih read⟩

theorem forall_of_readUntilStop {fuel : Nat} {bs rest : Bytes} {vs : List α} (h : readUntilStop item fuel bs = some (vs, rest)) :
    ∀ v ∈ vs, P v := by
  induction fuel generalizing bs vs with
  | zero => nomatch h
  | succ fuel ih =>
    unfold readUntilStop at h
    split at h
    · cases h
      nofun
    · simp only [Option.bind_eq_bind, Option.bind_eq_some_iff] at h
      obtain ⟨⟨v, back⟩, first, ⟨others, rest'⟩, read, same⟩ := h
      dsimp only at read same
      cases same
      exact List.forall_mem_cons.mpr ⟨each first, ih read⟩

/-- What is true of every item that is read is true of all that are read together. -/
theorem forall_of_readAll {length : Option UInt64} {bs rest : Bytes} {vs : List α} (h : readAll item length bs = some (vs, rest)) :
    ∀ v ∈ vs, P v := by
  unfold readAll at h
  split at h
  · exact forall_of_readCount each h
  · exact forall_of_readUntilStop each h

/-- What is true of every item that is read is true of a key and of its value. -/
theorem forall_of_readEntry {bs rest : Bytes} {e : α × α} (h : readEntry item bs = some (e, rest)) : P e.1 ∧ P e.2 := by
  simp only [readEntry, Option.bind_eq_bind, Option.bind_eq_some_iff] at h
  obtain ⟨⟨k, _⟩, key, ⟨v, _⟩, value, same⟩ := h
  dsimp only at value same
  cases same
  exact ⟨each key, each value⟩

end

/-- There are at most 16 digits in an integer that came as a tagged byte string. -/
theorem length_le_of_taggedDigits? {number : UInt64} {bs digits rest : Bytes}
    (h : taggedDigits? number bs = some (digits, rest)) : digits.length ≤ 16 := by
  unfold taggedDigits? at h
  split at h
  · split at h
    · split at h
      · rename_i short
        unfold Bytes.splitAt? at h
        split at h
        · cases h
          rw [List.length_take]
          exact Nat.le_trans (Nat.min_le_left _ _) (UInt64.le_iff_toNat_le.mp short)
        · nomatch h
      · nomatch h
    · nomatch h
  · nomatch h

/-- An integer that came as a tagged byte string is an integer, unless it is kept as a tag that stands for one. -/
theorem depth_of_integerOfTag? {number : UInt64} {digits : Bytes} {v : Value} (short : digits.length ≤ 16)
    (h : integerOfTag? number digits = some v) (plain : v.isPlain = true) : v.depth = 0 := by
  have kept : ∀ tag : UInt64, (tag == 2 || tag == 3) = true →
      (Value.tag tag (.bytes digits.stripZeros)).isPlain = false := by
    intro tag integral
    have strip : (Bytes.stripZeros digits).length ≤ 16 := Nat.le_trans (List.dropWhile_sublist _).length_le short
    rw [Value.isPlain, Value.standsForInteger, integral, decide_eq_true strip]
    rfl
  simp only [integerOfTag?] at h
  split at h
  · cases h
    split at plain
    · rename_i small
      rw [if_pos small]
      rfl
    · rw [kept 2 rfl] at plain
      cases plain
  · split at h
    · cases h
      split at plain
      · rename_i small
        rw [if_pos small]
        rfl
      · rw [kept 3 rfl] at plain
        cases plain
    · cases h

/-- What is read is nested no deeper than the reader allows, if no tag in it stands for an integer. -/
theorem depth_le_of_readValue {depth : Nat} {bs rest : Bytes} {v : Value} (h : readValue depth bs = some (v, rest))
    (plain : v.isPlain = true) : v.depth ≤ depth := by
  induction depth using Nat.strongRecOn generalizing bs v rest with
  | ind depth ih =>
    obtain ⟨head, back, _, reads⟩ := reads_of_readValue h
    cases reads with
    | atom weight flat => exact flat ▸ Nat.zero_le depth
    | bytes read => exact Nat.zero_le depth
    | text read => exact Nat.zero_le depth
    | integer tagged stands =>
      rw [depth_of_integerOfTag? (length_le_of_taggedDigits? tagged) stands plain]
      exact Nat.zero_le depth
    | tag deeper number read =>
      rw [Value.isPlain, Bool.and_eq_true] at plain
      rw [Value.depth]
      exact Nat.lt_of_le_of_lt (ih _ deeper read plain.2) deeper
    | array deeper read =>
      rw [Value.isPlain] at plain
      rw [Value.depth]
      have each := forall_of_readAll (ih _ deeper) read
      refine Nat.lt_of_le_of_lt (Value.depthItems_le fun v among => ?_) deeper
      exact each v among (Value.isPlain_of_mem among plain)
    | map deeper read =>
      rw [Value.isPlain] at plain
      rw [Value.depth]
      have each := forall_of_readAll (forall_of_readEntry (ih _ deeper)) read
      refine Nat.lt_of_le_of_lt (Value.depthEntries_le fun e among => ?_) deeper
      obtain ⟨key, value⟩ := Value.isPlain_of_mem_entries among plain
      exact ⟨(each e among).1 key, (each e among).2 value⟩

/-! ## Values that were read -/

/-- A value that some bytes begin with weighs no more than they are. -/
theorem weight_of_decode? {bs : Bytes} {v : Value} (h : decode? bs = some v) : v.weight ≤ bs.length := by
  obtain ⟨⟨_, rest⟩, read, rfl⟩ := Option.map_eq_some_iff.mp h
  exact Nat.le_trans (Nat.le_add_right _ _) (weight_of_readValue read)

/-- A value that some bytes begin with can be written and read back, if no tag in it stands for an integer. -/
theorem isStorable_of_decode? {bs : Bytes} {v : Value} (h : decode? bs = some v) (fits : bs.length < 2 ^ 64)
    (plain : v.isPlain = true) : v.IsStorable maxDepth := by
  refine ⟨plain, ?_, Nat.lt_of_le_of_lt (weight_of_decode? h) fits⟩
  obtain ⟨⟨_, rest⟩, read, rfl⟩ := Option.map_eq_some_iff.mp h
  exact depth_le_of_readValue read plain

/-- A value that some bytes are weighs no more than they are. -/
theorem weight_of_decodeExact? {bs : Bytes} {v : Value} (h : decodeExact? bs = some v) : v.weight ≤ bs.length := by
  unfold decodeExact? at h
  split at h
  · rename_i read
    cases h
    exact weight_of_readValue read
  · nomatch h

/-- A faithful value weighs no more than its encoding. -/
theorem Value.IsFaithful.weight_le {depth : Nat} {v : Value} (h : v.IsFaithful depth) : v.weight ≤ v.encode.length := by
  have read := weight_of_readValue (h.readValue_encode [])
  rw [List.append_nil] at read
  exact read

end TokenGate.Cbor
