import TokenGate.Json.Reading
import TokenGate.Proofs.Json.Strings

/-!
# Documents read back

A value without numbers is read back from its printed form. Each value ends where it is known to end, so that it does not matter what
follows it; between values there is white space, which every reader begins by passing over.
-/

namespace TokenGate.Json

/-! ## White space -/

theorem skipSpace_cons {b : UInt8} (other : isSpace b = false) (rest : Bytes) : skipSpace (b :: rest) = b :: rest :=
  List.dropWhile_cons_of_neg (by simp [other])

/-- White space in front is skipped. -/
theorem skipSpace_append {bs : Bytes} (space : ∀ b ∈ bs, isSpace b = true) (rest : Bytes) :
    skipSpace (bs ++ rest) = skipSpace rest :=
  List.dropWhile_append_of_pos space

theorem isSpace_of_mem_newline {depth : Nat} {b : UInt8} (among : b ∈ newline depth) : isSpace b = true := by
  rcases List.mem_cons.mp among with rfl | among
  · decide
  · cases List.eq_of_mem_replicate among
    decide

theorem skipSpace_newline (depth : Nat) (rest : Bytes) : skipSpace (newline depth ++ rest) = skipSpace rest :=
  skipSpace_append (fun _ => isSpace_of_mem_newline) rest

/-- A reader that passes over white space. -/
def PassesSpace {α : Type} (item : Reader α) : Prop :=
  ∀ {space : Bytes}, (∀ b ∈ space, isSpace b = true) → ∀ bs, item (space ++ bs) = item bs

/-- A reader that passes over white space passes over line breaks. -/
theorem PassesSpace.newline {α : Type} {item : Reader α} (h : PassesSpace item) (depth : Nat) (bs : Bytes) :
    item (newline depth ++ bs) = item bs :=
  h (fun _ => isSpace_of_mem_newline) bs

/-! ## Things between commas -/

section

/-- A list is read on behind a line break. -/
theorem readList_newline {α : Type} {item : Reader α} (passes : PassesSpace item) (close : Char) (fuel depth : Nat) (bs : Bytes) :
    readList item close fuel (newline depth ++ bs) = readList item close fuel bs := by
  cases fuel with
  | zero => rfl
  | succ fuel => rw [readList, readList, passes.newline]

variable {α : Type} (depth : Nat) (write : α → Bytes)

/-- The printed forms of further things. -/
def writeMore : List α → Bytes
  | [] => []
  | x :: xs => [byteOf ','] ++ newline depth ++ write x ++ writeMore xs

/-- Every further thing takes at least a byte. -/
theorem length_le_writeMore (xs : List α) : xs.length ≤ (writeMore depth write xs).length := by
  induction xs with
  | nil => exact Nat.le_refl 0
  | cons x xs ih =>
    simp only [writeMore, List.length_append, List.length_cons, List.length_nil]
    omega

variable {item : Reader α} (passes : PassesSpace item) (close : Char)
  (closing : isSpace (byteOf close) = false) (apart : byteOf ',' ≠ byteOf close)
include passes closing apart

/-- Things that are each read back are read back one after the other. -/
theorem readList_writeMore (outer : Nat) {fuel : Nat} {x : α} {xs : List α}
    (each : ∀ y ∈ x :: xs, ∀ rest, item (write y ++ rest) = some (y, rest)) (enough : xs.length < fuel) (rest : Bytes) :
    readList item close fuel (write x ++ (writeMore depth write xs ++ (newline outer ++ byteOf close :: rest))) =
      some (x :: xs, rest) := by
  induction xs generalizing x fuel with
  | nil =>
    cases fuel with
    | zero => nomatch enough
    | succ fuel =>
      have first := each x List.mem_cons_self (newline outer ++ byteOf close :: rest)
      rw [writeMore, List.nil_append, readList, first]
      simp only [Option.bind_eq_bind, Option.bind_some, skipSpace_newline, skipSpace_cons closing, if_true]
  | cons y ys ih =>
    cases fuel with
    | zero => nomatch enough
    | succ fuel =>
      have first := each x List.mem_cons_self
        (writeMore depth write (y :: ys) ++ (newline outer ++ byteOf close :: rest))
      have others := ih (fun z among => each z (List.mem_cons_of_mem _ among)) (Nat.lt_of_succ_lt_succ enough)
      have comma : isSpace (byteOf ',') = false := by decide
      rw [readList, first]
      simp only [writeMore, List.append_assoc, List.cons_append, List.nil_append, Option.bind_eq_bind, Option.bind_some,
        skipSpace_cons comma, if_neg apart, if_true]
      rw [readList_newline passes, others, Option.bind_some]

/-- Things between two marks are read back. -/
theorem readEnclosed_writeMore (outer : Nat) {x : α} {xs : List α}
    (each : ∀ y ∈ x :: xs, ∀ rest, item (write y ++ rest) = some (y, rest))
    (start : ∃ b more, write x = b :: more ∧ isSpace b = false ∧ b ≠ byteOf close) (rest : Bytes) :
    readEnclosed item close
        (newline depth ++ (write x ++ (writeMore depth write xs ++ (newline outer ++ byteOf close :: rest)))) =
      some (x :: xs, rest) := by
  obtain ⟨b, more, begins, other, opening⟩ := start
  have enough : xs.length < (newline depth ++ (write x ++ (writeMore depth write xs ++ (newline outer ++ byteOf close :: rest)))).length := by
    have := length_le_writeMore depth write xs
    simp only [List.length_append, List.length_cons]
    omega
  have all := readList_writeMore depth write passes close closing apart outer each enough rest
  rw [readEnclosed, skipSpace_newline]
  rw [begins, List.cons_append] at all ⊢
  rw [skipSpace_cons other]
  simp only [if_neg opening]
  exact all

end

/-! ## Values -/

/-- A value without numbers that is nested less than `depth` deep, and in which all strings are written forms of texts. -/
inductive IsReadable : (depth : Nat) → Json → Prop
  | null (depth : Nat) : IsReadable (depth + 1) .null
  | bool (depth : Nat) (b : Bool) : IsReadable (depth + 1) (.bool b)
  | text (depth : Nat) (s : String) : IsReadable (depth + 1) (.string (escape s))
  | array {depth : Nat} {items : List Json} (each : ∀ v ∈ items, IsReadable depth v) : IsReadable (depth + 1) (.array items)
  | object {depth : Nat} {members : List (Bytes × Json)} (names : ∀ m ∈ members, ∃ s, m.1 = escape s)
    (values : ∀ m ∈ members, IsReadable depth m.2) : IsReadable (depth + 1) (.object members)

/-- A value that can be read can be read where there is more room. -/
theorem IsReadable.mono {depth more : Nat} {v : Json} (h : v.IsReadable depth) (le : depth ≤ more) : v.IsReadable more := by
  induction h generalizing more with
  | null _ | bool _ _ | text _ _ =>
    cases more with
    | zero => nomatch le
    | succ more => constructor
  | array _ ih =>
    cases more with
    | zero => nomatch le
    | succ more => exact .array fun v among => ih v among (Nat.le_of_succ_le_succ le)
  | object names _ ih =>
    cases more with
    | zero => nomatch le
    | succ more => exact .object names fun m among => ih m among (Nat.le_of_succ_le_succ le)

/-- Further items are printed one after the other. -/
theorem renderItems_eq (depth : Nat) (items : List Json) : renderItems depth items = writeMore depth (render depth) items := by
  induction items with
  | nil => rfl
  | cons v vs ih => rw [renderItems, writeMore, ih]

/-- The printed form of a member. -/
def renderMember (depth : Nat) (member : Bytes × Json) : Bytes :=
  quote member.1 ++ (Text.utf8 ": " ++ render depth member.2)

theorem renderMembers_eq (depth : Nat) (members : List (Bytes × Json)) :
    renderMembers depth members = writeMore depth (renderMember depth) members := by
  induction members with
  | nil => rfl
  | cons m ms ih =>
    obtain ⟨name, v⟩ := m
    rw [renderMembers, writeMore, ih, renderMember]
    simp only [List.append_assoc]

/-- Values are read with white space in front. -/
theorem passesSpace_readValue (depth : Nat) : PassesSpace (readValue depth) := by
  intro space blank bs
  cases depth with
  | zero => rfl
  | succ depth => rw [readValue, readValue, skipSpace_append blank]

theorem passesSpace_readMember {α : Type} (value : Reader α) : PassesSpace (readMember value) := by
  intro space blank bs
  rw [readMember, readMember, skipSpace_append blank]

/-- A value begins with a byte that is neither white space nor a closing bracket. -/
theorem IsReadable.exists_render {depth : Nat} {v : Json} (h : v.IsReadable depth) (level : Nat) :
    ∃ b more, render level v = b :: more ∧ isSpace b = false ∧ b ≠ byteOf ']' := by
  cases h with
  | null => exact ⟨_, _, rfl, by decide, by decide⟩
  | bool _ b => cases b <;> exact ⟨_, _, rfl, by decide, by decide⟩
  | text => exact ⟨_, _, rfl, by decide, by decide⟩
  | @array _ items _ => cases items <;> exact ⟨_, _, rfl, by decide, by decide⟩
  | @object _ members _ _ => cases members <;> exact ⟨_, _, rfl, by decide, by decide⟩

/-- A member is read back if its value is. -/
theorem readMember_render {depth level : Nat} {name : String} {v : Json}
    (value : ∀ rest, readValue depth (render level v ++ rest) = some (v, rest)) (rest : Bytes) :
    readMember (readValue depth) (renderMember level (escape name, v) ++ rest) = some ((escape name, v), rest) := by
  have colon : Text.utf8 ": " = [byteOf ':', byteOf ' '] := by decide
  have spaced : readValue depth ([byteOf ' '] ++ (render level v ++ rest)) = some (v, rest) := by
    rw [passesSpace_readValue depth (List.forall_mem_singleton.mpr (by decide)), value]
  simp only [renderMember, quote, colon, List.cons_append, List.append_assoc, List.nil_append]
  rw [readMember, skipSpace_cons (by decide)]
  change ((scanString (escape name ++ byteOf '"' :: _)).bind _) = _
  rw [scanString_escape, Option.bind_some]
  dsimp only
  rw [skipSpace_cons (by decide)]
  change (readValue depth ([byteOf ' '] ++ (render level v ++ rest))).bind _ = _
  rw [spaced]
  rfl

theorem readValue_bracket (depth : Nat) (bs : Bytes) :
    readValue (depth + 1) (byteOf '[' :: bs) =
      (readEnclosed (readValue depth) ']' bs).map fun (vs, rest) => (.array vs, rest) := rfl

theorem readValue_brace (depth : Nat) (bs : Bytes) :
    readValue (depth + 1) (byteOf '{' :: bs) =
      (readEnclosed (readMember (readValue depth)) '}' bs).map fun (ms, rest) => (.object ms, rest) := rfl

/-- A value is read back, whatever follows it. -/
theorem IsReadable.readValue_render {depth : Nat} {v : Json} (h : v.IsReadable depth) (level : Nat) (rest : Bytes) :
    readValue depth (render level v ++ rest) = some (v, rest) := by
  induction h generalizing level rest with
  | null depth => rfl
  | bool depth b => cases b <;> rfl
  | text depth s =>
    simp only [render, quote, List.cons_append, List.append_assoc, List.nil_append]
    rw [readValue, skipSpace_cons (by decide)]
    simp only [if_true, scanString_escape, Option.map_some]
  | @array depth items each ih =>
    cases items with
    | nil => rfl
    | cons v vs =>
      have all := readEnclosed_writeMore (level + 1) (render (level + 1)) (passesSpace_readValue depth) ']' (by decide) (by decide)
        level (fun y among rest => ih y among (level + 1) rest) ((each v List.mem_cons_self).exists_render (level + 1)) rest
      rw [render, renderItems_eq]
      simp only [List.append_assoc, List.cons_append, List.nil_append]
      rw [readValue_bracket, all, Option.map_some]
  | @object depth members names values ih =>
    cases members with
    | nil => rfl
    | cons m ms =>
      have member : ∀ y ∈ m :: ms, ∀ rest,
          readMember (readValue depth) (renderMember (level + 1) y ++ rest) = some (y, rest) := by
        intro y among rest
        obtain ⟨written, v⟩ := y
        obtain ⟨name, rfl⟩ := names _ among
        exact readMember_render (fun rest => ih _ among (level + 1) rest) rest
      have all := readEnclosed_writeMore (level + 1) (renderMember (level + 1)) (passesSpace_readMember (readValue depth)) '}'
        (by decide) (by decide) level member ⟨_, _, rfl, by decide, by decide⟩ rest
      rw [render, renderMembers_eq]
      rw [renderMember] at all
      simp only [List.append_assoc, List.cons_append, List.nil_append] at all ⊢
      rw [readValue_brace, all, Option.map_some]

/-- A document is read back. -/
theorem IsReadable.decode?_encode {depth : Nat} {v : Json} (h : v.IsReadable depth) (enough : depth ≤ v.encode.length + 1) :
    decode? v.encode = some v := by
  have read := (h.mono enough).readValue_render 0 []
  rw [List.append_nil, ← encode] at read
  rw [decode?, read]
  rfl

end TokenGate.Json
