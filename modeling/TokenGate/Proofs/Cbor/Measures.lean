import TokenGate.Proofs.Cbor.Values

/-!
# Measures of values

The depth of a value is how deep its arrays, maps and tags are nested. Its `weight` counts its items and the bytes in its strings.
A value that is neither too deep nor too large is faithful, if none of its tags stands for an integer, and so are its parts.
-/

namespace TokenGate.Cbor

namespace Value

mutual

/-- How deep arrays, maps and tags are nested in a value. -/
def depth : Value → Nat
  | .tag _ content => depth content + 1
  | .array items => depthItems items + 1
  | .map entries => depthEntries entries + 1
  | _ => 0

/-- The depth of the deepest one of some items. -/
def depthItems : List Value → Nat
  | [] => 0
  | v :: vs => max (depth v) (depthItems vs)

/-- The depth of the deepest key or value of some entries. -/
def depthEntries : List (Value × Value) → Nat
  | [] => 0
  | (k, v) :: rest => max (max (depth k) (depth v)) (depthEntries rest)

end

mutual

/-- The number of items in a value and of bytes in its strings. -/
def weight : Value → Nat
  | .bytes bs => bs.length + 1
  | .text s => (Text.utf8 s).length + 1
  | .tag _ content => weight content + 1
  | .array items => weightItems items + 1
  | .map entries => weightEntries entries + 1
  | _ => 1

/-- The weight of some items. -/
def weightItems : List Value → Nat
  | [] => 0
  | v :: vs => weight v + weightItems vs

/-- The weight of some entries. -/
def weightEntries : List (Value × Value) → Nat
  | [] => 0
  | (k, v) :: rest => weight k + weight v + weightEntries rest

end

mutual

/-- Whether no tag in a value stands for an integer. -/
def isPlain : Value → Bool
  | .tag number content => !standsForInteger number content && isPlain content
  | .array items => arePlainItems items
  | .map entries => arePlainEntries entries
  | _ => true

/-- Whether no tag in some items stands for an integer. -/
def arePlainItems : List Value → Bool
  | [] => true
  | v :: vs => isPlain v && arePlainItems vs

/-- Whether no tag in some entries stands for an integer. -/
def arePlainEntries : List (Value × Value) → Bool
  | [] => true
  | (k, v) :: rest => isPlain k && isPlain v && arePlainEntries rest

end

/-- Items are plain if each of them is. -/
theorem arePlainItems_eq (items : List Value) : arePlainItems items = items.all isPlain := by
  induction items with
  | nil => rfl
  | cons v vs ih => rw [arePlainItems, ih, List.all_cons]

theorem arePlainEntries_eq (entries : List (Value × Value)) :
    arePlainEntries entries = entries.all fun e => e.1.isPlain && e.2.isPlain := by
  induction entries with
  | nil => rfl
  | cons e es ih => rw [arePlainEntries, ih, List.all_cons]

/-- Only the tags 2 and 3 can stand for an integer. -/
theorem isPlain_tag {number : UInt64} {content : Value} (other : number ≠ 2 ∧ number ≠ 3) (plain : content.isPlain = true) :
    (tag number content).isPlain = true := by
  rw [isPlain, plain, Bool.and_true, Bool.not_eq_true']
  unfold standsForInteger
  split
  · simp [other]
  · rfl

/-- Nothing is weightless. -/
theorem one_le_weight (v : Value) : 1 ≤ v.weight := by
  cases v <;> simp only [weight] <;> omega

section

variable {items : List Value} {v : Value} (among : v ∈ items)
include among

/-- No item is deeper than the deepest one. -/
theorem depth_le_of_mem : v.depth ≤ depthItems items := by
  induction items with
  | nil => nomatch among
  | cons w ws ih =>
    rw [depthItems]
    rcases List.mem_cons.mp among with rfl | among
    · exact Nat.le_max_left _ _
    · exact Nat.le_trans (ih among) (Nat.le_max_right _ _)

/-- No item is heavier than all of them together. -/
theorem weight_le_of_mem : v.weight ≤ weightItems items := by
  induction items with
  | nil => nomatch among
  | cons w ws ih =>
    rw [weightItems]
    rcases List.mem_cons.mp among with rfl | among
    · exact Nat.le_add_right _ _
    · exact Nat.le_trans (ih among) (Nat.le_add_left _ _)

theorem isPlain_of_mem (plain : arePlainItems items = true) : v.isPlain = true := by
  rw [arePlainItems_eq] at plain
  exact List.all_eq_true.mp plain v among

end

section

variable {entries : List (Value × Value)} {e : Value × Value} (among : e ∈ entries)
include among

theorem depth_le_of_mem_entries : e.1.depth ≤ depthEntries entries ∧ e.2.depth ≤ depthEntries entries := by
  induction entries with
  | nil => nomatch among
  | cons f fs ih =>
    rw [depthEntries]
    rcases List.mem_cons.mp among with rfl | among
    · omega
    · have := ih among
      omega

theorem weight_le_of_mem_entries : e.1.weight + e.2.weight ≤ weightEntries entries := by
  induction entries with
  | nil => nomatch among
  | cons f fs ih =>
    rw [weightEntries]
    rcases List.mem_cons.mp among with rfl | among
    · omega
    · have := ih among
      omega

theorem isPlain_of_mem_entries (plain : arePlainEntries entries = true) : e.1.isPlain = true ∧ e.2.isPlain = true := by
  rw [arePlainEntries_eq] at plain
  exact Bool.and_eq_true_iff.mp (List.all_eq_true.mp plain e among)

end

/-- A bound on the depth of each item is one on the depth of all. -/
theorem depthItems_le {items : List Value} {bound : Nat} (each : ∀ v ∈ items, v.depth ≤ bound) : depthItems items ≤ bound := by
  induction items with
  | nil => exact Nat.zero_le bound
  | cons v vs ih =>
    rw [List.forall_mem_cons] at each
    exact Nat.max_le.mpr ⟨each.1, ih each.2⟩

theorem depthEntries_le {entries : List (Value × Value)} {bound : Nat}
    (each : ∀ e ∈ entries, e.1.depth ≤ bound ∧ e.2.depth ≤ bound) : depthEntries entries ≤ bound := by
  induction entries with
  | nil => exact Nat.zero_le bound
  | cons e es ih =>
    rw [List.forall_mem_cons] at each
    exact Nat.max_le.mpr ⟨Nat.max_le.mpr each.1, ih each.2⟩

/-- There are no more items than their weight. -/
theorem length_le_weightItems (items : List Value) : items.length ≤ weightItems items := by
  induction items with
  | nil => exact Nat.le_refl 0
  | cons v vs ih =>
    have := one_le_weight v
    rw [List.length_cons, weightItems]
    omega

/-- There are at most half as many entries as their weight. -/
theorem length_le_weightEntries (entries : List (Value × Value)) : 2 * entries.length ≤ weightEntries entries := by
  induction entries with
  | nil => exact Nat.le_refl 0
  | cons e es ih =>
    have key := one_le_weight e.1
    have value := one_le_weight e.2
    rw [List.length_cons, weightEntries]
    omega

theorem weightItems_eq (items : List Value) : weightItems items = (items.map weight).sum := by
  induction items with
  | nil => rfl
  | cons v vs ih => rw [weightItems, ih, List.map_cons, List.sum_cons]

theorem weightEntries_eq (entries : List (Value × Value)) :
    weightEntries entries = (entries.map fun e => e.1.weight + e.2.weight).sum := by
  induction entries with
  | nil => rfl
  | cons e es ih => rw [weightEntries, ih, List.map_cons, List.sum_cons]

end Value

/-! ## Values that can be stored -/

/-- A value is faithful if no tag in it stands for an integer, and if it is neither too deep nor too large. -/
theorem Value.isFaithful_of_isPlain {depth : Nat} {v : Value} (plain : v.isPlain = true) (deep : v.depth ≤ depth)
    (light : v.weight < 2 ^ 64) : v.IsFaithful depth := by
  induction depth generalizing v with
  | zero =>
    cases v with
    | uint n => exact .uint 0 n
    | nint n => exact .nint 0 n
    | bytes bs => exact .bytes 0 (Nat.lt_of_succ_lt light)
    | text s => exact .text 0 (Nat.lt_of_succ_lt light)
    | float bits => exact .float 0 bits
    | bool b => exact .bool 0 b
    | null => exact .null 0
    | tag _ _ => nomatch deep
    | array _ => nomatch deep
    | map _ => nomatch deep
  | succ depth ih =>
    cases v with
    | tag number content =>
      rw [isPlain, Bool.and_eq_true, Bool.not_eq_true'] at plain
      exact .tag plain.1 (ih plain.2 (Nat.le_of_succ_le_succ deep) (Nat.lt_of_succ_lt light))
    | array items =>
      rw [isPlain] at plain
      rw [Value.depth] at deep
      rw [weight] at light
      have length := length_le_weightItems items
      refine .array (by omega) fun v among => ?_
      have := depth_le_of_mem among
      have := weight_le_of_mem among
      exact ih (isPlain_of_mem among plain) (by omega) (by omega)
    | map entries =>
      rw [isPlain] at plain
      rw [Value.depth] at deep
      rw [weight] at light
      have length := length_le_weightEntries entries
      have each : ∀ e ∈ entries, IsFaithful depth e.1 ∧ IsFaithful depth e.2 := by
        intro e among
        have := depth_le_of_mem_entries among
        have := weight_le_of_mem_entries among
        obtain ⟨key, value⟩ := isPlain_of_mem_entries among plain
        exact ⟨ih key (by omega) (by omega), ih value (by omega) (by omega)⟩
      exact .map (by omega) (fun e among => (each e among).1) fun e among => (each e among).2
    | _ => exact (ih (by rfl) (Nat.zero_le _) light).mono (Nat.le_succ _)

/-- A value whose parts can be written and read back wherever they are put. -/
structure Value.IsStorable (depth : Nat) (v : Value) : Prop where
  plain : v.isPlain = true
  deep : v.depth ≤ depth
  light : v.weight < 2 ^ 64

namespace Value.IsStorable

variable {depth : Nat}

/-- What can be stored is read back as it was. -/
theorem isFaithful {v : Value} (h : v.IsStorable depth) : v.IsFaithful depth := isFaithful_of_isPlain h.plain h.deep h.light

/-- What can be stored at some depth can be stored where there is more room. -/
theorem mono {v : Value} (h : v.IsStorable depth) {more : Nat} (le : depth ≤ more) : v.IsStorable more :=
  ⟨h.plain, Nat.le_trans h.deep le, h.light⟩

/-- The content of a tag that can be stored can be stored. -/
theorem of_tag {number : UInt64} {content : Value} (h : (Value.tag number content).IsStorable (depth + 1)) :
    content.IsStorable depth := by
  obtain ⟨plain, deep, light⟩ := h
  rw [isPlain, Bool.and_eq_true] at plain
  exact ⟨plain.2, Nat.le_of_succ_le_succ deep, Nat.lt_of_succ_lt light⟩

/-- An item of an array that can be stored can be stored. -/
theorem of_mem {items : List Value} (h : (Value.array items).IsStorable (depth + 1)) {v : Value} (among : v ∈ items) :
    v.IsStorable depth := by
  obtain ⟨plain, deep, light⟩ := h
  exact ⟨isPlain_of_mem among plain, Nat.le_trans (depth_le_of_mem among) (Nat.le_of_succ_le_succ deep),
    Nat.lt_of_le_of_lt (weight_le_of_mem among) (Nat.lt_of_succ_lt light)⟩

theorem of_mem_entries {entries : List (Value × Value)} (h : (Value.map entries).IsStorable (depth + 1)) {e : Value × Value}
    (among : e ∈ entries) : e.1.IsStorable depth ∧ e.2.IsStorable depth := by
  obtain ⟨plain, deep, light⟩ := h
  rw [isPlain] at plain
  rw [Value.depth] at deep
  rw [weight] at light
  have deeper := depth_le_of_mem_entries among
  have lighter := weight_le_of_mem_entries among
  obtain ⟨key, value⟩ := isPlain_of_mem_entries among plain
  exact ⟨⟨key, by omega, by omega⟩, value, by omega, by omega⟩

/-- There is room for more entries in a map. -/
theorem length_entries {entries : List (Value × Value)} (h : (Value.map entries).IsStorable depth) :
    entries.length < 2 ^ 63 := by
  have light := h.light
  rw [weight] at light
  have := length_le_weightEntries entries
  omega

end Value.IsStorable

end TokenGate.Cbor
