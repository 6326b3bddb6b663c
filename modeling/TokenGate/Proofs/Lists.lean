/-!
# Lists item by item

What is read, written or put back item by item.
-/

namespace TokenGate

/-- What is read from written items are the items. -/
theorem mapM_map_eq_some {α β : Type} {write : α → β} {read : β → Option α} {xs : List α}
    (each : ∀ x ∈ xs, read (write x) = some x) : (xs.map write).mapM read = some xs := by
  induction xs with
  | nil => rfl
  | cons x xs ih =>
    have first := each x List.mem_cons_self
    have others := ih fun y among => each y (List.mem_cons_of_mem _ among)
    simp only [List.map_cons, List.mapM_cons, first, others, Option.bind_eq_bind, Option.bind_some, Option.pure_def]

section

variable {α β : Type} {read : α → Option β} {xs : List α} {ys : List β} (h : xs.mapM read = some ys)
include h

/-- Every item that is read is read from an item. -/
theorem exists_of_mem_mapM {y : β} (among : y ∈ ys) : ∃ x ∈ xs, read x = some y := by
  induction xs generalizing ys with
  | nil =>
    cases h
    nomatch among
  | cons x xs ih =>
    simp only [List.mapM_cons, Option.bind_eq_bind, Option.bind_eq_some_iff] at h
    obtain ⟨first, own, others, rest, same⟩ := h
    cases same
    rcases List.mem_cons.mp among with rfl | among
    · exact ⟨x, List.mem_cons_self, own⟩
    · obtain ⟨x', among', own'⟩ := ih rest among
      exact ⟨x', List.mem_cons_of_mem _ among', own'⟩

/-- Every item is read as an item. -/
theorem exists_mem_of_mapM {x : α} (among : x ∈ xs) : ∃ y ∈ ys, read x = some y := by
  induction xs generalizing ys with
  | nil => nomatch among
  | cons x' xs ih =>
    simp only [List.mapM_cons, Option.bind_eq_bind, Option.bind_eq_some_iff] at h
    obtain ⟨first, own, others, rest, same⟩ := h
    cases same
    rcases List.mem_cons.mp among with rfl | among
    · exact ⟨first, List.mem_cons_self, own⟩
    · obtain ⟨y, among', own'⟩ := ih rest among
      exact ⟨y, List.mem_cons_of_mem _ among', own'⟩

/-- As many items are read as there are. -/
theorem length_of_mapM : ys.length = xs.length := by
  induction xs generalizing ys with
  | nil =>
    cases h
    rfl
  | cons x xs ih =>
    simp only [List.mapM_cons, Option.bind_eq_bind, Option.bind_eq_some_iff] at h
    obtain ⟨first, own, others, rest, same⟩ := h
    cases same
    rw [List.length_cons, List.length_cons, ih rest]

/-- What is written of the items that were read is what they were read from. -/
theorem map_of_mapM {write : β → α} (inverse : ∀ x y, read x = some y → write y = x) : ys.map write = xs := by
  induction xs generalizing ys with
  | nil =>
    cases h
    rfl
  | cons x xs ih =>
    simp only [List.mapM_cons, Option.bind_eq_bind, Option.bind_eq_some_iff] at h
    obtain ⟨first, own, others, rest, same⟩ := h
    cases same
    rw [List.map_cons, inverse x first own, ih rest]

/-- A reader that reads each item reads them all. -/
theorem mapM_mono {more : α → Option β} (further : ∀ x ∈ xs, ∀ y, read x = some y → more x = some y) :
    xs.mapM more = some ys := by
  induction xs generalizing ys with
  | nil => exact h
  | cons x xs ih =>
    simp only [List.mapM_cons, Option.bind_eq_bind, Option.bind_eq_some_iff] at h
    obtain ⟨first, own, others, rest, same⟩ := h
    have again := ih rest fun y among => further y (List.mem_cons_of_mem _ among)
    simp only [List.mapM_cons, Option.bind_eq_bind, further x List.mem_cons_self first own, again, Option.bind_some]
    exact same

end

/-- What is taken up without a failure is taken up one item after the other. -/
theorem foldlM_cons_eq_ok {ε σ α : Type} {take : σ → α → Except ε σ} {x : α} {xs : List α} {s final : σ} :
    (x :: xs).foldlM take s = .ok final ↔ ∃ next, take s x = .ok next ∧ xs.foldlM take next = .ok final := by
  rw [List.foldlM_cons]
  cases take s x with
  | error e => exact iff_of_false nofun nofun
  | ok next => simp [bind, Except.bind]

/-- What every item keeps, all of them keep, taken up one after the other. -/
theorem foldlM_keeps {ε σ α : Type} {take : σ → α → Except ε σ} {P : σ → Prop}
    (each : ∀ {s x s'}, take s x = .ok s' → P s → P s') {xs : List α} {s final : σ} (h : xs.foldlM take s = .ok final)
    (first : P s) : P final := by
  induction xs generalizing s with
  | nil =>
    cases h
    exact first
  | cons x xs ih =>
    obtain ⟨next, taken, others⟩ := foldlM_cons_eq_ok.mp h
    exact ih others (each taken first)

/-- Items are written if each is, and then all that follow it. -/
theorem mapM_cons_eq_ok {ε α β : Type} {write : α → Except ε β} {x : α} {xs : List α} {ys : List β} :
    (x :: xs).mapM write = .ok ys ↔ ∃ y rest, write x = .ok y ∧ xs.mapM write = .ok rest ∧ ys = y :: rest := by
  rw [List.mapM_cons]
  cases write x with
  | error e => exact iff_of_false nofun (by rintro ⟨_, _, ⟨⟩, _⟩)
  | ok y =>
    cases xs.mapM write with
    | error e => exact iff_of_false nofun (by rintro ⟨_, _, _, ⟨⟩, _⟩)
    | ok rest => simp [bind, Except.bind, pure, Except.pure, eq_comm]

/-- Items that can be written and put back one by one can be one after the other. -/
theorem exists_mapM_foldlM {σ α β δ ε : Type} (write : α → Except ε β) (read : σ → β → Except δ σ) (put : σ → α → σ) (P : σ → Prop) {xs : List α}
    (each : ∀ x ∈ xs, ∃ y, write x = .ok y ∧ ∀ s, P s → read s y = .ok (put s x) ∧ P (put s x)) :
    ∃ ys, xs.mapM write = .ok ys ∧ ∀ s, P s → ys.foldlM read s = .ok (xs.foldl put s) ∧ P (xs.foldl put s) := by
  induction xs with
  | nil => exact ⟨[], rfl, fun s h => ⟨rfl, h⟩⟩
  | cons x xs ih =>
    obtain ⟨y, written, back⟩ := each x List.mem_cons_self
    obtain ⟨ys, others, back'⟩ := ih fun z among => each z (List.mem_cons_of_mem _ among)
    refine ⟨y :: ys, ?_, fun s h => ?_⟩
    · simp only [List.mapM_cons, written, others, bind, Except.bind, pure, Except.pure]
    · obtain ⟨first, kept⟩ := back s h
      rw [List.foldlM_cons, first, List.foldl_cons]
      exact back' _ kept

section

variable {α β : Type} [DecidableEq α]

/-- What is listed under a key is what it is paired with. -/
theorem mem_map_filter_fst {entries : List (α × β)} {a : α} {b : β} :
    b ∈ (entries.filter fun e => e.1 = a).map (·.2) ↔ (a, b) ∈ entries := by
  simp only [List.mem_map, List.mem_filter, decide_eq_true_eq]
  constructor
  · rintro ⟨⟨_, _⟩, ⟨among, rfl⟩, rfl⟩
    exact among
  · intro among
    exact ⟨_, ⟨among, rfl⟩, rfl⟩

/-- There are as many values under a key as the key comes up. -/
theorem length_map_filter_fst (entries : List (α × β)) (a : α) :
    ((entries.filter fun e => e.1 = a).map (·.2)).length = (entries.map (·.1)).count a := by
  rw [List.length_map, ← List.countP_eq_length_filter, List.count, List.countP_map]
  exact List.countP_congr fun e _ => by simp

end

end TokenGate
