import TokenGate.Proofs.Claims.Contents

/-!
# Claims sets read back

Claims are written in the order of their labels, and then all other entries in theirs. What comes back is the same set, whatever the
order in which it was first read, with one identifier or another.
-/

namespace TokenGate

open Cbor

namespace Claims

/-- Claims that can be written and read back as part of a value that is nested one level deeper, with a bound on the number of
entries that the server does not act on. -/
structure IsRestorable (depth bound : Nat) (c : Claims) : Prop where
  known : ∀ k content, c.known k = some content →
    ∃ w, k.toValue content = .ok w ∧ w.IsFaithful depth ∧ k.ofValue w = .ok content
  extra : ∀ e ∈ c.extra, keyOf? e.1 = none ∧ e.1.IsFaithful depth ∧ e.2.IsFaithful depth
  few : c.extra.length ≤ bound

/-- No claims can be written and read back. -/
theorem IsRestorable.empty (depth : Nat) : empty.IsRestorable depth 0 where
  known := nofun
  extra := nofun
  few := Nat.le_refl 0

/-- Claims stay so with a content that can be written and read back. -/
theorem IsRestorable.set {depth bound : Nat} {c : Claims} (h : c.IsRestorable depth bound) {k : ClaimKey} {content : k.Content}
    (new : ∃ w, k.toValue content = .ok w ∧ w.IsFaithful depth ∧ k.ofValue w = .ok content) :
    (c.set k content).IsRestorable depth bound where
  known := by
    intro j other present
    by_cases same : k = j
    · subst same
      rw [known_set_self] at present
      cases present
      exact new
    · rw [known_set_of_ne c content same] at present
      exact h.known j other present
  extra := h.extra
  few := h.few

/-- An entry is kept as it came, or read as a claim that was not there before. -/
theorem enter_eq_ok {c next : Claims} {e : Value × Value} (h : c.enter e = .ok next) :
    (keyOf? e.1 = none ∧ next = c.addExtra e.1 e.2) ∨
    ∃ k content, keyOf? e.1 = some k ∧ k.ofValue e.2 = .ok content ∧ c.known k = none ∧ next = c.set k content := by
  unfold Claims.enter at h
  cases known : keyOf? e.1 with
  | none =>
    rw [known] at h
    cases h
    exact Or.inl ⟨rfl, rfl⟩
  | some k =>
    rw [known] at h
    cases read : k.ofValue e.2 with
    | error e =>
      simp only [read, bind, Except.bind] at h
      nomatch h
    | ok content =>
      simp only [read, bind, Except.bind] at h
      split at h
      · nomatch h
      · rename_i new
        cases h
        exact Or.inr ⟨k, content, rfl, read, by simpa [contains] using new, rfl⟩

/-- Claims stay so with another entry that was read. -/
theorem IsRestorable.enter {depth bound : Nat} {c next : Claims} (h : c.IsRestorable depth bound) {e : Value × Value}
    (key : e.1.IsStorable depth) (value : e.2.IsStorable depth) (entered : c.enter e = .ok next) :
    next.IsRestorable depth (bound + 1) := by
  obtain ⟨other, rfl⟩ | ⟨k, content, _, read, _, rfl⟩ := enter_eq_ok entered
  · refine ⟨h.known, fun another among => ?_, ?_⟩
    · rcases List.mem_append.mp among with among | among
      · exact h.extra another among
      · cases List.mem_singleton.mp among
        exact ⟨other, key.isFaithful, value.isFaithful⟩
    · have few := h.few
      rw [addExtra, List.length_append]
      exact Nat.add_le_add_right few 1
  · have set := h.set (ClaimKey.exists_value_of_ofValue value read)
    exact ⟨set.known, set.extra, Nat.le_succ_of_le set.few⟩

/-- Claims stay so with each storable entry that is read into them. -/
theorem IsRestorable.foldlM {depth bound : Nat} {c final : Claims} (h : c.IsRestorable depth bound)
    {entries : List (Value × Value)} (storable : ∀ e ∈ entries, e.1.IsStorable depth ∧ e.2.IsStorable depth)
    (entered : entries.foldlM Claims.enter c = .ok final) : final.IsRestorable depth (bound + entries.length) := by
  induction entries generalizing c bound with
  | nil =>
    cases entered
    exact h
  | cons e rest ih =>
    obtain ⟨next, first, entered⟩ := foldlM_cons_eq_ok.mp entered
    obtain ⟨key, value⟩ := storable e List.mem_cons_self
    have others := ih (h.enter key value first) (fun e among => storable e (List.mem_cons_of_mem _ among)) entered
    rw [List.length_cons, Nat.add_comm rest.length 1, ← Nat.add_assoc]
    exact others

/-- Claims that were read can be written and read back. -/
theorem isRestorable_of_ofValue {depth : Nat} {v : Value} {c : Claims} (storable : v.IsStorable (depth + 1))
    (got : ofValue v = .ok c) : ∃ bound < 2 ^ 63, c.IsRestorable depth bound := by
  cases v with
  | map entries =>
    have whole := (IsRestorable.empty depth).foldlM (fun e among => storable.of_mem_entries among) got
    rw [Nat.zero_add] at whole
    exact ⟨_, storable.length_entries, whole⟩
  | _ => nomatch got

/-! ## Writing and reading -/

/-- The label of a claim is the key of that claim. -/
theorem keyOf?_label (k : ClaimKey) : keyOf? (.uint k.label) = some k := ClaimKey.ofLabel?_label k

/-- The claims with those under some keys taken from other ones. -/
def withKnown (c draft : Claims) (keys : List ClaimKey) : Claims :=
  { draft with known := fun k => if k ∈ keys then c.known k else draft.known k }

/-- The entries of some claims are written, and read into claims without them. -/
theorem IsRestorable.exists_entries {depth bound : Nat} {c : Claims} (h : c.IsRestorable depth bound) {keys : List ClaimKey}
    (nodup : keys.Nodup) : ∃ lists, keys.mapM c.entry = .ok lists ∧ lists.flatten.length ≤ keys.length ∧
      (∀ e ∈ lists.flatten, e.1.IsFaithful depth ∧ e.2.IsFaithful depth) ∧
      ∀ draft : Claims, (∀ k ∈ keys, draft.known k = none) →
        lists.flatten.foldlM Claims.enter draft = .ok (c.withKnown draft keys) := by
  induction keys with
  | nil => exact ⟨[], rfl, Nat.le_refl 0, nofun, fun draft _ => by simp [withKnown]; rfl⟩
  | cons k keys ih =>
    obtain ⟨new, nodup⟩ := List.nodup_cons.mp nodup
    obtain ⟨lists, written, short, faithful, again⟩ := ih nodup
    cases present : c.known k with
    | none =>
      refine ⟨[] :: lists, ?_, ?_, faithful, fun draft vacant => ?_⟩
      · simp only [List.mapM_cons, entry, present, written, bind, Except.bind, pure, Except.pure]
      · rw [List.flatten_cons, List.nil_append, List.length_cons]
        exact Nat.le_succ_of_le short
      · rw [List.flatten_cons, List.nil_append, again draft fun j among => vacant j (List.mem_cons_of_mem _ among)]
        refine congrArg Except.ok (ext (fun j => ?_) rfl)
        by_cases same : j = k
        · subst same
          simp [withKnown, new, present, vacant j List.mem_cons_self]
        · simp [withKnown, same]
    | some content =>
      obtain ⟨w, valued, faithful', read⟩ := h.known k content present
      refine ⟨[(.uint k.label, w)] :: lists, ?_, ?_, ?_, fun draft vacant => ?_⟩
      · simp only [List.mapM_cons, entry, present, valued, written, bind, Except.bind, pure, Except.pure]
      · rw [List.flatten_cons, List.singleton_append, List.length_cons, List.length_cons]
        exact Nat.succ_le_succ short
      · rw [List.flatten_cons, List.singleton_append, List.forall_mem_cons]
        exact ⟨⟨.uint depth _, faithful'⟩, faithful⟩
      · have absent : draft.contains k = false := by rw [contains, vacant k List.mem_cons_self, Option.isSome_none]
        have first : draft.enter (.uint k.label, w) = .ok (draft.set k content) := by
          simp only [Claims.enter, keyOf?_label, read, absent, bind, Except.bind, if_neg Bool.false_ne_true]
        have rest := again (draft.set k content) fun j among => by
          have apart : k ≠ j := fun same => new (same ▸ among)
          rw [known_set_of_ne draft content apart]
          exact vacant j (List.mem_cons_of_mem _ among)
        rw [List.flatten_cons, List.singleton_append, List.foldlM_cons, first]
        refine rest.trans (congrArg Except.ok (ext (fun j => ?_) rfl))
        by_cases same : j = k
        · subst same
          simp [withKnown, new, present]
        · simp [withKnown, same, known_set_of_ne draft content (Ne.symm same)]

/-- Entries that the server does not act on are read in their order. -/
theorem foldlM_enter_extra {entries : List (Value × Value)} (other : ∀ e ∈ entries, keyOf? e.1 = none) (draft : Claims) :
    entries.foldlM enter draft = .ok { draft with extra := draft.extra ++ entries } := by
  induction entries generalizing draft with
  | nil => simp; rfl
  | cons e rest ih =>
    have first : draft.enter e = .ok (draft.addExtra e.1 e.2) := by
      rw [enter, other e List.mem_cons_self]
    have others := ih (fun e among => other e (List.mem_cons_of_mem _ among)) (draft.addExtra e.1 e.2)
    rw [List.foldlM_cons, first]
    refine others.trans ?_
    rw [addExtra, List.append_assoc, List.singleton_append]

/-- Claims that can be written and read back are. -/
theorem IsRestorable.exists_encode {depth bound : Nat} {c : Claims} (h : c.IsRestorable depth bound) (deep : depth < maxDepth)
    (few : bound < 2 ^ 63) : ∃ bs, c.encode = .ok bs ∧ decode bs = .ok c := by
  obtain ⟨lists, written, short, faithful, again⟩ := h.exists_entries (show ClaimKey.all.Nodup by decide)
  have value : c.toValue = .ok (.map (lists.flatten ++ c.extra)) := by
    simp only [toValue, written, bind, Except.bind]
  have room : lists.flatten.length ≤ 12 := short
  have few' := h.few
  have each : ∀ e ∈ lists.flatten ++ c.extra, e.1.IsFaithful depth ∧ e.2.IsFaithful depth := by
    intro e among
    rcases List.mem_append.mp among with among | among
    · exact faithful e among
    · exact (h.extra e among).2
  have whole : (Value.map (lists.flatten ++ c.extra)).IsFaithful maxDepth := by
    refine Value.IsFaithful.mono (.map ?_ (fun e among => (each e among).1) fun e among => (each e among).2) deep
    rw [List.length_append]
    omega
  refine ⟨_, by simp only [encode, value, bind, Except.bind]; rfl, ?_⟩
  rw [decode, whole.decode?_encode]
  have first := again Claims.empty fun _ _ => rfl
  have others := foldlM_enter_extra (fun e among => (h.extra e among).1) (c.withKnown Claims.empty ClaimKey.all)
  change (lists.flatten ++ c.extra).foldlM Claims.enter Claims.empty = .ok c
  rw [List.foldlM_append, first]
  refine others.trans (congrArg Except.ok (ext (fun k => ?_) rfl))
  simp [withKnown, ClaimKey.mem_all]

end Claims

end TokenGate
