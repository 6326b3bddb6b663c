import TokenGate.Proofs.Claims.Encoding
import TokenGate.Proofs.Lists

/-!
# The order of entries

Which claims a map is does not depend on the order of its entries, except that what the server does not act on is kept in order.
Each claim is read from the one entry that is under its label, wherever that entry is.
-/

namespace TokenGate

open Cbor

namespace Claims

/-! ## Entries by what they are read as -/

/-- The values of the entries that are read as a claim. -/
def valuesOf (entries : List (Value × Value)) (k : ClaimKey) : List Value :=
  (entries.filter fun e => keyOf? e.1 = some k).map (·.2)

/-- The entries that the server does not act on, in order. -/
def uninterpreted (entries : List (Value × Value)) : List (Value × Value) :=
  entries.filter fun e => keyOf? e.1 = none

variable {entries entries' : List (Value × Value)} {e : Value × Value}

/-- An entry that is read as a claim adds its value to those of the claim. -/
theorem valuesOf_cons_of_eq {k : ClaimKey} (own : keyOf? e.1 = some k) (entries : List (Value × Value)) :
    valuesOf (e :: entries) k = e.2 :: valuesOf entries k := by
  rw [valuesOf, List.filter_cons_of_pos (by simpa using own), List.map_cons, valuesOf]

theorem valuesOf_cons_of_ne {k : ClaimKey} (other : keyOf? e.1 ≠ some k) (entries : List (Value × Value)) :
    valuesOf (e :: entries) k = valuesOf entries k := by
  rw [valuesOf, List.filter_cons_of_neg (by simpa using other), valuesOf]

/-- An entry under an unknown key is left uninterpreted. -/
theorem uninterpreted_cons_of_none (unknown : keyOf? e.1 = none) (entries : List (Value × Value)) :
    uninterpreted (e :: entries) = e :: uninterpreted entries :=
  List.filter_cons_of_pos (decide_eq_true unknown)

theorem uninterpreted_cons_of_some {k : ClaimKey} (known : keyOf? e.1 = some k) (entries : List (Value × Value)) :
    uninterpreted (e :: entries) = uninterpreted entries :=
  List.filter_cons_of_neg (by simp [known])

/-! ## What entries add to a draft -/

/-- The claims that come of a draft with some entries read: a claim that was not there may have one entry, of its own kind, and a
claim that was there has none. -/
structure Completes (c draft : Claims) (entries : List (Value × Value)) : Prop where
  known : ∀ k, (valuesOf entries k = [] ∧ c.known k = draft.known k) ∨
    ∃ v content, valuesOf entries k = [v] ∧ draft.known k = none ∧ k.ofValue v = .ok content ∧ c.known k = some content
  extra : c.extra = draft.extra ++ uninterpreted entries

/-- A draft with an entry read is completed by the other entries just if the draft is by all of them. -/
theorem Completes.of_enter {c draft next : Claims} (entered : draft.enter e = .ok next) :
    c.Completes next entries ↔ c.Completes draft (e :: entries) := by
  rcases enter_eq_ok entered with ⟨unknown, rfl⟩ | ⟨k, content, known, read, new, rfl⟩
  · have values : ∀ k, valuesOf (e :: entries) k = valuesOf entries k := fun k =>
      valuesOf_cons_of_ne (by simp [unknown]) entries
    have extra : (draft.addExtra e.1 e.2).extra ++ uninterpreted entries = draft.extra ++ uninterpreted (e :: entries) := by
      rw [uninterpreted_cons_of_none unknown, addExtra, List.append_assoc]
      rfl
    constructor
    · intro h
      exact ⟨fun k => values k ▸ h.known k, extra ▸ h.extra⟩
    · intro h
      exact ⟨fun k => values k ▸ h.known k, extra ▸ h.extra⟩
  · have others : ∀ j, k ≠ j → (valuesOf (e :: entries) j = valuesOf entries j ∧ (draft.set k content).known j = draft.known j) :=
      fun j other => ⟨valuesOf_cons_of_ne (by simpa [known] using other) entries, known_set_of_ne draft content other⟩
    have own := valuesOf_cons_of_eq known entries
    have extra := uninterpreted_cons_of_some known entries
    constructor
    · intro h
      refine ⟨fun j => ?_, extra ▸ h.extra⟩
      by_cases same : k = j
      · subst same
        rcases h.known k with ⟨rest, found⟩ | ⟨_, _, _, absent, _⟩
        · rw [known_set_self] at found
          exact Or.inr ⟨e.2, content, by rw [own, rest], new, read, found⟩
        · rw [known_set_self] at absent
          cases absent
      · obtain ⟨values, before⟩ := others j same
        rw [values, ← before]
        exact h.known j
    · intro h
      refine ⟨fun j => ?_, extra ▸ h.extra⟩
      by_cases same : k = j
      · subst same
        rcases h.known k with ⟨rest, _⟩ | ⟨v, content', rest, _, read', found⟩
        · rw [own] at rest
          cases rest
        · rw [own, List.cons.injEq] at rest
          obtain ⟨rfl, rest⟩ := rest
          rw [read] at read'
          cases read'
          exact Or.inl ⟨rest, found.trans (known_set_self draft k content).symm⟩
      · obtain ⟨values, before⟩ := others j same
        rw [← values, before]
        exact h.known j

/-- An entry can be read into a draft that can be completed with it. -/
theorem Completes.exists_enter {c draft : Claims} (h : c.Completes draft (e :: entries)) : ∃ next, draft.enter e = .ok next := by
  unfold enter
  cases known : keyOf? e.1 with
  | none => exact ⟨_, rfl⟩
  | some k =>
    rcases h.known k with ⟨rest, _⟩ | ⟨v, content, rest, new, read, _⟩
    · rw [valuesOf_cons_of_eq known] at rest
      nomatch rest
    · rw [valuesOf_cons_of_eq known, List.cons.injEq] at rest
      obtain ⟨rfl, _⟩ := rest
      refine ⟨draft.set k content, ?_⟩
      simp [read, bind, Except.bind, contains, new]

/-- Entries are read one after the other just if each claim has at most one of them. -/
theorem foldlM_enter_eq_ok_iff {c draft : Claims} : entries.foldlM enter draft = .ok c ↔ c.Completes draft entries := by
  induction entries generalizing draft with
  | nil =>
    constructor
    · rintro ⟨⟩
      exact ⟨fun k => Or.inl ⟨rfl, rfl⟩, (List.append_nil _).symm⟩
    · intro h
      have same : c = draft := by
        refine Claims.ext (fun k => ?_) (h.extra.trans (List.append_nil _))
        rcases h.known k with ⟨_, same⟩ | ⟨_, _, none, _⟩
        · exact same
        · nomatch none
      rw [same]
      rfl
  | cons e entries ih =>
    rw [foldlM_cons_eq_ok]
    constructor
    · rintro ⟨next, entered, others⟩
      exact (Completes.of_enter entered).mp (ih.mp others)
    · intro h
      obtain ⟨next, entered⟩ := h.exists_enter
      exact ⟨next, entered, ih.mpr ((Completes.of_enter entered).mpr h)⟩

/-! ## Reordered entries -/

/-- Entries in another order, in which those that the server does not act on follow each other as before. -/
structure Reorders (entries' entries : List (Value × Value)) : Prop where
  perm : entries'.Perm entries
  uninterpreted : uninterpreted entries' = uninterpreted entries

/-- Where each claim has one entry at most, the order of the entries says nothing about the claims. -/
theorem Completes.reorder {c draft : Claims} (h : c.Completes draft entries) (reorders : Reorders entries' entries) :
    c.Completes draft entries' where
  known := by
    intro k
    have values : (valuesOf entries' k).Perm (valuesOf entries k) := (reorders.perm.filter _).map _
    rcases h.known k with ⟨none, before⟩ | ⟨v, content, one, rest⟩
    · rw [none] at values
      exact Or.inl ⟨values.eq_nil, before⟩
    · rw [one] at values
      exact Or.inr ⟨v, content, List.perm_singleton.mp values, rest⟩
  extra := reorders.uninterpreted ▸ h.extra

/-- A map with its entries in another order is the same claims. -/
theorem Reorders.ofValue_eq (h : Reorders entries' entries) {c : Claims} (read : ofValue (.map entries) = .ok c) :
    ofValue (.map entries') = .ok c :=
  foldlM_enter_eq_ok_iff.mpr ((foldlM_enter_eq_ok_iff.mp read).reorder h)

end Claims

end TokenGate
