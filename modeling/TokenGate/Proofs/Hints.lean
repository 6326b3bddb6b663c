import TokenGate.Hints
import TokenGate.Proofs.Cbor.Reading

/-!
# Hints come back

Hints are written as a map, and read from one entry by entry. What is written is read back, in any order of the entries and in
both forms of a map. Whatever the input is, the reader comes to an end: each turn of its loop takes an entry, and an entry takes
bytes. What it cannot deal with is a string that is announced longer than strings can be, since room for it is made before it is
read. And hints that are read say what the input says: under each label they have the last value that is there.
-/

namespace TokenGate

open Cbor

namespace Hints

variable {draft next final : Draft} {field f : Field} {v : Value} {bs rest : Bytes} {entries : List (Value × Value)}
  {hints : Hints}

/-! ## Values under labels -/

/-- The value under a label. -/
def value? (hints : Hints) : Field → Option Value
  | .asUri => some (.text hints.asUri)
  | .audience => some (.text hints.audience)
  | .scope => hints.scope.map .text
  | .cnonce => hints.cnonce.map .bytes

/-- The entries of hints, in the order in which they are written. -/
def pairs (hints : Hints) : List (Value × Value) :=
  Field.all.filterMap fun f => (hints.value? f).map (.uint f.label, ·)

namespace Field

/-- A value is of the type of a label. -/
def Admits (v : Value) : Field → Prop
  | .asUri | .audience | .scope => ∃ s, v = .text s
  | .cnonce => ∃ bs, v = .bytes bs

theorem mem_all (f : Field) : f ∈ all := by
  cases f <;> decide

theorem ofLabel?_label (f : Field) : ofLabel? f.label = some f := by
  cases f <;> rfl

theorem label_of_ofLabel? {n : UInt64} (h : ofLabel? n = some f) : f.label = n := by
  simpa using List.find?_some h

theorem label_inj {g : Field} (h : f.label = g.label) : f = g := by
  rw [← Option.some.injEq, ← ofLabel?_label, h, ofLabel?_label]

/-- Takes a value of the type of a label off the front of some bytes. -/
def take (field : Field) (bs : Bytes) : Except HintsError (Value × Bytes) :=
  match field with
  | .asUri | .audience | .scope => (takeText bs).map fun (s, rest) => (.text s, rest)
  | .cnonce => (takeBytes bs).map fun (string, rest) => (.bytes string, rest)

end Field

namespace Draft

/-- The value under a label, as far as it has been read. -/
def value? (draft : Draft) : Field → Option Value
  | .asUri => draft.asUri.map .text
  | .audience => draft.audience.map .text
  | .scope => draft.scope.map .text
  | .cnonce => draft.cnonce.map .bytes

/-- A draft with a value under a label, if it is of the type of the label. -/
def put (draft : Draft) : Field → Value → Draft
  | .asUri, .text s => { draft with asUri := some s }
  | .audience, .text s => { draft with audience := some s }
  | .scope, .text s => { draft with scope := some s }
  | .cnonce, .bytes bs => { draft with cnonce := some bs }
  | _, _ => draft

/-- A value that is put into a draft is under its label, and the others stay where they are. -/
theorem value?_put (typed : field.Admits v) : (draft.put field v).value? f = if f = field then some v else draft.value? f := by
  cases field <;> obtain ⟨_, rfl⟩ := typed <;> cases f <;> rfl

/-- Reading the value under a label is taking it, and putting it into the draft. -/
theorem enter_eq : draft.enter field bs = (field.take bs).map fun (v, rest) => (draft.put field v, rest) := by
  cases field with
  | cnonce =>
    rw [enter, Field.take]
    cases takeBytes bs <;> rfl
  | _ =>
    rw [enter, Field.take]
    cases takeText bs <;> rfl

/-- A draft is finished without reading anything. -/
theorem finish_ne_oversizedString (draft : Draft) : draft.finish ≠ .error .oversizedString := by
  unfold finish
  split <;> nofun

/-- A draft is made into the hints that have the same values, with none that are needed missing. -/
theorem finish_eq_ok_iff : draft.finish = .ok hints ↔ ∀ f, draft.value? f = hints.value? f := by
  constructor
  · intro done f
    unfold finish at done
    split at done
    · rename_i uri aud asUri audience
      cases done
      cases f <;> simp [value?, Hints.value?, asUri, audience]
    · nomatch done
  · intro same
    have texts : ∀ {x y : Option String}, x.map Value.text = y.map Value.text → x = y :=
      Option.map_injective (fun _ _ => Value.text.inj) |>.eq_iff.mp
    have strings : ∀ {x y : Option Bytes}, x.map Value.bytes = y.map Value.bytes → x = y :=
      Option.map_injective (fun _ _ => Value.bytes.inj) |>.eq_iff.mp
    have asUri : draft.asUri = some hints.asUri := texts (same .asUri)
    have audience : draft.audience = some hints.audience := texts (same .audience)
    have scope : draft.scope = hints.scope := texts (same .scope)
    have cnonce : draft.cnonce = hints.cnonce := strings (same .cnonce)
    rw [finish, asUri, audience, scope, cnonce]

end Draft

/-! ## Turns of the loop -/

/-- What the loop does at some place: it goes on behind an entry, or it ends. -/
inductive Turn where
  | next (draft : Draft) (rest : Bytes)
  | done (outcome : Except HintsError Draft)

/-- One turn of the loop. -/
def Draft.turn (draft : Draft) (bs : Bytes) : Turn :=
  match Head.read bs with
  | .error .endOfInput | .ok (.stop, _) => .done (.ok draft)
  | .ok (.uint label, rest) =>
    match Field.ofLabel? label with
    | some field =>
      match draft.enter field rest with
      | .ok (draft, rest) => .next draft rest
      | .error e => .done (.error e)
    | none => .done (.error .unexpectedElement)
  | _ => .done (.error .unexpectedElement)

/-- The loop goes on from where a turn leaves off. -/
theorem readEntries_succ (fuel : Nat) : readEntries draft (fuel + 1) bs =
    match draft.turn bs with
    | .next draft rest => readEntries draft fuel rest
    | .done outcome => outcome := by
  rw [readEntries, Draft.turn]
  rcases Head.read bs with (_ | _) | ⟨head, rest⟩
  · rfl
  · rfl
  · cases head with
    | uint label =>
      simp only
      cases Field.ofLabel? label with
      | none => rfl
      | some field =>
        simp only
        cases draft.enter field rest <;> rfl
    | _ => rfl

/-- The loop comes to an end after some turns in which it went on. -/
inductive Ends : (turns : Nat) → Draft → Bytes → Except HintsError Draft → Prop
  | done {draft : Draft} {bs : Bytes} {outcome : Except HintsError Draft} (turn : draft.turn bs = .done outcome) :
    Ends 0 draft bs outcome
  | next {draft next : Draft} {bs rest : Bytes} {turns : Nat} {outcome : Except HintsError Draft}
    (turn : draft.turn bs = .next next rest) (later : Ends turns next rest outcome) : Ends (turns + 1) draft bs outcome

/-! ## What a turn takes -/

section

variable {length : UInt64} {back : Bytes}

/-- The loop ends at a place, at a stop or where the input does. -/
def IsEnd (bs : Bytes) : Prop := Head.read bs = .error .endOfInput ∨ ∃ rest, Head.read bs = .ok (.stop, rest)

/-- The head of a string under a label. -/
def Field.head (length : UInt64) : Field → Head
  | .asUri | .audience | .scope => .text (some length)
  | .cnonce => .bytes (some length)

/-- At the front of some bytes are a label of hints and the head of a string for it, of a length. -/
def Announces (bs : Bytes) (field : Field) (length : UInt64) : Prop :=
  ∃ back rest, Head.read bs = .ok (.uint field.label, back) ∧ Head.read back = .ok (field.head length, rest)

/-- A string of possible length is taken if it is there. -/
theorem takeString_of_possible (possible : length.toNat < lengthLimit) :
    takeString length bs = (bs.splitAt? length.toNat).elim (.error .unfinishedString) .ok := by
  rw [takeString, if_neg (Nat.not_le.mpr possible)]
  cases bs.splitAt? length.toNat <;> rfl

/-- A string of impossible length is not even looked for. -/
theorem takeString_of_impossible (beyond : lengthLimit ≤ length.toNat) : takeString length bs = .error .oversizedString :=
  if_pos beyond

namespace Field

/-- The value that a string is under a label. -/
def spell (content : Bytes) : Field → Except HintsError Value
  | .asUri | .audience | .scope => (Text.ofUtf8? content).elim (.error .invalidText) (.ok <| .text ·)
  | .cnonce => .ok (.bytes content)

/-- What a string is spelled out as is of the type of the label. -/
theorem admits_of_spell {content : Bytes} (h : (field.spell content).toOption = some v) : field.Admits v := by
  cases field with
  | cnonce => exact ⟨content, (Option.some.inj h).symm⟩
  | _ =>
    rw [spell] at h
    cases spelled : Text.ofUtf8? content with
    | none =>
      rw [spelled] at h
      nomatch h
    | some s =>
      rw [spelled] at h
      exact ⟨s, (Option.some.inj h).symm⟩

/-- Behind its head a string is taken whole, and then spelled out. -/
theorem take_of_head (head : Head.read bs = .ok (field.head length, back)) :
    field.take bs = (takeString length back).bind fun (content, rest) => (field.spell content).map (·, rest) := by
  cases field with
  | cnonce =>
    rw [Field.head] at head
    simp only [take, takeBytes, head]
    cases takeString length back <;> rfl
  | _ =>
    rw [Field.head] at head
    simp only [take, takeText, head]
    rcases takeString length back with _ | ⟨content, rest⟩
    · rfl
    · simp only [bind, Except.bind, spell]
      cases Text.ofUtf8? content <;> rfl

/-- Where there is no head of a string for a label, nothing is taken. -/
theorem take_of_other (other : ∀ length back, Head.read bs ≠ .ok (field.head length, back)) :
    field.take bs = .error .noString := by
  cases field with
  | cnonce =>
    simp only [take, takeBytes]
    split
    · rename_i length back head
      exact absurd head (other length back)
    · rfl
  | _ =>
    simp only [take, takeText]
    split
    · rename_i length back head
      exact absurd head (other length back)
    · rfl

/-- Behind its head a string is read as far as it is there, and spelled out. -/
theorem read?_of_head (head : Head.read bs = .ok (field.head length, back)) : read? bs =
    (back.splitAt? length.toNat).bind fun (content, rest) => (field.spell content).toOption.map (·, rest) := by
  cases field with
  | cnonce =>
    rw [Field.head] at head
    simp only [read?, readValue, head, readBytes]
    cases back.splitAt? length.toNat <;> rfl
  | _ =>
    rw [Field.head] at head
    simp only [read?, readValue, head, readText]
    rcases back.splitAt? length.toNat with _ | ⟨content, rest⟩
    · rfl
    · simp only [bind, Option.bind, spell]
      cases Text.ofUtf8? content <;> rfl

/-- Behind a head with a possible length, what is taken is what is read, and the reader is not stopped. -/
theorem take_of_possible (head : Head.read bs = .ok (field.head length, back)) (possible : length.toNat < lengthLimit) :
    (∀ v rest, field.take bs = .ok (v, rest) ↔ read? bs = some (v, rest)) ∧ field.take bs ≠ .error .oversizedString := by
  rw [take_of_head head, read?_of_head head, takeString_of_possible possible]
  rcases back.splitAt? length.toNat with _ | ⟨content, rest⟩
  · simp [Except.bind]
  · cases field with
    | cnonce => simp [Except.bind, Except.map, Except.toOption, spell]
    | _ => cases spelled : Text.ofUtf8? content <;> simp [Except.bind, Except.map, Except.toOption, spell, spelled]

/-- Behind a head with an impossible length the reader is stopped. -/
theorem take_of_impossible (head : Head.read bs = .ok (field.head length, back)) (beyond : lengthLimit ≤ length.toNat) :
    field.take bs = .error .oversizedString := by
  rw [take_of_head head, takeString_of_impossible beyond]
  rfl

/-- At the front of some bytes is the head of a string for a label, of possible length or not, or nothing is taken. -/
theorem take_cases (field : Field) (bs : Bytes) :
    (∃ length back, Head.read bs = .ok (field.head length, back) ∧ length.toNat < lengthLimit) ∨
    (∃ length back, Head.read bs = .ok (field.head length, back) ∧ lengthLimit ≤ length.toNat) ∨
    field.take bs = .error .noString := by
  by_cases announced : ∃ length back, Head.read bs = .ok (field.head length, back)
  · obtain ⟨length, back, head⟩ := announced
    rcases Nat.lt_or_ge length.toNat lengthLimit with possible | beyond
    · exact .inl ⟨length, back, head, possible⟩
    · exact .inr (.inl ⟨length, back, head, beyond⟩)
  · exact .inr (.inr (take_of_other fun length back head => announced ⟨length, back, head⟩))

/-- What is taken for a label is a string of possible length, and it is the value that is read there. -/
theorem take_eq_ok_iff : field.take bs = .ok (v, rest) ↔
    ∃ length back, Head.read bs = .ok (field.head length, back) ∧ length.toNat < lengthLimit ∧ read? bs = some (v, rest) := by
  constructor
  · intro taken
    rcases field.take_cases bs with ⟨length, back, head, possible⟩ | ⟨length, back, head, beyond⟩ | other
    · exact ⟨length, back, head, possible, ((take_of_possible head possible).1 v rest).mp taken⟩
    · nomatch (take_of_impossible head beyond).symm.trans taken
    · nomatch other.symm.trans taken
  · rintro ⟨length, back, head, possible, read⟩
    exact ((take_of_possible head possible).1 v rest).mpr read

/-- A string of impossible length stops the reader, and nothing else does. -/
theorem take_eq_oversizedString_iff : field.take bs = .error .oversizedString ↔
    ∃ length back, Head.read bs = .ok (field.head length, back) ∧ lengthLimit ≤ length.toNat := by
  constructor
  · intro stopped
    rcases field.take_cases bs with ⟨length, back, head, possible⟩ | announced | other
    · exact absurd stopped (take_of_possible head possible).2
    · exact announced
    · nomatch other.symm.trans stopped
  · rintro ⟨length, back, head, beyond⟩
    exact take_of_impossible head beyond

end Field

namespace Draft

/-- At an end the loop is done, and leaves the draft as it is. -/
theorem turn_of_isEnd (atEnd : IsEnd bs) : draft.turn bs = .done (.ok draft) := by
  rcases atEnd with atEnd | ⟨rest, atEnd⟩ <;> rw [turn, atEnd]

/-- At a label the loop goes on behind its value, which is put into the draft, if it can be taken. -/
theorem turn_of_label (head : Head.read bs = .ok (.uint field.label, back)) :
    draft.turn bs = match field.take back with
      | .ok (v, rest) => .next (draft.put field v) rest
      | .error e => .done (.error e) := by
  rw [turn, head]
  simp only
  rw [Field.ofLabel?_label]
  simp only
  rw [enter_eq]
  cases field.take back <;> rfl

/-- A turn is at an end, at a label, or at something else, which ends the loop with an error. -/
theorem turn_cases (draft : Draft) (bs : Bytes) : IsEnd bs ∨ (∃ field back, Head.read bs = .ok (.uint (Field.label field), back)) ∨
    draft.turn bs = .done (.error .unexpectedElement) := by
  unfold turn
  split
  · rename_i head
    exact .inl (.inl head)
  · rename_i rest head
    exact .inl (.inr ⟨rest, head⟩)
  · rename_i label back head
    split
    · rename_i field known
      rw [← Field.label_of_ofLabel? known] at head
      exact .inr (.inl ⟨field, back, head⟩)
    · exact .inr (.inr rfl)
  · exact .inr (.inr rfl)

/-- The loop is done without an error at an end, and leaves the draft as it is. -/
theorem turn_eq_done_ok_iff : draft.turn bs = .done (.ok final) ↔ IsEnd bs ∧ final = draft := by
  constructor
  · intro turn
    rcases draft.turn_cases bs with atEnd | ⟨field, back, head⟩ | other
    · rw [turn_of_isEnd atEnd] at turn
      cases turn
      exact ⟨atEnd, rfl⟩
    · rw [turn_of_label head] at turn
      split at turn <;> nomatch turn
    · nomatch other.symm.trans turn
  · rintro ⟨atEnd, rfl⟩
    exact turn_of_isEnd atEnd

/-- The loop is stopped by a label with a string of impossible length, and by nothing else. -/
theorem turn_eq_done_oversizedString_iff : draft.turn bs = .done (.error .oversizedString) ↔
    ∃ field length, Announces bs field length ∧ lengthLimit ≤ length.toNat := by
  constructor
  · intro turn
    rcases draft.turn_cases bs with atEnd | ⟨field, back, head⟩ | other
    · nomatch (turn_of_isEnd atEnd).symm.trans turn
    · rw [turn_of_label head] at turn
      split at turn
      · nomatch turn
      · rename_i e taken
        cases turn
        obtain ⟨length, behind, string, beyond⟩ := Field.take_eq_oversizedString_iff.mp taken
        exact ⟨field, length, ⟨back, behind, head, string⟩, beyond⟩
    · nomatch other.symm.trans turn
  · rintro ⟨field, length, ⟨back, behind, head, string⟩, beyond⟩
    rw [turn_of_label head, Field.take_eq_oversizedString_iff.mpr ⟨length, behind, string, beyond⟩]

end Draft

/-- Behind a label an entry is read if there is a value. -/
theorem readEntry_of_label (head : Head.read bs = .ok (.uint field.label, back)) :
    readEntry read? bs = (read? back).map fun (v, rest) => ((.uint field.label, v), rest) := by
  have key : read? bs = some (.uint field.label, back) := by rw [read?, readValue, head]
  rw [readEntry, key]
  simp only [Option.bind_eq_bind, Option.bind_some]
  cases read? back <;> rfl

/-- An entry is at the front of some bytes, with a label of hints and a string of its type, of possible length. -/
def Enters (bs : Bytes) (field : Field) (v : Value) (rest : Bytes) : Prop :=
  (∃ length, Announces bs field length ∧ length.toNat < lengthLimit) ∧ readEntry read? bs = some ((.uint field.label, v), rest)

/-- The loop goes on behind such entries and no others, and puts their values into the draft. -/
theorem Draft.turn_eq_next_iff : draft.turn bs = .next next rest ↔ ∃ field v, Enters bs field v rest ∧ next = draft.put field v := by
  constructor
  · intro turn
    rcases draft.turn_cases bs with atEnd | ⟨field, back, head⟩ | other
    · nomatch (turn_of_isEnd atEnd).symm.trans turn
    · rw [turn_of_label head] at turn
      split at turn
      · rename_i v behind taken
        cases turn
        obtain ⟨length, behind, string, possible, read⟩ := Field.take_eq_ok_iff.mp taken
        exact ⟨field, v, ⟨⟨length, ⟨back, behind, head, string⟩, possible⟩, by rw [readEntry_of_label head, read]; rfl⟩, rfl⟩
      · nomatch turn
    · nomatch other.symm.trans turn
  · rintro ⟨field, v, ⟨⟨length, ⟨back, behind, head, string⟩, possible⟩, entry⟩, rfl⟩
    rw [readEntry_of_label head] at entry
    obtain ⟨_, read, same⟩ := Option.map_eq_some_iff.mp entry
    cases same
    rw [turn_of_label head, Field.take_eq_ok_iff.mpr ⟨length, behind, string, possible, read⟩]

/-- The value of an entry is of the type of its label. -/
theorem Enters.admits (h : Enters bs field v rest) : field.Admits v := by
  obtain ⟨⟨length, ⟨back, behind, head, string⟩, _⟩, entry⟩ := h
  rw [readEntry_of_label head] at entry
  obtain ⟨_, read, same⟩ := Option.map_eq_some_iff.mp entry
  cases same
  rw [Field.read?_of_head string] at read
  obtain ⟨⟨content, _⟩, _, read⟩ := Option.bind_eq_some_iff.mp read
  obtain ⟨_, spelled, same⟩ := Option.map_eq_some_iff.mp read
  cases same
  exact Field.admits_of_spell spelled

/-- An entry takes at least two bytes. -/
theorem Enters.length_le (h : Enters bs field v rest) : rest.length + 2 ≤ bs.length := by
  have taken := weight_of_readEntry weight_of_readValue h.2
  have key := (Value.uint field.label).one_le_weight
  have value := v.one_le_weight
  simp only at taken
  omega

end

/-! ## The loop -/

/-- The loop always comes to an end, after at most half as many turns as there are bytes. -/
theorem exists_ends (draft : Draft) (bs : Bytes) : ∃ turns outcome, Ends turns draft bs outcome ∧ 2 * turns ≤ bs.length := by
  induction n : bs.length using Nat.strongRecOn generalizing draft bs with
  | ind n ih =>
    subst n
    cases turn : draft.turn bs with
    | done outcome => exact ⟨0, outcome, .done turn, Nat.zero_le _⟩
    | next next rest =>
      obtain ⟨field, v, entry, _⟩ := Draft.turn_eq_next_iff.mp turn
      have less := entry.length_le
      obtain ⟨turns, outcome, later, bound⟩ := ih rest.length (by omega) next rest rfl
      exact ⟨turns + 1, outcome, .next turn later, by omega⟩

/-- With fuel for every byte the loop gives what it comes to without fuel. -/
theorem Ends.readEntries_eq {turns : Nat} {outcome : Except HintsError Draft} (h : Ends turns draft bs outcome) {fuel : Nat}
    (enough : bs.length ≤ fuel) : readEntries draft fuel bs = outcome := by
  induction h generalizing fuel with
  | @done draft bs outcome turn =>
    cases fuel with
    | zero =>
      have empty : bs = [] := List.eq_nil_of_length_eq_zero (Nat.le_zero.mp enough)
      subst empty
      exact Turn.done.inj turn
    | succ fuel => rw [readEntries_succ, turn]
  | @next draft next bs rest turns outcome turn later ih =>
    obtain ⟨field, v, entry, _⟩ := Draft.turn_eq_next_iff.mp turn
    have less := entry.length_le
    cases fuel with
    | zero => omega
    | succ fuel =>
      rw [readEntries_succ, turn]
      exact ih (by omega)

/-- Entries stand one after the other between two places of some bytes. -/
inductive Lists : Bytes → List (Value × Value) → Bytes → Prop
  | nil (bs : Bytes) : Lists bs [] bs
  | cons {bs rest back : Bytes} {field : Field} {v : Value} {entries : List (Value × Value)} (entry : Enters bs field v rest)
    (others : Lists rest entries back) : Lists bs ((.uint field.label, v) :: entries) back

/-- Entries that stand there are under labels of hints, with values of their types. -/
theorem Lists.typed {back : Bytes} (h : Lists bs entries back) : ∀ e ∈ entries, ∃ f : Field, e.1 = .uint f.label ∧ f.Admits e.2 := by
  induction h with
  | nil => nofun
  | cons entry others ih => exact List.forall_mem_cons.mpr ⟨⟨_, rfl, entry.admits⟩, ih⟩

/-- The last value under a label among some entries. -/
def last? (entries : List (Value × Value)) (f : Field) : Option Value := entries.reverse.lookup (.uint f.label)

/-- The last value under a label is one of the values. -/
theorem mem_of_last? (h : last? entries f = some v) : ((.uint f.label, v) : Value × Value) ∈ entries := by
  obtain ⟨before, after, split, _⟩ := List.lookup_eq_some_iff.mp h
  rw [← List.mem_reverse, split]
  exact List.mem_append_right _ List.mem_cons_self

/-- A value that is put into a draft stays there until another one comes under its label. -/
theorem last?_cons_or (typed : field.Admits v) :
    (last? ((.uint field.label, v) :: entries) f).or (draft.value? f) = (last? entries f).or ((draft.put field v).value? f) := by
  rw [last?, List.reverse_cons, List.lookup_append, Option.or_assoc, Draft.value?_put typed, List.lookup_singleton]
  congr 1
  by_cases same : f = field
  · simp [same]
  · have other : f.label ≠ field.label := fun labels => same (Field.label_inj labels)
    simp [same, other]

/-- A draft has the last values that come among some entries, and where none comes the values of another draft. -/
def Draft.Gathers (last : Draft) (entries : List (Value × Value)) (draft : Draft) : Prop :=
  ∀ f, last.value? f = (last? entries f).or (draft.value? f)

/-- The loop goes over all entries that there are up to some place, and comes to what it comes to from there. -/
theorem Lists.ends {back : Bytes} (h : Lists bs entries back) (draft : Draft) : ∃ last : Draft, last.Gathers entries draft ∧
    ∀ {turns outcome}, Ends turns last back outcome → Ends (turns + entries.length) draft bs outcome := by
  induction h generalizing draft with
  | nil bs => exact ⟨draft, fun f => rfl, id⟩
  | @cons bs rest back field v entries entry others ih =>
    obtain ⟨last, gathers, later⟩ := ih (draft.put field v)
    refine ⟨last, fun f => ?_, fun ends => .next (Draft.turn_eq_next_iff.mpr ⟨field, v, entry, rfl⟩) (later ends)⟩
    rw [gathers, last?_cons_or entry.admits]

/-- When the loop has come to an end, it has gone over entries up to some place, and was done there. -/
theorem Ends.lists {turns : Nat} {outcome : Except HintsError Draft} (h : Ends turns draft bs outcome) :
    ∃ entries back last, Lists bs entries back ∧ Draft.Gathers last entries draft ∧ last.turn back = .done outcome := by
  induction h with
  | @done draft bs outcome turn => exact ⟨[], bs, draft, .nil bs, fun f => rfl, turn⟩
  | @next draft next bs rest turns outcome turn later ih =>
    obtain ⟨field, v, entry, rfl⟩ := Draft.turn_eq_next_iff.mp turn
    obtain ⟨entries, back, last, lists, gathers, done⟩ := ih
    refine ⟨_ :: entries, back, last, .cons entry lists, fun f => ?_, done⟩
    rw [gathers, last?_cons_or entry.admits]

/-! ## Writing -/

/-- No text and no byte string is longer than strings can be. -/
structure Fit (hints : Hints) : Prop where
  asUri : (Text.utf8 hints.asUri).length < lengthLimit
  audience : (Text.utf8 hints.audience).length < lengthLimit
  scope : ∀ s, hints.scope = some s → (Text.utf8 s).length < lengthLimit
  cnonce : ∀ bs, hints.cnonce = some bs → bs.length < lengthLimit

/-- A value is of the type of a label, and no longer than strings can be. -/
def Field.Writes (v : Value) : Field → Prop
  | .asUri | .audience | .scope => ∃ s, v = .text s ∧ (Text.utf8 s).length < lengthLimit
  | .cnonce => ∃ bs, v = .bytes bs ∧ bs.length < lengthLimit

/-- Every value of hints that fit can be written. -/
theorem Fit.writes (fit : hints.Fit) (h : hints.value? f = some v) : f.Writes v := by
  cases f with
  | asUri => exact ⟨_, (Option.some.inj h).symm, fit.asUri⟩
  | audience => exact ⟨_, (Option.some.inj h).symm, fit.audience⟩
  | scope =>
    obtain ⟨s, some, rfl⟩ := Option.map_eq_some_iff.mp h
    exact ⟨s, rfl, fit.scope s some⟩
  | cnonce =>
    obtain ⟨bs, some, rfl⟩ := Option.map_eq_some_iff.mp h
    exact ⟨bs, rfl, fit.cnonce bs some⟩

/-- A string that is written has its head in front, and is read back. -/
theorem Field.Writes.read_encode (h : field.Writes v) (rest : Bytes) : (∃ length back,
    Head.read (v.encode ++ rest) = .ok (field.head length, back) ∧ length.toNat < lengthLimit) ∧
      read? (v.encode ++ rest) = some (v, rest) := by
  have small : ∀ {n : Nat}, n < lengthLimit → n < 2 ^ 64 := fun less => Nat.lt_trans less (by decide)
  have length : ∀ {n : Nat}, n < lengthLimit → (UInt64.ofNat n).toNat < lengthLimit := by
    intro n less
    rwa [toNat_ofNat_of_lt (small less)]
  cases field with
  | cnonce =>
    obtain ⟨string, rfl, possible⟩ := h
    refine ⟨⟨.ofNat string.length, string ++ rest, ?_, length possible⟩, ?_⟩
    · rw [Value.encode, List.append_assoc, Head.read_write_bytes, head]
    · exact (Value.IsFaithful.bytes maxDepth (small possible)).readValue_encode rest
  | _ =>
    obtain ⟨s, rfl, possible⟩ := h
    refine ⟨⟨.ofNat (Text.utf8 s).length, Text.utf8 s ++ rest, ?_, length possible⟩, ?_⟩
    · rw [Value.encode, List.append_assoc, Head.read_write_text, head]
    · exact (Value.IsFaithful.text maxDepth (small possible)).readValue_encode rest

/-- An entry that is written is there. -/
theorem Field.Writes.enters (h : field.Writes v) (rest : Bytes) :
    Enters ((Value.uint field.label).encode ++ v.encode ++ rest) field v rest := by
  obtain ⟨⟨length, back, string, possible⟩, read⟩ := h.read_encode rest
  have head : Head.read ((Value.uint field.label).encode ++ v.encode ++ rest) = .ok (.uint field.label, v.encode ++ rest) := by
    rw [Value.encode, List.append_assoc, Head.read_write_uint]
  refine ⟨⟨length, ⟨_, back, head, string⟩, possible⟩, ?_⟩
  rw [readEntry_of_label head, read]
  rfl

/-- Entries that are written are there, in whatever order. -/
theorem lists_encode (written : ∀ e ∈ entries, ∃ f : Field, e.1 = .uint f.label ∧ f.Writes e.2) (rest : Bytes) :
    Lists (Value.encodeEntries entries ++ rest) entries rest := by
  induction entries with
  | nil => exact .nil rest
  | cons e entries ih =>
    obtain ⟨key, v⟩ := e
    obtain ⟨⟨field, rfl, writes⟩, others⟩ := List.forall_mem_cons.mp written
    rw [Value.encodeEntries, List.append_assoc]
    exact .cons (writes.enters _) (ih others)

/-! ## Hints -/

/-- Hints are written as the map of their entries. -/
theorem toValue_eq (hints : Hints) : hints.toValue = .map hints.pairs := by
  obtain ⟨asUri, audience, scope, cnonce⟩ := hints
  cases scope <;> cases cnonce <;> rfl

/-- The entries of hints are their values, each under its label. -/
theorem mem_pairs_iff {e : Value × Value} : e ∈ hints.pairs ↔ ∃ f : Field, e.1 = .uint f.label ∧ hints.value? f = some e.2 := by
  rw [pairs, List.mem_filterMap]
  constructor
  · rintro ⟨f, _, written⟩
    obtain ⟨v, given, rfl⟩ := Option.map_eq_some_iff.mp written
    exact ⟨f, rfl, given⟩
  · rintro ⟨f, key, given⟩
    refine ⟨f, f.mem_all, Option.map_eq_some_iff.mpr ⟨e.2, given, ?_⟩⟩
    rw [← key]

/-- In whatever order the entries of hints are, under each label the last one is the only one. -/
theorem last?_of_perm (perm : entries.Perm hints.pairs) (f : Field) : last? entries f = hints.value? f := by
  cases last : last? entries f with
  | none =>
    cases given : hints.value? f with
    | none => rfl
    | some v =>
      have among : ((.uint f.label, v) : Value × Value) ∈ entries := perm.mem_iff.mpr (mem_pairs_iff.mpr ⟨f, rfl, given⟩)
      simpa using List.lookup_eq_none_iff.mp last _ (List.mem_reverse.mpr among)
  | some v =>
    obtain ⟨g, key, given⟩ := mem_pairs_iff.mp (perm.mem_iff.mp (mem_of_last? last))
    rw [Field.label_inj (Value.uint.inj key), given]

/-- Hints are read from what the loop over the entries of a map comes to. -/
theorem decode_of_ends {length : Option UInt64} {turns : Nat} {outcome : Except HintsError Draft}
    (head : Head.read bs = .ok (.map length, rest)) (ends : Ends turns {} rest outcome) :
    decode bs = outcome.bind Draft.finish := by
  rw [decode, head]
  simp only
  rw [ends.readEntries_eq (Nat.le_of_lt (length_of_head head))]
  rfl

/-- Hints are read from a map whose entries, up to an end, have the values of the hints as the last ones. -/
theorem decode_of_lists {length : Option UInt64} {back : Bytes} (head : Head.read bs = .ok (.map length, back))
    (lists : Lists back entries rest) (atEnd : IsEnd rest) (values : ∀ f, last? entries f = hints.value? f) :
    decode bs = .ok hints := by
  obtain ⟨final, gathers, later⟩ := lists.ends {}
  have done : Ends 0 final rest (.ok final) := .done (Draft.turn_of_isEnd atEnd)
  have whole : final.finish = .ok hints := by
    refine Draft.finish_eq_ok_iff.mpr fun f => ?_
    rw [gathers, values]
    cases f <;> exact Option.or_none
  rw [decode_of_ends head (later done)]
  exact whole

/-- The entries of hints are read back from any map of them, in any order, up to an end. -/
theorem decode_of_perm (fit : hints.Fit) (perm : entries.Perm hints.pairs) {length : Option UInt64}
    (head : Head.read bs = .ok (.map length, Value.encodeEntries entries ++ rest)) (atEnd : IsEnd rest) :
    decode bs = .ok hints := by
  have written : ∀ e ∈ entries, ∃ f : Field, e.1 = .uint f.label ∧ f.Writes e.2 := by
    intro e among
    obtain ⟨f, key, given⟩ := mem_pairs_iff.mp (perm.mem_iff.mp among)
    exact ⟨f, key, fit.writes given⟩
  exact decode_of_lists head (lists_encode written rest) atEnd (last?_of_perm perm)

/-- There is an answer for every input: either it begins with no map, or the loop comes to an end behind the map's head. -/
theorem exists_answer (bs : Bytes) :
    ((∀ length rest, Head.read bs ≠ .ok (.map length, rest)) ∧ decode bs = .error .noMap) ∨
    ∃ length rest turns outcome, Head.read bs = .ok (.map length, rest) ∧ Ends turns {} rest outcome ∧ 2 * turns < bs.length ∧
      decode bs = outcome.bind Draft.finish := by
  by_cases map : ∃ length rest, Head.read bs = .ok (.map length, rest)
  · obtain ⟨length, rest, head⟩ := map
    obtain ⟨turns, outcome, ends, bound⟩ := exists_ends {} rest
    have less := length_of_head head
    exact .inr ⟨length, rest, turns, outcome, head, ends, by omega, decode_of_ends head ends⟩
  · have other : ∀ length rest, Head.read bs ≠ .ok (.map length, rest) := fun length rest head => map ⟨length, rest, head⟩
    refine .inl ⟨other, ?_⟩
    unfold decode
    split
    · rename_i length rest head
      exact absurd head (other length rest)
    · rfl

/-- What is read from an input behind the head of a map: entries up to some place, and what the loop is done with there. -/
theorem exists_lists (head : Head.read bs = .ok (.map length, back)) : ∃ entries rest draft outcome,
    Lists back entries rest ∧ Draft.Gathers draft entries {} ∧ draft.turn rest = .done outcome ∧
      decode bs = outcome.bind Draft.finish := by
  obtain ⟨turns, outcome, ends, _⟩ := exists_ends {} back
  obtain ⟨entries, rest, draft, lists, gathers, done⟩ := ends.lists
  exact ⟨entries, rest, draft, outcome, lists, gathers, done, decode_of_ends head ends⟩

/-- Hints are read from a map whose entries, up to an end, have the values of the hints as the last ones, and from nothing else. -/
theorem decode_eq_ok_iff : decode bs = .ok hints ↔ ∃ length back entries rest, Head.read bs = .ok (.map length, back) ∧
    Lists back entries rest ∧ IsEnd rest ∧ ∀ f, last? entries f = hints.value? f := by
  constructor
  · intro read
    rcases exists_answer bs with ⟨_, answer⟩ | ⟨length, back, _, _, head, _⟩
    · nomatch answer.symm.trans read
    · obtain ⟨entries, rest, draft, outcome, lists, gathers, done, answer⟩ := exists_lists head
      rw [answer] at read
      cases outcome with
      | error e => nomatch read
      | ok final =>
        obtain ⟨atEnd, rfl⟩ := Draft.turn_eq_done_ok_iff.mp done
        refine ⟨length, back, entries, rest, head, lists, atEnd, fun f => ?_⟩
        rw [← Draft.finish_eq_ok_iff.mp read f, gathers]
        cases f <;> exact Option.or_none.symm
  · rintro ⟨length, back, entries, rest, head, lists, atEnd, values⟩
    exact decode_of_lists head lists atEnd values

/-- A label with a string of impossible length, behind the head of a map and entries, stops the reader, and nothing else does. -/
theorem decode_eq_oversizedString_iff : decode bs = .error .oversizedString ↔
    ∃ length back entries rest field announced, Head.read bs = .ok (.map length, back) ∧ Lists back entries rest ∧
      Announces rest field announced ∧ lengthLimit ≤ announced.toNat := by
  constructor
  · intro stopped
    rcases exists_answer bs with ⟨_, answer⟩ | ⟨length, back, _, _, head, _⟩
    · nomatch answer.symm.trans stopped
    · obtain ⟨entries, rest, draft, outcome, lists, _, done, answer⟩ := exists_lists head
      rw [answer] at stopped
      cases outcome with
      | error e =>
        cases stopped
        obtain ⟨field, announced, string, beyond⟩ := Draft.turn_eq_done_oversizedString_iff.mp done
        exact ⟨length, back, entries, rest, field, announced, head, lists, string, beyond⟩
      | ok final => exact absurd stopped final.finish_ne_oversizedString
  · rintro ⟨length, back, entries, rest, field, announced, head, lists, string, beyond⟩
    obtain ⟨draft, _, later⟩ := lists.ends {}
    have done : Ends 0 draft rest (.error .oversizedString) :=
      .done (Draft.turn_eq_done_oversizedString_iff.mpr ⟨field, announced, string, beyond⟩)
    rw [decode_of_ends head (later done)]
    rfl

/-- Hints are read back from their bytes, and from any map with the same entries, in whichever order they are and whether the map
gives their number or ends with a stop. For every input the loop comes to an end, after fewer turns than there are bytes. The reader
is stopped without an answer exactly where, behind the head of a map and any number of entries of hints, there is a label with a
string of impossible length. And hints that are read have a place to get a token and an audience that the input has under the labels
1 and 5; of several the last ones. -/
theorem decode_exact (hints : Hints) (bs : Bytes) :
    (hints.Fit → decode hints.encode = .ok hints ∧ ∀ entries : List (Value × Value), entries.Perm hints.pairs →
      decode (Value.map entries).encode = .ok hints ∧
      ∀ rest, decode (0xBF :: (Value.encodeEntries entries ++ 0xFF :: rest)) = .ok hints) ∧
    (((∀ length rest, Head.read bs ≠ .ok (.map length, rest)) ∧ decode bs = .error .noMap) ∨
      ∃ length rest turns outcome, Head.read bs = .ok (.map length, rest) ∧ Ends turns {} rest outcome ∧ 2 * turns < bs.length ∧
        decode bs = outcome.bind Draft.finish) ∧
    (decode bs = .error .oversizedString ↔
      ∃ length back entries rest field announced, Head.read bs = .ok (.map length, back) ∧ Lists back entries rest ∧
        Announces rest field announced ∧ lengthLimit ≤ announced.toNat) ∧
    (decode bs = .ok hints → ∃ length back entries rest, Head.read bs = .ok (.map length, back) ∧
      Lists back entries rest ∧ IsEnd rest ∧ (.uint 1, .text hints.asUri) ∈ entries ∧ (.uint 5, .text hints.audience) ∈ entries ∧
      (∀ e ∈ entries, ∃ f : Field, e.1 = .uint f.label ∧ f.Admits e.2) ∧ ∀ f, last? entries f = hints.value? f) := by
  refine ⟨fun fit => ?_, exists_answer bs, decode_eq_oversizedString_iff, fun read => ?_⟩
  · have definite : ∀ entries : List (Value × Value), entries.Perm hints.pairs →
        decode (Value.map entries).encode = .ok hints := by
      intro entries perm
      have head : Head.read (Value.map entries).encode =
          .ok (.map (some (.ofNat entries.length)), Value.encodeEntries entries ++ []) := by
        rw [List.append_nil, Value.encode, Head.read_write_map]
      exact decode_of_perm fit perm head (.inl rfl)
    refine ⟨?_, fun entries perm => ⟨definite entries perm, fun rest => ?_⟩⟩
    · rw [encode, toValue_eq]
      exact definite hints.pairs (List.Perm.refl _)
    · have head : Head.read (0xBF :: (Value.encodeEntries entries ++ 0xFF :: rest)) =
          .ok (.map none, Value.encodeEntries entries ++ 0xFF :: rest) := rfl
      exact decode_of_perm fit perm head (.inr ⟨rest, rfl⟩)
  · obtain ⟨length, back, entries, rest, head, lists, atEnd, values⟩ := decode_eq_ok_iff.mp read
    exact ⟨length, back, entries, rest, head, lists, atEnd, mem_of_last? (values .asUri), mem_of_last? (values .audience),
      lists.typed, values⟩

namespace Sample

/-- Hints with all that there may be. -/
def full : Hints := ⟨"coaps://as", "rs1", some "r_temp", some [1, 2]⟩

/-- A map that is to have one entry and has three, two of them under the first label, and whose input ends there. -/
def repeated : Bytes := [0xA1, 0x01, 0x61, 0x61, 0x05, 0x63, 0x72, 0x73, 0x31, 0x18, 0x01, 0x61, 0x62]

/-- A map with a text under the first label whose head gives the greatest length that a head can give. -/
def oversized : Bytes := [0xA1, 0x01, 0x7B, 0xFF, 0xFF, 0xFF, 0xFF, 0xFF, 0xFF, 0xFF, 0xFF]

end Sample

/-- From a map without a number, in the other order and with more bytes behind it, the same hints are read; of two places the
second one counts. A text that is longer than all texts stops the reader. -/
theorem decode_exact_of_repeated :
    Sample.full.Fit ∧ Sample.full.pairs.reverse.Perm Sample.full.pairs ∧ decode Sample.full.encode = .ok Sample.full ∧
    decode (0xBF :: (Value.encodeEntries Sample.full.pairs.reverse ++ [0xFF, 0])) = .ok Sample.full ∧
    decode Sample.repeated = .ok ⟨"b", "rs1", none, none⟩ ∧
    (∃ length back entries rest, Head.read Sample.repeated = .ok (.map length, back) ∧ Lists back entries rest ∧ IsEnd rest ∧
      (.uint 1, .text "b") ∈ entries ∧ (.uint 5, .text "rs1") ∈ entries) ∧
    decode Sample.oversized = .error .oversizedString := by
  have fit : Sample.full.Fit := by
    refine ⟨by decide +kernel, by decide +kernel, ?_, ?_⟩
    · rintro s ⟨⟩
      decide +kernel
    · rintro bs ⟨⟩
      decide +kernel
  obtain ⟨back, _, stopped, _⟩ := decode_exact Sample.full Sample.oversized
  obtain ⟨_, _, _, present⟩ := decode_exact ⟨"b", "rs1", none, none⟩ Sample.repeated
  have perm := List.reverse_perm Sample.full.pairs
  have read : decode Sample.repeated = .ok ⟨"b", "rs1", none, none⟩ := by decide +kernel
  obtain ⟨length, behind, entries, rest, head, lists, atEnd, asUri, audience, _⟩ := present read
  have beyond : Announces Sample.oversized.tail .asUri 0xFFFFFFFFFFFFFFFF := ⟨_, _, rfl, rfl⟩
  refine ⟨fit, perm, (back fit).1, ((back fit).2 _ perm).2 [0], read,
    ⟨length, behind, entries, rest, head, lists, atEnd, asUri, audience⟩, stopped.mpr ?_⟩
  exact ⟨some 1, _, [], _, .asUri, _, rfl, .nil _, beyond, by decide +kernel⟩

end Hints

end TokenGate
