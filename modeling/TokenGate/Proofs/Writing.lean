import TokenGate.Host

/-!
# Writing again

A file that could be written can be written again: neither a write nor a move of a file changes which directories there are, and
nothing else decides whether the next write succeeds. What was written is then read. A file that could not be replaced is read as
before: all that may be new is the temporary file, which has another name in the same directory.
-/

namespace TokenGate

namespace Disk

/-- Two disks with the same directories. -/
def SameDirectories (disk disk' : Disk) : Prop :=
  ∀ place, disk.find? place = some .directory ↔ disk'.find? place = some .directory

theorem SameDirectories.symm {disk disk' : Disk} (h : disk.SameDirectories disk') : disk'.SameDirectories disk :=
  fun place => (h place).symm

theorem SameDirectories.trans {disk disk' disk'' : Disk} (h : disk.SameDirectories disk') (h' : disk'.SameDirectories disk'') :
    disk.SameDirectories disk'' :=
  fun place => (h place).trans (h' place)

/-! ## Changes that keep the directories -/

/-- A file that is written takes the place of no directory. -/
theorem sameDirectories_of_write? {disk written : Disk} {place : Place} {content : Bytes}
    (h : disk.write? place content = some written) : disk.SameDirectories written := by
  intro other
  rw [find?_of_write? h]
  by_cases same : other = place
  · rw [if_pos same, same]
    simp only [write?, Option.ite_none_right_eq_some, Bool.and_eq_true, decide_eq_true_eq] at h
    obtain ⟨⟨_, vacant⟩, _⟩ := h
    simp [vacant]
  · rw [if_neg same]

/-- A file that is gone was no directory. -/
theorem sameDirectories_erase {disk : Disk} {place : Place} {content : Bytes} (h : disk.find? place = some (.file content)) :
    disk.SameDirectories (disk.erase place) := by
  intro other
  unfold find? at h ⊢
  by_cases fixed : other.isFixed = true
  · simp [fixed]
  · by_cases same : place = other
    · subst same
      rw [if_neg fixed] at h
      simp [fixed, h, erase]
    · simp [fixed, erase, Std.ExtTreeMap.getElem?_erase, same]

/-- A file that is renamed takes the place of no directory. -/
theorem sameDirectories_of_rename? {disk renamed : Disk} {source target : Place}
    (h : disk.rename? source target = some renamed) : disk.SameDirectories renamed := by
  unfold rename? at h
  split at h
  · rename_i content found
    exact (sameDirectories_erase found).trans (sameDirectories_of_write? h)
  · nomatch h

/-! ## What the directories decide -/

/-- Names can be followed wherever there are the same directories. -/
theorem SameDirectories.follow {disk disk' : Disk} (h : disk.SameDirectories disk') {here target : Place} {names : List String}
    (followed : disk.follow here names = .ok target) : disk'.follow here names = .ok target := by
  induction names generalizing here with
  | nil => exact followed
  | cons name rest ih =>
    rw [Disk.follow] at followed
    split at followed
    · cases followed
    · cases followed
    · rename_i isDirectory
      rw [Disk.follow, (h here).mp isDirectory]
      cases step : here.step name with
      | error e => simp [step, bind, Except.bind] at followed
      | ok next =>
        simp only [step, bind, Except.bind] at followed
        exact ih followed

/-- An entry can be located wherever there are the same directories. -/
theorem SameDirectories.locateEntry {disk disk' : Disk} (h : disk.SameDirectories disk') {names : List String} {place : Place}
    (located : disk.locateEntry names = .ok place) : disk'.locateEntry names = .ok place := by
  unfold Disk.locateEntry at located ⊢
  cases found : disk.locate names with
  | error e => simp [found, bind, Except.bind] at located
  | ok target =>
    have there : disk'.locate names = .ok target := h.follow found
    rw [found] at located
    rw [there]
    exact located

/-- A file can be written wherever there are the same directories. -/
theorem SameDirectories.write? {disk disk' written : Disk} (h : disk.SameDirectories disk') {place : Place} {content : Bytes}
    (wrote : disk.write? place content = some written) (other : Bytes) : ∃ written', disk'.write? place other = some written' := by
  simp only [Disk.write?, Option.ite_none_right_eq_some, Bool.and_eq_true, decide_eq_true_eq, hasDirectoryFor, beq_iff_eq]
    at wrote ⊢
  obtain ⟨⟨⟨named, around⟩, vacant⟩, _⟩ := wrote
  exact ⟨_, ⟨⟨named, (h _).mp around⟩, fun found => vacant ((h place).mpr found)⟩, rfl⟩

/-! ## Paths -/

/-- A path leads to a place where an entry can be. -/
def LeadsTo (disk : Disk) (path : DiskPath) (place : Place) : Prop :=
  (path.route >>= disk.locateEntry).toOption = some place

/-- A path leads to the same place as long as the directories are the same. -/
theorem SameDirectories.leadsTo {disk disk' : Disk} (h : disk.SameDirectories disk') {path : DiskPath} {place : Place}
    (leads : disk.LeadsTo path place) : disk'.LeadsTo path place := by
  unfold LeadsTo at leads ⊢
  cases route : path.route with
  | error e => simp [route, bind, Except.bind, Except.toOption] at leads
  | ok names =>
    simp only [route, bind, Except.bind] at leads ⊢
    cases located : disk.locateEntry names with
    | error e => simp [located, Except.toOption] at leads
    | ok target =>
      rw [h.locateEntry located]
      rw [located] at leads
      exact leads

/-- A file is written at the place that its path leads to. -/
theorem writeAt?_eq_some_iff {disk written : Disk} {path : DiskPath} {content : Bytes} :
    disk.writeAt? path content = some written ↔
      ∃ place, disk.LeadsTo path place ∧ disk.write? place content = some written := by
  unfold writeAt? LeadsTo
  exact Option.bind_eq_some_iff

/-- A file is renamed from the place of one path to the place of another. -/
theorem renameAt?_eq_some_iff {disk renamed : Disk} {source target : DiskPath} :
    disk.renameAt? source target = some renamed ↔
      ∃ from' to', disk.LeadsTo source from' ∧ disk.LeadsTo target to' ∧ disk.rename? from' to' = some renamed := by
  unfold renameAt? LeadsTo
  simp only [Option.bind_eq_bind, Option.bind_eq_some_iff]
  constructor
  · rintro ⟨from', led, to', leads, moved⟩
    exact ⟨from', to', led, leads, moved⟩
  · rintro ⟨from', to', led, leads, moved⟩
    exact ⟨from', led, to', leads, moved⟩

/-- A file that was just written can be moved wherever a file could be moved before. -/
theorem SameDirectories.renameAt? {disk disk' renamed : Disk} (h : disk.SameDirectories disk') {source target : DiskPath}
    {place : Place} {content : Bytes} (moved : disk.renameAt? source target = some renamed)
    (leads : disk'.LeadsTo source place) (found : disk'.find? place = some (.file content)) :
    ∃ renamed', disk'.renameAt? source target = some renamed' := by
  obtain ⟨from', to', led, goal, renames⟩ := renameAt?_eq_some_iff.mp moved
  have same : from' = place := Option.some.inj ((h.leadsTo led).symm.trans leads)
  subst same
  unfold rename? at renames
  split at renames
  · rename_i old there
    have erased : Disk.SameDirectories (disk.erase from') (disk'.erase from') :=
      (sameDirectories_erase there).symm.trans (h.trans (sameDirectories_erase found))
    obtain ⟨renamed', wrote⟩ := erased.write? renames content
    refine ⟨renamed', renameAt?_eq_some_iff.mpr ⟨from', to', leads, h.leadsTo goal, ?_⟩⟩
    unfold rename?
    rw [found]
    exact wrote
  · nomatch renames

end Disk

/-! ## Temporary files -/

namespace DiskPath

/-- Characters without a slash are one piece. -/
theorem pieces_of_not_mem {cs : List Char} (h : '/' ∉ cs) : pieces cs = [cs] := by
  induction cs with
  | nil => rfl
  | cons c cs ih =>
    rw [List.mem_cons, not_or] at h
    rw [pieces, if_neg (Ne.symm h.1), ih h.2]

/-- What has no slash in it and follows some characters belongs to their last piece. -/
theorem pieces_append (cs : List Char) {ds : List Char} (h : '/' ∉ ds) :
    ∃ front last, pieces cs = front ++ [last] ∧ pieces (cs ++ ds) = front ++ [last ++ ds] := by
  induction cs with
  | nil => exact ⟨[], [], rfl, pieces_of_not_mem h⟩
  | cons c cs ih =>
    obtain ⟨front, last, before, after⟩ := ih
    rw [List.cons_append, pieces, pieces, before, after]
    split
    · exact ⟨[] :: front, last, rfl, rfl⟩
    · cases front with
      | nil => exact ⟨[], c :: last, rfl, rfl⟩
      | cons piece more => exact ⟨(c :: piece) :: more, last, rfl, rfl⟩

/-- Only no characters at all are a single empty piece. -/
theorem eq_nil_of_pieces {cs : List Char} (h : pieces cs = [[]]) : cs = [] := by
  cases cs with
  | nil => rfl
  | cons c cs =>
    obtain ⟨front, last, before, _⟩ := pieces_append cs List.not_mem_nil
    rw [pieces, before] at h
    split at h
    · simp at h
    · cases front <;> simp at h

/-- The temporary file of a path has the name of the file with a suffix, and is where the file is. -/
theorem names_temporary (path : DiskPath) :
    ∃ front last, path.names = front ++ [last] ∧ path.temporary.names = front ++ [last ++ ".tmp"] := by
  obtain ⟨front, last, before, after⟩ := pieces_append path.text.toList (by decide : '/' ∉ ".tmp".toList)
  refine ⟨front.map String.ofList, String.ofList last, ?_, ?_⟩
  · rw [names, before, List.map_append, List.map_singleton]
  · rw [names, temporary, String.toList_append, after, List.map_append, List.map_singleton, String.ofList_append,
      String.ofList_toList]

/-- The path of a temporary file begins where the path of the file does. -/
theorem head?_names_temporary {path : DiskPath} (h : path.text ≠ "") :
    path.temporary.names.head? = some "" ↔ path.names.head? = some "" := by
  obtain ⟨front, last, before, after⟩ := path.names_temporary
  rw [before, after]
  cases front with
  | cons name more => rfl
  | nil =>
    -- The only name of a path is empty only if the path is.
    have full : last ≠ "" := by
      rintro rfl
      apply h
      have single : pieces path.text.toList = [[]] := by simpa [names] using before
      simpa using eq_nil_of_pieces single
    simp [full]

/-- The names of a path that has names to follow. -/
theorem names_of_route {path : DiskPath} {followed : List String} (h : path.route = .ok followed) :
    path.text ≠ "" ∧ followed = path.names := by
  unfold route at h
  split at h
  · nomatch h
  · rename_i full
    split at h
    · exact ⟨full, (Except.ok.inj h).symm⟩
    · nomatch h

end DiskPath

/-- The name of a temporary file is a name, and not that of the file. -/
theorem Place.isName_temporary (name : String) : isName (name ++ ".tmp") = true ∧ name ++ ".tmp" ≠ name := by
  have long : 4 ≤ (name ++ ".tmp").length := by
    rw [String.length_append]
    exact Nat.le_add_left 4 name.length
  refine ⟨?_, ?_⟩
  · simp only [isName, Bool.and_eq_true, decide_eq_true_eq]
    refine ⟨⟨?_, ?_⟩, ?_⟩ <;>
    · intro same
      rw [same] at long
      exact absurd long (by decide)
  · intro same
    have lengths := congrArg String.length same
    rw [String.length_append] at lengths
    exact absurd lengths (by simp)

namespace Disk

/-- Names are followed one after the other. -/
theorem follow_append (disk : Disk) (here : Place) (front rest : List String) :
    disk.follow here (front ++ rest) = disk.follow here front >>= fun next => disk.follow next rest := by
  induction front generalizing here with
  | nil => rfl
  | cons name front ih =>
    rw [List.cons_append, follow, follow]
    split
    · rfl
    · rfl
    · cases here.step name with
      | error e => rfl
      | ok next => exact ih next

/-- A single name is followed from a directory. -/
theorem follow_singleton {disk : Disk} {here : Place} (h : disk.find? here = some .directory) (name : String) :
    disk.follow here [name] = here.step name := by
  rw [follow, h]
  cases here.step name <;> rfl

/-- A single name is only followed from a directory. -/
theorem isDirectory_of_follow_singleton {disk : Disk} {here target : Place} {name : String}
    (h : disk.follow here [name] = .ok target) : disk.find? here = some .directory := by
  rw [follow] at h
  split at h
  · cases h
  · cases h
  · assumption

/-- A name that can be given leads into the directory. -/
theorem step_of_isName {here place : Place} {name : String} (named : Place.isName name = true)
    (h : here.step name = .ok place) : place = here ++ [name] := by
  unfold Place.step at h
  split at h
  · rename_i around
    subst around
    exact absurd named (by decide)
  · rw [named, Bool.not_true, if_neg Bool.false_ne_true] at h
    split at h
    · exact (Except.ok.inj h).symm
    · nomatch h

/-- The temporary file is nowhere on the way to the file. -/
theorem step_ne_temporary {here place : Place} {name : String} (h : here.step name = .ok place) :
    place ≠ here ++ [name ++ ".tmp"] := by
  obtain ⟨named, apart⟩ := Place.isName_temporary name
  rintro rfl
  unfold Place.step at h
  split at h
  · unfold Place.parent at h
    split at h
    · simp at h
    · split at h
      · have same : ".." = name ++ ".tmp" := by simpa using h
        rw [← same] at named
        exact absurd named (by decide)
      · have lengths := congrArg List.length (Except.ok.inj h)
        simp at lengths
  · split at h
    · simp at h
    · split at h
      · have same : name = name ++ ".tmp" := by simpa using h
        exact apart same.symm
      · nomatch h

/-- A path that leads to a place has names that lead there. -/
theorem LeadsTo.locate_eq {disk : Disk} {path : DiskPath} {place : Place} (h : disk.LeadsTo path place) :
    disk.locate path.names = .ok place := by
  unfold LeadsTo at h
  cases route : path.route with
  | error e => simp [route, bind, Except.bind, Except.toOption] at h
  | ok names =>
    obtain ⟨_, rfl⟩ := DiskPath.names_of_route route
    cases located : disk.locate path.names with
    | error e => simp [route, locateEntry, located, bind, Except.bind, Except.toOption] at h
    | ok target =>
      simp only [route, locateEntry, located, bind, Except.bind] at h
      split at h
      · exact congrArg Except.ok (Option.some.inj h)
      · cases h

/-- The temporary file is in the directory in which the file is looked up. -/
theorem LeadsTo.of_temporary {disk : Disk} {path : DiskPath} {place : Place} (leads : disk.LeadsTo path.temporary place)
    (full : path.text ≠ "") :
    ∃ front last here, path.names = front ++ [last] ∧
      disk.follow (if path.names.head? = some "" then [""] else []) front = .ok here ∧ disk.find? here = some .directory ∧
      place = here ++ [last ++ ".tmp"] := by
  obtain ⟨front, last, names, temporary⟩ := path.names_temporary
  have located := leads.locate_eq
  simp only [locate, DiskPath.head?_names_temporary full] at located
  rw [temporary, follow_append] at located
  cases reached : disk.follow (if path.names.head? = some "" then [""] else []) front with
  | error e =>
    rw [reached] at located
    nomatch located
  | ok here =>
    rw [reached] at located
    have isDirectory := isDirectory_of_follow_singleton located
    have stepped := (follow_singleton isDirectory _).symm.trans located
    exact ⟨front, last, here, names, reached, isDirectory, step_of_isName (Place.isName_temporary last).1 stepped⟩

/-- A file is read as before after its temporary file was written. -/
theorem readAt_of_writeAt?_temporary {disk written : Disk} {path : DiskPath} {content : Bytes}
    (h : disk.writeAt? path.temporary content = some written) : written.readAt path = disk.readAt path := by
  obtain ⟨place, leads, writes⟩ := writeAt?_eq_some_iff.mp h
  cases route : path.route with
  | error e =>
    unfold readAt
    rw [route]
    rfl
  | ok followed =>
    obtain ⟨full, rfl⟩ := DiskPath.names_of_route route
    obtain ⟨front, last, here, names, reached, isDirectory, rfl⟩ := leads.of_temporary full
    have still := (sameDirectories_of_write? writes here).mp isDirectory
    rw [names] at reached
    have before : disk.locate (front ++ [last]) = here.step last := by
      rw [locate, follow_append, reached]
      exact follow_singleton isDirectory last
    have after : written.locate (front ++ [last]) = here.step last := by
      rw [locate, follow_append, follow_of_write? writes reached]
      exact follow_singleton still last
    unfold readAt
    simp only [route, names, before, after, bind, Except.bind]
    cases stepped : here.step last with
    | error e => rfl
    | ok found =>
      simp only
      rw [find?_of_write? writes, if_neg (step_ne_temporary stepped)]

end Disk

namespace Host

/-- A host that carries out every write of a file. -/
def Accepts (host : Host) (path : DiskPath) : Prop :=
  ∀ content, (host.replaceFile path content).1 = true

/-- A file is replaced if its temporary file can be written and then renamed. -/
theorem replaceFile_eq_true_iff {host : Host} {path : DiskPath} {content : Bytes} :
    (host.replaceFile path content).1 = true ↔ ∃ written renamed, host.disk.writeAt? path.temporary content = some written ∧
      written.renameAt? path.temporary path = some renamed ∧
      host.replaceFile path content = (true, { host with disk := renamed }) := by
  unfold replaceFile
  constructor
  · intro h
    cases wrote : host.disk.writeAt? path.temporary content with
    | none =>
      rw [wrote] at h
      nomatch h
    | some written =>
      rw [wrote] at h
      simp only at h
      cases moved : written.renameAt? path.temporary path with
      | none =>
        rw [moved] at h
        nomatch h
      | some renamed => exact ⟨written, renamed, rfl, moved, by simp only [moved]⟩
  · rintro ⟨written, renamed, wrote, moved, _⟩
    rw [wrote]
    simp only [moved]

/-- Replacing a file does not take another one into use, or one out of it. -/
theorem live_replaceFile (host : Host) (path : DiskPath) (content : Bytes) :
    (host.replaceFile path content).2.live = host.live := by
  unfold replaceFile
  cases host.disk.writeAt? path.temporary content with
  | none => rfl
  | some written => cases moved : written.renameAt? path.temporary path <;> simp only [moved]

/-- Once a write succeeded, every write does. -/
theorem accepts_of_replaceFile {host : Host} {path : DiskPath} {content : Bytes}
    (h : (host.replaceFile path content).1 = true) : (host.replaceFile path content).2.Accepts path := by
  obtain ⟨written, renamed, wrote, moved, replaced⟩ := replaceFile_eq_true_iff.mp h
  rw [replaced]
  intro other
  obtain ⟨place, leads, writes⟩ := Disk.writeAt?_eq_some_iff.mp wrote
  obtain ⟨from', to', _, _, renames⟩ := Disk.renameAt?_eq_some_iff.mp moved
  -- Neither step changes which directories there are, so both can be repeated.
  have first := Disk.sameDirectories_of_write? writes
  have second := first.trans (Disk.sameDirectories_of_rename? renames)
  obtain ⟨written', writes'⟩ := second.write? writes other
  have third := Disk.sameDirectories_of_write? writes'
  have found : written'.find? place = some (.file other) := by rw [Disk.find?_of_write? writes', if_pos rfl]
  obtain ⟨renamed', moved'⟩ :=
    (first.symm.trans (second.trans third)).renameAt? moved (third.leadsTo (second.leadsTo leads)) found
  have wrote' : renamed.writeAt? path.temporary other = some written' :=
    Disk.writeAt?_eq_some_iff.mpr ⟨place, second.leadsTo leads, writes'⟩
  unfold replaceFile
  simp only [wrote', moved']

/-- The new content of a file that was replaced is read there. -/
theorem readFile_of_replaceFile {host : Host} {path : DiskPath} {content : Bytes}
    (h : (host.replaceFile path content).1 = true) : (host.replaceFile path content).2.readFile path = .ok content := by
  obtain ⟨written, renamed, wrote, moved, replaced⟩ := replaceFile_eq_true_iff.mp h
  rw [replaced]
  obtain ⟨place, leads, writes⟩ := Disk.writeAt?_eq_some_iff.mp wrote
  obtain ⟨from', to', led, goal, renames⟩ := Disk.renameAt?_eq_some_iff.mp moved
  have same : from' = place :=
    Option.some.inj (led.symm.trans ((Disk.sameDirectories_of_write? writes).leadsTo leads))
  subst same
  have found : written.find? from' = some (.file content) := by rw [Disk.find?_of_write? writes, if_pos rfl]
  rw [Disk.rename?, found] at renames
  -- A file is moved by writing it anew, after which it is read under its new path.
  exact Disk.readAt_of_writeAt?
    (Disk.writeAt?_eq_some_iff.mpr ⟨to', (Disk.sameDirectories_erase found).leadsTo goal, renames⟩)

/-- A file that could not be replaced is read as before. -/
theorem readFile_of_not_replaceFile {host : Host} {path : DiskPath} {content : Bytes}
    (h : (host.replaceFile path content).1 = false) :
    (host.replaceFile path content).2.readFile path = host.readFile path := by
  unfold replaceFile at h ⊢
  cases wrote : host.disk.writeAt? path.temporary content with
  | none => rfl
  | some written =>
    rw [wrote] at h
    simp only at h ⊢
    cases moved : written.renameAt? path.temporary path with
    | none => exact Disk.readAt_of_writeAt?_temporary wrote
    | some renamed =>
      rw [moved] at h
      nomatch h

end Host

end TokenGate
