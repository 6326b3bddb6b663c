import Mathlib.Logic.Function.Basic
import TokenGate.Proofs.Repository.Failures

/-!
# Repositories side by side

A process may have any number of repositories, on the same and on different paths, open and closed ones, and it may call them in
any order. The host's list of store files in use is at all times that of the repositories that are open, and no two of these have
the same path. A repository that was closed takes no part any more: no call on it does anything, and neither does dropping it.
-/

namespace TokenGate

namespace Host

/-- A store file that is given free is no longer in use. -/
theorem mem_live_release (host : Host) (store : Option DiskPath) (steps : List String) :
    steps ∈ (host.release store).live ↔ steps ∈ host.live ∧ store.map DiskPath.steps ≠ some steps := by
  cases store with
  | none => simp [release]
  | some path => simp [release, Std.ExtTreeSet.mem_erase, and_comm]

/-- A store file that is claimed is in use, and so are those that were. -/
theorem mem_live_claim (host : Host) (path : DiskPath) (steps : List String) :
    steps ∈ (host.claim path).live ↔ steps ∈ host.live ∨ path.steps = steps := by
  simp [claim, Std.ExtTreeSet.mem_insert, or_comm]

end Host

namespace Repository

/-! ## One repository -/

/-- The path, by its steps, of the store file that a repository has in use. -/
def inUse? (r : Repository) : Option (List String) :=
  if r.isOpen then r.store.map DiskPath.steps else none

/-- Saving does not change which store files are in use. -/
theorem live_save (r : Repository) (state : RepositoryState) (host : Host) : (r.save state host).2.live = host.live := by
  unfold save
  cases r.store with
  | none => rfl
  | some path =>
    cases StoreDocument.ofState state with
    | error failure => rfl
    | ok document =>
      have kept := Host.live_replaceFile host path document.encode
      simp only
      cases replaced : host.replaceFile path document.encode with
      | mk success host' =>
        rw [replaced] at kept
        cases success <;> exact kept

/-- All that an operation may do to the list of store files in use is to give the repository's own free. -/
theorem Ended.live {α : Type} {r : Repository} {host : Host} {effect : Effect α} (h : Ended r host effect) :
    (effect.repository.inUse? = r.inUse? ∧ effect.host.live = host.live) ∨
      effect.repository.inUse? = none ∧ effect.host.live = (host.release r.store).live := by
  cases h with
  | refused e => exact Or.inl ⟨rfl, rfl⟩
  | unchanged value => exact Or.inl ⟨rfl, rfl⟩
  | @unsaved state e host' failed => exact Or.inl ⟨rfl, (congrArg (·.2.live) failed).symm.trans (r.live_save state host)⟩
  | @changed value state host' saved => exact Or.inl ⟨rfl, (congrArg (·.2.live) saved).symm.trans (r.live_save state host)⟩
  | @closed value host' saved =>
    have kept : host'.live = host.live := (congrArg (·.2.live) saved).symm.trans (r.live_save r.state host)
    refine Or.inr ⟨rfl, ?_⟩
    cases store : r.store with
    | none => exact kept
    | some path => simp only [Host.release, kept]

/-- A repository that was opened knows its path, which was not in use and is now. -/
theorem create_ok {validator : Validator} {store : Option DiskPath} {host host' : Host} {r : Repository}
    (h : create validator store host = .ok (r, host')) :
    r.inUse? = store.map DiskPath.steps ∧
      (∀ steps, r.inUse? = some steps → steps ∉ host.live) ∧
      ∀ steps, steps ∈ host'.live ↔ steps ∈ host.live ∨ r.inUse? = some steps := by
  cases store with
  | none =>
    cases h
    simp [inUse?]
  | some path =>
    unfold create at h
    simp only at h
    split at h
    · nomatch h
    · rename_i vacant
      cases loaded : load host path with
      | error e =>
        rw [loaded] at h
        nomatch h
      | ok state =>
        rw [loaded] at h
        cases h
        refine ⟨rfl, ?_, fun steps => ?_⟩
        · rintro steps ⟨⟩
          simpa [Host.isLive] using vacant
        · rw [Host.mem_live_claim, inUse?, if_pos rfl, Option.map_some, Option.some.injEq]

/-- A repository is refused because its path is in use if it is. -/
theorem create_eq_alreadyOpen_iff {validator : Validator} {store : Option DiskPath} {host : Host} {path : DiskPath} :
    create validator store host = .error (.alreadyOpen path) ↔ store = some path ∧ path.steps ∈ host.live := by
  cases store with
  | none => exact ⟨nofun, nofun⟩
  | some own =>
    unfold create
    simp only [Option.some.injEq]
    split
    · rename_i taken
      simp only [Host.isLive, Std.ExtTreeSet.contains_iff_mem] at taken
      constructor
      · rintro ⟨⟩
        exact ⟨rfl, taken⟩
      · rintro ⟨rfl, _⟩
        rfl
    · rename_i vacant
      simp only [Host.isLive, Std.ExtTreeSet.contains_iff_mem] at vacant
      constructor
      · intro refused
        cases loaded : load host own with
        | ok state =>
          rw [loaded] at refused
          nomatch refused
        | error e =>
          rw [loaded] at refused
          cases refused
          -- Loading fails for reasons of its own.
          unfold load at loaded
          split at loaded
          · nomatch loaded
          · nomatch loaded
          · split at loaded
            · nomatch loaded
            · rename_i document _
              cases restored : document.restore <;> rw [restored] at loaded <;> nomatch loaded
      · rintro ⟨rfl, taken⟩
        exact absurd taken vacant

/-! ## Closed repositories -/

/-- No operation on a repository that is not open changes anything. -/
theorem Mutation.run_of_closed {r : Repository} (closed : r.isOpen = false) (host : Host) {α : Type} (m : Mutation α) :
    (m.run r host).repository = r ∧ (m.run r host).host = host := by
  have performed : ∀ {β : Type} (change : RepositoryState → Except Rejection (Outcome β)),
      (r.perform host change).repository = r ∧ (r.perform host change).host = host := by
    intro β change
    rw [perform, closed]
    exact ⟨rfl, rfl⟩
  cases m with
  | add claims shared senderKey origin =>
    rw [show (Mutation.add claims shared senderKey origin).run r host = r.addToken host claims shared senderKey origin from rfl,
      addToken]
    split
    · exact ⟨rfl, rfl⟩
    · exact performed _
  | withdraw added =>
    rw [show (Mutation.withdraw added).run r host = r.withdraw host added from rfl, Repository.withdraw]
    split
    · exact ⟨rfl, rfl⟩
    · exact performed _
  | provision key =>
    rw [show (Mutation.provision key).run r host = r.provisionKey host key from rfl, provisionKey]
    split
    · exact ⟨rfl, rfl⟩
    · exact performed _
  | close =>
    rw [show Mutation.close.run r host = r.close host from rfl, Repository.close, closed]
    exact ⟨rfl, rfl⟩
  | remove id => exact performed _
  | purge now => exact performed _
  | bind sender key => exact performed _
  | unbind sender => exact performed _
  | challenge key given => exact performed _

/-- A repository of which nothing can be learned. -/
structure KnowsNothing (r : Repository) : Prop where
  access : ∀ introspection key resource method now, r.access introspection key resource method now = .unauthorized
  popKey : ∀ host id, r.popKey? host id = none
  claims : ∀ id, r.claims? id = none
  keyOfToken : ∀ id, r.keyOfToken? id = none
  tokensOfKey : ∀ key, r.tokensOfKey key = []
  keyOfSender : ∀ sender, r.keyOfSender? sender = none
  challenge : ∀ key, r.challenge? key = none
  updateApplies : ∀ host claims senderKey, r.updateApplies host claims senderKey = false

/-- A closed repository knows nothing. -/
theorem knowsNothing_of_closed {r : Repository} (closed : r.isOpen = false) : r.KnowsNothing := by
  have empty : r.visible = {} := by rw [visible, closed]; rfl
  have files : ∀ key, (RepositoryState.idsOf {} key).toList = [] := by simp [RepositoryState.idsOf]
  refine ⟨fun introspection key resource method now => ?_, fun host id => ?_, fun id => ?_, fun id => ?_, fun key => ?_,
    fun sender => ?_, fun key => ?_, fun host claims senderKey => ?_⟩
  · rw [Repository.access, empty]
    unfold RepositoryState.access RepositoryState.entitlements
    rw [files]
    cases introspection <;> rfl
  · simp [popKey?, empty]
  · simp [claims?, empty]
  · simp [keyOfToken?, empty]
  · rw [tokensOfKey, empty, files]
  · simp [keyOfSender?, empty]
  · simp [challenge?, empty]
  · unfold updateApplies
    split
    · rw [empty, RepositoryState.isUpdate, RepositoryState.hasUnexpired, files, List.any_nil, Bool.and_false]
    · rfl

/-- A repository that was closed has saved its state, and given its file free. -/
theorem exists_save_of_close {r : Repository} {host : Host} (ok : (r.close host).result = .ok ()) :
    ∃ host', r.save r.state host = (.ok (), host') ∧
      r.close host = ⟨.ok (), { r with isOpen := false }, host'.release r.store⟩ := by
  unfold close at ok ⊢
  split at ok
  · rename_i isOpen
    rw [if_pos isOpen]
    cases saved : r.save r.state host with
    | mk result host' =>
      rw [saved] at ok
      cases result with
      | ok _ => exact ⟨host', rfl, rfl⟩
      | error e => nomatch ok
  · nomatch ok

/-- A repository that was closed is as it was, but closed. -/
theorem close_ok {r : Repository} {host : Host} (ok : (r.close host).result = .ok ()) :
    (r.close host).repository = { r with isOpen := false } := by
  obtain ⟨_, _, same⟩ := exists_save_of_close ok
  rw [same]

end Repository

/-! ## Many repositories -/

/-- A process with repositories, each known to its callers by a number. -/
structure Process where
  host : Host
  held : Nat → Option Repository

namespace Process

/-- What a process can do, and what can happen around it. -/
inductive Call : Type 1 where
  /-- A repository is to be created, under a number that is not given out. -/
  | create (handle : Nat) (validator : Validator) (store : Option DiskPath)
  | mutate (handle : Nat) {α : Type} (m : Repository.Mutation α)
  | drop (handle : Nat)
  /-- The disk may change in any way, and time goes by. -/
  | meanwhile (disk : Disk) (clock : UInt64)

/-- The process with another repository under a number, or none. -/
def put (p : Process) (handle : Nat) (r : Option Repository) (host : Host) : Process :=
  ⟨host, Function.update p.held handle r⟩

/-- The process after a call. A call on a number that no repository has does nothing. -/
def step (p : Process) : Call → Process
  | .create handle validator store =>
    if (p.held handle).isSome then p
    else
      match Repository.create validator store p.host with
      | .ok (r, host) => p.put handle (some r) host
      | .error _ => p
  | .mutate handle m =>
    match p.held handle with
    | some r => p.put handle (some (m.run r p.host).repository) (m.run r p.host).host
    | none => p
  | .drop handle =>
    match p.held handle with
    | some r => p.put handle none (r.discard p.host)
    | none => p
  | .meanwhile disk clock => { p with host := { p.host with disk, clock } }

/-- The process after some calls. -/
def afterAll (p : Process) (calls : List Call) : Process := calls.foldl step p

/-- The path, by its steps, that the repository with a number has in use. -/
def inUse? (p : Process) (handle : Nat) : Option (List String) :=
  (p.held handle).bind Repository.inUse?

/-- The list of store files in use is that of the open repositories, and none of them is in use twice. -/
structure IsExclusive (p : Process) : Prop where
  live : ∀ steps, steps ∈ p.host.live ↔ ∃ handle, p.inUse? handle = some steps
  once : ∀ handle handle' steps, p.inUse? handle = some steps → p.inUse? handle' = some steps → handle = handle'

/-- What is put under a handle is held there, and under the other handles what was. -/
theorem held_put (p : Process) (handle other : Nat) (r : Option Repository) (host : Host) :
    (p.put handle r host).held other = if other = handle then r else p.held other :=
  Function.update_apply p.held handle r other

/-- The store file in use under a handle is that of the repository that is put there. -/
theorem inUse?_put (p : Process) (handle other : Nat) (r : Option Repository) (host : Host) :
    (p.put handle r host).inUse? other = if other = handle then r.bind Repository.inUse? else p.inUse? other := by
  rw [inUse?, held_put]
  by_cases same : other = handle
  · rw [if_pos same, if_pos same]
  · rw [if_neg same, if_neg same, inUse?]

/-- A repository may take the place of another one, or a number be given out or back, if the list is changed accordingly and what
is new in it was free. -/
theorem IsExclusive.put {p : Process} (h : p.IsExclusive) {handle : Nat} {r : Option Repository} {host : Host}
    (live : ∀ steps, steps ∈ host.live ↔
      (steps ∈ p.host.live ∧ p.inUse? handle ≠ some steps) ∨ r.bind Repository.inUse? = some steps)
    (vacant : ∀ steps, r.bind Repository.inUse? = some steps → steps ∈ p.host.live → p.inUse? handle = some steps) :
    (p.put handle r host).IsExclusive where
  live := by
    intro steps
    rw [show (p.put handle r host).host = host from rfl, live, h.live]
    simp only [inUse?_put]
    constructor
    · rintro (⟨⟨other, used⟩, apart⟩ | used)
      · refine ⟨other, ?_⟩
        rw [if_neg, used]
        rintro rfl
        exact apart used
      · exact ⟨handle, by rw [if_pos rfl, used]⟩
    · rintro ⟨other, used⟩
      split at used
      · exact Or.inr used
      · rename_i apart
        exact Or.inl ⟨⟨other, used⟩, fun own => apart (h.once _ _ _ used own)⟩
  once := by
    -- What the new repository uses, another one cannot: it would be on the list, and then the old one's.
    have own : ∀ other steps, other ≠ handle → p.inUse? other = some steps → r.bind Repository.inUse? ≠ some steps := by
      intro other steps apart used new
      exact apart (h.once _ _ _ used (vacant steps new ((h.live steps).mpr ⟨other, used⟩)))
    intro first second steps used used'
    rw [inUse?_put] at used used'
    split at used <;> split at used'
    · rename_i same same'
      exact same.trans same'.symm
    · rename_i _ apart
      exact absurd used (own second steps apart used')
    · rename_i apart _
      exact absurd used' (own first steps apart used)
    · exact h.once _ _ _ used used'

/-- A process without repositories. -/
def start (host : Host) : Process := ⟨host, fun _ => none⟩

/-- Nothing is in use at first. -/
theorem isExclusive_start {host : Host} (unused : host.live = ∅) : (start host).IsExclusive where
  live := by
    intro steps
    simp [start, unused, inUse?]
  once := nofun

section Calls

variable {p : Process} {handle : Nat} {r : Repository} {α : Type}

/-- An operation changes the repository under its handle, and the host. -/
theorem step_mutate (found : p.held handle = some r) (m : Repository.Mutation α) :
    p.step (.mutate handle m) = p.put handle (some (m.run r p.host).repository) (m.run r p.host).host := by
  simp only [step, found]

theorem step_mutate_of_none (vacant : p.held handle = none) (m : Repository.Mutation α) : p.step (.mutate handle m) = p := by
  simp only [step, vacant]

/-- A repository that is dropped is gone, and its store file is free unless it was closed before. -/
theorem step_drop (found : p.held handle = some r) : p.step (.drop handle) = p.put handle none (r.discard p.host) := by
  simp only [step, found]

theorem step_drop_of_none (vacant : p.held handle = none) : p.step (.drop handle) = p := by
  simp only [step, vacant]

end Calls

/-- Every call leaves the list in step with the open repositories. -/
theorem IsExclusive.step {p : Process} (h : p.IsExclusive) (call : Call) : (p.step call).IsExclusive := by
  cases call with
  | create handle validator store =>
    unfold Process.step
    simp only
    split
    · exact h
    · rename_i free
      have unused : p.inUse? handle = none := by
        rw [inUse?, Option.not_isSome_iff_eq_none.mp free, Option.bind_none]
      split
      · rename_i r host created
        obtain ⟨_, vacant, live⟩ := Repository.create_ok created
        refine h.put (fun steps => ?_) fun steps used taken => absurd taken (vacant steps used)
        rw [live, unused]
        simp
      · exact h
  | mutate handle m =>
    cases found : p.held handle with
    | none =>
      rw [step_mutate_of_none found]
      exact h
    | some r =>
      rw [step_mutate found]
      have own : p.inUse? handle = r.inUse? := by rw [inUse?, found, Option.bind_some]
      have used : ∀ steps, r.inUse? = some steps → steps ∈ p.host.live :=
        fun steps used => (h.live steps).mpr ⟨handle, own.trans used⟩
      have kept : ∀ {r' : Repository} {host : Host}, r'.inUse? = r.inUse? → host.live = p.host.live →
          (p.put handle (some r') host).IsExclusive := by
        intro r' host same live
        refine h.put (fun steps => ?_) fun steps uses _ => ?_
        · rw [live, Option.bind_some, same, own]
          by_cases uses : r.inUse? = some steps
          · simp [uses, used steps uses]
          · simp [uses]
        · rw [own, ← same]
          exact uses
      cases isOpen : r.isOpen with
      | false =>
        obtain ⟨same, unchanged⟩ := m.run_of_closed isOpen p.host
        exact kept (congrArg Repository.inUse? same) (congrArg Host.live unchanged)
      | true =>
        rcases (m.ended r p.host).live with ⟨same, live⟩ | ⟨none, live⟩
        · exact kept same live
        · refine h.put (fun steps => ?_) fun steps uses => ?_
          · rw [live, Host.mem_live_release, Option.bind_some, none, own, Repository.inUse?, isOpen]
            simp
          · rw [Option.bind_some, none] at uses
            nomatch uses
  | drop handle =>
    cases found : p.held handle with
    | none =>
      rw [step_drop_of_none found]
      exact h
    | some r =>
      rw [step_drop found]
      refine h.put (fun steps => ?_) fun _ none => nomatch none
      rw [Repository.discard, inUse?, found, Option.bind_some, Repository.inUse?]
      cases r.isOpen with
      | false => simp
      | true => simp [Host.mem_live_release]
  | meanwhile disk clock => exact ⟨h.live, h.once⟩

/-- However many calls there were, the list is in step with the open repositories. -/
theorem IsExclusive.afterAll {p : Process} (h : p.IsExclusive) (calls : List Call) : (p.afterAll calls).IsExclusive := by
  induction calls generalizing p with
  | nil => exact h
  | cons call calls ih => exact ih (h.step call)

/-! ## Closed repositories -/

/-- A call on a closed repository does nothing to the process. -/
theorem step_mutate_of_closed {p : Process} {handle : Nat} {r : Repository} (found : p.held handle = some r)
    (closed : r.isOpen = false) {α : Type} (m : Repository.Mutation α) : p.step (.mutate handle m) = p := by
  obtain ⟨same, unchanged⟩ := m.run_of_closed closed p.host
  rw [step_mutate found, same, unchanged, put, ← found, Function.update_eq_self]

/-- Dropping a closed repository gives nothing free but its number. -/
theorem step_drop_of_closed {p : Process} {handle : Nat} {r : Repository} (found : p.held handle = some r)
    (closed : r.isOpen = false) : p.step (.drop handle) = p.put handle none p.host := by
  rw [step_drop found, Repository.discard, closed]
  rfl

/-- A closed repository is there, as it is, until it is dropped. -/
theorem held_step_of_closed {p : Process} {handle : Nat} {r : Repository} (found : p.held handle = some r)
    (closed : r.isOpen = false) {call : Call} (kept : call ≠ .drop handle) : (p.step call).held handle = some r := by
  have elsewhere : ∀ {other : Nat} (r' : Option Repository) (host : Host), other ≠ handle →
      (p.put other r' host).held handle = some r := by
    intro other r' host apart
    rw [held_put, if_neg (Ne.symm apart), found]
  cases call with
  | create other validator store =>
    unfold step
    simp only
    split
    · exact found
    · rename_i free
      split
      · refine elsewhere _ _ ?_
        rintro rfl
        rw [found] at free
        exact free rfl
      · exact found
  | mutate other m =>
    by_cases same : other = handle
    · subst same
      rw [step_mutate_of_closed found closed m]
      exact found
    · cases there : p.held other with
      | none =>
        rw [step_mutate_of_none there]
        exact found
      | some r' =>
        rw [step_mutate there]
        exact elsewhere _ _ same
  | drop other =>
    cases there : p.held other with
    | none =>
      rw [step_drop_of_none there]
      exact found
    | some r' =>
      rw [step_drop there]
      refine elsewhere _ _ ?_
      rintro rfl
      exact kept rfl
  | meanwhile disk clock => exact found

/-- A closed repository stays as it is until it is dropped. -/
theorem held_afterAll_of_closed {p : Process} {handle : Nat} {r : Repository} (found : p.held handle = some r)
    (closed : r.isOpen = false) {calls : List Call} (kept : ∀ call ∈ calls, call ≠ .drop handle) :
    (p.afterAll calls).held handle = some r := by
  induction calls generalizing p with
  | nil => exact found
  | cons call calls ih =>
    obtain ⟨first, rest⟩ := List.forall_mem_cons.mp kept
    exact ih (held_step_of_closed found closed first) rest

/-- After any calls, the store files in use are those of the open repositories, none of them is in use twice, and a repository is
refused for being open already if an open one has its path. Once a repository was closed, and until it is dropped, it is as it was
and nothing can be learned of it, no call on it does anything to the process, and dropping it gives nothing free but its number. -/
theorem one_repository_per_path {host : Host} (unused : host.live = ∅) (calls : List Call) :
    ((start host).afterAll calls).IsExclusive ∧
      (∀ validator store path,
        Repository.create validator store ((start host).afterAll calls).host = .error (.alreadyOpen path) ↔
          store = some path ∧ ∃ handle, ((start host).afterAll calls).inUse? handle = some path.steps) ∧
      ∀ handle r, ((start host).afterAll calls).held handle = some r →
        (r.close ((start host).afterAll calls).host).result = .ok () →
        Repository.KnowsNothing { r with isOpen := false } ∧
        ∀ later, (∀ call ∈ later, call ≠ .drop handle) →
          let p := (((start host).afterAll calls).step (.mutate handle .close)).afterAll later
          p.held handle = some { r with isOpen := false } ∧
            (∀ {α : Type} (m : Repository.Mutation α), p.step (.mutate handle m) = p) ∧
            p.step (.drop handle) = p.put handle none p.host := by
  have exclusive := (isExclusive_start unused).afterAll calls
  refine ⟨exclusive, fun validator store path => ?_, fun handle r found ok => ?_⟩
  · rw [Repository.create_eq_alreadyOpen_iff, exclusive.live]
  · refine ⟨Repository.knowsNothing_of_closed rfl, fun later kept => ?_⟩
    have closed : (((start host).afterAll calls).step (.mutate handle .close)).held handle =
        some { r with isOpen := false } := by
      rw [step_mutate found, held_put, if_pos rfl]
      exact congrArg some (Repository.close_ok ok)
    have there := held_afterAll_of_closed closed rfl kept
    exact ⟨there, fun m => step_mutate_of_closed there rfl m, step_drop_of_closed there rfl⟩

namespace Sample

/-- A path of a store file, and another way to write it. -/
def path : DiskPath := ⟨"/tokens"⟩

def samePath : DiskPath := ⟨"//tokens"⟩

/-- A repository is created on the path. -/
def first : List Call := [.create 0 (ScopePolicy.validator {}) (some path)]

/-- Two more are to be, the second of which is refused. -/
def successors : List Call :=
  [.create 1 (ScopePolicy.validator {}) (some samePath), .create 2 (ScopePolicy.validator {}) (some path)]

/-- The first repository is closed before the others are created. -/
def process : Process := (((start {}).afterAll first).step (.mutate 0 .close)).afterAll successors

end Sample

/-- A closed repository is dropped, and its successor keeps the path. -/
theorem one_repository_per_path_of_successor :
    Sample.process.inUse? 1 = some ["", "tokens"] ∧ Sample.process.inUse? 2 = none ∧
      Sample.process.step (.drop 0) = Sample.process.put 0 none Sample.process.host := by
  have created : ∃ r, ((start {}).afterAll Sample.first).held 0 = some r ∧
      (r.close ((start {}).afterAll Sample.first).host).result = .ok () := by
    refine ⟨(((start {}).afterAll Sample.first).held 0).get (by decide +kernel), (Option.some_get _).symm, ?_⟩
    exact Repository.eq_ok_of_toOption (by decide +kernel)
  obtain ⟨r, found, ok⟩ := created
  obtain ⟨_, rest⟩ := (@one_repository_per_path {} rfl Sample.first).2.2 0 r found ok
  exact ⟨by decide +kernel, by decide +kernel, (rest Sample.successors (by simp [Sample.successors])).2.2⟩

end Process

end TokenGate
