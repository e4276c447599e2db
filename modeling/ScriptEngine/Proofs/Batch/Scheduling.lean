/-
This file proves that a batch does not depend on its schedule. Whatever turns its workers take, no
more of them hold slots than there are; each worker loads its program once and executes it on a
machine that no other worker touches, so that the machine comes to what executing the program alone
comes to; and the errors stand at the places of their paths. What is claimed of a batch holds before
its first turn, and each turn keeps it.
-/

import Mathlib
import ScriptEngine.Proofs.Batch.Stepping

namespace ScriptEngine

/-! ### What a turn can be -/

/-- What one turn of a batch can be. -/
inductive Host.Turns (host : Host) (paths : List Text) (batch : Batch) : Batch → Prop where
  | start {slots : Slots} (room : batch.workers.size < paths.length)
    (free : batch.slots.acquire? = some slots) :
    Turns host paths batch { batch with slots, workers := batch.workers.push .loading }
  | reject {worker : ℕ} {path : Text} {error : LoadError}
    (stands : batch.workers[worker]? = some .loading) (named : paths[worker]? = some path)
    (fails : host.load path = .error error) :
    Turns host paths batch
      (({ batch with loads := batch.loads.push worker }.fail worker (.load error)).move worker
        .leaving)
  | load {worker : ℕ} {path : Text} {program : Program}
    (stands : batch.workers[worker]? = some .loading) (named : paths[worker]? = some path)
    (loads : host.load path = .ok program) :
    Turns host paths batch
      ({ batch with loads := batch.loads.push worker }.move worker (.loaded program))
  | make {worker : ℕ} {program : Program}
    (stands : batch.workers[worker]? = some (.loaded program)) :
    Turns host paths batch
      ({ batch with
          machines := batch.machines.push ⟨worker, (host.begin host.newSession).1⟩ }.move worker
        (.executing program batch.machines.size (host.begin host.newSession).2))
  | step {worker machine : ℕ} {program : Program} {phase : Phase} {place : Workplace}
    (stands : batch.workers[worker]? = some (.executing program machine phase))
    (going : ∀ execution, phase ≠ .ended execution)
    (found : batch.machines[machine]? = some place) :
    Turns host paths batch
      ({ batch with
          machines := batch.machines.setIfInBounds machine
            { place with session := (host.step program place.session phase).1 } }.move worker
        (.executing program machine (host.step program place.session phase).2))
  | succeed {worker machine : ℕ} {program : Program} {cell : CellId}
    (stands : batch.workers[worker]? = some (.executing program machine (.ended (.value cell)))) :
    Turns host paths batch (batch.move worker .leaving)
  | note {worker machine : ℕ} {program : Program} {error : ExecutionError}
    (stands : batch.workers[worker]? = some (.executing program machine (.ended (.failed error)))) :
    Turns host paths batch ((batch.fail worker error).move worker .leaving)
  | collapse {worker machine : ℕ} {program : Program} {breakdown : Breakdown}
    (stands : batch.workers[worker]? =
      some (.executing program machine (.ended (.broken breakdown)))) :
    Turns host paths batch { batch with collapsed := true }
  | leave {worker : ℕ} {slots : Slots} (stands : batch.workers[worker]? = some .leaving)
    (freed : batch.slots.release? = some slots) :
    Turns host paths batch ({ batch with slots }.move worker .gone)

namespace Host

variable {host : Host} {paths : List Text} {batch next : Batch} {worker : ℕ}

theorem turns_of_work {stage : Stage} (stands : batch.workers[worker]? = some stage)
    (worked : host.work paths batch worker stage = some next) : host.Turns paths batch next := by
  cases stage with
  | loading =>
    obtain ⟨path, named, worked⟩ := Option.bind_eq_some_iff.mp worked
    dsimp only at worked
    split at worked
    · case h_1 error fails =>
      cases worked
      exact .reject stands named fails
    · case h_2 program loads =>
      cases worked
      exact .load stands named loads
  | loaded program =>
    cases worked
    exact .make stands
  | executing program machine phase =>
    cases phase with
    | between preload | running rest? fuel pending =>
      obtain ⟨place, found, ⟨⟩⟩ := Option.bind_eq_some_iff.mp worked
      exact .step stands (fun _ => Phase.noConfusion) found
    | ended execution =>
      cases execution with
      | value cell =>
        cases worked
        exact .succeed stands
      | failed error =>
        cases worked
        exact .note stands
      | broken breakdown =>
        cases worked
        exact .collapse stands
      | outOfFuel => cases worked
  | leaving =>
    obtain ⟨slots, freed, ⟨⟩⟩ := Option.bind_eq_some_iff.mp worked
    exact .leave stands freed
  | gone => cases worked

/-- A batch in which a turn is possible has not collapsed, and the turn is one of the nine kinds of
`Host.Turns`. -/
theorem turns_of_turn {turn : Turn} (turned : host.turn paths batch turn = some next) :
    batch.collapsed = false ∧ host.Turns paths batch next := by
  cases turn with
  | start =>
    unfold Host.turn at turned
    dsimp only at turned
    split at turned
    · cases turned
    · case isFalse possible =>
      rw [not_or, Bool.not_eq_true, Nat.not_le] at possible
      obtain ⟨slots, free, ⟨⟩⟩ := Option.bind_eq_some_iff.mp turned
      exact ⟨possible.1, .start possible.2 free⟩
  | work worker =>
    unfold Host.turn at turned
    dsimp only at turned
    split at turned
    · cases turned
    · case isFalse standing =>
      obtain ⟨stage, stands, worked⟩ := Option.bind_eq_some_iff.mp turned
      exact ⟨Bool.not_eq_true _ ▸ standing, turns_of_work stands worked⟩

end Host

/-! ### What a program comes to alone -/

/-- The error of a program that has failed with one. -/
def BatchEntry.error? (entry : BatchEntry) : Option ExecutionError :=
  match entry.execution with
  | .failed error => some error
  | _ => none

/-- A program has given a value or an error. -/
def BatchEntry.Ends (entry : BatchEntry) : Prop :=
  (∃ cell, entry.execution = .value cell) ∨ ∃ error, entry.execution = .failed error

/-! ### Where workers stand -/

namespace Batch

/-- No machine belongs to a worker. -/
def Homeless (batch : Batch) (worker : ℕ) : Prop :=
  ∀ (machine : ℕ) (session : Session), batch.machines[machine]? ≠ some ⟨worker, session⟩

/-- Nothing has been done for a worker. -/
structure Fresh (batch : Batch) (worker : ℕ) : Prop where
  uncounted : worker ∉ batch.loads
  quiet : batch.errors[worker]? = some none
  homeless : batch.Homeless worker

/-- Two batches are the same for a worker. -/
structure SameFor (worker : ℕ) (before after : Batch) : Prop where
  stage : after.workers[worker]? = before.workers[worker]?
  error : after.errors[worker]? = before.errors[worker]?
  loads : worker ∈ after.loads ↔ worker ∈ before.loads
  machines : ∀ (machine : ℕ) (session : Session),
    after.machines[machine]? = some ⟨worker, session⟩ ↔
      before.machines[machine]? = some ⟨worker, session⟩

variable {batch before middle after : Batch} {worker other : ℕ}

theorem SameFor.trans (first : SameFor worker before middle)
    (second : SameFor worker middle after) : SameFor worker before after :=
  ⟨second.stage.trans first.stage, second.error.trans first.error,
    second.loads.trans first.loads,
    fun machine session => (second.machines machine session).trans (first.machines machine session)⟩

theorem sameFor_move (apart : other ≠ worker) (stage : Stage) :
    SameFor other batch (batch.move worker stage) :=
  ⟨Array.getElem?_setIfInBounds_ne apart.symm, rfl, .rfl, fun _ _ => .rfl⟩

theorem sameFor_fail (apart : other ≠ worker) (error : ExecutionError) :
    SameFor other batch (batch.fail worker error) :=
  ⟨rfl, Array.getElem?_setIfInBounds_ne apart.symm, .rfl, fun _ _ => .rfl⟩

theorem sameFor_load (apart : other ≠ worker) :
    SameFor other batch { batch with loads := batch.loads.push worker } :=
  ⟨rfl, rfl, by rw [Array.mem_push]; exact or_iff_left apart, fun _ _ => .rfl⟩

theorem sameFor_make (apart : other ≠ worker) (session : Session) :
    SameFor other batch { batch with machines := batch.machines.push ⟨worker, session⟩ } := by
  refine ⟨rfl, rfl, .rfl, fun machine held => ?_⟩
  dsimp only
  rw [Array.getElem?_push]
  split
  · case isTrue last =>
    rw [last, Array.getElem?_eq_none (Nat.le_refl _)]
    refine ⟨fun same => ?_, fun none => nomatch none⟩
    cases same
    exact absurd rfl apart
  · exact .rfl

/-- What happens on the machine of a worker leaves the batch `SameFor` every other worker. -/
theorem sameFor_work {machine : ℕ} {place : Workplace}
    (found : batch.machines[machine]? = some place) (apart : other ≠ place.worker)
    (session : Session) :
    SameFor other batch { batch with
      machines := batch.machines.setIfInBounds machine { place with session } } := by
  refine ⟨rfl, rfl, .rfl, fun index held => ?_⟩
  dsimp only
  by_cases same : machine = index
  · rw [← same, Array.getElem?_setIfInBounds_self_of_lt (Array.getElem?_eq_some_iff.mp found).1,
      found]
    constructor <;> rintro ⟨⟩ <;> exact absurd rfl apart
  · rw [Array.getElem?_setIfInBounds_ne same]

end Batch

/-- The worker of a program has come to the end of it: what the program gives alone, by `runFile`,
is what it has noted, and stands on its machine. -/
structure Host.Done (host : Host) (path : Text) (batch : Batch) (worker : ℕ) : Prop where
  counted : worker ∈ batch.loads
  ends : (host.runFile path).Ends
  error : batch.errors[worker]? = some (host.runFile path).error?
  machine : ∀ program, host.load path = .ok program →
    ∃ machine : ℕ, batch.machines[machine]? = some ⟨worker, (host.runFile path).session⟩
  owner : ∀ (machine : ℕ) (session : Session),
    batch.machines[machine]? = some ⟨worker, session⟩ → ∃ program, host.load path = .ok program

/-- What holds of the worker of a program at each of its stages. One that was not started has none
yet. -/
inductive Host.Stands (host : Host) (path : Text) (batch : Batch) (worker : ℕ) :
    Option Stage → Prop where
  | waiting (fresh : batch.Fresh worker) : Stands host path batch worker none
  | loading (fresh : batch.Fresh worker) : Stands host path batch worker (some .loading)
  | loaded {program : Program} (loads : host.load path = .ok program)
    (counted : worker ∈ batch.loads) (quiet : batch.errors[worker]? = some none)
    (homeless : batch.Homeless worker) : Stands host path batch worker (some (.loaded program))
  | executing {program : Program} {machine : ℕ} {phase : Phase} {session : Session}
    (loads : host.load path = .ok program) (counted : worker ∈ batch.loads)
    (quiet : batch.errors[worker]? = some none)
    (made : batch.machines[machine]? = some ⟨worker, session⟩)
    (ends : host.finish program (session, phase) = host.execute program host.newSession) :
    Stands host path batch worker (some (.executing program machine phase))
  | leaving (done : host.Done path batch worker) : Stands host path batch worker (some .leaving)
  | gone (done : host.Done path batch worker) : Stands host path batch worker (some .gone)

section Standing

variable {host : Host} {path : Text} {before after : Batch} {worker : ℕ}

theorem Batch.SameFor.homeless (same : Batch.SameFor worker before after)
    (homeless : before.Homeless worker) : after.Homeless worker :=
  fun machine session => mt (same.machines machine session).mp (homeless machine session)

theorem Batch.Fresh.congr (fresh : before.Fresh worker) (same : Batch.SameFor worker before after) :
    after.Fresh worker :=
  ⟨mt same.loads.mp fresh.uncounted, same.error.trans fresh.quiet, same.homeless fresh.homeless⟩

theorem Host.Done.congr (done : host.Done path before worker)
    (same : Batch.SameFor worker before after) : host.Done path after worker where
  counted := same.loads.mpr done.counted
  ends := done.ends
  error := same.error.trans done.error
  machine program loads := by
    obtain ⟨machine, found⟩ := done.machine program loads
    exact ⟨machine, (same.machines _ _).mpr found⟩
  owner machine session found := done.owner machine session ((same.machines _ _).mp found)

/-- What is `SameFor` a worker does not change what holds of it. -/
theorem Host.Stands.congr {stage : Option Stage} (stands : host.Stands path before worker stage)
    (same : Batch.SameFor worker before after) : host.Stands path after worker stage := by
  cases stands with
  | waiting fresh => exact .waiting (fresh.congr same)
  | loading fresh => exact .loading (fresh.congr same)
  | loaded loads counted quiet homeless =>
    exact .loaded loads (same.loads.mpr counted) (same.error.trans quiet) (same.homeless homeless)
  | executing loads counted quiet made ends =>
    exact .executing loads (same.loads.mpr counted) (same.error.trans quiet)
      ((same.machines _ _).mpr made) ends
  | leaving done => exact .leaving (done.congr same)
  | gone done => exact .gone (done.congr same)

end Standing

/-! ### Slots -/

theorem Slots.acquire?_eq_some {slots taken : Slots} (acquired : slots.acquire? = some taken) :
    taken.capacity = slots.capacity ∧ taken.held = slots.held + 1 := by
  unfold acquire? at acquired
  split at acquired
  · cases acquired
    exact ⟨rfl, rfl⟩
  · cases acquired

theorem Slots.release?_eq_some {slots freed : Slots} (released : slots.release? = some freed) :
    freed.capacity = slots.capacity ∧ freed.held + 1 = slots.held := by
  unfold release? at released
  split at released
  · case isTrue held =>
    cases released
    exact ⟨rfl, Nat.sub_add_cancel held⟩
  · cases released

/-- The number of slots that a worker holds at a stage. -/
def Stage.slots (stage : Stage) : ℕ :=
  if stage.isGone then 0 else 1

theorem Batch.running_move {batch : Batch} {worker : ℕ} {before : Stage}
    (stands : batch.workers[worker]? = some before) (stage : Stage) :
    (batch.move worker stage).running + before.slots = batch.running + stage.slots := by
  obtain ⟨below, same⟩ := Array.getElem?_eq_some_iff.mp stands
  have counted : before.slots ≤ batch.running := by
    unfold Stage.slots Batch.running
    split
    · exact Nat.zero_le _
    · case isFalse present =>
      refine Array.countP_pos_iff.mpr ⟨before, Array.mem_of_getElem? stands, ?_⟩
      rwa [Bool.not_eq_true', ← Bool.not_eq_true]
  have moved : (batch.move worker stage).running =
      batch.running - before.slots + stage.slots := by
    unfold Batch.running Batch.move Stage.slots
    dsimp only
    rw [Array.setIfInBounds_def, dif_pos below, Array.countP_set below, same]
    cases before.isGone <;> cases stage.isGone <;> rfl
  omega

/-! ### What holds of a batch all along -/

/-- What holds of a batch before its first turn and after each: as many slots are held as workers
need, what `Host.Stands` says holds of each worker, and no two loads or machines belong to one. -/
structure Host.Sound (host : Host) (jobs : Int) (paths : List Text) (batch : Batch) : Prop where
  started : batch.workers.size ≤ paths.length
  places : batch.errors.size = paths.length
  capacity : batch.slots.capacity = (max jobs 1).toNat
  held : batch.slots.held = batch.running
  /-- No program is loaded twice. -/
  loads : batch.loads.toList.Nodup
  /-- No two machines are made for one worker. -/
  owners : (batch.machines.toList.map Workplace.worker).Nodup
  counted : ∀ worker ∈ batch.loads, worker < paths.length
  housed : ∀ place ∈ batch.machines, place.worker < paths.length
  stands : ∀ (worker : ℕ) (path : Text), paths[worker]? = some path →
    host.Stands path batch worker batch.workers[worker]?
  /-- Only a program that breaks down brings a batch down. -/
  collapsed : batch.collapsed = true →
    ∃ path ∈ paths, ∃ breakdown, (host.runFile path).execution = .broken breakdown

namespace Host

variable {host : Host} {jobs : Int} {paths : List Text} {batch next : Batch} {worker : ℕ}

theorem sound_new (host : Host) (jobs : Int) (paths : List Text) :
    host.Sound jobs paths (Batch.new jobs paths) where
  started := Nat.zero_le _
  places := Array.size_replicate
  capacity := rfl
  held := rfl
  loads := List.nodup_nil
  owners := List.nodup_nil
  counted worker loaded := absurd loaded (Array.not_mem_empty worker)
  housed place made := absurd made (Array.not_mem_empty place)
  stands worker path named := by
    have below := (List.getElem?_eq_some_iff.mp named).1
    refine .waiting ⟨Array.not_mem_empty worker, ?_, fun _ _ found => nomatch found⟩
    exact Array.getElem?_replicate.trans (if_pos below)
  collapsed := fun never => nomatch never

/-- What is known of a worker that was started. -/
theorem Sound.exists_stands {stage : Stage} (sound : host.Sound jobs paths batch)
    (stands : batch.workers[worker]? = some stage) :
    ∃ path, paths[worker]? = some path ∧ host.Stands path batch worker (some stage) := by
  have below := (Array.getElem?_eq_some_iff.mp stands).1.trans_le sound.started
  refine ⟨paths[worker], List.getElem?_eq_getElem below, ?_⟩
  rw [← stands]
  exact sound.stands worker _ (List.getElem?_eq_getElem below)

theorem Sound.worker_lt {stage : Stage} (sound : host.Sound jobs paths batch)
    (stands : batch.workers[worker]? = some stage) : worker < paths.length :=
  (Array.getElem?_eq_some_iff.mp stands).1.trans_le sound.started

theorem Sound.fresh_of_loading (sound : host.Sound jobs paths batch)
    (stands : batch.workers[worker]? = some .loading) : batch.Fresh worker := by
  obtain ⟨path, -, standing⟩ := sound.exists_stands stands
  cases standing with
  | loading fresh => exact fresh

theorem Sound.homeless_of_loaded {program : Program} (sound : host.Sound jobs paths batch)
    (stands : batch.workers[worker]? = some (.loaded program)) : batch.Homeless worker := by
  obtain ⟨path, -, standing⟩ := sound.exists_stands stands
  cases standing with
  | loaded loads counted quiet homeless => exact homeless

/-! ### What a turn keeps -/

/-- A worker that moves to a stage with the same slots leaves the counts of a batch as they are. -/
theorem Sound.counts_move (sound : host.Sound jobs paths batch) {middle : Batch} {worker : ℕ}
    {before stage : Stage} (stands : batch.workers[worker]? = some before)
    (workers : middle.workers = batch.workers) (errors : middle.errors.size = batch.errors.size)
    (slots : middle.slots = batch.slots) (same : stage.slots = before.slots) :
    (middle.move worker stage).workers.size ≤ paths.length ∧
      (middle.move worker stage).errors.size = paths.length ∧
      (middle.move worker stage).slots.capacity = (max jobs 1).toNat ∧
      (middle.move worker stage).slots.held = (middle.move worker stage).running := by
  have count := Batch.running_move (workers ▸ stands) stage
  refine ⟨?_, errors.trans sound.places, ?_, ?_⟩
  · unfold Batch.move
    rw [Array.size_setIfInBounds, workers]
    exact sound.started
  · exact (congrArg Slots.capacity slots).trans sound.capacity
  · have held := (congrArg Slots.held slots).trans sound.held
    have running : middle.running = batch.running := by
      unfold Batch.running
      rw [workers]
    change middle.slots.held = _
    omega

/-- After one of the `Turns` each worker that has not gone holds a slot, and no other does. -/
theorem Turns.counts (turns : host.Turns paths batch next) (sound : host.Sound jobs paths batch) :
    next.workers.size ≤ paths.length ∧ next.errors.size = paths.length ∧
      next.slots.capacity = (max jobs 1).toNat ∧ next.slots.held = next.running := by
  cases turns with
  | start room free =>
    obtain ⟨capacity, held⟩ := Slots.acquire?_eq_some free
    refine ⟨?_, sound.places, capacity.trans sound.capacity, ?_⟩
    · rw [Array.size_push]
      exact room
    · unfold Batch.running
      rw [Array.countP_push, held, sound.held]
      rfl
  | reject stands => exact sound.counts_move stands rfl Array.size_setIfInBounds rfl rfl
  | load stands => exact sound.counts_move stands rfl rfl rfl rfl
  | make stands => exact sound.counts_move stands rfl rfl rfl rfl
  | step stands => exact sound.counts_move stands rfl rfl rfl rfl
  | succeed stands => exact sound.counts_move stands rfl rfl rfl rfl
  | note stands => exact sound.counts_move stands rfl Array.size_setIfInBounds rfl rfl
  | collapse => exact ⟨sound.started, sound.places, sound.capacity, sound.held⟩
  | leave stands freed =>
    obtain ⟨capacity, held⟩ := Slots.release?_eq_some freed
    have count : (batch.move _ .gone).running + 1 = batch.running :=
      Batch.running_move stands .gone
    refine ⟨?_, sound.places, capacity.trans sound.capacity, ?_⟩
    · unfold Batch.move
      rw [Array.size_setIfInBounds]
      exact sound.started
    · have before := sound.held
      change _ = (batch.move _ .gone).running
      dsimp only [Batch.move] at count ⊢
      omega

/-- What is done once for each worker has not been done for one that is fresh. -/
theorem nodup_push {Value : Type} {values : List Value} {value : Value} (distinct : values.Nodup)
    (absent : value ∉ values) : (values ++ [value]).Nodup :=
  distinct.append (List.nodup_singleton _) (by simpa using absent)

/-- A worker that stands at `Stage.loading` has not loaded its program yet. -/
theorem Sound.nodup_loads_push (sound : host.Sound jobs paths batch)
    (stands : batch.workers[worker]? = some .loading) :
    (batch.loads.push worker).toList.Nodup ∧
      ∀ other ∈ batch.loads.push worker, other < paths.length := by
  have fresh := sound.fresh_of_loading stands
  refine ⟨?_, fun other member => ?_⟩
  · rw [Array.toList_push]
    exact nodup_push sound.loads (mt Array.mem_toList_iff.mp fresh.uncounted)
  · rcases Array.mem_push.mp member with before | rfl
    · exact sound.counted other before
    · exact sound.worker_lt stands

/-- No program is loaded twice by any of the `Turns`. -/
theorem Turns.nodup_loads (turns : host.Turns paths batch next)
    (sound : host.Sound jobs paths batch) :
    next.loads.toList.Nodup ∧ ∀ worker ∈ next.loads, worker < paths.length := by
  cases turns with
  | reject stands => exact sound.nodup_loads_push stands
  | load stands => exact sound.nodup_loads_push stands
  | start | make | step | succeed | note | collapse | leave => exact ⟨sound.loads, sound.counted⟩

/-- A worker that stands at `Stage.loaded` has no machine yet. -/
theorem Sound.nodup_owners_push {program : Program} (sound : host.Sound jobs paths batch)
    (stands : batch.workers[worker]? = some (.loaded program)) (session : Session) :
    ((batch.machines.push ⟨worker, session⟩).toList.map Workplace.worker).Nodup ∧
      ∀ place ∈ batch.machines.push ⟨worker, session⟩, place.worker < paths.length := by
  have homeless := sound.homeless_of_loaded stands
  refine ⟨?_, fun place member => ?_⟩
  · rw [Array.toList_push, List.map_append]
    refine nodup_push sound.owners fun owner => ?_
    obtain ⟨⟨_, session⟩, made, rfl⟩ := List.mem_map.mp owner
    obtain ⟨machine, inside, found⟩ := List.getElem_of_mem made
    exact homeless machine session (Array.getElem?_eq_some_iff.mpr ⟨inside, found⟩)
  · rcases Array.mem_push.mp member with before | rfl
    · exact sound.housed place before
    · exact sound.worker_lt stands

/-- A machine on which something happens stays the machine of its worker. -/
theorem Sound.nodup_owners_set {machine : ℕ} {place : Workplace}
    (sound : host.Sound jobs paths batch) (found : batch.machines[machine]? = some place)
    (session : Session) :
    ((batch.machines.setIfInBounds machine { place with session }).toList.map
        Workplace.worker).Nodup ∧
      ∀ other ∈ batch.machines.setIfInBounds machine { place with session },
        other.worker < paths.length := by
  obtain ⟨inside, same⟩ := Array.getElem?_eq_some_iff.mp found
  refine ⟨?_, fun other member => ?_⟩
  · have room : machine < (batch.machines.toList.map Workplace.worker).length := by
      rwa [List.length_map, Array.length_toList]
    have owner : (batch.machines.toList.map Workplace.worker)[machine] = place.worker := by
      rw [List.getElem_map, Array.getElem_toList, same]
    have kept : (batch.machines.toList.map Workplace.worker).set machine place.worker =
        batch.machines.toList.map Workplace.worker := by
      rw [← owner, List.set_getElem_self]
    rw [Array.toList_setIfInBounds, List.map_set, kept]
    exact sound.owners
  · rcases Array.mem_or_eq_of_mem_setIfInBounds member with before | rfl
    · exact sound.housed other before
    · exact sound.housed place (Array.mem_of_getElem? found)

/-- No two machines are made for one worker by any of the `Turns`. -/
theorem Turns.nodup_owners (turns : host.Turns paths batch next)
    (sound : host.Sound jobs paths batch) :
    (next.machines.toList.map Workplace.worker).Nodup ∧
      ∀ place ∈ next.machines, place.worker < paths.length := by
  cases turns with
  | make stands => exact sound.nodup_owners_push stands _
  | step stands going found => exact sound.nodup_owners_set found _
  | start | reject | load | succeed | note | collapse | leave => exact ⟨sound.owners, sound.housed⟩

/-- A worker whose execution has ended has what its program gives alone, `runFile`. -/
theorem Sound.executed {machine : ℕ} {program : Program} {execution : Execution}
    (sound : host.Sound jobs paths batch)
    (stands : batch.workers[worker]? = some (.executing program machine (.ended execution))) :
    ∃ path, paths[worker]? = some path ∧ host.load path = .ok program ∧
      (host.runFile path).execution = execution ∧
      batch.machines[machine]? = some ⟨worker, (host.runFile path).session⟩ ∧
      worker ∈ batch.loads ∧ batch.errors[worker]? = some none := by
  obtain ⟨path, named, standing⟩ := sound.exists_stands stands
  cases standing with
  | @executing _ _ _ session loads counted quiet made ends =>
    have alone : (session, execution) = host.execute program host.newSession := ends
    have ran := runFile_of_load loads
    rw [← alone] at ran
    exact ⟨path, named, loads, by rw [ran], by rw [ran]; exact made, counted, quiet⟩

/-- What `Host.Stands` says holds of the worker of each program. -/
def EachStands (host : Host) (paths : List Text) (batch : Batch) : Prop :=
  ∀ (worker : ℕ) (path : Text), paths[worker]? = some path →
    host.Stands path batch worker batch.workers[worker]?

/-- One worker moves, and the batch is `SameFor` all others. -/
theorem Sound.eachStands_of_others (sound : host.Sound jobs paths batch) (worker : ℕ)
    (others : ∀ other ≠ worker, Batch.SameFor other batch next)
    (own : ∀ path, paths[worker]? = some path →
      host.Stands path next worker next.workers[worker]?) : host.EachStands paths next := by
  intro other path named
  by_cases same : other = worker
  · subst same
    exact own path named
  · have kept := others other same
    rw [kept.stage]
    exact (sound.stands other path named).congr kept

/-- A worker moves to a stage, and what holds of it there is all that is left to show. -/
theorem Sound.eachStands_of_move {middle : Batch} {before stage : Stage}
    (sound : host.Sound jobs paths batch) (stands : batch.workers[worker]? = some before)
    (workers : middle.workers = batch.workers)
    (others : ∀ other ≠ worker, Batch.SameFor other batch middle)
    (own : ∀ path, paths[worker]? = some path →
      host.Stands path (middle.move worker stage) worker (some stage)) :
    host.EachStands paths (middle.move worker stage) := by
  refine sound.eachStands_of_others worker (fun other apart => (others other apart).trans
    (Batch.sameFor_move apart stage)) fun path named => ?_
  have below : worker < middle.workers.size :=
    workers ▸ (Array.getElem?_eq_some_iff.mp stands).1
  unfold Batch.move
  rw [Array.getElem?_setIfInBounds_self_of_lt below]
  exact own path named

theorem Sound.eachStands_start (sound : host.Sound jobs paths batch) (slots : Slots) :
    host.EachStands paths { batch with slots, workers := batch.workers.push .loading } := by
  refine sound.eachStands_of_others batch.workers.size
    (fun other apart => ⟨?_, rfl, .rfl, fun _ _ => .rfl⟩) fun path named => ?_
  · rw [Array.getElem?_push, if_neg apart]
  · have standing := sound.stands _ path named
    rw [Array.getElem?_eq_none (Nat.le_refl _)] at standing
    cases standing with
    | waiting fresh =>
      rw [Array.getElem?_push_size]
      exact .loading ⟨fresh.uncounted, fresh.quiet, fresh.homeless⟩

theorem Sound.eachStands_reject {path : Text} {error : LoadError}
    (sound : host.Sound jobs paths batch) (stands : batch.workers[worker]? = some .loading)
    (named : paths[worker]? = some path) (fails : host.load path = .error error) :
    host.EachStands paths
      (({ batch with loads := batch.loads.push worker }.fail worker (.load error)).move worker
        .leaving) := by
  have fresh := sound.fresh_of_loading stands
  refine sound.eachStands_of_move stands rfl (fun other apart =>
    (Batch.sameFor_load apart).trans (Batch.sameFor_fail apart _)) fun other same => ?_
  cases named.symm.trans same
  have execution := congrArg BatchEntry.execution (runFile_of_error fails)
  have isError : (host.runFile path).error? = some (.load error) := by
    unfold BatchEntry.error?
    rw [execution]
  refine .leaving ⟨Array.mem_push_self, .inr ⟨_, execution⟩, ?_, fun program loads => ?_,
    fun machine session found => absurd found (fresh.homeless machine session)⟩
  · rw [isError]
    exact Array.getElem?_setIfInBounds_self_of_lt (Array.getElem?_eq_some_iff.mp fresh.quiet).1
  · cases fails.symm.trans loads

theorem Sound.eachStands_load {path : Text} {program : Program}
    (sound : host.Sound jobs paths batch) (stands : batch.workers[worker]? = some .loading)
    (named : paths[worker]? = some path) (loads : host.load path = .ok program) :
    host.EachStands paths
      ({ batch with loads := batch.loads.push worker }.move worker (.loaded program)) := by
  have fresh := sound.fresh_of_loading stands
  refine sound.eachStands_of_move stands rfl (fun other apart => Batch.sameFor_load apart)
    fun other same => ?_
  cases named.symm.trans same
  exact .loaded loads Array.mem_push_self fresh.quiet fresh.homeless

theorem Sound.eachStands_make {program : Program} (sound : host.Sound jobs paths batch)
    (stands : batch.workers[worker]? = some (.loaded program)) :
    host.EachStands paths
      ({ batch with
          machines := batch.machines.push ⟨worker, (host.begin host.newSession).1⟩ }.move worker
        (.executing program batch.machines.size (host.begin host.newSession).2)) := by
  refine sound.eachStands_of_move stands rfl (fun other apart => Batch.sameFor_make apart _)
    fun path named => ?_
  have standing := sound.stands worker path named
  rw [stands] at standing
  cases standing with
  | loaded loads counted quiet homeless =>
    exact .executing loads counted quiet Array.getElem?_push_size
      (host.finish_begin program host.newSession)

theorem Sound.eachStands_step {machine : ℕ} {program : Program} {phase : Phase}
    {place : Workplace} (sound : host.Sound jobs paths batch)
    (stands : batch.workers[worker]? = some (.executing program machine phase))
    (found : batch.machines[machine]? = some place) :
    host.EachStands paths
      ({ batch with
          machines := batch.machines.setIfInBounds machine
            { place with session := (host.step program place.session phase).1 } }.move worker
        (.executing program machine (host.step program place.session phase).2)) := by
  have own : place.worker = worker := by
    obtain ⟨path, -, standing⟩ := sound.exists_stands stands
    cases standing with
    | executing loads counted quiet made ends =>
      cases found.symm.trans made
      rfl
  subst own
  refine sound.eachStands_of_move stands rfl (fun other apart => Batch.sameFor_work found apart _)
    fun path named => ?_
  have standing := sound.stands place.worker path named
  rw [stands] at standing
  cases standing with
  | executing loads counted quiet made ends =>
    have isSession := congrArg Workplace.session (Option.some.inj (found.symm.trans made))
    dsimp only at isSession
    subst isSession
    refine .executing loads counted quiet ?_ ((host.finish_step program _ phase).trans ends)
    exact Array.getElem?_setIfInBounds_self_of_lt (Array.getElem?_eq_some_iff.mp found).1

theorem Sound.eachStands_succeed {machine : ℕ} {program : Program} {cell : CellId}
    (sound : host.Sound jobs paths batch)
    (stands : batch.workers[worker]? =
      some (.executing program machine (.ended (.value cell)))) :
    host.EachStands paths (batch.move worker .leaving) := by
  obtain ⟨path, named, loads, execution, made, counted, quiet⟩ := sound.executed stands
  refine sound.eachStands_of_move stands rfl
    (fun other apart => ⟨rfl, rfl, .rfl, fun _ _ => .rfl⟩) fun other same => ?_
  cases named.symm.trans same
  refine .leaving ⟨counted, .inl ⟨cell, execution⟩, ?_, fun _ _ => ⟨machine, made⟩,
    fun _ _ _ => ⟨program, loads⟩⟩
  unfold BatchEntry.error?
  rw [execution]
  exact quiet

theorem Sound.eachStands_note {machine : ℕ} {program : Program} {error : ExecutionError}
    (sound : host.Sound jobs paths batch)
    (stands : batch.workers[worker]? =
      some (.executing program machine (.ended (.failed error)))) :
    host.EachStands paths ((batch.fail worker error).move worker .leaving) := by
  obtain ⟨path, named, loads, execution, made, counted, quiet⟩ := sound.executed stands
  refine sound.eachStands_of_move stands rfl (fun other apart => Batch.sameFor_fail apart _)
    fun other same => ?_
  cases named.symm.trans same
  refine .leaving ⟨counted, .inr ⟨error, execution⟩, ?_, fun _ _ => ⟨machine, made⟩,
    fun _ _ _ => ⟨program, loads⟩⟩
  unfold BatchEntry.error?
  rw [execution]
  exact Array.getElem?_setIfInBounds_self_of_lt (Array.getElem?_eq_some_iff.mp quiet).1

theorem Sound.eachStands_leave (sound : host.Sound jobs paths batch)
    (stands : batch.workers[worker]? = some .leaving) (slots : Slots) :
    host.EachStands paths ({ batch with slots }.move worker .gone) := by
  refine sound.eachStands_of_move stands rfl
    (fun other apart => ⟨rfl, rfl, .rfl, fun _ _ => .rfl⟩) fun path named => ?_
  have standing := sound.stands _ path named
  rw [stands] at standing
  cases standing with
  | leaving done => exact .gone ⟨done.counted, done.ends, done.error, done.machine, done.owner⟩

/-- After one of the `Turns` each worker stands as it should: the one that it moves, and all others.
-/
theorem Turns.eachStands (turns : host.Turns paths batch next)
    (sound : host.Sound jobs paths batch) : host.EachStands paths next := by
  cases turns with
  | start => exact sound.eachStands_start _
  | reject stands named fails => exact sound.eachStands_reject stands named fails
  | load stands named loads => exact sound.eachStands_load stands named loads
  | make stands => exact sound.eachStands_make stands
  | step stands going found => exact sound.eachStands_step stands found
  | succeed stands => exact sound.eachStands_succeed stands
  | note stands => exact sound.eachStands_note stands
  | collapse =>
    exact fun worker path named =>
      (sound.stands worker path named).congr ⟨rfl, rfl, .rfl, fun _ _ => .rfl⟩
  | leave stands => exact sound.eachStands_leave stands _

/-- A batch that is `Sound` is so after each of the `Turns`. -/
theorem Sound.turns (sound : host.Sound jobs paths batch) (turns : host.Turns paths batch next) :
    host.Sound jobs paths next := by
  obtain ⟨started, places, capacity, held⟩ := turns.counts sound
  obtain ⟨loads, counted⟩ := turns.nodup_loads sound
  obtain ⟨owners, housed⟩ := turns.nodup_owners sound
  refine ⟨started, places, capacity, held, loads, owners, counted, housed,
    turns.eachStands sound, ?_⟩
  cases turns with
  | collapse stands =>
    intro _
    obtain ⟨path, named, -, execution, -⟩ := sound.executed stands
    exact ⟨path, List.mem_of_getElem? named, _, execution⟩
  | _ => exact sound.collapsed

end Host

end ScriptEngine
