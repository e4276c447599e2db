/-
This file says what batches come to. A batch makes only so many turns, and as long as it has not
returned and no machine was unable to go on, one more is possible, unless a program never ends. So
whichever turns are taken, a batch of programs that end with a value or an error returns, and then
each of them was loaded once and executed once on a machine of its own, and the errors are those
that running the programs one after another gives.
-/

import ScriptEngine.Proofs.Batch.Scheduling

namespace ScriptEngine

/-- The path of a program that has failed, and its error. -/
def BatchEntry.failure? (entry : BatchEntry) : Option (Text × ExecutionError) :=
  entry.error?.map (entry.path, ·)

namespace Host

/-- Whether a worker has a program to execute. -/
def loads (host : Host) (paths : List Text) (worker : ℕ) : Bool :=
  paths[worker]?.any fun path => (host.load path).isOk

variable {host : Host} {jobs : Int} {paths : List Text} {batch next last : Batch} {worker : ℕ}

/-! ### There are only so many turns -/

/-- How many steps the execution of a program takes at most. -/
def longest (host : Host) : ℕ :=
  (Phase.between (host.settings.preload.map host.load)).left host.fuel

/-- How many turns a worker takes at most from a stage on, its start included. -/
def turnsLeft (host : Host) : Option Stage → ℕ
  | none => host.longest + 5
  | some .loading => host.longest + 4
  | some (.loaded _) => host.longest + 3
  | some (.executing _ _ phase) => phase.left host.fuel + 2
  | some .leaving => 1
  | some .gone => 0

/-- How many turns a batch takes at most. -/
def left (host : Host) (paths : List Text) (batch : Batch) : ℕ :=
  (if batch.collapsed then 0 else 1) +
    ∑ worker ∈ Finset.range paths.length, host.turnsLeft batch.workers[worker]?

/-- When one worker has less to do and the others have as much as before, less is left to do. -/
theorem left_lt (below : worker < paths.length) (collapsed : next.collapsed = batch.collapsed)
    (others : ∀ other ≠ worker, next.workers[other]? = batch.workers[other]?)
    (less : host.turnsLeft next.workers[worker]? < host.turnsLeft batch.workers[worker]?) :
    host.left paths next < host.left paths batch := by
  unfold left
  rw [collapsed]
  refine Nat.add_lt_add_left (Finset.sum_lt_sum (fun other _ => ?_)
    ⟨worker, Finset.mem_range.mpr below, less⟩) _
  by_cases same : other = worker
  · rw [same]
    exact less.le
  · rw [others other same]

/-- Each of the `Turns` leaves less to do. -/
theorem Turns.left_lt (turns : host.Turns paths batch next) (sound : host.Sound jobs paths batch)
    (standing : batch.collapsed = false) : host.left paths next < host.left paths batch := by
  have moved {middle : Batch} {worker : ℕ} {before stage : Stage}
      (stands : batch.workers[worker]? = some before) (workers : middle.workers = batch.workers)
      (collapsed : middle.collapsed = batch.collapsed)
      (less : host.turnsLeft (some stage) < host.turnsLeft (some before)) :
      host.left paths (middle.move worker stage) < host.left paths batch := by
    refine Host.left_lt (sound.worker_lt stands) collapsed (fun other apart => ?_) ?_
    · unfold Batch.move
      rw [Array.getElem?_setIfInBounds_ne apart.symm, workers]
    · have below := (Array.getElem?_eq_some_iff.mp stands).1
      unfold Batch.move
      rwa [Array.getElem?_setIfInBounds_self_of_lt (workers ▸ below), stands]
  cases turns with
  | start room free =>
    refine Host.left_lt room rfl (fun other apart => ?_) ?_
    · rw [Array.getElem?_push, if_neg apart]
    · rw [Array.getElem?_push_size, Array.getElem?_eq_none (Nat.le_refl _)]
      exact Nat.lt_succ_self _
  | reject stands => exact moved stands rfl rfl (Nat.lt_add_left _ (show 1 < 4 by decide))
  | load stands => exact moved stands rfl rfl (Nat.lt_succ_self _)
  | make stands => exact moved stands rfl rfl (Nat.lt_succ_self _)
  | step stands going found =>
    exact moved stands rfl rfl (Nat.add_lt_add_right (host.left_step_lt _ _ going) 2)
  | succeed stands => exact moved stands rfl rfl (Nat.lt_succ_self _)
  | note stands => exact moved stands rfl rfl (Nat.lt_succ_self _)
  | collapse stands =>
    unfold left
    rw [standing]
    exact Nat.add_lt_add_right Nat.zero_lt_one _
  | leave stands freed => exact moved stands rfl rfl Nat.zero_lt_one

/-- A batch that is `Sound` is so after any turns, and each of them has `left` less to do. -/
theorem sound_follow {schedule : List Turn} (sound : host.Sound jobs paths batch)
    (followed : host.follow paths schedule batch = some last) :
    host.Sound jobs paths last ∧
      schedule.length + host.left paths last ≤ host.left paths batch := by
  induction schedule generalizing batch with
  | nil =>
    cases followed
    exact ⟨sound, (Nat.zero_add _).le⟩
  | cons turn rest inductionHypothesis =>
    obtain ⟨next, turned, followed⟩ := Option.bind_eq_some_iff.mp followed
    obtain ⟨standing, turns⟩ := turns_of_turn turned
    obtain ⟨soundLast, fewer⟩ := inductionHypothesis (sound.turns turns) followed
    have less := turns.left_lt sound standing
    refine ⟨soundLast, ?_⟩
    rw [List.length_cons]
    omega

theorem left_new (host : Host) (jobs : Int) (paths : List Text) :
    host.left paths (Batch.new jobs paths) = paths.length * (host.longest + 5) + 1 := by
  have each : ∀ worker ∈ Finset.range paths.length,
      host.turnsLeft (Batch.new jobs paths).workers[worker]? = host.longest + 5 :=
    fun _ _ => rfl
  unfold left
  rw [Finset.sum_congr rfl each, Finset.sum_const, Finset.card_range, smul_eq_mul, Nat.add_comm]
  rfl

/-! ### A turn is possible until the batch returns -/

theorem isSome_turn_work {stage : Stage} (standing : batch.collapsed = false)
    (stands : batch.workers[worker]? = some stage)
    (possible : (host.work paths batch worker stage).isSome) :
    (host.turn paths batch (.work worker)).isSome := by
  unfold Host.turn
  dsimp only
  rw [if_neg (by rw [standing]; exact Bool.false_ne_true), stands]
  exact possible

/-- A worker of a `Sound` batch that has not gone has a turn, unless its program does not end. -/
theorem Sound.isSome_work {stage : Stage} (sound : host.Sound jobs paths batch)
    (ending : ∀ path ∈ paths, (host.runFile path).execution ≠ .outOfFuel)
    (stands : batch.workers[worker]? = some stage) (present : stage.isGone = false) :
    (host.work paths batch worker stage).isSome := by
  obtain ⟨path, named, standing⟩ := sound.exists_stands stands
  cases standing with
  | loading fresh =>
    unfold work
    dsimp only
    rw [named]
    rw [Option.bind_eq_bind, Option.bind_some]
    cases host.load path <;> rfl
  | loaded loads counted quiet homeless => rfl
  | @executing program machine phase session loads counted quiet made ends =>
    cases phase with
    | between preload =>
      unfold work
      dsimp only
      rw [made]
      rfl
    | running rest? fuel pending =>
      unfold work
      dsimp only
      rw [made]
      rfl
    | ended execution =>
      cases execution with
      | value cell => rfl
      | failed error => rfl
      | broken breakdown => rfl
      | outOfFuel =>
        obtain ⟨path, named, -, execution, -⟩ := sound.executed stands
        exact absurd execution (ending path (List.mem_of_getElem? named))
  | leaving done =>
    have running : 0 < batch.running :=
      Array.countP_pos_iff.mpr ⟨.leaving, Array.mem_of_getElem? stands, rfl⟩
    have held : 0 < batch.slots.held := by rwa [sound.held]
    unfold work Slots.release?
    dsimp only
    rw [if_pos held]
    rfl
  | gone done => cases present

theorem Sound.isSome_start (sound : host.Sound jobs paths batch)
    (standing : batch.collapsed = false) (room : batch.workers.size < paths.length)
    (gone : ∀ stage ∈ batch.workers, stage.isGone = true) :
    (host.turn paths batch .start).isSome := by
  have running : batch.running = 0 := by
    refine Array.countP_eq_zero.mpr fun stage member => ?_
    rw [gone stage member]
    exact Bool.false_ne_true
  have free : batch.slots.held < batch.slots.capacity := by
    rw [sound.held, running]
    exact batch.slots.capacity_pos
  unfold Host.turn Slots.acquire?
  dsimp only
  rw [if_neg (not_or.mpr ⟨by rw [standing]; exact Bool.false_ne_true, Nat.not_le.mpr room⟩),
    dif_pos free]
  rfl

theorem eq_gone_of_isGone {stage : Stage} (gone : stage.isGone = true) : stage = .gone := by
  cases stage with
  | gone => rfl
  | loading | loaded | executing | leaving => cases gone

theorem returned_of_isGone (standing : batch.collapsed = false)
    (all : batch.workers.size = paths.length)
    (gone : ∀ stage ∈ batch.workers, stage.isGone = true) : batch.Returned paths :=
  ⟨standing, Array.eq_replicate_iff.mpr
    ⟨all, fun stage member => eq_gone_of_isGone (gone stage member)⟩⟩

theorem turn_of_collapsed (collapsed : batch.collapsed = true) (turn : Turn) :
    host.turn paths batch turn = none := by
  cases turn with
  | start => exact if_pos (.inl collapsed)
  | work worker => exact if_pos collapsed

/-- As long as a `Sound` batch has not returned, and has not collapsed, a turn is possible. -/
theorem Sound.exists_turn (sound : host.Sound jobs paths batch)
    (ending : ∀ path ∈ paths, (host.runFile path).execution ≠ .outOfFuel)
    (standing : batch.collapsed = false) (unreturned : ¬ batch.Returned paths) :
    ∃ turn, (host.turn paths batch turn).isSome := by
  by_cases gone : ∀ stage ∈ batch.workers, stage.isGone = true
  · refine ⟨.start, sound.isSome_start standing ?_ gone⟩
    exact sound.started.lt_of_ne fun all => unreturned (returned_of_isGone standing all gone)
  · push Not at gone
    obtain ⟨stage, member, present⟩ := gone
    obtain ⟨worker, stands⟩ := Array.getElem?_of_mem member
    exact ⟨.work worker, isSome_turn_work standing stands
      (sound.isSome_work ending stands (Bool.not_eq_true _ ▸ present))⟩

/-! ### What a batch gives that has returned -/

/-- What has become of a batch that has returned: each program was loaded by one worker, and each
that could be loaded was executed on a machine made for it, which has come to what the program comes
to alone; and the errors are those that running the programs one after another gives, so that there
is none exactly if no program has failed. -/
structure Returns (host : Host) (paths : List Text) (batch : Batch) : Prop where
  loaded : batch.loads.toList.Perm (List.range paths.length)
  made : (batch.machines.toList.map Workplace.worker).Perm
    ((List.range paths.length).filter (host.loads paths))
  executed : ∀ place ∈ batch.machines,
    paths[place.worker]?.map (fun path => (host.runFile path).session) = some place.session
  joined : batch.joined paths = (host.runBatch paths).filterMap BatchEntry.failure?
  succeeds : batch.joined paths = [] ↔ ∀ entry ∈ host.runBatch paths, entry.failed = false

theorem Sound.done_of_returned (sound : host.Sound jobs paths batch)
    (returned : batch.Returned paths) {path : Text} (named : paths[worker]? = some path) :
    host.Done path batch worker := by
  have below := (List.getElem?_eq_some_iff.mp named).1
  have standing := sound.stands worker path named
  rw [returned.2, Array.getElem?_replicate, if_pos below] at standing
  cases standing with
  | gone done => exact done

theorem Sound.errors_of_returned (sound : host.Sound jobs paths batch)
    (returned : batch.Returned paths) :
    batch.errors.toList = paths.map fun path => (host.runFile path).error? := by
  refine List.ext_getElem? fun worker => ?_
  rw [Array.getElem?_toList, List.getElem?_map]
  cases named : paths[worker]? with
  | none =>
    have above : paths.length ≤ worker := List.getElem?_eq_none_iff.mp named
    exact Array.getElem?_eq_none (sound.places ▸ above)
  | some path => exact (sound.done_of_returned returned named).error

theorem Sound.joined_of_returned (sound : host.Sound jobs paths batch)
    (returned : batch.Returned paths) :
    batch.joined paths = (host.runBatch paths).filterMap BatchEntry.failure? := by
  have zipped : paths.zip (paths.map fun path => (host.runFile path).error?) =
      paths.map fun path => (path, (host.runFile path).error?) := by
    rw [List.zip_map_right, List.zip_eq_zipWith, List.zipWith_self, List.map_map]
    rfl
  unfold Batch.joined runBatch
  rw [sound.errors_of_returned returned, zipped, List.filterMap_map, List.filterMap_map]
  refine List.filterMap_congr fun path _ => ?_
  have alone : (host.runFile path).failure? = (host.runFile path).error?.map (path, ·) := by
    unfold BatchEntry.failure?
    rw [path_runFile]
  exact alone.symm

/-- A program that `Ends` has failed exactly if it has an error. -/
theorem failure?_eq_none_iff {entry : BatchEntry} (ends : entry.Ends) :
    entry.failure? = none ↔ entry.failed = false := by
  unfold BatchEntry.failure? BatchEntry.error? BatchEntry.failed
  rcases ends with ⟨cell, execution⟩ | ⟨error, execution⟩ <;> simp [execution]

/-- In a batch that has `Returned` each program is loaded by one worker, and each worker loads its
program. -/
theorem Sound.loads_of_returned (sound : host.Sound jobs paths batch)
    (returned : batch.Returned paths) : batch.loads.toList.Perm (List.range paths.length) := by
  refine (List.perm_ext_iff_of_nodup sound.loads List.nodup_range).mpr fun worker => ?_
  rw [Array.mem_toList_iff, List.mem_range]
  refine ⟨sound.counted worker, fun below => ?_⟩
  exact (sound.done_of_returned returned (List.getElem?_eq_getElem below)).counted

/-- In a batch that has `Returned` the machines are one for each program that could be loaded. -/
theorem Sound.owners_of_returned (sound : host.Sound jobs paths batch)
    (returned : batch.Returned paths) :
    (batch.machines.toList.map Workplace.worker).Perm
      ((List.range paths.length).filter (host.loads paths)) := by
  refine (List.perm_ext_iff_of_nodup sound.owners (List.nodup_range.filter _)).mpr
    fun worker => ?_
  rw [List.mem_map, List.mem_filter, List.mem_range]
  constructor
  · rintro ⟨⟨_, session⟩, made, rfl⟩
    have below := sound.housed _ (Array.mem_toList_iff.mp made)
    have named := List.getElem?_eq_getElem below
    obtain ⟨machine, found⟩ := List.getElem?_of_mem made
    obtain ⟨program, loads⟩ := (sound.done_of_returned returned named).owner machine session
      (Array.getElem?_toList.symm.trans found)
    refine ⟨below, ?_⟩
    unfold Host.loads
    dsimp only at named loads ⊢
    rw [named, Option.any_some, loads]
    rfl
  · rintro ⟨below, loads⟩
    have named := List.getElem?_eq_getElem below
    unfold Host.loads at loads
    rw [named, Option.any_some] at loads
    cases isProgram : host.load paths[worker] with
    | error error =>
      rw [isProgram] at loads
      cases loads
    | ok program =>
      obtain ⟨machine, found⟩ :=
        (sound.done_of_returned returned named).machine program isProgram
      exact ⟨_, Array.mem_toList_iff.mpr (Array.mem_of_getElem? found), rfl⟩

/-- In a batch that has `Returned` the machine of a worker has come to what executing its program
alone, by `runFile`, comes to. -/
theorem Sound.session_of_returned (sound : host.Sound jobs paths batch)
    (returned : batch.Returned paths) {place : Workplace} (made : place ∈ batch.machines) :
    paths[place.worker]?.map (fun path => (host.runFile path).session) = some place.session := by
  have below := sound.housed place made
  have named := List.getElem?_eq_getElem below
  have done := sound.done_of_returned returned named
  obtain ⟨machine, found⟩ := Array.getElem?_of_mem made
  obtain ⟨program, loads⟩ := done.owner machine place.session found
  obtain ⟨other, own⟩ := done.machine program loads
  have inside : machine < (batch.machines.toList.map Workplace.worker).length := by
    rw [List.length_map, Array.length_toList]
    exact (Array.getElem?_eq_some_iff.mp found).1
  -- Two machines of one worker are one machine.
  have same : machine = other := by
    refine (List.getElem?_inj inside sound.owners).mp ?_
    rw [List.getElem?_map, List.getElem?_map, Array.getElem?_toList, Array.getElem?_toList, found,
      own]
    rfl
  subst same
  rw [named, Option.map_some]
  exact congrArg (Option.map Workplace.session) (own.symm.trans found)

theorem Sound.returns (sound : host.Sound jobs paths batch) (returned : batch.Returned paths) :
    host.Returns paths batch where
  loaded := sound.loads_of_returned returned
  made := sound.owners_of_returned returned
  executed _ made := sound.session_of_returned returned made
  joined := sound.joined_of_returned returned
  succeeds := by
    rw [sound.joined_of_returned returned, List.filterMap_eq_nil_iff]
    refine forall₂_congr fun entry member => failure?_eq_none_iff ?_
    obtain ⟨path, listed, rfl⟩ := List.mem_map.mp member
    obtain ⟨worker, named⟩ := List.getElem?_of_mem listed
    exact (sound.done_of_returned returned named).ends

/-- A batch in which no turn is possible any more has `Returned` exactly if each program `Ends`,
giving a value or an error. -/
theorem Sound.returned_iff (sound : host.Sound jobs paths batch)
    (ending : ∀ path ∈ paths, (host.runFile path).execution ≠ .outOfFuel)
    (stuck : ∀ turn, host.turn paths batch turn = none) :
    batch.Returned paths ↔ ∀ path ∈ paths, (host.runFile path).Ends := by
  constructor
  · intro returned path member
    obtain ⟨worker, named⟩ := List.getElem?_of_mem member
    exact (sound.done_of_returned returned named).ends
  · intro ends
    by_contra unreturned
    cases standing : batch.collapsed with
    | false =>
      obtain ⟨turn, possible⟩ := sound.exists_turn ending standing unreturned
      rw [stuck turn] at possible
      cases possible
    | true =>
      obtain ⟨path, member, breakdown, broken⟩ := sound.collapsed standing
      rcases ends path member with ⟨cell, execution⟩ | ⟨error, execution⟩ <;>
        cases broken.symm.trans execution

/-! ### Batches do not depend on their schedules -/

/-- Whatever turns the workers of a batch have taken, by `Host.follow`, no more of them run than
there are jobs, and there were only so many turns. If the batch has `Batch.Returned`, then so it
`Host.Returns`: each program was loaded and executed once, on a machine of its own, and the errors
are those of the programs run one after another. Unless a program never ends, turns are possible
until the batch has returned, or has broken down with a program that does, and it returns exactly if
no program breaks down, that is, if every run of a file `Ends`. -/
theorem follow_batch {schedule : List Turn}
    (followed : host.follow paths schedule (Batch.new jobs paths) = some batch) :
    (batch.running : Int) ≤ max jobs 1 ∧
      schedule.length ≤ paths.length * (host.longest + 5) + 1 ∧
      (batch.Returned paths → host.Returns paths batch) ∧
      (batch.collapsed = true →
        ∃ path ∈ paths, ∃ breakdown, (host.runFile path).execution = .broken breakdown) ∧
      ((∀ path ∈ paths, (host.runFile path).execution ≠ .outOfFuel) →
        (∀ turn, host.turn paths batch turn = none) →
        (batch.Returned paths ↔ ∀ path ∈ paths, (host.runFile path).Ends)) := by
  obtain ⟨sound, fewer⟩ := sound_follow (host.sound_new jobs paths) followed
  rw [left_new] at fewer
  refine ⟨?_, (Nat.le_add_right ..).trans fewer, sound.returns, sound.collapsed,
    sound.returned_iff⟩
  have room := batch.slots.held_le
  rw [sound.held, sound.capacity] at room
  omega

/-- A host with a program that gives a value, one that fails, and one that breaks the machine
down. -/
def batchHost : Host where
  settings := {}
  content path :=
    if path = "good" then some "push 1"
    else if path = "bad" then some "fetch x"
    else if path = "broken" then
      some <| Text.ofString ".entry start\nf: pushthis\npushthis\nret\nstart: fetch invoke\n" ++
        Text.ofString "pushim\npush func f() @f\ncall 1"
    else none
  fuel := 10

/-- Two workers take turns, the second one is done first, and a third follows it. -/
def sideBySide : List Turn :=
  [.start, .start, .work 1, .work 0, .work 1, .work 0, .work 1, .work 0, .work 1, .work 0, .work 1,
    .work 0, .work 1, .start, .work 2, .work 0, .work 2, .work 0]

theorem follow_batch_sideBySide :
    ∃ batch, batchHost.follow ["good", "bad", "none"] sideBySide
        (Batch.new 2 ["good", "bad", "none"]) = some batch ∧
      batch.loads = #[1, 0, 2] ∧ batch.Returned ["good", "bad", "none"] ∧
      batchHost.Returns ["good", "bad", "none"] batch ∧
      (batch.joined ["good", "bad", "none"]).map Prod.fst = [("bad" : Text), ("none" : Text)] := by
  have ends : (batchHost.follow ["good", "bad", "none"] sideBySide
      (Batch.new 2 ["good", "bad", "none"])).any (fun batch => batch.loads = #[1, 0, 2] ∧
        batch.collapsed = false ∧ batch.workers.size = 3 ∧
        (∀ stage ∈ batch.workers, stage.isGone = true) ∧
        (batch.joined ["good", "bad", "none"]).map Prod.fst =
          [("bad" : Text), ("none" : Text)]) := by
    decide +kernel
  obtain ⟨batch, followed, holds⟩ := (Option.any_eq_true ..).mp ends
  obtain ⟨loads, standing, all, gone, joined⟩ := of_decide_eq_true holds
  have returned : batch.Returned ["good", "bad", "none"] := returned_of_isGone standing all gone
  exact ⟨batch, followed, loads, returned, (follow_batch followed).2.2.1 returned, joined⟩

/-- A batch of the `batchHost` that has broken down does not return, and programs that come later
are not loaded. -/
theorem follow_breaksDown :
    ∃ schedule batch,
      batchHost.follow ["broken", "good"] schedule (Batch.new 1 ["broken", "good"]) = some batch ∧
      (∀ turn, batchHost.turn ["broken", "good"] batch turn = none) ∧
      ¬ batch.Returned ["broken", "good"] ∧ batch.loads = #[0] := by
  have ends : (batchHost.follow ["broken", "good"] (.start :: List.replicate 12 (.work 0))
      (Batch.new 1 ["broken", "good"])).any
        (fun batch => batch.collapsed = true ∧ batch.loads = #[0]) := by
    decide +kernel
  obtain ⟨batch, followed, holds⟩ := (Option.any_eq_true ..).mp ends
  obtain ⟨collapsed, loads⟩ := of_decide_eq_true holds
  refine ⟨_, batch, followed, turn_of_collapsed collapsed, fun returned => ?_, loads⟩
  cases collapsed.symm.trans returned.1

end Host

end ScriptEngine
