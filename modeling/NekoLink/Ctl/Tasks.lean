import NekoLink.Ctl.Reload
import NekoLink.Foundations.Runs

/-!
# The tasks of the instances

The start of `main` and its SIGHUP loop step by step, together with the tasks they spawn. A task
runs `run_instance` again and again until it sees its token cancelled; the loop of a reload waits
for the task of a changed interface, and does not wait for that of a removed one. The tables are
locked from the first configuration of a pass to the last.

* `Main.step` is one step of the loop, of a task, or a signal.
* `sound_of_reaches`: when the configurations name no interface twice, and no interface comes back
  while a task of it is alive, every interface has one task alive, and the tasks that are not
  cancelled are those of the handles.
* **`one_task_per_interface`** reads the claim off it.
* `pass_refines`: the table a pass leaves is that of `Reload`.
-/

namespace NekoLink.Ctl

open Wire Noise Device

/-- Where the loop of a task is. -/
inductive Phase
  /-- Before it polls its `select!` -/
  | polling
  /-- In `run_instance`, up to the end of its clean-up -/
  | running
  /-- In the five seconds after it -/
  | sleeping
  | ended
  deriving DecidableEq

structure InstanceTask where
  iface : String
  /-- Its token is cancelled. -/
  cancelled : Bool
  phase : Phase
  deriving DecidableEq

inductive TaskStep
  | start
  | finish
  | wake
  | stop

/-- One step of a task. The branches of `select!` are polled in any order, so a run can start after
the token is cancelled; a run is dropped when the other branch is taken. -/
def InstanceTask.step (t : InstanceTask) : TaskStep → Option InstanceTask
  | .start => if t.phase = .polling then some { t with phase := .running } else none
  | .finish => if t.phase = .running then some { t with phase := .sleeping } else none
  | .wake => if t.phase = .sleeping then some { t with phase := .polling } else none
  | .stop => if t.cancelled ∧ t.phase ≠ .ended then some { t with phase := .ended } else none

/-- A task keeps its interface and its token, and an ended one does nothing more. -/
theorem InstanceTask.step_spec {t t' : InstanceTask} {s : TaskStep} (h : t.step s = some t') :
    t'.iface = t.iface ∧ t'.cancelled = t.cancelled ∧ t.phase ≠ .ended ∧
      (t'.phase = .ended → t.cancelled = true) := by
  cases s with
  | start | finish | wake =>
    obtain ⟨hphase, heq⟩ := Option.ite_none_right_eq_some.mp h
    cases heq
    refine ⟨rfl, rfl, ?_, fun hended => by cases hended⟩
    rw [hphase]
    decide
  | stop =>
    obtain ⟨⟨hcancelled, hphase⟩, heq⟩ := Option.ite_none_right_eq_some.mp h
    cases heq
    exact ⟨rfl, rfl, hphase, fun _ => hcancelled⟩

/-- A handle: the state, and the number of the task, which is that of its token. -/
structure InstanceHandle where
  state : NekoState
  task : ℕ
  deriving DecidableEq

/-- Where `main` is. -/
inductive Stage
  /-- Before the next configuration of the start -/
  | starting
  /-- At `sighup.recv()` -/
  | listening
  /-- Before the next configuration of a reload -/
  | updating
  /-- Waiting for a task in the middle of one -/
  | joining (task : ℕ)
  | exited
  deriving DecidableEq

structure Main where
  stage : Stage
  /-- The files of the pass, and the configurations still to come -/
  dir : ConfigDir
  global : GlobalConfig
  pending : List NekoConfig
  /-- `active_instances`, and `next_instances` of the pass -/
  instances : HashMap String InstanceHandle
  next : HashMap String InstanceHandle
  /-- The tasks spawned so far -/
  tasks : List InstanceTask

inductive Input
  | main
  | sighup (dir : ConfigDir)
  | task (i : ℕ) (step : TaskStep)

namespace Main

variable (J : Codec) (C : Prims)

/-- Before the first configuration. -/
def new (dir : ConfigDir) (global : GlobalConfig) (configs : List NekoConfig) : Main where
  stage := .starting
  dir := dir
  global := global
  pending := configs
  instances := ∅
  next := ∅
  tasks := []

/-- `tokio::spawn` with a new token. -/
def spawn (tasks : List InstanceTask) (iface : String) : List InstanceTask :=
  tasks ++ [⟨iface, false, .polling⟩]

/-- Cancel the tokens of these tasks. -/
def cancel (which : ℕ → Bool) (tasks : List InstanceTask) : List InstanceTask :=
  tasks.mapIdx fun i t => if which i then { t with cancelled := true } else t

/-- Start the instance of the first pending configuration. -/
def restart (m : Main) (config : NekoConfig) (configs : List NekoConfig) : Main :=
  { m with
    stage := .updating
    pending := configs
    next := m.next.insert config.interface
      ⟨reloadState J C m.dir m.global config, m.tasks.length⟩
    tasks := spawn m.tasks config.interface }

/-- The next step of `main`. -/
def mainStep (m : Main) : Option Main :=
  match m.stage, m.pending with
  | .starting, [] => some { m with stage := .listening }
  | .starting, config :: configs =>
    match initialState J C m.dir m.global config with
    | some state =>
      some
        { m with
          pending := configs
          instances := m.instances.insert config.interface ⟨state, m.tasks.length⟩
          tasks := spawn m.tasks config.interface }
    -- The runtime goes with all its tasks.
    | none => some { m with stage := .exited, pending := [], instances := ∅, tasks := [] }
  | .updating, config :: configs =>
    match m.instances.lookup config.interface with
    | some old =>
      if old.state.config ≠ config then
        some
          { m with
            stage := .joining old.task
            instances := m.instances.erase config.interface
            tasks := cancel (· == old.task) m.tasks }
      else
        some
          { m with
            pending := configs
            instances := m.instances.erase config.interface
            next := m.next.insert config.interface old }
    | none => some (m.restart J C config configs)
  | .joining i, config :: configs =>
    if (m.tasks[i]?.map InstanceTask.phase) = some .ended then
      some (m.restart J C config configs)
    else none
  -- The interfaces that are left have been removed.
  | .updating, [] =>
    some
      { m with
        stage := .listening
        instances := m.next
        next := ∅
        tasks := cancel (fun i => m.instances.entries.any fun e => e.2.task == i) m.tasks }
  | _, _ => none

def step (m : Main) : Input → Option (Main × Unit)
  | .main => (m.mainStep J C).map fun m => (m, ())
  | .sighup dir =>
    if m.stage = .listening then
      match loadConfigs J dir with
      | none => some (m, ())
      | some (global, configs) =>
        some ({ m with stage := .updating, dir, global, pending := configs }, ())
    else none
  | .task i s =>
    (m.tasks[i]?.bind fun t => t.step s).map fun t => ({ m with tasks := m.tasks.set i t }, ())

/-! ## What is to hold -/

/-- A handle is in one of the tables. -/
def Holds (m : Main) (iface : String) (h : InstanceHandle) : Prop :=
  m.instances.lookup iface = some h ∨ m.next.lookup iface = some h

/-- At most one `run_instance` of an interface is under way. -/
def Exclusive (m : Main) : Prop :=
  ∀ (i j : ℕ) (t u : InstanceTask), m.tasks[i]? = some t → m.tasks[j]? = some u →
    t.phase = .running → u.phase = .running → t.iface = u.iface → i = j

/-- Every task that is not cancelled is the task of a handle. The handle is in `active_instances`,
or, while a reload has this table locked, in the one that is to replace it. -/
def Owned (m : Main) : Prop :=
  ∀ (i : ℕ) (t : InstanceTask), m.tasks[i]? = some t → t.cancelled = false →
    ∃ h, h.task = i ∧ (m.instances.lookup t.iface = some h ∨
      m.stage ≠ .listening ∧ m.next.lookup t.iface = some h)

/-- The configurations name no interface twice. -/
def Distinct (configs : List NekoConfig) : Prop := (configs.map NekoConfig.interface).Nodup

/-- No interface comes back while a task of it is alive. -/
def Free (m : Main) (configs : List NekoConfig) : Prop :=
  ∀ config ∈ configs, m.instances.lookup config.interface = none →
    ∀ t ∈ m.tasks, t.iface = config.interface → t.phase = .ended

/-- The condition on a step: the files of a signal name no interface twice, and none that comes
back too early. -/
def Orderly (m : Main) : Input → Prop
  | .sighup dir => ∀ global configs, loadConfigs J dir = some (global, configs) →
      Distinct configs ∧ m.Free configs
  | _ => True

instance (m : Main) (input : Input) : Decidable (m.Orderly J input) :=
  match input with
  | .sighup dir =>
    have : ∀ configs, Decidable (Distinct configs ∧ m.Free configs) := fun _ => by
      unfold Distinct Free
      infer_instance
    decidable_of_iff (∀ r ∈ loadConfigs J dir, Distinct r.2 ∧ m.Free r.2)
      ⟨fun h global configs hload => h (global, configs) hload, fun h r hr => h r.1 r.2 hr⟩
  | .main | .task .. => .isTrue trivial

/-! ## The invariant -/

/-- A task that may still do something. -/
def Alive (tasks : List InstanceTask) (i : ℕ) (iface : String) : Prop :=
  ∃ t, tasks[i]? = some t ∧ t.iface = iface ∧ t.phase ≠ .ended

/-- **One task alive for each interface, and a handle for each that is not cancelled.** -/
structure Linked (holds : String → InstanceHandle → Prop) (tasks : List InstanceTask) : Prop where
  handle : ∀ iface h, holds iface h →
    ∃ t, tasks[h.task]? = some t ∧ t.iface = iface ∧ t.cancelled = false
  owned : ∀ (i : ℕ) (t : InstanceTask), tasks[i]? = some t → t.cancelled = false →
    ∃ h, holds t.iface h ∧ h.task = i
  unique : ∀ i j iface, Alive tasks i iface → Alive tasks j iface → i = j
  ended : ∀ (i : ℕ) (t : InstanceTask), tasks[i]? = some t → t.phase = .ended →
    t.cancelled = true

/-- What holds at every step of `main`. -/
structure Sound (m : Main) : Prop extends Linked m.Holds m.tasks where
  disjoint : ∀ iface h, m.instances.lookup iface = some h → m.next.lookup iface = none
  distinct : Distinct m.pending
  /-- The interfaces to come have no handle yet in the table that is filled. -/
  unclaimed : ∀ config ∈ m.pending, m.next.lookup config.interface = none
  starting : m.stage = .starting → ∀ config ∈ m.pending,
    m.instances.lookup config.interface = none
  /-- An interface to come that has no handle has no task alive but the one waited for. -/
  gone : ∀ config ∈ m.pending, m.instances.lookup config.interface = none →
    ∀ i, Alive m.tasks i config.interface → m.stage = .joining i
  /-- The interface whose task is waited for has no handle. -/
  joining : ∀ i, m.stage = .joining i → ∀ config configs, m.pending = config :: configs →
    m.instances.lookup config.interface = none
  fresh : m.stage = .starting ∨ m.stage = .listening → m.next = ∅
  listening : m.stage = .listening → m.pending = []

variable {J : Codec} {C : Prims} {m m' : Main} {config : NekoConfig} {configs : List NekoConfig}

theorem Sound.exclusive (h : m.Sound) : m.Exclusive := by
  intro i j t u ht hu htr hur heq
  refine h.unique i j t.iface ⟨t, ht, rfl, ?_⟩ ⟨u, hu, heq.symm, ?_⟩
  · rw [htr]
    decide
  · rw [hur]
    decide

theorem Sound.isOwned (h : m.Sound) : m.Owned := by
  intro i t ht hc
  obtain ⟨handle, hholds, rfl⟩ := h.owned i t ht hc
  refine ⟨handle, rfl, hholds.imp_right fun hnext => ⟨fun hstage => ?_, hnext⟩⟩
  rw [h.fresh (.inr hstage), AList.lookup_empty] at hnext
  cases hnext

/-! ## What the operations do to the tasks -/

theorem getElem?_spawn {tasks : List InstanceTask} {iface : String} {i : ℕ} {t : InstanceTask} :
    (spawn tasks iface)[i]? = some t ↔
      tasks[i]? = some t ∨ i = tasks.length ∧ t = ⟨iface, false, .polling⟩ := by
  unfold spawn
  rw [List.getElem?_append]
  split_ifs with hi
  · refine ⟨Or.inl, ?_⟩
    rintro (h | ⟨rfl, -⟩)
    · exact h
    · exact absurd hi (lt_irrefl _)
  · have hnone : tasks[i]? = none := List.getElem?_eq_none (not_lt.mp hi)
    rw [hnone, List.getElem?_singleton]
    split_ifs with heq
    · have hlen : i = tasks.length := by omega
      simp [hlen, eq_comm]
    · have hlen : i ≠ tasks.length := by omega
      simp [hlen]

theorem getElem?_cancel {which : ℕ → Bool} {tasks : List InstanceTask} {i : ℕ} {t : InstanceTask} :
    (cancel which tasks)[i]? = some t ↔
      ∃ u, tasks[i]? = some u ∧ (if which i then { u with cancelled := true } else u) = t := by
  unfold cancel
  rw [List.getElem?_mapIdx, Option.map_eq_some_iff]

section

variable {holds holds' : String → InstanceHandle → Prop} {tasks : List InstanceTask}
  {iface : String} {which : ℕ → Bool}

theorem alive_of_spawn {i : ℕ} {k : String} (h : Alive (spawn tasks iface) i k) :
    Alive tasks i k ∨ i = tasks.length ∧ k = iface := by
  obtain ⟨t, ht, hk, hphase⟩ := h
  rcases getElem?_spawn.mp ht with ht | ⟨rfl, rfl⟩
  · exact .inl ⟨t, ht, hk, hphase⟩
  · exact .inr ⟨rfl, hk.symm⟩

theorem alive_cancel {i : ℕ} {k : String} : Alive (cancel which tasks) i k ↔ Alive tasks i k := by
  constructor
  · rintro ⟨t, ht, hk, hphase⟩
    obtain ⟨u, hu, rfl⟩ := getElem?_cancel.mp ht
    refine ⟨u, hu, ?_, ?_⟩
    · rw [← hk]
      split_ifs <;> rfl
    · intro hended
      refine hphase ?_
      rw [← hended]
      split_ifs <;> rfl
  · rintro ⟨t, ht, hk, hphase⟩
    refine ⟨_, getElem?_cancel.mpr ⟨t, ht, rfl⟩, ?_, ?_⟩
    · rw [← hk]
      split_ifs <;> rfl
    · intro hended
      refine hphase ?_
      rw [← hended]
      split_ifs <;> rfl

/-- A new task, for an interface that has none alive. -/
theorem Linked.spawn (h : Linked holds tasks) (hfree : ∀ i, ¬ Alive tasks i iface)
    (new : InstanceHandle) (hnew : new.task = tasks.length)
    (hholds : ∀ k hd, holds' k hd ↔ holds k hd ∨ k = iface ∧ hd = new) :
    Linked holds' (spawn tasks iface) where
  handle k hd hhd := by
    rcases (hholds k hd).mp hhd with hold | ⟨rfl, rfl⟩
    · obtain ⟨t, ht, hk⟩ := h.handle k hd hold
      exact ⟨t, getElem?_spawn.mpr (.inl ht), hk⟩
    · exact ⟨_, getElem?_spawn.mpr (.inr ⟨hnew, rfl⟩), rfl, rfl⟩
  owned i t ht hc := by
    rcases getElem?_spawn.mp ht with ht | ⟨rfl, rfl⟩
    · obtain ⟨hd, hold, htask⟩ := h.owned i t ht hc
      exact ⟨hd, (hholds _ _).mpr (.inl hold), htask⟩
    · exact ⟨new, (hholds _ _).mpr (.inr ⟨rfl, rfl⟩), hnew⟩
  unique i j k hi hj := by
    rcases alive_of_spawn hi with hold | ⟨rfl, rfl⟩
    · rcases alive_of_spawn hj with hold' | ⟨-, rfl⟩
      · exact h.unique i j k hold hold'
      · exact absurd hold (hfree i)
    · rcases alive_of_spawn hj with hold' | ⟨rfl, -⟩
      · exact absurd hold' (hfree j)
      · rfl
  ended i t ht hphase := by
    rcases getElem?_spawn.mp ht with ht | ⟨-, rfl⟩
    · exact h.ended i t ht hphase
    · cases hphase

/-- A task is the task of one interface. -/
theorem Linked.interface_eq (h : Linked holds tasks) {k k' : String} {hd hd' : InstanceHandle}
    (hhd : holds k hd) (hhd' : holds k' hd') (htask : hd.task = hd'.task) : k = k' := by
  obtain ⟨t, ht, hk, -⟩ := h.handle k hd hhd
  obtain ⟨t', ht', hk', -⟩ := h.handle k' hd' hhd'
  rw [htask, ht'] at ht
  cases ht
  exact hk.symm.trans hk'

/-- Tokens that are cancelled, with their handles dropped. -/
theorem Linked.cancel (h : Linked holds tasks)
    (hholds : ∀ k hd, holds' k hd ↔ holds k hd ∧ which hd.task = false) :
    Linked holds' (cancel which tasks) where
  handle k hd hhd := by
    obtain ⟨hold, hwhich⟩ := (hholds k hd).mp hhd
    obtain ⟨t, ht, hk⟩ := h.handle k hd hold
    refine ⟨t, getElem?_cancel.mpr ⟨t, ht, ?_⟩, hk⟩
    rw [hwhich]
    rfl
  owned i t ht hc := by
    obtain ⟨u, hu, rfl⟩ := getElem?_cancel.mp ht
    by_cases hwhich : which i = true
    · rw [if_pos hwhich] at hc
      cases hc
    · rw [if_neg hwhich] at hc ⊢
      obtain ⟨hd, hold, rfl⟩ := h.owned i u hu hc
      exact ⟨hd, (hholds _ _).mpr ⟨hold, by simpa using hwhich⟩, rfl⟩
  unique i j k hi hj := h.unique i j k (alive_cancel.mp hi) (alive_cancel.mp hj)
  ended i t ht hphase := by
    obtain ⟨u, hu, rfl⟩ := getElem?_cancel.mp ht
    split_ifs at hphase ⊢
    · rfl
    · exact h.ended i u hu hphase

variable {i : ℕ} {t t' : InstanceTask} {s : TaskStep}

theorem getElem?_step (ht : tasks[i]? = some t) {j : ℕ} {u : InstanceTask} :
    (tasks.set i t')[j]? = some u ↔ j = i ∧ u = t' ∨ j ≠ i ∧ tasks[j]? = some u := by
  have hi : i < tasks.length := (List.getElem?_eq_some_iff.mp ht).1
  rw [List.getElem?_set]
  by_cases hij : i = j
  · subst hij
    simp [hi, eq_comm]
  · simp [hij, Ne.symm hij]

theorem alive_of_step (ht : tasks[i]? = some t) (hstep : t.step s = some t') {j : ℕ} {k : String}
    (h : Alive (tasks.set i t') j k) : Alive tasks j k := by
  obtain ⟨hiface, -, hphase, -⟩ := InstanceTask.step_spec hstep
  obtain ⟨u, hu, hk, hu'⟩ := h
  rcases (getElem?_step ht).mp hu with ⟨rfl, rfl⟩ | ⟨-, hu⟩
  · exact ⟨t, ht, hiface ▸ hk, hphase⟩
  · exact ⟨u, hu, hk, hu'⟩

/-- A step of a task. -/
theorem Linked.task (h : Linked holds tasks) (ht : tasks[i]? = some t)
    (hstep : t.step s = some t') : Linked holds (tasks.set i t') where
  handle k hd hhd := by
    obtain ⟨hiface, hcancelled, -, -⟩ := InstanceTask.step_spec hstep
    obtain ⟨u, hu, hk, hc⟩ := h.handle k hd hhd
    by_cases hi : hd.task = i
    · subst hi
      cases ht.symm.trans hu
      exact ⟨t', (getElem?_step ht).mpr (.inl ⟨rfl, rfl⟩), hiface.trans hk, hcancelled.trans hc⟩
    · exact ⟨u, (getElem?_step ht).mpr (.inr ⟨hi, hu⟩), hk, hc⟩
  owned j u hu hc := by
    obtain ⟨hiface, hcancelled, -, -⟩ := InstanceTask.step_spec hstep
    rcases (getElem?_step ht).mp hu with ⟨rfl, rfl⟩ | ⟨-, hu⟩
    · rw [hiface]
      exact h.owned j t ht (hcancelled ▸ hc)
    · exact h.owned j u hu hc
  unique j k iface hj hk :=
    h.unique j k iface (alive_of_step ht hstep hj) (alive_of_step ht hstep hk)
  ended j u hu hphase := by
    obtain ⟨-, hcancelled, -, hended⟩ := InstanceTask.step_spec hstep
    rcases (getElem?_step ht).mp hu with ⟨rfl, rfl⟩ | ⟨-, hu⟩
    · rw [hcancelled]
      exact hended hphase
    · exact h.ended j u hu hphase

end

/-! ## Every step keeps the invariant -/

theorem distinct_cons (h : Distinct (config :: configs)) :
    (∀ c ∈ configs, c.interface ≠ config.interface) ∧ Distinct configs := by
  unfold Distinct at h
  rw [List.map_cons, List.nodup_cons] at h
  refine ⟨fun c hc heq => h.1 ?_, h.2⟩
  rw [← heq]
  exact List.mem_map_of_mem hc

theorem sound_new {dir : ConfigDir} {global : GlobalConfig} (h : Distinct configs) :
    (Main.new dir global configs).Sound where
  handle iface hd hhd := by
    rcases hhd with hhd | hhd <;> cases hhd
  owned i t ht := by cases ht
  unique i j iface hi := by
    obtain ⟨t, ht, -⟩ := hi
    cases ht
  ended i t ht := by cases ht
  disjoint iface hd hhd := by cases hhd
  distinct := h
  unclaimed config _ := AList.lookup_empty _
  starting _ config _ := AList.lookup_empty _
  gone config _ _ i hi := by
    obtain ⟨t, ht, -⟩ := hi
    cases ht
  joining i hstage := by cases hstage
  fresh _ := rfl
  listening hstage := by cases hstage

/-- The first pending configuration and the others. -/
theorem Sound.pending_cons (h : m.Sound) (hpending : m.pending = config :: configs) :
    config ∈ m.pending ∧ (∀ c ∈ configs, c ∈ m.pending) ∧
      (∀ c ∈ configs, c.interface ≠ config.interface) ∧ Distinct configs :=
  ⟨hpending ▸ List.mem_cons_self, fun _ hc => hpending ▸ List.mem_cons_of_mem _ hc,
    distinct_cons (hpending ▸ h.distinct)⟩

/-- The first pending interface gets a new task once it has none alive. -/
theorem Sound.restart (h : m.Sound) (hpending : m.pending = config :: configs)
    (hlookup : m.instances.lookup config.interface = none)
    (hfree : ∀ c ∈ m.pending, m.instances.lookup c.interface = none →
      ∀ i, ¬ Alive m.tasks i c.interface) :
    (m.restart J C config configs).Sound := by
  obtain ⟨hmem, htail, hne, hdistinct⟩ := h.pending_cons hpending
  have hnext := h.unclaimed config hmem
  exact
    { toLinked := by
        refine h.toLinked.spawn (hfree config hmem hlookup)
          ⟨reloadState J C m.dir m.global config, m.tasks.length⟩ rfl fun k hd => ?_
        show _ ∨ _ ↔ _
        rw [Main.restart, lookup_insert_iff_of_none hnext]
        exact or_assoc.symm
      disjoint := by
        intro k hd hk
        have hki : k ≠ config.interface := by
          rintro rfl
          rw [Main.restart, hlookup] at hk
          cases hk
        rw [Main.restart, AList.lookup_insert_ne hki]
        exact h.disjoint k hd hk
      distinct := hdistinct
      unclaimed := by
        intro c hc
        rw [Main.restart, AList.lookup_insert_ne (hne c hc)]
        exact h.unclaimed c (htail c hc)
      starting := fun hstage => by cases hstage
      gone := by
        intro c hc hnone i hi
        rcases alive_of_spawn hi with hold | ⟨-, heq⟩
        · exact absurd hold (hfree c (htail c hc) hnone i)
        · exact absurd heq (hne c hc)
      joining := fun i hstage => by cases hstage
      fresh := fun hstage => by rcases hstage with hstage | hstage <;> cases hstage
      listening := fun hstage => by cases hstage }

/-- The next configuration of the start. -/
theorem Sound.startOne (h : m.Sound) (hstage : m.stage = .starting)
    (hpending : m.pending = config :: configs) (state : NekoState) :
    Sound { m with
      pending := configs
      instances := m.instances.insert config.interface ⟨state, m.tasks.length⟩
      tasks := Main.spawn m.tasks config.interface } := by
  obtain ⟨hmem, htail, hne, hdistinct⟩ := h.pending_cons hpending
  have hfree : ∀ c ∈ m.pending, ∀ i, ¬ Alive m.tasks i c.interface := by
    intro c hc i hi
    have hjoin := h.gone c hc (h.starting hstage c hc) i hi
    rw [hstage] at hjoin
    cases hjoin
  exact
    { toLinked := by
        refine h.toLinked.spawn (hfree config hmem) ⟨state, m.tasks.length⟩ rfl fun k hd => ?_
        unfold Holds
        dsimp only
        rw [lookup_insert_iff_of_none (h.starting hstage config hmem)]
        exact or_right_comm
      disjoint := by
        intro k hd hk
        rcases lookup_insert_iff.mp hk with ⟨rfl, -⟩ | ⟨-, hold⟩
        · exact h.unclaimed config hmem
        · exact h.disjoint k hd hold
      distinct := hdistinct
      unclaimed := fun c hc => h.unclaimed c (htail c hc)
      starting := by
        intro _ c hc
        dsimp only
        rw [AList.lookup_insert_ne (hne c hc)]
        exact h.starting hstage c (htail c hc)
      gone := by
        intro c hc _ i hi
        rcases alive_of_spawn hi with hold | ⟨-, heq⟩
        · exact absurd hold (hfree c (htail c hc) i)
        · exact absurd heq (hne c hc)
      joining := fun i hs => by
        rw [hstage] at hs
        cases hs
      fresh := h.fresh
      listening := fun hs => by
        rw [hstage] at hs
        cases hs }

/-- A changed interface: its task is told to stop. -/
theorem Sound.replace (h : m.Sound) (hstage : m.stage = .updating)
    (hpending : m.pending = config :: configs) {old : InstanceHandle}
    (hlookup : m.instances.lookup config.interface = some old) :
    Sound { m with
      stage := .joining old.task
      instances := m.instances.erase config.interface
      tasks := cancel (· == old.task) m.tasks } := by
  have hmem : config ∈ m.pending := hpending ▸ List.mem_cons_self
  obtain ⟨t, ht, hiface, hcancelled⟩ := h.handle config.interface old (.inl hlookup)
  have halive : Alive m.tasks old.task config.interface := by
    refine ⟨t, ht, hiface, fun hended => ?_⟩
    rw [h.ended _ t ht hended] at hcancelled
    cases hcancelled
  exact
    { toLinked := by
        refine h.toLinked.cancel fun k hd => ?_
        unfold Holds
        dsimp only
        rw [lookup_erase_iff, beq_eq_false_iff_ne]
        constructor
        · intro hhd
          have hki : k ≠ config.interface := by
            rintro rfl
            rcases hhd with ⟨hki, -⟩ | hnext
            · exact hki rfl
            · rw [h.unclaimed config hmem] at hnext
              cases hnext
          have hold := hhd.imp_left And.right
          exact ⟨hold, fun htask => hki (h.interface_eq hold (.inl hlookup) htask)⟩
        · rintro ⟨hold | hold, htask⟩
          · refine .inl ⟨?_, hold⟩
            rintro rfl
            rw [hlookup] at hold
            cases hold
            exact htask rfl
          · exact .inr hold
      disjoint := fun k hd hk => h.disjoint k hd (lookup_erase_iff.mp hk).2
      distinct := h.distinct
      unclaimed := h.unclaimed
      starting := fun hs => by cases hs
      gone := by
        intro c hc hnone i hi
        have hi := alive_cancel.mp hi
        by_cases hci : c.interface = config.interface
        · rw [hci] at hi
          rw [h.unique i old.task _ hi halive]
        · dsimp only at hnone
          rw [AList.lookup_erase_ne hci] at hnone
          have hjoin := h.gone c hc hnone i hi
          rw [hstage] at hjoin
          cases hjoin
      joining := by
        intro _ _ c cs hcs
        cases hpending.symm.trans hcs
        exact AList.lookup_erase _ _
      fresh := fun hs => by rcases hs with hs | hs <;> cases hs
      listening := fun hs => by cases hs }

/-- An interface that has not changed: its handle moves to the other table. -/
theorem Sound.keep (h : m.Sound) (hstage : m.stage = .updating)
    (hpending : m.pending = config :: configs) {old : InstanceHandle}
    (hlookup : m.instances.lookup config.interface = some old) :
    Sound { m with
      pending := configs
      instances := m.instances.erase config.interface
      next := m.next.insert config.interface old } := by
  obtain ⟨hmem, htail, hne, hdistinct⟩ := h.pending_cons hpending
  have hholds : Holds { m with
      pending := configs
      instances := m.instances.erase config.interface
      next := m.next.insert config.interface old } = m.Holds := by
    funext k hd
    unfold Holds
    dsimp only
    rw [lookup_erase_iff, lookup_insert_iff]
    by_cases hk : k = config.interface
    · subst hk
      rw [hlookup, h.unclaimed config hmem]
      simp [eq_comm]
    · simp [hk]
  exact
    { toLinked := by
        rw [hholds]
        exact h.toLinked
      disjoint := by
        intro k hd hk
        obtain ⟨hki, hk⟩ := lookup_erase_iff.mp hk
        dsimp only
        rw [AList.lookup_insert_ne hki]
        exact h.disjoint k hd hk
      distinct := hdistinct
      unclaimed := by
        intro c hc
        dsimp only
        rw [AList.lookup_insert_ne (hne c hc)]
        exact h.unclaimed c (htail c hc)
      starting := fun hs => by
        rw [hstage] at hs
        cases hs
      gone := by
        intro c hc hnone i hi
        dsimp only at hnone
        rw [AList.lookup_erase_ne (hne c hc)] at hnone
        exact h.gone c (htail c hc) hnone i hi
      joining := fun i hs => by
        rw [hstage] at hs
        cases hs
      fresh := fun hs => by rcases hs with hs | hs <;> rw [hstage] at hs <;> cases hs
      listening := fun hs => by
        rw [hstage] at hs
        cases hs }

/-- The end of a pass: the interfaces that are left are told to stop. -/
theorem Sound.finish (h : m.Sound) (hpending : m.pending = []) :
    Sound { m with
      stage := .listening
      instances := m.next
      next := ∅
      tasks := cancel (fun i => m.instances.entries.any fun e => e.2.task == i) m.tasks } := by
  exact
    { toLinked := by
        refine h.toLinked.cancel fun k hd => ?_
        unfold Holds
        dsimp only
        rw [AList.lookup_empty, List.any_eq_false]
        constructor
        · rintro (hnext | hnone)
          · refine ⟨.inr hnext, fun ⟨k', hd'⟩ hmem htask => ?_⟩
            have hlookup := mem_entries_iff.mp hmem
            obtain rfl := h.interface_eq (.inl hlookup) (.inr hnext) (beq_iff_eq.mp htask)
            rw [h.disjoint _ hd' hlookup] at hnext
            cases hnext
          · cases hnone
        · rintro ⟨hold | hnext, hleft⟩
          · exact absurd (beq_self_eq_true _) (hleft ⟨k, hd⟩ (mem_entries_iff.mpr hold))
          · exact .inl hnext
      disjoint := fun k _ _ => AList.lookup_empty k
      distinct := h.distinct
      unclaimed := fun c _ => AList.lookup_empty _
      starting := fun hs => by cases hs
      gone := fun c hc => by
        rw [hpending] at hc
        cases hc
      joining := fun i hs => by cases hs
      fresh := fun _ => rfl
      listening := fun _ => hpending }

/-- What the next step of `main` can be. -/
inductive Advance (J : Codec) (C : Prims) (m : Main) : Main → Prop
  | started (hstage : m.stage = .starting) (hpending : m.pending = []) :
    Advance J C m { m with stage := .listening }
  | spawned {config : NekoConfig} {configs : List NekoConfig} (hstage : m.stage = .starting)
    (hpending : m.pending = config :: configs) (state : NekoState) :
    Advance J C m { m with
      pending := configs
      instances := m.instances.insert config.interface ⟨state, m.tasks.length⟩
      tasks := Main.spawn m.tasks config.interface }
  | failed (hstage : m.stage = .starting) :
    Advance J C m { m with stage := .exited, pending := [], instances := ∅, tasks := [] }
  | replaced {config : NekoConfig} {configs : List NekoConfig} {old : InstanceHandle}
    (hstage : m.stage = .updating) (hpending : m.pending = config :: configs)
    (hlookup : m.instances.lookup config.interface = some old) (hne : old.state.config ≠ config) :
    Advance J C m { m with
      stage := .joining old.task
      instances := m.instances.erase config.interface
      tasks := cancel (· == old.task) m.tasks }
  | kept {config : NekoConfig} {configs : List NekoConfig} {old : InstanceHandle}
    (hstage : m.stage = .updating) (hpending : m.pending = config :: configs)
    (hlookup : m.instances.lookup config.interface = some old) (heq : old.state.config = config) :
    Advance J C m { m with
      pending := configs
      instances := m.instances.erase config.interface
      next := m.next.insert config.interface old }
  | added {config : NekoConfig} {configs : List NekoConfig} (hstage : m.stage = .updating)
    (hpending : m.pending = config :: configs)
    (hlookup : m.instances.lookup config.interface = none) :
    Advance J C m (m.restart J C config configs)
  | joined {config : NekoConfig} {configs : List NekoConfig} {i : ℕ} {t : InstanceTask}
    (hstage : m.stage = .joining i) (hpending : m.pending = config :: configs)
    (ht : m.tasks[i]? = some t) (hended : t.phase = .ended) :
    Advance J C m (m.restart J C config configs)
  | finished (hstage : m.stage = .updating) (hpending : m.pending = []) :
    Advance J C m { m with
      stage := .listening
      instances := m.next
      next := ∅
      tasks := cancel (fun i => m.instances.entries.any fun e => e.2.task == i) m.tasks }

theorem advance_of_mainStep (h : m.mainStep J C = some m') : Advance J C m m' := by
  unfold mainStep at h
  split at h
  case h_1 hstage hpending =>
    cases h
    exact .started hstage hpending
  case h_2 config configs hstage hpending =>
    rcases hstate : initialState J C m.dir m.global config with _ | state
    · rw [hstate] at h
      cases h
      exact .failed hstage
    · rw [hstate] at h
      cases h
      exact .spawned hstage hpending state
  case h_3 config configs hstage hpending =>
    rcases hlookup : m.instances.lookup config.interface with _ | old
    · rw [hlookup] at h
      cases h
      exact .added hstage hpending hlookup
    · rw [hlookup] at h
      dsimp only at h
      by_cases hconfig : old.state.config = config
      · rw [if_neg (not_not_intro hconfig)] at h
        cases h
        exact .kept hstage hpending hlookup hconfig
      · rw [if_pos hconfig] at h
        cases h
        exact .replaced hstage hpending hlookup hconfig
  case h_4 i config configs hstage hpending =>
    obtain ⟨hended, heq⟩ := Option.ite_none_right_eq_some.mp h
    obtain ⟨t, ht, hphase⟩ := Option.map_eq_some_iff.mp hended
    cases heq
    exact .joined hstage hpending ht hphase
  case h_5 hstage hpending =>
    cases h
    exact .finished hstage hpending
  case h_6 => cases h

/-- One step of `main`. -/
theorem Sound.advance (h : m.Sound) (hstep : Advance J C m m') : m'.Sound := by
  cases hstep with
  | started hstage hpending =>
    exact
      { h with
        starting := fun hs => by cases hs
        gone := fun c hc => by
          rw [hpending] at hc
          cases hc
        joining := fun i hs => by cases hs
        fresh := fun _ => h.fresh (.inl hstage)
        listening := fun _ => hpending }
  | spawned hstage hpending state => exact h.startOne hstage hpending state
  | failed hstage =>
    exact
      { handle := by
          rintro k hd (hk | hk)
          · cases hk
          · rw [h.fresh (.inl hstage)] at hk
            cases hk
        owned := fun i t ht => by cases ht
        unique := fun i j k ⟨t, ht, _⟩ => by cases ht
        ended := fun i t ht => by cases ht
        disjoint := fun k hd hk => by cases hk
        distinct := List.nodup_nil
        unclaimed := fun c hc => by cases hc
        starting := fun _ c hc => by cases hc
        gone := fun c hc => by cases hc
        joining := fun i hs => by cases hs
        fresh := fun _ => h.fresh (.inl hstage)
        listening := fun _ => rfl }
  | replaced hstage hpending hlookup hne => exact h.replace hstage hpending hlookup
  | kept hstage hpending hlookup heq => exact h.keep hstage hpending hlookup
  | @added config configs hstage hpending hlookup =>
    refine h.restart hpending hlookup fun c hc hnone i hi => ?_
    have hjoin := h.gone c hc hnone i hi
    rw [hstage] at hjoin
    cases hjoin
  | @joined config configs i t hstage hpending ht hended =>
    -- The only task that could be in the way is the one that has ended.
    refine h.restart hpending (h.joining i hstage config configs hpending) fun c hc hnone j hj => ?_
    have hjoin := h.gone c hc hnone j hj
    rw [hstage] at hjoin
    cases hjoin
    obtain ⟨u, hu, -, hphase⟩ := hj
    rw [ht] at hu
    cases hu
    exact hphase hended
  | finished hstage hpending => exact h.finish hpending

/-- A signal, when its files may be taken. -/
theorem Sound.sighup (h : m.Sound) {dir : ConfigDir} {global : GlobalConfig}
    (hstage : m.stage = .listening) (hdistinct : Distinct configs) (hfree : m.Free configs) :
    Sound { m with stage := .updating, dir, global, pending := configs } :=
  { h with
    distinct := hdistinct
    unclaimed := fun c _ => by
      dsimp only
      rw [h.fresh (.inr hstage)]
      exact AList.lookup_empty _
    starting := fun hs => by cases hs
    gone := by
      rintro c hc hnone i ⟨t, ht, hiface, hphase⟩
      exact absurd (hfree c hc hnone t (List.mem_of_getElem? ht) hiface) hphase
    joining := fun i hs => by cases hs
    fresh := fun hs => by rcases hs with hs | hs <;> cases hs
    listening := fun hs => by cases hs }

theorem Sound.step (h : m.Sound) {input : Input} {o : Unit} (hguard : m.Orderly J input)
    (hstep : m.step J C input = some (m', o)) : m'.Sound := by
  cases input with
  | main =>
    obtain ⟨m₁, hm₁, heq⟩ := Option.map_eq_some_iff.mp hstep
    cases heq
    exact h.advance (advance_of_mainStep hm₁)
  | sighup dir =>
    obtain ⟨hstage, hload⟩ := Option.ite_none_right_eq_some.mp hstep
    rcases hconfigs : loadConfigs J dir with _ | ⟨global, configs⟩
    · rw [hconfigs] at hload
      cases hload
      exact h
    · rw [hconfigs] at hload
      cases hload
      obtain ⟨hdistinct, hfree⟩ := hguard global configs hconfigs
      exact h.sighup hstage hdistinct hfree
  | task i s =>
    obtain ⟨t', ht', heq⟩ := Option.map_eq_some_iff.mp hstep
    obtain ⟨t, ht, hs⟩ := Option.bind_eq_some_iff.mp ht'
    cases heq
    exact
      { h with
        toLinked := h.toLinked.task ht hs
        gone := fun c hc hnone j hj => h.gone c hc hnone j (alive_of_step ht hs hj) }

/-- The invariant holds all the way when the steps are orderly. -/
theorem sound_of_reaches {dir : ConfigDir} {global : GlobalConfig} (hdistinct : Distinct configs)
    (h : Machine.Reaches (Main.step J C) (Main.Orderly J) (Main.new dir global configs) m) :
    m.Sound :=
  h.invariant (sound_new hdistinct) fun _ _ _ _ hsound hguard hstep => hsound.step hguard hstep

/-- **One owned task for each interface**, in every state that orderly steps reach. -/
theorem one_task_per_interface {dir : ConfigDir} {global : GlobalConfig}
    (hdistinct : Distinct configs)
    (h : Machine.Reaches (Main.step J C) (Main.Orderly J) (Main.new dir global configs) m) :
    m.Exclusive ∧ m.Owned :=
  have hsound := sound_of_reaches hdistinct h
  ⟨hsound.exclusive, hsound.isOwned⟩

/-! ## A pass -/

/-- The handles of a table have these states. -/
def Shows (table : HashMap String InstanceHandle) (instances : Instances) : Prop :=
  ∀ iface, (table.lookup iface).map InstanceHandle.state = instances.lookup iface

section

variable {table : HashMap String InstanceHandle} {iface : String}

theorem Shows.erase {instances : Instances} (h : Shows table instances) :
    Shows (table.erase iface) (instances.erase iface) := by
  intro k
  by_cases hk : k = iface
  · subst hk
    rw [AList.lookup_erase, AList.lookup_erase, Option.map_none]
  · rw [AList.lookup_erase_ne hk, AList.lookup_erase_ne hk, h k]

theorem Shows.insert {instances : Instances} (h : Shows table instances) (hd : InstanceHandle) :
    Shows (table.insert iface hd) (instances.insert iface hd.state) := by
  intro k
  by_cases hk : k = iface
  · subst hk
    rw [AList.lookup_insert, AList.lookup_insert, Option.map_some]
  · rw [AList.lookup_insert_ne hk, AList.lookup_insert_ne hk, h k]

end

/-- Where the pass is on its way to the next table. -/
def OnTheWay (J : Codec) (C : Prims) (target : Instances) (m : Main) : Prop :=
  match m.stage with
  | .listening => Shows m.instances target
  | .updating => ∃ q : Instances × Instances, Shows m.instances q.1 ∧ Shows m.next q.2 ∧
      (m.pending.foldl (update J C m.dir m.global) q).2 = target
  | .joining _ => ∃ (q : Instances × Instances) (config : NekoConfig) (configs : List NekoConfig)
      (old : NekoState), m.pending = config :: configs ∧
      q.1.lookup config.interface = some old ∧ old.config ≠ config ∧
      Shows m.instances (q.1.erase config.interface) ∧ Shows m.next q.2 ∧
      (m.pending.foldl (update J C m.dir m.global) q).2 = target
  | _ => False

theorem OnTheWay.advance {target : Instances} (h : OnTheWay J C target m)
    (hstep : Advance J C m m') : OnTheWay J C target m' := by
  unfold OnTheWay at h
  cases hstep with
  | started hstage | spawned hstage | failed hstage =>
    rw [hstage] at h
    exact h.elim
  | @replaced config configs old hstage hpending hlookup hne =>
    rw [hstage] at h
    obtain ⟨q, hinstances, hnext, hfold⟩ := h
    have hq : q.1.lookup config.interface = some old.state := by
      rw [← hinstances, hlookup, Option.map_some]
    exact ⟨q, config, configs, old.state, hpending, hq, hne, hinstances.erase, hnext, hfold⟩
  | @kept config configs old hstage hpending hlookup heq =>
    rw [hstage] at h
    obtain ⟨q, hinstances, hnext, hfold⟩ := h
    have hq : q.1.lookup config.interface = some old.state := by
      rw [← hinstances, hlookup, Option.map_some]
    unfold OnTheWay
    dsimp only
    rw [hstage]
    refine ⟨(q.1.erase config.interface, q.2.insert config.interface old.state),
      hinstances.erase, hnext.insert old, ?_⟩
    rw [hpending, List.foldl_cons, update, hq] at hfold
    dsimp only at hfold
    rwa [if_neg (not_not_intro heq)] at hfold
  | @added config configs hstage hpending hlookup =>
    rw [hstage] at h
    obtain ⟨q, hinstances, hnext, hfold⟩ := h
    have hq : q.1.lookup config.interface = none := by
      rw [← hinstances, hlookup, Option.map_none]
    rw [hpending, List.foldl_cons, update, hq] at hfold
    exact ⟨(q.1, q.2.insert config.interface (reloadState J C m.dir m.global config)),
      hinstances, hnext.insert ⟨_, _⟩, hfold⟩
  | @joined config configs i t hstage hpending ht hended =>
    rw [hstage] at h
    obtain ⟨q, config', configs', old, hpending', hq, hne, hinstances, hnext, hfold⟩ := h
    cases hpending.symm.trans hpending'
    rw [hpending, List.foldl_cons, update, hq] at hfold
    dsimp only at hfold
    rw [if_pos hne] at hfold
    exact ⟨(q.1.erase config.interface,
      q.2.insert config.interface (reloadState J C m.dir m.global config)),
      hinstances, hnext.insert ⟨_, _⟩, hfold⟩
  | finished hstage hpending =>
    rw [hstage] at h
    obtain ⟨q, -, hnext, hfold⟩ := h
    rw [hpending, List.foldl_nil] at hfold
    rw [← hfold]
    exact hnext

/-- **A pass ends with the table of `nextInstances`**, however the tasks run beside it. -/
theorem pass_refines {dir : ConfigDir} {global : GlobalConfig} {instances : Instances}
    (hnext : m.next = ∅) (hshows : Shows m.instances instances)
    (h : Machine.Reaches (Main.step J C) (fun _ input => ∀ dir, input ≠ .sighup dir)
      { m with stage := .updating, dir, global, pending := configs } m')
    (hlistening : m'.stage = .listening) :
    Shows m'.instances (nextInstances J C dir global configs instances) := by
  have hway : OnTheWay J C (nextInstances J C dir global configs instances) m' := by
    refine h.invariant ?_ fun m₁ input m₂ o hm₁ hguard hstep => ?_
    · refine ⟨(instances, ∅), hshows, fun iface => ?_, rfl⟩
      rw [hnext]
      rfl
    · cases input with
      | main =>
        obtain ⟨m₃, hm₃, heq⟩ := Option.map_eq_some_iff.mp hstep
        cases heq
        exact hm₁.advance (advance_of_mainStep hm₃)
      | sighup dir => exact absurd rfl (hguard dir)
      | task i s =>
        obtain ⟨t', -, heq⟩ := Option.map_eq_some_iff.mp hstep
        cases heq
        exact hm₁
  unfold OnTheWay at hway
  rwa [hlistening] at hway

/-! ## Two files of one interface, and an interface that comes back -/

/-- An empty directory. -/
def emptyDir : ConfigDir where
  jsonFiles := []
  keyFile _ := none
  newKey _ := (zeros 32, true)

/-- The start of the control plane with these configurations. -/
def sampleStart (configs : List NekoConfig) : Main :=
  .new (sampleDir "12580" "10.9.9.1/32") (sampleGlobal 12580 "10.9.9.1/32") configs

/-- A second file of the same interface. -/
def sampleTwin : NekoConfig := .default "wg0" "10.0.0.2/24" "meow" []

section

variable {start m : Main} {inputs : List Input} {os : List Unit}

/-- A run of the sample. -/
def sampleRun (start : Main) (inputs : List Input) : Option (Main × List Unit) :=
  Machine.run (Main.step sampleCodec checksumPrims) start inputs

/-- What a state shows of itself, of its tasks and of the handle of `wg0`. -/
def summary (m : Main) : Stage × List InstanceTask × Option ℕ :=
  (m.stage, m.tasks, (m.instances.lookup "wg0").map InstanceHandle.task)

theorem not_exclusive_of_running (ht : m.tasks[0]? = some ⟨"wg0", true, .running⟩ ∨
    m.tasks[0]? = some ⟨"wg0", false, .running⟩)
    (hu : m.tasks[1]? = some ⟨"wg0", false, .running⟩) : ¬ m.Exclusive := by
  intro h
  rcases ht with ht | ht
  · exact absurd (h 0 1 _ _ ht hu rfl rfl rfl) (by decide)
  · exact absurd (h 0 1 _ _ ht hu rfl rfl rfl) (by decide)

end

/-- The first reload changes one interface and removes the other, the second one removes both, and
the third one brings the first back when its task has ended. -/
def reloadInputs : List Input :=
  [.main, .main, .main, .task 0 .start, .task 1 .start,
    .sighup (sampleDir "12580" "10.9.9.1/32"), .main, .task 0 .stop, .main, .main, .task 2 .start,
    .task 1 .stop, .sighup emptyDir, .main, .task 2 .stop,
    .sighup (sampleDir "12580" "10.9.9.1/32"), .main, .main, .task 3 .start]

/-- The invariant at work, with two interfaces and three reloads. -/
theorem one_task_per_interface_sample :
    ∃ m, Machine.Reaches (Main.step sampleCodec checksumPrims) (Main.Orderly sampleCodec)
        (sampleStart [sampleTwin, sampleOther]) m ∧
      m.summary = (.listening, [⟨"wg0", true, .ended⟩, ⟨"wg1", true, .ended⟩,
        ⟨"wg0", true, .ended⟩, ⟨"wg0", false, .running⟩], some 3) ∧ m.Exclusive ∧ m.Owned := by
  have hsummary : (Machine.run (Machine.guarded (Main.step sampleCodec checksumPrims)
      (Main.Orderly sampleCodec)) (sampleStart [sampleTwin, sampleOther]) reloadInputs).map
        (fun r => r.1.summary) =
      some (.listening, [⟨"wg0", true, .ended⟩, ⟨"wg1", true, .ended⟩,
        ⟨"wg0", true, .ended⟩, ⟨"wg0", false, .running⟩], some 3) := by decide +kernel
  obtain ⟨⟨m, os⟩, hrun, hm⟩ := Option.map_eq_some_iff.mp hsummary
  have hreaches := Machine.reaches_of_guarded_run hrun
  have hdistinct : Distinct [sampleTwin, sampleOther] := by
    unfold Distinct
    decide
  exact ⟨m, hreaches, hm, one_task_per_interface hdistinct hreaches⟩

/-- **Two runs of one interface at a time**: with two files of one interface, of which the first
loses its handle, and with an interface that is removed and comes back. -/
theorem two_runs_of_one_interface :
    (∃ m, Machine.Reaches (Main.step sampleCodec checksumPrims) (fun _ _ => True)
      (sampleStart [sampleConfig, sampleTwin]) m ∧ ¬ m.Exclusive ∧ ¬ m.Owned) ∧
    ∃ m, Machine.Reaches (Main.step sampleCodec checksumPrims) (fun _ _ => True)
      (sampleStart [sampleConfig]) m ∧ ¬ m.Exclusive := by
  constructor
  · have hsummary : (sampleRun (sampleStart [sampleConfig, sampleTwin])
        [.main, .main, .main, .task 0 .start, .task 1 .start]).map (fun r => r.1.summary) =
          some (.listening, [⟨"wg0", false, .running⟩, ⟨"wg0", false, .running⟩], some 1) := by
      decide
    obtain ⟨⟨m, os⟩, hrun, hm⟩ := Option.map_eq_some_iff.mp hsummary
    rw [summary, Prod.mk.injEq, Prod.mk.injEq] at hm
    obtain ⟨hstage, htasks, hhandle⟩ := hm
    refine ⟨m, Machine.reaches_of_run hrun, ?_, fun howned => ?_⟩
    · exact not_exclusive_of_running (.inr (by rw [htasks]; rfl)) (by rw [htasks]; rfl)
    · obtain ⟨h, htask, hlookup | ⟨hne, -⟩⟩ := howned 0 _ (by rw [htasks]; rfl) rfl
      · rw [hlookup, Option.map_some, htask] at hhandle
        exact absurd hhandle (by decide)
      · exact hne hstage
  · have hsummary : (sampleRun (sampleStart [sampleConfig])
        [.main, .main, .task 0 .start, .sighup emptyDir, .main,
          .sighup (sampleDir "12580" "10.9.9.1/32"), .main, .task 1 .start]).map
            (fun r => r.1.summary) =
          some (.updating, [⟨"wg0", true, .running⟩, ⟨"wg0", false, .running⟩], none) := by
      decide
    obtain ⟨⟨m, os⟩, hrun, hm⟩ := Option.map_eq_some_iff.mp hsummary
    rw [summary, Prod.mk.injEq, Prod.mk.injEq] at hm
    obtain ⟨-, htasks, -⟩ := hm
    exact ⟨m, Machine.reaches_of_run hrun,
      not_exclusive_of_running (.inl (by rw [htasks]; rfl)) (by rw [htasks]; rfl)⟩

end Main

end NekoLink.Ctl
