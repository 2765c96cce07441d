import NekoLink.Ctl.Config
import NekoLink.Device.Routing

/-!
# A reload and a cold start

The start of `main` of `nekolink-ctl/src/main.rs` and one pass of its SIGHUP loop, on what they
leave behind: the current global configuration, the state of every active instance, the pipelines
of the signalling, and the calls of `setup_loopback_interface`. The tasks are left to `Tasks`.

The task of `start_signaling_tasks` reads the table of instances twice. A reload starts it before it
takes the write lock, so each of the reads sees the table before or after the pass.

* `lookup_update` says what the pass makes of each interface: an instance is kept when the only
  configuration of its interface is the one it runs with.
* **`hot_reload_iff`**: what a pass leaves behind is what a cold start with the new files would
  leave, under every order of the reads, exactly when `Agrees` holds before.
-/

namespace NekoLink.Ctl

open Wire Noise Device Routing

abbrev Instances := HashMap String NekoState

/-- The configurations of the instances. -/
def Instances.configs (instances : Instances) : List NekoConfig :=
  instances.entries.map fun e => e.2.config

/-! ## The signalling tasks -/

/-- The port of the UDP and TCP pipelines, zero for a random one, and the protocols of the raw
pipelines. -/
structure Pipelines where
  port : UInt16
  protocols : Finset UInt8
  deriving DecidableEq

/-- Some instance needs a fixed port. -/
def hasServer (configs : List NekoConfig) : Bool := configs.any NekoConfig.isServer

def signalingPort (global : GlobalConfig) (configs : List NekoConfig) : UInt16 :=
  if hasServer configs then global.signalPort else 0

def rawProtocols (configs : List NekoConfig) : Finset UInt8 :=
  ((configs.filter fun config => config.mode = "ip").map NekoConfig.rawProtocol).toFinset

/-- `start_signaling_tasks`, with the instances at the first and at the second read. -/
def startSignalingTasks (global : GlobalConfig) (first second : Instances) : Pipelines where
  port := signalingPort global first.configs
  protocols := rawProtocols second.configs

/-- Which of the two reads come before the write lock. -/
structure Reads where
  first : Bool
  second : Bool
  order : second = true → first = true

/-! ## The control plane -/

/-- The loopback interface is to be set up again. -/
def LoopbackDiffers (newGlobal currentGlobal : GlobalConfig) : Prop :=
  newGlobal.loopbackInterface ≠ currentGlobal.loopbackInterface ∨
    newGlobal.loopbackAddress ≠ currentGlobal.loopbackAddress

instance (newGlobal currentGlobal : GlobalConfig) :
    Decidable (LoopbackDiffers newGlobal currentGlobal) :=
  inferInstanceAs (Decidable (_ ∨ _))

structure Control where
  currentGlobal : GlobalConfig
  /-- `active_instances` -/
  instances : Instances
  signaling : Pipelines
  /-- The configurations with which `setup_loopback_interface` was called -/
  loopback : List GlobalConfig

section

variable (J : Codec) (C : Prims) (dir : ConfigDir)

/-- The instance of a configuration at the start. -/
def initialState (global : GlobalConfig) (config : NekoConfig) : Option NekoState :=
  (initialKeys J C dir config).map fun keys => ⟨config, keys.1, keys.2, global⟩

/-- The instance of a configuration at a reload. -/
def reloadState (global : GlobalConfig) (config : NekoConfig) : NekoState :=
  ⟨config, (reloadKeys J C dir config).1, (reloadKeys J C dir config).2, global⟩

/-- The table of instances at the start. -/
def initialInstances (global : GlobalConfig) (configs : List NekoConfig) : Option Instances :=
  configs.foldlM (fun instances config =>
    (initialState J C dir global config).map (instances.insert config.interface)) ∅

/-- The start of the control plane. The table is locked until the signalling task is started. -/
def coldStart : Option Control :=
  (loadConfigs J dir).bind fun (global, configs) =>
    (initialInstances J C dir global configs).map fun instances =>
      { currentGlobal := global
        instances := instances
        signaling := startSignalingTasks global instances instances
        loopback := [global] }

/-- One configuration: the instances that wait for theirs, and the next table. -/
def update (global : GlobalConfig) (q : Instances × Instances) (config : NekoConfig) :
    Instances × Instances :=
  let iface := config.interface
  match q.1.lookup iface with
  | some old =>
    if old.config ≠ config then
      (q.1.erase iface, q.2.insert iface (reloadState J C dir global config))
    else (q.1.erase iface, q.2.insert iface old)
  | none => (q.1, q.2.insert iface (reloadState J C dir global config))

/-- The table of instances after the pass. -/
def nextInstances (global : GlobalConfig) (configs : List NekoConfig) (instances : Instances) :
    Instances :=
  (configs.foldl (update J C dir global) (instances, ∅)).2

/-- One pass of the loop, with the reads of the signalling task it may start. -/
def reload (reads : Reads) (c : Control) : Control :=
  match loadConfigs J dir with
  | none => c
  | some (newGlobal, newConfigs) =>
    let next := nextInstances J C dir newGlobal newConfigs c.instances
    let c :=
      if newGlobal.signalPort ≠ c.currentGlobal.signalPort then
        { c with
          signaling := startSignalingTasks newGlobal (if reads.first then c.instances else next)
            (if reads.second then c.instances else next)
          currentGlobal := newGlobal }
      else c
    let c :=
      if LoopbackDiffers newGlobal c.currentGlobal then
        { c with loopback := c.loopback ++ [newGlobal], currentGlobal := newGlobal }
      else c
    { c with instances := next }

end

/-! ## What the configurations ask for -/

/-- The last configuration of an interface. -/
def lastFor (iface : String) : List NekoConfig → Option NekoConfig
  | [] => none
  | config :: configs =>
    (lastFor iface configs).or (if config.interface = iface then some config else none)

/-- The configurations that no later one of the same interface replaces. -/
def inForce (configs : List NekoConfig) : List NekoConfig :=
  configs.filter fun config => lastFor config.interface configs = some config

/-- The configurations of an interface. -/
def configsOf (iface : String) (configs : List NekoConfig) : List NekoConfig :=
  configs.filter fun config => config.interface = iface

variable {J : Codec} {C : Prims} {dir : ConfigDir} {global : GlobalConfig} {config : NekoConfig}
  {configs : List NekoConfig} {iface : String} {instances : Instances} {state : NekoState}

theorem lastFor_cons_of_ne (h : config.interface ≠ iface) :
    lastFor iface (config :: configs) = lastFor iface configs := by
  rw [lastFor, if_neg h, Option.or_none]

theorem configsOf_cons_of_ne (h : config.interface ≠ iface) :
    configsOf iface (config :: configs) = configsOf iface configs := by
  rw [configsOf, List.filter_cons_of_neg (by simpa using h), configsOf]

theorem configsOf_cons_self :
    configsOf config.interface (config :: configs) =
      config :: configsOf config.interface configs := by
  rw [configsOf, List.filter_cons_of_pos (by simp), configsOf]

theorem lastFor_eq_none : lastFor iface configs = none ↔ configsOf iface configs = [] := by
  induction configs with
  | nil => simp [lastFor, configsOf]
  | cons config configs ih =>
    by_cases h : config.interface = iface
    · subst h
      rw [configsOf_cons_self, lastFor, if_pos rfl]
      simp
    · rw [lastFor_cons_of_ne h, configsOf_cons_of_ne h, ih]

theorem lastFor_mem (h : lastFor iface configs = some config) :
    config ∈ configs ∧ config.interface = iface := by
  induction configs with
  | nil => cases h
  | cons head tail ih =>
    rw [lastFor, Option.or_eq_some_iff] at h
    rcases h with h | ⟨-, h⟩
    · exact ⟨List.mem_cons_of_mem _ (ih h).1, (ih h).2⟩
    · split_ifs at h with hiface
      cases h
      exact ⟨List.mem_cons_self, hiface⟩

theorem mem_inForce :
    config ∈ inForce configs ↔ lastFor config.interface configs = some config := by
  unfold inForce
  rw [List.mem_filter, decide_eq_true_iff]
  exact ⟨fun h => h.2, fun h => ⟨(lastFor_mem h).1, h⟩⟩

/-! ## The next table -/

/-- The instance an interface keeps: the only configuration it has is the one the instance runs
with. -/
def kept (instances : Instances) (configs : List NekoConfig) (iface : String) : Option NekoState :=
  (instances.lookup iface).filter fun state => configsOf iface configs = [state.config]

theorem kept_eq_some : kept instances configs iface = some state ↔
    instances.lookup iface = some state ∧ configsOf iface configs = [state.config] := by
  unfold kept
  rw [Option.filter_eq_some_iff, decide_eq_true_iff]

theorem kept_of_none (h : instances.lookup iface = none) : kept instances configs iface = none := by
  rw [kept, h, Option.filter_none]

variable (J C dir global) in
/-- One configuration leaves the other interfaces alone. -/
theorem update_of_ne (q : Instances × Instances) (h : config.interface ≠ iface) :
    (update J C dir global q config).1.lookup iface = q.1.lookup iface ∧
      (update J C dir global q config).2.lookup iface = q.2.lookup iface := by
  unfold update
  dsimp only
  rcases q.1.lookup config.interface with _ | old
  · exact ⟨rfl, AList.lookup_insert_ne h.symm⟩
  · dsimp only
    split_ifs
    · exact ⟨AList.lookup_erase_ne h.symm, AList.lookup_insert_ne h.symm⟩
    · exact ⟨AList.lookup_erase_ne h.symm, AList.lookup_insert_ne h.symm⟩

variable (J C dir global config) in
/-- It takes the instance of its own interface, and keeps it only when nothing has changed. -/
theorem update_self (q : Instances × Instances) :
    (update J C dir global q config).1.lookup config.interface = none ∧
      (update J C dir global q config).2.lookup config.interface =
        some (((q.1.lookup config.interface).filter fun old => old.config = config).getD
          (reloadState J C dir global config)) := by
  unfold update
  dsimp only
  rcases hold : q.1.lookup config.interface with _ | old
  · exact ⟨hold, AList.lookup_insert _⟩
  · dsimp only
    by_cases hconfig : old.config = config
    · rw [if_neg (not_not_intro hconfig)]
      refine ⟨AList.lookup_erase _ _, ?_⟩
      simp only [AList.lookup_insert, Option.filter_some, hconfig, decide_true, if_true,
        Option.getD_some]
    · rw [if_pos hconfig]
      refine ⟨AList.lookup_erase _ _, ?_⟩
      simp only [AList.lookup_insert, Option.filter_some, hconfig, decide_false, Bool.false_eq_true,
        if_false, Option.getD_none]

theorem lookup_foldl_update (old next : Instances) :
    (configs.foldl (update J C dir global) (old, next)).2.lookup iface =
      ((kept old configs iface).or ((lastFor iface configs).map (reloadState J C dir global))).or
        (next.lookup iface) := by
  induction configs generalizing old next with
  | nil =>
    have hkept : kept old [] iface = none := by
      rw [Option.eq_none_iff_forall_ne_some]
      intro state h
      exact absurd (kept_eq_some.mp h).2.symm (List.cons_ne_nil _ _)
    rw [hkept]
    rfl
  | cons config configs ih =>
    rw [List.foldl_cons, ih]
    by_cases h : config.interface = iface
    · subst h
      obtain ⟨hold', hnext'⟩ := update_self J C dir global config (old, next)
      rw [kept_of_none hold', hnext', Option.none_or, lastFor, if_pos rfl]
      -- A later configuration of the interface has the last word.
      rcases hlast : lastFor config.interface configs with _ | later
      · have hkept : kept old (config :: configs) config.interface =
            (old.lookup config.interface).filter fun state => state.config = config := by
          unfold kept
          congr 1
          funext state
          rw [configsOf_cons_self, lastFor_eq_none.mp hlast]
          simp [eq_comm]
        rw [hkept, Option.none_or, Option.map_none, Option.none_or, Option.map_some]
        dsimp only
        generalize (old.lookup config.interface).filter (fun state => state.config = config) = r
        cases r <;> rfl
      · have hkept : kept old (config :: configs) config.interface = none := by
          rw [Option.eq_none_iff_forall_ne_some]
          intro state h
          obtain ⟨-, hone⟩ := kept_eq_some.mp h
          rw [configsOf_cons_self, List.cons.injEq, ← lastFor_eq_none, hlast] at hone
          exact absurd hone.2 (Option.some_ne_none _)
        rw [hkept, Option.none_or, Option.map_some, Option.some_or, Option.some_or, Option.map_some,
          Option.some_or]
    · obtain ⟨hold', hnext'⟩ := update_of_ne J C dir global (old, next) h
      rw [hnext', lastFor_cons_of_ne h]
      simp only [kept, hold', configsOf_cons_of_ne h]

/-- **What a pass makes of an interface.** -/
theorem lookup_nextInstances :
    (nextInstances J C dir global configs instances).lookup iface =
      (kept instances configs iface).or
        ((lastFor iface configs).map (reloadState J C dir global)) := by
  rw [nextInstances, lookup_foldl_update, AList.lookup_empty, Option.or_none]

variable (J C dir global configs instances iface) in
/-- Every interface runs with its last configuration. -/
theorem config_nextInstances :
    ((nextInstances J C dir global configs instances).lookup iface).map NekoState.config =
      lastFor iface configs := by
  rw [lookup_nextInstances]
  rcases hkept : kept instances configs iface with _ | state
  · rw [Option.none_or, Option.map_map]
    exact Option.map_id'
  · rw [Option.some_or, Option.map_some]
    obtain ⟨-, hone⟩ := kept_eq_some.mp hkept
    have hlast : lastFor iface configs ≠ none := by
      rw [Ne, lastFor_eq_none, hone]
      exact List.cons_ne_nil _ _
    obtain ⟨config, hconfig⟩ := Option.ne_none_iff_exists'.mp hlast
    have hmem : config ∈ configsOf iface configs :=
      List.mem_filter.mpr ⟨(lastFor_mem hconfig).1, decide_eq_true (lastFor_mem hconfig).2⟩
    rw [hone, List.mem_singleton] at hmem
    rw [hconfig, hmem]

/-! ## The start -/

variable (iface) in
theorem foldlM_initialState {m m' : Instances}
    (h : configs.foldlM (fun (instances : Instances) config =>
      (initialState J C dir global config).map (instances.insert config.interface)) m = some m') :
    (m'.lookup iface).map NekoState.config =
      (lastFor iface configs).or ((m.lookup iface).map NekoState.config) := by
  induction configs generalizing m with
  | nil =>
    cases h
    rfl
  | cons config configs ih =>
    rw [List.foldlM_cons] at h
    obtain ⟨m₁, hm₁, hrest⟩ := Option.bind_eq_some_iff.mp h
    obtain ⟨state, hstate, rfl⟩ := Option.map_eq_some_iff.mp hm₁
    obtain ⟨keys, -, rfl⟩ := Option.map_eq_some_iff.mp hstate
    rw [ih hrest, lastFor, Option.or_assoc]
    by_cases hiface : config.interface = iface
    · subst hiface
      rw [AList.lookup_insert, if_pos rfl]
      rfl
    · rw [AList.lookup_insert_ne (Ne.symm hiface), if_neg hiface, Option.none_or]

theorem isSome_foldlM_initialState {m : Instances} :
    (configs.foldlM (fun (instances : Instances) config =>
      (initialState J C dir global config).map (instances.insert config.interface)) m).isSome ↔
      ∀ config ∈ configs, (initialKeys J C dir config).isSome := by
  induction configs generalizing m with
  | nil => simp
  | cons config configs ih =>
    rw [List.foldlM_cons, List.forall_mem_cons, initialState]
    rcases initialKeys J C dir config with _ | keys
    · simp
    · rw [← ih (m := m.insert config.interface ⟨config, keys.1, keys.2, global⟩)]
      simp

/-- The start succeeds when all keys can be read, and every interface then runs with its last
configuration. -/
theorem coldStart_eq_some (hload : loadConfigs J dir = some (global, configs)) :
    ((coldStart J C dir).isSome ↔ ∀ config ∈ configs, (initialKeys J C dir config).isSome) ∧
      ∀ cold, coldStart J C dir = some cold →
        (∀ iface, (cold.instances.lookup iface).map NekoState.config = lastFor iface configs) ∧
          cold.signaling = startSignalingTasks global cold.instances cold.instances ∧
          cold.currentGlobal = global := by
  unfold coldStart
  rw [hload, Option.bind_some]
  dsimp only
  constructor
  · rw [Option.isSome_map, initialInstances]
    exact isSome_foldlM_initialState
  · intro cold hcold
    obtain ⟨instances, hinstances, rfl⟩ := Option.map_eq_some_iff.mp hcold
    refine ⟨fun iface => ?_, rfl, rfl⟩
    have hlookup := foldlM_initialState iface hinstances
    rwa [AList.lookup_empty, Option.map_none, Option.or_none] at hlookup

/-! ## What the signalling depends on -/

theorem mem_configs :
    config ∈ instances.configs ↔
      ∃ iface, (instances.lookup iface).map NekoState.config = some config := by
  unfold Instances.configs
  rw [List.mem_map]
  constructor
  · rintro ⟨⟨iface, state⟩, hmem, rfl⟩
    exact ⟨iface, by rw [mem_entries_iff.mp hmem, Option.map_some]⟩
  · rintro ⟨iface, h⟩
    obtain ⟨state, hlookup, rfl⟩ := Option.map_eq_some_iff.mp h
    exact ⟨⟨iface, state⟩, mem_entries_iff.mpr hlookup, rfl⟩

theorem mem_configs_iff_inForce
    (h : ∀ iface, (instances.lookup iface).map NekoState.config = lastFor iface configs) :
    config ∈ instances.configs ↔ config ∈ inForce configs := by
  rw [mem_configs, mem_inForce]
  constructor
  · rintro ⟨iface, hiface⟩
    rw [h] at hiface
    rw [(lastFor_mem hiface).2, hiface]
  · intro hlast
    exact ⟨config.interface, by rw [h, hlast]⟩

theorem signalingPort_congr {configs' : List NekoConfig}
    (h : ∀ config, config ∈ configs ↔ config ∈ configs') :
    signalingPort global configs = signalingPort global configs' := by
  have hserver : hasServer configs = hasServer configs' := by
    rw [hasServer, hasServer, Bool.eq_iff_iff, List.any_eq_true, List.any_eq_true]
    simp only [h]
  rw [signalingPort, signalingPort, hserver]

theorem rawProtocols_congr {configs' : List NekoConfig}
    (h : ∀ config, config ∈ configs ↔ config ∈ configs') :
    rawProtocols configs = rawProtocols configs' := by
  unfold rawProtocols
  ext proto
  simp only [List.mem_toFinset, List.mem_map, List.mem_filter, h]

variable (global) in
/-- Instances that run the last configurations have the signalling of these. -/
theorem startSignalingTasks_inForce {first second : Instances}
    (hfirst : ∀ iface, (first.lookup iface).map NekoState.config = lastFor iface configs)
    (hsecond : ∀ iface, (second.lookup iface).map NekoState.config = lastFor iface configs) :
    startSignalingTasks global first second =
      ⟨signalingPort global (inForce configs), rawProtocols (inForce configs)⟩ := by
  rw [startSignalingTasks, signalingPort_congr fun _ => mem_configs_iff_inForce hfirst,
    rawProtocols_congr fun _ => mem_configs_iff_inForce hsecond]

/-! ## One pass -/

/-- What a pass with these files leaves behind, next to what a cold start leaves. -/
structure HotReload (global : GlobalConfig) (before after cold : Control) : Prop where
  loopback : LoopbackDiffers global before.currentGlobal →
    after.loopback = before.loopback ++ [global]
  carried : ∀ iface state, after.instances.lookup iface = some state →
    state.globalConfig = global
  signaling : after.signaling = cold.signaling
  instances : ∀ iface, (after.instances.lookup iface).map NekoState.config =
    (cold.instances.lookup iface).map NekoState.config

/-- When a pass with these files does the work of a cold start. -/
structure Agrees (J : Codec) (C : Prims) (dir : ConfigDir) (global : GlobalConfig)
    (configs : List NekoConfig) (c : Control) : Prop where
  /-- All keys can be read. -/
  keys : ∀ config ∈ configs, (initialKeys J C dir config).isSome
  /-- The port and the loopback do not change together. -/
  loopback : global.signalPort ≠ c.currentGlobal.signalPort →
    ¬ LoopbackDiffers global c.currentGlobal
  /-- An instance that is kept has the new global configuration already. -/
  carried : ∀ iface state, kept c.instances configs iface = some state →
    state.globalConfig = global
  /-- The old instances, when the pipelines are started again, and otherwise the running pipelines,
  already have the port and the protocols of the new instances. -/
  port : if global.signalPort ≠ c.currentGlobal.signalPort then
      signalingPort global c.instances.configs = signalingPort global (inForce configs)
    else c.signaling.port = signalingPort global (inForce configs)
  protocols : if global.signalPort ≠ c.currentGlobal.signalPort then
      rawProtocols c.instances.configs = rawProtocols (inForce configs)
    else c.signaling.protocols = rawProtocols (inForce configs)

section

variable {c : Control} {reads : Reads}

theorem reload_instances (hload : loadConfigs J dir = some (global, configs)) :
    (reload J C dir reads c).instances = nextInstances J C dir global configs c.instances := by
  rw [reload, hload]

theorem reload_signaling (hload : loadConfigs J dir = some (global, configs)) :
    (reload J C dir reads c).signaling =
      if global.signalPort ≠ c.currentGlobal.signalPort then
        let next := nextInstances J C dir global configs c.instances
        startSignalingTasks global (if reads.first then c.instances else next)
          (if reads.second then c.instances else next)
      else c.signaling := by
  rw [reload, hload]
  dsimp only
  split_ifs <;> rfl

theorem not_loopbackDiffers_self (global : GlobalConfig) : ¬ LoopbackDiffers global global := by
  simp [LoopbackDiffers]

/-- The loopback is compared with a configuration that the first comparison may have replaced. -/
theorem reload_loopback (hload : loadConfigs J dir = some (global, configs)) :
    (reload J C dir reads c).loopback =
      if global.signalPort = c.currentGlobal.signalPort ∧
          LoopbackDiffers global c.currentGlobal then
        c.loopback ++ [global]
      else c.loopback := by
  rw [reload, hload]
  dsimp only
  by_cases hport : global.signalPort = c.currentGlobal.signalPort
  · rw [if_neg (not_not_intro hport)]
    by_cases hdiffers : LoopbackDiffers global c.currentGlobal
    · rw [if_pos hdiffers, if_pos ⟨hport, hdiffers⟩]
    · rw [if_neg hdiffers, if_neg fun h => hdiffers h.2]
  · have hboth : ¬ (global.signalPort = c.currentGlobal.signalPort ∧
        LoopbackDiffers global c.currentGlobal) := fun h => hport h.1
    rw [if_pos hport, if_neg hboth, if_neg (not_loopbackDiffers_self global)]

/-- What the next pass compares with is what this one has loaded. -/
theorem reload_currentGlobal (hload : loadConfigs J dir = some (global, configs)) :
    (reload J C dir reads c).currentGlobal.signalPort = global.signalPort ∧
      ¬ LoopbackDiffers global (reload J C dir reads c).currentGlobal := by
  rw [reload, hload]
  dsimp only
  have hself := not_loopbackDiffers_self global
  by_cases hport : global.signalPort = c.currentGlobal.signalPort
  · rw [if_neg (not_not_intro hport)]
    by_cases hdiffers : LoopbackDiffers global c.currentGlobal
    · rw [if_pos hdiffers]
      exact ⟨rfl, hself⟩
    · rw [if_neg hdiffers]
      exact ⟨hport.symm, hdiffers⟩
  · rw [if_pos hport, if_neg hself]
    exact ⟨rfl, hself⟩

/-- The signalling after a pass is that of a cold start under every order of the reads. -/
theorem signaling_iff (hload : loadConfigs J dir = some (global, configs)) :
    (∀ reads, (reload J C dir reads c).signaling =
      ⟨signalingPort global (inForce configs), rawProtocols (inForce configs)⟩) ↔
      (if global.signalPort ≠ c.currentGlobal.signalPort then
        signalingPort global c.instances.configs = signalingPort global (inForce configs)
      else c.signaling.port = signalingPort global (inForce configs)) ∧
      (if global.signalPort ≠ c.currentGlobal.signalPort then
        rawProtocols c.instances.configs = rawProtocols (inForce configs)
      else c.signaling.protocols = rawProtocols (inForce configs)) := by
  simp only [reload_signaling hload]
  by_cases hport : global.signalPort ≠ c.currentGlobal.signalPort
  · simp only [if_pos hport]
    constructor
    · intro h
      have hold := h ⟨true, true, fun _ => rfl⟩
      rw [if_pos rfl, startSignalingTasks, Pipelines.mk.injEq] at hold
      exact hold
    · rintro ⟨hfirst, hsecond⟩ reads
      have hconfig := fun iface => config_nextInstances J C dir global configs iface c.instances
      have hnext := startSignalingTasks_inForce global hconfig hconfig
      rw [startSignalingTasks, Pipelines.mk.injEq] at hnext ⊢
      constructor
      · split_ifs
        · exact hfirst
        · exact hnext.1
      · split_ifs
        · exact hsecond
        · exact hnext.2
  · simp only [if_neg hport]
    constructor
    · intro h
      rw [h ⟨true, true, fun _ => rfl⟩]
      exact ⟨rfl, rfl⟩
    · rintro ⟨hfirst, hsecond⟩ -
      rw [← hfirst, ← hsecond]

/-- The instances carry the new global configuration when those that are kept do. -/
theorem globalConfig_iff (hload : loadConfigs J dir = some (global, configs)) :
    (∀ iface state, (reload J C dir reads c).instances.lookup iface = some state →
      state.globalConfig = global) ↔
      ∀ iface state, kept c.instances configs iface = some state →
        state.globalConfig = global := by
  simp only [reload_instances hload, lookup_nextInstances]
  constructor
  · intro h iface state hkept
    exact h iface state (by rw [hkept, Option.some_or])
  · intro h iface state hlookup
    rcases hkept : kept c.instances configs iface with _ | state'
    · rw [hkept, Option.none_or] at hlookup
      obtain ⟨config, -, rfl⟩ := Option.map_eq_some_iff.mp hlookup
      rfl
    · rw [hkept, Option.some_or] at hlookup
      rw [← Option.some.inj hlookup]
      exact h iface state' hkept

theorem loopback_iff (hload : loadConfigs J dir = some (global, configs)) :
    (LoopbackDiffers global c.currentGlobal →
      (reload J C dir reads c).loopback = c.loopback ++ [global]) ↔
      (global.signalPort ≠ c.currentGlobal.signalPort →
        ¬ LoopbackDiffers global c.currentGlobal) := by
  rw [reload_loopback hload]
  constructor
  · intro h hport hdiffers
    have hsetup := h hdiffers
    rw [if_neg fun hboth => hport hboth.1] at hsetup
    exact absurd hsetup.symm (by simp)
  · intro h hdiffers
    by_cases hport : global.signalPort = c.currentGlobal.signalPort
    · rw [if_pos ⟨hport, hdiffers⟩]
    · exact absurd hdiffers (h hport)

/-- **A hot reload equals a cold start exactly when the files agree with what runs.** -/
theorem hot_reload_iff (hload : loadConfigs J dir = some (global, configs)) :
    (∀ reads, ∃ cold, coldStart J C dir = some cold ∧
      HotReload global c (reload J C dir reads c) cold) ↔
      Agrees J C dir global configs c := by
  obtain ⟨hkeys, hcold⟩ := coldStart_eq_some (C := C) hload
  constructor
  · intro h
    have hsignaling : ∀ reads, (reload J C dir reads c).signaling =
        ⟨signalingPort global (inForce configs), rawProtocols (inForce configs)⟩ := by
      intro reads
      obtain ⟨cold, hsome, hreload⟩ := h reads
      obtain ⟨hlookup, heq, -⟩ := hcold cold hsome
      rw [hreload.signaling, heq, startSignalingTasks_inForce _ hlookup hlookup]
    obtain ⟨hport, hprotocols⟩ := (signaling_iff hload).mp hsignaling
    obtain ⟨cold, hsome, hreload⟩ := h ⟨true, true, fun _ => rfl⟩
    exact
      { keys := hkeys.mp (by rw [hsome, Option.isSome_some])
        loopback := (loopback_iff hload).mp hreload.loopback
        carried := (globalConfig_iff hload).mp hreload.carried
        port := hport
        protocols := hprotocols }
  · intro h reads
    obtain ⟨cold, hsome⟩ := Option.isSome_iff_exists.mp (hkeys.mpr h.keys)
    obtain ⟨hlookup, heq, -⟩ := hcold cold hsome
    refine ⟨cold, hsome, ?_⟩
    exact
      { loopback := (loopback_iff hload).mpr h.loopback
        carried := (globalConfig_iff hload).mpr h.carried
        signaling := by
          rw [(signaling_iff hload).mpr ⟨h.port, h.protocols⟩, heq,
            startSignalingTasks_inForce _ hlookup hlookup]
        instances := fun iface => by
          rw [reload_instances hload, config_nextInstances, hlookup] }

end

/-! ## A change of the port and the loopback -/

/-- A secret of thirty-two ones, as text. -/
def sampleKeyText : String := "AQEBAQEBAQEBAQEBAQEBAQEBAQEBAQEBAQEBAQEBAQE="

def sampleGlobalText (port address : String) : String :=
  "\x7b\"signal_port\":" ++ port ++ ",\"loopback_interface\":\"neko-lo\"," ++
    "\"loopback_address\":\"" ++ address ++ "\"\x7d"

def sampleGlobal (port : UInt16) (address : String) : GlobalConfig :=
  ⟨port, some "neko-lo", some address, none⟩

def sampleConfigText : String :=
  "\x7b\"interface\":\"wg0\",\"local_address\":\"10.0.0.1/24\",\"psk\":\"meow\",\"peers\":[]\x7d"

def sampleConfig : NekoConfig := .default "wg0" "10.0.0.1/24" "meow" []

/-- Another interface. -/
def sampleOtherText : String :=
  "\x7b\"interface\":\"wg1\",\"local_address\":\"10.1.0.1/24\",\"psk\":\"meow\",\"peers\":[]\x7d"

def sampleOther : NekoConfig := .default "wg1" "10.1.0.1/24" "meow" []

/-- The crates on the texts above. -/
def sampleCodec : Codec where
  base64Decode s := if s = sampleKeyText.toList then some (List.replicate 32 1) else none
  ipAddr _ := none
  socketAddr _ := none
  base64Encode b := if b = List.replicate 32 1 then sampleKeyText.toList else []
  globalConfig s :=
    if s = sampleGlobalText "12580" "10.9.9.1/32" then some (sampleGlobal 12580 "10.9.9.1/32")
    else if s = sampleGlobalText "12581" "10.9.9.2/32" then some (sampleGlobal 12581 "10.9.9.2/32")
    else none
  nekoConfig s :=
    if s = sampleConfigText then some sampleConfig
    else if s = sampleOtherText then some sampleOther
    else none

/-- A directory with one interface that waits for its peers. -/
def sampleDir (port address : String) : ConfigDir where
  jsonFiles := [("global.json", some (sampleGlobalText port address)),
    ("wg0.json", some sampleConfigText)]
  keyFile iface := if iface = "wg0" then some sampleKeyText else none
  newKey _ := (zeros 32, true)

theorem loadConfigs_before :
    loadConfigs sampleCodec (sampleDir "12580" "10.9.9.1/32") =
      some (sampleGlobal 12580 "10.9.9.1/32", [sampleConfig]) := by
  decide

theorem loadConfigs_after :
    loadConfigs sampleCodec (sampleDir "12581" "10.9.9.2/32") =
      some (sampleGlobal 12581 "10.9.9.2/32", [sampleConfig]) := by
  decide

/-- The first directory with another interface in it. -/
def addedDir : ConfigDir :=
  { sampleDir "12580" "10.9.9.1/32" with
    jsonFiles := [("global.json", some (sampleGlobalText "12580" "10.9.9.1/32")),
      ("wg0.json", some sampleConfigText), ("wg1.json", some sampleOtherText)] }

theorem loadConfigs_added :
    loadConfigs sampleCodec addedDir =
      some (sampleGlobal 12580 "10.9.9.1/32", [sampleConfig, sampleOther]) := by
  decide

/-- An interface is added to what runs. -/
theorem agrees_added {c : Control}
    (hc : coldStart sampleCodec checksumPrims (sampleDir "12580" "10.9.9.1/32") = some c) :
    Agrees sampleCodec checksumPrims addedDir (sampleGlobal 12580 "10.9.9.1/32")
      [sampleConfig, sampleOther] c := by
  have hstart : ∀ c' ∈ coldStart sampleCodec checksumPrims (sampleDir "12580" "10.9.9.1/32"),
      c'.currentGlobal.signalPort = 12580 ∧ c'.signaling.port = 12580 ∧
        c'.signaling.protocols = ∅ ∧
          ∀ e ∈ c'.instances.entries, e.2.globalConfig = sampleGlobal 12580 "10.9.9.1/32" := by
    decide
  obtain ⟨hcurrent, hport, hprotocols, hglobal⟩ := hstart c hc
  have hsame : ¬ (sampleGlobal 12580 "10.9.9.1/32").signalPort ≠ c.currentGlobal.signalPort :=
    not_not.mpr hcurrent.symm
  exact
    { keys := by decide
      loopback := fun hne => absurd hne hsame
      carried := fun iface state hkept =>
        hglobal ⟨iface, state⟩ (AList.mem_lookup_iff.mp (kept_eq_some.mp hkept).1)
      port := by
        rw [if_neg hsame, hport]
        decide
      protocols := by
        rw [if_neg hsame, hprotocols]
        decide }

/-- The equivalence for these files, after a start with the first ones; where only an interface is
added, the reload does the work of a cold start. -/
theorem hot_reload_iff_sample :
    ∃ c, coldStart sampleCodec checksumPrims (sampleDir "12580" "10.9.9.1/32") = some c ∧
      ((∀ reads, ∃ cold,
        coldStart sampleCodec checksumPrims (sampleDir "12581" "10.9.9.2/32") = some cold ∧
          HotReload (sampleGlobal 12581 "10.9.9.2/32") c
            (reload sampleCodec checksumPrims (sampleDir "12581" "10.9.9.2/32") reads c) cold) ↔
        Agrees sampleCodec checksumPrims (sampleDir "12581" "10.9.9.2/32")
          (sampleGlobal 12581 "10.9.9.2/32") [sampleConfig] c) ∧
      ∀ reads, ∃ cold, coldStart sampleCodec checksumPrims addedDir = some cold ∧
        HotReload (sampleGlobal 12580 "10.9.9.1/32") c
          (reload sampleCodec checksumPrims addedDir reads c) cold := by
  obtain ⟨hkeys, -⟩ := coldStart_eq_some (C := checksumPrims) loadConfigs_before
  obtain ⟨c, hc⟩ := Option.isSome_iff_exists.mp (hkeys.mpr (by decide))
  exact ⟨c, hc, hot_reload_iff loadConfigs_after,
    (hot_reload_iff loadConfigs_added).mpr (agrees_added hc)⟩

/-- **When the port and the address of the loopback change together, the loopback is not set up
again.** -/
theorem reload_misses_loopback :
    ∃ c, coldStart sampleCodec checksumPrims (sampleDir "12580" "10.9.9.1/32") = some c ∧
      ∀ reads cold,
        ¬ HotReload (sampleGlobal 12581 "10.9.9.2/32") c
          (reload sampleCodec checksumPrims (sampleDir "12581" "10.9.9.2/32") reads c) cold := by
  obtain ⟨hkeys, hcold⟩ := coldStart_eq_some (C := checksumPrims) loadConfigs_before
  obtain ⟨c, hc⟩ := Option.isSome_iff_exists.mp (hkeys.mpr (by decide))
  obtain ⟨-, -, hglobal⟩ := hcold c hc
  refine ⟨c, hc, fun reads cold h => ?_⟩
  have hport : (sampleGlobal 12581 "10.9.9.2/32").signalPort ≠ c.currentGlobal.signalPort := by
    rw [hglobal]
    decide
  have hdiffers : LoopbackDiffers (sampleGlobal 12581 "10.9.9.2/32") c.currentGlobal := by
    rw [hglobal]
    decide
  exact (loopback_iff loadConfigs_after).mp h.loopback hport hdiffers

end NekoLink.Ctl
