import Lissandra.RecordText

/-! # The configuration of the processes

The part of `generic_config.c` that makes values of a file's properties, and the `config.c` of each
process.  Some fields are read at the start only.  What the file says later is taken over in the
others, and the reload of a reload is the last of them (`ConfigProgram.Lawful`).
-/
namespace Lissandra

/-! ## Properties -/

/-- What `config_create` makes of a file.  A line without a `=`, or with nothing behind it, is a
property whose value is `NULL`. -/
abbrev Properties := List (Bytes × Option CString)

/-- `validate_config_properties`. -/
def validateConfigProperties (config : Properties) (keys : List Bytes) : Bool :=
  keys.all fun key => (config.lookup key).isSome

/-- Those of the properties that are there have values. -/
def HasValues (config : Properties) (keys : List Bytes) : Prop :=
  ∀ key ∈ keys, config.lookup key ≠ some none

instance (config : Properties) (keys : List Bytes) : Decidable (HasValues config keys) :=
  inferInstanceAs (Decidable (∀ _ ∈ _, _))

/-- `config_get_string_value`; `none` is `NULL`. -/
def configGetStringValue (key : Bytes) (config : Properties) : Option CString :=
  (config.lookup key).join

theorem value_of_valid {config : Properties} {keys : List Bytes}
    (h : validateConfigProperties config keys = true) (hvalues : HasValues config keys) :
    ∀ key ∈ keys, ∃ value, configGetStringValue key config = some value := by
  intro key hkey
  obtain ⟨entry, hentry⟩ := Option.isSome_iff_exists.mp (List.all_eq_true.mp h key hkey)
  cases entry with
  | none => exact absurd hentry (hvalues key hkey)
  | some value => exact ⟨value, by rw [configGetStringValue, hentry]; rfl⟩

/-- `init_int_config_value`.  It crashes on a `NULL`, which `validate_config` does not look for. -/
def initIntConfigValue (key : Bytes) (config : Properties) : Option Int32 :=
  (configGetStringValue key config).map fun value => stringToInt value.bytes

/-- `update_int_config_value`, which only says whether the value is new. -/
def updateIntConfigValue (_ : Int32) (key : Bytes) (config : Properties) : Option Int32 :=
  initIntConfigValue key config

/-- `init_str_config_value`. -/
def initStrConfigValue (key : Bytes) (config : Properties) : Option CString :=
  configGetStringValue key config

/-- `init_str_array_config_value`, by `config_get_array_value`. -/
def initStrArrayConfigValue (asArray : CString → List CString) (key : Bytes)
    (config : Properties) : Option (List CString) :=
  (configGetStringValue key config).map asArray

/-- `init_int_array_config_value`. -/
def initIntArrayConfigValue (asArray : CString → List CString) (key : Bytes)
    (config : Properties) : Option (List Int32) :=
  (initStrArrayConfigValue asArray key config).map (·.map fun value => stringToInt value.bytes)

/-- The arguments of `init_config`. -/
structure ConfigProgram (G : Type) where
  configFile : CString
  configKeys : List Bytes
  callbackCreated : Properties → Option G
  callbackUpdated : G → Properties → Option G

/-- `reload first last` is what a process has that started with `first` and has last read `last`. -/
structure ConfigProgram.Lawful {G : Type} (program : ConfigProgram G) (reload : G → G → G) :
    Prop where
  created {config : Properties} :
    validateConfigProperties config program.configKeys = true →
      HasValues config program.configKeys →
        ∃ last, program.callbackCreated config = some last ∧
          ∀ g, program.callbackUpdated g config = some (reload g last)
  reload_self (g : G) : reload g g = g
  reload_reload (g middle last : G) : reload (reload g middle) last = reload g last

/-! ## The kernel -/

def ipMemoriaKey : Bytes := [73, 80, 95, 77, 69, 77, 79, 82, 73, 65]
def puertoMemoriaKey : Bytes := [80, 85, 69, 82, 84, 79, 95, 77, 69, 77, 79, 82, 73, 65]
def quantumKey : Bytes := [81, 85, 65, 78, 84, 85, 77]
def multiprocesamientoKey : Bytes :=
  [77, 85, 76, 84, 73, 80, 82, 79, 67, 69, 83, 65, 77, 73, 69, 78, 84, 79]
def metadataRefreshKey : Bytes := [77, 69, 84, 65, 68, 65, 84, 65, 95, 82, 69, 70, 82, 69, 83, 72]
def sleepEjecucionKey : Bytes := [83, 76, 69, 69, 80, 95, 69, 74, 69, 67, 85, 67, 73, 79, 78]
def ltsDelayKey : Bytes := [76, 84, 83, 95, 68, 69, 76, 65, 89]
def metricsDisplayKey : Bytes := [77, 69, 84, 82, 73, 67, 83, 95, 68, 73, 83, 80, 76, 65, 89]
def gossipRefreshKey : Bytes := [71, 79, 83, 83, 73, 80, 95, 82, 69, 70, 82, 69, 83, 72]

structure KnConfig where
  memoryIp : CString
  memoryPort : Int32
  quantum : Int32
  multiprocessing : Int32
  metadataRefresh : Int32
  executionDelay : Int32
  ltsDelay : Int32
  metricsDisplay : Int32
  gossipRefresh : Int32
  deriving DecidableEq

def initializeKernelConfig (config : Properties) : Option KnConfig := do
  let memoryIp ← initStrConfigValue ipMemoriaKey config
  let memoryPort ← initIntConfigValue puertoMemoriaKey config
  let quantum ← initIntConfigValue quantumKey config
  let multiprocessing ← initIntConfigValue multiprocesamientoKey config
  let metadataRefresh ← initIntConfigValue metadataRefreshKey config
  let executionDelay ← initIntConfigValue sleepEjecucionKey config
  let ltsDelay ← initIntConfigValue ltsDelayKey config
  let metricsDisplay ← initIntConfigValue metricsDisplayKey config
  let gossipRefresh ← initIntConfigValue gossipRefreshKey config
  return ⟨memoryIp, memoryPort, quantum, multiprocessing, metadataRefresh, executionDelay, ltsDelay,
    metricsDisplay, gossipRefresh⟩

def updateKernelConfig (g : KnConfig) (config : Properties) : Option KnConfig := do
  let quantum ← updateIntConfigValue g.quantum quantumKey config
  let metadataRefresh ← updateIntConfigValue g.metadataRefresh metadataRefreshKey config
  let executionDelay ← updateIntConfigValue g.executionDelay sleepEjecucionKey config
  let ltsDelay ← updateIntConfigValue g.ltsDelay ltsDelayKey config
  let metricsDisplay ← updateIntConfigValue g.metricsDisplay metricsDisplayKey config
  let gossipRefresh ← updateIntConfigValue g.gossipRefresh gossipRefreshKey config
  return { g with
    quantum, metadataRefresh, executionDelay, ltsDelay, metricsDisplay, gossipRefresh }

/-- `kernel.cfg`. -/
def kernelProgram : ConfigProgram KnConfig where
  configFile := .ofBytes [107, 101, 114, 110, 101, 108, 46, 99, 102, 103]
  configKeys := [ipMemoriaKey, puertoMemoriaKey, quantumKey, multiprocesamientoKey,
    metadataRefreshKey, sleepEjecucionKey, ltsDelayKey, metricsDisplayKey, gossipRefreshKey]
  callbackCreated := initializeKernelConfig
  callbackUpdated := updateKernelConfig

/-- The slots, and where the first memory is, stay as they were. -/
def KnConfig.reload (first last : KnConfig) : KnConfig :=
  { last with
    memoryIp := first.memoryIp
    memoryPort := first.memoryPort
    multiprocessing := first.multiprocessing }

theorem kernelProgram_lawful : kernelProgram.Lawful KnConfig.reload where
  created h hvalues := by
    have present := value_of_valid h hvalues
    simp only [kernelProgram, List.forall_mem_cons] at present
    obtain ⟨⟨ip, hip⟩, ⟨port, hport⟩, ⟨quantum, hquantum⟩, ⟨slots, hslots⟩, ⟨refresh, hrefresh⟩,
      ⟨sleep, hsleep⟩, ⟨delay, hdelay⟩, ⟨display, hdisplay⟩, ⟨gossip, hgossip⟩, -⟩ := present
    simp only [kernelProgram, initializeKernelConfig, updateKernelConfig, updateIntConfigValue,
      initStrConfigValue, initIntConfigValue, hip, hport, hquantum, hslots, hrefresh, hsleep,
      hdelay, hdisplay, hgossip]
    exact ⟨_, rfl, fun _ => rfl⟩
  reload_self _ := rfl
  reload_reload _ _ _ := rfl

/-! ## The filesystem -/

def puertoEscuchaKey : Bytes := [80, 85, 69, 82, 84, 79, 95, 69, 83, 67, 85, 67, 72, 65]
def puntoMontajeKey : Bytes := [80, 85, 78, 84, 79, 95, 77, 79, 78, 84, 65, 74, 69]
def retardoKey : Bytes := [82, 69, 84, 65, 82, 68, 79]
def tamanoValueKey : Bytes := [84, 65, 77, 65, 195, 145, 79, 95, 86, 65, 76, 85, 69]
def tiempoDumpKey : Bytes := [84, 73, 69, 77, 80, 79, 95, 68, 85, 77, 80]

structure FsconfigT where
  port : Int32
  mountPoint : CString
  delay : Int32
  maxValueSize : Int32
  dumpTime : Int32
  deriving DecidableEq

def initializeFsConfig (config : Properties) : Option FsconfigT := do
  let mountPoint ← initStrConfigValue puntoMontajeKey config
  let port ← initIntConfigValue puertoEscuchaKey config
  let delay ← initIntConfigValue retardoKey config
  let maxValueSize ← initIntConfigValue tamanoValueKey config
  let dumpTime ← initIntConfigValue tiempoDumpKey config
  return ⟨port, mountPoint, delay, maxValueSize, dumpTime⟩

def updateFsConfig (g : FsconfigT) (config : Properties) : Option FsconfigT := do
  let delay ← updateIntConfigValue g.delay retardoKey config
  let dumpTime ← updateIntConfigValue g.dumpTime tiempoDumpKey config
  return { g with delay, dumpTime }

/-- `filesystem.cfg`. -/
def filesystemProgram : ConfigProgram FsconfigT where
  configFile := .ofBytes [102, 105, 108, 101, 115, 121, 115, 116, 101, 109, 46, 99, 102, 103]
  configKeys := [puertoEscuchaKey, puntoMontajeKey, retardoKey, tamanoValueKey, tiempoDumpKey]
  callbackCreated := initializeFsConfig
  callbackUpdated := updateFsConfig

/-- The port, the mount point and the size of a value stay as they were. -/
def FsconfigT.reload (first last : FsconfigT) : FsconfigT :=
  { first with
    delay := last.delay
    dumpTime := last.dumpTime }

theorem filesystemProgram_lawful : filesystemProgram.Lawful FsconfigT.reload where
  created h hvalues := by
    have present := value_of_valid h hvalues
    simp only [filesystemProgram, List.forall_mem_cons] at present
    obtain ⟨⟨port, hport⟩, ⟨point, hpoint⟩, ⟨delay, hdelay⟩, ⟨size, hsize⟩, ⟨dump, hdump⟩, -⟩ :=
      present
    simp only [filesystemProgram, initializeFsConfig, updateFsConfig, updateIntConfigValue,
      initStrConfigValue, initIntConfigValue, hport, hpoint, hdelay, hsize, hdump]
    exact ⟨_, rfl, fun _ => rfl⟩
  reload_self _ := rfl
  reload_reload _ _ _ := rfl

/-! ## A memory -/

def ipKey : Bytes := [73, 80]
def puertoKey : Bytes := [80, 85, 69, 82, 84, 79]
def ipFsKey : Bytes := [73, 80, 95, 70, 83]
def puertoFsKey : Bytes := [80, 85, 69, 82, 84, 79, 95, 70, 83]
def ipSeedsKey : Bytes := [73, 80, 95, 83, 69, 69, 68, 83]
def puertoSeedsKey : Bytes := [80, 85, 69, 82, 84, 79, 95, 83, 69, 69, 68, 83]
def retardoMemKey : Bytes := [82, 69, 84, 65, 82, 68, 79, 95, 77, 69, 77]
def retardoFsKey : Bytes := [82, 69, 84, 65, 82, 68, 79, 95, 70, 83]
def tamMemKey : Bytes := [84, 65, 77, 95, 77, 69, 77]
def retardoJournalKey : Bytes := [82, 69, 84, 65, 82, 68, 79, 95, 74, 79, 85, 82, 78, 65, 76]
def retardoGossipingKey : Bytes :=
  [82, 69, 84, 65, 82, 68, 79, 95, 71, 79, 83, 83, 73, 80, 73, 78, 71]
def memoryNumberKey : Bytes := [77, 69, 77, 79, 82, 89, 95, 78, 85, 77, 66, 69, 82]
def valueDelayKey : Bytes := [86, 65, 76, 85, 69, 95, 68, 69, 76, 65, 89]

structure MemconfigT where
  ip : CString
  port : Int32
  filesystemIp : CString
  filesystemPort : Int32
  seedIps : List CString
  seedPorts : List Int32
  memoryDelay : Int32
  filesystemDelay : Int32
  memorySize : Int32
  journalDelay : Int32
  gossipDelay : Int32
  memoryNumber : Int32
  valueDelay : Int32
  deriving DecidableEq

def initializeMemoryConfig (asArray : CString → List CString) (config : Properties) :
    Option MemconfigT := do
  let ip ← initStrConfigValue ipKey config
  let port ← initIntConfigValue puertoKey config
  let filesystemIp ← initStrConfigValue ipFsKey config
  let filesystemPort ← initIntConfigValue puertoFsKey config
  let seedIps ← initStrArrayConfigValue asArray ipSeedsKey config
  let seedPorts ← initIntArrayConfigValue asArray puertoSeedsKey config
  let memoryDelay ← initIntConfigValue retardoMemKey config
  let filesystemDelay ← initIntConfigValue retardoFsKey config
  let memorySize ← initIntConfigValue tamMemKey config
  let journalDelay ← initIntConfigValue retardoJournalKey config
  let gossipDelay ← initIntConfigValue retardoGossipingKey config
  let memoryNumber ← initIntConfigValue memoryNumberKey config
  let valueDelay ← initIntConfigValue valueDelayKey config
  return ⟨ip, port, filesystemIp, filesystemPort, seedIps, seedPorts, memoryDelay, filesystemDelay,
    memorySize, journalDelay, gossipDelay, memoryNumber, valueDelay⟩

def updateMemoryConfig (g : MemconfigT) (config : Properties) : Option MemconfigT := do
  let memoryDelay ← updateIntConfigValue g.memoryDelay retardoMemKey config
  let filesystemDelay ← updateIntConfigValue g.filesystemDelay retardoFsKey config
  let journalDelay ← updateIntConfigValue g.journalDelay retardoJournalKey config
  let gossipDelay ← updateIntConfigValue g.gossipDelay retardoGossipingKey config
  let valueDelay ← updateIntConfigValue g.valueDelay valueDelayKey config
  return { g with memoryDelay, filesystemDelay, journalDelay, gossipDelay, valueDelay }

/-- `memoria.cfg`. -/
def memoriaProgram (asArray : CString → List CString) : ConfigProgram MemconfigT where
  configFile := .ofBytes [109, 101, 109, 111, 114, 105, 97, 46, 99, 102, 103]
  configKeys := [ipKey, puertoKey, ipFsKey, puertoFsKey, ipSeedsKey, puertoSeedsKey, retardoMemKey,
    retardoFsKey, tamMemKey, retardoJournalKey, retardoGossipingKey, memoryNumberKey, valueDelayKey]
  callbackCreated := initializeMemoryConfig asArray
  callbackUpdated := updateMemoryConfig

/-- The addresses, the seeds, the number and the size of the memory stay as they were. -/
def MemconfigT.reload (first last : MemconfigT) : MemconfigT :=
  { first with
    memoryDelay := last.memoryDelay
    filesystemDelay := last.filesystemDelay
    journalDelay := last.journalDelay
    gossipDelay := last.gossipDelay
    valueDelay := last.valueDelay }

theorem memoriaProgram_lawful (asArray : CString → List CString) :
    (memoriaProgram asArray).Lawful MemconfigT.reload where
  created h hvalues := by
    have present := value_of_valid h hvalues
    simp only [memoriaProgram, List.forall_mem_cons] at present
    obtain ⟨⟨ip, hip⟩, ⟨port, hport⟩, ⟨fsIp, hfsIp⟩, ⟨fsPort, hfsPort⟩, ⟨seeds, hseeds⟩,
      ⟨ports, hports⟩, ⟨delay, hdelay⟩, ⟨fsDelay, hfsDelay⟩, ⟨size, hsize⟩, ⟨journal, hjournal⟩,
      ⟨gossip, hgossip⟩, ⟨number, hnumber⟩, ⟨value, hvalue⟩, -⟩ := present
    simp only [memoriaProgram, initializeMemoryConfig, updateMemoryConfig, updateIntConfigValue,
      initStrConfigValue, initIntConfigValue, initStrArrayConfigValue, initIntArrayConfigValue, hip,
      hport, hfsIp, hfsPort, hseeds, hports, hdelay, hfsDelay, hsize, hjournal, hgossip, hnumber,
      hvalue]
    exact ⟨_, rfl, fun _ => rfl⟩
  reload_self _ := rfl
  reload_reload _ _ _ := rfl

end Lissandra
