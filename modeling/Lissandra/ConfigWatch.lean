import Lissandra.Configuration

/-! # Changes of the configuration file

`check_config` of `generic_config.c`.  The thread reads the file again whenever inotify says that a
writer has closed it.  A `read` brings several events of different lengths, among them those of
other files of the directory, equal events that wait are one, and the file may have been written
again before the thread looks at it.

In the fields that a process takes over it has what one version of the file said, and once there is
nothing left to look at this is the version in the file (`gConfig_follows_file`).  A change between
the first read and `inotify_add_watch`, by a file that is moved into place, or whose event is lost
when the queue is full, is not told of.  A property without a value is not noticed, and the read of
its `NULL` crashes, so versions of the file are taken to have none.
-/
namespace Lissandra

/-- A process with a configuration file. -/
inductive ConfiguredProcess
  | kernel
  | filesystem
  | memoria (asArray : CString → List CString)

namespace ConfiguredProcess

/-- The type of its `g_config`. -/
def GConfig : ConfiguredProcess → Type
  | kernel => KnConfig
  | filesystem => FsconfigT
  | memoria _ => MemconfigT

def program : (process : ConfiguredProcess) → ConfigProgram process.GConfig
  | kernel => kernelProgram
  | filesystem => filesystemProgram
  | memoria asArray => memoriaProgram asArray

def reload : (process : ConfiguredProcess) → process.GConfig → process.GConfig → process.GConfig
  | kernel => KnConfig.reload
  | filesystem => FsconfigT.reload
  | memoria _ => MemconfigT.reload

theorem lawful (process : ConfiguredProcess) : process.program.Lawful process.reload := by
  cases process with
  | kernel => exact kernelProgram_lawful
  | filesystem => exact filesystemProgram_lawful
  | memoria asArray => exact memoriaProgram_lawful asArray

/-- The process has what it makes of the file, if this has all properties. -/
def UpToDate (process : ConfiguredProcess) (start g : process.GConfig)
    (file : Option Properties) : Prop :=
  ∀ config last, file = some config →
    validateConfigProperties config process.program.configKeys = true →
      process.program.callbackCreated config = some last → g = process.reload start last

/-- The process has what it makes of one of these versions of the file. -/
def Follows (process : ConfiguredProcess) (start g : process.GConfig)
    (versions : List Properties) : Prop :=
  ∃ config ∈ versions, validateConfigProperties config process.program.configKeys = true ∧
    ∃ last, process.program.callbackCreated config = some last ∧ g = process.reload start last

theorem Follows.append {process : ConfiguredProcess} {start g : process.GConfig}
    {versions : List Properties} (h : process.Follows start g versions) (more : List Properties) :
    process.Follows start g (versions ++ more) := by
  obtain ⟨config, hmem, hlast⟩ := h
  exact ⟨config, List.mem_append_left _ hmem, hlast⟩

end ConfiguredProcess

/-! ## Events -/

/-- `struct inotify_event`.  `padding` is the number of NULs after the one of the name. -/
structure InotifyEvent where
  wd : Int32
  mask : UInt32
  cookie : UInt32
  name : Option CString
  padding : Nat
  deriving DecidableEq

namespace InotifyEvent

def nameField (event : InotifyEvent) : Bytes :=
  match event.name with
  | none => []
  | some name => name.terminated ++ List.replicate event.padding 0

/-- The bytes that `read` puts into the buffer. -/
def encode (event : InotifyEvent) : Bytes :=
  int32Codec.encode event.wd ++ uint32Codec.encode event.mask ++ uint32Codec.encode event.cookie ++
    uint32Codec.encode (.ofNat event.nameField.length) ++ event.nameField

/-- What inotify says when its queue is full. -/
def overflow : InotifyEvent := ⟨-1, 0x4000, 0, none, 0⟩

theorem length_encode (event : InotifyEvent) :
    event.encode.length = 16 + event.nameField.length := by
  simp [encode, ScalarCodec.length_encode]
  omega

theorem length_nameField_le {event : InotifyEvent} {events : List InotifyEvent}
    (h : event ∈ events) : event.nameField.length ≤ (events.flatMap encode).length := by
  obtain ⟨before, after, rfl⟩ := List.append_of_mem h
  simp only [List.flatMap_append, List.flatMap_cons, List.length_append, length_encode]
  omega

end InotifyEvent

/-- `len`, and `name` unless `len` is 0, of the event at an offset of the buffer. -/
def eventAt (buffer : Bytes) (offset : Nat) : Option (UInt32 × Option CString) := do
  let len ← scalarAt uint32Codec buffer (offset + 12)
  if len = 0 then return (len, none)
  let name ← CString.ofBuffer (buffer.drop (offset + 16))
  return (len, some name)

theorem eventAt_of_drop {event : InotifyEvent} {buffer after : Bytes} {offset : Nat}
    (hlen : event.nameField.length < 2 ^ 32)
    (h : buffer.drop offset = event.encode ++ after) :
    eventAt buffer offset = some (.ofNat event.nameField.length, event.name) := by
  have hfields : buffer.drop offset =
      (int32Codec.encode event.wd ++ uint32Codec.encode event.mask ++
        uint32Codec.encode event.cookie) ++
      (uint32Codec.encode (.ofNat event.nameField.length) ++ (event.nameField ++ after)) := by
    simpa [InotifyEvent.encode] using h
  have hhead : buffer.drop (offset + 12) =
      uint32Codec.encode (.ofNat event.nameField.length) ++ (event.nameField ++ after) :=
    drop_add_of_drop hfields (by simp [ScalarCodec.length_encode])
  have hname : buffer.drop (offset + 12 + 4) = event.nameField ++ after :=
    drop_add_of_drop hhead (by simp [ScalarCodec.length_encode])
  rw [eventAt, scalarAt_of_drop hhead]
  cases hevent : event.name with
  | none => simp [InotifyEvent.nameField, hevent]
  | some name =>
    have hfield : event.nameField = name.terminated ++ List.replicate event.padding 0 := by
      rw [InotifyEvent.nameField, hevent]
    have hpos : UInt32.ofNat event.nameField.length ≠ 0 := by
      intro hzero
      have := congrArg UInt32.toNat hzero
      rw [UInt32.toNat_ofNat_of_lt' hlen, hfield] at this
      simp at this
    have hread : CString.ofBuffer (buffer.drop (offset + 16)) = some name := by
      rw [hname, hfield, List.append_assoc]
      exact name.ofBuffer_terminated_append _
    simp [hpos, hread]

/-! ## The thread -/

def eventBufLen : Nat := 1024 * (16 + 16)

/-- The process, its file, and what inotify has for it.  `writers` are the descriptors that the file
is open for writing with, and `announced` says whether inotify has told of the last one that was
closed since the file was put in its place. -/
structure ConfigWatch (G : Type) where
  gConfig : G
  file : Option Properties
  writers : Nat
  watched : Bool
  queue : List InotifyEvent
  buffer : Bytes
  length : Nat
  offset : Nat
  announced : Bool

/-- `update_config`. -/
def updateConfig {G : Type} (program : ConfigProgram G) (g : G) (file : Option Properties) :
    Option G :=
  match file with
  | none => some g
  | some config =>
    if validateConfigProperties config program.configKeys then program.callbackUpdated g config
    else some g

/-- The file is written by others at any moment, and may be replaced by one that is moved into its
place.  The bytes of `other` are for another file, or for another descriptor. -/
inductive WatchAction
  | openFile
  | write (config : Properties)
  | closeFile (event : InotifyEvent)
  | replace (file : Option Properties)
  | other (event : InotifyEvent)
  | watch
  | read (count : Nat)
  | turn

/-- The version of the file that an action makes. -/
def WatchAction.version : WatchAction → Option Properties
  | write config => some config
  | replace file => file
  | _ => none

namespace ConfigWatch
variable {G : Type}

/-- The state that `init_config` leaves. -/
def created (g : G) (config : Properties) (buffer : Bytes) : ConfigWatch G where
  gConfig := g
  file := some config
  writers := 0
  watched := false
  queue := []
  buffer := buffer
  length := 0
  offset := 0
  announced := false

/-- inotify has an event for those that watch.  An event like the last one that waits is that one,
and when the queue is full only this is said. -/
def enqueue (limit : Nat) (event : InotifyEvent) (s : ConfigWatch G) : ConfigWatch G :=
  let event := if s.queue.length < limit then event else .overflow
  if s.watched && s.queue.getLast? != some event then { s with queue := s.queue ++ [event] } else s

/-- A turn of the loop over the buffer. -/
def turn (program : ConfigProgram G) (s : ConfigWatch G) : Option (ConfigWatch G) := do
  let (len, name) ← eventAt s.buffer s.offset
  let g ← if name = some program.configFile then updateConfig program s.gConfig s.file
    else some s.gConfig
  return { s with
    gConfig := g
    offset := s.offset + 16 + len.toNat }

def step (limit : Nat) (program : ConfigProgram G) (s : ConfigWatch G) :
    WatchAction → Option (ConfigWatch G)
  | .openFile => some { s with writers := s.writers + 1 }
  | .write config => if 0 < s.writers then some { s with file := some config } else none
  | .closeFile event =>
    if 0 < s.writers ∧ event.name = some program.configFile then
      some { s.enqueue limit event with
        writers := s.writers - 1
        announced := s.watched && decide (s.queue.length < limit) }
    else none
  | .replace file => some { s with
      file := file
      writers := 0
      announced := false }
  | .other event => some (s.enqueue limit event)
  | .watch => if s.watched then none else some { s with watched := true }
  | .read count =>
    let bytes := (s.queue.take count).flatMap InotifyEvent.encode
    if s.watched ∧ s.length ≤ s.offset ∧ bytes.length ≤ eventBufLen then
      some { s with
        queue := s.queue.drop count
        buffer := bytes ++ s.buffer.drop bytes.length
        length := bytes.length
        offset := 0 }
    else none
  | .turn => if s.offset < s.length then s.turn program else none

/-! ## What is left to look at -/

/-- `events` are those of the buffer that the loop has not come to. -/
structure Unread (s : ConfigWatch G) (events : List InotifyEvent) : Prop where
  short : ∀ event ∈ events, event.nameField.length < 2 ^ 32
  buffer_eq : ∃ after, s.buffer.drop s.offset = events.flatMap InotifyEvent.encode ++ after
  length_eq : s.length = s.offset + (events.flatMap InotifyEvent.encode).length

theorem Unread.of_eq {s s' : ConfigWatch G} {events : List InotifyEvent} (h : s.Unread events)
    (hbuffer : s'.buffer = s.buffer) (hlength : s'.length = s.length)
    (hoffset : s'.offset = s.offset) : s'.Unread events := by
  refine ⟨h.short, ?_, ?_⟩
  · rw [hbuffer, hoffset]
    exact h.buffer_eq
  · rw [hlength, hoffset]
    exact h.length_eq

/-- Every event takes some bytes, so that a walked buffer has none. -/
theorem Unread.eq_nil {s : ConfigWatch G} {events : List InotifyEvent} (h : s.Unread events)
    (hwalked : s.length ≤ s.offset) : events = [] := by
  cases events with
  | nil => rfl
  | cons event events =>
    have hlength := h.length_eq
    rw [List.flatMap_cons, List.length_append, event.length_encode] at hlength
    omega

theorem Unread.eventAt {s : ConfigWatch G} {event : InotifyEvent} {events : List InotifyEvent}
    (h : s.Unread (event :: events)) :
    eventAt s.buffer s.offset = some (.ofNat event.nameField.length, event.name) := by
  obtain ⟨after, hbuffer⟩ := h.buffer_eq
  rw [List.flatMap_cons, List.append_assoc] at hbuffer
  exact eventAt_of_drop (h.short event List.mem_cons_self) hbuffer

theorem Unread.turn_eq {s : ConfigWatch G} {event : InotifyEvent} {events : List InotifyEvent}
    (h : s.Unread (event :: events)) (program : ConfigProgram G) :
    s.turn program =
      (if event.name = some program.configFile then updateConfig program s.gConfig s.file
        else some s.gConfig).map fun g =>
          { s with gConfig := g, offset := s.offset + 16 + event.nameField.length } := by
  have hlen := h.short event List.mem_cons_self
  rw [turn, h.eventAt]
  simp only [Option.bind_eq_bind, Option.bind_some, UInt32.toNat_ofNat_of_lt' hlen]
  by_cases hname : event.name = some program.configFile
  · rw [if_pos hname, if_pos hname]
    cases updateConfig program s.gConfig s.file <;> rfl
  · rw [if_neg hname, if_neg hname]
    rfl

/-- The next turn begins where the event ends. -/
theorem Unread.tail {s s' : ConfigWatch G} {event : InotifyEvent} {events : List InotifyEvent}
    (h : s.Unread (event :: events)) (hbuffer : s'.buffer = s.buffer)
    (hlength : s'.length = s.length)
    (hoffset : s'.offset = s.offset + 16 + event.nameField.length) : s'.Unread events := by
  refine ⟨fun e he => h.short e (List.mem_cons_of_mem _ he), ?_, ?_⟩
  · obtain ⟨after, hafter⟩ := h.buffer_eq
    rw [List.flatMap_cons, List.append_assoc] at hafter
    refine ⟨after, ?_⟩
    rw [hbuffer, hoffset, Nat.add_assoc]
    exact drop_add_of_drop hafter event.length_encode.symm
  · have hwhole := h.length_eq
    rw [List.flatMap_cons, List.length_append, event.length_encode] at hwhole
    omega

theorem enqueue_eq (limit : Nat) (event : InotifyEvent) (s : ConfigWatch G) :
    ∃ added, s.enqueue limit event = { s with queue := s.queue ++ added } := by
  unfold enqueue
  extract_lets event
  split
  · exact ⟨[event], rfl⟩
  · exact ⟨[], by simp⟩

/-- An event that is not lost waits. -/
theorem mem_enqueue {limit : Nat} {event : InotifyEvent} {s : ConfigWatch G}
    (hwatched : s.watched = true) (hroom : s.queue.length < limit) :
    event ∈ (s.enqueue limit event).queue := by
  rw [enqueue, if_pos hroom, hwatched, Bool.true_and]
  by_cases hlast : s.queue.getLast? = some event
  · rw [if_neg (by simp [hlast])]
    exact List.mem_of_getLast? hlast
  · rw [if_pos (by simp [hlast])]
    simp

/-! ## The invariant -/

structure Inv {process : ConfiguredProcess} (start : process.GConfig) (versions : List Properties)
    (s : ConfigWatch process.GConfig) : Prop where
  file_mem : ∀ config, s.file = some config → config ∈ versions
  values : ∀ config ∈ versions, HasValues config process.program.configKeys
  followed : process.Follows start s.gConfig versions
  unread : ∃ events, s.Unread events ∧
    (s.announced = true → s.writers = 0 →
      (∀ event ∈ events ++ s.queue, event.name ≠ some process.program.configFile) →
        process.UpToDate start s.gConfig s.file)

end ConfigWatch

/-- What a look at the file does. -/
theorem ConfiguredProcess.Follows.updateConfig {process : ConfiguredProcess}
    {start g : process.GConfig} {versions : List Properties} {file : Option Properties}
    (hg : process.Follows start g versions)
    (hfile : ∀ config, file = some config → config ∈ versions)
    (hvalues : ∀ config ∈ versions, HasValues config process.program.configKeys) :
    ∃ g', updateConfig process.program g file = some g' ∧ process.UpToDate start g' file ∧
      process.Follows start g' versions := by
  cases file with
  | none =>
    refine ⟨g, rfl, fun config last hsame => ?_, hg⟩
    cases hsame
  | some config =>
    by_cases hall : validateConfigProperties config process.program.configKeys = true
    · obtain ⟨_, _, _, old, _, rfl⟩ := hg
      have hset := hvalues config (hfile config rfl)
      obtain ⟨last, hlast, hupdated⟩ := process.lawful.created hall hset
      refine ⟨process.reload start last, ?_, ?_, config, hfile config rfl, hall, last, hlast, rfl⟩
      · rw [Lissandra.updateConfig, if_pos hall, hupdated, process.lawful.reload_reload]
      · intro config' last' hsame _ hlast'
        obtain rfl := Option.some.inj hsame
        obtain rfl := Option.some.inj (hlast.symm.trans hlast')
        rfl
    · refine ⟨g, by rw [Lissandra.updateConfig, if_neg hall], ?_, hg⟩
      intro config' _ hsame hall'
      obtain rfl := Option.some.inj hsame
      exact absurd hall' hall

namespace ConfigWatch
variable {process : ConfiguredProcess} {start : process.GConfig} {versions : List Properties}
  {limit : Nat} {s s' : ConfigWatch process.GConfig}

/-- With another event at the end of the queue there is no less to look at. -/
theorem Inv.enqueue (hs : s.Inv start versions) (event : InotifyEvent) :
    (s.enqueue limit event).Inv start versions := by
  obtain ⟨added, hadded⟩ := enqueue_eq limit event s
  obtain ⟨events, hevents, hlook⟩ := hs.unread
  rw [hadded]
  refine ⟨hs.file_mem, hs.values, hs.followed, events, hevents.of_eq rfl rfl rfl,
    fun ha hw hnone => ?_⟩
  refine hlook ha hw fun e he => hnone e ?_
  rw [← List.append_assoc]
  exact List.mem_append_left _ he

/-- The loop reaches the end of the buffer: no look at the file fails. -/
theorem Inv.turn (hs : s.Inv start versions) (hlt : s.offset < s.length) :
    ∃ s', s.turn process.program = some s' ∧ s'.Inv start versions := by
  obtain ⟨events, hevents, hlook⟩ := hs.unread
  cases events with
  | nil => exact absurd (by simpa using hevents.length_eq) hlt.ne'
  | cons event events =>
    rw [hevents.turn_eq]
    by_cases hname : event.name = some process.program.configFile
    · obtain ⟨g, hg, hcurrent, hfollows⟩ := hs.followed.updateConfig hs.file_mem hs.values
      rw [if_pos hname, hg]
      exact ⟨_, rfl, hs.file_mem, hs.values, hfollows, events, hevents.tail rfl rfl rfl,
        fun _ _ _ => hcurrent⟩
    · rw [if_neg hname]
      refine ⟨_, rfl, hs.file_mem, hs.values, hs.followed, events, hevents.tail rfl rfl rfl,
        fun ha hw hnone => hlook ha hw fun e he => ?_⟩
      rcases List.mem_cons.mp he with rfl | he
      · exact hname
      · exact hnone e he

theorem Inv.step {action : WatchAction} (hs : s.Inv start versions)
    (hvalues : ∀ config, action.version = some config →
      HasValues config process.program.configKeys)
    (h : s.step limit process.program action = some s') :
    s'.Inv start (versions ++ action.version.toList) := by
  have hall : ∀ config ∈ versions ++ action.version.toList,
      HasValues config process.program.configKeys := by
    intro config hmem
    rcases List.mem_append.mp hmem with hmem | hmem
    · exact hs.values config hmem
    · exact hvalues config (Option.mem_toList.mp hmem)
  obtain ⟨events, hevents, hlook⟩ := hs.unread
  cases action with
  | openFile =>
    obtain rfl := Option.some.inj h
    simp only [WatchAction.version, Option.toList_none, List.append_nil]
    exact ⟨hs.file_mem, hs.values, hs.followed, events, hevents.of_eq rfl rfl rfl,
      fun _ hnone => absurd hnone (Nat.succ_ne_zero _)⟩
  | write config =>
    obtain ⟨hwriters, hset⟩ := Option.ite_none_right_eq_some.mp h
    obtain rfl := Option.some.inj hset
    refine ⟨fun config' hsame => ?_, hall, hs.followed.append _, events,
      hevents.of_eq rfl rfl rfl, fun _ hnone => absurd hnone hwriters.ne'⟩
    obtain rfl := Option.some.inj hsame
    simp [WatchAction.version]
  | closeFile event =>
    obtain ⟨⟨-, hname⟩, hset⟩ := Option.ite_none_right_eq_some.mp h
    obtain rfl := Option.some.inj hset
    simp only [WatchAction.version, Option.toList_none, List.append_nil]
    have henqueued : (s.enqueue limit event).Inv start versions := hs.enqueue event
    obtain ⟨hfile, hvalues, hfollowed, events', hevents', -⟩ := henqueued
    refine ⟨hfile, hvalues, hfollowed, events', hevents'.of_eq rfl rfl rfl, fun ha _ hnone => ?_⟩
    -- the event of the descriptor that was closed waits
    obtain ⟨hwatched, hroom⟩ := Bool.and_eq_true_iff.mp ha
    exact absurd hname (hnone event
      (List.mem_append_right _ (mem_enqueue hwatched (of_decide_eq_true hroom))))
  | replace file =>
    obtain rfl := Option.some.inj h
    refine ⟨fun config hsame => ?_, hall, hs.followed.append _, events,
      hevents.of_eq rfl rfl rfl, fun ha => absurd ha Bool.false_ne_true⟩
    subst hsame
    simp [WatchAction.version]
  | other event =>
    obtain rfl := Option.some.inj h
    simpa only [WatchAction.version, Option.toList_none, List.append_nil] using hs.enqueue event
  | watch =>
    obtain ⟨-, hset⟩ := Option.ite_none_left_eq_some.mp h
    obtain rfl := Option.some.inj hset
    simp only [WatchAction.version, Option.toList_none, List.append_nil]
    exact ⟨hs.file_mem, hs.values, hs.followed, events, hevents.of_eq rfl rfl rfl, hlook⟩
  | read count =>
    obtain ⟨⟨-, hwalked, hfits⟩, hset⟩ := Option.ite_none_right_eq_some.mp h
    obtain rfl := Option.some.inj hset
    simp only [WatchAction.version, Option.toList_none, List.append_nil]
    obtain rfl := hevents.eq_nil hwalked
    refine ⟨hs.file_mem, hs.values, hs.followed, s.queue.take count, ⟨?_, ⟨_, rfl⟩, ?_⟩, ?_⟩
    · intro event hevent
      exact lt_of_le_of_lt ((InotifyEvent.length_nameField_le hevent).trans hfits) (by decide)
    · simp
    · intro ha hw hnone
      refine hlook ha hw fun event hevent => hnone event ?_
      rw [List.take_append_drop]
      exact hevent
  | turn =>
    obtain ⟨hlt, hturn⟩ := Option.ite_none_right_eq_some.mp h
    obtain ⟨after, hafter, hinv⟩ := hs.turn hlt
    obtain rfl := Option.some.inj (hafter.symm.trans hturn)
    simpa only [WatchAction.version, Option.toList_none, List.append_nil] using hinv

theorem Inv.run {actions : List WatchAction} (hs : s.Inv start versions)
    (hvalues : ∀ config ∈ actions.filterMap WatchAction.version,
      HasValues config process.program.configKeys)
    (h : actions.foldlM (ConfigWatch.step limit process.program) s = some s') :
    s'.Inv start (versions ++ actions.filterMap WatchAction.version) := by
  induction actions generalizing s versions with
  | nil =>
    obtain rfl := Option.some.inj h
    simpa using hs
  | cons action actions ih =>
    rw [List.foldlM_cons] at h
    obtain ⟨middle, hmiddle, hrest⟩ := Option.bind_eq_some_iff.mp h
    have hnow : ∀ config, action.version = some config →
        HasValues config process.program.configKeys := fun config hversion =>
      hvalues config (List.mem_filterMap.mpr ⟨action, List.mem_cons_self, hversion⟩)
    have hrestValues : ∀ config ∈ actions.filterMap WatchAction.version,
        HasValues config process.program.configKeys := by
      intro config hmem
      obtain ⟨later, hlater, hversion⟩ := List.mem_filterMap.mp hmem
      exact hvalues config
        (List.mem_filterMap.mpr ⟨later, List.mem_cons_of_mem _ hlater, hversion⟩)
    have hlater := ih (hs.step hnow hmiddle) hrestValues hrest
    rw [List.append_assoc] at hlater
    cases hversion : action.version with
    | none => simpa [hversion] using hlater
    | some config => simpa [hversion] using hlater

end ConfigWatch

end Lissandra
