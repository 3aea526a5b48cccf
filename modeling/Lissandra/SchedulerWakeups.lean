import Lissandra.SchedulerQueues

/-! # No wake-up is lost

`sem_post_neg` posts the semaphore of the short term scheduler only if it is at zero, so a
scheduler that waits at zero must not have left anything behind.  Three things carry this.
The semaphores and the point of the thread of a slot go with the process in the slot
(`SlotView.Consistent`).  A process that came back to `ready` has its flag and one entry,
and no process of its slot ends before the entry is cleared (`Flagged`).  And while the
semaphore is at zero, everything that the scheduler has passed is settled (`Settled`).
-/
namespace Lissandra

/-! ## Slots -/

/-- What the schedulers see of a process in a slot. -/
structure InSlot where
  pointer : PcbPointer
  recentlyExec : Bool
  processor : Nat

/-- A slot, with its thread. -/
structure SlotView where
  process : Option InSlot
  point : ExecPoint
  semaphoreInit : Nat
  semaphore : Nat

/-- The thread waits for a process. -/
def SlotView.Idle (view : SlotView) : Prop :=
  view.point = .waitingInit ∧ view.semaphoreInit = 0 ∧ view.semaphore = 0

/-- The thread is busy with the process, or about to be. -/
def SlotView.Busy (view : SlotView) (pointer : PcbPointer) : Prop :=
  view.point = .waitingInit ∧ view.semaphoreInit = 1 ∧ view.semaphore = 0 ∨
    view.point = .executing pointer ∧ view.semaphoreInit = 0 ∧ view.semaphore = 0 ∨
    view.point = .waitingExec ∧ view.semaphoreInit = 0 ∧ view.semaphore = 1

/-- The thread is idle as long as its process was not started, and busy from then on. -/
def SlotView.Consistent (i : Nat) (view : SlotView) : Prop :=
  view.Idle ∧ (∀ process, view.process = some process → process.recentlyExec = true) ∨
    ∃ pointer, view.process = some ⟨pointer, false, i⟩ ∧ view.Busy pointer

namespace Scheduler
variable {s s' : Scheduler} {pointer : PcbPointer} {pcb old : Pcb} {i j multiprocessing : Nat}

def process (s : Scheduler) (i : Nat) : Option InSlot :=
  s.exec[i]?.join.bind fun pointer =>
    (s.pcb pointer).map fun pcb => ⟨pointer, pcb.recentlyExec, pcb.processor⟩

def slotView (s : Scheduler) (i : Nat) : SlotView :=
  ⟨s.process i, s.planifier i, s.execSemaphoresInit i, s.execSemaphores i⟩

theorem process_of_slot (hslot : s.exec[i]? = some (some pointer))
    (hpcb : s.pcb pointer = some pcb) :
    s.process i = some ⟨pointer, pcb.recentlyExec, pcb.processor⟩ := by
  unfold process
  rw [hslot]
  show (s.pcb pointer).map _ = _
  rw [hpcb]
  rfl

theorem process_of_empty (hslot : s.exec[i]? = some none) : s.process i = none := by
  unfold process
  rw [hslot]
  rfl

theorem process_of_length_le (hi : s.exec.length ≤ i) : s.process i = none := by
  unfold process
  rw [List.getElem?_eq_none hi]
  rfl

theorem slot_of_process {view : InSlot} (h : s.process i = some view) :
    s.exec[i]? = some (some view.pointer) ∧
      ∃ pcb, s.pcb view.pointer = some pcb ∧ view.recentlyExec = pcb.recentlyExec ∧
        view.processor = pcb.processor := by
  obtain ⟨pointer, hslot, hrest⟩ := Option.bind_eq_some_iff.mp h
  obtain ⟨pcb, hpcb, rfl⟩ := Option.map_eq_some_iff.mp hrest
  exact ⟨Option.join_eq_some_iff.mp hslot, pcb, hpcb, rfl, rfl⟩

/-- A write to the other fields. -/
theorem process_setPcb_same (hpcb : s.pcb pointer = some old)
    (hexec : pcb.recentlyExec = old.recentlyExec) (hprocessor : pcb.processor = old.processor) :
    (s.setPcb pointer pcb).process = s.process := by
  funext i
  unfold process setPcb
  cases hslot : s.exec[i]?.join with
  | none => rfl
  | some other =>
    show (Function.update s.pcb pointer (some pcb) other).map _ = (s.pcb other).map _
    by_cases heq : other = pointer
    · rw [heq, Function.update_self, hpcb, Option.map_some, Option.map_some, hexec, hprocessor]
    · rw [Function.update_of_ne heq]

/-- Only the slots of a process see what is written to it. -/
theorem process_congr (hslot : s'.exec[i]? = s.exec[i]?)
    (hpcb : ∀ other, s.exec[i]? = some (some other) → s'.pcb other = s.pcb other) :
    s'.process i = s.process i := by
  unfold process
  rw [hslot]
  cases hjoin : s.exec[i]?.join with
  | none => rfl
  | some other =>
    show (s'.pcb other).map _ = (s.pcb other).map _
    rw [hpcb other (Option.join_eq_some_iff.mp hjoin)]

theorem Conserved.not_in_slot (h : s.Conserved multiprocessing)
    (hstate : s.states pointer ≠ some .exec) (i : Nat) : s.exec[i]? ≠ some (some pointer) := by
  intro hslot
  have hmem : pointer ∈ s.exec.reduceOption := List.reduceOption_mem_iff.mpr
    (List.mem_of_getElem? hslot)
  exact hstate (((h.filing .exec).mem pointer).mp hmem)

theorem Conserved.slot_unique (h : s.Conserved multiprocessing)
    (hi : s.exec[i]? = some (some pointer)) (hj : s.exec[j]? = some (some pointer)) : j = i :=
  Lissandra.slot_unique (h.filing .exec).nodup hi hj

theorem Conserved.pcb_of_slot (h : s.Conserved multiprocessing)
    (hi : s.exec[i]? = some (some pointer)) :
    ∃ pcb, s.pcb pointer = some pcb ∧ pcb.state = .exec := by
  have hmem : pointer ∈ s.exec.reduceOption := List.reduceOption_mem_iff.mpr
    (List.mem_of_getElem? hi)
  exact Option.map_eq_some_iff.mp (((h.filing .exec).mem pointer).mp hmem)

/-- A process that is not in a slot, written to or deleted. -/
theorem Conserved.process_eq (h : s.Conserved multiprocessing)
    (hstate : s.states pointer ≠ some .exec) (hexec : s'.exec = s.exec)
    (hpcb : ∀ other, other ≠ pointer → s'.pcb other = s.pcb other) : s'.process = s.process := by
  funext i
  refine process_congr (by rw [hexec]) fun other hslot => hpcb other ?_
  rintro rfl
  exact h.not_in_slot hstate i hslot

/-- Another slot, when a process in a slot is written to. -/
theorem Conserved.process_other (h : s.Conserved multiprocessing)
    (hslot : s.exec[i]? = some (some pointer)) (hj : j ≠ i) (hexec : s'.exec[j]? = s.exec[j]?)
    (hpcb : ∀ other, other ≠ pointer → s'.pcb other = s.pcb other) :
    s'.process j = s.process j := by
  refine process_congr hexec fun other hother => hpcb other ?_
  rintro rfl
  exact hj (h.slot_unique hslot hother)

theorem setPcb_of_ne {other : PcbPointer} (h : other ≠ pointer) :
    (s.setPcb pointer pcb).pcb other = s.pcb other :=
  Function.update_of_ne h _ _

/-! ## Processes in slots after the loop bodies -/

theorem process_toExec (h : s.Conserved multiprocessing) (hempty : s.exec[i]? = some none)
    {rest : List PcbPointer} (hready : s.ready = pointer :: rest)
    (hpcb : s.pcb pointer = some pcb) :
    (s.toExec i pointer rest pcb).process i = some ⟨pointer, true, pcb.processor⟩ ∧
      (s.toExec i pointer rest pcb).exec = s.exec.set i (some pointer) ∧
      ∀ j, j ≠ i → (s.toExec i pointer rest pcb).process j = s.process j := by
  have hexec : (s.toExec i pointer rest pcb).exec = s.exec.set i (some pointer) :=
    List.insertIdx_eraseIdx_self (Nat.ne_of_lt (length_of_getElem? hempty)) _
  have hmem : pointer ∈ s.ready := by
    rw [hready]
    exact List.mem_cons_self
  have hstate : s.states pointer = some .ready := ((h.filing .ready).mem pointer).mp hmem
  refine ⟨?_, hexec, fun j hj => ?_⟩
  · refine @process_of_slot _ pointer
      { pcb with state := .exec, quantum := 0, recentlyExec := true } _ ?_ ?_
    · rw [hexec, List.getElem?_set_self (length_of_getElem? hempty)]
    · exact Function.update_self ..
  · refine process_congr ?_ fun other hother => ?_
    · rw [hexec, List.getElem?_set_ne (Ne.symm hj)]
    · refine Function.update_of_ne ?_ _ _
      rintro rfl
      refine h.not_in_slot ?_ j hother
      rw [hstate]
      exact nofun

theorem process_startExec (h : s.Conserved multiprocessing)
    (hslot : s.exec[i]? = some (some pointer)) :
    (s.startExec i pointer pcb).process i = some ⟨pointer, false, i⟩ ∧
      ∀ j, j ≠ i → (s.startExec i pointer pcb).process j = s.process j := by
  refine ⟨@process_of_slot _ pointer
    { pcb with processor := i, quantum := pcb.quantum + 1, recentlyExec := false } _ hslot ?_,
    fun j hj => h.process_other hslot hj rfl fun other hother => setPcb_of_ne hother⟩
  exact Function.update_self ..

theorem process_continueExec (hpcb : s.pcb pointer = some pcb) (hprocessor : pcb.processor = i) :
    (s.continueExec i pointer pcb).process = s.process :=
  @process_setPcb_same s pointer { pcb with processor := i, quantum := pcb.quantum + 1 } _ hpcb
    rfl hprocessor.symm

theorem Conserved.process_leaves (h : s.Conserved multiprocessing)
    (hslot : s.exec[i]? = some (some pointer)) (s' : Scheduler)
    (hexec : s'.exec = (s.exec.eraseIdx i).insertIdx i none)
    (hpcb : ∀ other, other ≠ pointer → s'.pcb other = s.pcb other) :
    s'.exec[i]? = some none ∧ s'.process i = none ∧ ∀ j, j ≠ i → s'.process j = s.process j := by
  rw [List.insertIdx_eraseIdx_self (Nat.ne_of_lt (length_of_getElem? hslot))] at hexec
  have hempty : s'.exec[i]? = some none := by
    rw [hexec, List.getElem?_set_self (length_of_getElem? hslot)]
  refine ⟨hempty, process_of_empty hempty, fun j hj => h.process_other hslot hj ?_ hpcb⟩
  rw [hexec, List.getElem?_set_ne (Ne.symm hj)]

theorem process_longTermSchedule (h : s.Conserved multiprocessing)
    (hbody : s.longTermSchedule = some s') : s'.process = s.process := by
  obtain ⟨pointer, rest, pcb, hnew, -, rfl⟩ | ⟨pointer, rest, pcb, -, hexit, -, rfl⟩ |
    ⟨-, -, rfl⟩ := longTermSchedule_cases hbody
  · have hmem : pointer ∈ s.new := by simp [hnew]
    have hstate : s.states pointer = some .new := ((h.filing .new).mem pointer).mp hmem
    exact h.process_eq (by simp [hstate]) rfl fun other hother => setPcb_of_ne hother
  · have hmem : pointer ∈ s.exit := by simp [hexit]
    have hstate : s.states pointer = some .exit := ((h.filing .exit).mem pointer).mp hmem
    exact h.process_eq (by simp [hstate]) rfl fun other hother => Function.update_of_ne hother _ _
  · rfl

/-! ## Threads of slots -/

/-- All threads are consistent with their slots. -/
def Threads (s : Scheduler) : Prop := ∀ i, (s.slotView i).Consistent i

theorem Threads.update (h : s.Threads) (i : Nat) (hi : (s'.slotView i).Consistent i)
    (hother : ∀ j, j ≠ i → s'.slotView j = s.slotView j) : s'.Threads := by
  intro j
  by_cases hj : j = i
  · subst hj
    exact hi
  · rw [hother j hj]
    exact h j

theorem slotView_eq (hprocess : s'.process j = s.process j)
    (hpoint : s'.planifier j = s.planifier j)
    (hinit : s'.execSemaphoresInit j = s.execSemaphoresInit j)
    (hsemaphore : s'.execSemaphores j = s.execSemaphores j) : s'.slotView j = s.slotView j := by
  unfold slotView
  rw [hprocess, hpoint, hinit, hsemaphore]

theorem Threads.congr (h : s.Threads) (hprocess : s'.process = s.process)
    (hpoint : s'.planifier = s.planifier) (hinit : s'.execSemaphoresInit = s.execSemaphoresInit)
    (hsemaphore : s'.execSemaphores = s.execSemaphores) : s'.Threads := by
  intro i
  rw [slotView_eq (congrFun hprocess i) (congrFun hpoint i) (congrFun hinit i)
    (congrFun hsemaphore i)]
  exact h i

/-- A thread that executes a statement is at the process of its slot. -/
theorem Threads.executing (h : s.Threads) (hpoint : s.planifier i = .executing pointer) :
    s.process i = some ⟨pointer, false, i⟩ ∧ s.execSemaphoresInit i = 0 ∧
      s.execSemaphores i = 0 := by
  obtain ⟨⟨hidle, -⟩, -⟩ | ⟨other, hprocess, ⟨hbusy, -⟩ | ⟨hbusy, hinit, hsemaphore⟩ |
    ⟨hbusy, -⟩⟩ := h i
  · cases hpoint.symm.trans hidle
  · cases hpoint.symm.trans hbusy
  · obtain rfl : pointer = other := ExecPoint.executing.inj (hpoint.symm.trans hbusy)
    exact ⟨hprocess, hinit, hsemaphore⟩
  · cases hpoint.symm.trans hbusy

/-- A thread at its second semaphore has a process that was started. -/
theorem Threads.waitingExec (h : s.Threads) (hpoint : s.planifier i = .waitingExec) :
    (∃ pointer, s.process i = some ⟨pointer, false, i⟩) ∧ s.execSemaphoresInit i = 0 ∧
      s.execSemaphores i = 1 := by
  obtain ⟨⟨hidle, -⟩, -⟩ | ⟨other, hprocess, ⟨hbusy, -⟩ | ⟨hbusy, -⟩ |
    ⟨-, hinit, hsemaphore⟩⟩ := h i
  · cases hpoint.symm.trans hidle
  · cases hpoint.symm.trans hbusy
  · cases hpoint.symm.trans hbusy
  · exact ⟨⟨other, hprocess⟩, hinit, hsemaphore⟩

theorem threads_scheduleSlot (h : s.Conserved multiprocessing) (hthreads : s.Threads)
    (hi : i < s.exec.length) (hbody : s.scheduleSlot i = some s') : s'.Threads := by
  obtain ⟨-, -, rfl⟩ | ⟨pointer, rest, pcb, hempty, hready, hpcb, ⟨-, rfl⟩ | ⟨-, rfl⟩⟩ |
    ⟨pointer, pcb, hslot, hpcb, ⟨hrecently, rfl⟩ | ⟨-, rfl⟩⟩ := scheduleSlot_cases hi hbody
  · exact hthreads
  · exact hthreads
  · obtain ⟨hprocess, -, hother⟩ := process_toExec h hempty hready hpcb
    refine hthreads.update i (.inl ⟨?_, fun process hp => ?_⟩) fun j hj => ?_
    · obtain ⟨hidle, -⟩ | ⟨other, hp, -⟩ := hthreads i
      · exact hidle
      · cases (process_of_empty hempty).symm.trans hp
    · obtain rfl := Option.some.inj (hprocess.symm.trans hp)
      rfl
    · exact slotView_eq (hother j hj) rfl rfl rfl
  · obtain ⟨hprocess, hother⟩ := @process_startExec _ pointer pcb _ _ h hslot
    refine hthreads.update i (.inr ⟨pointer, hprocess, .inl ?_⟩) fun j hj => ?_
    · -- the thread was idle, as the process was not started
      obtain ⟨⟨hpoint, hinit, hsemaphore⟩, -⟩ | ⟨other, hp, -⟩ := hthreads i
      · refine ⟨hpoint, ?_, hsemaphore⟩
        show Function.update s.execSemaphoresInit i (s.execSemaphoresInit i + 1) i = 1
        rw [Function.update_self]
        exact congrArg (· + 1) hinit
      · have hview := Option.some.inj ((process_of_slot hslot hpcb).symm.trans hp)
        rw [hrecently] at hview
        cases congrArg InSlot.recentlyExec hview
    · exact slotView_eq (hother j hj) rfl (Function.update_of_ne hj _ _) rfl
  · exact hthreads

theorem threads_planifierExecute (h : s.Conserved multiprocessing) (hthreads : s.Threads)
    (hpoint : s.planifier i = .waitingExec)
    (hbody : (s.pastSemaphore i).planifierExecute i = some s') : s'.Threads := by
  obtain ⟨⟨started, hstarted⟩, hinit, hsemaphore⟩ := hthreads.waitingExec hpoint
  obtain ⟨pointer, pcb, hslot, hpcb, hcases⟩ := planifierExecute_cases hbody
  have hslot' : s.exec[i]? = some (some pointer) := hslot
  have hpcb' : s.pcb pointer = some pcb := hpcb
  have hview := Option.some.inj ((process_of_slot hslot' hpcb').symm.trans hstarted)
  have hprocessor : pcb.processor = i := congrArg InSlot.processor hview
  have hrecently : pcb.recentlyExec = false := congrArg InSlot.recentlyExec hview
  -- the thread is past its second semaphore, whatever is next for the process
  have hpointAfter : Function.update s.planifier i ExecPoint.waitingInit i = .waitingInit :=
    Function.update_self ..
  have hsemaphoreAfter : Function.update s.execSemaphores i (s.execSemaphores i - 1) i = 0 := by
    rw [Function.update_self, hsemaphore]
  obtain ⟨-, rfl⟩ | rfl | rfl := hcases
  · obtain ⟨-, hprocess, hother⟩ := h.process_leaves hslot'
      ((s.pastSemaphore i).toExit i pointer pcb) rfl fun other hne => setPcb_of_ne hne
    refine hthreads.update i (.inl ⟨⟨hpointAfter, hinit, hsemaphoreAfter⟩, fun p hp => ?_⟩)
      fun j hj => ?_
    · cases hprocess.symm.trans hp
    · exact slotView_eq (hother j hj) (Function.update_of_ne hj _ _) rfl
        (Function.update_of_ne hj _ _)
  · obtain ⟨-, hprocess, hother⟩ := h.process_leaves hslot'
      ((s.pastSemaphore i).backToReady i pointer pcb) rfl fun other hne => setPcb_of_ne hne
    refine hthreads.update i (.inl ⟨⟨hpointAfter, hinit, hsemaphoreAfter⟩, fun p hp => ?_⟩)
      fun j hj => ?_
    · cases hprocess.symm.trans hp
    · exact slotView_eq (hother j hj) (Function.update_of_ne hj _ _) rfl
        (Function.update_of_ne hj _ _)
  · have hprocess : ((s.pastSemaphore i).continueExec i pointer pcb).process = s.process :=
      @process_continueExec s pointer pcb i hpcb' hprocessor
    refine hthreads.update i (.inr ⟨pointer, ?_, .inl ⟨hpointAfter, ?_, hsemaphoreAfter⟩⟩)
      fun j hj => ?_
    · show ((s.pastSemaphore i).continueExec i pointer pcb).process i = _
      rw [hprocess, process_of_slot hslot' hpcb', hrecently, hprocessor]
    · show Function.update s.execSemaphoresInit i (s.execSemaphoresInit i + 1) i = 1
      rw [Function.update_self, hinit]
    · exact slotView_eq (congrFun hprocess j) (Function.update_of_ne hj _ _)
        (Function.update_of_ne hj _ _) (Function.update_of_ne hj _ _)

/-- A thread takes what its first semaphore was posted for. -/
theorem threads_startStatement (hthreads : s.Threads) (posted : s.execSemaphoresInit i ≠ 0)
    (slot : s.exec[i]? = some (some pointer)) :
    ({ s with
      execSemaphoresInit := Function.update s.execSemaphoresInit i (s.execSemaphoresInit i - 1)
      planifier := Function.update s.planifier i (.executing pointer) } : Scheduler).Threads := by
  refine hthreads.update i ?_ fun j hj => ?_
  · obtain ⟨⟨-, hinit, -⟩, -⟩ | ⟨other, hprocess, ⟨-, hinit, hsemaphore⟩ | ⟨-, hinit, -⟩ |
      ⟨-, hinit, -⟩⟩ := hthreads i
    · exact absurd hinit posted
    · obtain ⟨hslot, -⟩ := slot_of_process hprocess
      obtain rfl : pointer = other := Option.some.inj (Option.some.inj (slot.symm.trans hslot))
      refine .inr ⟨pointer, hprocess, .inr (.inl ⟨Function.update_self .., ?_, hsemaphore⟩)⟩
      show Function.update s.execSemaphoresInit i (s.execSemaphoresInit i - 1) i = 0
      rw [Function.update_self]
      exact congrArg (· - 1) hinit
    · exact absurd hinit posted
    · exact absurd hinit posted
  · exact slotView_eq rfl (Function.update_of_ne hj _ _) (Function.update_of_ne hj _ _) rfl

/-- The answer of a statement posts the second semaphore of the processor of its process. -/
theorem threads_endStatement (hthreads : s.Threads) (point : s.planifier i = .executing pointer)
    (hpcb : s.pcb pointer = some pcb) (errors : Bool) :
    ({ s.setPcb pointer (afterStatement pcb errors) with
      execSemaphores :=
        Function.update s.execSemaphores pcb.processor (s.execSemaphores pcb.processor + 1)
      planifier := Function.update s.planifier i .waitingExec } : Scheduler).Threads := by
  obtain ⟨hstarted, hinit, hsemaphore⟩ := hthreads.executing point
  obtain ⟨hslot, pcb', hpcb', hrecently, hprocessor⟩ := slot_of_process hstarted
  obtain rfl : pcb = pcb' := Option.some.inj (hpcb.symm.trans hpcb')
  have hprocess : (s.setPcb pointer (afterStatement pcb errors)).process = s.process := by
    apply process_setPcb_same hpcb
    all_goals
      unfold afterStatement
      split <;> rfl
  have hi : pcb.processor = i := hprocessor.symm
  refine hthreads.update i (.inr ⟨pointer, ?_, .inr (.inr ⟨Function.update_self .., hinit, ?_⟩)⟩)
    fun j hj => ?_
  · exact (congrFun hprocess i).trans hstarted
  · show Function.update s.execSemaphores pcb.processor (s.execSemaphores pcb.processor + 1) i = 1
    rw [hi, Function.update_self, hsemaphore]
  · refine slotView_eq (congrFun hprocess j) (Function.update_of_ne hj _ _) rfl ?_
    exact Function.update_of_ne (hi ▸ hj) _ _

theorem threads_effect (h : s.Conserved multiprocessing) (hthreads : s.Threads)
    (heffect : s.Effect s') : s'.Threads := by
  cases heffect with
  | arrive pointer pcb free state ready exec =>
    refine hthreads.congr (@Conserved.process_eq _ _ pointer _ h ?_ rfl fun other hother =>
      setPcb_of_ne hother) rfl rfl rfl
    simp [states, free]
  | longTermBody point body =>
    have hprocess := process_longTermSchedule h body
    obtain ⟨pointer, rest, pcb, -, -, rfl⟩ | ⟨pointer, rest, pcb, -, -, -, rfl⟩ | ⟨-, -, rfl⟩ :=
      longTermSchedule_cases body
    · exact hthreads.congr hprocess rfl rfl rfl
    · exact hthreads.congr hprocess rfl rfl rfl
    · exact hthreads
  | slot i point hi body => exact (threads_scheduleSlot h hthreads hi body).congr rfl rfl rfl rfl
  | entry i point hi body =>
    obtain ⟨-, rfl⟩ | ⟨pointer, pcb, -, hpcb, ⟨-, rfl⟩ | ⟨-, rfl⟩⟩ := clearEntry_cases hi body
    · exact hthreads
    · exact hthreads.congr (process_setPcb_same hpcb rfl rfl) rfl rfl rfl
    · exact hthreads
  | startStatement i pointer point posted slot => exact threads_startStatement hthreads posted slot
  | endStatement i errors pointer pcb point hpcb => exact threads_endStatement hthreads point hpcb _
  | postStatement i point posted body => exact threads_planifierExecute h hthreads point body
  | _ => exact hthreads

/-! ## Flags and entries -/

/-- Which processes came back to `ready`. -/
def readyFlags (s : Scheduler) : PcbPointer → Option Bool := fun pointer =>
  (s.pcb pointer).map Pcb.recentlyReady

theorem readyFlags_of_pcb (h : s.pcb pointer = some pcb) :
    s.readyFlags pointer = some pcb.recentlyReady := by
  unfold readyFlags
  rw [h]
  rfl

theorem readyFlags_setPcb (s : Scheduler) (pointer : PcbPointer) (pcb : Pcb) :
    (s.setPcb pointer pcb).readyFlags =
      Function.update s.readyFlags pointer (some pcb.recentlyReady) := by
  funext other
  by_cases h : other = pointer
  · subst h
    simp [readyFlags, setPcb]
  · simp [readyFlags, setPcb, h]

theorem readyFlags_setPcb_same (h : s.pcb pointer = some old)
    (hflag : pcb.recentlyReady = old.recentlyReady) :
    (s.setPcb pointer pcb).readyFlags = s.readyFlags := by
  rw [readyFlags_setPcb, hflag]
  exact Filed.update_same _ (readyFlags_of_pcb h)

/-- The slots whose new process the short term scheduler comes to next, after it has come to the
entries. -/
def Passed : ShortTermPoint → Nat → Prop
  | .waiting, _ => False
  | .slots j, i => i < j
  | .entries j, i => j ≤ i

/-- The slots that the short term scheduler has seen, or will not see before it waits. -/
def Seen : ShortTermPoint → Nat → Prop
  | .slots j, i => i < j
  | _, _ => True

/-- The entries that it has cleared. -/
def Cleared : ShortTermPoint → Nat → Prop
  | .waiting, _ => True
  | .slots _, _ => False
  | .entries j, i => i < j

/-- There is nothing to do for the short term scheduler at this slot. -/
structure Rests (s : Scheduler) (i : Nat) : Prop where
  started : ∀ process, s.process i = some process → process.recentlyExec = false
  filled : s.exec[i]? = some none → ∀ pointer rest, s.ready = pointer :: rest →
    s.readyFlags pointer = some true

/-- There is nothing to do at what the short term scheduler has passed. -/
def Settled (s : Scheduler) (point : ShortTermPoint) : Prop :=
  ∀ i, (Seen point i → s.Rests i) ∧
    (Cleared point i → ∀ pointer, s.pcbsToReady[i]? ≠ some (some pointer))

/-- Flags and entries, with the short term scheduler at this point. -/
structure Flagged (multiprocessing : Nat) (point : ShortTermPoint) (s : Scheduler) : Prop where
  entries : s.pcbsToReady.length = multiprocessing
  filed : Filed s.readyFlags true s.pcbsToReady.reduceOption
  ready : ∀ pointer, s.readyFlags pointer = some true → s.states pointer = some .ready
  /-- The process in the slot of an entry was not started. -/
  fresh : ∀ i pointer, s.pcbsToReady[i]? = some (some pointer) →
    ∀ process, s.process i = some process → process.recentlyExec = true ∧ Passed point i
  settled : s.stsSemaphore = 0 → s.Settled point

variable {point : ShortTermPoint}

theorem semPostNeg_ne_zero (semaphore : Nat) : semPostNeg semaphore ≠ 0 := by
  unfold semPostNeg
  split <;> omega

theorem Rests.congr (h : s.Rests i) (hprocess : s'.process i = s.process i)
    (hexec : s'.exec[i]? = s.exec[i]?) (hready : s'.ready = s.ready)
    (hflags : ∀ pointer ∈ s.ready, s.readyFlags pointer = some true →
      s'.readyFlags pointer = some true) :
    s'.Rests i := by
  refine ⟨fun process hp => h.started process (hprocess ▸ hp), fun hempty pointer rest hhead => ?_⟩
  rw [hexec] at hempty
  rw [hready] at hhead
  exact hflags pointer (hhead ▸ List.mem_cons_self) (h.filled hempty pointer rest hhead)

/-- A step that the short term scheduler does not see. -/
theorem Flagged.congr (h : s.Flagged multiprocessing point) (hprocess : s'.process = s.process)
    (hflags : s'.readyFlags = s.readyFlags) (hstates : s'.states = s.states)
    (hentries : s'.pcbsToReady = s.pcbsToReady) (hexec : s'.exec = s.exec)
    (hready : s'.ready = s.ready) (hsemaphore : s'.stsSemaphore = s.stsSemaphore) :
    s'.Flagged multiprocessing point := by
  refine ⟨hentries ▸ h.entries, ?_, ?_, ?_, fun hzero i => ?_⟩
  · rw [hflags, hentries]
    exact h.filed
  · rw [hflags, hstates]
    exact h.ready
  · rw [hentries, hprocess]
    exact h.fresh
  · obtain ⟨hrests, hcleared⟩ := h.settled (hsemaphore ▸ hzero) i
    refine ⟨fun hseen => (hrests hseen).congr (congrFun hprocess i) (by rw [hexec]) hready
      fun pointer _ hflag => ?_, fun hclear pointer => ?_⟩
    · rw [hflags]
      exact hflag
    · rw [hentries]
      exact hcleared hclear pointer

/-- A process with another state than `ready` has no flag. -/
theorem Flagged.not_flagged (h : s.Flagged multiprocessing point)
    (hstate : s.states pointer ≠ some .ready) :
    s.readyFlags pointer ≠ some true := fun hflag => hstate (h.ready pointer hflag)

/-- Another process with a flag, when a process is written to. -/
theorem Flagged.ready_setPcb (h : s.Flagged multiprocessing point) {other : PcbPointer}
    (hflag : s.readyFlags other = some true) (hne : other ≠ pointer) :
    (s.setPcb pointer pcb).states other = some .ready :=
  (states_setPcb_of_ne hne).trans (h.ready other hflag)

/-- The entry of a slot with a process that was started is empty. -/
theorem Flagged.entry_of_started (h : s.Flagged multiprocessing point) (hi : i < multiprocessing)
    {process : InSlot} (hprocess : s.process i = some process)
    (hstarted : process.recentlyExec = false) : s.pcbsToReady[i]? = some none := by
  have hlength : i < s.pcbsToReady.length := h.entries.symm ▸ hi
  cases hentry : s.pcbsToReady[i]? with
  | none => exact absurd (List.getElem?_eq_none_iff.mp hentry) (by omega)
  | some entry =>
    cases entry with
    | none => rfl
    | some pointer =>
      have hfresh := (h.fresh i pointer hentry process hprocess).1
      cases hstarted.symm.trans hfresh

theorem flagged_addProcess (hs : s.Conserved multiprocessing) (h : s.Flagged multiprocessing point)
    (free : s.pcb pointer = none) (hready : pcb.recentlyReady = false) :
    (s.addProcess pointer pcb).Flagged multiprocessing point := by
  have hstate : s.states pointer = none := by simp [states, free]
  have hflag : s.readyFlags pointer = none := by simp [readyFlags, free]
  have hprocess : (s.addProcess pointer pcb).process = s.process :=
    hs.process_eq (by simp [hstate]) rfl fun other hother => setPcb_of_ne hother
  have hflags : (s.addProcess pointer pcb).readyFlags =
      Function.update s.readyFlags pointer (some false) := by
    rw [← hready]
    exact readyFlags_setPcb s pointer pcb
  have hkept : ∀ other, s.readyFlags other = some true → other ≠ pointer := by
    rintro other hother rfl
    cases hflag.symm.trans hother
  refine ⟨h.entries, ?_, fun other hother => ?_, ?_, fun hzero i => ?_⟩
  · rw [hflags]
    exact h.filed.other (by simp [hflag]) (by decide)
  · rw [hflags] at hother
    by_cases heq : other = pointer
    · rw [heq, Function.update_self] at hother
      cases hother
    · rw [Function.update_of_ne heq] at hother
      exact h.ready_setPcb hother heq
  · rw [hprocess]
    exact h.fresh
  · obtain ⟨hrests, hcleared⟩ := h.settled hzero i
    refine ⟨fun hseen => (hrests hseen).congr (congrFun hprocess i) rfl rfl fun other _ hother =>
      ?_, hcleared⟩
    rw [hflags, Function.update_of_ne (hkept other hother)]
    exact hother

theorem flagged_longTermSchedule (hs : s.Conserved multiprocessing)
    (h : s.Flagged multiprocessing point) (hbody : s.longTermSchedule = some s') :
    s'.Flagged multiprocessing point := by
  have hprocess := process_longTermSchedule hs hbody
  obtain ⟨pointer, rest, pcb, hnew, hpcb, rfl⟩ | ⟨pointer, rest, pcb, -, hexit, hpcb, rfl⟩ |
    ⟨-, -, rfl⟩ := longTermSchedule_cases hbody
  · -- a new process becomes ready, without a flag
    have hflags : (s.toReady pointer rest pcb).readyFlags = s.readyFlags :=
      @readyFlags_setPcb_same s pointer { pcb with state := .ready } _ hpcb rfl
    refine ⟨h.entries, ?_, fun other hother => ?_, ?_, fun hzero =>
      absurd hzero (semPostNeg_ne_zero _)⟩
    · rw [hflags]
      exact h.filed
    · rw [hflags] at hother
      have hstates : (s.toReady pointer rest pcb).states =
          Function.update s.states pointer (some .ready) := states_setPcb s pointer _
      rw [hstates]
      by_cases heq : other = pointer
      · rw [heq, Function.update_self]
      · rw [Function.update_of_ne heq]
        exact h.ready other hother
    · rw [hprocess]
      exact h.fresh
  · have hmem : pointer ∈ s.exit := by simp [hexit]
    have hstate : s.states pointer = some .exit := ((hs.filing .exit).mem pointer).mp hmem
    have hflag := @Flagged.not_flagged _ pointer _ _ h (by simp [hstate])
    -- a process in `exit` has no flag, so it has no entry that is cleared
    have hentries : (s.deletePcb pointer rest).pcbsToReady = s.pcbsToReady := by
      refine List.replace_of_not_mem fun hentry => hflag ?_
      exact (h.filed.mem pointer).mp (List.reduceOption_mem_iff.mpr hentry)
    have hkept : ∀ other, s.readyFlags other = some true → other ≠ pointer := by
      rintro other hother rfl
      exact hflag hother
    have hupdate : ∀ other, other ≠ pointer → (s.deletePcb pointer rest).pcb other = s.pcb other :=
      fun other hne => Function.update_of_ne hne _ _
    have hflags : ∀ other, (s.deletePcb pointer rest).readyFlags other = some true ↔
        s.readyFlags other = some true := by
      intro other
      by_cases heq : other = pointer
      · subst heq
        refine iff_of_false ?_ hflag
        simp [readyFlags, deletePcb]
      · unfold readyFlags
        rw [hupdate other heq]
    refine ⟨hentries ▸ h.entries, ⟨hentries ▸ h.filed.nodup, fun other => ?_⟩, fun other hother =>
      ?_, ?_, fun hzero i => ?_⟩
    · rw [hentries, h.filed.mem, hflags]
    · have hold := (hflags other).mp hother
      have hready := h.ready other hold
      unfold Scheduler.states at hready ⊢
      rw [hupdate other (hkept other hold)]
      exact hready
    · rw [hentries, hprocess]
      exact h.fresh
    · obtain ⟨hrests, hcleared⟩ := h.settled hzero i
      refine ⟨fun hseen => (hrests hseen).congr (congrFun hprocess i) rfl rfl fun other _ =>
        (hflags other).mpr, fun hclear other => ?_⟩
      rw [hentries]
      exact hcleared hclear other
  · exact h

theorem Passed.slots_succ (h : Passed (.slots i) j) : Passed (.slots (i + 1)) j :=
  Nat.lt_succ_of_lt h

/-- The scheduler goes on to the next slot, if this one rests. -/
theorem Flagged.next_slot (h : s.Flagged multiprocessing (.slots i)) (hrests : s.Rests i) :
    s.Flagged multiprocessing (.slots (i + 1)) := by
  refine ⟨h.entries, h.filed, h.ready, fun j pointer hentry process hprocess => ?_, fun hzero j =>
    ⟨fun hseen => ?_, fun hclear => False.elim hclear⟩⟩
  · obtain ⟨hstarted, hpassed⟩ := h.fresh j pointer hentry process hprocess
    exact ⟨hstarted, hpassed.slots_succ⟩
  · obtain hlt | rfl := Nat.lt_succ_iff_lt_or_eq.mp hseen
    · exact (h.settled hzero j).1 hlt
    · exact hrests

theorem flagged_scheduleSlot (hs : s.Conserved multiprocessing)
    (h : s.Flagged multiprocessing (.slots i)) (hi : i < s.exec.length)
    (hbody : s.scheduleSlot i = some s') : s'.Flagged multiprocessing (.slots (i + 1)) := by
  obtain ⟨hempty, hready, rfl⟩ | ⟨pointer, rest, pcb, hempty, hready, hpcb, ⟨hflag, rfl⟩ |
    ⟨hflag, rfl⟩⟩ | ⟨pointer, pcb, hslot, hpcb, ⟨-, rfl⟩ | ⟨hstarted, rfl⟩⟩ :=
    scheduleSlot_cases hi hbody
  · -- the slot is empty, and nothing is ready
    refine h.next_slot ⟨fun process hp => ?_, fun _ pointer rest hhead => ?_⟩
    · cases (process_of_empty hempty).symm.trans hp
    · cases hready.symm.trans hhead
  · -- the first process in `ready` is held back by its flag
    refine h.next_slot ⟨fun process hp => ?_, fun _ other tail hhead => ?_⟩
    · cases (process_of_empty hempty).symm.trans hp
    · obtain ⟨rfl, -⟩ := List.cons.inj (hready.symm.trans hhead)
      rw [readyFlags_of_pcb hpcb, hflag]
  · -- the first process in `ready` gets the slot
    obtain ⟨hprocess, -, hother⟩ := process_toExec hs hempty hready hpcb
    have hflags : (s.toExec i pointer rest pcb).readyFlags = s.readyFlags :=
      @readyFlags_setPcb_same s pointer
      { pcb with state := .exec, quantum := 0, recentlyExec := true } _ hpcb rfl
    refine ⟨h.entries, hflags ▸ h.filed, fun other hset => ?_, fun j other hentry process hp => ?_,
      fun hzero => absurd hzero (semPostNeg_ne_zero _)⟩
    · rw [hflags] at hset
      have heq : other ≠ pointer := by
        rintro rfl
        rw [readyFlags_of_pcb hpcb, hflag] at hset
        cases hset
      exact h.ready_setPcb hset heq
    · by_cases hj : j = i
      · -- the new process has not been started, and the scheduler is past its slot
        subst hj
        obtain rfl := Option.some.inj (hprocess.symm.trans hp)
        exact ⟨rfl, Nat.lt_succ_self j⟩
      · rw [hother j hj] at hp
        obtain ⟨hstarted, hpassed⟩ := h.fresh j other hentry process hp
        exact ⟨hstarted, hpassed.slots_succ⟩
  · -- the process in the slot is started
    obtain ⟨hprocess, hother⟩ := @process_startExec _ pointer pcb _ _ hs hslot
    have hflags : (s.startExec i pointer pcb).readyFlags = s.readyFlags :=
      @readyFlags_setPcb_same s pointer
        { pcb with processor := i, quantum := pcb.quantum + 1, recentlyExec := false } _ hpcb rfl
    have hstates : (s.startExec i pointer pcb).states = s.states :=
      @states_setPcb_same s pointer
        { pcb with processor := i, quantum := pcb.quantum + 1, recentlyExec := false } _ hpcb rfl
    refine ⟨h.entries, hflags ▸ h.filed, ?_, fun j other hentry process hp => ?_, fun hzero j =>
      ⟨fun hseen => ?_, fun hclear => False.elim hclear⟩⟩
    · rw [hflags, hstates]
      exact h.ready
    · by_cases hj : j = i
      · -- with an entry here, the scheduler would be past this slot
        subst hj
        exact absurd (h.fresh j other hentry _ (process_of_slot hslot hpcb)).2 (Nat.lt_irrefl j)
      · rw [hother j hj] at hp
        obtain ⟨hstarted, hpassed⟩ := h.fresh j other hentry process hp
        exact ⟨hstarted, hpassed.slots_succ⟩
    · obtain hlt | rfl := Nat.lt_succ_iff_lt_or_eq.mp hseen
      · refine ((h.settled hzero j).1 hlt).congr (hother j (Nat.ne_of_lt hlt)) rfl rfl
          fun other _ hflag => ?_
        rw [hflags]
        exact hflag
      · refine ⟨fun process hp => ?_, fun hempty => nomatch hslot.symm.trans hempty⟩
        obtain rfl := Option.some.inj (hprocess.symm.trans hp)
        rfl
  · -- it was started before
    refine h.next_slot ⟨fun process hp => ?_, fun hempty => nomatch hslot.symm.trans hempty⟩
    obtain rfl := Option.some.inj ((process_of_slot hslot hpcb).symm.trans hp)
    exact hstarted

theorem flagged_clearEntry (h : s.Flagged multiprocessing (.entries i))
    (hi : i < s.pcbsToReady.length) (hbody : s.clearEntry i = some s') :
    s'.Flagged multiprocessing (.entries (i + 1)) := by
  obtain ⟨hentry, rfl⟩ | ⟨pointer, pcb, hentry, hpcb, ⟨-, rfl⟩ | ⟨hflag, rfl⟩⟩ :=
    clearEntry_cases hi hbody
  · refine ⟨h.entries, h.filed, h.ready, fun j pointer hother process hprocess => ?_, fun hzero j =>
      ⟨(h.settled hzero j).1, fun hclear pointer => ?_⟩⟩
    · obtain ⟨hstarted, hpassed⟩ := h.fresh j pointer hother process hprocess
      refine ⟨hstarted, Nat.lt_of_le_of_ne hpassed ?_⟩
      rintro rfl
      cases hentry.symm.trans hother
    · obtain hlt | rfl := Nat.lt_succ_iff_lt_or_eq.mp hclear
      · exact (h.settled hzero j).2 hlt pointer
      · rw [hentry]
        exact nofun
  · -- the flag and its entry are cleared together
    have hflags : (s.clearFlag i pointer pcb).readyFlags =
        Function.update s.readyFlags pointer (some false) := readyFlags_setPcb s pointer _
    have hstates : (s.clearFlag i pointer pcb).states = s.states :=
      @states_setPcb_same s pointer { pcb with recentlyReady := false } _ hpcb rfl
    have hprocess : (s.clearFlag i pointer pcb).process = s.process :=
      @process_setPcb_same s pointer { pcb with recentlyReady := false } _ hpcb rfl rfl
    refine ⟨List.length_set.trans h.entries, ?_, fun other hother => ?_,
      fun j other hset process hp => ?_, fun hzero => absurd hzero (semPostNeg_ne_zero _)⟩
    · rw [hflags]
      exact (h.filed.perm (reduceOption_set_none hentry)).remove nofun
    · rw [hflags] at hother
      rw [hstates]
      by_cases heq : other = pointer
      · rw [heq, Function.update_self] at hother
        cases hother
      · rw [Function.update_of_ne heq] at hother
        exact h.ready other hother
    · have hset' : (s.pcbsToReady.set i none)[j]? = some (some other) := hset
      have hj : j ≠ i := by
        rintro rfl
        rw [List.getElem?_set_self hi] at hset'
        cases hset'
      rw [List.getElem?_set_ne (Ne.symm hj)] at hset'
      rw [hprocess] at hp
      obtain ⟨hstarted, hpassed⟩ := h.fresh j other hset' process hp
      exact ⟨hstarted, Nat.lt_of_le_of_ne hpassed (Ne.symm hj)⟩
  · -- entries have flagged processes only
    have hset := (h.filed.mem pointer).mp
      (List.reduceOption_mem_iff.mpr (List.mem_of_getElem? hentry))
    rw [readyFlags_of_pcb hpcb, hflag] at hset
    cases hset

theorem flagged_planifierExecute (hs : s.Conserved multiprocessing) (hthreads : s.Threads)
    (h : s.Flagged multiprocessing point) (hpoint : s.planifier i = .waitingExec)
    (hbody : (s.pastSemaphore i).planifierExecute i = some s') :
    s'.Flagged multiprocessing point := by
  obtain ⟨⟨started, hstarted⟩, -, -⟩ := hthreads.waitingExec hpoint
  obtain ⟨pointer, pcb, hslot, hpcb, hcases⟩ := planifierExecute_cases hbody
  replace hslot : s.exec[i]? = some (some pointer) := hslot
  replace hpcb : s.pcb pointer = some pcb := hpcb
  have hi : i < multiprocessing := hs.slots ▸ length_of_getElem? hslot
  -- the process was started, so its slot has no entry that would be overwritten
  have hentry := h.entry_of_started hi hstarted rfl
  have hmem : pointer ∈ s.exec.reduceOption := List.reduceOption_mem_iff.mpr
    (List.mem_of_getElem? hslot)
  have hstate : s.states pointer = some .exec := ((hs.filing .exec).mem pointer).mp hmem
  have hflag := @Flagged.not_flagged _ pointer _ _ h (by simp [hstate])
  have hfresh : ∀ {after : Scheduler}, after.process i = none →
      (∀ j, j ≠ i → after.process j = s.process j ∧ after.pcbsToReady[j]? = s.pcbsToReady[j]?) →
      ∀ j other, after.pcbsToReady[j]? = some (some other) →
        ∀ process, after.process j = some process →
          process.recentlyExec = true ∧ Passed point j := by
    intro after hempty hother j other hafter process hp
    by_cases hj : j = i
    · subst hj
      cases hempty.symm.trans hp
    · obtain ⟨hprocess, hentries⟩ := hother j hj
      exact h.fresh j other (hentries ▸ hafter) process (hprocess ▸ hp)
  obtain ⟨-, rfl⟩ | rfl | rfl := hcases
  · -- the process has ended or failed
    obtain ⟨-, hempty, hother⟩ := hs.process_leaves hslot
      ((s.pastSemaphore i).toExit i pointer pcb) rfl fun other hne => setPcb_of_ne hne
    have hflags : ((s.pastSemaphore i).toExit i pointer pcb).readyFlags = s.readyFlags :=
      @readyFlags_setPcb_same s pointer { pcb with state := .exit } _ hpcb rfl
    have hentries : ((s.pastSemaphore i).toExit i pointer pcb).pcbsToReady = s.pcbsToReady := by
      obtain ⟨hlength, hget⟩ := List.getElem?_eq_some_iff.mp hentry
      show s.pcbsToReady.set i none = s.pcbsToReady
      rw [← hget]
      exact List.set_getElem_self hlength
    refine ⟨hentries ▸ h.entries, ?_, fun other hset => ?_, hfresh hempty fun j hj =>
      ⟨hother j hj, by rw [hentries]⟩, fun hzero => absurd hzero (semPostNeg_ne_zero _)⟩
    · rw [hflags, hentries]
      exact h.filed
    · rw [hflags] at hset
      have heq : other ≠ pointer := by
        rintro rfl
        exact hflag hset
      exact h.ready_setPcb hset heq
  · -- its quantum is over: it is ready, with a flag and an entry
    obtain ⟨-, hempty, hother⟩ := hs.process_leaves hslot
      ((s.pastSemaphore i).backToReady i pointer pcb) rfl fun other hne => setPcb_of_ne hne
    have hflags : ((s.pastSemaphore i).backToReady i pointer pcb).readyFlags =
        Function.update s.readyFlags pointer (some true) := readyFlags_setPcb s pointer _
    have hstates : ((s.pastSemaphore i).backToReady i pointer pcb).states =
        Function.update s.states pointer (some .ready) := states_setPcb s pointer _
    refine ⟨List.length_set.trans h.entries, ?_, fun other hset => ?_, hfresh hempty fun j hj =>
      ⟨hother j hj, ?_⟩, fun hzero => absurd hzero (semPostNeg_ne_zero _)⟩
    · rw [hflags]
      exact (h.filed.add hflag).perm (reduceOption_set_some hentry).symm
    · rw [hstates]
      by_cases heq : other = pointer
      · rw [heq, Function.update_self]
      · rw [hflags, Function.update_of_ne heq] at hset
        rw [Function.update_of_ne heq]
        exact h.ready other hset
    · exact List.getElem?_set_ne (Ne.symm hj)
  · -- it goes on in its slot
    have hview := Option.some.inj ((process_of_slot hslot hpcb).symm.trans hstarted)
    have hprocessor : pcb.processor = i := congrArg InSlot.processor hview
    exact h.congr (@process_continueExec s pointer pcb i hpcb hprocessor)
      (@readyFlags_setPcb_same s pointer { pcb with processor := i, quantum := pcb.quantum + 1 } _
        hpcb rfl)
      (@states_setPcb_same s pointer { pcb with processor := i, quantum := pcb.quantum + 1 } _
        hpcb rfl)
      rfl rfl rfl rfl

/-! ## Runs -/

/-- What holds of the wake-ups in every run. -/
structure Wakeful (multiprocessing : Nat) (s : Scheduler) : Prop where
  conserved : s.Conserved multiprocessing
  threads : s.Threads
  flagged : s.Flagged multiprocessing s.shortTerm
  /-- The long term scheduler was woken for every process in `new` and in `exit`. -/
  woken : s.ltsSemaphore + (if s.longTerm = .body then 1 else 0) = s.new.length + s.exit.length

theorem wakeful_setup (multiprocessing : Nat) (quantum : Int) :
    (setupScheduler multiprocessing quantum).Wakeful multiprocessing := by
  have hprocess : ∀ i, (setupScheduler multiprocessing quantum).process i = none := by
    intro i
    cases hprocess : (setupScheduler multiprocessing quantum).process i with
    | none => rfl
    | some process =>
      obtain ⟨-, pcb, hpcb, -⟩ := slot_of_process hprocess
      cases hpcb
  have hentries : ∀ (i : Nat) (pointer : PcbPointer),
      (setupScheduler multiprocessing quantum).pcbsToReady[i]? ≠ some (some pointer) := by
    intro i pointer hentry
    cases (List.mem_replicate.mp (List.mem_of_getElem? hentry)).2
  refine ⟨conserved_setup multiprocessing quantum, fun i =>
    .inl ⟨⟨rfl, rfl, rfl⟩, fun process hp => ?_⟩,
    ⟨List.length_replicate, ⟨?_, fun pointer => iff_of_false (fun hmem => ?_) nofun⟩,
      fun pointer hflag => ?_, fun i pointer hentry => absurd hentry (hentries i pointer),
      fun _ i => ⟨fun _ => ⟨fun process hp => ?_, ?_⟩,
        fun _ => hentries i⟩⟩, rfl⟩
  · cases (hprocess i).symm.trans hp
  · show (List.replicate multiprocessing none).reduceOption.Nodup
    rw [List.reduceOption_replicate_none]
    exact List.nodup_nil
  · obtain ⟨i, hentry⟩ := List.getElem?_of_mem (List.reduceOption_mem_iff.mp hmem)
    exact hentries i pointer hentry
  · cases hflag
  · cases (hprocess i).symm.trans hp
  · exact fun _ pointer rest hready => nomatch hready

theorem flagged_effect (hs : s.Conserved multiprocessing) (hthreads : s.Threads)
    (h : s.Flagged multiprocessing s.shortTerm) (heffect : s.Effect s') :
    s'.Flagged multiprocessing s'.shortTerm := by
  cases heffect with
  | arrive pointer pcb free state ready exec => exact flagged_addProcess hs h free ready
  | @longTermBody after point body =>
    have hafter := flagged_longTermSchedule hs h body
    have hpoint : s.shortTerm = after.shortTerm := by
      obtain ⟨pointer, rest, pcb, -, -, rfl⟩ | ⟨pointer, rest, pcb, -, -, -, rfl⟩ | ⟨-, -, rfl⟩ :=
        longTermSchedule_cases body <;> rfl
    rw [hpoint] at hafter
    exact hafter.congr rfl rfl rfl rfl rfl rfl rfl
  | shortTermWait point posted =>
    rw [point] at h
    -- the scheduler starts over, and has seen nothing yet
    refine ⟨h.entries, h.filed, h.ready, fun i pointer hentry process hp => ?_, fun _ i =>
      ⟨fun hseen => absurd hseen (Nat.not_lt_zero i), fun hclear => False.elim hclear⟩⟩
    exact False.elim (h.fresh i pointer hentry process hp).2
  | slot i point hi body =>
    rw [point] at h
    exact (flagged_scheduleSlot hs h hi body).congr rfl rfl rfl rfl rfl rfl rfl
  | slotsEnd i point hi =>
    rw [point] at h
    refine ⟨h.entries, h.filed, h.ready, fun j pointer hentry process hp => ?_, fun hzero j =>
      ⟨fun _ => ?_, fun hclear => absurd hclear (Nat.not_lt_zero j)⟩⟩
    · exact ⟨(h.fresh j pointer hentry process hp).1, Nat.zero_le j⟩
    · by_cases hj : j < i
      · obtain ⟨hstarted, hfilled⟩ := (h.settled hzero j).1 hj
        exact ⟨hstarted, hfilled⟩
      · -- behind the last slot there is nothing to do
        have hlength : s.exec.length ≤ j := by omega
        refine ⟨fun process hp => ?_, fun hempty => ?_⟩
        · cases (process_of_length_le hlength).symm.trans hp
        · cases (List.getElem?_eq_none hlength).symm.trans hempty
  | entry i point hi body =>
    rw [point] at h
    exact (flagged_clearEntry h hi body).congr rfl rfl rfl rfl rfl rfl rfl
  | entriesEnd i point hi =>
    rw [point] at h
    -- every entry has been cleared
    have hend : ∀ j pointer, s.pcbsToReady[j]? = some (some pointer) → j < i := by
      intro j pointer hentry
      exact Nat.lt_of_lt_of_le (length_of_getElem? hentry) hi
    refine ⟨h.entries, h.filed, h.ready, fun j pointer hentry process hp => ?_, fun hzero j =>
      ⟨fun _ => ?_, fun _ pointer hentry => ?_⟩⟩
    · exact absurd (h.fresh j pointer hentry process hp).2
        (Nat.not_le_of_lt (hend j pointer hentry))
    · obtain ⟨hstarted, hfilled⟩ := (h.settled hzero j).1 trivial
      exact ⟨hstarted, hfilled⟩
    · exact (h.settled hzero j).2 (hend j pointer hentry) pointer hentry
  | startStatement i pointer point posted slot => exact h.congr rfl rfl rfl rfl rfl rfl rfl
  | endStatement i errors pointer pcb point hpcb =>
    refine h.congr (@process_setPcb_same s pointer (afterStatement pcb errors) _ hpcb ?_ ?_)
      (@readyFlags_setPcb_same s pointer (afterStatement pcb errors) _ hpcb ?_)
      (states_setPcb_same hpcb (afterStatement_state pcb errors)) rfl rfl rfl rfl
    all_goals
      unfold afterStatement
      split <;> rfl
  | postStatement i point posted body =>
    have hafter := flagged_planifierExecute hs hthreads h point body
    have hpoint : s.shortTerm = s'.shortTerm := by
      obtain ⟨pointer, pcb, -, -, ⟨-, rfl⟩ | rfl | rfl⟩ := planifierExecute_cases body <;> rfl
    rwa [hpoint] at hafter
  | longTermWait point posted => exact h.congr rfl rfl rfl rfl rfl rfl rfl
  | configure quantum => exact h.congr rfl rfl rfl rfl rfl rfl rfl

/-- Wake-ups of the long term scheduler are counted. -/
theorem woken_effect (heffect : s.Effect s')
    (h : s.ltsSemaphore + (if s.longTerm = .body then 1 else 0) = s.new.length + s.exit.length) :
    s'.ltsSemaphore + (if s'.longTerm = .body then 1 else 0) = s'.new.length + s'.exit.length := by
  cases heffect with
  | arrive pointer pcb free state ready exec =>
    show s.ltsSemaphore + 1 + (if s.longTerm = .body then 1 else 0) =
      (s.new ++ [pointer]).length + s.exit.length
    rw [List.length_append, List.length_singleton]
    omega
  | longTermWait point posted =>
    rw [point, if_neg (by decide)] at h
    show s.ltsSemaphore - 1 + (if LongTermPoint.body = .body then 1 else 0) =
      s.new.length + s.exit.length
    rw [if_pos rfl]
    omega
  | longTermBody point body =>
    rw [point, if_pos rfl] at h
    obtain ⟨pointer, rest, pcb, hnew, -, rfl⟩ | ⟨pointer, rest, pcb, hnew, hexit, -, rfl⟩ |
      ⟨hnew, hexit, rfl⟩ := longTermSchedule_cases body
    · show s.ltsSemaphore + 0 = rest.length + s.exit.length
      rw [hnew, List.length_cons] at h
      omega
    · show s.ltsSemaphore + 0 = s.new.length + rest.length
      rw [hexit, List.length_cons] at h
      omega
    · -- the long term scheduler is not woken for nothing
      rw [hnew, hexit] at h
      cases h
  | slot i point hi body =>
    obtain ⟨-, -, rfl⟩ | ⟨pointer, rest, pcb, -, -, -, ⟨-, rfl⟩ | ⟨-, rfl⟩⟩ |
      ⟨pointer, pcb, -, -, ⟨-, rfl⟩ | ⟨-, rfl⟩⟩ := scheduleSlot_cases hi body <;> exact h
  | entry i point hi body =>
    obtain ⟨-, rfl⟩ | ⟨pointer, pcb, -, -, ⟨-, rfl⟩ | ⟨-, rfl⟩⟩ :=
      clearEntry_cases hi body <;> exact h
  | postStatement i point posted body =>
    obtain ⟨pointer, pcb, -, -, ⟨-, rfl⟩ | rfl | rfl⟩ := planifierExecute_cases body
    · show s.ltsSemaphore + 1 + (if s.longTerm = .body then 1 else 0) =
        s.new.length + (s.exit ++ [pointer]).length
      rw [List.length_append, List.length_singleton]
      omega
    · exact h
    · exact h
  | _ => exact h

theorem Wakeful.step {action : SchedulerAction} (h : s.Wakeful multiprocessing)
    (hstep : s.step action = some s') : s'.Wakeful multiprocessing := by
  have heffect := step_effect hstep
  exact ⟨h.conserved.step hstep, threads_effect h.conserved h.threads heffect,
    flagged_effect h.conserved h.threads h.flagged heffect, woken_effect heffect h.woken⟩

theorem wakeful_run {quantum : Int}
    (h : Run step (fun _ _ _ => True) (setupScheduler multiprocessing quantum) s) :
    s.Wakeful multiprocessing :=
  h.invariant (wakeful_setup multiprocessing quantum) fun _ _ _ hs hstep _ => hs.step hstep

end Scheduler

/-- **No wake-up is lost.**  Whenever the short term scheduler waits at zero, no process in a slot
is to be started, no process in `ready` is held back, and no slot is empty while there are
processes in `ready`; and whenever the long term scheduler waits, its semaphore counts the
processes in `new` and in `exit`. -/
theorem no_lost_wakeup {multiprocessing : Nat} {quantum : Int} {s : Scheduler}
    (h : Run Scheduler.step (fun _ _ _ => True) (setupScheduler multiprocessing quantum) s) :
    (s.shortTerm = .waiting → s.stsSemaphore = 0 →
      (∀ pointer pcb, some pointer ∈ s.exec → s.pcb pointer = some pcb → pcb.recentlyExec = false) ∧
      (∀ pointer pcb, pointer ∈ s.ready → s.pcb pointer = some pcb → pcb.recentlyReady = false) ∧
      ¬ (none ∈ s.exec ∧ s.ready ≠ [])) ∧
    (s.longTerm = .waiting → s.ltsSemaphore = s.new.length + s.exit.length) := by
  obtain ⟨hconserved, -, hflagged, hwoken⟩ := Scheduler.wakeful_run h
  refine ⟨fun hpoint hzero => ?_, fun hpoint => ?_⟩
  · rw [hpoint] at hflagged
    have hsettled := hflagged.settled hzero
    -- no entry is left, so no process is flagged
    have hunflagged : ∀ pointer, s.readyFlags pointer ≠ some true := by
      intro pointer hflag
      have hmem := List.reduceOption_mem_iff.mp ((hflagged.filed.mem pointer).mpr hflag)
      obtain ⟨i, hentry⟩ := List.getElem?_of_mem hmem
      exact (hsettled i).2 trivial pointer hentry
    refine ⟨fun pointer pcb hmem hpcb => ?_, fun pointer pcb _ hpcb => ?_,
      fun ⟨hempty, hready⟩ => ?_⟩
    · obtain ⟨i, hslot⟩ := List.getElem?_of_mem hmem
      exact ((hsettled i).1 trivial).started _ (Scheduler.process_of_slot hslot hpcb)
    · have hflag := hunflagged pointer
      rw [Scheduler.readyFlags_of_pcb hpcb] at hflag
      exact eq_false_of_ne_true fun htrue => hflag (congrArg some htrue)
    · obtain ⟨i, hslot⟩ := List.getElem?_of_mem hempty
      obtain ⟨pointer, rest, hhead⟩ := List.exists_cons_of_ne_nil hready
      exact hunflagged pointer (((hsettled i).1 trivial).filled hslot pointer rest hhead)
  · rw [hpoint, if_neg (by decide), Nat.add_zero] at hwoken
    exact hwoken

/-- After a `JOURNAL` was started. -/
theorem no_lost_wakeup_journal :
    ∃ s, runSteps Scheduler.step (fun _ _ _ => True) (setupScheduler 1 2)
      [.arrive 7 [generateStatement .journal] 0 0, .longTerm, .longTerm, .shortTerm, .shortTerm,
        .shortTerm, .shortTerm, .shortTerm, .shortTerm, .shortTerm, .shortTerm, .shortTerm,
        .shortTerm] = some s ∧
    s.exec = [some 7] ∧ ¬ (none ∈ s.exec ∧ s.ready ≠ []) ∧
      s.ltsSemaphore = s.new.length + s.exit.length := by
  have hsteps : ∃ s, runSteps Scheduler.step (fun _ _ _ => True) (setupScheduler 1 2)
      [.arrive 7 [generateStatement .journal] 0 0, .longTerm, .longTerm, .shortTerm, .shortTerm,
        .shortTerm, .shortTerm, .shortTerm, .shortTerm, .shortTerm, .shortTerm, .shortTerm,
        .shortTerm] = some s ∧
      s.exec = [some 7] ∧ s.shortTerm = .waiting ∧ s.stsSemaphore = 0 ∧ s.longTerm = .waiting :=
    ⟨_, rfl, rfl, rfl, rfl, rfl⟩
  obtain ⟨s, hs, hexec, hshort, hzero, hlong⟩ := hsteps
  obtain ⟨hwaits, hwoken⟩ := no_lost_wakeup (run_of_runSteps hs)
  exact ⟨s, hs, hexec, (hwaits hshort hzero).2.2, hwoken hlong⟩

end Lissandra
