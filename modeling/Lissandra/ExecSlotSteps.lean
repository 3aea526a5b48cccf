import Lissandra.ExecSlots
import Lissandra.Filing
import Mathlib.Tactic.SplitIfs

/-! # Slots that are written by two calls

The array of the slots has a hole for every slot that is out, and the list `exec` is what is left of
it.  With undisturbed calls the array is kept: a slot goes with its thread (`SlotOk`) and with the
short term scheduler (`SchedulerOk`), and no process gets lost on its way (`Kept`).
-/
namespace Lissandra

/-! ## A slot and its thread -/

/-- The thread waits, or is about to. -/
def PlanifierCall.isIdle : PlanifierCall → Bool
  | .waitingInit | .done _ _ => true
  | _ => false

/-- The thread is busy with a process in its slot, and its second semaphore is at zero. -/
def PlanifierCall.Busy (pointer : PcbPointer) : PlanifierCall → Prop
  | .next | .look => True
  | .executing read | .decide read => read = some pointer
  | .remove other _ => other = pointer
  | _ => False

/-- The process that the thread has read in its slot. -/
def PlanifierCall.holds : PlanifierCall → Option PcbPointer
  | .executing read | .decide read => read
  | .remove pointer _ => some pointer
  | _ => none

theorem PlanifierCall.isOut_of_isIdle {call : PlanifierCall} (h : call.isIdle = true) :
    call.isOut = false := by
  cases call <;> first | rfl | cases h

theorem PlanifierCall.Busy.isIdle {pointer : PcbPointer} {call : PlanifierCall}
    (h : call.Busy pointer) : call.isIdle = false := by
  cases call <;> first | rfl | cases h

theorem PlanifierCall.Busy.isOut {pointer : PcbPointer} {call : PlanifierCall}
    (h : call.Busy pointer) : call.isOut = false := by
  cases call <;> first | rfl | cases h

theorem PlanifierCall.Busy.eq_of_holds {other pointer : PcbPointer} {call : PlanifierCall}
    (h : call.Busy other) (hholds : call.holds = some pointer) : other = pointer := by
  cases call with
  | executing read | decide read => exact Option.some.inj (h.symm.trans hholds)
  | remove third => exact h.symm.trans (Option.some.inj hholds)
  | _ => cases hholds

theorem PlanifierCall.not_idle_of_holds {pointer : PcbPointer} {call : PlanifierCall}
    (h : call.holds = some pointer) : call.isIdle = false ∧ call.isOut = false := by
  cases call <;> first | exact ⟨rfl, rfl⟩ | cases h

namespace ExecSlots

/-- A process in a slot that was not started there yet. -/
structure Awaited (s : ExecSlots) (i : Nat) (pointer : PcbPointer) : Prop where
  flagged : s.shortTerm = .flag i pointer ∨
    ∀ pcb, s.pcb pointer = some pcb → pcb.recentlyExec = true
  notPosted : ∀ j, s.shortTerm ≠ .posted j pointer

/-- A process that was started on its slot. -/
structure Running (s : ExecSlots) (i : Nat) (pointer : PcbPointer) : Prop where
  started : s.started i = some pointer
  processor : ∀ pcb, s.pcb pointer = some pcb → pcb.processor = i
  posted : ∀ pcb, s.pcb pointer = some pcb → pcb.recentlyExec = true →
    s.shortTerm = .posted i pointer
  notFlagged : s.shortTerm ≠ .flag i pointer

/-- A slot of the array, which may be out, goes with its thread. -/
inductive SlotOk (s : ExecSlots) (i : Nat) : Option (Option PcbPointer) → PlanifierCall → Prop
  | empty {call : PlanifierCall} (idle : call.isIdle = true) (init : s.execSemaphoresInit i = 0)
      (semaphore : s.execSemaphores i = 0) : SlotOk s i (some none) call
  | taken {call : PlanifierCall} (pointer : PcbPointer) (idle : call.isIdle = true)
      (init : s.execSemaphoresInit i = 0) (semaphore : s.execSemaphores i = 0)
      (inserted : s.shortTerm = .insert i pointer) : SlotOk s i none call
  | waits {call : PlanifierCall} (pointer : PcbPointer) (idle : call.isIdle = true)
      (init : s.execSemaphoresInit i = 0) (semaphore : s.execSemaphores i = 0)
      (awaited : s.Awaited i pointer) : SlotOk s i (some (some pointer)) call
  | starts {call : PlanifierCall} (pointer : PcbPointer) (idle : call.isIdle = true)
      (init : s.execSemaphoresInit i = 1) (semaphore : s.execSemaphores i = 0)
      (running : s.Running i pointer) : SlotOk s i (some (some pointer)) call
  | busy {call : PlanifierCall} (pointer : PcbPointer) (busy : call.Busy pointer)
      (init : s.execSemaphoresInit i = 0) (semaphore : s.execSemaphores i = 0)
      (running : s.Running i pointer) : SlotOk s i (some (some pointer)) call
  | ends (pointer : PcbPointer) (init : s.execSemaphoresInit i = 0)
      (semaphore : s.execSemaphores i = 1) (running : s.Running i pointer) :
      SlotOk s i (some (some pointer)) .waitingExec
  | out {call : PlanifierCall} (isOut : call.isOut = true) (init : s.execSemaphoresInit i = 0)
      (semaphore : s.execSemaphores i = 0) (notTaken : ∀ pointer, s.shortTerm ≠ .insert i pointer) :
      SlotOk s i none call

/-- The short term scheduler has seen its slot as it is. -/
def SchedulerOk (s : ExecSlots) (slots : List (Option (Option PcbPointer))) : Prop :=
  match s.shortTerm with
  | .get i => i < slots.length
  | .empty i | .remove i _ => slots[i]? = some (some none)
  | .takeReady i pointer => slots[i]? = some (some none) ∧ s.ready.head? = some pointer
  | .insert i _ => slots[i]? = some none
  | .flag i pointer => slots[i]? = some (some (some pointer))
  | .found i pointer => ∀ pcb, s.pcb pointer = some pcb → pcb.recentlyExec = true →
      slots[i]? = some (some (some pointer))
  | _ => True

/-- In how many places a process is, with the slots of an array. -/
def placesIn (s : ExecSlots) (slots : List (Option (Option PcbPointer))) (pointer : PcbPointer) :
    Nat :=
  s.ready.count pointer + slots.countP (fun slot => slot = some (some pointer))
    + s.exit.count pointer + s.planifier.countP (fun call => call.hand = some pointer)
    + if s.shortTerm.hand = some pointer then 1 else 0

/-- What undisturbed calls keep. -/
structure Kept (multiprocessing : Nat) (slots : List (Option (Option PcbPointer)))
    (s : ExecSlots) : Prop where
  exec : s.exec = slots.reduceOption
  length : slots.length = multiprocessing
  threads : s.planifier.length = multiprocessing
  slot : ∀ (i : Nat) slot call, slots[i]? = some slot → s.planifier[i]? = some call →
    s.SlotOk i slot call
  scheduler : s.SchedulerOk slots
  places : ∀ pointer, s.placesIn slots pointer = if (s.pcb pointer).isSome then 1 else 0

/-! ## Slots that are left as they are -/

/-- The fields that go with the slot of a process. -/
def KeepsFlags (s s' : ExecSlots) (pointer : PcbPointer) : Prop :=
  ∀ pcb', s'.pcb pointer = some pcb' → ∃ pcb, s.pcb pointer = some pcb ∧
    pcb'.recentlyExec = pcb.recentlyExec ∧ pcb'.processor = pcb.processor

section Frame
variable {s s' : ExecSlots} {i k multiprocessing : Nat} {pointer : PcbPointer}
  {slot slot' : Option (Option PcbPointer)} {call call' : PlanifierCall}
  {slots : List (Option (Option PcbPointer))}

theorem KeepsFlags.of_eq (h : s'.pcb pointer = s.pcb pointer) : s.KeepsFlags s' pointer :=
  fun pcb hpcb => ⟨pcb, h ▸ hpcb, rfl, rfl⟩

theorem pcb_modifyPcb (write : Pcb → Pcb) : (s.modifyPcb pointer write).pcb =
    Function.update s.pcb pointer ((s.pcb pointer).map write) := rfl

theorem keepsFlags_modifyPcb {write : Pcb → Pcb} (hpcb : s'.pcb = (s.modifyPcb pointer write).pcb)
    (hflags : ∀ pcb, s.pcb pointer = some pcb →
      (write pcb).recentlyExec = pcb.recentlyExec ∧ (write pcb).processor = pcb.processor)
    (other : PcbPointer) : s.KeepsFlags s' other := by
  by_cases heq : other = pointer
  · subst heq
    intro pcb' h
    rw [hpcb, pcb_modifyPcb, Function.update_self] at h
    obtain ⟨pcb, hold, rfl⟩ := Option.map_eq_some_iff.mp h
    exact ⟨pcb, hold, hflags pcb hold⟩
  · refine .of_eq ?_
    rw [hpcb, pcb_modifyPcb, Function.update_of_ne heq]

theorem isSome_modifyPcb {write : Pcb → Pcb} (hpcb : s'.pcb = (s.modifyPcb pointer write).pcb)
    (other : PcbPointer) : (s'.pcb other).isSome = (s.pcb other).isSome := by
  rw [hpcb, pcb_modifyPcb]
  by_cases heq : other = pointer
  · subst heq
    rw [Function.update_self, Option.isSome_map]
  · rw [Function.update_of_ne heq]

/-- What the short term scheduler is about, as far as a slot sees it. -/
structure SeenSame (s s' : ExecSlots) (i : Nat) (slot : Option (Option PcbPointer)) : Prop where
  insert : slot = none → ∀ pointer,
    s'.shortTerm = .insert i pointer ↔ s.shortTerm = .insert i pointer
  flag : ∀ pointer, slot = some (some pointer) →
    (s'.shortTerm = .flag i pointer ↔ s.shortTerm = .flag i pointer)
  posted : ∀ pointer, slot = some (some pointer) → ∀ j,
    (s'.shortTerm = .posted j pointer ↔ s.shortTerm = .posted j pointer)
  flags : ∀ pointer, slot = some (some pointer) → s.KeepsFlags s' pointer

theorem Awaited.congr (h : s.Awaited i pointer) (hseen : s.SeenSame s' i (some (some pointer))) :
    s'.Awaited i pointer := by
  refine ⟨?_, fun j hj => h.notPosted j ((hseen.posted pointer rfl j).mp hj)⟩
  rcases h.flagged with hflag | hexec
  · exact .inl ((hseen.flag pointer rfl).mpr hflag)
  · refine .inr fun pcb' hpcb' => ?_
    obtain ⟨pcb, hpcb, hsame, -⟩ := hseen.flags pointer rfl pcb' hpcb'
    exact hsame.trans (hexec pcb hpcb)

theorem Running.congr (h : s.Running i pointer) (hseen : s.SeenSame s' i (some (some pointer)))
    (hstarted : s'.started i = s.started i) : s'.Running i pointer where
  started := hstarted.trans h.started
  processor pcb' hpcb' := by
    obtain ⟨pcb, hpcb, -, hsame⟩ := hseen.flags pointer rfl pcb' hpcb'
    exact hsame.trans (h.processor pcb hpcb)
  posted pcb' hpcb' hexec := by
    obtain ⟨pcb, hpcb, hsame, -⟩ := hseen.flags pointer rfl pcb' hpcb'
    exact (hseen.posted pointer rfl i).mpr (h.posted pcb hpcb (hsame ▸ hexec))
  notFlagged hflag := h.notFlagged ((hseen.flag pointer rfl).mp hflag)

/-- **A slot that a step leaves alone.** -/
theorem SlotOk.map (h : s.SlotOk i slot call) (hinsert : slot = none → ∀ pointer,
      s'.shortTerm = .insert i pointer ↔ s.shortTerm = .insert i pointer)
    (hawaited : ∀ pointer, slot = some (some pointer) → s.Awaited i pointer → s'.Awaited i pointer)
    (hrunning : ∀ pointer, slot = some (some pointer) → s.Running i pointer → s'.Running i pointer)
    (hinit : s'.execSemaphoresInit i = s.execSemaphoresInit i)
    (hsemaphore : s'.execSemaphores i = s.execSemaphores i) : s'.SlotOk i slot call := by
  cases h with
  | empty idle init semaphore => exact .empty idle (hinit.trans init) (hsemaphore.trans semaphore)
  | taken pointer idle init semaphore inserted =>
    exact .taken pointer idle (hinit.trans init) (hsemaphore.trans semaphore)
      ((hinsert rfl pointer).mpr inserted)
  | waits pointer idle init semaphore awaited =>
    exact .waits pointer idle (hinit.trans init) (hsemaphore.trans semaphore)
      (hawaited pointer rfl awaited)
  | starts pointer idle init semaphore running =>
    exact .starts pointer idle (hinit.trans init) (hsemaphore.trans semaphore)
      (hrunning pointer rfl running)
  | busy pointer busy init semaphore running =>
    exact .busy pointer busy (hinit.trans init) (hsemaphore.trans semaphore)
      (hrunning pointer rfl running)
  | ends pointer init semaphore running =>
    exact .ends pointer (hinit.trans init) (hsemaphore.trans semaphore)
      (hrunning pointer rfl running)
  | out isOut init semaphore notTaken =>
    exact .out isOut (hinit.trans init) (hsemaphore.trans semaphore)
      fun pointer hcall => notTaken pointer ((hinsert rfl pointer).mp hcall)

theorem SlotOk.congr (h : s.SlotOk i slot call) (hseen : s.SeenSame s' i slot)
    (hstarted : s'.started i = s.started i)
    (hinit : s'.execSemaphoresInit i = s.execSemaphoresInit i)
    (hsemaphore : s'.execSemaphores i = s.execSemaphores i) : s'.SlotOk i slot call := by
  refine h.map hseen.insert (fun pointer hslot awaited => ?_) (fun pointer hslot running => ?_)
    hinit hsemaphore
  · subst hslot
    exact awaited.congr hseen
  · subst hslot
    exact running.congr hseen hstarted

theorem SeenSame.of_shortTerm (h : s'.shortTerm = s.shortTerm)
    (hflags : ∀ pointer, slot = some (some pointer) → s.KeepsFlags s' pointer) :
    s.SeenSame s' i slot where
  insert _ _ := by rw [h]
  flag _ _ := by rw [h]
  posted _ _ _ := by rw [h]
  flags := hflags

/-! ## What is known of a slot -/

theorem Kept.lt_of_slot (h : s.Kept multiprocessing slots) (hslot : slots[i]? = some slot) :
    i < s.planifier.length := by
  obtain ⟨hlt, -⟩ := List.getElem?_eq_some_iff.mp hslot
  rwa [h.threads, ← h.length]

theorem Kept.slot_of_thread (h : s.Kept multiprocessing slots) (hk : s.planifier[k]? = some call) :
    ∃ slot, slots[k]? = some slot ∧ s.SlotOk k slot call := by
  obtain ⟨hlt, -⟩ := List.getElem?_eq_some_iff.mp hk
  rw [h.threads, ← h.length] at hlt
  exact ⟨_, List.getElem?_eq_getElem hlt, h.slot k _ call (List.getElem?_eq_getElem hlt) hk⟩

theorem Kept.thread_of_slot (h : s.Kept multiprocessing slots) (hslot : slots[i]? = some slot) :
    ∃ call, s.planifier[i]? = some call ∧ s.SlotOk i slot call :=
  ⟨_, List.getElem?_eq_getElem (h.lt_of_slot hslot),
    h.slot i slot _ hslot (List.getElem?_eq_getElem (h.lt_of_slot hslot))⟩

/-- **Holes are slots that are out.** -/
theorem Kept.filled (h : s.Kept multiprocessing slots) (hout : ∀ j < i, ¬ s.IsOut j) :
    Filled slots i := by
  intro j hj hhole
  obtain ⟨call, hcall, hok⟩ := h.thread_of_slot hhole
  cases hok with
  | taken pointer _ _ _ inserted =>
    refine hout j hj (.inr ?_)
    rw [inserted]
    exact decide_eq_true rfl
  | out isOut => exact hout j hj (.inl ⟨call, hcall, isOut⟩)

theorem Kept.countP_le (h : s.Kept multiprocessing slots) (pointer : PcbPointer) :
    slots.countP (fun slot => slot = some (some pointer)) ≤
      if (s.pcb pointer).isSome then 1 else 0 := by
  have hplaces := h.places pointer
  unfold placesIn at hplaces
  omega

theorem Kept.isSome (h : s.Kept multiprocessing slots)
    (hslot : slots[i]? = some (some (some pointer))) : (s.pcb pointer).isSome = true := by
  have hpos : 0 < slots.countP fun slot => slot = some (some pointer) :=
    List.countP_pos_iff.mpr ⟨_, List.mem_of_getElem? hslot, decide_eq_true rfl⟩
  have hle := h.countP_le pointer
  by_contra hnone
  rw [if_neg hnone] at hle
  omega

/-- A process is in one slot. -/
theorem Kept.unique (h : s.Kept multiprocessing slots) {j : Nat}
    (hi : slots[i]? = some (some (some pointer))) (hj : slots[j]? = some (some (some pointer))) :
    i = j := by
  by_contra hne
  -- with slot `i` emptied the process would still be in slot `j`
  have hother : (slots.set i none)[j]? = some (some (some pointer)) := by
    rw [List.getElem?_set_ne hne, hj]
  have hpos : 0 < (slots.set i none).countP fun slot => slot = some (some pointer) :=
    List.countP_pos_iff.mpr ⟨_, List.mem_of_getElem? hother, decide_eq_true rfl⟩
  have hcount := @countP_set_add _ (fun slot => slot = some (some pointer)) i slots _ none hi
  have hle := h.countP_le pointer
  rw [h.isSome hi, if_pos rfl] at hle
  rw [if_pos (decide_eq_true rfl), if_neg (by simp)] at hcount
  omega

/-! ## A thread gets on -/

/-- The places that a thread takes a process from and brings it to. -/
def placesAt (s : ExecSlots) (slot : Option (Option PcbPointer)) (call : PlanifierCall)
    (pointer : PcbPointer) : Nat :=
  s.ready.count pointer + s.exit.count pointer + (if slot = some (some pointer) then 1 else 0)
    + if call.hand = some pointer then 1 else 0

/-- A step of the thread of slot `k`, as far as the rest sees it. -/
structure ThreadMoves (s s' : ExecSlots) (k : Nat) (slot slot' : Option (Option PcbPointer))
    (call call' : PlanifierCall) : Prop where
  planifier : s'.planifier = s.planifier.set k call'
  shortTerm : s'.shortTerm = s.shortTerm
  started : s'.started = s.started
  init : ∀ i, i ≠ k → s'.execSemaphoresInit i = s.execSemaphoresInit i
  semaphore : ∀ i, i ≠ k → s'.execSemaphores i = s.execSemaphores i
  flags : ∀ pointer, s.KeepsFlags s' pointer
  isSome : ∀ pointer, (s'.pcb pointer).isSome = (s.pcb pointer).isSome
  head : ∀ pointer, s.ready.head? = some pointer → s'.ready.head? = some pointer
  places : ∀ pointer, s'.placesAt slot' call' pointer = s.placesAt slot call pointer

theorem ThreadMoves.seenSame (h : s.ThreadMoves s' k slot slot' call call')
    (seen : Option (Option PcbPointer)) : s.SeenSame s' i seen :=
  .of_shortTerm h.shortTerm fun pointer _ => h.flags pointer

theorem Running.of_eq (h : s.Running i pointer) (hpcb : s'.pcb = s.pcb)
    (hshortTerm : s'.shortTerm = s.shortTerm) (hstarted : s'.started = s.started) :
    s'.Running i pointer :=
  h.congr (.of_shortTerm hshortTerm fun other _ => .of_eq (congrFun hpcb other))
    (congrFun hstarted i)

theorem ThreadMoves.running (h : s.ThreadMoves s' k slot slot' call call')
    (hrunning : s.Running i pointer) : s'.Running i pointer :=
  hrunning.congr (h.seenSame _) (congrFun h.started i)

theorem ThreadMoves.placesIn (h : s.ThreadMoves s' k slot slot' call call')
    (hk : s.planifier[k]? = some call) (hslot : slots[k]? = some slot) (pointer : PcbPointer) :
    s'.placesIn (slots.set k slot') pointer = s.placesIn slots pointer := by
  have hthread := @countP_set_add _ (fun call => call.hand = some pointer) k _ _ call' hk
  have hslots := @countP_set_add _ (fun slot => slot = some (some pointer)) k _ _ slot' hslot
  have hplaces := h.places pointer
  unfold placesAt at hplaces
  unfold ExecSlots.placesIn
  rw [h.planifier, h.shortTerm]
  simp only [decide_eq_true_eq] at hthread hslots
  omega

/-- A slot is only written by its thread when the short term scheduler has not seen it so. -/
theorem ThreadMoves.schedulerOk (h : s.ThreadMoves s' k slot slot' call call')
    (hkeep : slot' = slot ∨ (slot = none ∧ ∀ pointer, s.shortTerm ≠ .insert k pointer) ∨
      ∃ pointer, slot = some (some pointer) ∧ s.Running k pointer)
    (hslot : slots[k]? = some slot) (hok : s.SchedulerOk slots) :
    s'.SchedulerOk (slots.set k slot') := by
  -- what the short term scheduler knows of slot `k` is not what the thread has changed
  have hset : ∀ i seen, slots[i]? = some seen → (i = k → slot' = slot) →
      (slots.set k slot')[i]? = some seen := by
    intro i seen hseen hsame
    by_cases heq : k = i
    · subst heq
      rw [hsame rfl, List.getElem?_set_self (List.getElem?_eq_some_iff.mp hslot).choose]
      exact hslot.symm.trans hseen
    · rw [List.getElem?_set_ne heq, hseen]
  have hempty : ∀ i, slots[i]? = some (some none) → i = k → slot' = slot := by
    rintro i hi rfl
    obtain rfl := Option.some.inj (hslot.symm.trans hi)
    rcases hkeep with hsame | ⟨hnone, -⟩ | ⟨pointer, hfull, -⟩
    · exact hsame
    · cases hnone
    · cases hfull
  unfold SchedulerOk at hok ⊢
  rw [h.shortTerm]
  cases hcall : s.shortTerm with
  | waiting | size | posted | entries => trivial
  | get i =>
    rw [hcall] at hok
    show i < (slots.set k slot').length
    rw [List.length_set]
    exact hok
  | empty i | remove i =>
    rw [hcall] at hok
    exact hset i _ hok (hempty i hok)
  | takeReady i pointer =>
    rw [hcall] at hok
    exact ⟨hset i _ hok.1 (hempty i hok.1), h.head pointer hok.2⟩
  | insert i pointer =>
    rw [hcall] at hok
    refine hset i _ hok ?_
    rintro rfl
    obtain rfl := Option.some.inj (hslot.symm.trans hok)
    rcases hkeep with hsame | ⟨-, hnot⟩ | ⟨other, hfull, -⟩
    · exact hsame
    · exact absurd hcall (hnot pointer)
    · cases hfull
  | flag i pointer =>
    rw [hcall] at hok
    refine hset i _ hok ?_
    rintro rfl
    obtain rfl := Option.some.inj (hslot.symm.trans hok)
    rcases hkeep with hsame | ⟨hnone, -⟩ | ⟨other, hfull, hrunning⟩
    · exact hsame
    · cases hnone
    · obtain rfl : pointer = other := by simpa using hfull
      exact absurd hcall hrunning.notFlagged
  | found i pointer =>
    rw [hcall] at hok
    intro pcb' hpcb' hexec
    obtain ⟨pcb, hpcb, hsame, -⟩ := h.flags pointer pcb' hpcb'
    have hold := hok pcb hpcb (hsame ▸ hexec)
    refine hset i _ hold ?_
    rintro rfl
    obtain rfl := Option.some.inj (hslot.symm.trans hold)
    rcases hkeep with hsame | ⟨hnone, -⟩ | ⟨other, hfull, hrunning⟩
    · exact hsame
    · cases hnone
    · obtain rfl : pointer = other := by simpa using hfull
      cases hcall.symm.trans (hrunning.posted pcb hpcb (hsame ▸ hexec))

/-- **A step of a thread.** -/
theorem Kept.threadMoves (h : s.Kept multiprocessing slots) (hk : s.planifier[k]? = some call)
    (hslot : slots[k]? = some slot) (hmoves : s.ThreadMoves s' k slot slot' call call')
    (hexec : s'.exec = (slots.set k slot').reduceOption)
    (hok : s'.SlotOk k slot' call')
    (hkeep : slot' = slot ∨ (slot = none ∧ ∀ pointer, s.shortTerm ≠ .insert k pointer) ∨
      ∃ pointer, slot = some (some pointer) ∧ s.Running k pointer) :
    s'.Kept multiprocessing (slots.set k slot') where
  exec := hexec
  length := List.length_set.trans h.length
  threads := by rw [hmoves.planifier, List.length_set, h.threads]
  slot i other otherCall hother hcall := by
    rw [hmoves.planifier] at hcall
    by_cases heq : k = i
    · subst heq
      obtain ⟨hlt, -⟩ := List.getElem?_eq_some_iff.mp hslot
      obtain ⟨hltThread, -⟩ := List.getElem?_eq_some_iff.mp hk
      rw [List.getElem?_set_self hlt] at hother
      rw [List.getElem?_set_self hltThread] at hcall
      obtain rfl := Option.some.inj hother
      obtain rfl := Option.some.inj hcall
      exact hok
    · rw [List.getElem?_set_ne heq] at hother hcall
      exact (h.slot i other otherCall hother hcall).congr (hmoves.seenSame other)
        (congrFun hmoves.started i) (hmoves.init i (Ne.symm heq))
        (hmoves.semaphore i (Ne.symm heq))
  scheduler := hmoves.schedulerOk hkeep hslot h.scheduler
  places pointer := by rw [hmoves.placesIn hk hslot, h.places, hmoves.isSome]

/-- A step of a thread that leaves its slot as it is. -/
theorem Kept.threadMoves_slot (h : s.Kept multiprocessing slots) (hk : s.planifier[k]? = some call)
    (hslot : slots[k]? = some slot) (hmoves : s.ThreadMoves s' k slot slot call call')
    (hexec : s'.exec = s.exec) (hok : s'.SlotOk k slot call') : s'.Kept multiprocessing slots := by
  have hsame : slots.set k slot = slots := set_self_of_getElem? hslot
  have hkept := h.threadMoves hk hslot hmoves (by rw [hsame, hexec, h.exec]) hok (.inl rfl)
  rwa [hsame] at hkept

/-! ## The steps of a thread -/

/-- No process is written to. -/
theorem ThreadMoves.of_moveThread {ready exit : List PcbPointer} {exec : List (Option PcbPointer)}
    {init semaphores : Nat → Nat} {stsSemaphore : Nat}
    (hinit : ∀ i, i ≠ k → init i = s.execSemaphoresInit i)
    (hsemaphore : ∀ i, i ≠ k → semaphores i = s.execSemaphores i)
    (hhead : ∀ pointer, s.ready.head? = some pointer → ready.head? = some pointer)
    (hplaces : ∀ pointer, ready.count pointer + exit.count pointer
      + (if slot' = some (some pointer) then 1 else 0)
      + (if call'.hand = some pointer then 1 else 0) = s.placesAt slot call pointer) :
    s.ThreadMoves { s.moveThread k call' with
      ready := ready
      exec := exec
      exit := exit
      execSemaphoresInit := init
      execSemaphores := semaphores
      stsSemaphore := stsSemaphore } k slot slot' call call' where
  planifier := rfl
  shortTerm := rfl
  started := rfl
  init := hinit
  semaphore := hsemaphore
  flags _ := .of_eq rfl
  isSome _ := rfl
  head := hhead
  places := hplaces

/-- Nothing but the call. -/
theorem ThreadMoves.of_call (hhand : call'.hand = call.hand) :
    s.ThreadMoves (s.moveThread k call') k slot slot call call' := by
  refine .of_moveThread (fun _ _ => rfl) (fun _ _ => rfl) (fun _ head => head) fun _ => ?_
  rw [hhand]
  rfl

/-- The process stays where it is. -/
theorem ThreadMoves.of_modifyPcb {write : Pcb → Pcb} {init semaphores : Nat → Nat}
    {pcbsToReady : List (Option PcbPointer)} {stsSemaphore : Nat}
    (hflags : ∀ pcb, s.pcb pointer = some pcb →
      (write pcb).recentlyExec = pcb.recentlyExec ∧ (write pcb).processor = pcb.processor)
    (hinit : ∀ i, i ≠ k → init i = s.execSemaphoresInit i)
    (hsemaphore : ∀ i, i ≠ k → semaphores i = s.execSemaphores i)
    (hhand : call'.hand = call.hand) :
    s.ThreadMoves { (s.modifyPcb pointer write).moveThread k call' with
      execSemaphoresInit := init
      execSemaphores := semaphores
      pcbsToReady := pcbsToReady
      stsSemaphore := stsSemaphore } k slot slot call call' where
  planifier := rfl
  shortTerm := rfl
  started := rfl
  init := hinit
  semaphore := hsemaphore
  flags := keepsFlags_modifyPcb rfl hflags
  isSome := isSome_modifyPcb rfl
  head _ h := h
  places other := by
    unfold placesAt
    rw [hhand]
    rfl

theorem Kept.waitInit (h : s.Kept multiprocessing slots) (hk : s.planifier[k]? = some .waitingInit)
    (hvalue : s.execSemaphoresInit k ≠ 0) :
    ({ s.moveThread k .next with
      execSemaphoresInit :=
        Function.update s.execSemaphoresInit k (s.execSemaphoresInit k - 1) }).Kept
      multiprocessing slots := by
  obtain ⟨slot, hslot, hok⟩ := h.slot_of_thread hk
  cases hok with
  | starts pointer _ init semaphore running =>
    refine h.threadMoves_slot hk hslot (.of_moveThread (fun i hne => Function.update_of_ne hne _ _)
      (fun _ _ => rfl) (fun _ head => head) fun _ => rfl) rfl
      (.busy pointer trivial ?_ semaphore (running.of_eq rfl rfl rfl))
    show Function.update _ _ _ _ = 0
    rw [Function.update_self, init]
  | empty _ init | taken _ _ init | waits _ _ init => exact absurd init hvalue
  | busy _ busy => cases busy
  | out isOut => cases isOut

theorem Kept.waitExec (h : s.Kept multiprocessing slots)
    (hk : s.planifier[k]? = some .waitingExec) :
    ({ s.moveThread k .look with
      execSemaphores := Function.update s.execSemaphores k (s.execSemaphores k - 1) }).Kept
      multiprocessing slots := by
  obtain ⟨slot, hslot, hok⟩ := h.slot_of_thread hk
  cases hok with
  | ends pointer init semaphore running =>
    refine h.threadMoves_slot hk hslot (.of_moveThread (fun _ _ => rfl)
      (fun i hne => Function.update_of_ne hne _ _) (fun _ head => head) fun _ => rfl) rfl
      (.busy pointer trivial init ?_ (running.of_eq rfl rfl rfl))
    show Function.update _ _ _ _ = 0
    rw [Function.update_self, semaphore]
  | empty idle | taken _ idle | waits _ idle | starts _ idle => cases idle
  | busy _ busy => cases busy
  | out isOut => cases isOut

/-- A thread that is to read its slot has a process that was started there. -/
theorem Kept.reader (h : s.Kept multiprocessing slots) (hk : s.planifier[k]? = some call)
    (hcall : call = .next ∨ call = .look) :
    ∃ pointer, slots[k]? = some (some (some pointer)) ∧ s.execSemaphoresInit k = 0 ∧
      s.execSemaphores k = 0 ∧ s.Running k pointer := by
  obtain ⟨slot, hslot, hok⟩ := h.slot_of_thread hk
  cases hok with
  | busy pointer _ init semaphore running => exact ⟨pointer, hslot, init, semaphore, running⟩
  | empty idle | taken _ idle | waits _ idle | starts _ idle =>
    rcases hcall with rfl | rfl <;> cases idle
  | ends => rcases hcall with hcall | hcall <;> cases hcall
  | out isOut => rcases hcall with rfl | rfl <;> cases isOut

/-- It finds this process. -/
theorem Kept.read (h : s.Kept multiprocessing slots)
    (hslot : slots[k]? = some (some (some pointer))) (hout : ∀ j < k + 1, ¬ s.IsOut j) :
    s.exec[k]?.join = some pointer := by
  rw [h.exec, getElem?_reduceOption (h.filled hout), hslot]
  rfl

theorem Kept.next (h : s.Kept multiprocessing slots) (hk : s.planifier[k]? = some .next)
    (hout : ∀ j < k + 1, ¬ s.IsOut j) :
    (s.moveThread k (.executing s.exec[k]?.join)).Kept multiprocessing slots := by
  obtain ⟨pointer, hslot, init, semaphore, running⟩ := h.reader hk (.inl rfl)
  exact h.threadMoves_slot hk hslot (.of_call rfl) rfl
    (.busy pointer (h.read hslot hout) init semaphore (running.of_eq rfl rfl rfl))

theorem Kept.look (h : s.Kept multiprocessing slots) (hk : s.planifier[k]? = some .look)
    (hout : ∀ j < k + 1, ¬ s.IsOut j) :
    (s.moveThread k (.decide s.exec[k]?.join)).Kept multiprocessing slots := by
  obtain ⟨pointer, hslot, init, semaphore, running⟩ := h.reader hk (.inr rfl)
  exact h.threadMoves_slot hk hslot (.of_call rfl) rfl
    (.busy pointer (h.read hslot hout) init semaphore (running.of_eq rfl rfl rfl))

/-- A thread that has read its slot has the process that was started there. -/
theorem Kept.running (h : s.Kept multiprocessing slots) (hk : s.planifier[k]? = some call)
    (hholds : call.holds = some pointer) :
    slots[k]? = some (some (some pointer)) ∧ s.execSemaphoresInit k = 0 ∧ s.execSemaphores k = 0 ∧
      s.Running k pointer := by
  obtain ⟨slot, hslot, hok⟩ := h.slot_of_thread hk
  obtain ⟨hidle, hout⟩ := PlanifierCall.not_idle_of_holds hholds
  cases hok with
  | busy other busy init semaphore running =>
    obtain rfl := busy.eq_of_holds hholds
    exact ⟨hslot, init, semaphore, running⟩
  | empty idle | taken _ idle | waits _ idle | starts _ idle => cases hidle.symm.trans idle
  | ends => cases hholds
  | out isOut => cases hout.symm.trans isOut

theorem afterStatement_flags (pcb : Pcb) (errors : Bool) :
    (Scheduler.afterStatement pcb errors).recentlyExec = pcb.recentlyExec ∧
      (Scheduler.afterStatement pcb errors).processor = pcb.processor := by
  unfold Scheduler.afterStatement
  split <;> exact ⟨rfl, rfl⟩

theorem Kept.endStatement (h : s.Kept multiprocessing slots) {errors : Bool}
    (hstep : s.endStatement k errors = some s') : s'.Kept multiprocessing slots := by
  unfold ExecSlots.endStatement at hstep
  split at hstep
  · rename_i pointer hk
    obtain ⟨pcb, hpcb, hstep⟩ := Option.bind_eq_some_iff.mp hstep
    obtain ⟨_, -, hstep⟩ := Option.bind_eq_some_iff.mp hstep
    obtain rfl := Option.some.inj hstep
    obtain ⟨hslot, init, semaphore, running⟩ := h.running hk rfl
    -- the semaphore that is posted is the one of this thread
    obtain rfl := running.processor pcb hpcb
    have hmoves : s.ThreadMoves (s.postExecStatement pcb.processor pointer pcb.processor errors)
        pcb.processor (some (some pointer)) (some (some pointer)) (.executing (some pointer))
        .waitingExec :=
      .of_modifyPcb (fun old _ => afterStatement_flags old errors) (fun _ _ => rfl)
        (fun i hne => Function.update_of_ne hne _ _) rfl
    refine h.threadMoves_slot hk hslot hmoves rfl (.ends pointer init ?_ (hmoves.running running))
    show Function.update _ _ _ _ = 1
    rw [Function.update_self, semaphore]
  · cases hstep

theorem Kept.decideNext (h : s.Kept multiprocessing slots)
    (hk : s.planifier[k]? = some (.decide (some pointer)))
    (hstep : s.decideNext k pointer = some s') : s'.Kept multiprocessing slots := by
  obtain ⟨pcb, hpcb, hstep⟩ := Option.bind_eq_some_iff.mp hstep
  obtain ⟨hslot, init, semaphore, running⟩ := h.running hk rfl
  have hremove : ∀ finished,
      (s.moveThread k (.remove pointer finished)).Kept multiprocessing slots := fun _ =>
    h.threadMoves_slot hk hslot (.of_call rfl) rfl
      (.busy pointer rfl init semaphore (running.of_eq rfl rfl rfl))
  split_ifs at hstep
  · obtain rfl := Option.some.inj hstep
    exact hremove true
  · obtain rfl := Option.some.inj hstep
    exact hremove false
  · obtain rfl := Option.some.inj hstep
    have hmoves : s.ThreadMoves (s.continueExec k pointer) k (some (some pointer))
        (some (some pointer)) (.decide (some pointer)) .waitingInit :=
      .of_modifyPcb (fun old hold => ⟨rfl, (running.processor old hold).symm⟩)
        (fun i hne => Function.update_of_ne hne _ _) (fun _ _ => rfl) rfl
    refine h.threadMoves_slot hk hslot hmoves rfl
      (.starts pointer rfl ?_ semaphore (hmoves.running running))
    show Function.update _ _ _ _ = 1
    rw [Function.update_self, init]

/-- `list_remove(exec, exec_id)` takes the process of the thread out. -/
theorem Kept.remove (h : s.Kept multiprocessing slots) {finished : Bool}
    (hk : s.planifier[k]? = some (.remove pointer finished)) (hout : ∀ j < k + 1, ¬ s.IsOut j) :
    ({ s.moveThread k (.add pointer finished) with exec := s.exec.eraseIdx k }).Kept
      multiprocessing (slots.set k none) := by
  obtain ⟨hslot, init, semaphore, running⟩ := h.running hk rfl
  refine h.threadMoves hk hslot
    (.of_moveThread (fun _ _ => rfl) (fun _ _ => rfl) (fun _ head => head) fun other => ?_) ?_
    (.out rfl init semaphore fun other hinsert => ?_) (.inr (.inr ⟨pointer, rfl, running⟩))
  · simp [placesAt, PlanifierCall.hand, moveThread]
  · rw [h.exec, eraseIdx_reduceOption (h.filled hout)]
  · have hok := h.scheduler
    rw [SchedulerOk, show s.shortTerm = _ from hinsert] at hok
    cases hslot.symm.trans hok

/-- A thread whose slot is out. -/
theorem Kept.hole (h : s.Kept multiprocessing slots) (hk : s.planifier[k]? = some call)
    (hisOut : call.isOut = true) :
    slots[k]? = some none ∧ s.execSemaphoresInit k = 0 ∧ s.execSemaphores k = 0 ∧
      ∀ pointer, s.shortTerm ≠ .insert k pointer := by
  obtain ⟨slot, hslot, hok⟩ := h.slot_of_thread hk
  cases hok with
  | out _ init semaphore notTaken => exact ⟨hslot, init, semaphore, notTaken⟩
  | empty idle | taken _ idle | waits _ idle | starts _ idle =>
    cases hisOut.symm.trans (PlanifierCall.isOut_of_isIdle idle)
  | busy _ busy => cases hisOut.symm.trans busy.isOut
  | ends => cases hisOut

/-- A process goes from the hands of a thread to the end of a list. -/
theorem count_concat_hand (l : List PcbPointer) (finished : Bool) (other : PcbPointer) :
    (l ++ [pointer]).count other = l.count other
      + if (PlanifierCall.add pointer finished).hand = some other then 1 else 0 := by
  rw [List.count_append, List.count_singleton]
  by_cases heq : pointer = other
  · have hhand : (PlanifierCall.add pointer finished).hand = some other := congrArg some heq
    rw [if_pos (beq_iff_eq.mpr heq), if_pos hhand]
  · have hhand : (PlanifierCall.add pointer finished).hand ≠ some other :=
      fun hsame => heq (Option.some.inj hsame)
    rw [if_neg fun hsame => heq (eq_of_beq hsame), if_neg hhand]

theorem Kept.addExit (h : s.Kept multiprocessing slots)
    (hk : s.planifier[k]? = some (.add pointer true)) :
    ({ s.moveThread k (.insert pointer true) with exit := s.exit ++ [pointer] }).Kept
      multiprocessing slots := by
  obtain ⟨hslot, init, semaphore, notTaken⟩ := h.hole hk rfl
  refine h.threadMoves_slot hk hslot
    (.of_moveThread (fun _ _ => rfl) (fun _ _ => rfl) (fun _ head => head) fun other => ?_) rfl
    (.out rfl init semaphore notTaken)
  rw [placesAt, count_concat_hand _ true other]
  show s.ready.count other + _ + 0 + 0 = s.ready.count other + _ + 0 + _
  omega

theorem Kept.addReady (h : s.Kept multiprocessing slots)
    (hk : s.planifier[k]? = some (.add pointer false)) :
    ({ s.moveThread k (.replace pointer) with ready := s.ready ++ [pointer] }).Kept
      multiprocessing slots := by
  obtain ⟨hslot, init, semaphore, notTaken⟩ := h.hole hk rfl
  refine h.threadMoves_slot hk hslot
    (.of_moveThread (fun _ _ => rfl) (fun _ _ => rfl) (fun first hfirst => ?_) fun other => ?_) rfl
    (.out rfl init semaphore notTaken)
  · rw [List.head?_append, hfirst]
    rfl
  · rw [placesAt, count_concat_hand _ false other]
    show _ + s.exit.count other + 0 + 0 = _ + s.exit.count other + 0 + _
    omega

theorem Kept.flagReady (h : s.Kept multiprocessing slots)
    (hk : s.planifier[k]? = some (.replace pointer)) :
    (s.flagReady k pointer).Kept multiprocessing slots := by
  obtain ⟨hslot, init, semaphore, notTaken⟩ := h.hole hk rfl
  exact h.threadMoves_slot hk hslot
    (.of_modifyPcb (fun _ _ => ⟨rfl, rfl⟩) (fun _ _ => rfl) (fun _ _ => rfl) rfl) rfl
    (.out rfl init semaphore notTaken)

/-- `list_add_in_index(exec, exec_id, NULL)` puts an empty slot in its place. -/
theorem Kept.insert (h : s.Kept multiprocessing slots) {finished : Bool}
    (hk : s.planifier[k]? = some (.insert pointer finished)) (hout : ∀ j < k, ¬ s.IsOut j) :
    ({ s.moveThread k (.done pointer finished) with exec := s.exec.insertIdx k none }).Kept
      multiprocessing (slots.set k (some none)) := by
  obtain ⟨hslot, init, semaphore, notTaken⟩ := h.hole hk rfl
  refine h.threadMoves hk hslot
    (.of_moveThread (fun _ _ => rfl) (fun _ _ => rfl) (fun _ head => head) fun other => ?_) ?_
    (.empty rfl init semaphore) (.inr (.inl ⟨rfl, notTaken⟩))
  · simp [placesAt, PlanifierCall.hand, moveThread]
  · rw [h.exec, insertIdx_reduceOption (h.filled hout) hslot]

/-- A thread that is done goes back to its wait. -/
theorem SlotOk.idle (h : s.SlotOk k slot call) (hidle : call.isIdle = true) :
    s.SlotOk k slot .waitingInit := by
  cases h with
  | empty _ init semaphore => exact .empty rfl init semaphore
  | taken pointer _ init semaphore inserted => exact .taken pointer rfl init semaphore inserted
  | waits pointer _ init semaphore awaited => exact .waits pointer rfl init semaphore awaited
  | starts pointer _ init semaphore running => exact .starts pointer rfl init semaphore running
  | busy _ busy => cases hidle.symm.trans busy.isIdle
  | ends => cases hidle
  | out isOut => cases isOut.symm.trans (PlanifierCall.isOut_of_isIdle hidle)

theorem Kept.done (h : s.Kept multiprocessing slots) (hk : s.planifier[k]? = some call)
    (hidle : call.isIdle = true) (hmoves : ∀ slot, s.ThreadMoves s' k slot slot call .waitingInit)
    (hexec : s'.exec = s.exec) (hinit : s'.execSemaphoresInit = s.execSemaphoresInit)
    (hsemaphore : s'.execSemaphores = s.execSemaphores) : s'.Kept multiprocessing slots := by
  obtain ⟨slot, hslot, hok⟩ := h.slot_of_thread hk
  exact h.threadMoves_slot hk hslot (hmoves slot) hexec ((hok.idle hidle).congr
    ((hmoves slot).seenSame slot) (congrFun (hmoves slot).started k) (congrFun hinit k)
    (congrFun hsemaphore k))

/-- **The threads of the slots.** -/
theorem Kept.planifierStep (h : s.Kept multiprocessing slots)
    (hundisturbed : s.Undisturbed (.planifier k)) (hstep : s.planifierStep k = some s') :
    ∃ slots', s'.Kept multiprocessing slots' := by
  obtain ⟨call, hk, hstep⟩ := Option.bind_eq_some_iff.mp hstep
  replace hundisturbed := hundisturbed call hk
  cases call with
  | waitingInit =>
    dsimp only at hstep
    split_ifs at hstep with hvalue
    obtain rfl := Option.some.inj hstep
    exact ⟨slots, h.waitInit hk hvalue⟩
  | next =>
    obtain rfl := Option.some.inj hstep
    exact ⟨slots, h.next hk hundisturbed⟩
  | executing read => cases hstep
  | waitingExec =>
    dsimp only at hstep
    split_ifs at hstep
    obtain rfl := Option.some.inj hstep
    exact ⟨slots, h.waitExec hk⟩
  | look =>
    obtain rfl := Option.some.inj hstep
    exact ⟨slots, h.look hk hundisturbed⟩
  | decide read =>
    cases read with
    | none => cases hstep
    | some pointer => exact ⟨slots, h.decideNext hk hstep⟩
  | remove pointer finished =>
    obtain rfl := Option.some.inj hstep
    exact ⟨_, h.remove hk hundisturbed⟩
  | add pointer finished =>
    cases finished with
    | true =>
      obtain rfl := Option.some.inj hstep
      exact ⟨slots, h.addExit hk⟩
    | false =>
      obtain rfl := Option.some.inj hstep
      exact ⟨slots, h.addReady hk⟩
  | replace pointer =>
    obtain rfl := Option.some.inj hstep
    exact ⟨slots, h.flagReady hk⟩
  | insert pointer finished =>
    obtain rfl := Option.some.inj hstep
    exact ⟨_, h.insert hk hundisturbed⟩
  | done pointer finished =>
    cases finished with
    | true =>
      obtain rfl := Option.some.inj hstep
      refine ⟨slots, h.done hk rfl (fun slot => ?_) rfl rfl rfl⟩
      exact .of_modifyPcb (fun _ _ => ⟨rfl, rfl⟩) (fun _ _ => rfl) (fun _ _ => rfl) rfl
    | false =>
      obtain rfl := Option.some.inj hstep
      refine ⟨slots, h.done hk rfl (fun slot => ?_) rfl rfl rfl⟩
      exact .of_moveThread (fun _ _ => rfl) (fun _ _ => rfl) (fun _ head => head) fun _ => rfl

end Frame

end ExecSlots

end Lissandra
