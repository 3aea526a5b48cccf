import Lissandra.ExecSlotSteps

/-! # Undisturbed calls keep the slots

The steps of the short term scheduler and of the long term scheduler, and with those of the threads
the runs: as long as no call is disturbed, a thread finds in its slot what was started there and a
process is in one place (`slots_kept`).
-/
namespace Lissandra

/-- The slot and the process that the short term scheduler has its hands on. -/
def ShortTermCall.about : ShortTermCall → Option (Nat × PcbPointer)
  | .insert i pointer | .flag i pointer | .posted i pointer => some (i, pointer)
  | _ => none

/-- The short term scheduler has its hands on nothing. -/
def ShortTermCall.Free (call : ShortTermCall) : Prop := call.about = none ∧ call.hand = none

namespace ExecSlots

section Steps
variable {s s' : ExecSlots} {i j multiprocessing : Nat} {pointer : PcbPointer}
  {slot slot' : Option (Option PcbPointer)} {slots : List (Option (Option PcbPointer))}
  {next : ShortTermCall}

/-- A slot that the short term scheduler has nothing to do with. -/
theorem SeenSame.of_about
    (h : ∀ about ∈ s.shortTerm.about, j ≠ about.1 ∧ slot ≠ some (some about.2))
    (h' : ∀ about ∈ s'.shortTerm.about, j ≠ about.1 ∧ slot ≠ some (some about.2))
    (hflags : ∀ pointer, slot = some (some pointer) → s.KeepsFlags s' pointer) :
    s.SeenSame s' j slot where
  insert _ pointer := iff_of_false
    (fun heq => (h' (j, pointer) (by rw [heq]; rfl)).1 rfl)
    (fun heq => (h (j, pointer) (by rw [heq]; rfl)).1 rfl)
  flag pointer _ := iff_of_false
    (fun heq => (h' (j, pointer) (by rw [heq]; rfl)).1 rfl)
    (fun heq => (h (j, pointer) (by rw [heq]; rfl)).1 rfl)
  posted pointer hslot i := iff_of_false
    (fun heq => (h' (i, pointer) (by rw [heq]; rfl)).2 hslot)
    (fun heq => (h (i, pointer) (by rw [heq]; rfl)).2 hslot)
  flags := hflags

/-- A process on its way to a slot is in no slot. -/
theorem Kept.ne_hand (h : s.Kept multiprocessing slots) (hhand : s.shortTerm.hand = some pointer)
    (hslot : slots[j]? = some slot) : slot ≠ some (some pointer) := by
  rintro rfl
  have hpos : 0 < slots.countP fun slot => slot = some (some pointer) :=
    List.countP_pos_iff.mpr ⟨_, List.mem_of_getElem? hslot, decide_eq_true rfl⟩
  have hplaces := h.places pointer
  unfold placesIn at hplaces
  rw [if_pos hhand, h.isSome hslot, if_pos rfl] at hplaces
  omega

/-! ## The short term scheduler gets on -/

/-- A step of the short term scheduler that is about no slot. -/
theorem Kept.schedulerMoves (h : s.Kept multiprocessing slots) {pcb : PcbPointer → Option Pcb}
    {ready : List PcbPointer} {pcbsToReady : List (Option PcbPointer)} {stsSemaphore : Nat}
    (habout : s.shortTerm.about = none) (hnext : next.about = none)
    (hflags : ∀ other, s.KeepsFlags { s with pcb := pcb } other)
    (hisSome : ∀ other, (pcb other).isSome = (s.pcb other).isSome)
    (hplaces : ∀ other, ready.count other + (if next.hand = some other then 1 else 0)
      = s.ready.count other + if s.shortTerm.hand = some other then 1 else 0)
    (hscheduler : SchedulerOk { s with pcb := pcb, ready := ready, shortTerm := next } slots) :
    ({ s with
      pcb := pcb
      ready := ready
      pcbsToReady := pcbsToReady
      stsSemaphore := stsSemaphore
      shortTerm := next }).Kept multiprocessing slots where
  exec := h.exec
  length := h.length
  threads := h.threads
  slot i slot call hslot hcall := by
    refine (h.slot i slot call hslot hcall).congr (.of_about ?_ ?_ fun other _ => hflags other)
      rfl rfl rfl
    · rw [habout]
      exact nofun
    · show ∀ about ∈ next.about, _
      rw [hnext]
      exact nofun
  scheduler := hscheduler
  places other := by
    have hold := h.places other
    have hsame := hplaces other
    rw [← hisSome] at hold
    unfold placesIn at hold ⊢
    dsimp only
    omega

theorem Kept.takeReady (h : s.Kept multiprocessing slots)
    (hcall : s.shortTerm = .takeReady i pointer) :
    ({ s with ready := s.ready.tail, shortTerm := .remove i pointer }).Kept multiprocessing
      slots := by
  have hok := h.scheduler
  rw [SchedulerOk, hcall] at hok
  obtain ⟨hslot, hhead⟩ := hok
  obtain ⟨rest, hready⟩ := List.head?_eq_some_iff.mp hhead
  refine h.schedulerMoves (by rw [hcall]; rfl) rfl (fun _ => .of_eq rfl) (fun _ => rfl)
    (fun other => ?_) hslot
  rw [hready, hcall, List.tail_cons, List.count_cons]
  by_cases heq : pointer = other
  · simp [ShortTermCall.hand, heq]
  · simp [ShortTermCall.hand, heq]

/-- A step of the short term scheduler that is about slot `i`. -/
theorem Kept.schedulerWrites (h : s.Kept multiprocessing slots) (hslot : slots[i]? = some slot)
    (hplanifier : s'.planifier = s.planifier) (hready : s'.ready = s.ready)
    (hexit : s'.exit = s.exit) (hisSome : ∀ other, (s'.pcb other).isSome = (s.pcb other).isSome)
    (hexec : s'.exec = (slots.set i slot').reduceOption)
    (hself : ∀ call, s.SlotOk i slot call → s'.SlotOk i slot' call)
    (hothers : ∀ j, j ≠ i → ∀ other call, slots[j]? = some other → s.SlotOk j other call →
      s'.SlotOk j other call)
    (hscheduler : s'.SchedulerOk (slots.set i slot'))
    (hplaces : ∀ other, (if slot' = some (some other) then 1 else 0)
      + (if s'.shortTerm.hand = some other then 1 else 0)
      = (if slot = some (some other) then 1 else 0)
      + if s.shortTerm.hand = some other then 1 else 0) :
    s'.Kept multiprocessing (slots.set i slot') where
  exec := hexec
  length := List.length_set.trans h.length
  threads := by rw [hplanifier, h.threads]
  slot j other call hother hcall := by
    rw [hplanifier] at hcall
    by_cases heq : i = j
    · subst heq
      obtain ⟨hlt, -⟩ := List.getElem?_eq_some_iff.mp hslot
      rw [List.getElem?_set_self hlt] at hother
      obtain rfl := Option.some.inj hother
      exact hself call (h.slot i slot call hslot hcall)
    · rw [List.getElem?_set_ne heq] at hother
      exact hothers j (Ne.symm heq) other call hother (h.slot j other call hother hcall)
  scheduler := hscheduler
  places other := by
    have hold := h.places other
    have hsame := hplaces other
    have hslots := @countP_set_add _ (fun slot => slot = some (some other)) i _ _ slot' hslot
    simp only [decide_eq_true_eq] at hslots
    rw [← hisSome] at hold
    unfold placesIn at hold ⊢
    rw [hready, hexit, hplanifier]
    omega

/-- `list_remove(exec, i)` takes out an empty slot. -/
theorem Kept.removeEmpty (h : s.Kept multiprocessing slots)
    (hcall : s.shortTerm = .remove i pointer) (hout : ∀ j < i + 1, ¬ s.IsOut j) :
    ({ s with exec := s.exec.eraseIdx i, shortTerm := .insert i pointer }).Kept multiprocessing
      (slots.set i none) := by
  have hslot := h.scheduler
  rw [SchedulerOk, hcall] at hslot
  obtain ⟨hlt, -⟩ := List.getElem?_eq_some_iff.mp hslot
  refine h.schedulerWrites hslot rfl rfl rfl (fun _ => rfl) ?_ (fun call hok => ?_)
    (fun j hne other call hother hok => ?_) (List.getElem?_set_self hlt) (fun other => ?_)
  · rw [h.exec, eraseIdx_reduceOption (h.filled hout)]
  · cases hok with
    | empty idle init semaphore => exact .taken pointer idle init semaphore rfl
  · refine hok.congr (.of_about ?_ ?_ fun _ _ => .of_eq rfl) rfl rfl rfl
    · rw [hcall]
      intro _ hmem
      cases hmem
    · rintro about ⟨⟩
      exact ⟨hne, h.ne_hand (by rw [hcall]; rfl) hother⟩
  · simp [hcall, ShortTermCall.hand]

/-- `list_add_in_index(exec, i, pcb)` puts the slot back with a process. -/
theorem Kept.insertProcess (h : s.Kept multiprocessing slots)
    (hcall : s.shortTerm = .insert i pointer) (hout : ∀ j < i, ¬ s.IsOut j) :
    ({ s with exec := s.exec.insertIdx i (some pointer), shortTerm := .flag i pointer }).Kept
      multiprocessing (slots.set i (some (some pointer))) := by
  have hslot := h.scheduler
  rw [SchedulerOk, hcall] at hslot
  obtain ⟨hlt, -⟩ := List.getElem?_eq_some_iff.mp hslot
  refine h.schedulerWrites hslot rfl rfl rfl (fun _ => rfl) ?_ (fun call hok => ?_)
    (fun j hne other call hother hok => ?_) (List.getElem?_set_self hlt) (fun other => ?_)
  · rw [h.exec, insertIdx_reduceOption (h.filled hout) hslot]
  · cases hok with
    | taken _ idle init semaphore =>
      exact .waits pointer idle init semaphore ⟨.inl rfl, fun _ hposted => by cases hposted⟩
    | out _ _ _ notTaken => exact absurd hcall (notTaken pointer)
  · have hnot : other ≠ some (some pointer) := h.ne_hand (by rw [hcall]; rfl) hother
    refine hok.congr (.of_about ?_ ?_ fun _ _ => .of_eq rfl) rfl rfl rfl
    · rw [hcall]
      rintro about ⟨⟩
      exact ⟨hne, hnot⟩
    · rintro about ⟨⟩
      exact ⟨hne, hnot⟩
  · simp [hcall, ShortTermCall.hand]

/-- The fields of the process in slot `i` are written. -/
theorem SeenSame.of_modifyPcb (h : s.Kept multiprocessing slots) {write : Pcb → Pcb}
    (hi : slots[i]? = some (some (some pointer))) (hj : slots[j]? = some slot) (hne : j ≠ i)
    (habout : ∀ about ∈ s.shortTerm.about, about = (i, pointer))
    (habout' : ∀ about ∈ s'.shortTerm.about, about = (i, pointer))
    (hpcb : s'.pcb = (s.modifyPcb pointer write).pcb) : s.SeenSame s' j slot := by
  have hnot : slot ≠ some (some pointer) := by
    rintro rfl
    exact hne (h.unique hj hi)
  refine .of_about (fun about hmem => ?_) (fun about hmem => ?_) fun other hother => .of_eq ?_
  · obtain rfl := habout about hmem
    exact ⟨hne, hnot⟩
  · obtain rfl := habout' about hmem
    exact ⟨hne, hnot⟩
  · rw [hpcb, pcb_modifyPcb, Function.update_of_ne]
    rintro rfl
    exact hnot hother

theorem modifyPcb_self {write : Pcb → Pcb} {pcb : Pcb}
    (h : (s.modifyPcb pointer write).pcb pointer = some pcb) :
    ∃ old, s.pcb pointer = some old ∧ write old = pcb := by
  rw [pcb_modifyPcb, Function.update_self] at h
  exact Option.map_eq_some_iff.mp h

/-- A step of the short term scheduler that leaves slot `i` and writes its process. -/
theorem Kept.writesProcess (h : s.Kept multiprocessing slots) {write : Pcb → Pcb}
    {init : Nat → Nat} {started : Nat → Option PcbPointer} {stsSemaphore : Nat}
    (hslot : slots[i]? = some (some (some pointer)))
    (habout : ∀ about ∈ s.shortTerm.about, about = (i, pointer))
    (hnext : ∀ about ∈ next.about, about = (i, pointer)) (hhand : next.hand = s.shortTerm.hand)
    (hinit : ∀ j, j ≠ i → init j = s.execSemaphoresInit j)
    (hstarted : ∀ j, j ≠ i → started j = s.started j)
    (hself : ∀ call, s.SlotOk i (some (some pointer)) call →
      SlotOk { s.modifyPcb pointer write with
        execSemaphoresInit := init
        stsSemaphore := stsSemaphore
        shortTerm := next
        started := started } i (some (some pointer)) call)
    (hscheduler : SchedulerOk { s.modifyPcb pointer write with shortTerm := next } slots) :
    ({ s.modifyPcb pointer write with
      execSemaphoresInit := init
      stsSemaphore := stsSemaphore
      shortTerm := next
      started := started }).Kept multiprocessing slots := by
  have hsame := set_self_of_getElem? hslot
  rw [← hsame] at hscheduler ⊢
  refine h.schedulerWrites hslot rfl rfl rfl (isSome_modifyPcb rfl) ?_ hself
    (fun j hne other call hother hok => ?_) hscheduler (fun other => ?_)
  · rw [hsame]
    exact h.exec
  · exact hok.congr (.of_modifyPcb h hslot hother hne habout hnext rfl) (hstarted j hne)
      (hinit j hne) rfl
  · show _ + (if next.hand = some other then 1 else 0) = _
    rw [hhand]

theorem Kept.flagExec (h : s.Kept multiprocessing slots) (hcall : s.shortTerm = .flag i pointer) :
    (s.flagExec i pointer).Kept multiprocessing slots := by
  have hslot := h.scheduler
  rw [SchedulerOk, hcall] at hslot
  refine h.writesProcess hslot ?_ ?_ (by rw [hcall]; rfl) (fun _ _ => rfl) (fun _ _ => rfl)
    (fun call hok => ?_) trivial
  · rw [hcall]
    rintro about ⟨⟩
    rfl
  · intro _ hmem
    cases hmem
  · cases hok with
    | waits _ idle init semaphore awaited =>
      refine .waits pointer idle init semaphore ⟨.inr fun pcb hpcb => ?_,
        fun _ hposted => by cases hposted⟩
      obtain ⟨old, -, rfl⟩ := modifyPcb_self hpcb
      rfl
    | starts _ _ _ _ running => exact absurd hcall running.notFlagged
    | busy _ _ _ _ running => exact absurd hcall running.notFlagged
    | ends _ _ _ running => exact absurd hcall running.notFlagged

/-- **A process is started on its slot.** -/
theorem Kept.startExec (h : s.Kept multiprocessing slots) {pcb : Pcb}
    (hcall : s.shortTerm = .found i pointer) (hpcb : s.pcb pointer = some pcb)
    (hexec : pcb.recentlyExec = true) : (s.startExec i pointer).Kept multiprocessing slots := by
  have hslot := h.scheduler
  rw [SchedulerOk, hcall] at hslot
  replace hslot := hslot pcb hpcb hexec
  -- a process with this mark was not started before
  have hnot : ¬ s.Running i pointer :=
    fun running => by cases hcall.symm.trans (running.posted pcb hpcb hexec)
  refine h.writesProcess hslot ?_ ?_ (by rw [hcall]; rfl)
    (fun j hne => Function.update_of_ne hne _ _) (fun j hne => Function.update_of_ne hne _ _)
    (fun call hok => ?_) trivial
  · rw [hcall]
    intro _ hmem
    cases hmem
  · rintro about ⟨⟩
    rfl
  · cases hok with
    | waits _ idle init semaphore awaited =>
      refine .starts pointer idle ?_ semaphore ⟨Function.update_self _ _ _, fun pcb hpcb => ?_,
        fun _ _ _ => rfl, fun hflag => by cases hflag⟩
      · show Function.update _ _ _ _ = 1
        rw [Function.update_self, init]
      · obtain ⟨old, -, rfl⟩ := modifyPcb_self hpcb
        rfl
    | starts _ _ _ _ running => exact absurd running hnot
    | busy _ _ _ _ running => exact absurd running hnot
    | ends _ _ _ running => exact absurd running hnot

/-- After the post a process is not marked any more. -/
theorem Kept.countExec (h : s.Kept multiprocessing slots)
    (hcall : s.shortTerm = .posted i pointer) :
    (s.countExec i pointer).Kept multiprocessing slots where
  exec := h.exec
  length := h.length
  threads := h.threads
  slot j slot call hslot hthread := by
    refine (h.slot j slot call hslot hthread).map (fun _ other => ?_) (fun other _ awaited => ?_)
      (fun other _ running => ?_) rfl rfl
    · rw [hcall]
      exact iff_of_false nofun nofun
    · -- this process was not started yet, so it is another one
      have hne : other ≠ pointer := by
        rintro rfl
        exact awaited.notPosted i hcall
      refine ⟨.inr fun pcb hpcb => ?_, nofun⟩
      rcases awaited.flagged with hflag | hexec
      · cases hcall.symm.trans hflag
      · exact hexec pcb ((Function.update_of_ne hne _ _).symm.trans hpcb)
    · by_cases heq : other = pointer
      · subst heq
        refine ⟨running.started, fun pcb hpcb => ?_, fun pcb hpcb hexec => ?_, nofun⟩
        · obtain ⟨old, hold, rfl⟩ := modifyPcb_self hpcb
          exact running.processor old hold
        · obtain ⟨old, -, rfl⟩ := modifyPcb_self hpcb
          cases hexec
      · have hsame : (s.countExec i pointer).pcb other = s.pcb other :=
          Function.update_of_ne heq _ _
        refine ⟨running.started, fun pcb hpcb => running.processor pcb (hsame ▸ hpcb),
          fun pcb hpcb hexec => ?_, nofun⟩
        cases hcall.symm.trans (running.posted pcb (hsame ▸ hpcb) hexec)
        exact absurd rfl heq
  scheduler := trivial
  places other := by
    have hisSome : ((s.countExec i pointer).pcb other).isSome = (s.pcb other).isSome :=
      isSome_modifyPcb rfl other
    rw [hisSome, ← h.places, placesIn, placesIn, hcall]
    rfl

/-- A step of the short term scheduler that only looks. -/
theorem Kept.looks (h : s.Kept multiprocessing slots) (hfree : s.shortTerm.Free) (hnext : next.Free)
    {stsSemaphore : Nat} (hscheduler : SchedulerOk { s with shortTerm := next } slots) :
    ({ s with stsSemaphore := stsSemaphore, shortTerm := next }).Kept multiprocessing slots :=
  h.schedulerMoves hfree.1 hnext.1 (fun _ => .of_eq rfl) (fun _ => rfl)
    (fun _ => by rw [hfree.2, hnext.2]) hscheduler

/-- `list_get(exec, i)` sees the slot as it is. -/
theorem Kept.get (h : s.Kept multiprocessing slots) (hcall : s.shortTerm = .get i)
    (hout : ∀ j < i + 1, ¬ s.IsOut j) :
    s.exec[i]?.join = none ∧ slots[i]? = some (some none) ∨
      ∃ pointer, s.exec[i]?.join = some pointer ∧ slots[i]? = some (some (some pointer)) := by
  have hi := h.scheduler
  rw [SchedulerOk, hcall] at hi
  have hslot : slots[i]? = some slots[i] := List.getElem?_eq_getElem hi
  have hread : s.exec[i]? = slots[i]?.join := by
    rw [h.exec, getElem?_reduceOption (h.filled hout)]
  rw [hread, hslot]
  cases hentry : slots[i] with
  | none => exact absurd (hentry ▸ hslot) (h.filled hout i (Nat.lt_succ_self i))
  | some process =>
    cases process with
    | none => exact .inl ⟨rfl, rfl⟩
    | some pointer => exact .inr ⟨pointer, rfl, rfl⟩

theorem Kept.chooseReady (h : s.Kept multiprocessing slots) (hcall : s.shortTerm = .empty i)
    (hstep : s.chooseReady i = some s') : s'.Kept multiprocessing slots := by
  have hslot := h.scheduler
  rw [SchedulerOk, hcall] at hslot
  have hfree : s.shortTerm.Free := by
    rw [hcall]
    exact ⟨rfl, rfl⟩
  unfold ExecSlots.chooseReady at hstep
  split at hstep
  · obtain rfl := Option.some.inj hstep
    exact h.looks hfree ⟨rfl, rfl⟩ trivial
  · rename_i pointer _ hready
    obtain ⟨pcb, -, hstep⟩ := Option.bind_eq_some_iff.mp hstep
    split_ifs at hstep
    · obtain rfl := Option.some.inj hstep
      exact h.looks hfree ⟨rfl, rfl⟩ trivial
    · obtain rfl := Option.some.inj hstep
      refine h.looks hfree ⟨rfl, rfl⟩ ⟨hslot, ?_⟩
      show s.ready.head? = some pointer
      rw [hready]
      rfl

theorem Kept.checkExec (h : s.Kept multiprocessing slots) (hcall : s.shortTerm = .found i pointer)
    (hstep : s.checkExec i pointer = some s') : ∃ slots', s'.Kept multiprocessing slots' := by
  obtain ⟨pcb, hpcb, hstep⟩ := Option.bind_eq_some_iff.mp hstep
  split_ifs at hstep with hexec
  · obtain rfl := Option.some.inj hstep
    exact ⟨slots, h.startExec hcall hpcb hexec⟩
  · obtain rfl := Option.some.inj hstep
    exact ⟨slots, h.looks (by rw [hcall]; exact ⟨rfl, rfl⟩) ⟨rfl, rfl⟩ trivial⟩

theorem Kept.clearEntry (h : s.Kept multiprocessing slots) (hcall : s.shortTerm = .entries i)
    (hstep : s.clearEntry i = some s') : s'.Kept multiprocessing slots := by
  have hfree : s.shortTerm.Free := by
    rw [hcall]
    exact ⟨rfl, rfl⟩
  unfold ExecSlots.clearEntry at hstep
  split at hstep
  · obtain rfl := Option.some.inj hstep
    exact h.looks hfree ⟨rfl, rfl⟩ trivial
  · obtain ⟨pcb, -, hstep⟩ := Option.bind_eq_some_iff.mp hstep
    split_ifs at hstep
    · obtain rfl := Option.some.inj hstep
      refine h.schedulerMoves hfree.1 rfl ?_ (isSome_modifyPcb rfl)
        (fun _ => by rw [hfree.2]; rfl) trivial
      apply keepsFlags_modifyPcb rfl
      exact fun _ _ => ⟨rfl, rfl⟩
    · obtain rfl := Option.some.inj hstep
      exact h.looks hfree ⟨rfl, rfl⟩ trivial

/-- **The short term scheduler.** -/
theorem Kept.shortTermStep (h : s.Kept multiprocessing slots)
    (hundisturbed : s.Undisturbed .shortTerm) (hstep : s.shortTermStep = some s') :
    ∃ slots', s'.Kept multiprocessing slots' := by
  unfold ExecSlots.shortTermStep at hstep
  unfold Undisturbed at hundisturbed
  cases hcall : s.shortTerm with
  | waiting =>
    rw [hcall] at hstep
    dsimp only at hstep
    split_ifs at hstep
    obtain rfl := Option.some.inj hstep
    exact ⟨slots, h.looks (by rw [hcall]; exact ⟨rfl, rfl⟩) ⟨rfl, rfl⟩ trivial⟩
  | size i =>
    rw [hcall] at hstep
    dsimp only at hstep
    split_ifs at hstep with hi
    · obtain rfl := Option.some.inj hstep
      refine ⟨slots, h.looks (by rw [hcall]; exact ⟨rfl, rfl⟩) ⟨rfl, rfl⟩ ?_⟩
      show i < slots.length
      rw [h.exec] at hi
      exact Nat.lt_of_lt_of_le hi (List.reduceOption_length_le slots)
    · obtain rfl := Option.some.inj hstep
      exact ⟨slots, h.looks (by rw [hcall]; exact ⟨rfl, rfl⟩) ⟨rfl, rfl⟩ trivial⟩
  | get i =>
    rw [hcall] at hstep hundisturbed
    dsimp only at hstep
    rcases h.get hcall hundisturbed with ⟨hread, hslot⟩ | ⟨pointer, hread, hslot⟩
    · rw [hread] at hstep
      obtain rfl := Option.some.inj hstep
      exact ⟨slots, h.looks (by rw [hcall]; exact ⟨rfl, rfl⟩) ⟨rfl, rfl⟩ hslot⟩
    · rw [hread] at hstep
      obtain rfl := Option.some.inj hstep
      exact ⟨slots, h.looks (by rw [hcall]; exact ⟨rfl, rfl⟩) ⟨rfl, rfl⟩ fun _ _ _ => hslot⟩
  | empty i =>
    rw [hcall] at hstep
    exact ⟨slots, h.chooseReady hcall hstep⟩
  | takeReady i pointer =>
    rw [hcall] at hstep
    obtain rfl := Option.some.inj hstep
    exact ⟨slots, h.takeReady hcall⟩
  | remove i pointer =>
    rw [hcall] at hstep hundisturbed
    obtain rfl := Option.some.inj hstep
    exact ⟨_, h.removeEmpty hcall hundisturbed⟩
  | insert i pointer =>
    rw [hcall] at hstep hundisturbed
    obtain rfl := Option.some.inj hstep
    exact ⟨_, h.insertProcess hcall hundisturbed⟩
  | flag i pointer =>
    rw [hcall] at hstep
    obtain rfl := Option.some.inj hstep
    exact ⟨slots, h.flagExec hcall⟩
  | found i pointer =>
    rw [hcall] at hstep
    exact h.checkExec hcall hstep
  | posted i pointer =>
    rw [hcall] at hstep
    obtain rfl := Option.some.inj hstep
    exact ⟨slots, h.countExec hcall⟩
  | entries i =>
    rw [hcall] at hstep
    dsimp only at hstep
    split_ifs at hstep
    · exact ⟨slots, h.clearEntry hcall hstep⟩
    · obtain rfl := Option.some.inj hstep
      exact ⟨slots, h.looks (by rw [hcall]; exact ⟨rfl, rfl⟩) ⟨rfl, rfl⟩ trivial⟩

/-! ## The long term scheduler -/

/-- A step of the long term scheduler, which leaves the slots alone. -/
theorem Kept.longTerm (h : s.Kept multiprocessing slots) {pcb : PcbPointer → Option Pcb}
    {ready exit : List PcbPointer} {pcbsToReady : List (Option PcbPointer)} {stsSemaphore : Nat}
    {quantum : Int}
    (hpcb : ∀ (i : Nat) pointer, slots[i]? = some (some (some pointer)) →
      pcb pointer = s.pcb pointer)
    (hscheduler : SchedulerOk { s with pcb := pcb, ready := ready } slots)
    (hplaces : ∀ pointer, placesIn { s with ready := ready, exit := exit } slots pointer
      = if (pcb pointer).isSome then 1 else 0) :
    ({ s with
      pcb := pcb
      ready := ready
      exit := exit
      pcbsToReady := pcbsToReady
      stsSemaphore := stsSemaphore
      quantum := quantum }).Kept multiprocessing slots where
  exec := h.exec
  length := h.length
  threads := h.threads
  slot i slot call hslot hcall := by
    refine (h.slot i slot call hslot hcall).congr (.of_shortTerm rfl fun pointer hfull => ?_)
      rfl rfl rfl
    subst hfull
    exact .of_eq (hpcb i pointer hslot)
  scheduler := hscheduler
  places := hplaces

theorem Kept.arrive (h : s.Kept multiprocessing slots) {pcb : Pcb} (hnew : pcb.recentlyExec = false)
    (hstep : s.arrive pointer pcb = some s') : s'.Kept multiprocessing slots := by
  unfold ExecSlots.arrive at hstep
  split_ifs at hstep with hnone
  obtain rfl := Option.some.inj hstep
  refine h.longTerm (fun i other hslot => ?_) ?_ fun other => ?_
  · refine Function.update_of_ne ?_ _ _
    rintro rfl
    rw [← Option.not_isSome_iff_eq_none] at hnone
    exact hnone (h.isSome hslot)
  · have hok := h.scheduler
    unfold SchedulerOk at hok ⊢
    dsimp only
    cases hcall : s.shortTerm with
    | waiting | size | posted | entries => trivial
    | get | empty | remove | insert | flag =>
      rw [hcall] at hok
      exact hok
    | takeReady i first =>
      rw [hcall] at hok
      obtain ⟨hslot, hhead⟩ := hok
      refine ⟨hslot, ?_⟩
      rw [List.head?_append, hhead]
      rfl
    | found i seen =>
      rw [hcall] at hok
      intro old hold hexec
      by_cases heq : seen = pointer
      · subst heq
        rw [Function.update_self] at hold
        obtain rfl := Option.some.inj hold
        cases hnew.symm.trans hexec
      · exact hok old ((Function.update_of_ne heq _ _).symm.trans hold) hexec
  · have hold := h.places other
    unfold placesIn at hold ⊢
    dsimp only
    rw [List.count_append, List.count_singleton]
    by_cases heq : pointer = other
    · subst heq
      rw [hnone, Option.isSome_none, if_neg Bool.false_ne_true] at hold
      rw [Function.update_self, Option.isSome_some, if_pos rfl, if_pos (beq_self_eq_true _)]
      omega
    · rw [Function.update_of_ne (Ne.symm heq), if_neg fun hsame => heq (eq_of_beq hsame)]
      omega

theorem Kept.deletePcb (h : s.Kept multiprocessing slots) (hstep : s.deletePcb = some s') :
    s'.Kept multiprocessing slots := by
  unfold ExecSlots.deletePcb at hstep
  split at hstep
  · cases hstep
  · rename_i pointer rest hexit
    split_ifs at hstep with hinner
    obtain rfl := Option.some.inj hstep
    have hplaces := h.places
    unfold placesIn at hplaces
    rw [hexit] at hplaces
    refine h.longTerm (fun i other hslot => ?_) ?_ fun other => ?_
    · refine Function.update_of_ne ?_ _ _
      rintro rfl
      have hpos : 0 < slots.countP fun slot => slot = some (some other) :=
        List.countP_pos_iff.mpr ⟨_, List.mem_of_getElem? hslot, decide_eq_true rfl⟩
      have hone := hplaces other
      rw [h.isSome hslot, if_pos rfl, List.count_cons_self] at hone
      omega
    · unfold SchedulerOk
      dsimp only
      cases hcall : s.shortTerm with
      | waiting | size | entries => trivial
      | posted => trivial
      | get | empty | takeReady | remove | insert | flag | found =>
        rw [hcall] at hinner
        exact absurd rfl hinner
    · have hone := hplaces other
      unfold placesIn
      dsimp only
      by_cases heq : pointer = other
      · subst heq
        rw [List.count_cons_self] at hone
        rw [Function.update_self, Option.isSome_none, if_neg Bool.false_ne_true]
        have hle : (if (s.pcb pointer).isSome then 1 else 0) ≤ 1 := by split <;> omega
        omega
      · rw [List.count_cons_of_ne heq] at hone
        rw [Function.update_of_ne (Ne.symm heq)]
        exact hone

theorem kept_setup (multiprocessing : Nat) (quantum : Int) :
    (setup multiprocessing quantum).Kept multiprocessing
      (List.replicate multiprocessing (some none)) where
  exec := (List.filterMap_replicate_of_some (f := id) rfl).symm
  length := List.length_replicate
  threads := List.length_replicate
  slot i slot call hslot hcall := by
    obtain rfl := List.eq_of_mem_replicate (List.mem_of_getElem? hslot)
    obtain rfl := List.eq_of_mem_replicate (List.mem_of_getElem? hcall)
    exact .empty rfl rfl rfl
  scheduler := trivial
  places pointer := by
    simp [placesIn, setup, List.countP_replicate, PlanifierCall.hand, ShortTermCall.hand]

/-- **Undisturbed calls keep the slots.** -/
theorem Kept.step (h : s.Kept multiprocessing slots) {action : SlotAction}
    (hundisturbed : s.Undisturbed action) (hstep : s.step action = some s') :
    ∃ slots', s'.Kept multiprocessing slots' := by
  cases action with
  | arrive pointer statements quantum processor => exact ⟨slots, h.arrive rfl hstep⟩
  | deletePcb => exact ⟨slots, h.deletePcb hstep⟩
  | configure quantum =>
    obtain rfl := Option.some.inj hstep
    exact ⟨slots, h.longTerm (fun _ _ _ => rfl) h.scheduler h.places⟩
  | shortTerm => exact h.shortTermStep hundisturbed hstep
  | planifier k => exact h.planifierStep hundisturbed hstep
  | endStatement k errors => exact ⟨slots, h.endStatement hstep⟩

theorem kept_run {quantum : Int} (h : Run ExecSlots.step (fun s action _ => s.Undisturbed action)
      (setup multiprocessing quantum) s) : ∃ slots, s.Kept multiprocessing slots := by
  refine h.invariant (P := fun s => ∃ slots, s.Kept multiprocessing slots)
    ⟨_, kept_setup multiprocessing quantum⟩ ?_
  rintro s action s' ⟨slots, hkept⟩ hstep hundisturbed
  exact hkept.step hundisturbed hstep

/-! ## What is kept -/

theorem Kept.readsOwn (h : s.Kept multiprocessing slots) : s.ReadsOwn := by
  intro k call read hk hread
  obtain ⟨slot, -, hok⟩ := h.slot_of_thread hk
  cases hok with
  | busy pointer busy _ _ running =>
    refine ⟨pointer, ?_, running.started⟩
    cases call <;> cases hread <;> exact busy
  | empty idle | taken _ idle | waits _ idle | starts _ idle =>
    cases call <;> cases hread <;> cases idle
  | ends => cases hread
  | out isOut => cases call <;> cases hread <;> cases isOut

/-- A slot that is out is a hole. -/
theorem Kept.slot_of_isOut (h : s.Kept multiprocessing slots) (hout : s.IsOut j) :
    slots[j]? = some none := by
  rcases hout with ⟨call, hcall, hisOut⟩ | hinsert
  · exact (h.hole hcall hisOut).1
  · have hok := h.scheduler
    unfold SchedulerOk at hok
    cases hcall : s.shortTerm with
    | insert i pointer =>
      rw [hcall] at hok hinsert
      obtain rfl : i = j := of_decide_eq_true hinsert
      exact hok
    | _ =>
      rw [hcall] at hinsert
      cases hinsert

/-- A thread that is disturbed reads another slot than its own. -/
theorem Kept.not_read (h : s.Kept multiprocessing slots) {k : Nat} {call : PlanifierCall}
    (hk : s.planifier[k]? = some call) (hcall : call = .next ∨ call = .look)
    (hdisturbed : ¬ s.Undisturbed (.planifier k)) : s.exec[k]?.join ≠ s.started k := by
  obtain ⟨pointer, hslot, -, -, running⟩ := h.reader hk hcall
  have hreach : call.reach k = k + 1 := by
    rcases hcall with rfl | rfl <;> rfl
  obtain ⟨j, hj, hout⟩ : ∃ j < k + 1, s.IsOut j := by
    by_contra hnone
    refine hdisturbed fun other hother j hj hout => hnone ⟨j, ?_, hout⟩
    obtain rfl := Option.some.inj (hk.symm.trans hother)
    exact hreach ▸ hj
  have hhole := h.slot_of_isOut hout
  have hlt : j < k := by
    refine Nat.lt_of_le_of_ne (Nat.le_of_lt_succ hj) ?_
    rintro rfl
    cases hslot.symm.trans hhole
  intro hread
  rw [running.started, Option.join_eq_some_iff, h.exec] at hread
  -- the process would be in a slot behind its own one
  obtain ⟨i, hi, hbehind⟩ := exists_slot_of_hole hlt hhole hread
  exact Nat.ne_of_lt hi (h.unique hslot hbehind)

theorem Kept.disturbed (h : s.Kept multiprocessing slots) {k : Nat} {call : PlanifierCall}
    (hk : s.planifier[k]? = some call) (hcall : call = .next ∨ call = .look)
    (hdisturbed : ¬ s.Undisturbed (.planifier k)) (hstep : s.step (.planifier k) = some s') :
    ¬ s'.ReadsOwn := by
  intro hreads
  refine h.not_read hk hcall hdisturbed ?_
  obtain ⟨hlt, -⟩ := List.getElem?_eq_some_iff.mp hk
  obtain ⟨other, hother, hstep⟩ := Option.bind_eq_some_iff.mp hstep
  obtain rfl := Option.some.inj (hk.symm.trans hother)
  rcases hcall with rfl | rfl
  · obtain rfl := Option.some.inj hstep
    obtain ⟨pointer, hread, hstarted⟩ := hreads k _ _ (List.getElem?_set_self hlt) rfl
    exact hread.trans hstarted.symm
  · obtain rfl := Option.some.inj hstep
    obtain ⟨pointer, hread, hstarted⟩ := hreads k _ _ (List.getElem?_set_self hlt) rfl
    exact hread.trans hstarted.symm

theorem Kept.places_eq (h : s.Kept multiprocessing slots) (pointer : PcbPointer) :
    s.places pointer = s.placesIn slots pointer := by
  have hcount : s.exec.count (some pointer)
      = slots.countP fun slot => slot = some (some pointer) := by
    rw [h.exec, List.count_eq_countP, List.reduceOption, List.countP_filterMap]
    refine List.countP_congr fun slot _ => ?_
    cases slot <;> simp
  rw [ExecSlots.places, placesIn, hcount]

end Steps

end ExecSlots

open ExecSlots

/-- **Every thread works on its own slot**, in every run whose calls on `exec` are undisturbed: a
thread reads the process that was started on its slot, and a process is in one place.  A thread
that is disturbed when it is to read does not get its process. -/
theorem slots_kept {multiprocessing : Nat} {quantum : Int} {s : ExecSlots}
    (h : Run ExecSlots.step (fun s action _ => s.Undisturbed action) (setup multiprocessing quantum)
      s) :
    s.ReadsOwn ∧ (∀ pointer, s.places pointer = if (s.pcb pointer).isSome then 1 else 0) ∧
      ∀ k call s', s.planifier[k]? = some call → call = .next ∨ call = .look →
        ¬ s.Undisturbed (.planifier k) → s.step (.planifier k) = some s' → ¬ s'.ReadsOwn := by
  obtain ⟨slots, hkept⟩ := kept_run h
  exact ⟨hkept.readsOwn, fun pointer => (hkept.places_eq pointer).trans (hkept.places pointer),
    fun _ _ _ => hkept.disturbed⟩

/-- Two processes are started, and the first one comes to its end: its thread has taken the slot
out. -/
def twoProcesses : List SlotAction :=
  [.arrive 10 [generateStatement .journal] 0 0, .arrive 11 [generateStatement .journal] 0 0]
    ++ List.replicate 28 .shortTerm
    ++ [.planifier 0, .planifier 0, .endStatement 0 false, .planifier 0, .planifier 0,
      .planifier 0, .planifier 0]

/-- The slot is put back before the other thread reads. -/
theorem slots_kept_twoProcesses :
    ∃ s, runSteps ExecSlots.step (fun s action _ => s.Undisturbed action) (setup 2 2)
        (twoProcesses ++ [.planifier 0, .planifier 0, .planifier 1, .planifier 1]) = some s ∧
      s.planifier = [.done 10 true, .executing (some 11)] ∧ s.ReadsOwn ∧ s.places 10 = 1 ∧
      s.places 11 = 1 := by
  have hsteps : ∃ s, runSteps ExecSlots.step (fun s action _ => s.Undisturbed action) (setup 2 2)
        (twoProcesses ++ [.planifier 0, .planifier 0, .planifier 1, .planifier 1]) = some s ∧
      s.planifier = [.done 10 true, .executing (some 11)] ∧ (s.pcb 10).isSome ∧
      (s.pcb 11).isSome := ⟨_, rfl, rfl, rfl, rfl⟩
  obtain ⟨s, hs, hplanifier, hfirst, hsecond⟩ := hsteps
  obtain ⟨hreads, hplaces, -⟩ := slots_kept (run_of_runSteps hs)
  refine ⟨s, hs, hplanifier, hreads, ?_, ?_⟩
  · rw [hplaces, if_pos hfirst]
  · rw [hplaces, if_pos hsecond]

/-- The other thread reads before the slot is put back, and its own slot is not where it was. -/
theorem not_slots_kept :
    (∃ s, runSteps ExecSlots.step (fun _ _ _ => True) (setup 2 2)
        (twoProcesses ++ [.planifier 1, .planifier 1]) = some s ∧
      s.exec = [some 11] ∧ s.planifier = [.add 10 true, .executing none] ∧
      s.started 1 = some 11) ∧
      ¬ ∀ (multiprocessing : Nat) (quantum : Int) (s : ExecSlots),
        Run ExecSlots.step (fun _ _ _ => True) (setup multiprocessing quantum) s → s.ReadsOwn := by
  have hsteps : ∃ s, runSteps ExecSlots.step (fun _ _ _ => True) (setup 2 2)
        (twoProcesses ++ [.planifier 1, .planifier 1]) = some s ∧
      s.exec = [some 11] ∧ s.planifier = [.add 10 true, .executing none] ∧
      s.started 1 = some 11 := ⟨_, rfl, rfl, rfl, rfl⟩
  refine ⟨hsteps, fun hall => ?_⟩
  obtain ⟨s, hs, -, hplanifier, -⟩ := hsteps
  obtain ⟨pointer, hread, -⟩ := hall 2 2 s (run_of_runSteps hs) 1 (.executing none) none
    (by rw [hplanifier]; rfl) rfl
  cases hread

end Lissandra
