import Lissandra.GossipMerging

/-! # The memory without a number

Until its first gossip is answered the kernel has one memory, of id -1, at the address of its
configuration.  The answer takes the memory at position 0 out of the table and frees it.  A
request keeps the address of the memory it was sent to, and nothing keeps the kernel from sending
several before the first one is answered: for those after it the callback reads the id of a freed
block.  What is there is up to `malloc` (`stale`); if it is still -1, the memory at position 0 is
taken out once more, whichever it is.
-/
namespace Lissandra

/-- What happens next: a request is sent, it is answered, it fails, or something that has nothing to
do with gossiping. -/
inductive GossipEvent where
  | send (random : Nat)
  | answer (i : Nat) (received : List (MemoryT × MemoryPointer)) (now : Int64) (stale : MemoryT)
  | failure (i : Nat) (now : Int64) (stale : MemoryT)
  | other (action : KernelAction)

namespace KernelMemories
variable (s : KernelMemories)

/-- What is read at an address, which may have been freed. -/
def read (stale : MemoryT) (pointer : MemoryPointer) : MemoryT := (s.heap pointer).getD stale

/-- What is written to a freed block is lost. -/
def overwrite (pointer : MemoryPointer) (memory : MemoryT) : KernelMemories :=
  if (s.heap pointer).isSome then s.write pointer memory else s

/-- `post_gossip` with an answer. -/
def answerGossip (i : Nat) (received : List (MemoryT × MemoryPointer)) (now : Int64)
    (stale : MemoryT) : Option KernelMemories := do
  let pointer ← s.gossips[i]?
  let selected := s.read stale pointer
  let s := { s with gossips := s.gossips.eraseIdx i }
  let s := if selected.id = -1 then { s with memories := s.memories.drop 1 }.free pointer
    else s.overwrite pointer { selected with alive := true, timestamp := now }
  s.updateMemories received

/-- `post_gossip` with `NULL`. -/
def gossipFailed (i : Nat) (now : Int64) (stale : MemoryT) : Option KernelMemories := do
  let pointer ← s.gossips[i]?
  let selected := s.read stale pointer
  let s := { s with gossips := s.gossips.eraseIdx i }
  (s.overwrite pointer { selected with alive := false, timestamp := now }).removeMemory selected.id

/-- One step. -/
def gossipStep : GossipEvent → Option KernelMemories
  | .send random => s.gossip random
  | .answer i received now stale => s.answerGossip i received now stale
  | .failure i now stale => s.gossipFailed i now stale
  | .other (.processAdd input) => s.processAdd input
  | .other (.execRemote consistency key random) => s.execRemote consistency key random
  | .other (.requestAnswered i) => s.step (.requestAnswered i)
  | .other (.requestFailed i now) => s.requestFailed i now
  | .other _ => none

/-- The memory that `list_remove(g_memories, 0)` takes out in a step. -/
def takenOut : GossipEvent → List MemoryT
  | .answer i _ _ stale =>
    match s.gossips[i]? with
    | some pointer =>
      if (s.read stale pointer).id = -1 then (s.memories.head?.bind s.heap).toList else []
    | none => []
  | _ => []

/-- The memory that a request was sent to has not been freed. -/
def StillAllocated : GossipEvent → Prop
  | .answer i _ _ _ => ∀ pointer ∈ s.gossips[i]?, (s.heap pointer).isSome
  | .failure i _ _ => ∀ pointer ∈ s.gossips[i]?, (s.heap pointer).isSome
  | _ => True

instance : (event : GossipEvent) → Decidable (s.StillAllocated event)
  | .answer i _ _ _ =>
    inferInstanceAs (Decidable (∀ pointer ∈ s.gossips[i]?, (s.heap pointer).isSome))
  | .failure i _ _ =>
    inferInstanceAs (Decidable (∀ pointer ∈ s.gossips[i]?, (s.heap pointer).isSome))
  | .send _ | .other _ => inferInstanceAs (Decidable True)

/-- The ids of the table. -/
def ids : List (Option Int32) := s.memories.map fun pointer => (s.heap pointer).map MemoryT.id

/-- The table has a memory of this id. -/
def Knows (id : Int32) : Prop := some id ∈ s.ids

end KernelMemories

/-- A table that a memory node has in some network of memories with numbers. -/
def NodeTable (received : List MemoryT) : Prop :=
  ∃ (N : Type) (_ : DecidableEq N) (start s : GossipNetwork N) (node : N), start.Start ∧
    (∀ node, (start.config node).memoryNumber ≠ -1) ∧
    Run GossipNetwork.step (fun _ _ _ => True) start s ∧ received = s.memories node

/-- Answers are tables of memory nodes. -/
def GossipEvent.FromNodes : GossipEvent → Prop
  | .answer _ received _ _ => NodeTable (received.map Prod.fst)
  | _ => True

/-- The kernel, and the memories that were taken out of its table so far. -/
abbrev GossipHistory := KernelMemories × List MemoryT

/-- One step, with what it takes out. -/
def GossipHistory.step (history : GossipHistory) (event : GossipEvent) : Option GossipHistory :=
  (history.1.gossipStep event).map fun s => (s, history.2 ++ history.1.takenOut event)

/-- The runs in which answers come from memory nodes and callbacks meet a condition. -/
abbrev GossipRun (allowed : KernelMemories → GossipEvent → Prop) :
    GossipHistory → GossipHistory → Prop :=
  Run GossipHistory.step fun history event _ => event.FromNodes ∧ allowed history.1 event

/-! ## What nodes send -/

section Nodes
variable {N : Type} [DecidableEq N] {s s' start : GossipNetwork N} {action : GossipAction N}

/-- No node has the memory without a number in its table. -/
def GossipNetwork.Numbered (s : GossipNetwork N) : Prop :=
  ∀ node, ∀ memory ∈ s.memories node, memory.id ≠ -1

theorem GossipNetwork.Numbered.setMemories (h : s.Numbered) (node : N) {memories : List MemoryT}
    (hmemories : ∀ memory ∈ memories, memory.id ≠ -1) :
    (s.setMemories node memories).Numbered := by
  intro other memory hmem
  rcases GossipNetwork.mem_setMemories hmem with hnew | hold
  · exact hmemories memory hnew
  · exact h other memory hold

/-- A node does not append the memory without a number. -/
theorem id_ne_updateMemories {memories received : List MemoryT}
    (h : ∀ memory ∈ memories, memory.id ≠ -1) :
    ∀ memory ∈ updateMemories memories received, memory.id ≠ -1 := by
  have hone : ∀ (memories : List MemoryT) (new : MemoryT), (∀ memory ∈ memories, memory.id ≠ -1) →
      ∀ memory ∈ updateMemory memories new, memory.id ≠ -1 := by
    intro memories new hmemories
    unfold updateMemory
    induction memories with
    | nil =>
      intro memory hmem
      rw [refresh] at hmem
      split_ifs at hmem with hkeep
      · rw [List.mem_singleton] at hmem
        rw [hmem]
        exact of_decide_eq_true hkeep
      · cases hmem
    | cons first rest ih =>
      intro memory hmem
      rw [refresh] at hmem
      have hfirst := hmemories first List.mem_cons_self
      have hrest : ∀ memory ∈ rest, memory.id ≠ -1 := fun memory hmem =>
        hmemories memory (List.mem_cons_of_mem _ hmem)
      split_ifs at hmem with hsame
      · rcases List.mem_cons.mp hmem with rfl | hmem
        · rw [key_supersede hsame, ← hsame]
          exact hfirst
        · exact hrest memory hmem
      · rcases List.mem_cons.mp hmem with rfl | hmem
        · exact hfirst
        · exact ih hrest memory hmem
  unfold updateMemories
  induction received generalizing memories with
  | nil => exact h
  | cons new received ih => exact ih (hone memories new h)

theorem GossipNetwork.Numbered.step (h : s.Numbered) (hstep : s.step action = some s') :
    s'.Numbered := by
  have hupdate : ∀ (node : N) (p : MemoryT → Bool) (f : MemoryT → MemoryT),
      (∀ memory, (f memory).id = memory.id) →
        ∀ memory ∈ updateFirst p f (s.memories node), memory.id ≠ -1 := by
    intro node p f hf memory hmem
    rcases mem_updateFirst hmem with hold | ⟨old, hold, -, rfl⟩
    · exact h node memory hold
    · rw [hf]
      exact h node old hold
  cases GossipNetwork.effect_of_step hstep with
  | round node now =>
    have hset := h.setMemories node (hupdate node
      (fun memory => memory.id = (s.config node).memoryNumber)
      (fun me => { me with timestamp := now }) fun _ => rfl)
    exact hset
  | request i node ip port => exact h
  | arrival node received hreceived hthreads =>
    have hset := h.setMemories node (@id_ne_updateMemories _ received (h node))
    exact hset
  | failure i now thread hthread =>
    have hset := h.setMemories thread.node (hupdate thread.node
      (fun original => original.hasAddress thread.ip thread.port)
      (fun original => { original with alive := false, timestamp := now }) fun _ => rfl)
    exact hset

/-- No answer has the memory without a number. -/
theorem NodeTable.id_ne {received : List MemoryT} (h : NodeTable received) :
    ∀ memory ∈ received, memory.id ≠ -1 := by
  obtain ⟨N, _, start, s, node, hstart, hnumbers, hrun, rfl⟩ := h
  have hfirst : start.Numbered := by
    intro other memory hmem
    obtain ⟨timestamp, hmemories⟩ := hstart.memories other
    rw [hmemories, List.mem_singleton] at hmem
    rw [hmem]
    exact hnumbers other
  exact hrun.invariant hfirst (fun _ _ _ h htaken _ => h.step htaken) node

end Nodes

/-! ## The table of the kernel -/

namespace KernelMemories
variable {s s' s₁ : KernelMemories} {pointer address : MemoryPointer} {memory : MemoryT}
  {id : Int32} {table : List MemoryT} {incoming : List (MemoryT × MemoryPointer)}
  {event : GossipEvent} {now : Int64} {stale : MemoryT} {i : Nat}

/-- What the table points to is allocated, with different ids; and where a memory without a number
is allocated, the table has it in the first place. -/
structure Tabled (s : KernelMemories) : Prop where
  allocated : ∀ pointer ∈ s.memories, (s.heap pointer).isSome
  nodup : s.ids.Nodup
  first : ∀ pointer memory, s.heap pointer = some memory → memory.id = -1 →
    s.memories.head? = some pointer

/-- The table loses no number, and no memory without one is allocated. -/
structure Keeps (s s' : KernelMemories) : Prop where
  knows : ∀ id, id ≠ -1 → s.Knows id → s'.Knows id
  unnumbered : ∀ pointer memory, s'.heap pointer = some memory → memory.id = -1 →
    ∃ old, s.heap pointer = some old ∧ old.id = -1

theorem Keeps.refl (s : KernelMemories) : Keeps s s :=
  ⟨fun _ _ h => h, fun _ memory h hid => ⟨memory, h, hid⟩⟩

theorem Keeps.trans (h : Keeps s s₁) (h' : Keeps s₁ s') : Keeps s s' := by
  refine ⟨fun id hid hknows => h'.knows id hid (h.knows id hid hknows), ?_⟩
  intro pointer memory hmemory hid
  obtain ⟨middle, hmiddle, hmiddleid⟩ := h'.unnumbered pointer memory hmemory hid
  exact h.unnumbered pointer middle hmiddle hmiddleid

/-- Only the heap and the table matter. -/
theorem Tabled.congr (h : s.Tabled) (hmemories : s'.memories = s.memories)
    (hheap : s'.heap = s.heap) : s'.Tabled ∧ Keeps s s' := by
  obtain ⟨hallocated, hnodup, hfirst⟩ := h
  refine ⟨⟨?_, ?_, ?_⟩, ⟨?_, ?_⟩⟩
  · rw [hmemories, hheap]
    exact hallocated
  · rw [ids, hmemories, hheap]
    exact hnodup
  · rw [hmemories, hheap]
    exact hfirst
  · intro id _ hknows
    rw [Knows, ids, hmemories, hheap]
    exact hknows
  · rw [hheap]
    exact fun pointer memory hmemory hid => ⟨memory, hmemory, hid⟩

/-- A memory is written without its id. -/
theorem Tabled.write {old : MemoryT} (h : s.Tabled) (hold : s.heap pointer = some old)
    (hid : memory.id = old.id) :
    (s.write pointer memory).Tabled ∧ Keeps s (s.write pointer memory) := by
  have hsame := map_id_update hold hid
  have hids : (s.write pointer memory).ids = s.ids := List.map_congr_left fun other _ => hsame other
  -- what is allocated is what was, with the ids that it had
  have hback : ∀ other content, (s.write pointer memory).heap other = some content →
      ∃ before, s.heap other = some before ∧ before.id = content.id := by
    intro other content hcontent
    have hmap := hsame other
    rw [show Function.update s.heap pointer (some memory) other = some content from hcontent,
      Option.map_some] at hmap
    obtain ⟨before, hbefore, heq⟩ := Option.map_eq_some_iff.mp hmap.symm
    exact ⟨before, hbefore, heq⟩
  refine ⟨⟨fun other hother => ?_, hids ▸ h.nodup, ?_⟩, ⟨?_, ?_⟩⟩
  · have hmap := congrArg Option.isSome (hsame other)
    rw [Option.isSome_map, Option.isSome_map] at hmap
    exact hmap.trans (h.allocated other hother)
  · intro other content hcontent hminus
    obtain ⟨before, hbefore, heq⟩ := hback other content hcontent
    exact h.first other before hbefore (heq.trans hminus)
  · intro id _ hknows
    rw [Knows, hids]
    exact hknows
  · intro other content hcontent hminus
    obtain ⟨before, hbefore, heq⟩ := hback other content hcontent
    exact ⟨before, hbefore, heq.trans hminus⟩

/-- **A received memory**, which has a number. -/
theorem Tabled.updateMemory (h : s.Tabled) (hid : memory.id ≠ -1)
    (hrun : s.updateMemory memory address = some s') : s'.Tabled ∧ Keeps s s' := by
  cases updates_of_updateMemory hrun with
  | dead found there same newer removed =>
    obtain ⟨hwritten, hkept⟩ := h.write there same
    obtain ⟨hmemories, hheap⟩ := removeMemory_table removed
    obtain ⟨hremoved, hkept'⟩ := hwritten.congr hmemories hheap
    exact ⟨hremoved, hkept.trans hkept'⟩
  | alive found there same newer alive => exact h.write there same
  | older found there older => exact ⟨h, .refl s⟩
  | new unknown free =>
    have hold : ∀ pointer ∈ s.memories,
        Function.update s.heap address (some memory) pointer = s.heap pointer := by
      intro pointer hmem
      refine Function.update_of_ne ?_ _ _
      rintro rfl
      have hthere := h.allocated pointer hmem
      rw [free] at hthere
      cases hthere
    have hids : ids { s.write address memory with memories := s.memories ++ [address] }
        = s.ids ++ [some memory.id] := by
      show List.map _ (s.memories ++ [address]) = _
      rw [List.map_append, List.map_singleton]
      show _ ++ [(Function.update s.heap address (some memory) address).map _] = _
      rw [Function.update_self]
      refine congrArg (· ++ _) (List.map_congr_left fun pointer hmem => ?_)
      exact congrArg (Option.map MemoryT.id) (hold pointer hmem)
    -- the new memory has a number
    have hback : ∀ pointer content,
        Function.update s.heap address (some memory) pointer = some content →
          content.id = -1 → s.heap pointer = some content := by
      intro pointer content hcontent hminus
      by_cases heq : pointer = address
      · rw [heq, Function.update_self] at hcontent
        obtain rfl := Option.some.inj hcontent
        exact absurd hminus hid
      · rw [Function.update_of_ne heq] at hcontent
        exact hcontent
    refine ⟨⟨fun pointer hmem => ?_, ?_, ?_⟩, ⟨?_, ?_⟩⟩
    · show (Function.update s.heap address (some memory) pointer).isSome
      rcases List.mem_append.mp hmem with hmem | hmem
      · rw [hold pointer hmem]
        exact h.allocated pointer hmem
      · rw [List.mem_singleton.mp hmem, Function.update_self]
        rfl
    · rw [hids, List.nodup_append]
      refine ⟨h.nodup, List.nodup_singleton _, ?_⟩
      rintro other hother _ hlast rfl
      obtain ⟨pointer, hmem, heq⟩ := List.mem_map.mp hother
      rw [List.mem_singleton] at hlast
      exact findMemory_none unknown pointer hmem (heq.trans hlast)
    · intro pointer content hcontent hminus
      have hhead := h.first pointer content (hback pointer content hcontent hminus) hminus
      show (s.memories ++ [address]).head? = some pointer
      rw [List.head?_append, hhead]
      rfl
    · intro id _ hknows
      rw [Knows, hids]
      exact List.mem_append_left _ hknows
    · intro pointer content hcontent hminus
      exact ⟨content, hback pointer content hcontent hminus, hminus⟩

theorem Tabled.updateMemories (h : s.Tabled)
    (hids : ∀ memory ∈ incoming.map Prod.fst, memory.id ≠ -1)
    (hrun : s.updateMemories incoming = some s') : s'.Tabled ∧ Keeps s s' := by
  induction incoming generalizing s with
  | nil =>
    obtain rfl := Option.some.inj hrun
    exact ⟨h, .refl s⟩
  | cons first rest ih =>
    obtain ⟨updated, hupdated, hrun⟩ := Option.bind_eq_some_iff.mp hrun
    rw [List.map_cons] at hids
    obtain ⟨htabled, hkept⟩ := h.updateMemory (hids _ List.mem_cons_self) hupdated
    obtain ⟨hrest, hkept'⟩ := ih htabled (fun memory hmem => hids memory
      (List.mem_cons_of_mem _ hmem)) hrun
    exact ⟨hrest, hkept.trans hkept'⟩

/-! ## Steps -/

/-- What a step takes out of the table: nothing, or the memory without a number, after which there
is none. -/
def TakesPlaceholder (s s' : KernelMemories) (taken : List MemoryT) : Prop :=
  taken = [] ∨ ∃ placeholder pointer, taken = [placeholder] ∧ placeholder.id = -1 ∧
    s.heap pointer = some placeholder ∧ ∀ other memory, s'.heap other = some memory →
      memory.id ≠ -1

/-- The memory without a number is taken out and freed. -/
theorem free_placeholder {placeholder : MemoryT} (h : s.Tabled)
    (hpointer : s.heap pointer = some placeholder) (hid : placeholder.id = -1)
    (hmemories : s₁.memories = s.memories.drop 1)
    (hheap : s₁.heap = Function.update s.heap pointer none) :
    s₁.Tabled ∧ Keeps s s₁ ∧ ∀ other memory, s₁.heap other = some memory → memory.id ≠ -1 := by
  have hhead := h.first pointer placeholder hpointer hid
  obtain ⟨rest, hlist⟩ : ∃ rest, s.memories = pointer :: rest := by
    cases hs : s.memories with
    | nil => rw [hs] at hhead; cases hhead
    | cons first rest =>
      rw [hs] at hhead
      obtain rfl := Option.some.inj hhead
      exact ⟨rest, rfl⟩
  have hids : s.ids = some (-1) :: rest.map fun other => (s.heap other).map MemoryT.id := by
    rw [ids, hlist, List.map_cons, hpointer, Option.map_some, hid]
  have hnodup := h.nodup
  rw [hids, List.nodup_cons] at hnodup
  obtain ⟨hnew, hnodup⟩ := hnodup
  have hne : ∀ other ∈ rest, other ≠ pointer := by
    rintro other hother rfl
    refine hnew (List.mem_map.mpr ⟨other, hother, ?_⟩)
    rw [hpointer, Option.map_some, hid]
  have hleft : s₁.memories = rest := by rw [hmemories, hlist, List.drop_one, List.tail_cons]
  have hids₁ : s₁.ids = rest.map fun other => (s.heap other).map MemoryT.id := by
    rw [ids, hleft, hheap]
    exact List.map_congr_left fun other hother => by rw [Function.update_of_ne (hne other hother)]
  -- what is still allocated has another address, so it has a number
  have hback : ∀ other memory, s₁.heap other = some memory → memory.id ≠ -1 := by
    intro other memory hmemory hminus
    rw [hheap] at hmemory
    by_cases heq : other = pointer
    · rw [heq, Function.update_self] at hmemory
      cases hmemory
    · rw [Function.update_of_ne heq] at hmemory
      have hother := h.first other memory hmemory hminus
      exact heq (Option.some.inj (hother.symm.trans hhead))
  refine ⟨⟨fun other hother => ?_, hids₁ ▸ hnodup, ?_⟩, ⟨?_, ?_⟩, hback⟩
  · rw [hleft] at hother
    rw [hheap, Function.update_of_ne (hne other hother)]
    exact h.allocated other (hlist ▸ List.mem_cons_of_mem _ hother)
  · exact fun other memory hmemory hminus => absurd hminus (hback other memory hmemory)
  · intro id hid' hknows
    rw [Knows, hids, List.mem_cons] at hknows
    rw [Knows, hids₁]
    exact hknows.resolve_left fun heq => hid' (Option.some.inj heq)
  · exact fun other memory hmemory hminus => absurd hminus (hback other memory hmemory)

/-- An answer to a request whose memory is still allocated is what it is for any memory. -/
theorem answerGossip_eq (hallocated : s.StillAllocated (.answer i incoming now stale)) :
    s.answerGossip i incoming now stale = s.postGossip i incoming now := by
  unfold answerGossip postGossip
  cases hpointer : s.gossips[i]? with
  | none => rfl
  | some pointer =>
    obtain ⟨selected, hselected⟩ := Option.isSome_iff_exists.mp (hallocated pointer hpointer)
    have hread : s.read stale pointer = selected := by rw [read, hselected, Option.getD_some]
    simp only [Option.bind_eq_bind, Option.bind_some, hread, overwrite, hselected]
    rfl

/-- A failure of such a request is, too. -/
theorem gossipFailed_eq (hallocated : s.StillAllocated (.failure i now stale)) :
    s.gossipFailed i now stale = s.failGossip i now := by
  unfold gossipFailed failGossip
  cases hpointer : s.gossips[i]? with
  | none => rfl
  | some pointer =>
    obtain ⟨selected, hselected⟩ := Option.isSome_iff_exists.mp (hallocated pointer hpointer)
    have hread : s.read stale pointer = selected := by rw [read, hselected, Option.getD_some]
    simp only [Option.bind_eq_bind, Option.bind_some, hread, overwrite, memoryFailed, hselected]
    rfl

/-- **An answer** to a request whose memory is still allocated. -/
theorem Tabled.answerGossip (h : s.Tabled)
    (hnode : (GossipEvent.answer i incoming now stale).FromNodes)
    (hallocated : s.StillAllocated (.answer i incoming now stale))
    (hrun : s.answerGossip i incoming now stale = some s') :
    s'.Tabled ∧ Keeps s s' ∧ TakesPlaceholder s s' (s.takenOut (.answer i incoming now stale)) := by
  rw [answerGossip_eq hallocated] at hrun
  obtain ⟨pointer, hpointer, hrun⟩ := Option.bind_eq_some_iff.mp hrun
  obtain ⟨selected, hselected, hrun⟩ := Option.bind_eq_some_iff.mp hrun
  have hids := NodeTable.id_ne hnode
  have hread : s.read stale pointer = selected := by rw [read, hselected, Option.getD_some]
  rw [takenOut, hpointer]
  dsimp only at hrun ⊢
  rw [hread]
  split at hrun
  · rename_i hid
    have hfree := @free_placeholder s (free { s with
      gossips := s.gossips.eraseIdx i, memories := s.memories.drop 1 } pointer) pointer selected h
      hselected hid rfl rfl
    obtain ⟨hfreed, hkept, hnone⟩ := hfree
    obtain ⟨htabled, hkept'⟩ := hfreed.updateMemories hids hrun
    refine ⟨htabled, hkept.trans hkept', .inr ⟨selected, pointer, ?_, hid, hselected, ?_⟩⟩
    · rw [if_pos hid, h.first pointer selected hselected hid, Option.bind_some, hselected]
      rfl
    · intro other memory hmemory hminus
      obtain ⟨old, hold, holdid⟩ := hkept'.unnumbered other memory hmemory hminus
      exact hnone other old hold holdid
  · rename_i hid
    rw [if_neg hid]
    have hsame : Tabled { s with gossips := s.gossips.eraseIdx i } :=
      ⟨h.allocated, h.nodup, h.first⟩
    obtain ⟨hwritten, hkept⟩ := @Tabled.write { s with gossips := s.gossips.eraseIdx i } pointer
      { selected with alive := true, timestamp := now } selected hsame hselected rfl
    obtain ⟨htabled, hkept'⟩ := hwritten.updateMemories hids hrun
    exact ⟨htabled, ⟨(hkept.trans hkept').knows, (hkept.trans hkept').unnumbered⟩, .inl rfl⟩

/-- A memory that does not answer keeps its id. -/
theorem Tabled.memoryFailed (h : s.Tabled) (hmemories : s₁.memories = s.memories)
    (hheap : s₁.heap = s.heap) (hrun : s₁.memoryFailed pointer now = some s') :
    s'.Tabled ∧ Keeps s s' := by
  obtain ⟨hsame, hkept₁⟩ := h.congr hmemories hheap
  obtain ⟨memory, hmemory, hrun⟩ := Option.bind_eq_some_iff.mp hrun
  obtain ⟨hwritten, hkept⟩ := @Tabled.write s₁ pointer
    { memory with alive := false, timestamp := now } memory hsame hmemory rfl
  obtain ⟨hmemories', hheap'⟩ := removeMemory_table hrun
  obtain ⟨hremoved, hkept'⟩ := hwritten.congr hmemories' hheap'
  exact ⟨hremoved, hkept₁.trans (hkept.trans hkept')⟩

/-- `ADD MEMORY` does not touch the table. -/
theorem processAdd_table {input : AddInput} (h : s.processAdd input = some s') :
    s'.memories = s.memories ∧ s'.heap = s.heap := by
  cases assigns_of_processAdd h with
  | refused => exact ⟨rfl, rfl⟩
  | sc found empty => exact ⟨rfl, rfl⟩
  | shc found => exact ⟨rfl, rfl⟩
  | ec found => exact ⟨rfl, rfl⟩

/-- A statement does not either. -/
theorem execRemote_table {consistency : Option Consistency} {key : UInt16} {random : Nat}
    (h : s.execRemote consistency key random = some s') :
    s'.memories = s.memories ∧ s'.heap = s.heap := by
  obtain ⟨assigned, ⟨rfl, -⟩ | ⟨rfl, -, -⟩⟩ := execRemote_moves h
  · exact ⟨rfl, rfl⟩
  · exact ⟨rfl, rfl⟩

/-- **One step** whose callback finds its memory allocated. -/
theorem Tabled.gossipStep (h : s.Tabled) (hnode : event.FromNodes)
    (hallocated : s.StillAllocated event) (hrun : s.gossipStep event = some s') :
    s'.Tabled ∧ Keeps s s' ∧ TakesPlaceholder s s' (s.takenOut event) := by
  cases event with
  | send random =>
    obtain ⟨alive, -, hrun⟩ := Option.bind_eq_some_iff.mp hrun
    obtain ⟨pointer, -, hrun⟩ := Option.bind_eq_some_iff.mp hrun
    obtain rfl := Option.some.inj hrun
    obtain ⟨htabled, hkept⟩ := @congr s { s with gossips := s.gossips ++ [pointer] } h rfl rfl
    exact ⟨htabled, hkept, .inl rfl⟩
  | answer i received now stale => exact h.answerGossip hnode hallocated hrun
  | failure i now stale =>
    have hfailed : s.failGossip i now = some s' := (gossipFailed_eq hallocated).symm.trans hrun
    obtain ⟨pointer, -, hfailed⟩ := Option.bind_eq_some_iff.mp hfailed
    obtain ⟨htabled, hkept⟩ := @Tabled.memoryFailed s s' { s with gossips := s.gossips.eraseIdx i }
      pointer now h rfl rfl hfailed
    exact ⟨htabled, hkept, .inl rfl⟩
  | other action =>
    cases action with
    | processAdd input =>
      obtain ⟨hmemories, hheap⟩ := processAdd_table hrun
      obtain ⟨htabled, hkept⟩ := h.congr hmemories hheap
      exact ⟨htabled, hkept, .inl rfl⟩
    | execRemote consistency key random =>
      obtain ⟨hmemories, hheap⟩ := execRemote_table hrun
      obtain ⟨htabled, hkept⟩ := h.congr hmemories hheap
      exact ⟨htabled, hkept, .inl rfl⟩
    | requestAnswered i =>
      obtain rfl := Option.some.inj hrun
      obtain ⟨htabled, hkept⟩ := @congr s { s with assigned := s.assigned.eraseIdx i } h rfl rfl
      exact ⟨htabled, hkept, .inl rfl⟩
    | requestFailed i now =>
      obtain ⟨pointer, -, hrun⟩ := Option.bind_eq_some_iff.mp hrun
      obtain ⟨htabled, hkept⟩ := @Tabled.memoryFailed s s'
        { s with assigned := s.assigned.eraseIdx i } pointer now h rfl rfl hrun
      exact ⟨htabled, hkept, .inl rfl⟩
    | gossip random => cases hrun
    | postGossip i received now => cases hrun
    | failGossip i now => cases hrun

theorem Start.tabled (h : s.Start) : s.Tabled := by
  obtain ⟨pointer, memory, hmemories, -, -, hheap⟩ := h.memory
  have hids : s.ids = [some memory.id] := by
    rw [ids, hmemories, hheap, List.map_singleton, Function.update_self]
    rfl
  refine ⟨fun other hother => ?_, hids ▸ List.nodup_singleton _, ?_⟩
  · rw [hmemories, List.mem_singleton] at hother
    rw [hheap, hother, Function.update_self]
    rfl
  · intro other content hcontent _
    rw [hheap] at hcontent
    by_cases heq : other = pointer
    · rw [hmemories, heq]
      rfl
    · rw [Function.update_of_ne heq] at hcontent
      cases hcontent

end KernelMemories

/-! ## Runs -/

/-- What was taken out so far: at most one memory, without a number, and then none is left. -/
structure TakenOnce (history : GossipHistory) : Prop where
  once : history.2.length ≤ 1
  placeholder : ∀ memory ∈ history.2, memory.id = -1
  gone : history.2 ≠ [] → ∀ pointer memory, history.1.heap pointer = some memory → memory.id ≠ -1

section Runs
variable {start : KernelMemories} {history later : GossipHistory}

theorem TakenOnce.step {s s' : KernelMemories} {log taken : List MemoryT}
    (h : TakenOnce (s, log)) (hkept : s.Keeps s') (htakes : s.TakesPlaceholder s' taken) :
    TakenOnce (s', log ++ taken) := by
  obtain ⟨honce, hplaceholder, hgone⟩ := h
  rcases htakes with rfl | ⟨placeholder, pointer, rfl, hid, hpointer, hnone⟩
  · rw [List.append_nil]
    refine ⟨honce, hplaceholder, fun hne other memory hmemory hminus => ?_⟩
    obtain ⟨old, hold, holdid⟩ := hkept.unnumbered other memory hmemory hminus
    exact hgone hne other old hold holdid
  · -- nothing was taken out before, since there still was a memory without a number
    have hfirst : log = [] := by
      by_contra hne
      exact hgone hne pointer placeholder hpointer hid
    subst hfirst
    refine ⟨Nat.le_refl _, fun memory hmem => ?_, fun _ => hnone⟩
    rw [List.nil_append, List.mem_singleton] at hmem
    rw [hmem]
    exact hid

theorem tabled_of_run (h : history.1.Tabled) (htaken : TakenOnce history)
    (hrun : GossipRun KernelMemories.StillAllocated history later) :
    later.1.Tabled ∧ history.1.Keeps later.1 ∧ TakenOnce later := by
  induction hrun with
  | refl => exact ⟨h, .refl _, htaken⟩
  | @step middle last event _ taken hallowed ih =>
    obtain ⟨hmiddle, hkept, htakenmiddle⟩ := ih
    obtain ⟨s', hstep, rfl⟩ := Option.map_eq_some_iff.mp taken
    obtain ⟨htabled, hkept', htakes⟩ := hmiddle.gossipStep hallowed.1 hallowed.2 hstep
    exact ⟨htabled, hkept.trans hkept', htakenmiddle.step hkept' htakes⟩

/-- **The kernel forgets no memory** in a run in which every callback finds the memory of its
request still allocated: what the table knew in a state of the run it knows in all later ones, its
ids are different, and the only memory that is ever taken out of it is the one without a number,
once. -/
theorem gossip_never_forgets (hstart : start.Start)
    (hrun : GossipRun KernelMemories.StillAllocated (start, []) history)
    (hlater : GossipRun KernelMemories.StillAllocated history later) :
    (∀ id, id ≠ -1 → history.1.Knows id → later.1.Knows id) ∧
      (∀ pointer ∈ later.1.memories, (later.1.heap pointer).isSome) ∧ later.1.ids.Nodup ∧
      later.2.length ≤ 1 ∧ ∀ memory ∈ later.2, memory.id = -1 := by
  have hnone : TakenOnce (start, []) := ⟨Nat.zero_le _, nofun, fun hne => absurd rfl hne⟩
  obtain ⟨htabled, -, htaken⟩ := tabled_of_run hstart.tabled hnone hrun
  obtain ⟨hlast, hkept, hlasttaken⟩ := tabled_of_run htabled htaken hlater
  exact ⟨hkept.knows, hlast.allocated, hlast.nodup, hlasttaken.once, hlasttaken.placeholder⟩

/-- A memory that is alone, and then hears of another one. -/
def aloneNetwork : GossipNetwork Unit where
  config _ := ⟨1, .ofBytes [49], 8001, []⟩
  listener _ _ := none
  memories _ := [⟨1, .ofBytes [49], 8001, true, 5⟩]
  clock _ := 0
  threads := []

theorem aloneNetwork_start : aloneNetwork.Start := ⟨fun _ => ⟨5, rfl⟩, rfl⟩

theorem aloneNetwork_numbers (node : Unit) : (aloneNetwork.config node).memoryNumber ≠ -1 := by
  show (1 : Int32) ≠ -1
  decide

theorem nodeTable_one : NodeTable [⟨1, .ofBytes [49], 8001, true, 5⟩] :=
  ⟨Unit, inferInstance, aloneNetwork, aloneNetwork, (), aloneNetwork_start, aloneNetwork_numbers,
    .refl, rfl⟩

theorem nodeTable_two :
    NodeTable [⟨1, .ofBytes [49], 8001, true, 5⟩, ⟨2, .ofBytes [50], 8002, true, 6⟩] := by
  have hrun : Run GossipNetwork.step (fun _ _ _ => True) aloneNetwork _ :=
    Run.refl.step (.kernelGossip () [⟨2, .ofBytes [50], 8002, true, 6⟩]) rfl trivial
  exact ⟨Unit, inferInstance, aloneNetwork, _, (), aloneNetwork_start, aloneNetwork_numbers, hrun,
    rfl⟩

/-- A request is answered, and then another one. -/
def answeredOnce : List GossipEvent :=
  [.send 0, .answer 0 [(⟨1, .ofBytes [49], 8001, true, 5⟩, 1)] 10 ⟨0, .ofBytes [], 0, false, 0⟩,
    .send 0, .answer 0 [(⟨1, .ofBytes [49], 8001, true, 5⟩, 2),
      (⟨2, .ofBytes [50], 8002, true, 6⟩, 3)] 20 ⟨0, .ofBytes [], 0, false, 0⟩]

theorem answeredOnce_runs :
    (runSteps GossipHistory.step (fun history event _ => history.1.StillAllocated event)
        (firstKernel, []) answeredOnce).map (fun history => history.1.ids) =
      some [some 1, some 2] := by decide +kernel

theorem gossip_never_forgets_answeredOnce :
    ∃ later, GossipRun KernelMemories.StillAllocated (firstKernel, []) later ∧
      later.1.ids = [some 1, some 2] ∧ later.2.length ≤ 1 ∧
      ∀ memory ∈ later.2, memory.id = -1 := by
  obtain ⟨later, hsteps, hids⟩ := Option.map_eq_some_iff.mp answeredOnce_runs
  have hrun : GossipRun KernelMemories.StillAllocated (firstKernel, []) later := by
    refine run_of_runSteps_of_forall hsteps ?_
    rintro event (_ | ⟨_, _ | ⟨_, _ | ⟨_, _ | ⟨_, ⟨⟩⟩⟩⟩⟩)
    · trivial
    · exact nodeTable_one
    · trivial
    · exact nodeTable_two
  obtain ⟨-, -, -, honce, hplaceholder⟩ := gossip_never_forgets firstKernel_start hrun .refl
  exact ⟨later, hrun, hids, honce, hplaceholder⟩

/-- Three requests before the first answer.  The answers come in another order, and the freed block
keeps its id. -/
def answeredThrice : List GossipEvent :=
  [.send 0, .send 0, .send 0,
    .answer 1 [(⟨1, .ofBytes [49], 8001, true, 5⟩, 1), (⟨2, .ofBytes [50], 8002, true, 6⟩, 2)] 10
      ⟨-1, .ofBytes [49], 8001, true, 0⟩,
    .answer 1 [(⟨1, .ofBytes [49], 8001, true, 5⟩, 3), (⟨2, .ofBytes [50], 8002, true, 6⟩, 4)] 20
      ⟨-1, .ofBytes [49], 8001, true, 0⟩,
    .answer 0 [(⟨1, .ofBytes [49], 8001, true, 5⟩, 5)] 30 ⟨-1, .ofBytes [49], 8001, true, 0⟩]

theorem answeredThrice_runs :
    ((runSteps GossipHistory.step (fun _ _ _ => True) (firstKernel, [])
        (answeredThrice.take 4)).bind
      fun history => (runSteps GossipHistory.step (fun _ _ _ => True) history
        (answeredThrice.drop 4)).map fun later =>
          (history.1.ids, later.1.ids, later.2.map MemoryT.id)) =
      some ([some 1, some 2], [some 1], [-1, 1, 2]) := by decide +kernel

/-- The second and the third answer each take a memory with a number out of the table, and the
second of these memories is forgotten. -/
theorem gossip_forgets :
    ∃ history later, GossipRun (fun _ _ => True) (firstKernel, []) history ∧
      GossipRun (fun _ _ => True) history later ∧ history.1.Knows 2 ∧ ¬ later.1.Knows 2 ∧
      later.2.map MemoryT.id = [-1, 1, 2] := by
  obtain ⟨history, hsteps, h⟩ := Option.bind_eq_some_iff.mp answeredThrice_runs
  obtain ⟨later, hmore, heq⟩ := Option.map_eq_some_iff.mp h
  simp only [Prod.mk.injEq] at heq
  obtain ⟨hbefore, hafter, htaken⟩ := heq
  have hnodes : ∀ event ∈ answeredThrice, event.FromNodes := by
    rintro event (_ | ⟨_, _ | ⟨_, _ | ⟨_, _ | ⟨_, _ | ⟨_, _ | ⟨_, ⟨⟩⟩⟩⟩⟩⟩⟩)
    · trivial
    · trivial
    · trivial
    · exact nodeTable_two
    · exact nodeTable_two
    · exact nodeTable_one
  refine ⟨history, later, ?_, ?_, ?_, ?_, htaken⟩
  · refine run_of_runSteps_of_forall hsteps fun event hmem => ?_
    exact hnodes event (List.mem_of_mem_take hmem)
  · refine run_of_runSteps_of_forall hmore fun event hmem => ?_
    exact hnodes event (List.mem_of_mem_drop hmem)
  · rw [KernelMemories.Knows, hbefore]
    decide
  · rw [KernelMemories.Knows, hafter]
    decide

end Runs

end Lissandra
