import Lissandra.MemoryNode
import Lissandra.NewestEntry
import Lissandra.Runs
import Lissandra.Strings
import Mathlib.Logic.Function.Basic

/-! # Gossiping memories

Every memory keeps a table of all memories it has heard of, `g_memories`, with itself in it.
A round of gossiping dates the own entry and sends the table to the seeds; whoever gets a
table takes over the versions that are newer than its own, and answers with its table.  A
memory that does not answer is marked as dead with the time of the failure.

That version travels like any other.  If the memory was only unreachable for a moment, its own
death comes back to it, newer than the entry it keeps of itself; and it dates its entry in
every round without looking whether it says alive.

Requests are threads of `do_simple_request`, and the body of a callback is one step.  Lists arrive
as they were sent, which a packet allows up to 25 memories (`GossipNetwork.Arrives`).
-/
namespace Lissandra

/-! ## Tables -/

/-- `update_memory` of a memory node. -/
def updateMemory : List MemoryT → MemoryT → List MemoryT :=
  refresh MemoryT.id (fun memory => memory.timestamp.toInt) fun memory => memory.id ≠ -1

/-- The loops over a received list. -/
def updateMemories (memories received : List MemoryT) : List MemoryT :=
  received.foldl updateMemory memories

/-- Whether this is the address of the memory. -/
def MemoryT.hasAddress (memory : MemoryT) (ip : CString) (port : Int32) : Bool :=
  stringEqualsIgnoreCase memory.ip.bytes ip.bytes ∧ memory.port = port

/-- `post_gossip` without an answer. -/
def markDead (memories : List MemoryT) (ip : CString) (port : Int32) (now : Int64) : List MemoryT :=
  updateFirst (fun original => original.hasAddress ip port)
    (fun original => { original with alive := false, timestamp := now }) memories

/-! ## Nodes -/

/-- `g_config`, as far as it is about gossiping. -/
structure GossipConfig where
  memoryNumber : Int32
  ip : CString
  port : Int32
  seeds : List (CString × Int32)

/-- How far the thread of a request is, and the list that is in flight. -/
inductive GossipStage where
  | connecting
  | requested (memories : List MemoryT)
  | answered (memories : List MemoryT)

/-- A thread of a request, with its `requested_memory`. -/
structure GossipThread (N : Type) where
  node : N
  ip : CString
  port : Int32
  stage : GossipStage

/-- Running memories, and who listens at which address. -/
structure GossipNetwork (N : Type) where
  config : N → GossipConfig
  listener : CString → Int32 → Option N
  memories : N → List MemoryT
  clock : N → Int64
  threads : List (GossipThread N)

/-- What happens next: a round, the request of a thread is sent, it is received, it is answered, it
fails; or a list comes from the kernel. -/
inductive GossipAction (N : Type) where
  | gossip (node : N) (now : Int64)
  | doRequest (i : Nat)
  | onGossip (i : Nat)
  | postGossip (i : Nat)
  | failGossip (i : Nat) (now : Int64)
  | kernelGossip (node : N) (received : List MemoryT)

namespace GossipNetwork
variable {N : Type} [DecidableEq N] (s : GossipNetwork N)

/-- `list_find(g_memories, find_myself_as_memory)`. -/
def myself (node : N) : Option MemoryT :=
  lookup MemoryT.id (s.config node).memoryNumber (s.memories node)

/-- Another table of a node. -/
def setMemories (node : N) (memories : List MemoryT) : GossipNetwork N :=
  { s with memories := Function.update s.memories node memories }

/-- `get_timestamp`: the clock of a node does not go back. -/
def tick (node : N) (now : Int64) : Option (GossipNetwork N) :=
  if now.toInt < (s.clock node).toInt then none
  else some { s with clock := Function.update s.clock node now }

/-- `gossip`.  `none` is a `me` that is `NULL`. -/
def gossip (node : N) (now : Int64) : Option (GossipNetwork N) := do
  let s ← s.tick node now
  let _ ← s.myself node
  let s := s.setMemories node (updateFirst (fun memory => memory.id = (s.config node).memoryNumber)
    (fun me => { me with timestamp := now }) (s.memories node))
  some { s with
    threads := s.threads ++ (s.config node).seeds.map fun seed =>
      ⟨node, seed.1, seed.2, .connecting⟩ }

/-- `do_request` up to `recv2`. -/
def doRequest (i : Nat) : Option (GossipNetwork N) :=
  match s.threads[i]? with
  | some ⟨node, ip, port, .connecting⟩ =>
    if (s.listener ip port).isSome then
      some { s with threads := s.threads.set i ⟨node, ip, port, .requested (s.memories node)⟩ }
    else none
  | _ => none

/-- `on_gossip`, which answers with the table. -/
def onGossip (i : Nat) : Option (GossipNetwork N) :=
  match s.threads[i]? with
  | some ⟨node, ip, port, .requested received⟩ => do
    let receiver ← s.listener ip port
    let memories := updateMemories (s.memories receiver) received
    some { s.setMemories receiver memories with
        threads := s.threads.set i ⟨node, ip, port, .answered memories⟩ }
  | _ => none

/-- `post_gossip` with an answer. -/
def postGossip (i : Nat) : Option (GossipNetwork N) :=
  match s.threads[i]? with
  | some ⟨node, _, _, .answered received⟩ =>
    some { s.setMemories node (updateMemories (s.memories node) received) with
        threads := s.threads.eraseIdx i }
  | _ => none

/-- `post_gossip` with `NULL`, wherever the request failed. -/
def failGossip (i : Nat) (now : Int64) : Option (GossipNetwork N) := do
  let thread ← s.threads[i]?
  let s ← s.tick thread.node now
  let s := s.setMemories thread.node (markDead (s.memories thread.node) thread.ip thread.port now)
  some { s with threads := s.threads.eraseIdx i }

/-- One step. -/
def step : GossipAction N → Option (GossipNetwork N)
  | .gossip node now => s.gossip node now
  | .doRequest i => s.doRequest i
  | .onGossip i => s.onGossip i
  | .postGossip i => s.postGossip i
  | .failGossip i now => s.failGossip i now
  | .kernelGossip node received =>
    some (s.setMemories node (updateMemories (s.memories node) received))

/-- `init_gossiping` at every node. -/
structure Start : Prop where
  memories : ∀ node, ∃ timestamp,
    s.memories node = [⟨(s.config node).memoryNumber, (s.config node).ip, (s.config node).port,
      true, timestamp⟩]
  threads : s.threads = []

/-! ## What must not happen -/

/-- The list that a step takes over, and the node that does. -/
def received : GossipAction N → Option (N × List MemoryT)
  | .onGossip i =>
    match s.threads[i]? with
    | some ⟨_, ip, port, .requested received⟩ =>
      (s.listener ip port).map fun receiver => (receiver, received)
    | _ => none
  | .postGossip i =>
    match s.threads[i]? with
    | some ⟨node, _, _, .answered received⟩ => some (node, received)
    | _ => none
  | .kernelGossip node received => some (node, received)
  | _ => none

/-- The thread whose request fails in a step. -/
def failed : GossipAction N → Option (GossipThread N)
  | .failGossip i _ => s.threads[i]?
  | _ => none

/-- A node gets no version of itself that is dead and newer than its own, and no request of it fails
whose address it has itself as the first in its table. -/
structure KeepsAlive (action : GossipAction N) : Prop where
  received : ∀ arrival ∈ s.received action, ∀ me ∈ s.myself arrival.1, ∀ memory ∈ arrival.2,
    memory.id = me.id → me.timestamp.toInt < memory.timestamp.toInt → memory.alive = true
  failed : ∀ thread ∈ s.failed action,
    ∀ original ∈ (s.memories thread.node).find?
    (fun original => original.hasAddress thread.ip thread.port),
      original.id ≠ (s.config thread.node).memoryNumber

instance (action : GossipAction N) : Decidable (s.KeepsAlive action) :=
  decidable_of_iff (_ ∧ _) ⟨fun h => ⟨h.1, h.2⟩, fun h => ⟨h.received, h.failed⟩⟩

end GossipNetwork

/-! ## What a step does -/

/-- What a step is: a round, a table that is sent, a list that is taken over, or a failure. -/
inductive GossipNetwork.Effect {N : Type} [DecidableEq N] (s : GossipNetwork N) :
    GossipAction N → GossipNetwork N → Prop
  | round (node : N) (now : Int64) :
      Effect s (.gossip node now)
        { s.setMemories node (updateFirst (fun memory => memory.id = (s.config node).memoryNumber)
            (fun me => { me with timestamp := now }) (s.memories node)) with
          clock := Function.update s.clock node now
          threads := s.threads ++ (s.config node).seeds.map fun seed =>
            ⟨node, seed.1, seed.2, .connecting⟩ }
  | request (i : Nat) (node : N) (ip : CString) (port : Int32) :
      Effect s (.doRequest i)
        { s with threads := s.threads.set i ⟨node, ip, port, .requested (s.memories node)⟩ }
  | arrival {action : GossipAction N} {threads : List (GossipThread N)} (node : N)
      (received : List MemoryT) (hreceived : s.received action = some (node, received))
      (hthreads : ∀ thread ∈ threads, thread ∈ s.threads ∨
        thread.stage = .answered (updateMemories (s.memories node) received)) :
      Effect s action { s.setMemories node (updateMemories (s.memories node) received) with
        threads := threads }
  | failure (i : Nat) (now : Int64) (thread : GossipThread N)
      (hthread : s.threads[i]? = some thread) : Effect s (.failGossip i now)
        { s.setMemories thread.node
          (markDead (s.memories thread.node) thread.ip thread.port now) with
          clock := Function.update s.clock thread.node now
          threads := s.threads.eraseIdx i }

section Effects
variable {N : Type} [DecidableEq N] {s s' : GossipNetwork N} {node : N} {action : GossipAction N}
  {now : Int64}

theorem tick_eq_some (h : s.tick node now = some s') :
    s' = { s with clock := Function.update s.clock node now } := by
  unfold GossipNetwork.tick at h
  split at h
  · cases h
  · exact (Option.some.inj h).symm

theorem GossipNetwork.effect_of_step (h : s.step action = some s') : s.Effect action s' := by
  cases action with
  | gossip node now =>
    obtain ⟨ticked, hticked, h⟩ := Option.bind_eq_some_iff.mp h
    obtain rfl := tick_eq_some hticked
    obtain ⟨me, -, h⟩ := Option.bind_eq_some_iff.mp h
    obtain rfl := Option.some.inj h
    exact .round node now
  | doRequest i =>
    unfold GossipNetwork.step GossipNetwork.doRequest at h
    dsimp only at h
    split at h
    · split at h
      · obtain rfl := Option.some.inj h
        exact .request i _ _ _
      · cases h
    · cases h
  | onGossip i =>
    unfold GossipNetwork.step GossipNetwork.onGossip at h
    dsimp only at h
    split at h
    · rename_i sender ip port received hthread
      obtain ⟨receiver, hreceiver, h⟩ := Option.bind_eq_some_iff.mp h
      obtain rfl := Option.some.inj h
      refine .arrival receiver received ?_ fun thread hmem => ?_
      · unfold GossipNetwork.received
        simp only [hthread, hreceiver, Option.map_some]
      · -- the answer is the table after the list was taken over
        refine (List.mem_or_eq_of_mem_set hmem).imp_right fun heq => ?_
        rw [heq]
    · cases h
  | postGossip i =>
    unfold GossipNetwork.step GossipNetwork.postGossip at h
    dsimp only at h
    split at h
    · rename_i node ip port received hthread
      obtain rfl := Option.some.inj h
      refine .arrival node received ?_ fun thread hmem => .inl (List.mem_of_mem_eraseIdx hmem)
      unfold GossipNetwork.received
      simp only [hthread]
    · cases h
  | failGossip i now =>
    obtain ⟨thread, hthread, h⟩ := Option.bind_eq_some_iff.mp h
    obtain ⟨ticked, hticked, h⟩ := Option.bind_eq_some_iff.mp h
    obtain rfl := tick_eq_some hticked
    obtain rfl := Option.some.inj h
    exact .failure i now thread hthread
  | kernelGossip node received =>
    obtain rfl := Option.some.inj h
    exact .arrival node received rfl fun thread hmem => .inl hmem

end Effects

/-! ## The own entry -/

section Own
variable {N : Type} [DecidableEq N] {s s' start : GossipNetwork N} {node other : N}
  {action : GossipAction N} {memories received : List MemoryT} {me : MemoryT} {now : Int64}
  {ip : CString} {port : Int32}

/-- A loop that changes another element than the one that is looked for. -/
theorem find?_updateFirst_of_ne {α : Type} {p q : α → Bool} {f : α → α} {l : List α}
    (h : ∀ a ∈ l.find? p, q a = false ∧ q (f a) = false) :
    (updateFirst p f l).find? q = l.find? q := by
  induction l with
  | nil => rfl
  | cons a l ih =>
    unfold updateFirst
    by_cases ha : p a = true
    · rw [if_pos ha]
      obtain ⟨hold, hnew⟩ := h a (List.find?_cons_of_pos ha)
      rw [List.find?_cons_of_neg (by simp [hnew]), List.find?_cons_of_neg (by simp [hold])]
    · rw [if_neg ha]
      rw [List.find?_cons_of_neg ha] at h
      rw [List.find?_cons, List.find?_cons, ih h]

/-- A loop that changes the element that is looked for. -/
theorem find?_updateFirst_self {α : Type} {p : α → Bool} {f : α → α} {l : List α}
    (hf : ∀ a, p (f a) = p a) : (updateFirst p f l).find? p = (l.find? p).map f := by
  induction l with
  | nil => rfl
  | cons a l ih =>
    unfold updateFirst
    by_cases ha : p a = true
    · rw [if_pos ha, List.find?_cons_of_pos ha, List.find?_cons_of_pos ((hf a).trans ha)]
      rfl
    · rw [if_neg ha, List.find?_cons_of_neg ha, List.find?_cons_of_neg ha, ih]

/-- The node has an entry of itself, and it says alive. -/
def GossipNetwork.ItselfAlive (s : GossipNetwork N) (node : N) : Prop :=
  ∃ me, s.myself node = some me ∧ me.alive = true

/-- A list without a newer death. -/
theorem lookup_updateMemories {number : Int32} (hme : lookup MemoryT.id number memories = some me)
    (halive : me.alive = true) (hnewer : ∀ memory ∈ received, memory.id = me.id →
      me.timestamp.toInt < memory.timestamp.toInt → memory.alive = true) :
    ∃ me', lookup MemoryT.id number (updateMemories memories received) = some me' ∧
      me'.alive = true := by
  refine ⟨_, lookup_foldl_refresh hme, ?_⟩
  refine @foldl_supersede MemoryT Int _ _ _ (fun memory => memory.alive = true) me _ halive
    fun memory hmem hlt => ?_
  obtain ⟨hmem, hid⟩ := List.mem_filter.mp hmem
  exact hnewer memory hmem ((of_decide_eq_true hid).trans (key_of_lookup hme).symm) hlt

/-- A failure that marks another memory. -/
theorem lookup_markDead {number : Int32}
    (hother : ∀ original ∈ memories.find? (fun original => original.hasAddress ip port),
      original.id ≠ number) :
    lookup MemoryT.id number (markDead memories ip port now) =
      lookup MemoryT.id number memories := by
  refine find?_updateFirst_of_ne fun original horiginal => ?_
  have hne := hother original horiginal
  exact ⟨decide_eq_false hne, decide_eq_false hne⟩

theorem itselfAlive_setMemories (h : ∀ node, s.ItselfAlive node)
    (hnode : ∃ me, lookup MemoryT.id (s.config node).memoryNumber memories = some me ∧
      me.alive = true)
    (other : N) : (s.setMemories node memories).ItselfAlive other := by
  by_cases hother : other = node
  · subst hother
    unfold GossipNetwork.ItselfAlive GossipNetwork.myself GossipNetwork.setMemories
    dsimp only
    rw [Function.update_self]
    exact hnode
  · unfold GossipNetwork.ItselfAlive GossipNetwork.myself GossipNetwork.setMemories
    dsimp only
    rw [Function.update_of_ne hother]
    exact h other

/-- A list that a node takes over. -/
theorem itselfAlive_received (h : ∀ node, s.ItselfAlive node) (hkeeps : s.KeepsAlive action)
    (hreceived : s.received action = some (node, received)) (other : N) :
    (s.setMemories node (updateMemories (s.memories node) received)).ItselfAlive other := by
  obtain ⟨me, hme, halive⟩ := h node
  refine itselfAlive_setMemories h ?_ other
  exact lookup_updateMemories hme halive (hkeeps.received _ hreceived me hme)

/-- **One step** leaves every node alive to itself. -/
theorem itselfAlive_step (h : ∀ node, s.ItselfAlive node) (hkeeps : s.KeepsAlive action)
    (hstep : s.step action = some s') (other : N) : s'.ItselfAlive other := by
  cases GossipNetwork.effect_of_step hstep with
  | round node now =>
    obtain ⟨me, hme, halive⟩ := h node
    refine @itselfAlive_setMemories N _ s node _ h ⟨{ me with timestamp := now }, ?_, halive⟩ other
    -- only the timestamp of the own entry is written
    have hupdated := @find?_updateFirst_self MemoryT
      (fun memory => memory.id = (s.config node).memoryNumber)
      (fun me => { me with timestamp := now }) (s.memories node) fun _ => rfl
    exact hupdated.trans (congrArg (Option.map _) hme)
  | request i node ip port => exact h other
  | arrival node received hreceived hthreads => exact itselfAlive_received h hkeeps hreceived other
  | failure i now thread hthread =>
    obtain ⟨me, hme, halive⟩ := h thread.node
    refine @itselfAlive_setMemories N _ s thread.node _ h ⟨me, ?_, halive⟩ other
    exact (lookup_markDead (hkeeps.failed thread hthread)).trans hme

/-- The runs in which no newer death reaches the node that it is about. -/
abbrev KeptAliveRun (start s : GossipNetwork N) : Prop :=
  Run GossipNetwork.step (fun s action _ => s.KeepsAlive action) start s

omit [DecidableEq N] in
theorem GossipNetwork.Start.itselfAlive (h : start.Start) (node : N) : start.ItselfAlive node := by
  obtain ⟨timestamp, hmemories⟩ := h.memories node
  unfold GossipNetwork.ItselfAlive GossipNetwork.myself
  rw [hmemories]
  exact ⟨_, lookup_cons_of_eq rfl, rfl⟩

end Own

/-- **A node that is alive to itself.**  In a run in which no node receives a version of itself
that is dead and newer than its own, nor has a request to its own address fail, every node has
itself in its table and alive, in every state. -/
theorem itself_alive {N : Type} [DecidableEq N] {start s : GossipNetwork N} (hstart : start.Start)
    (hrun : KeptAliveRun start s) (node : N) :
    ∃ me, s.myself node = some me ∧ me.id = (s.config node).memoryNumber ∧ me.alive = true := by
  have halive : ∀ node, s.ItselfAlive node :=
    hrun.invariant hstart.itselfAlive fun _ _ _ h hstep hkeeps => itselfAlive_step h hkeeps hstep
  obtain ⟨me, hme, hme'⟩ := halive node
  exact ⟨me, hme, key_of_lookup hme, hme'⟩

/-! ## Where every running node can be reached -/

/-- What a version says about a running node: its address, and that it is alive. -/
def GossipNetwork.Truthful {N : Type} (s : GossipNetwork N) (memory : MemoryT) : Prop :=
  ∀ node, memory.id = (s.config node).memoryNumber →
    memory.alive = true ∧ memory.ip = (s.config node).ip ∧ memory.port = (s.config node).port

/-- The list in flight of a thread. -/
def GossipStage.memories : GossipStage → List MemoryT
  | .connecting => []
  | .requested memories => memories
  | .answered memories => memories

/-- All versions of running nodes, in tables and in flight, are truthful. -/
structure GossipNetwork.AllTruthful {N : Type} (s : GossipNetwork N) : Prop where
  tables : ∀ node, ∀ memory ∈ s.memories node, s.Truthful memory
  threads : ∀ thread ∈ s.threads, ∀ memory ∈ thread.stage.memories, s.Truthful memory

/-- No request to the address of a running node fails, and the kernel sends no death of one. -/
structure GossipNetwork.Reaches {N : Type} [DecidableEq N] (s : GossipNetwork N)
    (action : GossipAction N) : Prop where
  failed : ∀ thread ∈ s.failed action, ∀ node,
    ¬ (stringEqualsIgnoreCase (s.config node).ip.bytes thread.ip.bytes ∧
      (s.config node).port = thread.port)
  kernel : ∀ node received, action = .kernelGossip node received → ∀ memory ∈ received,
    s.Truthful memory

section Reached
variable {N : Type} [DecidableEq N] {s s' start : GossipNetwork N} {node : N}
  {action : GossipAction N} {memories received : List MemoryT} {memory : MemoryT} {i : Nat}
  {thread : GossipThread N}

/-- The list that a step takes over is truthful. -/
theorem GossipNetwork.AllTruthful.arrival (h : s.AllTruthful) (hreaches : s.Reaches action)
    (hreceived : s.received action = some (node, received)) (hmem : memory ∈ received) :
    s.Truthful memory := by
  cases action with
  | gossip node now => cases hreceived
  | doRequest i => cases hreceived
  | failGossip i now => cases hreceived
  | onGossip i =>
    unfold GossipNetwork.received at hreceived
    dsimp only at hreceived
    split at hreceived
    · rename_i hthread
      obtain ⟨receiver, -, heq⟩ := Option.map_eq_some_iff.mp hreceived
      obtain ⟨-, rfl⟩ := Prod.mk.inj heq
      exact h.threads _ (List.mem_of_getElem? hthread) memory hmem
    · cases hreceived
  | postGossip i =>
    unfold GossipNetwork.received at hreceived
    dsimp only at hreceived
    split at hreceived
    · rename_i hthread
      obtain ⟨-, rfl⟩ := Prod.mk.inj (Option.some.inj hreceived)
      exact h.threads _ (List.mem_of_getElem? hthread) memory hmem
    · cases hreceived
  | kernelGossip node received =>
    obtain ⟨-, rfl⟩ := Prod.mk.inj (Option.some.inj hreceived)
    exact hreaches.kernel _ _ rfl memory hmem

/-- A truthful version with the address of a failed request is not about a running node. -/
theorem GossipNetwork.Truthful.not_failed (h : s.Truthful memory) (hreaches : s.Reaches action)
    (hthread : thread ∈ s.failed action) (haddress : memory.hasAddress thread.ip thread.port = true)
    (node : N) : memory.id ≠ (s.config node).memoryNumber := by
  intro hid
  obtain ⟨-, hip, hport⟩ := h node hid
  unfold MemoryT.hasAddress at haddress
  obtain ⟨hsame, hport'⟩ := of_decide_eq_true haddress
  exact hreaches.failed thread hthread node ⟨hip ▸ hsame, hport ▸ hport'⟩

theorem GossipNetwork.AllTruthful.keepsAlive (h : s.AllTruthful) (hreaches : s.Reaches action) :
    s.KeepsAlive action := by
  refine ⟨?_, fun thread hthread original horiginal => ?_⟩
  · rintro ⟨node, received⟩ hreceived me hme memory hmem hid -
    exact (h.arrival hreaches hreceived hmem node (hid.trans (key_of_lookup hme))).1
  · have hmem := List.mem_of_find?_eq_some horiginal
    have haddress : original.hasAddress thread.ip thread.port = true := by
      have hfound := List.find?_some horiginal
      exact hfound
    exact (h.tables _ original hmem).not_failed hreaches hthread haddress thread.node

theorem GossipNetwork.mem_setMemories {other : N} {memory : MemoryT}
    (h : memory ∈ (s.setMemories node memories).memories other) :
    memory ∈ memories ∨ memory ∈ s.memories other := by
  unfold GossipNetwork.setMemories at h
  by_cases hother : other = node
  · subst hother
    exact .inl (Function.update_self other memories s.memories ▸ h)
  · exact .inr (Function.update_of_ne hother memories s.memories ▸ h)

/-- A truthful table at a node. -/
theorem GossipNetwork.AllTruthful.setMemories (h : s.AllTruthful)
    (hmemories : ∀ memory ∈ memories, s.Truthful memory) :
    (s.setMemories node memories).AllTruthful := by
  refine ⟨fun other memory hmem => ?_, h.threads⟩
  rcases GossipNetwork.mem_setMemories hmem with hnew | hold
  · exact hmemories memory hnew
  · exact h.tables other memory hold

/-- A list is taken over. -/
theorem GossipNetwork.AllTruthful.update (h : s.AllTruthful) (hreaches : s.Reaches action)
    (hreceived : s.received action = some (node, received)) :
    ∀ memory ∈ updateMemories (s.memories node) received, s.Truthful memory := by
  intro memory hmem
  rcases mem_foldl_refresh hmem with hold | hnew
  · exact h.tables node memory hold
  · exact h.arrival hreaches hreceived hnew

omit [DecidableEq N] in
/-- Other threads, whose lists are truthful. -/
theorem GossipNetwork.AllTruthful.withThreads {threads : List (GossipThread N)} (h : s.AllTruthful)
    (hthreads : ∀ thread ∈ threads, thread ∈ s.threads ∨ ∀ memory ∈ thread.stage.memories,
      s.Truthful memory) :
    GossipNetwork.AllTruthful { s with threads } := by
  refine ⟨h.tables, fun thread hmem => ?_⟩
  rcases hthreads thread hmem with hold | hnew
  · exact h.threads thread hold
  · exact hnew

/-- **One step** keeps what all tables say of running nodes. -/
theorem GossipNetwork.AllTruthful.step (h : s.AllTruthful) (hreaches : s.Reaches action)
    (hstep : s.step action = some s') : s'.AllTruthful := by
  cases GossipNetwork.effect_of_step hstep with
  | round node now =>
    have htable : ∀ memory ∈ updateFirst (fun memory => memory.id = (s.config node).memoryNumber)
        (fun me => { me with timestamp := now }) (s.memories node), s.Truthful memory := by
      intro memory hmem
      rcases mem_updateFirst hmem with hold | ⟨old, hold, -, rfl⟩
      · exact h.tables node memory hold
      · exact h.tables node old hold
    obtain ⟨htables, -⟩ := h.setMemories htable
    refine ⟨htables, fun thread hthread => ?_⟩
    rcases List.mem_append.mp hthread with hold | hnew
    · exact h.threads thread hold
    · obtain ⟨seed, -, rfl⟩ := List.mem_map.mp hnew
      exact fun memory hmem => absurd hmem List.not_mem_nil
  | request i node ip port =>
    refine h.withThreads fun thread hthread => ?_
    rcases List.mem_or_eq_of_mem_set hthread with hold | rfl
    · exact .inl hold
    · exact .inr (h.tables _)
  | arrival node received hreceived hthreads =>
    refine GossipNetwork.AllTruthful.withThreads (h.setMemories (h.update hreaches hreceived))
      fun thread hmem => ?_
    rcases hthreads thread hmem with hold | hanswer
    · exact .inl hold
    · rw [hanswer]
      exact .inr (h.update hreaches hreceived)
  | failure i now thread hthread =>
    have htable : ∀ memory ∈ markDead (s.memories thread.node) thread.ip thread.port now,
      s.Truthful memory := by
      intro memory hmem
      rcases mem_updateFirst hmem with hold | ⟨old, hold, haddress, rfl⟩
      · exact h.tables _ memory hold
      · -- the marked entry has the address of the request, so it is of no running node
        exact fun node hid => absurd hid
          ((h.tables _ old hold).not_failed hreaches hthread haddress node)
    obtain ⟨htables, -⟩ := h.setMemories htable
    exact ⟨htables, fun thread hmem => h.threads thread (List.mem_of_mem_eraseIdx hmem)⟩

/-- Where every running node can be reached nothing is newer than a life sign. -/
theorem keptAliveRun_of_reaches (hstart : start.Start)
    (hnumbers : Function.Injective fun node => (start.config node).memoryNumber)
    (hrun : Run GossipNetwork.step (fun s action _ => s.Reaches action) start s) :
    KeptAliveRun start s := by
  have htruthful : start.AllTruthful := by
    refine ⟨fun node memory hmem other hid => ?_, fun thread hmem => ?_⟩
    · obtain ⟨timestamp, hmemories⟩ := hstart.memories node
      rw [hmemories] at hmem
      obtain rfl := List.mem_singleton.mp hmem
      obtain rfl := hnumbers hid
      exact ⟨rfl, rfl, rfl⟩
    · rw [hstart.threads] at hmem
      exact absurd hmem List.not_mem_nil
  have hboth : s.AllTruthful ∧ KeptAliveRun start s := by
    induction hrun with
    | refl => exact ⟨htruthful, .refl⟩
    | step action _ taken hreaches ih =>
      obtain ⟨hbefore, hkept⟩ := ih
      exact ⟨hbefore.step hreaches taken, hkept.step action taken (hbefore.keepsAlive hreaches)⟩
  exact hboth.2

end Reached

/-! ## A run -/

/-- Two memories that have each other as seeds. -/
def twoMemories : GossipNetwork (Fin 2) where
  config
    | 0 => ⟨1, .ofBytes [49], 8001, [(.ofBytes [50], 8002)]⟩
    | 1 => ⟨2, .ofBytes [50], 8002, [(.ofBytes [49], 8001)]⟩
  listener ip port :=
    if ip = .ofBytes [49] ∧ port = 8001 then some 0 else if ip = .ofBytes [50] ∧
      port = 8002 then some 1 else none
  memories
    | 0 => [⟨1, .ofBytes [49], 8001, true, 0⟩]
    | 1 => [⟨2, .ofBytes [50], 8002, true, 0⟩]
  clock _ := 0
  threads := []

theorem twoMemories_start : twoMemories.Start := by
  refine ⟨fun node => ⟨0, ?_⟩, rfl⟩
  match node with
  | 0 => rfl
  | 1 => rfl

/-- A round of the second memory, and then one of the first that fails. -/
def answeredRound : List (GossipAction (Fin 2)) :=
  [.gossip 1 10, .doRequest 0, .onGossip 0, .postGossip 0, .gossip 0 20, .failGossip 0 21,
    .gossip 0 30]

theorem answeredRound_runs :
    ((runSteps GossipNetwork.step (fun s action _ => s.KeepsAlive action) twoMemories
        answeredRound).map
      fun s => s.memories 0) =
      some [⟨1, .ofBytes [49], 8001, true, 30⟩,
        ⟨2, .ofBytes [50], 8002, false, 21⟩] := by decide +kernel

/-- The first memory takes the second one for dead, and itself for alive. -/
theorem itself_alive_answeredRound :
    ∃ start s : GossipNetwork (Fin 2), KeptAliveRun start s ∧
      s.memories 0 = [⟨1, .ofBytes [49], 8001, true, 30⟩, ⟨2, .ofBytes [50], 8002, false, 21⟩] ∧
      ∃ me, s.myself 0 = some me ∧ me.id = (s.config 0).memoryNumber ∧ me.alive = true := by
  obtain ⟨s, hsteps, hmemories⟩ := Option.map_eq_some_iff.mp answeredRound_runs
  have hrun : KeptAliveRun twoMemories s := run_of_runSteps hsteps
  exact ⟨twoMemories, s, hrun, hmemories, itself_alive twoMemories_start hrun 0⟩

/-- The second memory gossips with the first, fails to reach it, and gossips with it again; then the
first one dates its entry. -/
def reportedDeath : List (GossipAction (Fin 2)) :=
  [.gossip 1 10, .doRequest 0, .onGossip 0, .postGossip 0, .gossip 1 20, .failGossip 0 21,
    .gossip 1 30, .doRequest 0, .onGossip 0, .gossip 0 40]

/-- A memory that was unreachable for a moment propagates its own death. -/
theorem own_death_propagated :
    ∃ start s : GossipNetwork (Fin 2), start.Start ∧
      Run GossipNetwork.step (fun _ _ _ => True) start s ∧
      s.myself 0 = some ⟨1, .ofBytes [49], 8001, false, 40⟩ := by
  have hrun : (runSteps GossipNetwork.step (fun _ _ _ => True) twoMemories reportedDeath).map
      (fun s => s.myself 0) = some (some ⟨1, .ofBytes [49], 8001, false, 40⟩) := by decide +kernel
  obtain ⟨s, hsteps, hmyself⟩ := Option.map_eq_some_iff.mp hrun
  exact ⟨twoMemories, s, twoMemories_start, run_of_runSteps hsteps, hmyself⟩

end Lissandra
