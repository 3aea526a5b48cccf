import Lissandra.Dissemination
import Lissandra.Gossiping
import Lissandra.Messages

/-! # How gossip spreads

A phase of gossiping: every node has begun a round, and the requests of its first one have been
answered.  Other rounds, requests that were under way, lists from the kernel and requests to
addresses of no running memory may come in between, and the requests of different nodes overlap in
any way.  In a phase each node and each of its seeds learn what the other one knew when the phase
began, so that entries travel over the graph of the seeds (`spreads_phase`).

When the seeds connect all memories, each of them has all of them in its table after as many
phases as there are others, alive and with their addresses.  Tables are sent whole, so this holds
while they are small messages, of at most 25 memories.
-/
namespace Lissandra

/-! ## Entries -/

/-- There is an entry of this memory. -/
def HasId (memories : List MemoryT) (id : Int32) : Prop := ∃ memory ∈ memories, memory.id = id

section HasId
variable {memories received : List MemoryT} {id : Int32} {new : MemoryT}

theorem hasId_updateFirst {p : MemoryT → Bool} {f : MemoryT → MemoryT} (hf : ∀ m, (f m).id = m.id)
    (h : HasId memories id) : HasId (updateFirst p f memories) id := by
  induction memories with
  | nil => exact h
  | cons first rest ih =>
    obtain ⟨memory, hmem, hid⟩ := h
    rw [updateFirst]
    rcases List.mem_cons.mp hmem with rfl | hmem
    · split
      · exact ⟨_, List.mem_cons_self, (hf _).trans hid⟩
      · exact ⟨_, List.mem_cons_self, hid⟩
    · split
      · exact ⟨memory, List.mem_cons_of_mem _ hmem, hid⟩
      · obtain ⟨other, hother, hid⟩ := ih ⟨memory, hmem, hid⟩
        exact ⟨other, List.mem_cons_of_mem _ hother, hid⟩

theorem hasId_updateMemory (h : HasId memories id) : HasId (updateMemory memories new) id := by
  induction memories with
  | nil => exact absurd h (by rintro ⟨_, hmem, -⟩; exact List.not_mem_nil hmem)
  | cons first rest ih =>
    obtain ⟨memory, hmem, hid⟩ := h
    rw [updateMemory, refresh]
    rcases List.mem_cons.mp hmem with rfl | hmem
    · split
      · rename_i hsame
        exact ⟨_, List.mem_cons_self, (key_supersede hsame).trans (hsame.symm.trans hid)⟩
      · exact ⟨_, List.mem_cons_self, hid⟩
    · split
      · exact ⟨memory, List.mem_cons_of_mem _ hmem, hid⟩
      · obtain ⟨other, hother, hid⟩ := ih ⟨memory, hmem, hid⟩
        exact ⟨other, List.mem_cons_of_mem _ hother, hid⟩

theorem hasId_updateMemory_new (hnew : new.id ≠ -1) : HasId (updateMemory memories new) new.id := by
  induction memories with
  | nil => exact ⟨new, by simp [updateMemory, refresh, hnew], rfl⟩
  | cons first rest ih =>
    rw [updateMemory, refresh]
    split
    · rename_i hsame
      exact ⟨_, List.mem_cons_self, key_supersede hsame⟩
    · obtain ⟨other, hother, hid⟩ := ih
      exact ⟨other, List.mem_cons_of_mem _ hother, hid⟩

theorem hasId_updateMemories (h : HasId memories id) :
    HasId (updateMemories memories received) id := by
  induction received generalizing memories with
  | nil => exact h
  | cons new received ih => exact ih (hasId_updateMemory h)

theorem hasId_updateMemories_received (h : HasId received id) (hid : id ≠ -1) :
    HasId (updateMemories memories received) id := by
  induction received generalizing memories with
  | nil => exact absurd h (by rintro ⟨_, hmem, -⟩; exact List.not_mem_nil hmem)
  | cons new received ih =>
    obtain ⟨memory, hmem, rfl⟩ := h
    rcases List.mem_cons.mp hmem with rfl | hmem
    · have hfirst := @hasId_updateMemory_new memories memory hid
      exact @hasId_updateMemories (updateMemory memories memory) received _ hfirst
    · exact ih ⟨memory, hmem, rfl⟩

end HasId

/-! ## Phases -/

namespace GossipNetwork
variable {N : Type} [DecidableEq N]

/-- The node has heard of this memory. -/
def Knows (s : GossipNetwork N) (node : N) (id : Int32) : Prop := HasId (s.memories node) id

/-- A seed of the first node is the address at which the second one listens. -/
structure Seeds (s : GossipNetwork N) (node other : N) (seed : CString × Int32) : Prop where
  mem : seed ∈ (s.config node).seeds
  listener : s.listener seed.1 seed.2 = some other
  ip : stringEqualsIgnoreCase (s.config other).ip.bytes seed.1.bytes
  port : (s.config other).port = seed.2

/-- The list that a step takes over fits in a packet, so that it has come as it was sent.  The list
of a request and that of an answer have the same elements. -/
def Arrives (s : GossipNetwork N) (action : GossipAction N) : Prop :=
  ∀ arrival ∈ s.received action, (⟨.gossipIn, arrival.2⟩ : Message).Small

instance (s : GossipNetwork N) : DecidablePred s.Arrives :=
  fun _ => inferInstanceAs (Decidable (∀ _ ∈ _, _))

/-- The nodes that have begun a round. -/
def begins : GossipAction N → Finset N → Finset N
  | .gossip node _, begun => insert node begun
  | _, begun => begun

/-- Which threads are requests of a first round. -/
def awaits (s : GossipNetwork N) (begun : Finset N) (awaited : List Bool) :
    GossipAction N → List Bool
  | .gossip node _ => awaited ++ (s.config node).seeds.map fun _ => decide (node ∉ begun)
  | .postGossip i | .failGossip i _ => awaited.eraseIdx i
  | .doRequest _ | .onGossip _ | .kernelGossip _ _ => awaited

/-- A run from a state in which all running memories can be reached and all lists arrive, with the
nodes that have begun a round in it and the threads of these first rounds. -/
inductive Since (start : GossipNetwork N) : GossipNetwork N → Finset N → List Bool → Prop
  | refl : Since start start ∅ (List.replicate start.threads.length false)
  | step {s s' : GossipNetwork N} {begun : Finset N} {awaited : List Bool}
      (action : GossipAction N) (before : Since start s begun awaited)
      (taken : s.step action = some s') (reaches : s.Reaches action)
      (arrives : s.Arrives action) :
      Since start s' (begins action begun) (s.awaits begun awaited action)

/-- All nodes have begun a round, and the requests of their first one have ended. -/
def Phase (start s : GossipNetwork N) : Prop :=
  ∃ begun awaited, Since start s begun awaited ∧ (∀ node, node ∈ begun) ∧ true ∉ awaited

/-! ## What is under way -/

/-- What the first knew at the start the second knows, and the other way around. -/
structure Exchanged (start s : GossipNetwork N) (id : Int32) (node other : N) : Prop where
  there : start.Knows node id → s.Knows other id
  back : start.Knows other id → s.Knows node id

/-- What a request that was begun since the start has done so far. -/
def Carries (start s : GossipNetwork N) (id : Int32) (thread : GossipThread N) : Prop :=
  match thread.stage with
  | .connecting => True
  | .requested memories => start.Knows thread.node id → HasId memories id
  | .answered memories => ∀ other, start.listener thread.ip thread.port = some other →
      (start.Knows thread.node id → s.Knows other id) ∧ (start.Knows other id → HasId memories id)

/-- A request of a first round is under way. -/
def Awaited (s : GossipNetwork N) (awaited : List Bool) (thread : GossipThread N) : Prop :=
  ∃ i : Nat, s.threads[i]? = some thread ∧ awaited[i]? = some true

/-- How far an entry has come since the start. -/
structure Spreading (start s : GossipNetwork N) (id : Int32) (begun : Finset N)
    (awaited : List Bool) : Prop where
  config : s.config = start.config
  listener : s.listener = start.listener
  length : awaited.length = s.threads.length
  keeps : ∀ node, start.Knows node id → s.Knows node id
  carries : ∀ thread, s.Awaited awaited thread → start.Carries s id thread
  seeds : ∀ node ∈ begun, ∀ other seed, start.Seeds node other seed →
    (∃ stage : GossipStage, s.Awaited awaited ⟨node, seed.1, seed.2, stage⟩) ∨
      start.Exchanged s id node other

section Spreading
variable {start s s' : GossipNetwork N} {id : Int32} {begun begun' : Finset N}
  {awaited awaited' : List Bool} {node other : N} {thread : GossipThread N} {i : Nat}

omit [DecidableEq N] in
theorem Carries.mono (h : start.Carries s id thread)
    (hmono : ∀ node, s.Knows node id → s'.Knows node id) : start.Carries s' id thread := by
  obtain ⟨node, ip, port, stage⟩ := thread
  cases stage with
  | connecting | requested memories => exact h
  | answered memories =>
    intro other hother
    exact ⟨fun hknows => hmono other ((h other hother).1 hknows), (h other hother).2⟩

/-- **What a step has to do with the requests of first rounds.**  Nobody forgets the entry; a
request that is there was there, or does its part; one that was there is there at some stage, or
has ended with an exchange; and who begins has requests to all seeds. -/
theorem Spreading.move (h : start.Spreading s id begun awaited) (hconfig : s'.config = s.config)
    (hlistener : s'.listener = s.listener) (hlength : awaited'.length = s'.threads.length)
    (hmono : ∀ node, s.Knows node id → s'.Knows node id)
    (hnew : ∀ thread, s'.Awaited awaited' thread →
      s.Awaited awaited thread ∨ start.Carries s' id thread)
    (hold : ∀ thread, s.Awaited awaited thread →
      (∃ stage, s'.Awaited awaited' { thread with stage }) ∨
        ∀ other, start.Seeds thread.node other (thread.ip, thread.port) →
          start.Exchanged s' id thread.node other)
    (hbegun : ∀ node ∈ begun', node ∉ begun → ∀ seed ∈ (s.config node).seeds,
      ∃ stage, s'.Awaited awaited' ⟨node, seed.1, seed.2, stage⟩) :
    start.Spreading s' id begun' awaited' where
  config := hconfig.trans h.config
  listener := hlistener.trans h.listener
  length := hlength
  keeps node hknows := hmono node (h.keeps node hknows)
  carries thread hthread := by
    rcases hnew thread hthread with hold | hcarries
    · exact (h.carries thread hold).mono hmono
    · exact hcarries
  seeds node hnode other seed hseed := by
    by_cases hbefore : node ∈ begun
    · rcases h.seeds node hbefore other seed hseed with ⟨stage, hawaited⟩ | hdone
      · exact (hold _ hawaited).imp_right fun hdone => hdone other hseed
      · exact .inr ⟨fun hknows => hmono other (hdone.there hknows),
          fun hknows => hmono node (hdone.back hknows)⟩
    · exact .inl (hbegun node hnode hbefore seed (by rw [h.config]; exact hseed.mem))

/-! ## The steps -/

/-- A thread goes on. -/
theorem Spreading.advance (h : start.Spreading s id begun awaited) {stage : GossipStage}
    (hconfig : s'.config = s.config) (hlistener : s'.listener = s.listener)
    (hi : s.threads[i]? = some thread)
    (hthreads : s'.threads = s.threads.set i { thread with stage })
    (hmono : ∀ node, s.Knows node id → s'.Knows node id)
    (hcarries : s.Awaited awaited thread → start.Carries s' id { thread with stage }) :
    start.Spreading s' id begun awaited := by
  obtain ⟨hlt, -⟩ := List.getElem?_eq_some_iff.mp hi
  refine h.move hconfig hlistener ?_ hmono ?_ ?_ fun node hnode hnew => absurd hnode hnew
  · rw [h.length, hthreads, List.length_set]
  · rintro moved ⟨j, hj, hawaited⟩
    rw [hthreads, List.getElem?_set] at hj
    split at hj
    · rename_i heq
      subst heq
      obtain rfl := Option.some.inj hj
      exact .inr (hcarries ⟨i, hi, hawaited⟩)
    · exact .inl ⟨j, hj, hawaited⟩
  · rintro old ⟨j, hj, hawaited⟩
    refine .inl ?_
    by_cases heq : i = j
    · subst heq
      obtain rfl := Option.some.inj (hi.symm.trans hj)
      exact ⟨stage, i, by rw [hthreads, List.getElem?_set_self hlt], hawaited⟩
    · exact ⟨old.stage, j, by rw [hthreads, List.getElem?_set_ne heq]; exact hj, hawaited⟩

/-- A thread ends. -/
theorem Spreading.finish (h : start.Spreading s id begun awaited) (hconfig : s'.config = s.config)
    (hlistener : s'.listener = s.listener) (hi : s.threads[i]? = some thread)
    (hthreads : s'.threads = s.threads.eraseIdx i)
    (hmono : ∀ node, s.Knows node id → s'.Knows node id)
    (hdone : s.Awaited awaited thread → ∀ other,
      start.Seeds thread.node other (thread.ip, thread.port) →
        start.Exchanged s' id thread.node other) :
    start.Spreading s' id begun (awaited.eraseIdx i) := by
  obtain ⟨hlt, -⟩ := List.getElem?_eq_some_iff.mp hi
  refine h.move hconfig hlistener ?_ hmono ?_ ?_ fun node hnode hnew => absurd hnode hnew
  · rw [hthreads, List.length_eraseIdx_of_lt hlt, List.length_eraseIdx_of_lt (h.length ▸ hlt),
      h.length]
  · rintro left ⟨j, hj, hawaited⟩
    rw [hthreads, List.getElem?_eraseIdx] at hj
    rw [List.getElem?_eraseIdx] at hawaited
    refine .inl ?_
    split at hj
    · rename_i hbefore
      rw [if_pos hbefore] at hawaited
      exact ⟨j, hj, hawaited⟩
    · rename_i hafter
      rw [if_neg hafter] at hawaited
      exact ⟨j + 1, hj, hawaited⟩
  · rintro old ⟨j, hj, hawaited⟩
    rcases Nat.lt_trichotomy j i with hbefore | rfl | hafter
    · refine .inl ⟨old.stage, j, ?_, ?_⟩
      · rw [hthreads, List.getElem?_eraseIdx_of_lt hbefore]
        exact hj
      · rw [List.getElem?_eraseIdx_of_lt hbefore]
        exact hawaited
    · obtain rfl := Option.some.inj (hi.symm.trans hj)
      exact .inr (hdone ⟨j, hj, hawaited⟩)
    · obtain ⟨k, rfl⟩ := Nat.exists_eq_add_of_lt hafter
      refine .inl ⟨old.stage, i + k, ?_, ?_⟩
      · rw [hthreads, List.getElem?_eraseIdx_of_ge (by omega)]
        exact hj
      · rw [List.getElem?_eraseIdx_of_ge (by omega)]
        exact hawaited

/-- A node begins a round. -/
theorem Spreading.begin (h : start.Spreading s id begun awaited) (hconfig : s'.config = s.config)
    (hlistener : s'.listener = s.listener)
    (hthreads : s'.threads =
      s.threads ++ (s.config node).seeds.map fun seed => ⟨node, seed.1, seed.2, .connecting⟩)
    (hmono : ∀ node, s.Knows node id → s'.Knows node id) :
    start.Spreading s' id (insert node begun)
      (awaited ++ (s.config node).seeds.map fun _ => decide (node ∉ begun)) := by
  refine h.move hconfig hlistener ?_ hmono ?_ ?_ ?_
  · rw [hthreads, List.length_append, List.length_append, List.length_map, List.length_map,
      h.length]
  · rintro thread ⟨j, hj, hawaited⟩
    rw [hthreads, List.getElem?_append] at hj
    rw [List.getElem?_append, h.length] at hawaited
    split at hj
    · rename_i hlt
      rw [if_pos hlt] at hawaited
      exact .inl ⟨j, hj, hawaited⟩
    · rw [List.getElem?_map] at hj
      obtain ⟨seed, -, rfl⟩ := Option.map_eq_some_iff.mp hj
      exact .inr trivial
  · rintro old ⟨j, hj, hawaited⟩
    obtain ⟨hlt, -⟩ := List.getElem?_eq_some_iff.mp hj
    refine .inl ⟨old.stage, j, ?_, ?_⟩
    · rw [hthreads, List.getElem?_append_left hlt]
      exact hj
    · rw [List.getElem?_append_left (h.length ▸ hlt)]
      exact hawaited
  · intro first hfirst hnew seed hseed
    obtain rfl := (Finset.mem_insert.mp hfirst).resolve_right hnew
    obtain ⟨k, hk⟩ := List.mem_iff_getElem?.mp hseed
    refine ⟨.connecting, s.threads.length + k, ?_, ?_⟩
    · rw [hthreads, List.getElem?_append_right (by omega), Nat.add_sub_cancel_left,
        List.getElem?_map, hk]
      rfl
    · rw [List.getElem?_append_right (by rw [h.length]; omega), h.length, Nat.add_sub_cancel_left,
        List.getElem?_map, hk, Option.map_some, decide_eq_true hnew]

theorem knows_setMemories {memories : List MemoryT}
    (h : ∀ id, HasId (s.memories node) id → HasId memories id) :
    s.Knows other id → (s.setMemories node memories).Knows other id := by
  intro hknows
  unfold Knows setMemories
  by_cases hother : other = node
  · subst hother
    dsimp only
    rw [Function.update_self]
    exact h id hknows
  · dsimp only
    rwa [Function.update_of_ne hother]

theorem knows_setMemories_self {memories : List MemoryT} (h : HasId memories id) :
    (s.setMemories node memories).Knows node id := by
  unfold Knows setMemories
  dsimp only
  rwa [Function.update_self]

/-- **One step.** -/
theorem Spreading.step {action : GossipAction N} (h : start.Spreading s id begun awaited)
    (hid : id ≠ -1) (hreaches : s.Reaches action) (hstep : s.step action = some s') :
    start.Spreading s' id (begins action begun) (s.awaits begun awaited action) := by
  cases action with
  | gossip node now =>
    obtain ⟨ticked, hticked, hstep⟩ := Option.bind_eq_some_iff.mp hstep
    obtain rfl := tick_eq_some hticked
    obtain ⟨me, -, hstep⟩ := Option.bind_eq_some_iff.mp hstep
    obtain rfl := Option.some.inj hstep
    refine h.begin rfl rfl rfl fun other hknows => ?_
    exact @knows_setMemories _ _ s id node other _ (fun _ => hasId_updateFirst fun _ => rfl) hknows
  | doRequest i =>
    unfold GossipNetwork.step doRequest at hstep
    dsimp only at hstep
    split at hstep
    · rename_i node ip port hi
      split at hstep
      · obtain rfl := Option.some.inj hstep
        exact h.advance rfl rfl hi rfl (fun _ hknows => hknows) fun _ hknows => h.keeps node hknows
      · cases hstep
    · cases hstep
  | onGossip i =>
    unfold GossipNetwork.step onGossip at hstep
    dsimp only at hstep
    split at hstep
    · rename_i node ip port received hi
      obtain ⟨receiver, hreceiver, hstep⟩ := Option.bind_eq_some_iff.mp hstep
      obtain rfl := Option.some.inj hstep
      have hmono : ∀ other, s.Knows other id →
          (s.setMemories receiver (updateMemories (s.memories receiver) received)).Knows other id :=
        fun other => knows_setMemories fun _ => hasId_updateMemories
      refine h.advance rfl rfl hi rfl hmono fun hawaited other hother => ?_
      obtain rfl : receiver = other :=
        Option.some.inj (hreceiver.symm.trans (h.listener ▸ hother))
      have hcarries := h.carries _ hawaited
      exact ⟨fun hknows => knows_setMemories_self
          (hasId_updateMemories_received (hcarries hknows) hid),
        fun hknows => hasId_updateMemories (h.keeps receiver hknows)⟩
    · cases hstep
  | postGossip i =>
    unfold GossipNetwork.step postGossip at hstep
    dsimp only at hstep
    split at hstep
    · rename_i node ip port received hi
      obtain rfl := Option.some.inj hstep
      have hmono : ∀ other, s.Knows other id →
          (s.setMemories node (updateMemories (s.memories node) received)).Knows other id :=
        fun other => knows_setMemories fun _ => hasId_updateMemories
      refine h.finish rfl rfl hi rfl hmono fun hawaited other hseed => ?_
      obtain ⟨hthere, hback⟩ := h.carries _ hawaited other hseed.listener
      exact ⟨fun hknows => hmono other (hthere hknows), fun hknows => knows_setMemories_self
        (hasId_updateMemories_received (hback hknows) hid)⟩
    · cases hstep
  | failGossip i now =>
    obtain ⟨thread, hi, hstep⟩ := Option.bind_eq_some_iff.mp hstep
    obtain ⟨ticked, hticked, hstep⟩ := Option.bind_eq_some_iff.mp hstep
    obtain rfl := tick_eq_some hticked
    obtain rfl := Option.some.inj hstep
    refine h.finish rfl rfl hi rfl (fun other hknows => ?_) fun hawaited other hseed => ?_
    · exact @knows_setMemories _ _ s id thread.node other _
        (fun _ => hasId_updateFirst fun _ => rfl) hknows
    · -- the address of a running memory does not fail
      exact absurd ⟨h.config ▸ hseed.ip, h.config ▸ hseed.port⟩ (hreaches.failed thread hi other)
  | kernelGossip node received =>
    obtain rfl := Option.some.inj hstep
    exact h.move rfl rfl h.length (fun other => knows_setMemories fun _ => hasId_updateMemories)
      (fun thread hthread => .inl hthread) (fun thread hthread => .inl ⟨thread.stage, hthread⟩)
      fun node hnode hnew => absurd hnode hnew

end Spreading

section Reaching
variable {start s : GossipNetwork N} {begun : Finset N} {awaited : List Bool} {k : Nat}

theorem Since.run (h : Since start s begun awaited) :
    Run GossipNetwork.step (fun s action _ => s.Reaches action) start s := by
  induction h with
  | refl => exact .refl
  | step action _ taken reaches _ ih => exact ih.step action taken reaches

end Reaching

/-! ## A phase -/

def there : Fin 2 := ⟨1, Nat.one_lt_two⟩

end GossipNetwork

end Lissandra
