import Lissandra.HashedMemories

/-! # Reads through memories by hash

The memories are caches over one filesystem, and a key may have pages in several of them.
While a memory serves an INSERT of a key only when no other one has a page of it, and a
SELECT only when no other one has a modified page of it, at most one memory has the record
that was written last, and where none has, the filesystem has it.  Then every SELECT is
answered with what was acknowledged before it was sent or something newer, in whatever order
requests and answers are delivered (`shc_select_fresh`).

`add_shc_memory` lets the new memory serve its share of the keys before the old owner has
journaled, and a SELECT is answered with something older (`shc_select_stale`).
-/
namespace Lissandra

/-! ## What memories hold -/

/-- A record that every memory can hold, and that is not later than the clock. -/
structure HashedMemories.Holds (s : HashedMemories) (record : Record) : Prop where
  legible : Legible record.value
  fits : ∀ memory ∈ s.memories, Fits (s.node memory.id).memory (convertToTkv record)
  before : time record ≤ s.clock.toInt

/-- What the memories show, as caches of what was written last. -/
structure HashedMemories.Cached (s : HashedMemories) (views : Int32 → View)
    (last : Last) : Prop where
  wellFormed : ∀ memory ∈ s.memories, WellFormed (s.node memory.id)
  shows : ∀ memory ∈ s.memories, Shows (s.node memory.id) (views memory.id)
  unknown : ∀ id, (∀ memory ∈ s.memories, memory.id ≠ id) → views id = View.empty
  caches : ∀ tableName key, CoherentCaches time (ofKey key (s.stored tableName))
    (last tableName key) fun id => (views id).of tableName key
  plain : ∀ {tableName key record}, last tableName key = some record → record.key = key ∧
    s.Holds record
  stored : ∀ tableName, ∀ record ∈ s.stored tableName, s.Holds record

/-- What a memory takes for the record that was written last. -/
def HashedMemories.lastAt (s : HashedMemories) (views : Int32 → View) (last : Last)
    (id : Int32) : Last :=
  fun tableName key =>
    known time (ofKey key (s.stored tableName)) (last tableName key) ((views id).of tableName key)

/-- A memory in front of the filesystem, for which `last` was written last. -/
def HashedMemories.frontOf (s : HashedMemories) (id : Int32) (last : Last) : Front :=
  { s.front id with acknowledged := fun tableName key => (last tableName key).map Record.value }

section Caching
variable {s : HashedMemories} {views : Int32 → View} {last : Last} {memory : MemoryT} {id : Int32}
  {tableName : Bytes} {key : UInt16} {record : Record} {after : Front} {op : FrontOp}
  {view view' : View} {answers : List Answer} {node : MemoryNode}

/-- What was acknowledged changes nothing. -/
theorem Front.serve_congr {s s' : Front} (acknowledged : Bytes → UInt16 → Option Bytes)
    (hserve : s.serve op = some (s', answers)) :
    ∃ acknowledged', ({ s with acknowledged } : Front).serve op =
      some ({ s' with acknowledged := acknowledged' }, answers) := by
  cases op with
  | insert now later input id unassigned outcome =>
    simp only [Front.serve, Option.bind_eq_bind, Option.bind_eq_some_iff] at hserve ⊢
    obtain ⟨ending, hending, late, hlate, ⟨node, stored⟩, hexchange, heq⟩ := hserve
    cases heq
    exact ⟨_, ending, hending, late, hlate, (node, stored), hexchange, rfl⟩
  | select input result id unassigned outcome =>
    simp only [Front.serve, Option.bind_eq_bind, Option.bind_eq_some_iff] at hserve ⊢
    obtain ⟨lookup, hlookup, hserve⟩ := hserve
    cases lookup with
    | hit tableName found =>
      cases hserve
      exact ⟨acknowledged, _, hlookup, rfl⟩
    | miss =>
      simp only [Option.bind_eq_some_iff] at hserve
      obtain ⟨ending, hending, late, hlate, ⟨node, stored⟩, hexchange, heq⟩ := hserve
      cases heq
      refine ⟨acknowledged, _, hlookup, ?_⟩
      simp only [hending, hlate, hexchange, Option.bind_some]
  | journal id outcome =>
    simp only [Front.serve, Option.bind_eq_bind, Option.bind_eq_some_iff] at hserve ⊢
    obtain ⟨⟨node, stored⟩, hexchange, heq⟩ := hserve
    cases heq
    exact ⟨acknowledged, (node, stored), hexchange, rfl⟩

/-- The page of a key is its first copy. -/
theorem Shows.cachedPage_cases (h : Shows node view) (tableName : Bytes) (key : UInt16) :
    view.of tableName key = [] ∧ cachedPage node tableName key = none ∨
    ∃ page copy, cachedPage node tableName key = some page ∧ page.modified = copy.modified ∧
      (view.of tableName key).head? = some copy := by
  unfold cachedPage
  rcases h.findPage_cases tableName key with ⟨hnil, hfind⟩ |
    ⟨segment, page, copy, _, _, _, _, hfind, -, -, -, -, -, hholds, -, -, -, hhead⟩
  · rw [hfind]
    exact Or.inl ⟨hnil, rfl⟩
  · rw [hfind]
    exact Or.inr ⟨page, copy, rfl, hholds.modified, hhead⟩

theorem HashedMemories.Holds.back (h : s.Holds record) (hsizes : SameSizes (s.node id) after.node)
    (hclock : s.clock.toInt ≤ after.clock.toInt) : (s.back id after).Holds record := by
  refine ⟨h.legible, fun memory hmem => ?_, h.before.trans hclock⟩
  show Fits (Function.update s.node id after.node memory.id).memory _
  by_cases hid : memory.id = id
  · have hfits := h.fits memory hmem
    rw [hid] at hfits
    rw [hid, Function.update_self]
    exact ⟨hsizes.totalPageCount ▸ hfits.1, hsizes.totalPageSize ▸ hfits.2⟩
  · rw [Function.update_of_ne hid]
    exact h.fits memory hmem

/-- The copies of a key, where one memory has others. -/
theorem update_views (views : Int32 → View) (id : Int32) (view : View) (tableName : Bytes)
    (key : UInt16) :
    Function.update (fun other => (views other).of tableName key) id (view.of tableName key) =
      fun other => (Function.update views id view other).of tableName key := by
  funext other
  by_cases hid : other = id
  · rw [hid, Function.update_self, Function.update_self]
  · rw [Function.update_of_ne hid, Function.update_of_ne hid]

/-! ## One memory -/

theorem HashedMemories.Cached.lastAt_plain (h : s.Cached views last)
    (hlast : s.lastAt views last id tableName key = some record) :
    record.key = key ∧ s.Holds record := by
  unfold HashedMemories.lastAt at hlast
  cases hcopies : (views id).of tableName key with
  | nil =>
    rw [hcopies] at hlast
    obtain ⟨hmem, hkey⟩ := mem_ofKey.mp (List.argmax_mem hlast)
    exact ⟨hkey, h.stored tableName record hmem⟩
  | cons copy copies =>
    rw [hcopies] at hlast
    exact h.plain hlast

/-- Every memory is a map of its own. -/
theorem HashedMemories.Cached.front (h : s.Cached views last) (hmem : memory ∈ s.memories) :
    (s.frontOf memory.id (s.lastAt views last memory.id)).Inv (views memory.id)
      (s.lastAt views last memory.id) := by
  refine ⟨h.wellFormed memory hmem, h.shows memory hmem, fun tableName key => ?_, fun _ _ => rfl,
    fun hlast => ?_, fun tableName record hrecord => (h.stored tableName record hrecord).before,
    fun hlast => (h.lastAt_plain hlast).2.before⟩
  · exact (h.caches tableName key).known_coherent memory.id
  · obtain ⟨hkey, hholds⟩ := h.lastAt_plain hlast
    exact ⟨hkey, hholds.legible, hholds.fits memory hmem⟩

/-- No page of a key in the other memories. -/
theorem HashedMemories.Cached.others_nil (h : s.Cached views last)
    (howns : ∀ memory ∈ s.memories, memory.id ≠ id →
      cachedPage (s.node memory.id) tableName key = none) :
    ∀ other, other ≠ id → (views other).of tableName key = [] := by
  intro other hother
  by_cases hknown : ∃ memory ∈ s.memories, memory.id = other
  · obtain ⟨memory, hmem, rfl⟩ := hknown
    rcases (h.shows memory hmem).cachedPage_cases tableName key with ⟨hnil, -⟩ |
      ⟨page, copy, hpage, -⟩
    · exact hnil
    · exact absurd ((howns memory hmem hother).symm.trans hpage) (by simp)
  · rw [h.unknown other fun memory hmem hid => hknown ⟨memory, hmem, hid⟩]
    exact View.of_empty

/-- No modified page of a key in the other memories. -/
theorem HashedMemories.Cached.others_unmodified (h : s.Cached views last)
    (howns : ∀ memory ∈ s.memories, memory.id ≠ id →
      ∀ page ∈ cachedPage (s.node memory.id) tableName key, page.modified = false) :
    ∀ other, other ≠ id → ∀ copy ∈ (views other).of tableName key, copy.modified = false := by
  intro other hother copy hcopy
  by_cases hknown : ∃ memory ∈ s.memories, memory.id = other
  · obtain ⟨memory, hmem, rfl⟩ := hknown
    by_contra hmodified
    have hcoherent := (h.caches tableName key).known_coherent memory.id
    have hhead := (hcoherent.of_modified hcopy (by simpa using hmodified)).1
    rcases (h.shows memory hmem).cachedPage_cases tableName key with ⟨hnil, -⟩ |
      ⟨page, first, hpage, hfirst, hfirstHead⟩
    · rw [hnil] at hcopy
      exact List.not_mem_nil hcopy
    · obtain rfl := Option.some.inj (hfirstHead.symm.trans hhead)
      exact hmodified (hfirst.symm.trans (howns memory hmem hother page hpage))
  · rw [h.unknown other fun memory hmem hid => hknown ⟨memory, hmem, hid⟩] at hcopy
    exact absurd hcopy List.not_mem_nil

/-! ## One operation of a memory -/

/-- A memory that writes nothing, and fetches a copy only while no other memory has a modified
one. -/
theorem HashedMemories.Cached.read (h : s.Cached views last)
    {brings : Bytes → UInt16 → Copy Record → Prop}
    (hleaves : (s.frontOf id (s.lastAt views last id)).Leaves after (views id) view' brings)
    (hcoherent : Coherent time (ofKey key (after.stored tableName))
      (s.lastAt views last id tableName key) (view'.of tableName key))
    (hbrings : ∀ copy, brings tableName key copy → copy.modified = false ∧
      ∀ other, other ≠ id → ∀ copy ∈ (views other).of tableName key, copy.modified = false) :
    CoherentCaches time (ofKey key (after.stored tableName)) (last tableName key)
      fun other => (Function.update views id view' other).of tableName key := by
  have hread := (h.caches tableName key).read hcoherent hleaves.stored
    (fun copy hmem hmodified => ?_) fun hnil hne => ?_
  · rwa [update_views] at hread
  · rcases hleaves.copies copy hmem with hold | hnew
    · exact hold
    · exact absurd hmodified (by simp [(hbrings copy hnew).1])
  · obtain ⟨copy, hmem⟩ := List.exists_mem_of_ne_nil _ hne
    rcases hleaves.copies copy hmem with hold | hnew
    · rw [hnil] at hold
      exact absurd hold List.not_mem_nil
    · exact (hbrings copy hnew).2

/-- The memories after an operation of one of them. -/
theorem HashedMemories.Cached.back (h : s.Cached views last) (hmem : memory ∈ s.memories)
    {brings : Bytes → UInt16 → Copy Record → Prop} {lastHere last' : Last}
    (hinv : after.Inv view' lastHere)
    (hleaves : (s.frontOf memory.id (s.lastAt views last memory.id)).Leaves after (views memory.id)
      view' brings)
    (hcaches : ∀ tableName key, CoherentCaches time (ofKey key (after.stored tableName))
      (last' tableName key)
      fun other => (Function.update views memory.id view' other).of tableName key)
    (hplain : ∀ {tableName key record}, last' tableName key = some record →
      record.key = key ∧ (s.back memory.id after).Holds record) :
    (s.back memory.id after).Cached (Function.update views memory.id view') last' := by
  have hback : ∀ {record}, s.Holds record → (s.back memory.id after).Holds record :=
    fun hholds => hholds.back hleaves.sizes hleaves.clock
  refine ⟨fun other hother => ?_, fun other hother => ?_, fun id hid => ?_, hcaches, hplain,
    fun tableName record hrecord => ?_⟩
  · show WellFormed (Function.update s.node memory.id after.node other.id)
    by_cases hid : other.id = memory.id
    · rw [hid, Function.update_self]
      exact hinv.wellFormed
    · rw [Function.update_of_ne hid]
      exact h.wellFormed other hother
  · show Shows (Function.update s.node memory.id after.node other.id) _
    by_cases hid : other.id = memory.id
    · rw [hid, Function.update_self, Function.update_self]
      exact hinv.shows
    · rw [Function.update_of_ne hid, Function.update_of_ne hid]
      exact h.shows other hother
  · rw [Function.update_of_ne fun heq : id = memory.id => hid memory hmem heq.symm]
    exact h.unknown id hid
  · rcases hleaves.plain hrecord with hold | hmodified
    · exact hback (h.stored tableName record hold)
    · -- the modified copy is what was written last
      have hcopy := View.mem_of.mpr ⟨hmodified, rfl⟩
      have hcoherent := (h.caches tableName record.key).coherent memory.id
        (List.ne_nil_of_mem hcopy)
      exact hback (h.plain (hcoherent.of_modified hcopy rfl).2).2

theorem HashedMemories.Cached.journal_serve (h : s.Cached views last) (hmem : memory ∈ s.memories)
    {rid : Option Nat} {outcome : JournalOutcome}
    (hallows : (s.front memory.id).Allows (.journal rid outcome))
    (hserve : (s.front memory.id).serve (.journal rid outcome) = some (after, answers)) :
    ∃ views', (s.back memory.id after).Cached views' last := by
  obtain ⟨acknowledged, hserve'⟩ := Front.serve_congr
    (fun tableName key => (s.lastAt views last memory.id tableName key).map Record.value) hserve
  have hfront := h.front hmem
  obtain ⟨view', hinv, hleaves⟩ := hfront.journal_step hallows hserve'
  have hcached := h.back hmem hinv hleaves
    (fun tableName key => h.read hleaves (hinv.coherent tableName key) fun _ hbrings =>
      hbrings.elim)
    fun hlast => ⟨(h.plain hlast).1, (h.plain hlast).2.back hleaves.sizes hleaves.clock⟩
  exact ⟨_, hcached⟩

theorem HashedMemories.Cached.select_serve (h : s.Cached views last) (hmem : memory ∈ s.memories)
    {input : SelectInput} {result : Option RecordT} {rid : Nat} {unassigned : Bool}
    {outcome : JournalOutcome}
    (hallows : (s.front memory.id).Allows (.select input result rid unassigned outcome))
    (howns : ∀ other ∈ s.memories, other.id ≠ memory.id →
      ∀ page ∈ cachedPage (s.node other.id) (toUppercase input.tableName.bytes) input.key,
        page.modified = false)
    (hserve : (s.front memory.id).serve (.select input result rid unassigned outcome) =
      some (after, answers)) :
    (∃ views', (s.back memory.id after).Cached views' last) ∧
      AnswersCurrent (last (toUppercase input.tableName.bytes) input.key) answers := by
  obtain ⟨acknowledged, hserve'⟩ := Front.serve_congr
    (fun tableName key => (s.lastAt views last memory.id tableName key).map Record.value) hserve
  have hothers := h.others_unmodified howns
  obtain ⟨view', hinv, hleaves, hcurrent⟩ := (h.front hmem).select_step hallows hserve'
  have hlast : s.lastAt views last memory.id (toUppercase input.tableName.bytes) input.key =
      last (toUppercase input.tableName.bytes) input.key := (h.caches _ _).known_eq hothers
  rw [hlast] at hcurrent
  have hcached := h.back hmem hinv hleaves (fun tableName key => by
      apply h.read hleaves (hinv.coherent tableName key)
      rintro copy ⟨⟨rfl, rfl⟩, hclean⟩
      exact ⟨hclean, hothers⟩)
    fun hlast => ⟨(h.plain hlast).1, (h.plain hlast).2.back hleaves.sizes hleaves.clock⟩
  exact ⟨⟨_, hcached⟩, hcurrent⟩

/-- The record of an INSERT fits where both of its timestamps do. -/
theorem writtenRecord_fits (node : MemoryNode) {memory : MainMemory} {now later : Int64}
    {input : InsertInput} (hnow : Fits memory (memoryText now input.key.toNat input.value.bytes))
    (hlater : Fits memory (memoryText later input.key.toNat input.value.bytes)) :
    Fits memory (convertToTkv (writtenRecord node now later input)) := by
  unfold writtenRecord
  split
  · rwa [memoryText_eq] at hnow
  · rwa [memoryText_eq] at hlater

/-- The caches after a memory wrote one key, of which no other memory has a copy. -/
theorem HashedMemories.Cached.write (h : s.Cached views last)
    {brings : Bytes → UInt16 → Copy Record → Prop} {lastHere last' : Last}
    (hothers : ∀ other, other ≠ id → (views other).of tableName key = [])
    (hleaves : (s.frontOf id (s.lastAt views last id)).Leaves after (views id) view' brings)
    (hbrings : ∀ {other otherKey copy}, brings other otherKey copy →
      other = tableName ∧ otherKey = key)
    (hcoherent : CoherentView after.stored lastHere view')
    (hwritten : lastHere tableName key = last' tableName key)
    (hkept : ∀ {other : Bytes} {otherKey : UInt16}, ¬ (other = tableName ∧ otherKey = key) →
      lastHere other otherKey = s.lastAt views last id other otherKey ∧
        last' other otherKey = last other otherKey)
    (other : Bytes) (otherKey : UInt16) :
    CoherentCaches time (ofKey otherKey (after.stored other)) (last' other otherKey)
      fun memory => (Function.update views id view' memory).of other otherKey := by
  have hhere := hcoherent other otherKey
  by_cases hkey : other = tableName ∧ otherKey = key
  · obtain ⟨rfl, rfl⟩ := hkey
    rw [hwritten] at hhere
    rw [← update_views]
    exact coherentCaches_write hothers hhere
  · obtain ⟨hlastHere, hlast'⟩ := hkept hkey
    rw [hlastHere] at hhere
    rw [hlast']
    exact h.read hleaves hhere fun copy hcopy => absurd (hbrings hcopy) hkey

theorem HashedMemories.Cached.insert_serve (h : s.Cached views last) (hmem : memory ∈ s.memories)
    {now later : Int64} {input : InsertInput} {rid : Nat} {unassigned : Bool}
    {outcome : JournalOutcome}
    (hallows : (s.front memory.id).Allows (.insert now later input rid unassigned outcome))
    (hfits : ∀ other ∈ s.memories, (NodeOp.processInsert now later input).Fits (s.node other.id))
    (howns : ∀ other ∈ s.memories, other.id ≠ memory.id →
      cachedPage (s.node other.id) (toUppercase input.tableName.bytes) input.key = none)
    (hserve : (s.front memory.id).serve (.insert now later input rid unassigned outcome) =
      some (after, answers)) :
    ∃ views' last', (s.back memory.id after).Cached views' last' ∧
      (last' = last ∧ .int 0 ∉ answers ∨
        last' = last.set (toUppercase input.tableName.bytes)
          (writtenRecord (s.node memory.id) now later input) ∧
        s.clock.toInt < time (writtenRecord (s.node memory.id) now later input)) := by
  obtain ⟨acknowledged, hserve'⟩ := Front.serve_congr
    (fun tableName key => (s.lastAt views last memory.id tableName key).map Record.value) hserve
  have hothers := h.others_nil howns
  obtain ⟨view', lastHere, hinv, hleaves, hcases⟩ := (h.front hmem).insert_step hallows hserve'
  have hback : ∀ {record}, s.Holds record → (s.back memory.id after).Holds record :=
    fun hholds => hholds.back hleaves.sizes hleaves.clock
  rcases hcases with ⟨rfl, hanswers⟩ | ⟨rfl, hlater⟩
  · -- nothing was written, and where no other memory has a copy this one knows what is last
    have hlast : s.lastAt views last memory.id (toUppercase input.tableName.bytes) input.key =
        last (toUppercase input.tableName.bytes) input.key := by
      apply (h.caches _ _).known_eq
      intro other hother copy hcopy
      rw [hothers other hother] at hcopy
      exact absurd hcopy List.not_mem_nil
    have hcaches := h.write hothers hleaves id hinv.coherent hlast fun _ => ⟨rfl, rfl⟩
    have hcached := h.back hmem hinv hleaves hcaches
      fun hlast => ⟨(h.plain hlast).1, hback (h.plain hlast).2⟩
    exact ⟨_, last, hcached, Or.inl ⟨rfl, hanswers⟩⟩
  · have hset : ∀ last : Last, last.set (toUppercase input.tableName.bytes)
        (writtenRecord (s.node memory.id) now later input) (toUppercase input.tableName.bytes)
        input.key = some (writtenRecord (s.node memory.id) now later input) :=
      fun last => Last.set_self last _ _
    have hkept : ∀ (last : Last) {tableName : Bytes} {key : UInt16},
        ¬ (tableName = toUppercase input.tableName.bytes ∧ key = input.key) →
        last.set (toUppercase input.tableName.bytes)
          (writtenRecord (s.node memory.id) now later input) tableName key = last tableName key :=
      fun last _ _ hkey => if_neg hkey
    -- the record is not later than the clock of its memory, and fits in every other one
    have hholds : (s.back memory.id after).Holds
        (writtenRecord (s.node memory.id) now later input) := by
      refine ⟨(hinv.plain (hset _)).2.1, fun other hother => ?_, hinv.lastBefore (hset _)⟩
      have hother := writtenRecord_fits (s.node memory.id) (hfits other hother).1
        (hfits other hother).2
      show Fits (Function.update s.node memory.id after.node other.id).memory _
      by_cases hid : other.id = memory.id
      · rw [hid] at hother
        rw [hid, Function.update_self]
        exact hother.congr (s := s.front memory.id) hleaves.sizes
      · rwa [Function.update_of_ne hid]
    have hcaches := h.write hothers hleaves id hinv.coherent ((hset _).trans (hset last).symm)
      fun hkey => ⟨hkept _ hkey, hkept last hkey⟩
    have hcached := h.back hmem hinv hleaves hcaches fun {tableName key record} hlast => by
      by_cases hkey : tableName = toUppercase input.tableName.bytes ∧ key = input.key
      · obtain ⟨rfl, rfl⟩ := hkey
        obtain rfl := Option.some.inj ((hset last).symm.trans hlast)
        exact ⟨rfl, hholds⟩
      · rw [hkept last hkey] at hlast
        exact ⟨(h.plain hlast).1, hback (h.plain hlast).2⟩
    exact ⟨_, _, hcached, Or.inr ⟨rfl, hlater⟩⟩

end Caching

/-! ## Messages -/

/-- What the kernel may take from the answers to a request. -/
def ShcReply.Current (last : Last) (reply : ShcReply) : Prop :=
  match reply.request with
  | .insert input => ∀ answer ∈ reply.answers, onInsert answer = true →
      Behind time (last (toUppercase input.tableName.bytes) reply.record.key) reply.record
  | .select request =>
    ∀ answer ∈ reply.answers, ∀ record ∈ onSelect answer, request.AnsweredFresh record
  | .journal => True

/-- What lists and messages carry. -/
structure HashedMemories.Carried (s : HashedMemories) (last : Last) : Prop where
  added : ∀ memory ∈ s.memoriesAddedShc, memory ∈ s.memories
  requests : ∀ id request, (id, request) ∈ s.requests → ∃ memory ∈ s.memories, memory.id = id
  seen : ∀ id request, (id, .select request) ∈ s.requests →
    ∀ tableName other, (tableName, other) ∈ request.seen →
    Behind time (last tableName other.key) other
  replies : ∀ reply ∈ s.replies, reply.Current last
  acknowledged : ∀ tableName record, (tableName, record) ∈ s.acknowledged →
    Behind time (last tableName record.key) record
  answered : s.AnswersFresh

/-- What holds between steps. -/
def HashedMemories.Inv (s : HashedMemories) : Prop :=
  ∃ views last, s.Cached views last ∧ s.Carried last

section Messages
variable {s s' start : HashedMemories} {views : Int32 → View} {last : Last} {memory : MemoryT}
  {id : Int32} {after : Front} {answers : List Answer} {request : ShcRequest} {reply : ShcReply}
  {tableName : Bytes} {record : Record}

theorem mem_of_getMemoryById {memories : List MemoryT}
    (h : getMemoryById memories id = some memory) : memory ∈ memories ∧ memory.id = id := by
  unfold getMemoryById at h
  exact ⟨List.mem_of_find?_eq_some h, by simpa using List.find?_some h⟩

theorem mem_of_getAnyShcMemory {memories : List MemoryT} {key : UInt16}
    (h : getAnyShcMemory memories key = some memory) : memory ∈ memories := by
  unfold getAnyShcMemory at h
  split at h
  · exact absurd h (by simp)
  · exact List.mem_of_getElem? h

/-- A SELECT that has seen only what is behind the last record is answered with it. -/
theorem ShcSelect.answeredFresh {request : ShcSelect} {answer : Answer} {answered : AnsweredRecord}
    (hseen : ∀ tableName other, (tableName, other) ∈ request.seen →
      Behind time (last tableName other.key) other)
    (hcurrent : AnswersCurrent (last (toUppercase request.input.tableName.bytes) request.input.key)
      answers)
    (hanswer : answer ∈ answers) (hanswered : answered ∈ onSelect answer) :
    request.AnsweredFresh answered := by
  intro other hother hkey
  obtain ⟨newest, hnewest, hbehind⟩ := hseen _ other hother
  rw [hkey] at hnewest
  cases answer with
  | int value => exact absurd hanswered (by simp [onSelect])
  | record answered' =>
    rw [onSelect] at hanswered
    split at hanswered
    · exact absurd hanswered (by simp)
    · rename_i hfailed
      obtain rfl := Option.some.inj hanswered
      rcases hcurrent answered' hanswer with ⟨current, hlast, htimestamp, hvalue⟩ | ⟨hnone, -⟩ |
        hnetwork
      · obtain rfl := Option.some.inj (hnewest.symm.trans hlast)
        rw [htimestamp, hvalue]
        rcases hbehind with hlt | rfl
        · exact Or.inr hlt
        · exact Or.inl ⟨rfl, rfl⟩
      · exact absurd (hnewest.symm.trans hnone) (by simp)
      · exact absurd (Or.inr (Or.inl hnetwork)) hfailed

/-- The only success that an INSERT is answered with is 0. -/
theorem Front.insert_answers {front : Front} {now later : Int64} {input : InsertInput} {rid : Nat}
    {unassigned : Bool} {outcome : JournalOutcome}
    (hserve : front.serve (.insert now later input rid unassigned outcome) = some (after, answers))
    {answer : Answer} (hanswer : answer ∈ answers)
    (hsuccess : onInsert answer = true) : answer = .int 0 := by
  simp only [Front.serve, Option.bind_eq_bind, Option.bind_eq_some_iff] at hserve
  obtain ⟨ending, hending, late, hlate, ⟨node, stored⟩, hexchange, heq⟩ := hserve
  cases heq
  have hid : (rid : Int) ≠ -1337 := by omega
  rcases List.mem_append.mp hanswer with hmem | hmem
  · -- an answer of `process_insert` is an error or 0
    unfold processInsertAnswers at hmem
    split at hmem
    · split at hmem
      · rw [List.mem_singleton.mp hmem] at hsuccess
        exact absurd hsuccess (by decide)
      · exact absurd hmem List.not_mem_nil
    · exact absurd hmem List.not_mem_nil
    · exact List.mem_singleton.mp hmem
  · -- an answer of `journal_callback` may also be a record, which is no success
    unfold journalAnswers at hlate
    split at hlate
    · obtain ⟨batch, -, rfl⟩ := Option.map_eq_some_iff.mp hlate
      simp only [journalCallbackAnswers, hid, ne_eq, not_false_eq_true, if_true] at hmem
      split at hmem
      · rw [List.mem_singleton.mp hmem] at hsuccess
        exact absurd hsuccess (by decide)
      · split at hmem
        · exact List.mem_singleton.mp hmem
        · rw [List.mem_singleton.mp hmem, onInsert] at hsuccess
          exact absurd hsuccess Bool.false_ne_true
    · obtain rfl := Option.some.inj hlate
      exact absurd hmem List.not_mem_nil

/-! ## Steps of the kernel -/

/-- The memories, the filesystem and the clock are as they were. -/
structure HashedMemories.SameMemories (s s' : HashedMemories) : Prop where
  memories : s'.memories = s.memories
  node : s'.node = s.node
  stored : s'.stored = s.stored
  clock : s'.clock = s.clock

theorem HashedMemories.Cached.same (h : s.Cached views last) (hsame : s.SameMemories s') :
    s'.Cached views last := by
  have hholds : ∀ {record}, s.Holds record → s'.Holds record := by
    intro record hrecord
    refine ⟨hrecord.legible, fun memory hmem => ?_, hsame.clock ▸ hrecord.before⟩
    rw [hsame.memories] at hmem
    rw [hsame.node]
    exact hrecord.fits memory hmem
  refine ⟨?_, ?_, ?_, ?_, fun hlast => ⟨(h.plain hlast).1, hholds (h.plain hlast).2⟩,
    fun tableName record hrecord => ?_⟩
  · rw [hsame.memories, hsame.node]
    exact h.wellFormed
  · rw [hsame.memories, hsame.node]
    exact h.shows
  · rw [hsame.memories]
    exact h.unknown
  · rw [hsame.stored]
    exact h.caches
  · rw [hsame.stored] at hrecord
    exact hholds (h.stored tableName record hrecord)

theorem HashedMemories.sameMemories_addShcMemory (s : HashedMemories) (id : Int32) :
    s.SameMemories (s.addShcMemory id) := by
  unfold HashedMemories.addShcMemory
  split
  · exact ⟨rfl, rfl, rfl, rfl⟩
  · split
    · exact ⟨rfl, rfl, rfl, rfl⟩
    · split
      · exact ⟨rfl, rfl, rfl, rfl⟩
      · dsimp only
        split
        · exact ⟨rfl, rfl, rfl, rfl⟩
        · exact ⟨rfl, rfl, rfl, rfl⟩

theorem HashedMemories.sameMemories_execRemote (s : HashedMemories) (key : UInt16)
    (request : ShcRequest) : s.SameMemories (s.execRemote key request) := by
  unfold HashedMemories.execRemote
  split
  · exact ⟨rfl, rfl, rfl, rfl⟩
  · exact ⟨rfl, rfl, rfl, rfl⟩

theorem HashedMemories.sameMemories_runThread {thread : JournalThread}
    (hrun : s.runThread thread = some s') : s.SameMemories s' := by
  cases thread with
  | wait =>
    simp only [HashedMemories.runThread] at hrun
    split at hrun
    · exact absurd hrun (by simp)
    · obtain rfl := Option.some.inj hrun
      simp only [HashedMemories.journaling]
      split
      · exact ⟨rfl, rfl, rfl, rfl⟩
      · exact ⟨rfl, rfl, rfl, rfl⟩
  | send i =>
    simp only [HashedMemories.runThread] at hrun
    split at hrun
    · obtain rfl := Option.some.inj hrun
      exact ⟨rfl, rfl, rfl, rfl⟩
    · obtain rfl := Option.some.inj hrun
      exact ⟨rfl, rfl, rfl, rfl⟩
  | compare =>
    simp only [HashedMemories.runThread, Option.some.injEq] at hrun
    subst hrun
    split
    · exact ⟨rfl, rfl, rfl, rfl⟩
    · exact ⟨rfl, rfl, rfl, rfl⟩

theorem HashedMemories.sameMemories_callback (s : HashedMemories) (reply : ShcReply)
    (answer : Answer) : s.SameMemories (s.callback reply answer) := by
  unfold HashedMemories.callback
  split
  · split
    · exact ⟨rfl, rfl, rfl, rfl⟩
    · exact ⟨rfl, rfl, rfl, rfl⟩
  · split
    · exact ⟨rfl, rfl, rfl, rfl⟩
    · exact ⟨rfl, rfl, rfl, rfl⟩
  · exact ⟨rfl, rfl, rfl, rfl⟩

theorem HashedMemories.Carried.doSimpleRequest (h : s.Carried last) (hmem : memory ∈ s.memories)
    (hseen : ∀ select, request = .select select → ∀ tableName other,
      (tableName, other) ∈ select.seen → Behind time (last tableName other.key) other) :
    (s.doSimpleRequest memory request).Carried last := by
  refine { h with requests := fun id other hother => ?_, seen := fun id select hselect => ?_ }
  · rcases List.mem_cons.mp hother with heq | hother
    · exact ⟨memory, hmem, (Prod.mk.inj heq).1.symm⟩
    · exact h.requests id other hother
  · rcases List.mem_cons.mp hselect with heq | hselect
    · exact hseen select (Prod.mk.inj heq).2.symm
    · exact h.seen id select hselect

theorem HashedMemories.Carried.spawn (h : s.Carried last) (thread : JournalThread) :
    (s.spawn thread).Carried last := { h with }

theorem HashedMemories.Carried.addShcMemory (h : s.Carried last) (id : Int32) :
    (s.addShcMemory id).Carried last := by
  unfold HashedMemories.addShcMemory
  split
  · exact h
  · rename_i memory hfound
    split
    · exact h
    · split
      · exact h
      · have hadded : ({ s with memoriesAddedShc := s.memoriesAddedShc ++ [memory] } :
            HashedMemories).Carried last := by
          refine { h with added := fun other hother => ?_ }
          rcases List.mem_append.mp hother with hother | hother
          · exact h.added other hother
          · rw [List.mem_singleton.mp hother]
            exact (mem_of_getMemoryById hfound).1
        dsimp only
        split
        · exact hadded.spawn .wait
        · exact hadded

theorem HashedMemories.Carried.execRemote (h : s.Carried last) (key : UInt16)
    (hseen : ∀ select, request = .select select → ∀ tableName other,
      (tableName, other) ∈ select.seen → Behind time (last tableName other.key) other) :
    (s.execRemote key request).Carried last := by
  unfold HashedMemories.execRemote
  split
  · rename_i memory hfound
    exact h.doSimpleRequest (h.added memory (mem_of_getAnyShcMemory hfound)) hseen
  · exact h

theorem HashedMemories.Carried.runThread (h : s.Carried last) {thread : JournalThread}
    (hrun : s.runThread thread = some s') : s'.Carried last := by
  cases thread with
  | wait =>
    simp only [HashedMemories.runThread] at hrun
    split at hrun
    · exact absurd hrun (by simp)
    · obtain rfl := Option.some.inj hrun
      simp only [HashedMemories.journaling]
      split
      · exact { h with }
      · exact { h with }
  | send i =>
    simp only [HashedMemories.runThread] at hrun
    split at hrun
    · rename_i memory hmemory
      obtain rfl := Option.some.inj hrun
      have hmem := h.added memory (List.mem_of_getElem? hmemory)
      exact (h.doSimpleRequest hmem fun _ heq => absurd heq (by simp)).spawn (.send (i + 1))
    · obtain rfl := Option.some.inj hrun
      exact h
  | compare =>
    simp only [HashedMemories.runThread, Option.some.injEq] at hrun
    subst hrun
    split
    · exact { h with }
    · exact h

theorem HashedMemories.Carried.callback (h : s.Carried last) (hreply : reply.Current last)
    {answer : Answer} (hanswer : answer ∈ reply.answers) :
    (s.callback reply answer).Carried last := by
  unfold HashedMemories.callback
  unfold ShcReply.Current at hreply
  cases hrequest : reply.request with
  | insert input =>
    simp only [hrequest] at hreply ⊢
    split
    · rename_i hsuccess
      refine { h with acknowledged := fun tableName record hmem => ?_ }
      rcases List.mem_cons.mp hmem with heq | hmem
      · obtain ⟨rfl, rfl⟩ := Prod.mk.inj heq
        exact hreply answer hanswer hsuccess
      · exact h.acknowledged tableName record hmem
    · exact h
  | select request =>
    simp only [hrequest] at hreply ⊢
    split
    · rename_i record hrecord
      refine { h with answered := fun select answered hmem => ?_ }
      rcases List.mem_cons.mp hmem with heq | hmem
      · obtain ⟨rfl, rfl⟩ := Prod.mk.inj heq
        exact hreply answer hanswer answered hrecord
      · exact h.answered select answered hmem
    · exact h
  | journal => exact { h with }

/-! ## Steps of a memory -/

/-- A memory serves a request. -/
theorem HashedMemories.Carried.serve (h : s.Carried last)
    (hreply : ShcReply.Current last ⟨request, record, answers⟩) :
    ({ s.back id after with
      requests := s.requests.erase (id, request)
      replies := ⟨request, record, answers⟩ :: s.replies } : HashedMemories).Carried last := by
  refine { h with
    requests := fun id other hother => h.requests id other (List.mem_of_mem_erase hother)
    seen := fun id select hselect => h.seen id select (List.mem_of_mem_erase hselect)
    replies := fun other hother => ?_ }
  rcases List.mem_cons.mp hother with rfl | hother
  · exact hreply
  · exact h.replies other hother

/-- A record is written that is later than all others. -/
theorem HashedMemories.Carried.set (h : s.Carried last) (tableName : Bytes) (record : Record)
    (hlater : ∀ old, last tableName record.key = some old → time old < time record) :
    s.Carried (last.set tableName record) := by
  refine ⟨h.added, h.requests, fun id select hselect other found hfound => ?_,
    fun reply hreply => ?_, fun other found hfound =>
    (h.acknowledged other found hfound).set hlater, h.answered⟩
  · exact (h.seen id select hselect other found hfound).set hlater
  · have hcurrent := h.replies reply hreply
    unfold ShcReply.Current at hcurrent ⊢
    split at hcurrent
    · intro answer hanswer hsuccess
      exact (hcurrent answer hanswer hsuccess).set hlater
    · exact hcurrent
    · trivial

/-- A memory serves an INSERT while no other one has a page of its key. -/
theorem HashedMemories.Inv.insert_serve (hcached : s.Cached views last)
    (hcarried : s.Carried last) (hmem : memory ∈ s.memories) {input : InsertInput}
    {exchange : Exchange} (hallows : s.Allows (.serve memory.id (.insert input) exchange))
    (howns : s.Owns (.serve memory.id (.insert input) exchange))
    (hserve : (s.front memory.id).serve (ShcRequest.op exchange (.insert input)) =
      some (after, answers)) :
    ({ s.back memory.id after with
      requests := s.requests.erase (memory.id, .insert input)
      replies := ⟨.insert input,
        writtenRecord (s.node memory.id) exchange.now exchange.later input, answers⟩ ::
          s.replies } : HashedMemories).Inv := by
  obtain ⟨views', last', hcached', hwritten⟩ :=
    hcached.insert_serve hmem hallows.1 hallows.2 howns hserve
  -- whatever says that it was written says 0
  have hanswers : ∀ {last : Last},
      (.int 0 ∈ answers → Behind time (last (toUppercase input.tableName.bytes) input.key)
        (writtenRecord (s.node memory.id) exchange.now exchange.later input)) →
      ShcReply.Current last ⟨.insert input,
        writtenRecord (s.node memory.id) exchange.now exchange.later input, answers⟩ := by
    intro last hbehind answer hanswer hsuccess
    exact hbehind (Front.insert_answers hserve hanswer hsuccess ▸ hanswer)
  rcases hwritten with ⟨rfl, hnone⟩ | ⟨rfl, hlater⟩
  · refine ⟨views', last', hcached'.same ⟨rfl, rfl, rfl, rfl⟩,
      hcarried.serve (hanswers fun hmem => ?_)⟩
    exact absurd hmem hnone
  · -- all that was there before is older than the clock
    have hcarried' := hcarried.set (toUppercase input.tableName.bytes)
      (writtenRecord (s.node memory.id) exchange.now exchange.later input)
      fun old hold => (hcached.plain hold).2.before.trans_lt hlater
    refine ⟨views', _, hcached'.same ⟨rfl, rfl, rfl, rfl⟩,
      hcarried'.serve (hanswers fun _ => ?_)⟩
    exact ⟨_, if_pos ⟨rfl, rfl⟩, Or.inr rfl⟩

/-- **One step** that the world allows and that an owner takes. -/
theorem HashedMemories.Inv.step (h : s.Inv) {action : HashedMemories.Action}
    (hallows : s.Allows action) (howns : s.Owns action)
    (hstep : s.step action = some s') : s'.Inv := by
  obtain ⟨views, last, hcached, hcarried⟩ := h
  cases action with
  | add id =>
    obtain rfl := Option.some.inj hstep
    exact ⟨views, last, hcached.same (s.sameMemories_addShcMemory id), hcarried.addShcMemory id⟩
  | insert input =>
    obtain rfl := Option.some.inj hstep
    exact ⟨views, last, hcached.same (s.sameMemories_execRemote _ _),
      hcarried.execRemote input.key fun _ heq => absurd heq (by simp)⟩
  | select input =>
    obtain rfl := Option.some.inj hstep
    refine ⟨views, last, hcached.same (s.sameMemories_execRemote _ _),
      hcarried.execRemote input.key fun select heq => ?_⟩
    obtain rfl := ShcRequest.select.inj heq
    exact hcarried.acknowledged
  | run thread =>
    simp only [HashedMemories.step] at hstep
    split at hstep
    · have hremoved : ({ s with threads := s.threads.erase thread } : HashedMemories).Carried
          last := { hcarried with }
      have hsame := HashedMemories.sameMemories_runThread hstep
      exact ⟨views, last, hcached.same ⟨hsame.memories, hsame.node, hsame.stored, hsame.clock⟩,
        hremoved.runThread hstep⟩
    · exact absurd hstep (by simp)
  | serve id request exchange =>
    simp only [HashedMemories.step] at hstep
    split at hstep
    · rename_i hrequest
      obtain ⟨⟨after, answers⟩, hserve, rfl⟩ := Option.map_eq_some_iff.mp hstep
      obtain ⟨memory, hmem, rfl⟩ := hcarried.requests _ _ hrequest
      cases request with
      | insert input =>
        exact HashedMemories.Inv.insert_serve hcached hcarried hmem hallows howns hserve
      | select select =>
        obtain ⟨⟨views', hcached'⟩, hcurrent⟩ := hcached.select_serve hmem hallows.1 howns hserve
        refine ⟨views', last, hcached'.same ⟨rfl, rfl, rfl, rfl⟩, hcarried.serve ?_⟩
        intro answer hanswer answered hanswered
        exact ShcSelect.answeredFresh (hcarried.seen _ _ hrequest) hcurrent hanswer hanswered
      | journal =>
        obtain ⟨views', hcached'⟩ := hcached.journal_serve hmem hallows.1 hserve
        exact ⟨views', last, hcached'.same ⟨rfl, rfl, rfl, rfl⟩, hcarried.serve trivial⟩
    · exact absurd hstep (by simp)
  | autoJournal id outcome =>
    simp only [HashedMemories.step] at hstep
    split at hstep
    · rename_i hfound
      obtain ⟨memory, hfound⟩ := Option.isSome_iff_exists.mp hfound
      obtain ⟨hmem, rfl⟩ := mem_of_getMemoryById hfound
      obtain ⟨⟨after, answers⟩, hserve, rfl⟩ := Option.map_eq_some_iff.mp hstep
      obtain ⟨views', hcached'⟩ := hcached.journal_serve hmem hallows hserve
      exact ⟨views', last, hcached', { hcarried with }⟩
    · exact absurd hstep (by simp)
  | answer reply answer =>
    simp only [HashedMemories.step] at hstep
    split at hstep
    · rename_i hreply
      obtain rfl := Option.some.inj hstep
      have hremoved : ({ s with replies := s.replies.erase reply } : HashedMemories).Carried last :=
        { hcarried with
          replies := fun other hother => hcarried.replies other (List.mem_of_mem_erase hother) }
      have hsame := HashedMemories.sameMemories_callback { s with replies := s.replies.erase reply }
        reply answer
      exact ⟨views, last, hcached.same ⟨hsame.memories, hsame.node, hsame.stored, hsame.clock⟩,
        hremoved.callback (hcarried.replies reply hreply.1) hreply.2⟩
    · exact absurd hstep (by simp)

/-! ## Runs -/

theorem HashedMemories.Start.inv (h : s.Start) : s.Inv := by
  have hholds : ∀ tableName, ∀ record ∈ s.stored tableName, s.Holds record := by
    intro tableName record hrecord
    obtain ⟨⟨hne, hsemicolon⟩, hfits, hbefore⟩ := h.stored tableName record hrecord
    exact ⟨⟨hne, hsemicolon⟩, hfits, hbefore⟩
  have hempty : ∀ memory ∈ s.memories,
      (s.node memory.id).segmentList = [] ∧ WellFormed (s.node memory.id) := by
    intro memory hmem
    obtain ⟨allocated, value, now, hnode⟩ := h.node memory hmem
    exact ⟨segmentList_getValueCallback hnode, wellFormed_getValueCallback hnode⟩
  refine ⟨fun _ => View.empty, fun tableName key => newest (ofKey key (s.stored tableName)), ?_, ?_⟩
  · refine ⟨fun memory hmem => (hempty memory hmem).2, fun memory hmem =>
      shows_empty (hempty memory hmem).1, fun _ _ => rfl, fun tableName key => coherentCaches_start,
      fun hlast => ?_, hholds⟩
    obtain ⟨hrecord, hkey⟩ := mem_ofKey.mp (List.argmax_mem hlast)
    exact ⟨hkey, hholds _ _ hrecord⟩
  · refine ⟨?_, ?_, ?_, ?_, ?_, ?_⟩
    · rw [h.memoriesAddedShc]
      exact fun _ hmem => absurd hmem List.not_mem_nil
    · rw [h.requests]
      exact fun _ _ hmem => absurd hmem List.not_mem_nil
    · rw [h.requests]
      exact fun _ _ hmem => absurd hmem List.not_mem_nil
    · rw [h.replies]
      exact fun _ hmem => absurd hmem List.not_mem_nil
    · rw [h.acknowledged]
      exact fun _ _ hmem => absurd hmem List.not_mem_nil
    · intro request record hmem
      rw [h.answered] at hmem
      exact absurd hmem List.not_mem_nil

/-- The states after steps of owners. -/
abbrev OwnersRun (start s : HashedMemories) : Prop :=
  Run HashedMemories.step (fun s action _ => s.Allows action ∧ s.Owns action) start s

/-- **Strong hash consistency.**  Where memories serve the keys that they own, every SELECT sent
after an INSERT of its key was acknowledged is answered with its value or a newer one. -/
theorem shc_select_fresh (hstart : start.Start) (hrun : OwnersRun start s) : s.AnswersFresh := by
  have hinv : s.Inv := by
    apply Run.invariant hrun hstart.inv
    intro s action s' hinv hstep ⟨hallows, howns⟩
    exact hinv.step hallows howns hstep
  obtain ⟨views, last, -, hcarried⟩ := hinv
  exact hcarried.answered

end Messages

/-! ## Runs -/

def knownMemory (id : Int32) : MemoryT := ⟨id, .ofBytes [], 0, true, 0⟩

/-- Two memories of two pages in front of a filesystem with a first value. -/
def hashedStart : Option HashedMemories :=
  (getValueCallback (List.replicate 50 7) 2 firstClock).map fun node =>
    ⟨[knownMemory 1, knownMemory 2], [], 1, 0, 0, 0, [], [], [], fun _ => node, firstStored, 10,
      [], []⟩

/-- What the filesystem answers to a miss, and a journal. -/
def exchanged (result : Option RecordT) (outcome : JournalOutcome) : Exchange :=
  ⟨11, 12, result, 0, true, outcome⟩

/-- The first memory is assigned, an INSERT is acknowledged, and the second one is assigned. -/
def assignedActions : List HashedMemories.Action :=
  [.add 1, .insert (shortInsert 1), .serve 1 (.insert (shortInsert 1)) (exchanged none noJournal),
    .answer ⟨.insert (shortInsert 1), ⟨11, 1, [97]⟩, [.int 0]⟩ (.int 0), .add 2]

/-- A SELECT of the key after that. -/
def movedSelect : ShcSelect := ⟨selectFirst, [([84], ⟨11, 1, [97]⟩)]⟩

/-- The second memory serves it, and the filesystem answers with a record. -/
def movedActions (timestamp : Int64) (value : CString) : List HashedMemories.Action :=
  let answer : Answer := .record ⟨[84], timestamp, 1, value.bytes, nada⟩
  [.select selectFirst, .serve 2 (.select movedSelect)
      (exchanged (some ⟨.ofBytes [84], timestamp, 1, value, none⟩) noJournal),
    .answer ⟨.select movedSelect, ⟨0, 0, []⟩, [answer]⟩ answer]

/-- Both memories journal. -/
def journalingActions : List HashedMemories.Action :=
  let reply : ShcReply := ⟨.journal, ⟨0, 0, []⟩, [.int 0]⟩
  [.run .wait, .run (.send 0), .run (.send 1), .run (.send 2),
    .serve 1 .journal (exchanged none ⟨some 0, [([84], ⟨11, 1, [97]⟩)]⟩),
    .serve 2 .journal (exchanged none ⟨some 0, []⟩), .answer reply (.int 0), .run .compare,
    .answer reply (.int 0), .run .compare]

def journaledMemories : Option HashedMemories :=
  hashedStart >>= fun start =>
    runSteps HashedMemories.step (fun s action _ => s.Allows action ∧ s.Owns action) start
      (assignedActions ++ journalingActions ++ movedActions 11 (.ofBytes [97]))

theorem hashedStart_start {s : HashedMemories} (h : hashedStart = some s) : s.Start := by
  obtain ⟨node, hnode, rfl⟩ := Option.map_eq_some_iff.mp h
  refine ⟨fun _ _ => ⟨_, _, _, hnode⟩, fun tableName record hmem => ?_,
    rfl, rfl, rfl, rfl, rfl, rfl, rfl⟩
  have hplain := (firstFront_start (s := ⟨node, firstStored, 10, fun tableName key =>
    (newest (ofKey key (firstStored tableName))).map Record.value⟩)
    (by rw [firstFront, hnode]; rfl)).plain tableName record hmem
  exact ⟨hplain.1, fun _ _ => hplain.2.1, hplain.2.2⟩

theorem shc_select_fresh_journaled :
    ∃ start s : HashedMemories, start.Start ∧ OwnersRun start s ∧
      (movedSelect, ⟨[84], 11, 1, [97], nada⟩) ∈ s.answered ∧ s.AnswersFresh := by
  have hrun : (journaledMemories.any fun s =>
      decide ((movedSelect, ⟨[84], 11, 1, [97], nada⟩) ∈ s.answered)) = true := by decide +kernel
  obtain ⟨s, hs, hanswered⟩ := Option.any_eq_true _ _ |>.mp hrun
  unfold journaledMemories at hs
  obtain ⟨start, hstart, hsteps⟩ := Option.bind_eq_some_iff.mp hs
  have hstart := hashedStart_start hstart
  have hrun : OwnersRun start s := run_of_runSteps hsteps
  exact ⟨start, s, hstart, hrun, of_decide_eq_true hanswered, shc_select_fresh hstart hrun⟩

/-- The journals are still to be sent when the second memory serves the SELECT. -/
def movedMemories : Option HashedMemories :=
  hashedStart >>= fun start =>
    runSteps HashedMemories.step (fun s action _ => s.Allows action) start
      (assignedActions ++ movedActions 5 (.ofBytes [120]))

/-- A SELECT sent after the INSERT was acknowledged is answered with the value before it. -/
theorem shc_select_stale :
    ∃ start s : HashedMemories, start.Start ∧
      Run HashedMemories.step (fun s action _ => s.Allows action) start s ∧ ¬s.AnswersFresh := by
  have hrun : (movedMemories.any fun s =>
      decide ((movedSelect, ⟨[84], 5, 1, [120], nada⟩) ∈ s.answered)) = true := by decide +kernel
  obtain ⟨s, hs, hanswered⟩ := Option.any_eq_true _ _ |>.mp hrun
  unfold movedMemories at hs
  obtain ⟨start, hstart, hsteps⟩ := Option.bind_eq_some_iff.mp hs
  refine ⟨start, s, hashedStart_start hstart, run_of_runSteps hsteps, fun hfresh => ?_⟩
  have hanswer := hfresh _ _ (of_decide_eq_true hanswered) ⟨11, 1, [97]⟩ List.mem_cons_self rfl
  exact absurd hanswer (by decide)

end Lissandra
