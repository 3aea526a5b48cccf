import Lissandra.CacheCoherence
import Lissandra.NodeAnswers

/-! # One memory node in front of the filesystem

Every operation of the kernel is executed with its exchange with the filesystem as one
step.  The filesystem stores the batches it acknowledges, and of the others whatever it
managed to; to a SELECT it answers with a record of greatest timestamp.  Whatever is
evicted, journaled or lost in between, a SELECT that is answered with a value is answered
with the value of the last INSERT that was acknowledged (`select_acknowledged`).
-/
namespace Lissandra

/-! ## The filesystem -/

/-- A journal at the filesystem: its answer, and the records it stored. -/
structure JournalOutcome where
  answer : Option Int32
  kept : List (Bytes × Record)
  deriving DecidableEq

/-- An acknowledged batch is stored, and one that fails may be stored in part. -/
def JournalOutcome.Of (outcome : JournalOutcome) (batch : List (Bytes × Record)) : Prop :=
  outcome.kept ⊆ batch ∧
    (outcome.answer = some 0 ∧ batch ⊆ outcome.kept ∨ outcome.answer = none ∨
      outcome.answer = some (-1))

instance (outcome : JournalOutcome) (batch : List (Bytes × Record)) :
    Decidable (outcome.Of batch) :=
  inferInstanceAs (Decidable (_ ∧ _))

/-- The answer to a SELECT is the first record of greatest timestamp, or timestamp -1. -/
def Stored.Answers (stored : Stored) (tableName : Bytes) (key : UInt16) (result : RecordT) : Prop :=
  match newest (ofKey key (stored tableName)) with
  | some record => toUppercase result.tableName.bytes = tableName ∧
      result.timestamp = record.timestamp ∧ result.key.toInt = key.toNat ∧
      result.value.bytes = record.value
  | none => result.timestamp = -1

instance (stored : Stored) (tableName : Bytes) (key : UInt16) (result : RecordT) :
    Decidable (stored.Answers tableName key result) := by
  unfold Stored.Answers
  split <;> infer_instance

/-! ## Operations with their exchanges -/

/-- A journal, from the batch to `journal_callback`. -/
def journalExchange (node : MemoryNode) (stored : Stored) (outcome : JournalOutcome)
    (register : Option JournalRegister) : Option (MemoryNode × Stored) := do
  let _ ← journalBatch node
  let node ← journalCallback node outcome.answer register
  some (node, stored.store outcome.kept)

/-- What follows a section. -/
def sectionExchange (node : MemoryNode) (stored : Stored) (outcome : JournalOutcome) :
    Option SectionEnd → Option (MemoryNode × Stored)
  | some (.journaling register) => journalExchange node stored outcome (some register)
  | ending => (runSection node ending).map (·, stored)

/-- The node, the filesystem behind it, the clock, and for each key of each table the value
of the last INSERT acknowledged with 0, or the first value. -/
structure Front where
  node : MemoryNode
  stored : Stored
  clock : Int64
  acknowledged : Bytes → UInt16 → Option Bytes

/-- Operations of the kernel, and the auto-journal, which waits for no answer. -/
inductive FrontOp where
  | insert (now later : Int64) (input : InsertInput) (id : Nat) (unassigned : Bool)
      (outcome : JournalOutcome)
  | select (input : SelectInput) (result : Option RecordT) (id : Nat) (unassigned : Bool)
      (outcome : JournalOutcome)
  | journal (id : Option Nat) (outcome : JournalOutcome)
  deriving DecidableEq

/-- An INSERT that is answered with 0 changes what was acknowledged. -/
def acknowledge (acknowledged : Bytes → UInt16 → Option Bytes) (input : InsertInput)
    (answers : List Answer) : Bytes → UInt16 → Option Bytes :=
  fun tableName key =>
    if .int 0 ∈ answers ∧ tableName = toUppercase input.tableName.bytes ∧ key = input.key then
      some input.value.bytes
    else acknowledged tableName key

/-- One operation, and the calls of `set_response` for it. -/
def Front.serve (s : Front) : FrontOp → Option (Front × List Answer)
  | .insert now later input id unassigned outcome => do
    let ending ← insertSection s.node now later input
    let late ← journalAnswers s.node id outcome.answer ending
    let (node, stored) ← sectionExchange s.node s.stored outcome ending
    let answers := processInsertAnswers unassigned ending ++ late
    some (⟨node, stored, later, acknowledge s.acknowledged input answers⟩, answers)
  | .select input result id unassigned outcome => do
    match ← processSelect s.node input with
    | .hit tableName found => some (s, [processSelectAnswer tableName found])
    | .miss =>
      let ending ← selectCallback s.node result
      let late ← journalAnswers s.node id outcome.answer ending
      let (node, stored) ← sectionExchange s.node s.stored outcome ending
      some ({ s with node, stored }, selectCallbackAnswers unassigned result ending ++ late)
  | .journal id outcome => do
    let (node, stored) ← journalExchange s.node s.stored outcome none
    some ({ s with node, stored },
      (id.map fun id : Nat => journalCallbackAnswers id outcome.answer none).getD [])

/-- The clock goes on, values can be told apart from separators, records fit, and the
filesystem does its part. -/
def Front.Allows (s : Front) : FrontOp → Prop
  | .insert now later input _ _ outcome =>
    s.clock.toInt < now.toInt ∧ now.toInt < later.toInt ∧
      (input.value.bytes ≠ [] ∧ semicolon ∉ input.value.bytes) ∧
      (NodeOp.processInsert now later input).Fits s.node ∧
      outcome.Of ((journalBatch s.node).getD [])
  | .select input result _ _ outcome =>
    (∀ record ∈ result, s.stored.Answers (toUppercase input.tableName.bytes) input.key record) ∧
      outcome.Of ((journalBatch s.node).getD [])
  | .journal _ outcome => outcome.Of ((journalBatch s.node).getD [])

instance (s : Front) (op : FrontOp) : Decidable (s.Allows op) := by
  unfold Front.Allows
  split <;> infer_instance

/-- A memory that was set up in front of a filesystem whose records it can hold. -/
structure Front.Start (s : Front) : Prop where
  node : ∃ allocated value now, getValueCallback allocated value now = some s.node
  plain : ∀ tableName, ∀ record ∈ s.stored tableName,
    (record.value ≠ [] ∧ semicolon ∉ record.value) ∧ Fits s.node.memory (convertToTkv record) ∧
      record.timestamp.toInt ≤ s.clock.toInt
  acknowledged : ∀ tableName key,
    s.acknowledged tableName key = (newest (ofKey key (s.stored tableName))).map Record.value

/-! ## Memory and filesystem together -/

/-- What holds between operations, where `view` is what the node shows and `last` what was
written last. -/
structure Front.Inv (s : Front) (view : View) (last : Last) : Prop where
  wellFormed : WellFormed s.node
  shows : Shows s.node view
  coherent : CoherentView s.stored last view
  acknowledged : ∀ tableName key, s.acknowledged tableName key =
    (last tableName key).map Record.value
  plain : ∀ {tableName key record}, last tableName key = some record →
    record.key = key ∧ Legible record.value ∧ Fits s.node.memory (convertToTkv record)
  before : ∀ tableName, ∀ record ∈ s.stored tableName, time record ≤ s.clock.toInt
  lastBefore : ∀ {tableName key record}, last tableName key = some record →
    time record ≤ s.clock.toInt

/-- What an operation leaves as it was: no copies come but those it `brings`, and nothing is
stored for keys without modified copies. -/
structure Front.Leaves (s s' : Front) (view view' : View)
    (brings : Bytes → UInt16 → Copy Record → Prop) : Prop where
  copies : ∀ {tableName key}, ∀ copy ∈ view'.of tableName key,
    copy ∈ view.of tableName key ∨ brings tableName key copy
  stored : ∀ {tableName key}, (∀ copy ∈ view.of tableName key, copy.modified = false) →
    ofKey key (s'.stored tableName) = ofKey key (s.stored tableName)
  plain : ∀ {tableName record}, record ∈ s'.stored tableName →
    record ∈ s.stored tableName ∨ ⟨record, true⟩ ∈ view tableName
  sizes : SameSizes s.node s'.node
  clock : s.clock.toInt ≤ s'.clock.toInt

section Serving
variable {s s' : Front} {view view' : View} {last : Last} {outcome : JournalOutcome}
  {tableName : Bytes} {key : UInt16} {record : Record} {node' : MemoryNode}
  {brings : Bytes → UInt16 → Copy Record → Prop}

theorem Fits.congr {text : Bytes} (h : Fits s.node.memory text) (hsizes : SameSizes s.node node') :
    Fits node'.memory text :=
  ⟨hsizes.totalPageCount ▸ h.1, hsizes.totalPageSize ▸ h.2⟩

/-- The first value comes to an empty memory. -/
theorem segmentList_getValueCallback {allocated : Bytes} {value now : Nat}
    (h : getValueCallback allocated value now = some node') : node'.segmentList = [] := by
  rw [getValueCallback] at h
  split at h
  · exact absurd h (by simp)
  · rw [← Option.some.inj h]

theorem Front.Start.inv (h : s.Start) :
    s.Inv View.empty fun tableName key => newest (ofKey key (s.stored tableName)) := by
  obtain ⟨⟨allocated, value, now, hnode⟩, hplain, hacknowledged⟩ := h
  have hlast : ∀ {tableName key record}, newest (ofKey key (s.stored tableName)) = some record →
      record ∈ s.stored tableName ∧ record.key = key :=
    fun h => mem_ofKey.mp (List.argmax_mem h)
  refine ⟨wellFormed_getValueCallback hnode, shows_empty (segmentList_getValueCallback hnode),
    coherentView_start s.stored,
    hacknowledged, fun h => ?_, fun tableName record hmem => (hplain tableName record hmem).2.2,
    fun h => (hplain _ _ (hlast h).1).2.2⟩
  obtain ⟨hmem, hkey⟩ := hlast h
  obtain ⟨⟨hne, hsemicolon⟩, hfits, -⟩ := hplain _ _ hmem
  exact ⟨hkey, ⟨hne, hsemicolon⟩, hfits⟩

/-- Another memory of the same sizes, with other copies of the same records. -/
theorem Front.Inv.move (h : s.Inv view last) (hsizes : SameSizes s.node node')
    (hwell : WellFormed node') {view' : View} (hshows : Shows node' view')
    (hcoherent : CoherentView s.stored last view') :
    ({ s with node := node' } : Front).Inv view' last :=
  ⟨hwell, hshows, hcoherent, h.acknowledged,
    fun hlast => ⟨(h.plain hlast).1, (h.plain hlast).2.1, (h.plain hlast).2.2.congr hsizes⟩,
    h.before, h.lastBefore⟩

/-- The batch of a journal has what was written last. -/
theorem Front.Inv.batch (h : s.Inv view last) :
    ∃ batch, journalBatch s.node = some batch ∧
      ∀ tableName record, (tableName, record) ∈ batch ↔ ⟨record, true⟩ ∈ view tableName :=
  h.shows.journalBatch h.wellFormed.named h.wellFormed.owns.nodup

/-- An operation that stores nothing. -/
theorem Front.Leaves.of_stored {acknowledged : Bytes → UInt16 → Option Bytes} {clock : Int64}
    (hview : ∀ {tableName key}, ∀ copy ∈ view'.of tableName key,
      copy ∈ view.of tableName key ∨ brings tableName key copy)
    (hsizes : SameSizes s.node node') (hclock : s.clock.toInt ≤ clock.toInt) :
    s.Leaves ⟨node', s.stored, clock, acknowledged⟩ view view' brings :=
  ⟨hview, fun _ => rfl, Or.inl, hsizes, hclock⟩

/-- A journal stores records of its batch. -/
theorem Front.Inv.leaves (h : s.Inv view last)
    (hkept : outcome.kept ⊆ (journalBatch s.node).getD [])
    {acknowledged : Bytes → UInt16 → Option Bytes} {clock : Int64}
    (hview : ∀ {tableName key}, ∀ copy ∈ view'.of tableName key,
      copy ∈ view.of tableName key ∨ brings tableName key copy)
    (hsizes : SameSizes s.node node') (hclock : s.clock.toInt ≤ clock.toInt) :
    s.Leaves ⟨node', s.stored.store outcome.kept, clock, acknowledged⟩ view view' brings := by
  obtain ⟨batch, hbatch, hmem⟩ := h.batch
  rw [hbatch, Option.getD_some] at hkept
  refine ⟨hview, fun {tableName key} hclean => ?_, fun {tableName record} hin => ?_, hsizes, hclock⟩
  · obtain ⟨late, hsplit, hlate⟩ := ofKey_store s.stored outcome.kept tableName key
    have hnone : late = [] := List.eq_nil_iff_forall_not_mem.mpr fun record hrecord => by
      obtain ⟨hin, hkey⟩ := hlate record hrecord
      have hcopy := View.mem_of.mpr ⟨(hmem _ _).mp (hkept hin), hkey⟩
      exact absurd (hclean _ hcopy) (by simp)
    rw [hsplit, hnone, List.append_nil]
  · exact (mem_store.mp hin).imp_right fun hin => (hmem _ _).mp (hkept hin)

/-- Some records of the batch reach the filesystem. -/
theorem Front.Inv.store (h : s.Inv view last)
    (hkept : outcome.kept ⊆ (journalBatch s.node).getD []) :
    ({ s with stored := s.stored.store outcome.kept } : Front).Inv view last := by
  obtain ⟨batch, hbatch, hmem⟩ := h.batch
  rw [hbatch, Option.getD_some] at hkept
  have hlast : ∀ tableName record, (tableName, record) ∈ outcome.kept →
      last tableName record.key = some record :=
    fun tableName record hin => h.coherent.of_modified ((hmem _ _).mp (hkept hin))
  refine ⟨h.wellFormed, h.shows, ?_, h.acknowledged, h.plain, fun tableName record hin => ?_,
    h.lastBefore⟩
  · exact h.coherent.store fun tableName record hin => ⟨record, hlast _ _ hin, Or.inr rfl⟩
  · rcases mem_store.mp hin with hin | hin
    · exact h.before tableName record hin
    · exact h.lastBefore (hlast _ _ hin)

/-- An INSERT that is later than all that was stored. -/
theorem Front.Inv.insert (h : s.Inv view last) (hsizes : SameSizes s.node node')
    (hwell : WellFormed node') {view' : View} (hshows : Shows node' view') {record : Record}
    (hcoherent : CoherentView s.stored (last.set tableName record) view')
    (hlegible : Legible record.value) (hfits : Fits s.node.memory (convertToTkv record))
    {clock : Int64} (hclock : s.clock.toInt ≤ clock.toInt) (hrecord : time record ≤ clock.toInt)
    {acknowledged : Bytes → UInt16 → Option Bytes}
    (hacknowledged : ∀ other key, acknowledged other key =
      ((last.set tableName record) other key).map Record.value) :
    (⟨node', s.stored, clock, acknowledged⟩ : Front).Inv view' (last.set tableName record) := by
  have hset : ∀ {other key found}, last.set tableName record other key = some found →
      found = record ∧ key = record.key ∨ last other key = some found := by
    intro other key found hfound
    rw [Last.set] at hfound
    split at hfound
    · rename_i hkey
      exact Or.inl ⟨(Option.some.inj hfound).symm, hkey.2⟩
    · exact Or.inr hfound
  refine ⟨hwell, hshows, hcoherent, hacknowledged, fun hfound => ?_,
    fun tableName record hmem => (h.before tableName record hmem).trans hclock, fun hfound => ?_⟩
  · rcases hset hfound with ⟨rfl, rfl⟩ | hold
    · exact ⟨rfl, hlegible, hfits.congr hsizes⟩
    · exact ⟨(h.plain hold).1, (h.plain hold).2.1, (h.plain hold).2.2.congr hsizes⟩
  · rcases hset hfound with ⟨rfl, -⟩ | hold
    · exact hrecord
    · exact (h.lastBefore hold).trans hclock

/-! ## Journals -/

/-- The record that waited for a journal is the only one in memory after it. -/
theorem View.of_registerView {reg : JournalRegister} {other : Bytes} {otherKey : UInt16}
    {copy : Copy Record} (hmem : copy ∈ (registerView (some reg) key).of other otherKey) :
    (other = reg.tableName ∧ otherKey = key) ∧ copy =
      ⟨⟨reg.timestamp, key, reg.value.bytes⟩, reg.modified⟩ :=
  (View.of_add_cases hmem).resolve_left List.not_mem_nil

theorem Front.Inv.exchange_failure (h : s.Inv view last) (register : Option JournalRegister)
    (hfails : outcome.answer = none ∨ outcome.answer = some (-1)) :
    journalExchange s.node s.stored outcome register =
      some (s.node, s.stored.store outcome.kept) := by
  obtain ⟨batch, hbatch, -⟩ := h.batch
  rw [journalExchange, hbatch, journalCallback_failure register hfails]
  rfl

/-- A journal that succeeds leaves the record that waited for it, if any. -/
theorem Front.Inv.exchange_success (h : s.Inv view last) {register : Option JournalRegister}
    {key : UInt16} (hanswer : outcome.answer = some 0)
    (hstored : (journalBatch s.node).getD [] ⊆ outcome.kept)
    (hkept : outcome.kept ⊆ (journalBatch s.node).getD [])
    (hregister : ∀ reg ∈ register, reg.key = key.toNat ∧ toUppercase reg.tableName = reg.tableName ∧
      Legible reg.value.bytes ∧ Fits s.node.memory
      (memoryText reg.timestamp key.toNat reg.value.bytes)) :
    ∃ node', journalExchange s.node s.stored outcome register =
        some (node', s.stored.store outcome.kept) ∧
      WellFormed node' ∧ SameSizes s.node node' ∧ Shows node' (registerView register key) ∧
      CoherentView (s.stored.store outcome.kept) last View.empty := by
  obtain ⟨batch, hbatch, hmem⟩ := h.batch
  obtain ⟨node', hcallback, hwell, hsizes, hshows⟩ := h.wellFormed.journalCallback_success hregister
  refine ⟨node', ?_, hwell, hsizes, hshows, (h.store hkept).coherent.wipe
    fun tableName record hmodified => ?_⟩
  · rw [journalExchange, hbatch, hanswer, hcallback]
    rfl
  · rw [hbatch, Option.getD_some] at hstored
    exact mem_store.mpr (Or.inr (hstored ((hmem _ _).mpr hmodified)))

/-! ## INSERT -/

/-- A page that is listed after the section asks for no journal. -/
theorem NewPage.sectionExchange {copy : Copy Record} {written listed : MemoryNode}
    {listing : Listing} (h : NewPage s.node view tableName copy written listing listed view') :
    sectionExchange s.node s.stored outcome (some (.listing written listing)) =
      some (listed, s.stored) :=
  congrArg (Option.map (·, s.stored)) h.listAdd

theorem acknowledge_of_mem (h : s.Inv view last) {input : InsertInput} {answers : List Answer}
    (hmem : .int 0 ∈ answers) (timestamp : Int64) (other : Bytes) (key : UInt16) :
    acknowledge s.acknowledged input answers other key =
      ((last.set (toUppercase input.tableName.bytes) ⟨timestamp, input.key, input.value.bytes⟩)
        other key).map Record.value := by
  rw [acknowledge, Last.set]
  by_cases hkey : other = toUppercase input.tableName.bytes ∧ key = input.key
  · rw [if_pos ⟨hmem, hkey⟩, if_pos hkey]
    rfl
  · rw [if_neg fun hall => hkey hall.2, if_neg hkey]
    exact h.acknowledged other key

theorem acknowledge_of_not_mem {input : InsertInput} {answers : List Answer}
    (hmem : .int 0 ∉ answers) : acknowledge s.acknowledged input answers = s.acknowledged := by
  funext tableName key
  exact if_neg fun hall => hmem hall.1

/-- The clock goes on. -/
theorem Front.Inv.tick (h : s.Inv view last) {clock : Int64}
    (hclock : s.clock.toInt ≤ clock.toInt) : ({ s with clock } : Front).Inv view last :=
  ⟨h.wellFormed, h.shows, h.coherent, h.acknowledged, h.plain,
    fun tableName record hmem => (h.before tableName record hmem).trans hclock,
    fun hlast => (h.lastBefore hlast).trans hclock⟩

/-- An INSERT whose section has ended. -/
theorem Front.serve_insert {now later : Int64} {input : InsertInput} {id : Nat} {unassigned : Bool}
    {answers late : List Answer} {ending : Option SectionEnd} {stored' : Stored}
    (hsection : insertSection s.node now later input = some ending)
    (hlate : journalAnswers s.node id outcome.answer ending = some late)
    (hexchange : sectionExchange s.node s.stored outcome ending = some (node', stored'))
    (hserve : s.serve (.insert now later input id unassigned outcome) = some (s', answers)) :
    answers = processInsertAnswers unassigned ending ++ late ∧
      s' = ⟨node', stored', later, acknowledge s.acknowledged input answers⟩ := by
  simp only [Front.serve, hsection, hlate, hexchange, Option.bind_eq_bind, Option.bind_some,
    Option.some.injEq, Prod.mk.injEq] at hserve
  obtain ⟨rfl, rfl⟩ := hserve
  exact ⟨rfl, rfl⟩

/-- Nothing can be evicted, and the record of the INSERT waits for a journal. -/
theorem Front.Inv.insert_journaled (h : s.Inv view last) {now later : Int64} {input : InsertInput}
    {id : Nat} {unassigned : Bool} {answers : List Answer}
    (hallows : s.Allows (.insert now later input id unassigned outcome))
    (hsection : insertSection s.node now later input = some (some (.journaling
      ⟨toUppercase input.tableName.bytes, now, input.key.toNat, input.value, true⟩)))
    (hserve : s.serve (.insert now later input id unassigned outcome) = some (s', answers)) :
    ∃ view' last', s'.Inv view' last' ∧
      s.Leaves s' view view'
        (fun other key _ => other = toUppercase input.tableName.bytes ∧ key = input.key) ∧
      (last' = last ∧ .int 0 ∉ answers ∨
        last' = last.set (toUppercase input.tableName.bytes) ⟨now, input.key, input.value.bytes⟩ ∧
          s.clock.toInt < now.toInt) := by
  obtain ⟨hnow, hlater, hlegible, hfits, hkept, houtcome⟩ := hallows
  have hclock : s.clock.toInt ≤ later.toInt := (hnow.trans hlater).le
  have hid : (id : Int) ≠ -1337 := by omega
  obtain ⟨batch, hbatch, -⟩ := h.batch
  have hlate : journalAnswers s.node id outcome.answer (some (.journaling
      ⟨toUppercase input.tableName.bytes, now, input.key.toNat, input.value, true⟩)) =
        some (journalCallbackAnswers id outcome.answer (some
          ⟨toUppercase input.tableName.bytes, now, input.key.toNat, input.value, true⟩)) := by
    rw [journalAnswers, hbatch, Option.map_some]
  have hstore := h.store hkept
  rcases houtcome with ⟨hanswer, hstored⟩ | hfails
  · -- The success empties the memory, and the record gets the first page.
    have hregister : ∀ reg ∈ some (⟨toUppercase input.tableName.bytes, now, input.key.toNat,
        input.value, true⟩ : JournalRegister), reg.key = input.key.toNat ∧
        toUppercase reg.tableName = reg.tableName ∧ Legible reg.value.bytes ∧
        Fits s.node.memory (memoryText reg.timestamp input.key.toNat reg.value.bytes) := by
      intro reg hreg
      obtain rfl := Option.some.inj hreg
      exact ⟨rfl, toUppercase_toUppercase _, ⟨hlegible.1, hlegible.2⟩, hfits.1⟩
    have hfitsNow : Fits s.node.memory (convertToTkv ⟨now, input.key, input.value.bytes⟩) := by
      have hfirst : Fits s.node.memory (memoryText now input.key.toNat input.value.bytes) := hfits.1
      rwa [memoryText_eq] at hfirst
    obtain ⟨node', hexchange, hwell, hsizes, hshows', hwiped⟩ :=
      h.exchange_success hanswer hstored hkept hregister
    obtain ⟨rfl, rfl⟩ := Front.serve_insert hsection hlate hexchange hserve
    have hcoherent := @CoherentView.write_new _ _ _ (toUppercase input.tableName.bytes)
      ⟨now, input.key, input.value.bytes⟩ hwiped View.of_empty fun other hmem =>
        (hstore.before _ other (mem_ofKey.mp hmem).1).trans_lt hnow
    refine ⟨_, _, hstore.insert hsizes hwell hshows' hcoherent ⟨hlegible.1, hlegible.2⟩ hfitsNow
      hclock hlater.le (acknowledge_of_mem h ?_ now), h.leaves hkept (fun copy hmem => ?_) hsizes
      hclock, Or.inr ⟨rfl, hnow⟩⟩
    · simp [processInsertAnswers, journalCallbackAnswers, hanswer, hid]
    · exact Or.inr (View.of_registerView hmem).1
  · have hexchange := h.exchange_failure (some ⟨toUppercase input.tableName.bytes, now,
      input.key.toNat, input.value, true⟩) hfails
    obtain ⟨rfl, rfl⟩ := Front.serve_insert hsection hlate hexchange hserve
    have hanswers : .int 0 ∉ processInsertAnswers unassigned (some (.journaling
        ⟨toUppercase input.tableName.bytes, now, input.key.toNat, input.value, true⟩)) ++
          journalCallbackAnswers id outcome.answer (some ⟨toUppercase input.tableName.bytes, now,
            input.key.toNat, input.value, true⟩) := by
      simp [processInsertAnswers, journalCallbackAnswers, hfails, hid]
    rw [acknowledge_of_not_mem hanswers]
    exact ⟨view, last, hstore.tick hclock, h.leaves hkept (fun _ hmem => Or.inl hmem)
      (SameSizes.refl _) hclock, Or.inl ⟨rfl, hanswers⟩⟩

/-- An INSERT that is answered with 0 writes its record, and another one nothing. -/
theorem Front.Inv.insert_step (h : s.Inv view last) {now later : Int64} {input : InsertInput}
    {id : Nat} {unassigned : Bool} {answers : List Answer}
    (hallows : s.Allows (.insert now later input id unassigned outcome))
    (hserve : s.serve (.insert now later input id unassigned outcome) = some (s', answers)) :
    ∃ view' last', s'.Inv view' last' ∧
      s.Leaves s' view view'
        (fun other key _ => other = toUppercase input.tableName.bytes ∧ key = input.key) ∧
      (last' = last ∧ .int 0 ∉ answers ∨
        last' = last.set (toUppercase input.tableName.bytes)
        (writtenRecord s.node now later input) ∧
          s.clock.toInt < time (writtenRecord s.node now later input)) := by
  have ⟨hnow, hlater, ⟨hne, hsemicolon⟩, hfits, _, _⟩ := hallows
  have hlegible : Legible input.value.bytes := ⟨hne, hsemicolon⟩
  have hstoredNow : ∀ tableName, ∀ other ∈ ofKey input.key (s.stored tableName),
      time other < now.toInt := fun tableName other hmem =>
    (h.before tableName other (mem_ofKey.mp hmem).1).trans_lt hnow
  have hfitsNow : Fits s.node.memory (convertToTkv ⟨now, input.key, input.value.bytes⟩) := by
    have hfirst : Fits s.node.memory (memoryText now input.key.toNat input.value.bytes) := hfits.1
    rwa [memoryText_eq] at hfirst
  have hfitsLater : Fits s.node.memory (convertToTkv ⟨later, input.key, input.value.bytes⟩) := by
    have hsecond : Fits s.node.memory (memoryText later input.key.toNat input.value.bytes) :=
      hfits.2
    rwa [memoryText_eq] at hsecond
  have hclock : s.clock.toInt ≤ later.toInt := (hnow.trans hlater).le
  rcases h.wellFormed.insertSection_shows h.shows hlegible hfits with hsection |
    ⟨node', view', hsection, hwell, hsizes, hwrites, hshows'⟩ |
    ⟨hmiss, hsection | ⟨written, listing, listed, view₁, hnew, hsection⟩⟩
  · -- The value is too long.
    obtain ⟨rfl, rfl⟩ := Front.serve_insert hsection rfl rfl hserve
    have hanswers : .int 0 ∉ processInsertAnswers unassigned none ++ [] := by
      rw [processInsertAnswers]
      split <;> simp
    rw [acknowledge_of_not_mem hanswers]
    exact ⟨view, last, h.tick hclock, .of_stored (fun _ hmem => Or.inl hmem) (SameSizes.refl _)
      hclock, Or.inl ⟨rfl, hanswers⟩⟩
  · -- The page of the key is written over.
    obtain ⟨rfl, rfl⟩ := Front.serve_insert hsection rfl rfl hserve
    rw [h.shows.writtenRecord_of_hit now later hwrites.of_ne_nil]
    have hcoherent := h.coherent.write hwrites fun other hmem =>
      (hstoredNow _ other hmem).trans hlater
    refine ⟨view', _, h.insert hsizes hwell hshows' hcoherent hlegible hfitsLater hclock le_rfl
      (acknowledge_of_mem h (by simp [processInsertAnswers]) later),
      .of_stored (fun copy hmem => ?_) hsizes hclock, Or.inr ⟨rfl, hnow.trans hlater⟩⟩
    rw [hwrites.of] at hmem
    split at hmem
    · rename_i hkey
      exact Or.inr hkey
    · exact Or.inl hmem
  · rw [h.shows.writtenRecord_of_miss now later hmiss]
    exact h.insert_journaled hallows hsection hserve
  · -- The record gets a page of its own.
    have hcoherent := @CoherentView.write_new _ _ _ (toUppercase input.tableName.bytes)
      ⟨now, input.key, input.value.bytes⟩ (h.coherent.evicts hnew.evicts)
      (View.of_eq_nil hnew.evicts hmiss) (hstoredNow _)
    have hinv : ∀ answers : List Answer, .int 0 ∈ answers → _ := fun answers hmem =>
      h.insert hnew.sizes hnew.wellFormed hnew.shows hcoherent hlegible hfitsNow hclock hlater.le
        (acknowledge_of_mem h hmem now)
    have hleaves : ∀ acknowledged, s.Leaves ⟨listed, s.stored, later, acknowledged⟩ view
        (view₁.add (toUppercase input.tableName.bytes) ⟨⟨now, input.key, input.value.bytes⟩, true⟩)
        fun other key _ => other = toUppercase input.tableName.bytes ∧ key = input.key :=
      fun acknowledged => .of_stored (fun copy hmem => (View.of_add_cases hmem).imp
        (View.of_evicts hnew.evicts) And.left) hnew.sizes hclock
    rw [h.shows.writtenRecord_of_miss now later hmiss]
    -- It is listed after the section, or was listed in it.
    rcases hsection with hsection | hsection
    · obtain ⟨rfl, rfl⟩ := Front.serve_insert hsection rfl hnew.sectionExchange hserve
      exact ⟨_, _, hinv _ (by simp [processInsertAnswers]), hleaves _, Or.inr ⟨rfl, hnow⟩⟩
    · obtain ⟨rfl, rfl⟩ := Front.serve_insert hsection rfl rfl hserve
      exact ⟨_, _, hinv _ (by simp [processInsertAnswers]), hleaves _, Or.inr ⟨rfl, hnow⟩⟩

/-! ## SELECT -/

/-- The timestamp of a record that was found. -/
def IsValue (timestamp : Int64) : Prop := timestamp ≠ -1 ∧ timestamp ≠ -2 ∧ timestamp ≠ -3

instance (timestamp : Int64) : Decidable (IsValue timestamp) := inferInstanceAs (Decidable (_ ∧ _))

/-- What a SELECT may be answered with: the record that was written last, timestamp -1 if
there is none, or timestamp -3 after a network failure. -/
def AnswersCurrent (current : Option Record) (answers : List Answer) : Prop :=
  ∀ answered, .record answered ∈ answers →
    (∃ record, current = some record ∧ answered.timestamp = record.timestamp ∧
      answered.value = record.value) ∨
    current = none ∧ answered.timestamp = -1 ∨ answered.timestamp = -3

/-- The filesystem answers a miss with what was written last. -/
theorem Front.Inv.answers (h : s.Inv view last) (hmiss : view.of tableName key = [])
    {result : RecordT} (hanswers : s.stored.Answers tableName key result) :
    last tableName key = none ∧ result.timestamp = -1 ∨
      toUppercase result.tableName.bytes = tableName ∧ result.key.toInt = key.toNat ∧
        last tableName key = some ⟨result.timestamp, key, result.value.bytes⟩ := by
  have hcoherent := h.coherent tableName key
  rw [hmiss] at hcoherent
  rw [Stored.Answers] at hanswers
  cases hnewest : newest (ofKey key (s.stored tableName)) with
  | none =>
    rw [hnewest] at hanswers
    exact Or.inl ⟨hcoherent.miss.symm.trans hnewest, hanswers⟩
  | some record =>
    rw [hnewest] at hanswers
    obtain ⟨htable, htimestamp, hkey, hvalue⟩ := hanswers
    have hlast : last tableName key = some record := hcoherent.miss.symm.trans hnewest
    have hrecord := (h.plain hlast).1
    refine Or.inr ⟨htable, hkey, ?_⟩
    rw [hlast, htimestamp, hvalue, ← hrecord]

/-- What the filesystem answered, as it comes to the kernel. -/
theorem Front.Inv.answersCurrent (h : s.Inv view last) (hmiss : view.of tableName key = [])
    {result : RecordT} (hanswers : s.stored.Answers tableName key result) :
    AnswersCurrent (last tableName key) [selectCallbackRecord (some result)] := by
  intro answered hmem
  rw [List.mem_singleton, selectCallbackRecord, Answer.record.injEq] at hmem
  rw [hmem]
  rcases h.answers hmiss hanswers with hnone | ⟨-, -, hlast⟩
  · exact Or.inr (Or.inl hnone)
  · exact Or.inl ⟨_, hlast, rfl, rfl⟩

/-- A SELECT that missed, and whose answer from the filesystem was processed. -/
theorem Front.Inv.serve_miss (h : s.Inv view last) {input : SelectInput} {result : Option RecordT}
    {id : Nat} {unassigned : Bool} {answers late : List Answer} {ending : Option SectionEnd}
    {stored' : Stored} (hmiss : view.of (toUppercase input.tableName.bytes) input.key = [])
    (hsection : selectCallback s.node result = some ending)
    (hlate : journalAnswers s.node id outcome.answer ending = some late)
    (hexchange : sectionExchange s.node s.stored outcome ending = some (node', stored'))
    (hserve : s.serve (.select input result id unassigned outcome) = some (s', answers)) :
    answers = selectCallbackAnswers unassigned result ending ++ late ∧
      s' = { s with node := node', stored := stored' } := by
  rw [Front.serve, h.shows.processSelect_eq, hmiss] at hserve
  simp only [List.head?_nil, hsection, hlate, hexchange, Option.bind_eq_bind, Option.bind_some,
    Option.some.injEq, Prod.mk.injEq] at hserve
  obtain ⟨rfl, rfl⟩ := hserve
  exact ⟨rfl, rfl⟩

/-- Nothing can be evicted, and the record of the SELECT waits for a journal. -/
theorem Front.Inv.select_journaled (h : s.Inv view last) {input : SelectInput} {result : RecordT}
    {id : Nat} {unassigned : Bool} {answers : List Answer}
    (hallows : s.Allows (.select input (some result) id unassigned outcome))
    (hmiss : view.of (toUppercase input.tableName.bytes) input.key = [])
    (hlast : last (toUppercase input.tableName.bytes) input.key =
      some ⟨result.timestamp, input.key, result.value.bytes⟩)
    (hsection : selectCallback s.node (some result) = some (some (.journaling
      ⟨toUppercase input.tableName.bytes, result.timestamp, input.key.toNat, result.value, false⟩)))
    (hserve : s.serve (.select input (some result) id unassigned outcome) = some (s', answers)) :
    ∃ view', s'.Inv view' last ∧
      s.Leaves s' view view' (fun other key copy =>
        (other = toUppercase input.tableName.bytes ∧ key = input.key) ∧ copy.modified = false) ∧
      AnswersCurrent (last (toUppercase input.tableName.bytes) input.key) answers := by
  obtain ⟨-, hkept, houtcome⟩ := hallows
  have hid : (id : Int) ≠ -1337 := by omega
  obtain ⟨-, hlegible, hfits⟩ := h.plain hlast
  obtain ⟨batch, hbatch, -⟩ := h.batch
  have hlate : journalAnswers s.node id outcome.answer (some (.journaling
      ⟨toUppercase input.tableName.bytes, result.timestamp, input.key.toNat, result.value,
        false⟩)) =
        some (journalCallbackAnswers id outcome.answer (some ⟨toUppercase input.tableName.bytes,
          result.timestamp, input.key.toNat, result.value, false⟩)) := by
    rw [journalAnswers, hbatch, Option.map_some]
  have hstore := h.store hkept
  rcases houtcome with ⟨hanswer, hstored⟩ | hfails
  · -- The success empties the memory, and the record gets the first page.
    have hregister : ∀ reg ∈ some (⟨toUppercase input.tableName.bytes, result.timestamp,
        input.key.toNat, result.value, false⟩ : JournalRegister),
        reg.key = input.key.toNat ∧ toUppercase reg.tableName = reg.tableName ∧
        Legible reg.value.bytes ∧
        Fits s.node.memory (memoryText reg.timestamp input.key.toNat reg.value.bytes) := by
      intro reg hreg
      obtain rfl := Option.some.inj hreg
      refine ⟨rfl, toUppercase_toUppercase _, hlegible, ?_⟩
      rw [memoryText_eq]
      exact hfits
    obtain ⟨node', hexchange, hwell, hsizes, hshows', hwiped⟩ :=
      h.exchange_success hanswer hstored hkept hregister
    obtain ⟨rfl, rfl⟩ := h.serve_miss hmiss hsection hlate hexchange hserve
    refine ⟨_, hstore.move hsizes hwell hshows' (hwiped.fill hlast),
      h.leaves hkept (fun copy hmem => ?_) hsizes le_rfl, fun answered hmem =>
      Or.inl ⟨_, hlast, ?_⟩⟩
    · obtain ⟨hkey, rfl⟩ := View.of_registerView hmem
      exact Or.inr ⟨hkey, rfl⟩
    · simp only [selectCallbackAnswers, journalCallbackAnswers, hanswer, List.nil_append] at hmem
      have hanswered : answered = registerRecord ⟨toUppercase input.tableName.bytes,
          result.timestamp, input.key.toNat, result.value, false⟩ := by
        simpa [hid] using hmem
      rw [hanswered]
      exact ⟨rfl, rfl⟩
  · have hexchange := h.exchange_failure (some ⟨toUppercase input.tableName.bytes,
      result.timestamp, input.key.toNat, result.value, false⟩) hfails
    obtain ⟨rfl, rfl⟩ := h.serve_miss hmiss hsection hlate hexchange hserve
    refine ⟨view, hstore, h.leaves hkept (fun _ hmem => Or.inl hmem) (SameSizes.refl _) le_rfl,
      fun answered hmem => absurd hmem ?_⟩
    simp [selectCallbackAnswers, journalCallbackAnswers, hfails, hid]

/-- The filesystem answers a miss with a record, which comes to memory. -/
theorem Front.Inv.select_filled (h : s.Inv view last) {input : SelectInput} {result : RecordT}
    {id : Nat} {unassigned : Bool} {answers : List Answer}
    (hallows : s.Allows (.select input (some result) id unassigned outcome))
    (hmiss : view.of (toUppercase input.tableName.bytes) input.key = [])
    (hresult : ¬ (result.timestamp = -1 ∨ result.timestamp = -2))
    (hserve : s.serve (.select input (some result) id unassigned outcome) = some (s', answers)) :
    ∃ view', s'.Inv view' last ∧
      s.Leaves s' view view' (fun other key copy =>
        (other = toUppercase input.tableName.bytes ∧ key = input.key) ∧ copy.modified = false) ∧
      AnswersCurrent (last (toUppercase input.tableName.bytes) input.key) answers := by
  have hcurrent := h.answersCurrent hmiss (hallows.1 result rfl)
  obtain ⟨htable, hkey, hlast⟩ := (h.answers hmiss (hallows.1 result rfl)).resolve_left
    fun hnone => hresult (Or.inl hnone.2)
  obtain ⟨-, hlegible, hfits⟩ := h.plain hlast
  have hfits' : (NodeOp.selectCallback (some result)).Fits s.node := by
    change Fits s.node.memory (memoryText result.timestamp result.key.toInt result.value.bytes)
    rw [hkey, memoryText_eq]
    exact hfits
  rcases h.wellFormed.selectCallback_shows h.shows hresult hkey hlegible hfits' with
    hsection | ⟨written, listing, listed, view₁, hnew, hsection⟩
  · rw [htable] at hsection
    exact h.select_journaled hallows hmiss hlast hsection hserve
  · rw [htable] at hnew
    have hinv := h.move hnew.sizes hnew.wellFormed hnew.shows
      ((h.coherent.evicts hnew.evicts).fill hlast)
    have hleaves : s.Leaves ⟨listed, s.stored, s.clock, s.acknowledged⟩ view
        (view₁.add (toUppercase input.tableName.bytes)
          ⟨⟨result.timestamp, input.key, result.value.bytes⟩, false⟩)
        fun other key copy =>
          (other = toUppercase input.tableName.bytes ∧ key = input.key) ∧ copy.modified = false :=
      .of_stored (fun copy hmem => (View.of_add_cases hmem).imp (View.of_evicts hnew.evicts)
        fun hadded => ⟨hadded.1, by rw [hadded.2]⟩) hnew.sizes le_rfl
    -- It is listed after the section, or was listed in it.
    rcases hsection with hsection | hsection
    · obtain ⟨rfl, rfl⟩ := h.serve_miss hmiss hsection rfl hnew.sectionExchange hserve
      exact ⟨_, hinv, hleaves, hcurrent⟩
    · obtain ⟨rfl, rfl⟩ := h.serve_miss hmiss hsection rfl rfl hserve
      exact ⟨_, hinv, hleaves, hcurrent⟩

theorem Front.Inv.select_step (h : s.Inv view last) {input : SelectInput} {result : Option RecordT}
    {id : Nat} {unassigned : Bool} {answers : List Answer}
    (hallows : s.Allows (.select input result id unassigned outcome))
    (hserve : s.serve (.select input result id unassigned outcome) = some (s', answers)) :
    ∃ view', s'.Inv view' last ∧
      s.Leaves s' view view' (fun other key copy =>
        (other = toUppercase input.tableName.bytes ∧ key = input.key) ∧ copy.modified = false) ∧
      AnswersCurrent (last (toUppercase input.tableName.bytes) input.key) answers := by
  have hsame : ∀ acknowledged, s.Leaves ⟨s.node, s.stored, s.clock, acknowledged⟩ view view
      fun other key copy =>
        (other = toUppercase input.tableName.bytes ∧ key = input.key) ∧ copy.modified = false :=
    fun acknowledged => .of_stored (fun _ hmem => Or.inl hmem) (SameSizes.refl _) le_rfl
  cases hhead : (view.of (toUppercase input.tableName.bytes) input.key).head? with
  | some copy =>
    -- A hit shows the copy that is looked at first, which was written last.
    rw [Front.serve, h.shows.processSelect_eq, Option.bind_eq_bind, Option.bind_some] at hserve
    simp only [hhead, Option.some.injEq, Prod.mk.injEq] at hserve
    obtain ⟨rfl, rfl⟩ := hserve
    refine ⟨view, h, hsame _, fun answered hmem =>
      Or.inl ⟨copy.record, (h.coherent _ _).head copy hhead, ?_⟩⟩
    rw [List.mem_singleton, processSelectAnswer, Answer.record.injEq] at hmem
    rw [hmem]
    exact ⟨rfl, rfl⟩
  | none =>
    have hmiss := List.head?_eq_none_iff.mp hhead
    cases result with
    | none =>
      -- The filesystem does not answer.
      obtain ⟨rfl, rfl⟩ := h.serve_miss hmiss rfl rfl rfl hserve
      refine ⟨view, h, hsame _, fun answered hmem => Or.inr (Or.inr ?_)⟩
      rw [List.append_nil, selectCallbackAnswers] at hmem
      split at hmem
      · rw [List.mem_singleton, selectCallbackRecord, Answer.record.injEq] at hmem
        rw [hmem]
      · exact absurd hmem List.not_mem_nil
    | some result =>
      by_cases hresult : result.timestamp = -1 ∨ result.timestamp = -2
      · have hsection : selectCallback s.node (some result) = some none := by
          rw [selectCallback, if_pos hresult]
        obtain ⟨rfl, rfl⟩ := h.serve_miss hmiss hsection rfl rfl hserve
        refine ⟨view, h, hsame _, ?_⟩
        rw [List.append_nil, selectCallbackAnswers]
        split
        · exact h.answersCurrent hmiss (hallows.1 result rfl)
        · exact fun _ hmem => absurd hmem List.not_mem_nil
      · exact h.select_filled hallows hmiss hresult hserve

/-! ## JOURNAL -/

theorem Front.Inv.journal_step (h : s.Inv view last) {id : Option Nat} {answers : List Answer}
    (hallows : s.Allows (.journal id outcome))
    (hserve : s.serve (.journal id outcome) = some (s', answers)) :
    ∃ view', s'.Inv view' last ∧ s.Leaves s' view view' fun _ _ _ => False := by
  obtain ⟨hkept, houtcome⟩ := hallows
  have hstore := h.store hkept
  rw [Front.serve] at hserve
  rcases houtcome with ⟨hanswer, hstored⟩ | hfails
  · obtain ⟨node', hexchange, hwell, hsizes, hshows', hwiped⟩ :=
      @Front.Inv.exchange_success s view last outcome h none 0 hanswer hstored hkept
        fun _ hmem => absurd hmem (by simp)
    simp only [hexchange, Option.bind_eq_bind, Option.bind_some, Option.some.injEq,
      Prod.mk.injEq] at hserve
    obtain ⟨rfl, -⟩ := hserve
    exact ⟨_, hstore.move hsizes hwell hshows' hwiped,
      h.leaves hkept (fun _ hmem => absurd hmem List.not_mem_nil) hsizes le_rfl⟩
  · simp only [h.exchange_failure none hfails, Option.bind_eq_bind, Option.bind_some,
      Option.some.injEq, Prod.mk.injEq] at hserve
    obtain ⟨rfl, -⟩ := hserve
    exact ⟨view, hstore, h.leaves hkept (fun _ hmem => Or.inl hmem) (SameSizes.refl _) le_rfl⟩

/-! ## Every sequence of operations -/

/-- **One operation.** -/
theorem Front.Inv.step (h : s.Inv view last) {op : FrontOp} {answers : List Answer}
    (hallows : s.Allows op) (hserve : s.serve op = some (s', answers)) :
    ∃ view' last', s'.Inv view' last' := by
  cases op with
  | insert now later input id unassigned outcome =>
    obtain ⟨view', last', hinv, -⟩ := h.insert_step hallows hserve
    exact ⟨view', last', hinv⟩
  | select input result id unassigned outcome =>
    obtain ⟨view', hinv, -⟩ := h.select_step hallows hserve
    exact ⟨view', last, hinv⟩
  | journal id outcome =>
    obtain ⟨view', hinv, -⟩ := h.journal_step hallows hserve
    exact ⟨view', last, hinv⟩

/-- The states after a sequence of operations. -/
abbrev FrontRun (start s : Front) : Prop :=
  Run (fun s op => (s.serve op).map Prod.fst) (fun s op _ => s.Allows op) start s

theorem Front.Start.run {start : Front} (h : start.Start) (hrun : FrontRun start s) :
    ∃ view last, s.Inv view last := by
  refine Run.invariant (P := fun s : Front => ∃ view last, s.Inv view last) hrun ⟨_, _, h.inv⟩ ?_
  rintro s op s' ⟨view, last, hinv⟩ hstep hallows
  obtain ⟨⟨s'', answers⟩, hserve, rfl⟩ := Option.map_eq_some_iff.mp hstep
  exact hinv.step hallows hserve

/-- **A memory node behaves as a map.**  After any sequence of operations, a SELECT that is
answered with a value is answered with the value of the last INSERT of its table and key that
was acknowledged with 0, or with the first one of the filesystem. -/
theorem select_acknowledged {start : Front} (hstart : start.Start) (hrun : FrontRun start s)
    {input : SelectInput} {result : Option RecordT} {id : Nat} {unassigned : Bool}
    {answers : List Answer} (hallows : s.Allows (.select input result id unassigned outcome))
    (hserve : s.serve (.select input result id unassigned outcome) = some (s', answers))
    {answered : AnsweredRecord} (hanswered : .record answered ∈ answers)
    (hvalue : IsValue answered.timestamp) :
    s.acknowledged (toUppercase input.tableName.bytes) input.key = some answered.value := by
  obtain ⟨view, last, hinv⟩ := hstart.run hrun
  obtain ⟨-, -, -, hcurrent⟩ := hinv.select_step hallows hserve
  rcases hcurrent answered hanswered with ⟨record, hlast, -, hrecord⟩ | ⟨-, hmissing⟩ | hfailed
  · rw [hinv.acknowledged, hlast, hrecord]
    rfl
  · exact absurd hmissing hvalue.1
  · exact absurd hfailed hvalue.2.2

end Serving

/-! ## A run -/

/-- A filesystem with a first value of one key of T. -/
def firstStored : Stored := fun tableName => if tableName = [84] then [⟨5, 1, [120]⟩] else []

/-- A memory of two pages in front of it. -/
def firstFront : Option Front :=
  (getValueCallback (List.replicate 50 7) 2 firstClock).map fun node =>
    ⟨node, firstStored, 10, fun tableName key =>
      (newest (ofKey key (firstStored tableName))).map Record.value⟩

def noJournal : JournalOutcome := ⟨none, []⟩

def selectFirst : SelectInput := ⟨.ofBytes [116], 1⟩

/-- The first value comes to memory and is written over; a second INSERT fills the memory, and
a third one sends a journal that fails in part. -/
def frontOps : List FrontOp :=
  [.select selectFirst (some ⟨.ofBytes [84], 5, 1, .ofBytes [120], none⟩) 0 false noJournal,
    .insert 11 12 (shortInsert 1) 0 false noJournal,
    .insert 13 14 (shortInsert 2) 0 false noJournal,
    .insert 15 16 (shortInsert 3) 0 false ⟨some (-1), [([84], ⟨12, 1, [97]⟩)]⟩,
    .journal none ⟨some 0, [([84], ⟨13, 2, [97]⟩), ([84], ⟨12, 1, [97]⟩)]⟩]

def servedFront : Option Front :=
  firstFront >>= fun start =>
    runSteps (fun s op => (s.serve op).map Prod.fst) (fun s op _ => s.Allows op) start frontOps

/-- What the filesystem answers to a SELECT then, and what the kernel gets. -/
def servedSelect : Option (List Answer) :=
  servedFront >>= fun s =>
    (s.serve (.select selectFirst (some ⟨.ofBytes [84], 12, 1, .ofBytes [97], none⟩) 0 false
      noJournal)).map Prod.snd

theorem servedSelect_eq :
    servedSelect = some [.record ⟨[84], 12, 1, [97], nada⟩] := by decide +kernel

theorem firstFront_start {s : Front} (h : firstFront = some s) : s.Start := by
  obtain ⟨node, hnode, rfl⟩ := Option.map_eq_some_iff.mp h
  refine ⟨⟨_, _, _, hnode⟩, fun tableName record hmem => ?_, fun _ _ => rfl⟩
  have hnodeFits : ((getValueCallback (List.replicate 50 7) 2 firstClock).all fun node =>
      decide (Fits node.memory (convertToTkv ⟨5, 1, [120]⟩))) = true := by decide +kernel
  rw [hnode] at hnodeFits
  by_cases htable : tableName = [84]
  · have hrecord : record = ⟨5, 1, [120]⟩ := by
      simpa [firstStored, htable] using hmem
    subst hrecord
    have hclock : (5 : Int64).toInt ≤ (10 : Int64).toInt := by decide
    exact ⟨by decide, of_decide_eq_true hnodeFits, hclock⟩
  · exact absurd hmem (by simp [firstStored, htable])

theorem select_acknowledged_served :
    ∃ start s : Front, start.Start ∧ FrontRun start s ∧ s.acknowledged [84] 1 = some [97] := by
  have hselect := servedSelect_eq
  rw [servedSelect] at hselect
  obtain ⟨s, hs, hserve⟩ := Option.bind_eq_some_iff.mp hselect
  obtain ⟨⟨s', answers⟩, hserve, rfl⟩ := Option.map_eq_some_iff.mp hserve
  have hallows : (servedFront.all fun s => decide (s.Allows (.select selectFirst
      (some ⟨.ofBytes [84], 12, 1, .ofBytes [97], none⟩) 0 false noJournal))) = true := by
    decide +kernel
  rw [hs] at hallows
  rw [servedFront] at hs
  obtain ⟨start, hfirst, hsteps⟩ := Option.bind_eq_some_iff.mp hs
  have hstart := firstFront_start hfirst
  have hrun : FrontRun start s := run_of_runSteps hsteps
  exact ⟨start, s, hstart, hrun, select_acknowledged hstart hrun (of_decide_eq_true hallows) hserve
    List.mem_cons_self (by decide)⟩

end Lissandra
