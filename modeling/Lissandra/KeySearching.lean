import Lissandra.BlockReader
import Lissandra.FirstMaximum

/-! # Searching an archive for a key

`key_searching.c`.  `search_key_in_block` keeps the first newest record of the key among
the whole texts of a block.  If the block ends with a cut text it has no way left to
return that record, and writes it over the caller's best text, without comparing the two
and without the caller's timestamp learning of it.

`search_key_in_fs_archive` is therefore right exactly when no such overwriting is the last
word on the key (`SearchExact`, `searchKeyInFsArchive_iff`); in particular for archives
with one record for each key, such as partitions (`searchExact_of_unique`).
-/
namespace Lissandra

/-! ## The search -/

/-- The text `-1;-1;-1`, which stands for no record. -/
def noTkv : Bytes := [45, 49, 59, 45, 49, 59, 45, 49]

/-- A text found, and the timestamp to beat. -/
structure Search where
  tkv : Bytes
  timestamp : Int64

/-- `noTkv`, with timestamp -1. -/
def Search.empty : Search := ⟨noTkv, -1⟩

/-- Take a text of the key if it is strictly newer. -/
def visitTkv (key : Bytes) (found : Search) (readedKey : Bytes) : Option Search :=
  match stringSplit readedKey semicolon with
  | timestamp :: tkvKey :: _ =>
    if tkvKey = key ∧ found.timestamp < strtoll timestamp then
      some ⟨readedKey, strtoll timestamp⟩
    else some found
  | _ => none

/-- `search_key_in_block`: the text it returns, whether that is an incomplete one, and
what it leaves in `previous_key_founded`. -/
def searchKeyInBlock (tkvSize : Nat) (key content : Bytes) (index : Bool)
    (incompleteTkvSize : Nat) (previousKeyFounded : Bytes) : Option (Bytes × Bool × Bytes) := do
  let (found, cut) ← readBlock tkvSize (visitTkv key) content index incompleteTkvSize Search.empty
  match cut with
  | none => some (found.tkv, false, previousKeyFounded)
  | some substr =>
    some (substr, true, if found.tkv ≠ noTkv then found.tkv else previousKeyFounded)

/-- The part of the loop of `search_key_in_fs_archive` that looks at a block. -/
def searchBlock (tkvSize : Nat) (key : Bytes) (correct : Search) (content : Bytes) (index : Bool)
    (incompleteTkvSize : Nat) : Option (Search × Option Bytes) := do
  let (keyFound, incomplete, tkv) ←
    searchKeyInBlock tkvSize key content index incompleteTkvSize correct.tkv
  let correct : Search := ⟨tkv, correct.timestamp⟩
  if incomplete then some (correct, some keyFound)
  else if keyFound = noTkv then some (correct, none)
  else
    match stringSplit keyFound semicolon with
    | timestamp :: _ =>
      if correct.timestamp < strtoll timestamp then some (⟨keyFound, strtoll timestamp⟩, none)
      else some (correct, none)
    | [] => none

/-- A `record_t` that a search returns. -/
structure Found where
  timestamp : Int64
  key : Int32
  value : Bytes
  deriving DecidableEq, Repr

/-- `convert_to_record`. -/
def convertToRecord (tkv : Bytes) : Option Found :=
  match stringSplit tkv semicolon with
  | timestamp :: key :: value :: _ => some ⟨strtoll timestamp, stringToInt key, value⟩
  | _ => none

/-- `search_key_in_fs_archive`.  An archive without blocks frees what it never found. -/
def searchKeyInFsArchive (tkvSize : Nat) (block : Nat → Bytes) (blocks : List Nat) (key : UInt16) :
    Option Found :=
  if blocks = [] then none
  else do
    let stringKey := printInt key.toNat
    let correct ← readArchive tkvSize block (searchBlock tkvSize stringKey) (visitTkv stringKey)
      blocks.length blocks false 0 Search.empty
    convertToRecord correct.tkv

/-! ## What the search should say -/

/-- Newer is greater in timestamp. -/
def time (record : Record) : Int := record.timestamp.toInt

/-- The records of a key. -/
def ofKey (key : UInt16) (records : List Record) : List Record := records.filter (·.key = key)

theorem mem_ofKey {key : UInt16} {l : List Record} {record : Record} :
    record ∈ ofKey key l ↔ record ∈ l ∧ record.key = key := by
  rw [ofKey, List.mem_filter, decide_eq_true_eq]

/-- The first newest record of a list. -/
def newest (records : List Record) : Option Record := firstMaximum time records

/-- A record as a search returns it. -/
def Record.found (record : Record) : Found :=
  ⟨record.timestamp, Int32.ofNat record.key.toNat, record.value⟩

/-- The answer when there is no record. -/
def Found.missing : Found := ⟨-1, -1, [45, 49]⟩

/-- `found` is a newest record of the key among `records`, or says that there is none. -/
def IsNewestOf (key : UInt16) (records : List Record) (found : Found) : Prop :=
  (∃ record ∈ ofKey key records, found = record.found ∧
    ∀ other ∈ ofKey key records, time other ≤ time record) ∨
  found.timestamp = -1 ∧ ofKey key records = []

/-! ## The search over segments -/

/-- The text that stands for a result. -/
def tkvOf : Option Record → Bytes
  | none => noTkv
  | some record => convertToTkv record

/-- The locals of a search with `best` to beat and the text of `held` to return. -/
def searchOf (best held : Option Record) : Search :=
  ⟨tkvOf held, (best.map Record.timestamp).getD (-1)⟩

/-- Take a result that beats the best one. -/
def update (locals : Option Record × Option Record) (new : Option Record) :
    Option Record × Option Record :=
  if beats time new locals.1 then (new, new) else locals

/-- The records of a segment that the search compares with its best one. -/
def Segment.compared (segment : Segment convertToTkv) : List Record :=
  match segment.cut with
  | none => segment.whole
  | some c => [c.item]

/-- What the search makes of a segment: where the block ends with a cut text, the newest
whole record is put in the place of the held one before anything is compared. -/
def searchSegment (key : UInt16) (locals : Option Record × Option Record)
    (segment : Segment convertToTkv) : Option Record × Option Record :=
  let overwritten :=
    if segment.cut.isSome then (newest (ofKey key segment.whole)).or locals.2 else locals.2
  update (locals.1, overwritten) (newest (ofKey key segment.compared))

section
variable {tkvSize : Nat} {key : UInt16}

theorem tkvOf_some_ne {record : Record} (h : Storable tkvSize record) :
    tkvOf (some record) ≠ noTkv := by
  intro heq
  have hparse := convertRecord_text h
  have hnone : convertRecord noTkv = some ⟨-1, 65535, [45, 49]⟩ := by decide +kernel
  rw [tkvOf] at heq
  rw [heq, hnone] at hparse
  have hnonneg := h.timestamp_nonneg
  rw [← Option.some.inj hparse] at hnonneg
  exact absurd hnonneg (by decide)

theorem lt_searchOf_iff {record : Record} (h : Storable tkvSize record)
    (best held : Option Record) :
    (searchOf best held).timestamp < record.timestamp ↔ beats time (some record) best = true := by
  cases best with
  | none =>
    have hnonneg := h.timestamp_nonneg
    have hlt : (-1 : Int64).toInt < record.timestamp.toInt := by
      have : (-1 : Int64).toInt = -1 := by decide
      omega
    simpa [searchOf, Int64.lt_iff_toInt_lt] using hlt
  | some best =>
    rw [beats_some_some]
    exact Int64.lt_iff_toInt_lt

/-- One text compared with the best one. -/
theorem visitTkv_searchOf {record : Record} (h : Storable tkvSize record)
    (locals : Option Record × Option Record) :
    visitTkv (printInt key.toNat) (searchOf locals.1 locals.2) (convertToTkv record) =
      some (searchOf (update locals (newest (ofKey key [record]))).1
        (update locals (newest (ofKey key [record]))).2) := by
  have hkey : printInt record.key.toNat = printInt key.toNat ↔ record.key = key :=
    ⟨fun heq => UInt16.toNat_inj.mp (Int.ofNat_inj.mp (printInt_injective heq)),
      fun heq => by rw [heq]⟩
  simp only [visitTkv, stringSplit_convertToTkv h, strtoll_printInt, hkey, lt_searchOf_iff h]
  by_cases hk : record.key = key
  · by_cases hb : beats time (some record) locals.1 = true
    · rw [if_pos ⟨hk, hb⟩]
      simp [ofKey, hk, newest, update, hb, searchOf, tkvOf]
    · rw [if_neg fun hand => hb hand.2]
      simp [ofKey, hk, newest, update, hb]
  · rw [if_neg fun hand => hk hand.1]
    simp [ofKey, hk, newest, update]

@[simp] theorem update_none (locals : Option Record × Option Record) :
    update locals none = locals := by
  simp [update]

/-- Two results, one after the other. -/
theorem update_update (locals : Option Record × Option Record) (a b : Option Record) :
    update (update locals a) b = update locals (later time a b) := by
  unfold update later
  by_cases hab : beats time b a = true
  · rw [if_pos hab]
    by_cases ha : beats time a locals.1 = true
    · rw [if_pos ha, if_pos hab, if_pos (beats_trans ha hab)]
    · rw [if_neg ha]
  · rw [if_neg hab]
    by_cases ha : beats time a locals.1 = true
    · rw [if_pos ha, if_neg hab]
    · rw [if_neg ha, not_beats_trans (by simpa using ha) (by simpa using hab)]
      simp

theorem ofKey_append (key : UInt16) (l m : List Record) :
    ofKey key (l ++ m) = ofKey key l ++ ofKey key m :=
  List.filter_append ..

theorem newest_append (l m : List Record) : newest (l ++ m) = later time (newest l) (newest m) :=
  argmax_append l m

theorem beats_newest {l m : List Record} :
    beats time (newest m) (newest l) = true ↔ ∃ a ∈ m, ∀ b ∈ l, time b < time a :=
  beats_argmax

theorem update_newest_append (key : UInt16) (locals : Option Record × Option Record)
    (l m : List Record) : update (update locals (newest (ofKey key l))) (newest (ofKey key m)) =
      update locals (newest (ofKey key (l ++ m))) := by
  rw [update_update, ofKey_append, newest_append]

/-- The loop over the whole texts of a block. -/
theorem foldlM_visitTkv {records : List Record} (h : ∀ record ∈ records, Storable tkvSize record)
    (locals : Option Record × Option Record) :
    (records.map convertToTkv).foldlM (visitTkv (printInt key.toNat)) (searchOf locals.1 locals.2) =
      some (searchOf (update locals (newest (ofKey key records))).1
        (update locals (newest (ofKey key records))).2) := by
  induction records generalizing locals with
  | nil => simp [ofKey, newest]
  | cons record records ih =>
    rw [List.map_cons, List.foldlM_cons, visitTkv_searchOf (h record List.mem_cons_self)]
    simp only [Option.bind_eq_bind, Option.bind_some]
    rw [ih fun r hr => h r (List.mem_cons_of_mem _ hr), update_newest_append]
    rfl

/-- The whole texts of a block, from nothing. -/
theorem foldlM_visitTkv_empty {records : List Record}
    (h : ∀ record ∈ records, Storable tkvSize record) :
    (records.map convertToTkv).foldlM (visitTkv (printInt key.toNat)) Search.empty =
      some (searchOf (newest (ofKey key records)) (newest (ofKey key records))) := by
  have hfold := @foldlM_visitTkv _ key _ h (none, none)
  have hself : update (none, none) (newest (ofKey key records)) =
      (newest (ofKey key records), newest (ofKey key records)) := by
    cases newest (ofKey key records) <;> rfl
  rwa [hself] at hfold

/-- What `search_key_in_fs_archive` does with the whole texts of a block. -/
def searchWhole (key : Bytes) (correct : Search) (segment : Segment convertToTkv) :
    Option Search := do
  let found ← (segment.whole.map convertToTkv).foldlM (visitTkv key) Search.empty
  if segment.cut.isSome then
    some ⟨if found.tkv ≠ noTkv then found.tkv else correct.tkv, correct.timestamp⟩
  else if found.tkv = noTkv then some correct
  else
    match stringSplit found.tkv semicolon with
    | timestamp :: _ =>
      if correct.timestamp < strtoll timestamp then some ⟨found.tkv, strtoll timestamp⟩
      else some correct
    | [] => none

theorem searchBlock_segment {lead : Option Bytes} {segment : Segment convertToTkv} {size : Nat}
    (hlead : ∀ t ∈ lead, Readable tkvSize t)
    (hsegment : ∀ a ∈ segment.items, Readable tkvSize (convertToTkv a))
    (hsize : ∀ t ∈ lead, size = t.length + 1) (keyText : Bytes) (s : Search) :
    searchBlock tkvSize keyText s
        (leadBytes lead ++ lines convertToTkv segment.whole ++ cutBytes segment.cut) lead.isSome
        size =
      (searchWhole keyText s segment).bind fun s' => some (s', segment.cut.map Cut.head) := by
  rw [searchBlock, searchKeyInBlock, readBlock_segment _ hlead hsegment hsize, searchWhole]
  simp only [Option.bind_eq_bind, Option.bind_assoc, Option.bind_some]
  refine Option.bind_congr fun found _ => ?_
  cases segment.cut with
  | some c => rfl
  | none =>
    simp only [Option.map_none, Option.bind_some, Option.isSome_none, Bool.false_eq_true, if_false]
    by_cases hfound : found.tkv = noTkv
    · simp [hfound]
    · simp only [hfound, if_false]
      cases stringSplit found.tkv semicolon with
      | nil => rfl
      | cons timestamp rest => dsimp only; split <;> rfl

/-- **One segment of the search.** -/
theorem visitSegment_search {segment : Segment convertToTkv}
    (h : ∀ record ∈ segment.items, Storable tkvSize record)
    (locals : Option Record × Option Record) :
    visitSegment (searchWhole (printInt key.toNat)) (visitTkv (printInt key.toNat))
        (searchOf locals.1 locals.2) segment =
      some (searchOf (searchSegment key locals segment).1
        (searchSegment key locals segment).2) := by
  have hwhole : ∀ record ∈ segment.whole, Storable tkvSize record := fun r hr =>
    h r (List.mem_append_left _ hr)
  rw [visitSegment, searchWhole, foldlM_visitTkv_empty hwhole]
  have hmem : ∀ record ∈ newest (ofKey key segment.whole), Storable tkvSize record := fun r hr =>
    hwhole r (List.mem_of_mem_filter (List.argmax_mem hr))
  obtain ⟨whole, _ | c⟩ := segment
  · simp only [Option.isSome_none, searchSegment, Segment.compared, Bool.false_eq_true, if_false]
    cases hm : newest (ofKey key whole) with
    | none => simp [searchOf, tkvOf]
    | some record =>
      have hrecord := hmem record hm
      have hlt := lt_searchOf_iff hrecord locals.1 locals.2
      simp only [Option.bind_eq_bind, Option.bind_some, searchOf, tkvOf_some_ne hrecord, if_false]
      simp only [tkvOf, stringSplit_convertToTkv hrecord, strtoll_printInt, update]
      rw [searchOf] at hlt
      by_cases hbeats : beats time (some record) locals.1 = true
      · rw [if_pos (hlt.mpr hbeats), if_pos hbeats]
        rfl
      · rw [if_neg (fun h => hbeats (hlt.mp h)), if_neg hbeats]
        rfl
  · have hitem : Storable tkvSize c.item := h c.item (by simp [Segment.items])
    have hover :
        (if (searchOf (newest (ofKey key whole)) (newest (ofKey key whole))).tkv ≠ noTkv then
          (searchOf (newest (ofKey key whole)) (newest (ofKey key whole))).tkv
        else (searchOf locals.1 locals.2).tkv)
        = tkvOf ((newest (ofKey key whole)).or locals.2) := by
      cases hm : newest (ofKey key whole) with
      | none => simp [searchOf, tkvOf]
      | some record =>
        simp only [searchOf, tkvOf_some_ne (hmem record hm), ne_eq, not_false_eq_true, if_true]
        rfl
    simp only [Option.bind_eq_bind, Option.bind_some, Option.isSome_some, if_true, hover]
    exact visitTkv_searchOf hitem (locals.1, (newest (ofKey key whole)).or locals.2)

theorem foldlM_search {ss : List (Segment convertToTkv)}
    (h : ∀ segment ∈ ss, ∀ record ∈ segment.items, Storable tkvSize record)
    (locals : Option Record × Option Record) :
    ss.foldlM (visitSegment (searchWhole (printInt key.toNat)) (visitTkv (printInt key.toNat)))
        (searchOf locals.1 locals.2) =
      some (searchOf (ss.foldl (searchSegment key) locals).1
        (ss.foldl (searchSegment key) locals).2) := by
  induction ss generalizing locals with
  | nil => rfl
  | cons segment ss ih =>
    rw [List.foldlM_cons, visitSegment_search (h segment List.mem_cons_self)]
    simp only [Option.bind_eq_bind, Option.bind_some]
    exact ih (fun s hs => h s (List.mem_cons_of_mem _ hs)) (searchSegment key locals segment)

/-- The record, if any, whose text a search of these segments returns. -/
def searchSegments (key : UInt16) (ss : List (Segment convertToTkv)) : Option Record :=
  (ss.foldl (searchSegment key) (none, none)).2

/-- The answer that stands for a result. -/
def foundOf : Option Record → Found
  | none => Found.missing
  | some record => record.found

theorem stringToInt_printInt (key : UInt16) :
    stringToInt (printInt key.toNat) = Int32.ofNat key.toNat := by
  have hkey := key.toNat_lt
  have hlong : ((key.toNat : Nat) : Int) = (Int64.ofNat key.toNat).toInt :=
    (Int64.toInt_ofNat_of_lt (by omega)).symm
  rw [stringToInt, hlong, strtoll_printInt]
  exact Int64.toInt32_ofNat'

theorem convertToRecord_tkvOf {held : Option Record}
    (h : ∀ record ∈ held, Storable tkvSize record) :
    convertToRecord (tkvOf held) = some (foundOf held) := by
  cases held with
  | none => decide +kernel
  | some record =>
    rw [tkvOf, convertToRecord, stringSplit_convertToTkv (h record rfl)]
    simp [foundOf, Record.found, stringToInt_printInt]

end

/-! ## When it is right -/

/-- The block ends with a cut text and holds a record of the key whole: the held text is
overwritten. -/
def Stray (key : UInt16) (segment : Segment convertToTkv) : Prop :=
  segment.cut.isSome ∧ ofKey key segment.whole ≠ []

instance (key : UInt16) (segment : Segment convertToTkv) : Decidable (Stray key segment) :=
  inferInstanceAs (Decidable (_ ∧ _))

/-- The records among which the answer is found when `segment` is the last one that
overwrites the held text: those compared from its cut text on, if one of them is newer
than every record compared before, and its whole ones otherwise. -/
def lastWord (key : UInt16) (before : List (Segment convertToTkv)) (segment : Segment convertToTkv)
    (after : List (Segment convertToTkv)) : List Record :=
  let earlier := ofKey key (before.flatMap Segment.compared)
  let later := ofKey key ((segment :: after).flatMap Segment.compared)
  if ∃ a ∈ later, ∀ b ∈ earlier, time b < time a then later else ofKey key segment.whole

/-- **The condition of the search**: the last block that overwrites the held text, if there
is one, leaves a newest record of the key as the last word. -/
def SearchExact (key : UInt16) (ss : List (Segment convertToTkv)) : Prop :=
  ∀ before segment after, ss = before ++ segment :: after → Stray key segment →
    (∀ s ∈ after, ¬ Stray key s) →
    ∃ record ∈ lastWord key before segment after,
      ∀ other ∈ ofKey key (ss.flatMap Segment.items), time other ≤ time record

section
variable {key : UInt16} {ss before after : List (Segment convertToTkv)}
  {segment : Segment convertToTkv}

theorem update_fst (locals : Option Record × Option Record) (new : Option Record) :
    (update locals new).1 = later time locals.1 new := by
  unfold update later
  split <;> rfl

/-- The best record is the newest of those compared, whatever is held. -/
theorem foldl_searchSegment_fst (locals : Option Record × Option Record) :
    (ss.foldl (searchSegment key) locals).1 =
      later time locals.1 (newest (ofKey key (ss.flatMap Segment.compared))) := by
  induction ss generalizing locals with
  | nil => simp [ofKey, newest]
  | cons segment ss ih =>
    rw [List.foldl_cons, ih, searchSegment, update_fst, later_assoc, List.flatMap_cons,
      ofKey_append, newest_append]

/-- Blocks that overwrite nothing only compare. -/
theorem foldl_searchSegment_of_not_stray (h : ∀ s ∈ ss, ¬ Stray key s)
    (locals : Option Record × Option Record) :
    ss.foldl (searchSegment key) locals =
      update locals (newest (ofKey key (ss.flatMap Segment.compared))) := by
  induction ss generalizing locals with
  | nil => simp [ofKey, newest]
  | cons segment ss ih =>
    have hheld : searchSegment key locals segment =
        update locals (newest (ofKey key segment.compared)) := by
      rw [searchSegment]
      split
      · rename_i hcut
        have hnil : ofKey key segment.whole = [] := by
          by_contra hne
          exact h segment List.mem_cons_self ⟨hcut, hne⟩
        simp [hnil, newest]
      · rfl
    rw [List.foldl_cons, hheld, ih fun s hs => h s (List.mem_cons_of_mem _ hs),
      update_newest_append, List.flatMap_cons]

/-- Without an overwriting block every record of the key is compared. -/
theorem ofKey_compared_of_not_stray (h : ∀ s ∈ ss, ¬ Stray key s) :
    ofKey key (ss.flatMap Segment.compared) = ofKey key (ss.flatMap Segment.items) := by
  induction ss with
  | nil => rfl
  | cons segment ss ih =>
    rw [List.flatMap_cons, List.flatMap_cons, ofKey_append, ofKey_append,
      ih fun s hs => h s (List.mem_cons_of_mem _ hs)]
    congr 1
    have hsegment := h segment List.mem_cons_self
    obtain ⟨whole, _ | c⟩ := segment
    · simp [Segment.compared, Segment.items]
    · have hnil : ofKey key whole = [] := by
        by_contra hne
        exact hsegment ⟨rfl, hne⟩
      simp [Segment.compared, Segment.items, ofKey_append, hnil]

theorem searchSegments_of_not_stray (h : ∀ s ∈ ss, ¬ Stray key s) :
    searchSegments key ss = newest (ofKey key (ss.flatMap Segment.items)) := by
  rw [searchSegments, foldl_searchSegment_of_not_stray h, ofKey_compared_of_not_stray h]
  cases newest (ofKey key (ss.flatMap Segment.items)) <;> rfl

theorem searchSegments_of_stray (hstray : Stray key segment) (hafter : ∀ s ∈ after, ¬ Stray key s) :
    searchSegments key (before ++ segment :: after) =
      newest (lastWord key before segment after) := by
  have hseg : ∀ locals, searchSegment key locals segment =
      update (locals.1, newest (ofKey key segment.whole))
      (newest (ofKey key segment.compared)) := by
    intro locals
    have hsome : (newest (ofKey key segment.whole)).isSome := by
      rw [Option.isSome_iff_ne_none, newest, firstMaximum, Ne, List.argmax_eq_none]
      exact hstray.2
    rw [searchSegment, if_pos hstray.1, Option.or_of_isSome hsome]
  rw [searchSegments, List.foldl_append, List.foldl_cons, foldl_searchSegment_of_not_stray hafter,
    hseg, update_newest_append, foldl_searchSegment_fst, ← List.flatMap_cons, later_none_left,
    lastWord, update]
  by_cases hlate : ∃ a ∈ ofKey key ((segment :: after).flatMap Segment.compared),
      ∀ b ∈ ofKey key (before.flatMap Segment.compared), time b < time a
  · rw [if_pos (beats_newest.mpr hlate), if_pos hlate]
  · rw [if_neg fun h => hlate (beats_newest.mp h), if_neg hlate]

theorem lastWord_ne_nil (before after : List (Segment convertToTkv)) (hstray : Stray key segment) :
    lastWord key before segment after ≠ [] := by
  rw [lastWord]
  split
  · rename_i h
    obtain ⟨a, ha, -⟩ := h
    exact List.ne_nil_of_mem ha
  · exact hstray.2

/-- Some last element with a property, as soon as one has it. -/
theorem exists_last_of_exists {α : Type} {P : α → Prop} {l : List α} (h : ∃ a ∈ l, P a) :
    ∃ before a after, l = before ++ a :: after ∧ P a ∧ ∀ b ∈ after, ¬ P b := by
  classical
  induction l with
  | nil => simp at h
  | cons x l ih =>
    by_cases hl : ∃ a ∈ l, P a
    · obtain ⟨before, a, after, rfl, ha, hafter⟩ := ih hl
      exact ⟨x :: before, a, after, rfl, ha, hafter⟩
    · obtain ⟨a, ha, hPa⟩ := h
      rcases List.mem_cons.mp ha with rfl | ha
      · exact ⟨[], a, l, rfl, hPa, fun b hb hPb => hl ⟨b, hb, hPb⟩⟩
      · exact absurd ⟨a, ha, hPa⟩ hl

theorem compared_subset (segment : Segment convertToTkv) : segment.compared ⊆ segment.items := by
  obtain ⟨whole, _ | c⟩ := segment
  · simp [Segment.compared, Segment.items]
  · simp [Segment.compared, Segment.items]

theorem flatMap_compared_subset (ss : List (Segment convertToTkv)) :
    ss.flatMap Segment.compared ⊆ ss.flatMap Segment.items := by
  intro record hrecord
  obtain ⟨segment, hsegment, hmem⟩ := List.mem_flatMap.mp hrecord
  exact List.mem_flatMap.mpr ⟨segment, hsegment, compared_subset segment hmem⟩

theorem lastWord_subset : lastWord key before segment after ⊆
    ofKey key ((before ++ segment :: after).flatMap Segment.items) := by
  intro record hrecord
  rw [lastWord] at hrecord
  rw [List.flatMap_append, ofKey_append]
  refine List.mem_append_right _ ?_
  split at hrecord
  · exact List.filter_subset _ (flatMap_compared_subset _) hrecord
  · refine List.filter_subset _ (fun r hr => ?_) hrecord
    exact List.mem_append_left _ (List.mem_append_left _ hr)

theorem searchSegments_mem {record : Record} (h : searchSegments key ss = some record) :
    record ∈ ofKey key (ss.flatMap Segment.items) := by
  by_cases hany : ∃ segment ∈ ss, Stray key segment
  · obtain ⟨before, segment, after, rfl, hstray, hafter⟩ := exists_last_of_exists hany
    rw [searchSegments_of_stray hstray hafter] at h
    exact lastWord_subset (List.argmax_mem h)
  · rw [searchSegments_of_not_stray fun s hs hstray => hany ⟨s, hs, hstray⟩] at h
    exact List.argmax_mem h

/-- **The search over segments is right exactly when `SearchExact` holds.** -/
theorem isNewestOf_searchSegments {tkvSize : Nat}
    (h : ∀ segment ∈ ss, ∀ record ∈ segment.items, Storable tkvSize record) :
    IsNewestOf key (ss.flatMap Segment.items) (foundOf (searchSegments key ss)) ↔
      SearchExact key ss := by
  have hnonneg : ∀ record ∈ ofKey key (ss.flatMap Segment.items), record.timestamp ≠ -1 := by
    intro record hrecord heq
    obtain ⟨segment, hsegment, hmem⟩ := List.mem_flatMap.mp (List.mem_of_mem_filter hrecord)
    have := (h segment hsegment record hmem).timestamp_nonneg
    rw [heq] at this
    exact absurd this (by decide)
  constructor
  · intro hfound before segment after hss hstray hafter
    obtain ⟨record, hrecord, hnewest, hmax⟩ :=
      exists_argmax time (lastWord_ne_nil before after hstray)
    refine ⟨record, hrecord, ?_⟩
    rw [hss, searchSegments_of_stray hstray hafter, newest, firstMaximum, hnewest, ← hss] at hfound
    have hmem : record ∈ ofKey key (ss.flatMap Segment.items) := hss ▸ lastWord_subset hrecord
    rcases hfound with ⟨answer, hanswer, heq, hall⟩ | ⟨hmissing, -⟩
    · have htime : time record = time answer := congrArg (fun f => f.timestamp.toInt) heq
      rw [htime]
      exact hall
    · exact absurd hmissing (hnonneg record hmem)
  · intro hexact
    by_cases hany : ∃ segment ∈ ss, Stray key segment
    · obtain ⟨before, segment, after, hss, hstray, hafter⟩ := exists_last_of_exists hany
      obtain ⟨answer, hanswer, hall⟩ := hexact before segment after hss hstray hafter
      obtain ⟨record, hrecord, hnewest, hmax⟩ :=
        exists_argmax time (lastWord_ne_nil before after hstray)
      refine Or.inl ⟨record, hss ▸ lastWord_subset hrecord, ?_, fun other hother =>
        (hall other hother).trans (hmax answer hanswer)⟩
      rw [hss, searchSegments_of_stray hstray hafter, newest, firstMaximum, hnewest]
      rfl
    · have hnone : ∀ s ∈ ss, ¬ Stray key s := fun s hs hstray => hany ⟨s, hs, hstray⟩
      rw [searchSegments_of_not_stray hnone]
      by_cases hnil : ofKey key (ss.flatMap Segment.items) = []
      · refine Or.inr ⟨?_, hnil⟩
        rw [hnil]
        rfl
      · obtain ⟨record, hrecord, hnewest, hmax⟩ := exists_argmax time hnil
        refine Or.inl ⟨record, hrecord, ?_, hmax⟩
        rw [newest, firstMaximum, hnewest]
        rfl

end

/-! ## Archives -/

/-- The blocks of an archive, or of several archives in a row as in A1.tmpc: runs of
`dump_table` or of `create_partition` wrote them, each with enough free blocks, and they
still hold what was written. -/
inductive WrittenBy (blockSize : Nat) (block : Nat → Bytes) : List Nat → List (List Record) → Prop
  | nil : WrittenBy blockSize block [] []
  | cons {base after : Storage} {archive : Archive} {records : List Record} {blocks : List Nat}
      {groups : List (List Record)}
      (size : base.blockSize = blockSize)
      (free : (layoutBytes blockSize records).length ≤ (availableBlocks base.bitmap).length)
      (run : dumpTable base (records.map convertToTkv) = some (after, archive) ∨
        createPartition base records = some (after, archive))
      (kept : ∀ b ∈ archive.blocks, block b = after.block b)
      (rest : WrittenBy blockSize block blocks groups) :
      WrittenBy blockSize block (archive.blocks ++ blocks) (records :: groups)

theorem WrittenBy.blocks_eq {blockSize : Nat} {block : Nat → Bytes} {blocks : List Nat}
    {groups : List (List Record)} (hsize : 2 ≤ blockSize)
    (h : WrittenBy blockSize block blocks groups) :
    blocks.map block = groups.flatMap (layoutBytes blockSize) := by
  induction h with
  | nil => rfl
  | @cons base after archive records blocks groups size free run kept rest ih =>
    subst size
    obtain ⟨after', blocks', hwrite, hwritten⟩ := writeTkvs_spec hsize records free
    have hrun : dumpTable base (records.map convertToTkv) = some (after, archive) := run.elim id id
    rw [dumpTable, hwrite] at hrun
    obtain ⟨rfl, rfl⟩ := Prod.mk.inj (Option.some.inj hrun)
    rw [List.map_append, ih, List.flatMap_cons, ← hwritten.blocks_eq, List.map_congr_left kept]

/-- What a search answers, in terms of the segments of the archive. -/
theorem searchKeyInFsArchive_layout {tkvSize blockSize : Nat} {block : Nat → Bytes}
    {blocks : List Nat} {groups : List (List Record)}
    (hblocks : blocks.map block = groups.flatMap (layoutBytes blockSize)) (hne : groups ≠ [])
    (hrecords : ∀ record ∈ groups.flatten, Storable tkvSize record) (key : UInt16) :
    searchKeyInFsArchive tkvSize block blocks key =
      some (foundOf (searchSegments key (groups.flatMap (layout convertToTkv blockSize)))) := by
  have hblocks_ne : blocks ≠ [] := by
    rintro rfl
    obtain ⟨records, rest, rfl⟩ := List.exists_cons_of_ne_nil hne
    rw [List.flatMap_cons] at hblocks
    exact contents_ne_nil newline [] (segments_ne_nil _ _ _ _)
      (List.append_eq_nil_iff.mp hblocks.symm).1
  have hstorable := storable_layout hrecords blockSize
  have hread : readArchive tkvSize block (searchBlock tkvSize (printInt key.toNat))
      (visitTkv (printInt key.toNat)) blocks.length blocks false 0 Search.empty =
      (groups.flatMap (layout convertToTkv blockSize)).foldlM
        (visitSegment (searchWhole (printInt key.toNat)) (visitTkv (printInt key.toNat)))
        Search.empty :=
    readArchive_layout
      (fun s _ _ _ hlead hsegment hsize => searchBlock_segment hlead hsegment hsize _ s)
      hblocks hrecords Search.empty
  have hfold := @foldlM_search _ key _ hstorable (none, none)
  have hheld : ∀ record ∈ searchSegments key (groups.flatMap (layout convertToTkv blockSize)),
      Storable tkvSize record := by
    intro record hrecord
    have hmem := List.mem_of_mem_filter (searchSegments_mem hrecord)
    obtain ⟨segment, hsegment, hitem⟩ := List.mem_flatMap.mp hmem
    exact hstorable segment hsegment record hitem
  rw [searchKeyInFsArchive, if_neg hblocks_ne]
  simp only [hread]
  refine (congrArg (fun o => o.bind fun correct => convertToRecord correct.tkv) hfold).trans ?_
  exact convertToRecord_tkvOf hheld

/-- **When the searching reader agrees with the decoder.**  For an archive as `dump_table`
and `create_partition` write it, or several in a row, the search returns a newest record of
the key, or timestamp -1 when there is none, exactly when `SearchExact` holds. -/
theorem searchKeyInFsArchive_iff {tkvSize blockSize : Nat} {block : Nat → Bytes}
    {blocks : List Nat} {groups : List (List Record)} (hsize : 2 ≤ blockSize)
    (hwritten : WrittenBy blockSize block blocks groups) (hne : groups ≠ [])
    (hrecords : ∀ record ∈ groups.flatten, Storable tkvSize record) (key : UInt16) :
    (∃ found decoded, searchKeyInFsArchive tkvSize block blocks key = some found ∧
      createTkvList tkvSize block blocks = some decoded ∧ IsNewestOf key decoded found) ↔
    SearchExact key (groups.flatMap (layout convertToTkv blockSize)) := by
  have hblocks := hwritten.blocks_eq hsize
  have hspec := @isNewestOf_searchSegments key _ _ (storable_layout hrecords blockSize)
  rw [items_flatMap_layout] at hspec
  rw [searchKeyInFsArchive_layout hblocks hne hrecords, createTkvList_layout hblocks hrecords,
    ← hspec]
  constructor
  · rintro ⟨found, decoded, hfound, hdecoded, hnewest⟩
    obtain rfl := Option.some.inj hfound
    obtain rfl := Option.some.inj hdecoded
    exact hnewest
  · intro hnewest
    exact ⟨_, _, rfl, rfl, hnewest⟩

/-- Nothing can be overwritten wrongly in an archive with one record of the key. -/
theorem searchExact_of_unique {key : UInt16} {ss : List (Segment convertToTkv)}
    (h : (ofKey key (ss.flatMap Segment.items)).length ≤ 1) : SearchExact key ss := by
  rintro before segment after rfl hstray -
  obtain ⟨record, rest, hcons⟩ := List.exists_cons_of_ne_nil (lastWord_ne_nil before after hstray)
  have hmem : record ∈ lastWord key before segment after := hcons ▸ List.mem_cons_self
  refine ⟨record, hmem, fun other hother => ?_⟩
  obtain ⟨only, honly⟩ : ∃ only, ofKey key ((before ++ segment :: after).flatMap Segment.items) =
    [only] :=
    List.length_eq_one_iff.mp (le_antisymm h (List.length_pos_of_mem hother))
  have hrecord := lastWord_subset hmem
  rw [honly, List.mem_singleton] at hother hrecord
  rw [hother, hrecord]

/-- Two records of key 1 that the second block of eight bytes cuts, the newer one last. -/
def cutRecords : List Record := [⟨5, 1, [98]⟩, ⟨9, 1, [97]⟩]

theorem cutRecords_dumped :
    (dumpTable (Storage.formatted 8 8) (cutRecords.map convertToTkv)).isSome := by decide +kernel

/-- `cutRecords` dumped on a formatted filesystem. -/
def cutDump : Storage × Archive :=
  (dumpTable (Storage.formatted 8 8) (cutRecords.map convertToTkv)).get cutRecords_dumped

theorem cutDump_writtenBy : WrittenBy 8 cutDump.1.block (cutDump.2.blocks ++ []) [cutRecords] :=
  .cons (rfl : (Storage.formatted 8 8).blockSize = 8) (by decide +kernel)
    (Or.inl (Option.some_get cutRecords_dumped).symm) (fun _ _ => rfl) .nil

theorem searchKeyInFsArchive_iff_cutRecords :
    (∃ found decoded,
      searchKeyInFsArchive 32 cutDump.1.block (cutDump.2.blocks ++ []) 1 = some found ∧
      createTkvList 32 cutDump.1.block (cutDump.2.blocks ++ []) = some decoded ∧
      IsNewestOf 1 decoded found) ↔
    SearchExact 1 ([cutRecords].flatMap (layout convertToTkv 8)) :=
  searchKeyInFsArchive_iff (by decide) cutDump_writtenBy (by decide) (by decide +kernel) 1

/-- The newer one first: the block that holds `9;1;a` whole ends with the start of
`5;1;b`, so the search takes `9;1;a` without its timestamp and then prefers `5;1;b`. -/
theorem searchKeyInFsArchive_stale :
    ∃ after archive found,
      dumpTable (Storage.formatted 8 8) (cutRecords.reverse.map convertToTkv) =
      some (after, archive) ∧ createTkvList 32 after.block archive.blocks =
      some cutRecords.reverse ∧ searchKeyInFsArchive 32 after.block archive.blocks 1 = some found ∧
      ¬ IsNewestOf 1 cutRecords.reverse found := by
  have hrun : (dumpTable (Storage.formatted 8 8) (cutRecords.reverse.map convertToTkv)).isSome := by
    decide +kernel
  refine ⟨_, _, ⟨5, 1, [98]⟩, (Option.some_get hrun).symm, by decide +kernel, by decide +kernel, ?_⟩
  rintro (⟨record, -, hfound, hall⟩ | ⟨hmissing, -⟩)
  · have hnine := hall ⟨9, 1, [97]⟩ (by decide)
    have htime : time record = 5 := (congrArg (fun f => f.timestamp.toInt) hfound).symm
    rw [htime] at hnine
    exact absurd hnine (by decide)
  · exact absurd hmissing (by decide)

end Lissandra
