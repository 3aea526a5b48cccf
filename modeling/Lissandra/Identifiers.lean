import Lissandra.FirstGap

/-! # Identifiers

`pid_utils.c` and the generator of `response.c`.  Both keep the identifiers that are in use in a
list: a new one is the first index that is not the identifier at its place, and it is added there.
So the list is increasing, and an identifier that is generated is the least one that is not in use
(`identifiers_not_shared`).
-/
namespace Lissandra

/-! ## The two generators -/

/-- The loop of a generator: the new identifier, and the list with it.  At the end of the list,
inserting is adding. -/
def generateIdentifier (ids : List Int) : Int × List Int :=
  let i := firstGap ids 0
  (i, ids.insertIdx i i)

/-- The first entry that is the identifier is removed. -/
def removeIdentifier (ids : List Int) (id : Int) : List Int := ids.erase id

/-- `g_process_ids` and `g_response_ids`. -/
structure Identifiers where
  processIds : List Int
  responseIds : List Int
  deriving DecidableEq

namespace Identifiers
variable (s : Identifiers)

/-- `setup_pid_generator` and `setup_response_id_generator`. -/
def setup : Identifiers := ⟨[], []⟩

/-- `generate_pid`. -/
def generatePid : Int × Identifiers :=
  let (id, processIds) := generateIdentifier s.processIds
  (id, { s with processIds })

/-- `remove_pid`. -/
def removePid (id : Int) : Identifiers :=
  { s with processIds := removeIdentifier s.processIds id }

/-- `generate_id`. -/
def generateId : Int × Identifiers :=
  let (id, responseIds) := generateIdentifier s.responseIds
  (id, { s with responseIds })

/-- `remove_id`. -/
def removeId (id : Int) : Identifiers :=
  { s with responseIds := removeIdentifier s.responseIds id }

end Identifiers

/-- A call, one at a time. -/
inductive IdentifierCall where
  | generatePid
  | removePid (id : Int)
  | generateId
  | removeId (id : Int)

def Identifiers.call (s : Identifiers) : IdentifierCall → Identifiers
  | .generatePid => s.generatePid.2
  | .removePid id => s.removePid id
  | .generateId => s.generateId.2
  | .removeId id => s.removeId id

/-- What the calls leave of the empty lists. -/
def Identifiers.after (calls : List IdentifierCall) : Identifiers :=
  calls.foldl Identifiers.call .setup

/-! ## Increasing lists -/

/-- Identifiers in use. -/
structure LiveIdentifiers (ids : List Int) : Prop where
  increasing : ids.Pairwise (· < ·)
  natural : ∀ id ∈ ids, 0 ≤ id

section Live
variable {ids : List Int}

theorem liveIdentifiers_nil : LiveIdentifiers [] := ⟨.nil, nofun⟩

theorem mem_generateIdentifier (ids : List Int) (other : Int) :
    other ∈ (generateIdentifier ids).2 ↔ other = (generateIdentifier ids).1 ∨ other ∈ ids := by
  obtain ⟨before, after, hsplit, hgap, -⟩ := firstGap_split ids 0
  have hle : firstGap ids 0 ≤ ids.length := by
    rw [hgap, hsplit, List.length_append]
    omega
  exact List.mem_insertIdx hle

theorem LiveIdentifiers.generate (h : LiveIdentifiers ids) :
    LiveIdentifiers (generateIdentifier ids).2 := by
  refine ⟨pairwise_insertGap h.increasing h.natural, fun id hid => ?_⟩
  rcases (mem_generateIdentifier ids id).mp hid with rfl | hid
  · exact Int.natCast_nonneg _
  · exact h.natural id hid

theorem LiveIdentifiers.remove (h : LiveIdentifiers ids) (id : Int) :
    LiveIdentifiers (removeIdentifier ids id) :=
  ⟨h.increasing.sublist List.erase_sublist, fun other hother =>
    h.natural other (List.mem_of_mem_erase hother)⟩

theorem LiveIdentifiers.nodup (h : LiveIdentifiers ids) : ids.Nodup :=
  h.increasing.imp fun hlt => Int.ne_of_lt hlt

end Live

/-- Both lists. -/
structure Identifiers.Live (s : Identifiers) : Prop where
  processIds : LiveIdentifiers s.processIds
  responseIds : LiveIdentifiers s.responseIds

theorem Identifiers.Live.call {s : Identifiers} (h : s.Live) (call : IdentifierCall) :
    (s.call call).Live := by
  cases call with
  | generatePid => exact ⟨h.processIds.generate, h.responseIds⟩
  | removePid id => exact ⟨h.processIds.remove id, h.responseIds⟩
  | generateId => exact ⟨h.processIds, h.responseIds.generate⟩
  | removeId id => exact ⟨h.processIds, h.responseIds.remove id⟩

theorem Identifiers.live_after (calls : List IdentifierCall) : (Identifiers.after calls).Live := by
  have hrun : ∀ s : Identifiers, s.Live → (calls.foldl Identifiers.call s).Live := by
    induction calls with
    | nil => exact fun s hs => hs
    | cons call calls ih => exact fun s hs => ih _ (hs.call call)
  exact hrun _ ⟨liveIdentifiers_nil, liveIdentifiers_nil⟩

/-! ## Identifiers are not shared -/

/-- What a generator promises of its list: it is increasing, the next identifier is the least
natural number that is not in use and is in use afterwards, and a removal takes out the identifier
and nothing else. -/
structure NotShared (ids : List Int) (generate : Int × List Int) (remove : Int → List Int) :
    Prop where
  increasing : ids.Pairwise (· < ·)
  least : ∃ n : Nat, generate.1 = (n : Int) ∧ IsLeast { k : Nat | (k : Int) ∉ ids } n
  generated : ∀ other, other ∈ generate.2 ↔ other = generate.1 ∨ other ∈ ids
  removed : ∀ id other, other ∈ remove id ↔ other ∈ ids ∧ other ≠ id
  notLive : ∀ id, id ∉ ids → remove id = ids

theorem LiveIdentifiers.notShared {ids : List Int} (h : LiveIdentifiers ids) :
    NotShared ids (generateIdentifier ids) (removeIdentifier ids) where
  increasing := h.increasing
  least := ⟨firstGap ids 0, rfl, isLeast_firstGap h.increasing h.natural⟩
  generated := mem_generateIdentifier ids
  removed id other := by rw [removeIdentifier, h.nodup.mem_erase_iff, and_comm]
  notLive _ hid := List.erase_of_not_mem hid

/-- **Identifiers are never shared**, whatever the calls were. -/
theorem identifiers_not_shared (calls : List IdentifierCall) :
    let s := Identifiers.after calls
    NotShared s.processIds (s.generatePid.1, s.generatePid.2.processIds)
        (fun id => (s.removePid id).processIds) ∧
      NotShared s.responseIds (s.generateId.1, s.generateId.2.responseIds)
        (fun id => (s.removeId id).responseIds) := by
  have hlive := Identifiers.live_after calls
  exact ⟨hlive.processIds.notShared, hlive.responseIds.notShared⟩

end Lissandra
