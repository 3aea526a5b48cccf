import Mathlib.Data.List.InsertIdx
import Mathlib.Order.Bounds.Defs
import Mathlib.Order.Lattice

/-! # The first gap of an increasing list

A strictly increasing list of integers that starts at 0 or later has, up to some index, every
index as its entry, and from there on only greater ones.  That index is the least natural number
that is not in the list (`isLeast_firstGap`), and it is also where the number has to be put for the
list to stay increasing (`pairwise_insertGap`).
-/
namespace Lissandra

/-- The first index from `i` on that is not the entry at its place, where the list starts at index
`i`. -/
def firstGap : List Int → Nat → Nat
  | [], i => i
  | entry :: rest, i => if entry ≠ i then i else firstGap rest (i + 1)

/-- The entries before the gap are the indices, and the one at the gap is another number. -/
theorem firstGap_split (entries : List Int) (i : Nat) :
    ∃ before after, entries = before ++ after ∧ firstGap entries i = i + before.length ∧
      (∀ k : Nat, (k : Int) ∈ before ↔ i ≤ k ∧ k < i + before.length) ∧
      (∀ entry ∈ before, entry < (firstGap entries i : Int)) ∧
      ∀ entry ∈ after.head?, entry ≠ (firstGap entries i : Int) := by
  induction entries generalizing i with
  | nil => exact ⟨[], [], rfl, rfl, by simp, by simp, by simp⟩
  | cons entry rest ih =>
    rw [firstGap]
    split_ifs with hentry
    · exact ⟨[], entry :: rest, rfl, rfl, by simp, by simp, by simpa using hentry⟩
    · rw [not_not] at hentry
      obtain ⟨before, after, rfl, hgap, hmem, hbelow, hhead⟩ := ih (i + 1)
      refine ⟨entry :: before, after, rfl, ?_, fun k => ?_, ?_, hhead⟩
      · rw [hgap, List.length_cons]
        omega
      · rw [List.mem_cons, hmem, hentry, List.length_cons]
        omega
      · rw [List.forall_mem_cons]
        refine ⟨?_, hbelow⟩
        rw [hentry, hgap]
        omega

section Increasing
variable {entries : List Int}

/-- From the gap on there are greater numbers only. -/
theorem firstGap_split_of_pairwise (h : entries.Pairwise (· < ·))
    (hpos : ∀ entry ∈ entries, 0 ≤ entry) :
    ∃ before after, entries = before ++ after ∧ firstGap entries 0 = before.length ∧
      (∀ k : Nat, (k : Int) ∈ before ↔ k < before.length) ∧
      (∀ entry ∈ before, entry < (before.length : Int)) ∧
      ∀ entry ∈ after, (before.length : Int) < entry := by
  obtain ⟨before, after, rfl, hgap, hmem, hbelow, hhead⟩ := firstGap_split entries 0
  rw [Nat.zero_add] at hgap
  rw [hgap] at hbelow hhead
  refine ⟨before, after, rfl, hgap, fun k => by simpa using hmem k, hbelow, ?_⟩
  obtain ⟨-, hafter, hcross⟩ := List.pairwise_append.mp h
  cases after with
  | nil => simp
  | cons first rest =>
    have hne : first ≠ (before.length : Int) := hhead first rfl
    -- a number up to the gap is an entry before it, or negative
    have hfirst : (before.length : Int) < first := by
      by_contra hle
      have hnonneg := hpos first (List.mem_append_right _ List.mem_cons_self)
      obtain ⟨k, rfl⟩ := Int.eq_ofNat_of_zero_le hnonneg
      have hk : (k : Int) ∈ before := by
        rw [hmem]
        omega
      exact absurd (hcross _ hk _ List.mem_cons_self) (lt_irrefl _)
    rw [List.forall_mem_cons]
    refine ⟨hfirst, fun entry hentry => hfirst.trans ?_⟩
    exact (List.pairwise_cons.mp hafter).1 entry hentry

/-- **The first gap is the least natural number that is not there.** -/
theorem isLeast_firstGap (h : entries.Pairwise (· < ·)) (hpos : ∀ entry ∈ entries, 0 ≤ entry) :
    IsLeast { k : Nat | (k : Int) ∉ entries } (firstGap entries 0) := by
  obtain ⟨before, after, rfl, hgap, hmem, -, habove⟩ := firstGap_split_of_pairwise h hpos
  rw [hgap]
  constructor
  · intro hgapMem
    rcases List.mem_append.mp hgapMem with hbefore | hafter
    · exact absurd ((hmem _).mp hbefore) (lt_irrefl _)
    · exact absurd (habove _ hafter) (lt_irrefl _)
  · intro k hk
    by_contra hlt
    exact hk (List.mem_append_left _ ((hmem k).mpr (by omega)))

/-- **Filling the gap at its place** keeps the list increasing. -/
theorem pairwise_insertGap (h : entries.Pairwise (· < ·)) (hpos : ∀ entry ∈ entries, 0 ≤ entry) :
    (entries.insertIdx (firstGap entries 0) (firstGap entries 0 : Int)).Pairwise (· < ·) := by
  obtain ⟨before, after, rfl, hgap, -, hbelow, habove⟩ := firstGap_split_of_pairwise h hpos
  have hinsert : (before ++ after).insertIdx before.length (before.length : Int)
      = before ++ (before.length : Int) :: after :=
    List.modifyTailIdx_add (List.cons (before.length : Int)) 0 before after
  rw [hgap, hinsert]
  obtain ⟨hbefore, hafter, hcross⟩ := List.pairwise_append.mp h
  refine List.pairwise_append.mpr ⟨hbefore, List.pairwise_cons.mpr ⟨habove, hafter⟩, ?_⟩
  intro low hlow high hhigh
  rcases List.mem_cons.mp hhigh with rfl | hhigh
  · exact hbelow low hlow
  · exact hcross low hlow high hhigh

end Increasing

end Lissandra
