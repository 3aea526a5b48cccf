import Mathlib.Data.Fintype.Pigeonhole
import Mathlib.Data.Set.Finite.Range
import Mathlib.Order.WellFounded

/-! # References without cycles

Names have contents, and contents refer to names.  There may be more names than contents, even
infinitely many.  If the contents are finitely many, then following references from a name comes to
an end exactly if no name that is met refers to itself, directly or not (`acc_refers_iff`).
-/
namespace Lissandra

section
variable {Name Text : Type*} (text : Name → Text) (references : Text → Set Name)

/-- A name whose text refers to another one. -/
def Refers (name other : Name) : Prop := other ∈ references (text name)

variable {text references} {name other : Name}

/-- Along a chain of references the names refer to those further on. -/
theorem transGen_chain {chain : ℕ → Name}
    (h : ∀ n, Refers text references (chain n) (chain (n + 1))) {m n : ℕ} (hlt : m < n) :
    Relation.TransGen (Refers text references) (chain m) (chain n) := by
  induction n, hlt using Nat.le_induction with
  | base => exact .single (h m)
  | succ n _ ih => exact ih.tail (h n)

/-- An endless chain of references comes to a text a second time, and so to a cycle. -/
theorem exists_cycle_of_chain (hfinite : (Set.range text).Finite) {chain : ℕ → Name}
    (h : ∀ n, Refers text references (chain n) (chain (n + 1))) :
    ∃ n, Relation.TransGen (Refers text references) (chain n) (chain n) := by
  have : Finite (Set.range text) := hfinite
  obtain ⟨m, n, hne, hsame⟩ := Finite.exists_ne_map_eq_of_infinite fun n =>
    (⟨text (chain n), chain n, rfl⟩ : Set.range text)
  have htext : text (chain m) = text (chain n) := congrArg Subtype.val hsame
  -- the later one of the two refers to what comes after the earlier one
  have hcycle : ∀ i j, i < j → text (chain i) = text (chain j) →
      Relation.TransGen (Refers text references) (chain (i + 1)) (chain (i + 1)) := by
    intro i j hlt htext
    have hback : Refers text references (chain j) (chain (i + 1)) := by
      unfold Refers
      rw [← htext]
      exact h i
    rcases Nat.lt_or_ge (i + 1) j with hlater | hnext
    · exact (transGen_chain h hlater).tail hback
    · obtain rfl : i + 1 = j := by omega
      exact .single hback
  rcases Nat.lt_or_gt_of_ne hne with hlt | hgt
  · exact ⟨m + 1, hcycle m n hlt htext⟩
  · exact ⟨n + 1, hcycle n m hgt htext.symm⟩

/-- **Following references comes to an end** exactly if it meets no cycle. -/
theorem acc_refers_iff (hfinite : (Set.range text).Finite) (name : Name) :
    Acc (fun other name => Refers text references name other) name ↔
      ∀ other, Relation.ReflTransGen (Refers text references) name other →
        ¬ Relation.TransGen (Refers text references) other other := by
  constructor
  · intro hacc
    induction hacc with
    | intro name _ ih =>
      intro other hpath hcycle
      rcases Relation.ReflTransGen.cases_head hpath with rfl | ⟨next, hnext, hrest⟩
      · -- the next name on the cycle is on the cycle, too
        obtain ⟨next, hnext, hback⟩ := Relation.TransGen.head'_iff.mp hcycle
        exact ih next hnext next .refl (Relation.TransGen.tail' hback hnext)
      · exact ih next hnext other hrest hcycle
  · intro hacyclic
    by_contra hnot
    obtain ⟨chain, rfl, hchain⟩ := not_acc_iff_exists_descending_chain.mp hnot
    obtain ⟨n, hcycle⟩ := exists_cycle_of_chain hfinite hchain
    refine hacyclic (chain n) ?_ hcycle
    rcases Nat.eq_zero_or_pos n with rfl | hpos
    · exact .refl
    · exact (transGen_chain hchain hpos).to_reflTransGen

theorem wellFounded_of_acyclic (hfinite : (Set.range text).Finite)
    (hacyclic : ∀ name, ¬ Relation.TransGen (Refers text references) name name) :
    WellFounded fun other name => Refers text references name other :=
  ⟨fun name => (acc_refers_iff hfinite name).mpr fun other _ => hacyclic other⟩

end

end Lissandra
