import Lissandra.NestedScripts

/-! # The lines that the loader sees

`get_file_lines` puts a NUL in place of the last byte of what `getline` returns.  That byte is the
newline, but for a last line that has none: it loses its last byte, so `SELECT A 12` at the end of a
script reads key 1.  The lines are those of the file exactly if the file is empty or ends in a
newline (`getFileLines_eq_iff`).
-/
namespace Lissandra

/-! ## Texts and their lines -/

/-- Lines with their newlines. -/
def terminatedLines (lines : List Bytes) : Bytes := lines.flatMap (· ++ [newline])

/-- A last line that has no newline. -/
def lastLine (last : Bytes) : List Bytes := if last = [] then [] else [last]

theorem exists_terminatedLines (contents : Bytes) :
    ∃ lines last, contents = terminatedLines lines ++ last ∧
      (∀ line ∈ lines, newline ∉ line) ∧ newline ∉ last := by
  induction contents with
  | nil => exact ⟨[], [], rfl, nofun, List.not_mem_nil⟩
  | cons b rest ih =>
    obtain ⟨lines, last, rfl, hlines, hlast⟩ := ih
    by_cases hb : b = newline
    · refine ⟨[] :: lines, last, by rw [hb]; rfl, ?_, hlast⟩
      rw [List.forall_mem_cons]
      exact ⟨List.not_mem_nil, hlines⟩
    · -- the byte comes in front of the first line
      have hcons : ∀ line : Bytes, newline ∉ line → newline ∉ b :: line := by
        intro line hline hmem
        rcases List.mem_cons.mp hmem with heq | hmem
        · exact hb heq.symm
        · exact hline hmem
      cases lines with
      | nil => exact ⟨[], b :: last, rfl, nofun, hcons last hlast⟩
      | cons first others =>
        rw [List.forall_mem_cons] at hlines
        refine ⟨(b :: first) :: others, last, rfl, ?_, hlast⟩
        rw [List.forall_mem_cons]
        exact ⟨hcons first hlines.1, hlines.2⟩

section Pieces
variable {piece last : Bytes} {lines : List Bytes}

theorem getLines_append (h : newline ∉ piece) (line rest : Bytes) :
    getLines line (piece ++ rest) = getLines (line ++ piece) rest := by
  induction piece generalizing line with
  | nil => rw [List.nil_append, List.append_nil]
  | cons b piece ih =>
    rw [List.mem_cons, not_or] at h
    rw [List.cons_append, getLines, if_neg (Ne.symm h.1), ih h.2, List.append_assoc,
      List.singleton_append]

theorem splitLines_append (h : newline ∉ piece) (line rest : Bytes) :
    splitLines line (piece ++ rest) = splitLines (line ++ piece) rest := by
  induction piece generalizing line with
  | nil => rw [List.nil_append, List.append_nil]
  | cons b piece ih =>
    rw [List.mem_cons, not_or] at h
    rw [List.cons_append, splitLines, if_neg (Ne.symm h.1), ih h.2, List.append_assoc,
      List.singleton_append]

/-- `getline` returns the lines with their newlines. -/
theorem getLines_terminatedLines (h : ∀ line ∈ lines, newline ∉ line) (hlast : newline ∉ last) :
    getLines [] (terminatedLines lines ++ last)
      = lines.map (· ++ [newline]) ++ lastLine last := by
  induction lines with
  | nil =>
    have hend := getLines_append hlast [] []
    rw [List.append_nil, List.nil_append] at hend
    exact hend
  | cons line lines ih =>
    rw [List.forall_mem_cons] at h
    obtain ⟨hline, hlines⟩ := h
    have htext : terminatedLines (line :: lines) ++ last
        = line ++ newline :: (terminatedLines lines ++ last) := by
      simp [terminatedLines]
    rw [htext, getLines_append hline, getLines, if_pos rfl, ih hlines]
    rfl

/-- **The lines of a text**, with a last one that has no newline. -/
theorem splitLines_terminatedLines (h : ∀ line ∈ lines, newline ∉ line) (hlast : newline ∉ last) :
    splitLines [] (terminatedLines lines ++ last) = lines ++ lastLine last := by
  induction lines with
  | nil =>
    have hend := splitLines_append hlast [] []
    rw [List.append_nil, List.nil_append] at hend
    exact hend
  | cons line lines ih =>
    rw [List.forall_mem_cons] at h
    obtain ⟨hline, hlines⟩ := h
    have htext : terminatedLines (line :: lines) ++ last
        = line ++ newline :: (terminatedLines lines ++ last) := by
      simp [terminatedLines]
    rw [htext, splitLines_append hline, splitLines, if_pos rfl, ih hlines]
    rfl

theorem endsInNewline_terminatedLines (lines : List Bytes) :
    EndsInNewline (terminatedLines lines) := by
  rcases List.eq_nil_or_concat lines with rfl | ⟨others, line, rfl⟩
  · exact .inl rfl
  · refine .inr ?_
    simp [terminatedLines]

end Pieces

/-! ## What is lost -/

/-- A last line without a newline loses its last byte. -/
theorem getFileLines_of_last {lines : List Bytes} {last : Bytes}
    (h : ∀ line ∈ lines, newline ∉ line) (hlast : newline ∉ last) (hne : last ≠ []) :
    getFileLines (terminatedLines lines ++ last) = lines.map .ofBytes ++ [.ofBytes last.dropLast] ∧
      fileLines (terminatedLines lines ++ last) = lines.map .ofBytes ++ [.ofBytes last] := by
  constructor
  · rw [getFileLines, getLines_terminatedLines h hlast, lastLine, if_neg hne, List.map_append,
      List.map_map]
    have hdrop : (fun line : Bytes => CString.ofBytes line.dropLast) ∘ (· ++ [newline])
        = CString.ofBytes := by
      funext line
      exact congrArg CString.ofBytes List.dropLast_concat
    rw [hdrop]
    rfl
  · rw [fileLines, splitLines_terminatedLines h hlast, lastLine, if_neg hne, List.map_append]
    rfl

/-- **When all lines are read whole**: exactly if the file is empty or ends in a newline. -/
theorem getFileLines_eq_iff {contents : Bytes} (h : 0 ∉ contents) :
    getFileLines contents = fileLines contents ↔ EndsInNewline contents := by
  refine ⟨fun hsame => ?_, getFileLines_eq⟩
  obtain ⟨lines, last, rfl, hlines, hlast⟩ := exists_terminatedLines contents
  by_cases hne : last = []
  · rw [hne, List.append_nil]
    exact endsInNewline_terminatedLines lines
  · exfalso
    obtain ⟨hread, hfile⟩ := getFileLines_of_last hlines hlast hne
    rw [hread, hfile, List.append_cancel_left_eq, List.singleton_inj] at hsame
    have hnul : 0 ∉ last := fun hmem => h (List.mem_append_right _ hmem)
    have hbytes := congrArg CString.bytes hsame
    have hdropped : 0 ∉ last.dropLast := fun hmem => hnul (List.mem_of_mem_dropLast hmem)
    rw [bytes_ofBytes hnul, bytes_ofBytes hdropped] at hbytes
    have hlength := congrArg List.length hbytes
    rw [List.length_dropLast] at hlength
    have hpos := List.length_pos_iff.mpr hne
    omega

/-- The script `SELECT A 12` with its newline. -/
theorem getFileLines_eq_select :
    getFileLines [83, 69, 76, 69, 67, 84, 32, 65, 32, 49, 50, 10]
      = fileLines [83, 69, 76, 69, 67, 84, 32, 65, 32, 49, 50, 10] :=
  (getFileLines_eq_iff (by decide)).mpr (by decide)

/-- Without its newline it is read as `SELECT A 1`. -/
theorem not_readWhole :
    getFileLines [83, 69, 76, 69, 67, 84, 32, 65, 32, 49, 50]
        = [.ofBytes [83, 69, 76, 69, 67, 84, 32, 65, 32, 49]] ∧
      ¬ ∀ contents : Bytes, 0 ∉ contents → getFileLines contents = fileLines contents := by
  refine ⟨by decide, fun hall => ?_⟩
  have hread := hall [83, 69, 76, 69, 67, 84, 32, 65, 32, 49, 50] (by decide)
  revert hread
  decide

end Lissandra
