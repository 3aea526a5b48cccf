import Lissandra.ByteCodec
import Mathlib.Data.List.Basic

/-! # Texts cut over blocks of a fixed size

A format for a list of texts in blocks, as a small library: texts follow each other, each
ended by a NUL; one that its block has no room for is cut, and every part of it but the
last is ended by a continuation mark and the NUL.

A block in which a text starts or ends is a `Segment`: the texts that lie whole in it, and
the one that its end cuts.  `segments` is the layout of a list of items, `contents` the
bytes of the blocks, and `segments_items` says that the layout holds the items in order.
What a reader sees of a block depends on the segment alone, so readers are verified by
induction on the list of segments (`contents`) and never on the sizes.
-/
namespace Lissandra

section Layout
variable {α : Type} (text : α → Bytes)

/-- A text in several blocks: `head` at the end of one, then blocks that hold nothing
else, then `tail` at the start of another. -/
structure Cut where
  item : α
  head : Bytes
  middle : List Bytes
  tail : Bytes
  text_eq : head ++ (middle.flatten ++ tail) = text item
  tail_ne : tail ≠ []

/-- The items that start in one block. -/
structure Segment where
  whole : List α
  cut : Option (Cut text)

variable {text}

/-- The items of a segment, in order. -/
def Segment.items (segment : Segment text) : List α :=
  segment.whole ++ (segment.cut.map Cut.item).toList

/-- A text and its NUL. -/
def line (t : Bytes) : Bytes := t ++ [0]

/-- A part of a text that another block continues. -/
def markedLine (mark : Byte) (t : Bytes) : Bytes := t ++ [mark, 0]

theorem line_mark (mark : Byte) (t : Bytes) : line (t ++ [mark]) = markedLine mark t := by
  simp [line, markedLine]

/-- The texts of items, each with its NUL. -/
def lines (text : α → Bytes) (items : List α) : Bytes := items.flatMap fun a => line (text a)

theorem length_le_lines (text : α → Bytes) (items : List α) :
    items.length ≤ (lines text items).length := by
  induction items with
  | nil => exact Nat.zero_le _
  | cons a rest ih =>
    simp only [lines, List.flatMap_cons, List.length_append, List.length_cons, line,
      List.length_nil] at ih ⊢
    omega

/-- The blocks of a list of segments.  `lead` is what the first block starts with: the
last part of the text cut before it, if there is one. -/
def contents (mark : Byte) : Bytes → List (Segment text) → List Bytes
  | _, [] => []
  | lead, ⟨whole, none⟩ :: rest =>
    (lead ++ lines text whole) :: contents mark [] rest
  | lead, ⟨whole, some cut⟩ :: rest =>
    (lead ++ lines text whole ++ markedLine mark cut.head) ::
      (cut.middle.map (markedLine mark) ++ contents mark (line cut.tail) rest)

/-- Every cut text has a next segment to end in. -/
def Closed : List (Segment text) → Prop
  | [] => True
  | [segment] => segment.cut = none
  | _ :: rest => Closed rest

/-! ## The layout of a list -/

variable (text)

/-- The parts of what is left of a cut text: blocks of `size` filled but for the mark,
and the last part. -/
def cutPieces (size : Nat) : Nat → Bytes → List Bytes × Bytes
  | 0, t => ([], t)
  | fuel + 1, t =>
    if t.length ≤ size then ([], t)
    else
      let (middle, tail) := cutPieces size fuel (t.drop (size - 1))
      (t.take (size - 1) :: middle, tail)

variable {text}

theorem cutPieces_flatten (size fuel : Nat) (t : Bytes) :
    (cutPieces size fuel t).1.flatten ++ (cutPieces size fuel t).2 = t := by
  induction fuel generalizing t with
  | zero => rfl
  | succ fuel ih =>
    rw [cutPieces]
    split
    · rfl
    · rw [List.flatten_cons, List.append_assoc, ih, List.take_append_drop]

theorem cutPieces_ne_nil {size : Nat} (fuel : Nat) {t : Bytes} (h : t ≠ []) :
    (cutPieces size fuel t).2 ≠ [] := by
  induction fuel generalizing t with
  | zero => exact h
  | succ fuel ih =>
    rw [cutPieces]
    split
    · exact h
    · exact ih (fun hnil => by have := List.drop_eq_nil_iff.mp hnil; omega)

/-- An item whose text is longer than the room its block has left. -/
def cutAt (size room : Nat) (a : α) (h : room < (text a).length) : Cut text where
  item := a
  head := (text a).take (room - 1)
  middle := (cutPieces size (text a).length ((text a).drop (room - 1))).1
  tail := (cutPieces size (text a).length ((text a).drop (room - 1))).2
  text_eq := by rw [cutPieces_flatten, List.take_append_drop]
  tail_ne := cutPieces_ne_nil _ fun hnil => by
    have := List.drop_eq_nil_iff.mp hnil
    omega

/-- An item in front of those of the first segment. -/
def addWhole (a : α) : List (Segment text) → List (Segment text)
  | [] => []
  | segment :: rest => { segment with whole := a :: segment.whole } :: rest

/-- The layout of items in blocks of `size`, the first with `room` left.  A block that is
full, or has one byte left, is followed by another. -/
def segments (text : α → Bytes) (size : Nat) : Nat → List α → List (Segment text)
  | _, [] => [⟨[], none⟩]
  | room, a :: rest =>
    let resume := fun room : Nat =>
      if room ≤ 1 then ⟨[], none⟩ :: segments text size size rest
      else segments text size room rest
    if h : (text a).length ≤ room then addWhole a (resume (room - (text a).length))
    else
      let cut := cutAt size room a (Nat.not_le.mp h)
      ⟨[], some cut⟩ :: resume (size - cut.tail.length)

/-- The layout of a list in fresh blocks. -/
def layout (text : α → Bytes) (size : Nat) (items : List α) : List (Segment text) :=
  segments text size size items

/-- The layout from the end of a text on, with `room` left in its block. -/
def resume (text : α → Bytes) (size room : Nat) (rest : List α) : List (Segment text) :=
  if room ≤ 1 then ⟨[], none⟩ :: segments text size size rest else segments text size room rest

theorem segments_whole {size room : Nat} {a : α} (h : (text a).length ≤ room) (rest : List α) :
    segments text size room (a :: rest) =
      addWhole a (resume text size (room - (text a).length) rest) := by
  rw [segments, dif_pos h]
  rfl

theorem segments_cut {size room : Nat} {a : α} (h : room < (text a).length) (rest : List α) :
    segments text size room (a :: rest) =
      ⟨[], some (cutAt size room a h)⟩ ::
        resume text size (size - (cutAt size room a h).tail.length) rest := by
  rw [segments, dif_neg (by omega)]
  rfl

theorem addWhole_ne_nil (a : α) {ss : List (Segment text)} (h : ss ≠ []) : addWhole a ss ≠ [] := by
  cases ss with
  | nil => exact absurd rfl h
  | cons s ss => exact List.cons_ne_nil _ _

theorem segments_ne_nil (text : α → Bytes) (size room : Nat) (items : List α) :
    segments text size room items ≠ [] := by
  induction items generalizing room with
  | nil => exact List.cons_ne_nil _ _
  | cons a rest ih =>
    rcases Nat.lt_or_ge room (text a).length with h | h
    · rw [segments_cut h]
      exact List.cons_ne_nil _ _
    · rw [segments_whole h]
      refine addWhole_ne_nil a ?_
      rw [resume]
      split
      · exact List.cons_ne_nil _ _
      · exact ih _

theorem resume_ne_nil (text : α → Bytes) (size room : Nat) (rest : List α) :
    resume text size room rest ≠ [] := by
  rw [resume]
  split
  · exact List.cons_ne_nil _ _
  · exact segments_ne_nil _ _ _ _

theorem addWhole_items (a : α) {ss : List (Segment text)} (h : ss ≠ []) :
    (addWhole a ss).flatMap Segment.items = a :: ss.flatMap Segment.items := by
  cases ss with
  | nil => exact absurd rfl h
  | cons s ss => rfl

/-- **The layout holds the items in order**, none lost or doubled. -/
@[simp] theorem segments_items (size room : Nat) (items : List α) :
    (segments text size room items).flatMap Segment.items = items := by
  induction items generalizing room with
  | nil => rfl
  | cons a rest ih =>
    have hresume : ∀ room, (resume text size room rest).flatMap Segment.items = rest := by
      intro room
      rw [resume]
      split
      · exact ih _
      · exact ih _
    rcases Nat.lt_or_ge room (text a).length with h | h
    · rw [segments_cut h, List.flatMap_cons, hresume]
      rfl
    · rw [segments_whole h, addWhole_items a (resume_ne_nil _ _ _ _), hresume]

theorem Closed.cons {s : Segment text} {ss : List (Segment text)} (h : Closed ss) (hne : ss ≠ []) :
    Closed (s :: ss) := by
  cases ss with
  | nil => exact absurd rfl hne
  | cons s' ss => exact h

theorem Closed.tail {s : Segment text} {ss : List (Segment text)}
    (h : Closed (s :: ss)) : Closed ss := by
  cases ss with
  | nil => exact trivial
  | cons s' ss => exact h

theorem Closed.ne_nil {s : Segment text} {ss : List (Segment text)} (h : Closed (s :: ss))
    (hcut : s.cut ≠ none) : ss ≠ [] := by
  rintro rfl
  exact hcut h

theorem Closed.addWhole {a : α} {ss : List (Segment text)} (h : Closed ss) :
    Closed (addWhole a ss) := by
  match ss with
  | [] => exact h
  | [_] => exact h
  | _ :: _ :: _ => exact h

/-- The last text of a layout is not cut. -/
theorem segments_closed (text : α → Bytes) (size room : Nat) (items : List α) :
    Closed (segments text size room items) := by
  induction items generalizing room with
  | nil => exact rfl
  | cons a rest ih =>
    have hresume : ∀ room, Closed (resume text size room rest) := by
      intro room
      rw [resume]
      split
      · exact (ih _).cons (segments_ne_nil _ _ _ _)
      · exact ih _
    rcases Nat.lt_or_ge room (text a).length with h | h
    · rw [segments_cut h]
      exact (hresume _).cons (resume_ne_nil _ _ _ _)
    · rw [segments_whole h]
      exact (hresume _).addWhole

/-! ## Contents -/

theorem contents_addWhole (mark : Byte) (lead : Bytes) (a : α) {ss : List (Segment text)}
    (h : ss ≠ []) :
    contents mark lead (addWhole a ss) = contents mark (lead ++ line (text a)) ss := by
  cases ss with
  | nil => exact absurd rfl h
  | cons s ss =>
    obtain ⟨whole, _ | cut⟩ := s <;> simp [addWhole, contents, lines]

/-- The first block starts with the lead. -/
theorem contents_lead (mark : Byte) (lead : Bytes) {ss : List (Segment text)} (h : ss ≠ []) :
    ∃ more rest, contents mark lead ss = (lead ++ more) :: rest := by
  cases ss with
  | nil => exact absurd rfl h
  | cons s ss =>
    obtain ⟨whole, _ | cut⟩ := s
    · exact ⟨_, _, rfl⟩
    · exact ⟨_, _, by rw [contents, List.append_assoc]⟩

theorem contents_ne_nil (mark : Byte) (lead : Bytes) {ss : List (Segment text)} (h : ss ≠ []) :
    contents mark lead ss ≠ [] := by
  cases ss with
  | nil => exact absurd rfl h
  | cons s ss => obtain ⟨whole, _ | cut⟩ := s <;> exact List.cons_ne_nil _ _

/-- Layouts one after the other, as the block lists of several archives. -/
theorem contents_append (mark : Byte) (lead : Bytes) {ss : List (Segment text)} (h : Closed ss)
    (hne : ss ≠ []) (rest : List (Segment text)) :
    contents mark lead (ss ++ rest) = contents mark lead ss ++ contents mark [] rest := by
  induction ss generalizing lead with
  | nil => exact absurd rfl hne
  | cons s ss ih =>
    cases ss with
    | nil =>
      obtain ⟨whole, cut⟩ := s
      obtain rfl : cut = none := h
      rfl
    | cons s' ss =>
      obtain ⟨whole, _ | cut⟩ := s
      · rw [List.cons_append, contents, contents, ih _ h (List.cons_ne_nil _ _), List.cons_append]
      · have hrest := ih (line cut.tail) h (List.cons_ne_nil _ _)
        rw [List.cons_append] at hrest
        simp only [List.cons_append, contents, hrest, List.append_assoc]

theorem Closed.append {ss rest : List (Segment text)} (h : Closed ss) (hrest : Closed rest) :
    Closed (ss ++ rest) := by
  induction ss with
  | nil => exact hrest
  | cons s ss ih =>
    cases ss with
    | nil =>
      cases rest with
      | nil => exact h
      | cons _ _ => exact hrest
    | cons s' ss => exact ih h

/-- The layouts of several lists, one after the other. -/
theorem contents_flatMap_layout (mark : Byte) (size : Nat) (groups : List (List α)) :
    contents mark [] (groups.flatMap (layout text size)) =
      groups.flatMap fun items => contents mark [] (layout text size items) := by
  induction groups with
  | nil => rfl
  | cons items groups ih =>
    have hlayout := contents_append mark [] (segments_closed text size size items)
      (segments_ne_nil text size size items)
    rw [List.flatMap_cons, List.flatMap_cons, ← ih]
    exact hlayout _

theorem items_layout (size : Nat) (items : List α) :
    (layout text size items).flatMap Segment.items = items :=
  segments_items size size items

theorem items_flatMap_layout (size : Nat) (groups : List (List α)) :
    (groups.flatMap (layout text size)).flatMap Segment.items = groups.flatten := by
  induction groups with
  | nil => rfl
  | cons items groups ih =>
    rw [List.flatMap_cons, List.flatMap_append, ih, List.flatten_cons, items_layout]

theorem closed_flatMap_layout (size : Nat) (groups : List (List α)) :
    Closed (groups.flatMap (layout text size)) := by
  induction groups with
  | nil => exact trivial
  | cons items groups ih => exact (segments_closed _ _ _ _).append ih

end Layout

end Lissandra
