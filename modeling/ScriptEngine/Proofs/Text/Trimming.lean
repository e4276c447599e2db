/-
This file is about white space around a text. A text is what trimming leaves of it with white
space on either side, and trimming leaves of a text without white space the whole of it, whatever
white space stands around.
-/

import Mathlib
import ScriptEngine.Proofs.Text.Characters
import ScriptEngine.Text.Blank

namespace ScriptEngine.Text

/-- Characters that are all white space. -/
def Blanks (chars : List Char) : Prop :=
  ∀ char ∈ chars, isBlank char = true

theorem pieces_ofChars (source : List Char) : pieces (ofChars source) = source.map .char := by
  have whole := pieces_ofChars_append source []
  rwa [List.append_nil, show pieces [] = [] from rfl, List.append_nil] at whole

theorem ofPieces_append (first second : List Piece) :
    ofPieces (first ++ second) = ofPieces first ++ ofPieces second :=
  List.flatMap_append

/-- White space is made of characters. -/
theorem exists_blanks_of_pieces (found : List Piece)
    (blank : ∀ piece ∈ found, piece.isBlank = true) :
    ∃ blanks, Blanks blanks ∧ ofPieces found = ofChars blanks := by
  induction found with
  | nil => exact ⟨[], List.forall_mem_nil _, rfl⟩
  | cons piece rest ih =>
    obtain ⟨blanks, areBlanks, written⟩ := ih fun other member => blank other (.tail _ member)
    have first := blank piece List.mem_cons_self
    cases piece with
    | stray byte => cases first
    | char value =>
      refine ⟨value :: blanks, List.forall_mem_cons.mpr ⟨first, areBlanks⟩, ?_⟩
      rw [ofChars_cons, ← written]
      rfl

/-- A text is what `trim` leaves of it, with white space on both sides. -/
theorem exists_blanks (text : Text) :
    ∃ before after, Blanks before ∧ Blanks after ∧
      text = ofChars before ++ trim text ++ ofChars after := by
  have blankFront : ∀ found : List Piece, ∀ piece ∈ found.takeWhile Piece.isBlank,
      piece.isBlank = true := fun found piece member => List.mem_takeWhile_imp member
  have front := List.takeWhile_append_dropWhile (p := Piece.isBlank) (l := pieces text)
  have back := List.takeWhile_append_dropWhile (p := Piece.isBlank)
    (l := ((pieces text).dropWhile Piece.isBlank).reverse)
  obtain ⟨before, areBefore, isBefore⟩ := exists_blanks_of_pieces _ (blankFront (pieces text))
  obtain ⟨after, areAfter, isAfter⟩ := exists_blanks_of_pieces
    (((pieces text).dropWhile Piece.isBlank).reverse.takeWhile Piece.isBlank).reverse
    fun piece member => blankFront _ piece (List.mem_reverse.mp member)
  refine ⟨before, after, areBefore, areAfter, ?_⟩
  have rest : (pieces text).dropWhile Piece.isBlank =
      (((pieces text).dropWhile Piece.isBlank).reverse.dropWhile Piece.isBlank).reverse ++
        (((pieces text).dropWhile Piece.isBlank).reverse.takeWhile Piece.isBlank).reverse := by
    rw [← List.reverse_append, back, List.reverse_reverse]
  calc text = ofPieces (pieces text) := (ofPieces_pieces text).symm
    _ = ofPieces ((pieces text).takeWhile Piece.isBlank) ++
        ofPieces ((pieces text).dropWhile Piece.isBlank) := by
      rw [← ofPieces_append, front]
    _ = ofChars before ++ (trim text ++ ofChars after) := by
      rw [isBefore, rest, ofPieces_append, isAfter]
      rfl
    _ = ofChars before ++ trim text ++ ofChars after := (List.append_assoc ..).symm

/-- A text without white space is what `trim` leaves of it with white space around. -/
theorem trim_blanks {before middle after : List Char} (areBefore : Blanks before)
    (areAfter : Blanks after) (inked : ∀ char ∈ middle, isBlank char = false) :
    trim (ofChars before ++ ofChars middle ++ ofChars after) = ofChars middle := by
  have blank : ∀ {chars : List Char}, Blanks chars →
      ∀ piece ∈ chars.map Piece.char, piece.isBlank = true := by
    intro chars areBlanks piece member
    obtain ⟨char, among, rfl⟩ := List.mem_map.mp member
    exact areBlanks char among
  have stays : ∀ {chars : List Char} (behind : List Piece),
      (∀ char ∈ chars, isBlank char = false) → chars ≠ [] →
        (chars.map Piece.char ++ behind).dropWhile Piece.isBlank =
          chars.map Piece.char ++ behind := by
    intro chars behind inked filled
    obtain ⟨char, others, rfl⟩ := List.exists_cons_of_ne_nil filled
    have first : ¬ Piece.isBlank (.char char) = true := by
      rw [Piece.isBlank, inked char List.mem_cons_self]
      exact Bool.false_ne_true
    rw [List.map_cons, List.cons_append, List.dropWhile_cons_of_neg first]
  have found : pieces (ofChars before ++ ofChars middle ++ ofChars after) =
      before.map .char ++ (middle.map .char ++ after.map .char) := by
    rw [List.append_assoc, pieces_ofChars_append, pieces_ofChars_append, pieces_ofChars]
  unfold trim
  rw [found, List.dropWhile_append_of_pos (blank areBefore)]
  rcases eq_or_ne middle [] with rfl | filled
  · have none : (after.map Piece.char).dropWhile Piece.isBlank = [] :=
      List.dropWhile_eq_nil_iff.mpr (blank areAfter)
    rw [List.map_nil, List.nil_append, none]
    rfl
  · rw [stays _ inked filled, List.reverse_append, List.dropWhile_append_of_pos
      fun piece member => blank areAfter piece (List.mem_reverse.mp member), ← List.map_reverse,
      ← List.append_nil (middle.reverse.map Piece.char), stays _ ?_ (by simpa using filled),
      List.append_nil, ← List.map_reverse, List.reverse_reverse, ← pieces_ofChars,
      ofPieces_pieces]
    exact fun char member => inked char (List.mem_reverse.mp member)

end ScriptEngine.Text
