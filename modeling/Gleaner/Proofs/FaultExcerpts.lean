import Gleaner.Proofs.RoundPlaces

/-! # Where a fault is shown

A fault of a text is logged with its offset, a part of its line and a mark under that part. The part is a
window on the line, clipped at its ends; the mark stands under the very character at the offset.
-/

namespace Gleaner.Markup

open Text

variable {skip : List Text} {s before row after : Text} {offset column : Nat} {cause : Cause} {c : Char}

/-- The text has this line, between what is before it and what is after it. -/
structure HasLine (s before row after : Text) : Prop where
  split : s = before ++ row ++ after
  single : '\n' ∉ row
  starts : ∀ c ∈ before.getLast?, c = '\n'
  ends : ∀ c ∈ after.head?, c = '\n'

/-- The excerpt is the part of a line that goes from behind `left` up to `right`, and its column is at the
offset of the text. -/
structure Shows (s : Text) (offset : Nat) (excerpt : Text) (column : Nat) : Prop where
  line : ∃ before left right after, HasLine s before (left ++ excerpt ++ right) after ∧
    before.length + left.length + column = offset
  width : excerpt.length ≤ 80
  mark : column < excerpt.length ∧ excerpt[column]? = s[offset]?

/-! ### The line around an offset -/

theorem lineAround_eq (s : Text) (offset : Nat) :
    lineAround s offset =
      ((s.take offset).rtakeWhile (· != '\n') ++ (s.drop offset).takeWhile (· != '\n'),
        ((s.take offset).rtakeWhile (· != '\n')).length) := rfl

theorem hasLine_lineAround (hoffset : offset ≤ s.length) :
    ∃ before after, HasLine s before (lineAround s offset).1 after ∧
      before.length + (lineAround s offset).2 = offset := by
  rw [lineAround_eq]
  have hfirst : (s.take offset).rdropWhile (· != '\n') ++ (s.take offset).rtakeWhile (· != '\n') =
      s.take offset := List.rdropWhile_append_rtakeWhile
  have hlast : (s.drop offset).takeWhile (· != '\n') ++ (s.drop offset).dropWhile (· != '\n') =
      s.drop offset := List.takeWhile_append_dropWhile
  refine ⟨(s.take offset).rdropWhile (· != '\n'), (s.drop offset).dropWhile (· != '\n'),
    ⟨?_, ?_, ?_, ?_⟩, ?_⟩
  · rw [← List.append_assoc, hfirst, List.append_assoc, hlast, List.take_append_drop]
  · intro hbreak
    rcases List.mem_append.mp hbreak with hleft | hright
    · exact absurd (List.mem_rtakeWhile_imp hleft) (by decide)
    · exact absurd (List.mem_takeWhile_imp hright) (by decide)
  · intro c hc
    obtain ⟨hne, rfl⟩ := List.mem_getLast?_eq_getLast hc
    simpa using List.rdropWhile_last_not _ _ hne
  · intro c hc
    simpa using forall_head?_dropWhile (· != '\n') (s.drop offset) c hc
  · rw [← List.length_append, hfirst, List.length_take, Nat.min_eq_left hoffset]

/-- The character at the offset stands at the column of its line. -/
theorem getElem?_lineAround (hc : s[offset]? = some c) (hbreak : c ≠ '\n') :
    (lineAround s offset).1[(lineAround s offset).2]? = some c := by
  obtain ⟨hoffset, hget⟩ := List.getElem?_eq_some_iff.mp hc
  rw [lineAround_eq, List.getElem?_append_right (Nat.le_refl _), Nat.sub_self,
    List.drop_eq_getElem_cons hoffset, hget, List.takeWhile_cons_of_pos (by simpa using hbreak)]
  rfl

/-! ### The window on the line -/

/-- A window that begins no later than the column and reaches beyond it shows the column's character. -/
theorem HasLine.shows {start : Nat} (hline : HasLine s before row after)
    (hcolumn : before.length + column = offset) (hmark : row[column]? = s[offset]?)
    (hwithin : column < row.length) (hstart : start ≤ column) (hend : column < start + 80) :
    Shows s offset ((row.drop start).take 80) (column - start) where
  line := by
    have hparts : row.take start ++ (row.drop start).take 80 ++ (row.drop start).drop 80 = row := by
      rw [List.append_assoc, List.take_append_drop, List.take_append_drop]
    refine ⟨before, row.take start, (row.drop start).drop 80, after, by rwa [hparts], ?_⟩
    rw [List.length_take]
    omega
  width := List.length_take_le _ _
  mark := by
    constructor
    · rw [List.length_take, List.length_drop]
      omega
    · rw [List.getElem?_take_of_lt (by omega), List.getElem?_drop, Nat.add_sub_cancel' hstart, hmark]

theorem noteFault_eq (s : Text) (cause : Cause) (offset : Nat) :
    noteFault s cause offset =
      .fault cause offset s.length
        (((lineAround s offset).1.drop ((lineAround s offset).2 - 40)).take 80)
        ((lineAround s offset).2 - ((lineAround s offset).2 - 40)) := rfl

/-- The note on a fault shows the character at its offset. -/
theorem shows_noteFault (cause : Cause) (hc : s[offset]? = some c) (hbreak : c ≠ '\n') :
    ∃ excerpt column, noteFault s cause offset = .fault cause offset s.length excerpt column ∧
      Shows s offset excerpt column := by
  have hoffset := (List.getElem?_eq_some_iff.mp hc).1
  obtain ⟨before, after, hline, hcolumn⟩ := hasLine_lineAround (Nat.le_of_lt hoffset)
  have hmark := getElem?_lineAround hc hbreak
  have hwithin := (List.getElem?_eq_some_iff.mp hmark).1
  have hend : (lineAround s offset).2 < (lineAround s offset).2 - 40 + 80 := by omega
  exact ⟨_, _, noteFault_eq s cause offset,
    hline.shows hcolumn (hmark.trans hc.symm) hwithin (Nat.sub_le _ _) hend⟩

/-! ### The fault of a text -/

theorem toDocument_error {content : Content} : content.toDocument.error ≠ some (.fault cause offset) := by
  unfold Content.toDocument
  split
  all_goals nofun

/-- The note on the fault of a text comes last. -/
theorem fault_of_parse (hfault : (parse skip s).error = some (.fault cause offset)) :
    ∃ (fault : Fault) (earlier : List Note), (scan (skip.map lower) s).fault = some fault ∧
      cause = fault.cause ∧ offset = s.length - fault.rest.length ∧
      (read skip s).notes = earlier ++ [noteFault s cause offset] := by
  unfold parse read at hfault
  dsimp only at hfault
  split at hfault
  next => exact absurd hfault toDocument_error
  next fault hscan =>
    obtain ⟨rfl, rfl⟩ := DocumentError.fault.inj (Option.some.inj hfault)
    unfold read
    dsimp only
    rw [hscan]
    exact ⟨fault, _, rfl, rfl, rfl, rfl⟩

/-- The offset of a fault is that of an opening bracket, or of a quote. -/
theorem Fault.LiesIn.getElem? {fault : Fault} (hfault : fault.LiesIn s) :
    if fault.cause = .attributeValue then
      s[s.length - fault.rest.length]? = some '"' ∨ s[s.length - fault.rest.length]? = some '\''
    else s[s.length - fault.rest.length]? = some '<' := by
  have hget : s[s.length - fault.rest.length]? = fault.rest.head? := by
    obtain ⟨before, rfl⟩ := hfault.suffix
    rw [List.length_append, Nat.add_sub_cancel, List.getElem?_append_right (Nat.le_refl _), Nat.sub_self,
      List.head?_eq_getElem?]
  rw [hget]
  exact hfault.mark

/-- The first line of the log is the message of the document, with the length of the text. -/
theorem messages_fault (cause : Cause) (offset length : Nat) (excerpt : Text) (column : Nat) :
    (Note.fault cause offset length excerpt column).messages =
      [(DocumentError.fault cause offset).message ++ " of ".toList ++ ofNat length, excerpt,
        List.replicate column ' ' ++ ['^']] := rfl

/-- A text that cannot be parsed because of a fault has its offset at an opening bracket, or at the opening
quote if it is the value of an attribute that is not ended. The last three lines of the log say so, and show
the character that stands there. -/
theorem fault_shown (hfault : (parse skip s).error = some (.fault cause offset)) :
    offset < s.length ∧
      (if cause = .attributeValue then s[offset]? = some '"' ∨ s[offset]? = some '\''
        else s[offset]? = some '<') ∧
      ∃ earlier excerpt column, (read skip s).notes.flatMap Note.messages = earlier ++
          [(DocumentError.fault cause offset).message ++ " of ".toList ++ ofNat s.length, excerpt,
            List.replicate column ' ' ++ ['^']] ∧
        Shows s offset excerpt column := by
  obtain ⟨fault, earlier, hscan, rfl, rfl, hnotes⟩ := fault_of_parse hfault
  have hchar := ((sound_scan (skip.map lower) s).fault fault hscan).getElem?
  generalize s.length - fault.rest.length = offset at hchar hnotes
  have hc : ∃ c, s[offset]? = some c ∧ c ≠ '\n' := by
    split at hchar
    next =>
      rcases hchar with hquote | hquote
      · exact ⟨_, hquote, by decide⟩
      · exact ⟨_, hquote, by decide⟩
    next => exact ⟨_, hchar, by decide⟩
  obtain ⟨c, hc, hbreak⟩ := hc
  obtain ⟨excerpt, column, hnote, hshows⟩ := shows_noteFault fault.cause hc hbreak
  have hoffset := (List.getElem?_eq_some_iff.mp hc).1
  refine ⟨hoffset, hchar, earlier.flatMap Note.messages, excerpt, column, ?_, hshows⟩
  rw [hnotes, hnote, List.flatMap_append, List.flatMap_singleton, messages_fault]

/-- A value that is not ended, on the second line. -/
theorem fault_shown_quote :
    let s := "<p>\n<b title='x".toList
    (parse [] s).error = some (.fault .attributeValue 13) ∧
      (s[13]? = some '"' ∨ s[13]? = some '\'') ∧
      ∃ earlier excerpt column, (read [] s).notes.flatMap Note.messages = earlier ++
          ["Unterminated attribute value at offset 13 of 15".toList, excerpt,
            List.replicate column ' ' ++ ['^']] ∧
        Shows s 13 excerpt column := by
  intro s
  have hfault : (parse [] s).error = some (.fault .attributeValue 13) := by decide +kernel
  have hmessage : (DocumentError.fault .attributeValue 13).message ++ " of ".toList ++ ofNat s.length =
      "Unterminated attribute value at offset 13 of 15".toList := by decide +kernel
  obtain ⟨-, hquote, hlog⟩ := fault_shown hfault
  rw [hmessage] at hlog
  exact ⟨hfault, hquote, hlog⟩

end Gleaner.Markup
