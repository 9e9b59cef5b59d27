import Gleaner.Proofs.Arena
import Gleaner.Proofs.Building
import Gleaner.Proofs.RoundPlaces

/-! # Every reading ends

The rounds of the three loops give the document and the notes of any text, in no more rounds than it has
characters and one. What has begun by then has had a bracket of its own, so a document has no more elements
than its text has brackets.
-/

namespace Gleaner

open Text

namespace Document

variable {doc : Document}

/-- The number of nodes that stand for an element of the text: all but the nameless one of a document without
a tree, and the one that is put around several. -/
def elementCount (doc : Document) : Nat :=
  doc.nodes.toList.countP fun n => n.element.tag ≠ [] ∧ n.element.tag ≠ Markup.fragmentTag

theorem elementCount_le_size (doc : Document) : doc.elementCount ≤ doc.root.below.size + 1 := by
  refine Nat.le_trans List.countP_le_length ?_
  rw [Array.length_toList, size_nodes, Tree.size]

theorem elementCount_le_of_root
    (hroot : doc.root.element.tag = [] ∨ doc.root.element.tag = Markup.fragmentTag) :
    doc.elementCount ≤ doc.root.below.size := by
  have hother : ¬ (doc.root.element.tag ≠ [] ∧ doc.root.element.tag ≠ Markup.fragmentTag) := by
    rintro ⟨hnamed, hwritten⟩
    exact hroot.elim hnamed hwritten
  rw [elementCount, doc.nodes_eq, Tree.subtrees, List.countP_cons_of_neg (by simpa using hother)]
  refine Nat.le_trans List.countP_le_length ?_
  rw [Forest.length_subtrees]

theorem elementCount_ofError (error : DocumentError) : (ofError error).elementCount = 0 :=
  Nat.le_zero.mp (elementCount_le_of_root (.inl rfl))

theorem elementCount_toDocument (content : Markup.Content) :
    content.toDocument.elementCount ≤ content.elements.size := by
  unfold Markup.Content.toDocument
  split
  next =>
    rw [elementCount_ofError]
    exact Nat.zero_le _
  next top below helements =>
    refine Nat.le_trans (elementCount_le_size _) ?_
    rw [ofTree, Forest.size_plant, helements]
    rfl
  next =>
    refine Nat.le_trans (elementCount_le_of_root (.inr rfl)) ?_
    rw [ofTree, Forest.size_plant]

end Document

namespace Markup

variable {skip : List Text} {s : Text}

/-- What is made of the tokens of the text. -/
def Scan.reading (s : Text) (result : Scan) : Reading :=
  let builder := Builder.ofTokens result.tokens
  let strays := builder.strays.map fun stray =>
    Note.strayClosing stray.tag (s.length - stray.rest.length)
  match result.fault with
  | none => ⟨builder.finish.toDocument, strays⟩
  | some fault =>
    let offset := s.length - fault.rest.length
    ⟨.ofError (.fault fault.cause offset), strays ++ [noteFault s fault.cause offset]⟩

theorem read_eq (skip : List Text) (s : Text) : read skip s = (scan (skip.map lower) s).reading s := rfl

theorem elementCount_reading {result : Scan} (hsound : result.Sound s) :
    (result.reading s).document.elementCount ≤ s.count '<' := by
  unfold Scan.reading
  dsimp only
  split
  next =>
    refine Nat.le_trans (Document.elementCount_toDocument _) ?_
    rw [← Forest.length_bares, Builder.bares_finish]
    exact hsound.brackets
  next =>
    rw [Document.elementCount_ofError]
    exact Nat.zero_le _

/-- The rounds give what the readers give, and there are no more of them than characters and one. -/
theorem run_begin (skip : List Text) (s : Text) :
    (Progress.begin s).run skip (s.length + 1) = some (scan skip s) := by
  have hrounds : (Progress.begin s).rest.length < s.length + 1 := Nat.lt_succ_self _
  rw [Progress.run_of_length_lt hrounds, Progress.begin, outcome_scan]
  rfl

/-- The reading of any text ends with a document and notes, after at most as many rounds of the three loops
together as the text has characters, and one. Whenever a round is due, what is to be read is an end of the
text, and at every later round it is shorter. The document has at most as many elements as the text has
opening brackets. -/
theorem reading_ends (skip : List Text) (s : Text) :
    ((Progress.begin s).run (skip.map lower) (s.length + 1)).map (Scan.reading s) = some (read skip s) ∧
      (∀ p, Relation.ReflTransGen (Progress.Next (skip.map lower)) (.begin s) p → p.rest <:+ s ∧
        ∀ q, Relation.TransGen (Progress.Next (skip.map lower)) p q → q.rest.length < p.rest.length) ∧
      (parse skip s).elementCount ≤ s.count '<' := by
  refine ⟨?_, fun p hp => ⟨?_, fun q hq => Progress.length_lt_of_transGen hq⟩, ?_⟩
  · rw [run_begin, Option.map_some, read_eq]
  · exact (Progress.sound_of_reflTransGen hp (Progress.sound_begin s)).suffix
  · rw [parse, read_eq]
    exact elementCount_reading (sound_scan _ s)

/-- The first two rounds of a text come to its only tag and to the attribute in it. -/
theorem reading_ends_anchor :
    let s := "<a b>".toList
    let p : Progress := ⟨[.text []], .attributes s (.kept ['a']) [], " b>".toList⟩
    let q : Progress := ⟨[.text []], .attributes s (.kept ['a']) [(['b'], ['b'])], ['>']⟩
    ((Progress.begin s).run [] 6).map (Scan.reading s) = some (read [] s) ∧
      Progress.Next [] (.begin s) p ∧ Progress.Next [] p q ∧ q.rest.length < p.rest.length ∧
      (parse [] s).elementCount ≤ 1 := by
  intro s p q
  have hp : Progress.Next [] (.begin s) p := by
    unfold Progress.Next
    decide +kernel
  have hq : Progress.Next [] p q := by
    unfold Progress.Next
    decide +kernel
  obtain ⟨hrun, hlater, hcount⟩ := reading_ends [] s
  exact ⟨hrun, hp, hq, (hlater p (.single hp)).2 q (.single hq), hcount⟩

end Markup
end Gleaner
