import Gleaner.Markup.Builder

/-! # What building keeps

Placing a token adds a run of text, or a finished element, to what one open element or the whole text holds.
So a property of contents that both additions keep holds of all that is ever held. Nothing is lost on the
way and nothing changes its place: in the end there are the elements that the tokens begin, in order, and
nothing about them has changed but their texts.
-/

namespace Gleaner

/-- The element without its text. -/
def Element.bare (e : Element) : Element := { e with text := [] }

/-- The elements of a forest in document order, without their texts. -/
def Forest.bares (f : Forest Element) : List Element := f.subtrees.map fun t => t.top.bare

@[simp] theorem Forest.bares_append (f g : Forest Element) : (f ++ g).bares = f.bares ++ g.bares := by
  simp [bares]

@[simp] theorem Forest.bares_single (top : Element) (below : Forest Element) :
    (Forest.cons top below .nil).bares = top.bare :: below.bares := by
  simp [bares, subtrees]

theorem Forest.length_bares (f : Forest Element) : f.bares.length = f.size := by
  simp [bares]

namespace Markup

open Text

/-- The element that the token begins. -/
def Token.element? : Token → Option Element
  | .enter tag pairs => some (.ofAttributes tag pairs)
  | .leaf tag pairs _ => some (.ofAttributes tag pairs)
  | .text _ => none
  | .leave _ _ => none

/-- A property of contents that is kept when a run of text is added, and when a finished element is. -/
structure Content.Kept (Q : Content → Prop) : Prop where
  empty : Q .empty
  run : ∀ {content : Content} {run : Text}, Q content → trim run ≠ [] →
    Q ⟨content.texts ++ [trim run], content.elements⟩
  element : ∀ {outer content : Content} (element : Element), Q outer → Q content →
    Q ⟨outer.texts, outer.elements ++
      .cons { element with text := [' '].intercalate content.texts } content.elements .nil⟩

namespace Builder

variable {Q : Content → Prop} {b : Builder} {tokens : List Token} {token : Token} {element : Element}
  {content : Content}

/-! ### Contents of a kind -/

/-- All that the open elements and the whole text hold is of a kind. -/
structure Holds (Q : Content → Prop) (b : Builder) : Prop where
  opened : ∀ held ∈ b.opened, Q held.2
  top : Q b.top

theorem Holds.modifyContent {change : Content → Content} (hb : b.Holds Q)
    (hchange : ∀ content, Q content → Q (change content)) : (b.modifyContent change).Holds Q := by
  obtain ⟨opened, top, strays⟩ := b
  cases opened with
  | nil => exact ⟨hb.opened, hchange top hb.top⟩
  | cons inner outer =>
      obtain ⟨hinner, houter⟩ := List.forall_mem_cons.mp hb.opened
      exact ⟨List.forall_mem_cons.mpr ⟨hchange _ hinner, houter⟩, hb.top⟩

theorem Holds.addText (hQ : Content.Kept Q) (hb : b.Holds Q) (run : Text) : (b.addText run).Holds Q := by
  unfold Builder.addText
  dsimp only
  split
  next => exact hb
  next hrun => exact hb.modifyContent fun _ hcontent => hQ.run hcontent (by simpa using hrun)

theorem Holds.addElement (hQ : Content.Kept Q) (hb : b.Holds Q) (hcontent : Q content) :
    (b.addElement element content).Holds Q :=
  hb.modifyContent fun _ houter => hQ.element element houter hcontent

theorem Holds.close (hQ : Content.Kept Q) (hb : b.Holds Q) : b.close.Holds Q := by
  unfold Builder.close
  split
  next => exact hb
  next element content outer hopened =>
    obtain ⟨hcontent, houter⟩ := List.forall_mem_cons.mp (hopened ▸ hb.opened)
    exact Holds.addElement hQ ⟨houter, hb.top⟩ hcontent

theorem Holds.closeMany (hQ : Content.Kept Q) (hb : b.Holds Q) (count : Nat) :
    (b.closeMany count).Holds Q := by
  induction count generalizing b with
  | zero => exact hb
  | succ count ih => exact ih (hb.close hQ)

theorem Holds.place (hQ : Content.Kept Q) (hb : b.Holds Q) (token : Token) : (b.place token).Holds Q := by
  cases token with
  | text run => exact hb.addText hQ run
  | enter tag pairs => exact ⟨List.forall_mem_cons.mpr ⟨hQ.empty, hb.opened⟩, hb.top⟩
  | leaf tag pairs run =>
      refine hb.addElement hQ ?_
      split
      next => exact hQ.empty
      next hrun => exact hQ.run hQ.empty (by simpa using hrun)
  | leave tag rest =>
      unfold Builder.place leave
      dsimp only
      split
      next => exact hb.closeMany hQ _
      next => exact ⟨hb.opened, hb.top⟩

theorem holds_ofTokens (hQ : Content.Kept Q) (tokens : List Token) : (ofTokens tokens).Holds Q :=
  List.foldlRecOn tokens Builder.place ⟨nofun, hQ.empty⟩ fun _ hb token _ => hb.place hQ token

/-- What holds of every content on the way holds of the whole. -/
theorem holds_finish (hQ : Content.Kept Q) (tokens : List Token) : Q (ofTokens tokens).finish :=
  ((holds_ofTokens hQ tokens).closeMany hQ _).top

/-! ### The elements in order -/

/-- The elements that are open or finished, in the order in which they began, without their texts. -/
def begun (b : Builder) : List Element :=
  b.opened.foldr (fun held before => before ++ held.1.bare :: held.2.elements.bares) b.top.elements.bares

theorem begun_modifyContent {change : Content → Content} {more : List Element}
    (hchange : ∀ content, (change content).elements.bares = content.elements.bares ++ more) :
    (b.modifyContent change).begun = b.begun ++ more := by
  obtain ⟨opened, top, strays⟩ := b
  cases opened with
  | nil => simp [begun, Builder.modifyContent, hchange]
  | cons inner outer => simp [begun, Builder.modifyContent, hchange]

theorem begun_addText (run : Text) : (b.addText run).begun = b.begun := by
  unfold Builder.addText
  dsimp only
  split
  next => rfl
  next =>
    have hsame : ∀ content : Content,
        (⟨content.texts ++ [trim run], content.elements⟩ : Content).elements.bares =
          content.elements.bares ++ [] :=
      fun content => (List.append_nil _).symm
    rw [begun_modifyContent hsame, List.append_nil]

theorem begun_addElement :
    (b.addElement element content).begun = b.begun ++ element.bare :: content.elements.bares :=
  begun_modifyContent fun outer => by
    rw [Forest.bares_append, Forest.bares_single]
    rfl

theorem begun_close : b.close.begun = b.begun := by
  unfold Builder.close
  split
  next => rfl
  next element content outer hopened =>
    rw [begun_addElement]
    simp only [begun, hopened, List.foldr_cons]

theorem begun_closeMany (count : Nat) : (b.closeMany count).begun = b.begun := by
  induction count generalizing b with
  | zero => rfl
  | succ count ih => rw [Builder.closeMany, ih, begun_close]

/-- Placing a token begins the element of the token, behind all others. -/
theorem begun_place : (b.place token).begun = b.begun ++ token.element?.toList := by
  cases token with
  | text run =>
      rw [Builder.place, begun_addText]
      exact (List.append_nil _).symm
  | enter tag pairs => rfl
  | leaf tag pairs run =>
      rw [Builder.place, begun_addElement]
      split
      all_goals rfl
  | leave tag rest =>
      unfold Builder.place leave
      dsimp only
      split
      next =>
        rw [begun_closeMany]
        exact (List.append_nil _).symm
      next => exact (List.append_nil _).symm

theorem begun_ofTokens (tokens : List Token) : (ofTokens tokens).begun = tokens.filterMap Token.element? := by
  have hplace : ∀ b : Builder, (tokens.foldl Builder.place b).begun =
      b.begun ++ tokens.filterMap Token.element? := by
    induction tokens with
    | nil => exact fun b => (List.append_nil _).symm
    | cons token tokens ih =>
        intro b
        rw [List.foldl_cons, ih, begun_place, List.append_assoc, List.filterMap_cons]
        cases token.element? with
        | none => rfl
        | some e => rfl
  rw [ofTokens, hplace]
  rfl

theorem length_opened_modifyContent (change : Content → Content) :
    (b.modifyContent change).opened.length = b.opened.length := by
  unfold Builder.modifyContent
  split
  next hopened => rw [hopened]
  next hopened => rw [hopened]; rfl

theorem length_opened_closeMany (count : Nat) : (b.closeMany count).opened.length = b.opened.length - count := by
  induction count generalizing b with
  | zero => rfl
  | succ count ih =>
      rw [Builder.closeMany, ih, Builder.close]
      split
      next hopened => simp [hopened]
      next element content outer hopened =>
        rw [Builder.addElement, length_opened_modifyContent, hopened, List.length_cons]
        exact (Nat.add_sub_add_right _ 1 _).symm

/-- In the end there are the elements that the tokens begin, in order. -/
theorem bares_finish (tokens : List Token) :
    (ofTokens tokens).finish.elements.bares = tokens.filterMap Token.element? := by
  have hclosed := length_opened_closeMany (b := ofTokens tokens) (ofTokens tokens).opened.length
  rw [Nat.sub_self, List.length_eq_zero_iff] at hclosed
  rw [← begun_ofTokens, ← begun_closeMany (ofTokens tokens).opened.length, begun, hclosed]
  rfl

end Builder
end Markup
end Gleaner
