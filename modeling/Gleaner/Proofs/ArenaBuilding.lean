import Gleaner.Proofs.Arena
import Gleaner.Proofs.Building

/-! # The row of nodes while it is filled

A document can be read without a tree. Every start tag puts a node at the end of a row: its parent is the
innermost open element, its depth is one more than the parent's, and its number goes behind those of the other
children of the parent. A text is added to the innermost open element; a closing tag only shortens the list of
the open ones. In the end every number and depth grows by one if several elements stand outside of all others,
which makes room for the one that is put around them.

The row that is filled in this way is the row of nodes of the document that is read. While tokens are placed,
the row has the elements of the tree that is built from the same tokens, in the order in which the finished
tree numbers them: outside of all others, then in the outermost open element, and so on inwards.
-/

namespace Gleaner

open Text

/-- What a row of nodes says about one of them. -/
structure Entry extends Place where
  children : List Nat
deriving DecidableEq

def Tree.entry (n : Node) : Entry := { n.top with children := n.childNumbers }

/-- The nodes of the forest in document order. -/
def Forest.entries (f : Forest Place) : List Entry := f.subtrees.map Tree.entry

/-- The nodes of the document in order, or why there is no tree. -/
def Document.row (doc : Document) : Except DocumentError (List Entry) :=
  match doc.error with
  | some error => .error error
  | none => .ok (doc.nodes.toList.map Tree.entry)

namespace Markup

/-- A node of a row that is being filled. Its number is its place in the row. -/
structure Stub where
  element : Element
  /-- The runs of text, trimmed, without the blank ones. -/
  texts : List Text
  parent : Option Nat
  depth : Nat
  children : List Nat
deriving DecidableEq

/-- Adds a run of text unless it is blank. -/
def Stub.addText (run : Text) (stub : Stub) : Stub :=
  if (trim run).isEmpty then stub else { stub with texts := stub.texts ++ [trim run] }

def Stub.addChild (i : Nat) (stub : Stub) : Stub := { stub with children := stub.children ++ [i] }

/-- The node with the number `i`, and every number and depth made greater by `shift`. -/
def Stub.entry (shift i : Nat) (stub : Stub) : Entry :=
  { stub.element with
    text := [' '].intercalate stub.texts
    index := i + shift
    depth := stub.depth + shift
    parent := match stub.parent with
      | some p => some (p + shift)
      | none => if shift = 0 then none else some 0
    children := stub.children.map (· + shift) }

/-- The nodes of a row, numbered from `next` on. -/
def entriesFrom (shift next : Nat) (stubs : List Stub) : List Entry :=
  (stubs.zipIdx next).map fun (stub, i) => stub.entry shift i

/-- A row of nodes that is being filled. -/
structure Arena where
  stubs : List Stub
  /-- The numbers of the elements that are open, the innermost first. -/
  opened : List Nat
  /-- The numbers of the elements outside of all others, and the texts there. -/
  topLevel : List Nat
  topTexts : List Text

namespace Arena

def empty : Arena := ⟨[], [], [], []⟩

def modifyStub (i : Nat) (change : Stub → Stub) (a : Arena) : Arena :=
  { a with stubs := a.stubs.modify i change }

/-- Puts an element at the end of the row and opens it. -/
def enter (element : Element) (a : Arena) : Arena :=
  let i := a.stubs.length
  match a.opened with
  | [] =>
    { a with
      stubs := a.stubs ++ [⟨element, [], none, 0, []⟩]
      opened := [i]
      topLevel := a.topLevel ++ [i] }
  | parent :: outer =>
    let depth := (a.stubs[parent]?.map (·.depth + 1)).getD 0
    let stub : Stub := ⟨element, [], some parent, depth, []⟩
    { a with
      stubs := (a.stubs ++ [stub]).modify parent (·.addChild i)
      opened := i :: parent :: outer }

/-- Closes the element with the number `i` if it is the innermost open one. -/
def exit (i : Nat) (a : Arena) : Arena :=
  if a.opened.head? = some i then { a with opened := a.opened.tail } else a

def addText (run : Text) (a : Arena) : Arena :=
  match a.opened with
  | [] => if (trim run).isEmpty then a else { a with topTexts := a.topTexts ++ [trim run] }
  | i :: _ => a.modifyStub i (·.addText run)

/-- A closing tag closes the innermost open element of its name and all within. -/
def leave (tag : Text) (a : Arena) : Arena :=
  match a.opened.findIdx? fun i => (a.stubs[i]?).any (·.element.tag == tag) with
  | some inner => { a with opened := a.opened.drop (inner + 1) }
  | none => a

def place (a : Arena) : Token → Arena
  | .text run => a.addText run
  | .enter tag pairs => a.enter (.ofAttributes tag pairs)
  | .leaf tag pairs content =>
    let i := a.stubs.length
    ((a.enter (.ofAttributes tag pairs)).modifyStub i (·.addText content)).exit i
  | .leave tag _ => a.leave tag

/-- All tokens placed in order. -/
def ofTokens (tokens : List Token) : Arena := tokens.foldl place empty

/-- The finished row. Unless there is a single element outside of all others, one is put around them. -/
def freeze (a : Arena) : List Entry :=
  let shift := if a.topLevel.length = 1 then 0 else 1
  let fragment : Entry :=
    { Element.ofAttributes fragmentTag [] with
      text := [' '].intercalate a.topTexts
      index := 0
      depth := 0
      parent := none
      children := a.topLevel.map (· + 1) }
  (if shift = 0 then [] else [fragment]) ++ entriesFrom shift 0 a.stubs

end Arena

/-- The row of nodes of a markup text, or why there is none. -/
def readRow (skip : List Text) (s : Text) : Except DocumentError (List Entry) :=
  let result := scan (skip.map lower) s
  match result.fault with
  | some fault => .error (.fault fault.cause (s.length - fault.rest.length))
  | none =>
    let arena := Arena.ofTokens result.tokens
    if arena.stubs.isEmpty then .error .noElements else .ok arena.freeze

end Markup

/-! ### Numbers of a forest -/

section Numbers

variable {α : Type}

/-- What is put at the end of a forest is numbered behind it. -/
theorem Forest.plant_append (f g : Forest Element) (parent : Option Nat) (depth next : Nat) :
    (f ++ g).plant parent depth next = f.plant parent depth next ++ g.plant parent depth (next + f.size) := by
  induction f generalizing next with
  | nil => rfl
  | cons top below after _ ih =>
      have hnext : next + 1 + below.size + after.size = next + (below.size + after.size + 1) := by omega
      rw [cons_append, plant, plant, ih, cons_append, size, hnext]

theorem Forest.trees_append (f g : Forest α) : (f ++ g).trees = f.trees ++ g.trees := by
  induction f with
  | nil => rfl
  | cons top below after _ ih => rw [cons_append, trees, trees, ih, List.cons_append]

theorem Forest.entries_append (f g : Forest Place) : (f ++ g).entries = f.entries ++ g.entries := by
  rw [entries, subtrees_append, List.map_append]
  rfl

theorem Forest.entries_cons (place : Place) (below after : Forest Place) :
    (cons place below after).entries =
      { place with children := below.trees.map Tree.index } :: (below.entries ++ after.entries) := by
  rw [entries, subtrees, List.map_cons, List.map_append]
  rfl

theorem Forest.length_entries (f : Forest Place) : f.entries.length = f.size := by
  rw [entries, List.length_map, length_subtrees]

/-- The entry in a row whose nodes stand below one more node, which comes first. -/
def Entry.hung (entry : Entry) : Entry :=
  { entry with
    index := entry.index + 1
    depth := entry.depth + 1
    parent := some ((entry.parent.map (· + 1)).getD 0)
    children := entry.children.map (· + 1) }

theorem Forest.tops_plant_succ (f : Forest Element) (parent parent' : Option Nat) (depth depth' next : Nat) :
    (f.plant parent' depth' (next + 1)).trees.map Tree.index =
      ((f.plant parent depth next).trees.map Tree.index).map (· + 1) := by
  induction f generalizing next with
  | nil => rfl
  | cons top below after _ ih =>
      have hnext : next + 1 + 1 + below.size = next + 1 + below.size + 1 := by omega
      rw [plant, plant, hnext]
      exact congrArg _ (ih _)

/-- Below one more node the forest has the same nodes, hung from that node. -/
theorem Forest.entries_plant_succ (f : Forest Element) (parent : Option Nat) (depth next : Nat) :
    (f.plant (some ((parent.map (· + 1)).getD 0)) (depth + 1) (next + 1)).entries =
      (f.plant parent depth next).entries.map Entry.hung := by
  induction f generalizing parent depth next with
  | nil => rfl
  | cons top below after ihbelow ihafter =>
      have hnext : next + 1 + 1 + below.size = next + 1 + below.size + 1 := by omega
      have hbelow : (below.plant (some (next + 1)) (depth + 1 + 1) (next + 1 + 1)).entries = _ :=
        ihbelow (some next) (depth + 1) (next + 1)
      rw [plant, plant, entries_cons, entries_cons, List.map_cons, List.map_append, hnext, hbelow, ihafter,
        tops_plant_succ below (some next) _ (depth + 1)]
      rfl

end Numbers

theorem Document.row_ofTree (t : Tree Element) :
    (ofTree t).row = .ok (t.toForest.plant none 0 0).entries := by
  change Except.ok ((ofTree t).root.subtrees.toArray.toList.map Tree.entry) = _
  rw [List.toList_toArray, ← Tree.subtrees_toForest]
  rfl

namespace Markup

/-! ### Parts of a row -/

section Parts

variable {shift next : Nat} {before after : List Stub}

theorem Stub.entry_zero (stub : Stub) (i : Nat) :
    stub.entry 0 i =
      { stub.element with
        text := [' '].intercalate stub.texts
        index := i
        depth := stub.depth
        parent := stub.parent
        children := stub.children } := by
  obtain ⟨element, texts, parent, depth, children⟩ := stub
  cases parent with
  | none => simp [entry]
  | some p => simp [entry]

theorem Stub.entry_one (stub : Stub) (i : Nat) : stub.entry 1 i = (stub.entry 0 i).hung := by
  rw [entry_zero]
  obtain ⟨element, texts, parent, depth, children⟩ := stub
  cases parent with
  | none => rfl
  | some p => rfl

theorem entriesFrom_cons (stub : Stub) (more : List Stub) :
    entriesFrom shift next (stub :: more) = stub.entry shift next :: entriesFrom shift (next + 1) more := rfl

theorem entriesFrom_append (before after : List Stub) :
    entriesFrom shift next (before ++ after) =
      entriesFrom shift next before ++ entriesFrom shift (next + before.length) after := by
  rw [entriesFrom, List.zipIdx_append, List.map_append]
  rfl

theorem length_entriesFrom (stubs : List Stub) : (entriesFrom shift next stubs).length = stubs.length := by
  rw [entriesFrom, List.length_map, List.length_zipIdx]

theorem entriesFrom_one (stubs : List Stub) :
    entriesFrom 1 next stubs = (entriesFrom 0 next stubs).map Entry.hung := by
  rw [entriesFrom, entriesFrom, List.map_map]
  exact List.map_congr_left fun pair _ => pair.1.entry_one pair.2

theorem modify_length_append (change : Stub → Stub) :
    (before ++ stub :: after).modify before.length change = before ++ change stub :: after :=
  List.modifyTailIdx_add _ 0 before (stub :: after)

end Parts

/-- The row of `stubs`, in which the elements with the numbers `opened` are open, has the elements that are held
outside of all others in `outside` or in one of the open elements. The children that the innermost element has
besides are `inner`.

The row is split where the innermost open element stands: before it is all that began before it, behind it what
it holds. -/
inductive Arena.Holds (outside : Forest Element) (topLevel : List Nat) :
    List (Element × Content) → (opened inner : List Nat) → List Stub → Prop
  | outside {inner : List Nat} {stubs : List Stub}
      (hstubs : entriesFrom 0 0 stubs = (outside.plant none 0 0).entries)
      (htop : topLevel = (outside.plant none 0 0).trees.map Tree.index ++ inner) :
      Holds outside topLevel [] [] inner stubs
  | inside {element : Element} {content : Content} {held : List (Element × Content)} {i : Nat}
      {opened inner : List Nat} {before after : List Stub} {stub : Stub} {below : Forest Place}
      (hbefore : Holds outside topLevel held opened [i] before) (hi : i = before.length)
      (hbelow : below = content.elements.plant (some i) (opened.length + 1) (i + 1))
      (hstub : stub = ⟨element, content.texts, opened.head?, opened.length,
        below.trees.map Tree.index ++ inner⟩)
      (hafter : entriesFrom 0 (i + 1) after = below.entries) :
      Holds outside topLevel ((element, content) :: held) (i :: opened) inner (before ++ stub :: after)

/-- A row of nodes that holds what the builder holds. -/
structure Arena.Follows (a : Arena) (b : Builder) : Prop where
  row : Holds b.top.elements a.topLevel b.opened a.opened [] a.stubs
  texts : a.topTexts = b.top.texts

/-! ### Steps -/

section Steps

variable {f : Forest Element} {parent : Option Nat} {depth next i : Nat} {ours after : List Stub}
  {below : Forest Place} {content : Content}

/-- An element that is closed is the last of those beside it, and what it holds follows it in the row. -/
theorem entriesFrom_closed (element : Element)
    (hours : entriesFrom 0 next ours = (f.plant parent depth next).entries)
    (hi : i = next + ours.length) (hbelow : below = content.elements.plant (some i) (depth + 1) (i + 1))
    (hafter : entriesFrom 0 (i + 1) after = below.entries) :
    entriesFrom 0 next
        (ours ++ ⟨element, content.texts, parent, depth, below.trees.map Tree.index⟩ :: after) =
      ((f ++ .cons { element with text := [' '].intercalate content.texts } content.elements .nil).plant
        parent depth next).entries ∧
    ((f ++ .cons { element with text := [' '].intercalate content.texts } content.elements .nil).plant
        parent depth next).trees.map Tree.index =
      (f.plant parent depth next).trees.map Tree.index ++ [i] := by
  have hsize : next + f.size = i := by
    have hlength := congrArg List.length hours
    rw [length_entriesFrom, Forest.length_entries, Forest.size_plant] at hlength
    rw [hi, hlength]
  subst hbelow
  rw [Forest.plant_append, hsize]
  constructor
  · rw [entriesFrom_append, entriesFrom_cons, ← hi, hours, hafter, Forest.entries_append, Forest.plant,
      Forest.entries_cons, Stub.entry_zero]
    exact congrArg _ (congrArg _ (List.append_nil _).symm)
  · rw [Forest.trees_append, List.map_append]
    rfl

end Steps

theorem Builder.place_leaf (b : Builder) (tag : Text) (pairs : List (Text × Text)) (content : Text) :
    b.place (.leaf tag pairs content) =
      (Builder.addText content
        { b with opened := (.ofAttributes tag pairs, .empty) :: b.opened }).close := by
  unfold Builder.place Builder.addText
  dsimp only
  split
  next => rfl
  next => rfl

namespace Arena

variable {a : Arena} {b : Builder}

theorem getElem?_length_append (before after : List Stub) (stub : Stub) :
    (before ++ stub :: after)[before.length]? = some stub := by
  rw [List.getElem?_append_right (Nat.le_refl _), Nat.sub_self]
  rfl

/-- Below an open element, a new one is linked with it and put at the end of the row. -/
theorem enter_below (element : Element) (before after : List Stub) (stub : Stub) (outer topLevel : List Nat)
    (topTexts : List Text) :
    let i := (before ++ stub :: after).length
    enter element ⟨before ++ stub :: after, before.length :: outer, topLevel, topTexts⟩ =
      ⟨(before ++ stub.addChild i :: after) ++ [⟨element, [], some before.length, stub.depth + 1, []⟩],
        i :: before.length :: outer, topLevel, topTexts⟩ := by
  intro i
  unfold enter
  simp only [getElem?_length_append, List.append_assoc, List.cons_append, modify_length_append]
  rfl

theorem Follows.enter (h : a.Follows b) (element : Element) :
    (a.enter element).Follows { b with opened := (element, .empty) :: b.opened } := by
  obtain ⟨stubs, opened, topLevel, topTexts⟩ := a
  obtain ⟨held, top, strays⟩ := b
  obtain ⟨hrow, htexts⟩ := h
  dsimp only at hrow htexts
  cases hrow with
  | outside hstubs htop =>
      refine ⟨.inside (.outside hstubs ?_) rfl rfl rfl rfl, htexts⟩
      rw [htop, List.append_nil]
      rfl
  | @inside _ _ _ p opened _ before after stub below hbefore hp hbelow hstub hafter =>
      subst hp
      rw [enter_below]
      -- the row with the new link stands before the new node, whose number is the length of the row
      refine ⟨.inside (.inside hbefore rfl hbelow ?_ hafter) ?_ rfl ?_ rfl, htexts⟩
      · rw [hstub, Stub.addChild, List.append_nil]
      · rw [List.length_append, List.length_append]
        rfl
      · rw [hstub]
        rfl

theorem Follows.addText (h : a.Follows b) (run : Text) : (a.addText run).Follows (b.addText run) := by
  obtain ⟨stubs, opened, topLevel, topTexts⟩ := a
  obtain ⟨held, top, strays⟩ := b
  obtain ⟨hrow, htexts⟩ := h
  dsimp only at hrow htexts
  unfold Arena.addText Builder.addText
  cases hrow with
  | outside hstubs htop =>
      dsimp only
      split
      next => exact ⟨.outside hstubs htop, htexts⟩
      next => exact ⟨.outside hstubs htop, congrArg (· ++ [trim run]) htexts⟩
  | @inside _ _ _ p opened _ before after stub below hbefore hp hbelow hstub hafter =>
      subst hp
      dsimp only
      rw [modifyStub, modify_length_append, Stub.addText]
      split
      next => exact ⟨.inside hbefore rfl hbelow hstub hafter, htexts⟩
      next => exact ⟨.inside hbefore rfl hbelow (by rw [hstub]) hafter, htexts⟩

/-- The closing of an element changes nothing in the row: the element and what it holds are there already,
right behind what the element around it holds. -/
theorem Follows.close (h : a.Follows b) : Follows { a with opened := a.opened.tail } b.close := by
  obtain ⟨stubs, opened, topLevel, topTexts⟩ := a
  obtain ⟨held, top, strays⟩ := b
  obtain ⟨hrow, htexts⟩ := h
  dsimp only at hrow htexts
  cases hrow with
  | outside hstubs htop => exact ⟨.outside hstubs htop, htexts⟩
  | @inside element content _ i _ _ _ after _ below hbefore hi hbelow hstub hafter =>
      rw [List.append_nil] at hstub
      subst hstub
      -- the closed element goes to what is held one place further out
      cases hbefore with
      | outside hstubs htop =>
          obtain ⟨hrow, htops⟩ :=
            entriesFrom_closed element hstubs (hi.trans (Nat.zero_add _).symm) hbelow hafter
          refine ⟨.outside hrow ?_, htexts⟩
          rw [htop, List.append_nil]
          exact htops.symm
      | @inside host beside _ p outer _ before ours stub around hbefore hp haround hstub hours =>
          have hplace : i = p + 1 + ours.length := by
            rw [hi, hp, List.length_append, List.length_cons, Nat.add_right_comm, Nat.add_assoc]
          subst haround
          obtain ⟨hrow, htops⟩ := entriesFrom_closed element hours hplace hbelow hafter
          refine ⟨?_, htexts⟩
          dsimp only
          rw [List.append_assoc, List.cons_append]
          refine .inside hbefore hp rfl ?_ hrow
          rw [hstub, ← htops, List.append_nil]

theorem Follows.closeMany (h : a.Follows b) (count : Nat) :
    Follows { a with opened := a.opened.drop count } (b.closeMany count) := by
  induction count generalizing a b with
  | zero => exact h
  | succ count ih =>
      have hlater := ih h.close
      rw [List.drop_tail] at hlater
      exact hlater

/-- The numbers of the open elements lead to these elements, also when the row has become longer. -/
theorem Holds.findIdx?_opened {outside : Forest Element} {topLevel opened inner : List Nat}
    {held : List (Element × Content)} {stubs : List Stub}
    (h : Holds outside topLevel held opened inner stubs) (tag : Text) (more : List Stub) :
    opened.findIdx? (fun i => ((stubs ++ more)[i]?).any (·.element.tag == tag)) =
      held.findIdx? (·.1.tag == tag) := by
  -- going outwards, what stands behind an open element makes no difference to those before it
  induction h generalizing more with
  | outside hstubs htop => rfl
  | @inside _ _ _ _ _ _ before after stub _ _ hi _ hstub _ ih =>
      have hhere : ((before ++ stub :: after) ++ more)[before.length]? = some stub := by
        rw [List.append_assoc, List.cons_append, getElem?_length_append]
      have houter := ih (stub :: (after ++ more))
      rw [List.findIdx?_cons, List.findIdx?_cons, hi, hhere, ← houter, hstub, List.append_assoc]
      rfl

theorem Follows.leave (h : a.Follows b) (tag rest : Text) : (a.leave tag).Follows (b.leave tag rest) := by
  have hfind := h.row.findIdx?_opened tag []
  rw [List.append_nil] at hfind
  unfold Arena.leave Builder.leave
  rw [hfind]
  cases b.opened.findIdx? (·.1.tag == tag) with
  | none => exact ⟨h.row, h.texts⟩
  | some inner => exact h.closeMany (inner + 1)

theorem opened_enter (a : Arena) (element : Element) :
    (a.enter element).opened = a.stubs.length :: a.opened := by
  unfold Arena.enter
  split
  next hopened => rw [hopened]
  next hopened => rw [hopened]

/-- An element that is complete at once is one that is entered, gets its text and is closed. -/
theorem place_leaf (a : Arena) (tag : Text) (pairs : List (Text × Text)) (content : Text) :
    let filled := (a.enter (.ofAttributes tag pairs)).addText content
    a.place (.leaf tag pairs content) = { filled with opened := filled.opened.tail } := by
  have hopened := a.opened_enter (.ofAttributes tag pairs)
  simp only [place, exit, Arena.addText, modifyStub, hopened, List.head?_cons, if_true]

/-- The row keeps up with the builder, whatever token is placed. -/
theorem Follows.place (h : a.Follows b) (token : Token) : (a.place token).Follows (b.place token) := by
  cases token with
  | text run => exact h.addText run
  | enter tag pairs => exact h.enter (.ofAttributes tag pairs)
  | leaf tag pairs content =>
      rw [place_leaf, Builder.place_leaf]
      exact ((h.enter (.ofAttributes tag pairs)).addText content).close
  | leave tag rest => exact h.leave tag rest

theorem follows_ofTokens (tokens : List Token) : (ofTokens tokens).Follows (Builder.ofTokens tokens) := by
  unfold ofTokens Builder.ofTokens
  have hrun : ∀ (a : Arena) (b : Builder), a.Follows b →
      (tokens.foldl Arena.place a).Follows (tokens.foldl Builder.place b) := by
    induction tokens with
    | nil => exact fun _ _ h => h
    | cons token tokens ih => exact fun a b h => ih _ _ (h.place token)
  exact hrun _ _ ⟨.outside rfl rfl, rfl⟩

/-! ### The finished row -/

theorem Follows.row_of_closed (h : a.Follows b) (hclosed : b.opened = []) :
    entriesFrom 0 0 a.stubs = (b.top.elements.plant none 0 0).entries ∧
      a.topLevel = (b.top.elements.plant none 0 0).trees.map Tree.index := by
  obtain ⟨stubs, opened, topLevel, topTexts⟩ := a
  have hrow := h.row
  rw [hclosed] at hrow
  cases hrow with
  | outside hstubs htop => exact ⟨hstubs, htop.trans (List.append_nil _)⟩

/-- A single element outside of all others keeps its number. -/
theorem row_of_one {top : Element} {below : Forest Element}
    (hrow : entriesFrom 0 0 a.stubs = ((Forest.cons top below .nil).plant none 0 0).entries)
    (hone : a.topLevel.length = 1) : (Document.ofTree ⟨top, below⟩).row = .ok a.freeze := by
  rw [freeze, if_pos hone, Document.row_ofTree, hrow]
  rfl

/-- Several elements outside of all others are hung from the one that is put around them. -/
theorem row_of_several {elements : Forest Element} {texts : List Text}
    (hrow : entriesFrom 0 0 a.stubs = (elements.plant none 0 0).entries)
    (htop : a.topLevel = (elements.plant none 0 0).trees.map Tree.index) (htexts : a.topTexts = texts)
    (hmany : ¬ a.topLevel.length = 1) :
    (Document.ofTree ⟨{ Element.ofAttributes fragmentTag [] with text := [' '].intercalate texts },
      elements⟩).row = .ok a.freeze := by
  rw [freeze, if_neg hmany, Document.row_ofTree, Tree.toForest, Forest.plant, Forest.entries_cons]
  rw [entriesFrom_one, hrow, ← Forest.entries_plant_succ, htop, htexts,
    ← Forest.tops_plant_succ elements none (some 0) 0 1]
  exact congrArg Except.ok (congrArg _ (List.append_nil _))

/-- Once no element is open, the row is finished as the document is. -/
theorem row_toDocument {content : Content}
    (hrow : entriesFrom 0 0 a.stubs = (content.elements.plant none 0 0).entries)
    (htop : a.topLevel = (content.elements.plant none 0 0).trees.map Tree.index)
    (htexts : a.topTexts = content.texts) :
    content.toDocument.row = if a.stubs.isEmpty then .error .noElements else .ok a.freeze := by
  have hlength : a.stubs.length = content.elements.size := by
    rw [← length_entriesFrom, hrow, Forest.length_entries, Forest.size_plant]
  obtain ⟨texts, elements⟩ := content
  dsimp only at hrow htop htexts hlength
  cases elements with
  | nil =>
      rw [List.length_eq_zero_iff.mp hlength]
      rfl
  | cons top below after =>
      have hsome : ¬ a.stubs.isEmpty = true := by
        rw [List.isEmpty_iff_length_eq_zero, hlength]
        exact Nat.succ_ne_zero _
      rw [if_neg hsome]
      cases after with
      | nil => exact row_of_one hrow (congrArg List.length htop)
      | cons next lower after =>
          refine row_of_several hrow htop htexts ?_
          rw [htop]
          simp [Forest.plant, Forest.trees]

/-- The row that is filled by placing tokens is that of the document of what the tokens hold. -/
theorem row_ofTokens (tokens : List Token) :
    (Builder.ofTokens tokens).finish.toDocument.row =
      if (ofTokens tokens).stubs.isEmpty then .error .noElements else .ok (ofTokens tokens).freeze := by
  have hfollows := (follows_ofTokens tokens).closeMany (Builder.ofTokens tokens).opened.length
  have hclosed := Builder.length_opened_closeMany (b := Builder.ofTokens tokens)
    (Builder.ofTokens tokens).opened.length
  rw [Nat.sub_self, List.length_eq_zero_iff] at hclosed
  obtain ⟨hrow, htop⟩ := hfollows.row_of_closed hclosed
  exact row_toDocument (a := ofTokens tokens) hrow htop hfollows.texts

end Arena
end Markup

namespace Document

variable {skip : List Text} {s : Text} {row : List Entry}

/-- Whatever text is read, the document has the row of nodes that is filled while the text is read. -/
theorem row_parse (skip : List Text) (s : Text) : (Markup.parse skip s).row = Markup.readRow skip s := by
  unfold Markup.parse Markup.read Markup.readRow
  dsimp only
  cases (Markup.scan (skip.map lower) s).fault with
  | none => exact Markup.Arena.row_ofTokens _
  | some fault => rfl

example : (Markup.readRow [] "a<b>c</b><i>d</i>".toList).map
      (·.map fun entry => (entry.parent, entry.depth, entry.children, entry.text)) =
    .ok [(none, 0, [1, 2], ['a']), (some 0, 1, [], ['c']), (some 0, 1, [], ['d'])] := by
  decide +kernel

/-- What the row says about a number is what the document says about it, and the nodes are in good order. -/
theorem wellOrdered_of_readRow (hrow : Markup.readRow skip s = .ok row) :
    (Markup.parse skip s).WellOrdered ∧ ∀ i, row[i]? = ((Markup.parse skip s).node? i).map Tree.entry := by
  rw [← row_parse] at hrow
  refine ⟨(numbered_parse skip s).wellOrdered, fun i => ?_⟩
  unfold Document.row at hrow
  split at hrow
  next => cases hrow
  next =>
    obtain rfl := Except.ok.inj hrow
    rw [List.getElem?_map, Array.getElem?_toList]
    rfl

end Document
end Gleaner
