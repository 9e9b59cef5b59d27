import Gleaner.Proofs.Elements
import Gleaner.Proofs.TagNames

/-! # What elements keep of their start tags

An element can be seen to take in the attributes of its start tag one by one: it adds the words of a class
that it does not have yet, and of other names it keeps the first value. Both are ways to keep what is the
first one of its kind. So what an element has in the end is told from the whole row of attributes, with any
repetitions in it, and the elements of a document have what the tags in the text say.
-/

namespace Gleaner

/-! ### First occurrences -/

section FirstOccurrences

variable {α β : Type} {key : α → β} {all kept : List α} {a b : α} {k : β}

/-- The member stands in the list, and none before it has its key. -/
def FirstOf (key : α → β) (all : List α) (a : α) : Prop :=
  ∃ before after, all = before ++ a :: after ∧ key a ∉ before.map key

theorem firstOf_concat : FirstOf key (all ++ [a]) b ↔ FirstOf key all b ∨ b = a ∧ key a ∉ all.map key := by
  constructor
  · rintro ⟨before, after, hsplit, hnew⟩
    rcases List.eq_nil_or_concat' after with rfl | ⟨between, c, rfl⟩
    · obtain ⟨rfl, hlast⟩ := List.append_inj' hsplit rfl
      obtain rfl := (List.cons.inj hlast).1
      exact .inr ⟨rfl, hnew⟩
    · rw [← List.cons_append, ← List.append_assoc] at hsplit
      exact .inl ⟨before, between, (List.append_inj' hsplit rfl).1, hnew⟩
  · rintro (⟨before, after, rfl, hnew⟩ | ⟨rfl, hnew⟩)
    · exact ⟨before, after ++ [a], by simp, hnew⟩
    · exact ⟨all, [], rfl, hnew⟩

theorem firstOf_concat_of_ne (hkey : key b ≠ key a) : FirstOf key (all ++ [a]) b ↔ FirstOf key all b := by
  rw [firstOf_concat, or_iff_left]
  rintro ⟨rfl, -⟩
  exact hkey rfl

/-- Every key that is there has a first one. -/
theorem exists_firstOf (key : α → β) (all : List α) (k : β) :
    (∃ a, key a = k ∧ FirstOf key all a) ↔ k ∈ all.map key := by
  constructor
  · rintro ⟨a, rfl, before, after, rfl, -⟩
    exact List.mem_map_of_mem (List.mem_append_right _ List.mem_cons_self)
  · intro hk
    obtain ⟨front, rest, hsplit, hnew⟩ := List.eq_append_cons_of_mem hk
    obtain ⟨before, behind, rfl, rfl, hbehind⟩ := List.map_eq_append_iff.mp hsplit
    obtain ⟨a, after, rfl, rfl, -⟩ := List.map_eq_cons_iff.mp hbehind
    exact ⟨a, rfl, before, after, rfl, hnew⟩

variable [DecidableEq β]

/-- The members that are the first with their keys, in order of these first occurrences. -/
structure FirstsOf (key : α → β) (all kept : List α) : Prop where
  mem : ∀ a, a ∈ kept ↔ FirstOf key all a
  order : kept.Pairwise fun a b => (all.map key).idxOf (key a) < (all.map key).idxOf (key b)

/-- One more at the end, unless there is one with its key. -/
def keepFirst (key : α → β) (kept : List α) (a : α) : List α :=
  if key a ∈ kept.map key then kept else kept ++ [a]

namespace FirstsOf

theorem nil : FirstsOf key [] [] := ⟨fun a => by simp [FirstOf], List.Pairwise.nil⟩

theorem mem_map_key (hkept : FirstsOf key all kept) : k ∈ kept.map key ↔ k ∈ all.map key := by
  rw [← exists_firstOf key all, List.mem_map]
  exact exists_congr fun a => by rw [hkept.mem, and_comm]

theorem eq_nil_iff (hkept : FirstsOf key all kept) : kept = [] ↔ all = [] := by
  rw [← List.map_eq_nil_iff (f := key), ← List.map_eq_nil_iff (f := key) (l := all)]
  simp only [List.eq_nil_iff_forall_not_mem, hkept.mem_map_key]

/-- With one more member, the one that is kept stays behind those that were kept before. -/
theorem concat (hkept : FirstsOf key all kept) (a : α) :
    FirstsOf key (all ++ [a]) (keepFirst key kept a) := by
  have hplace : ∀ b ∈ kept, ((all ++ [a]).map key).idxOf (key b) = (all.map key).idxOf (key b) := by
    intro b hb
    rw [List.map_append]
    exact List.idxOf_append_of_mem (hkept.mem_map_key.mp (List.mem_map_of_mem hb))
  have horder : kept.Pairwise fun b c =>
      ((all ++ [a]).map key).idxOf (key b) < ((all ++ [a]).map key).idxOf (key c) := by
    refine hkept.order.imp_of_mem fun hb hc hlt => ?_
    rwa [hplace _ hb, hplace _ hc]
  unfold keepFirst
  split
  next hold =>
    rw [hkept.mem_map_key] at hold
    exact ⟨fun b => by simp [firstOf_concat, hold, hkept.mem], horder⟩
  next hnew =>
    rw [hkept.mem_map_key] at hnew
    refine ⟨fun b => by simp [firstOf_concat, hnew, hkept.mem], ?_⟩
    refine List.pairwise_append.mpr ⟨horder, List.pairwise_singleton _ _, fun b hb c hc => ?_⟩
    obtain rfl := List.mem_singleton.mp hc
    have hlast : ((all ++ [c]).map key).idxOf (key c) = (all.map key).length := by
      rw [List.map_append, List.idxOf_append_of_notMem hnew]
      simp
    rw [hplace b hb, hlast]
    exact List.idxOf_lt_length_iff.mpr (hkept.mem_map_key.mp (List.mem_map_of_mem hb))

theorem append (hkept : FirstsOf key all kept) (more : List α) :
    FirstsOf key (all ++ more) (more.foldl (keepFirst key) kept) := by
  induction more generalizing all kept with
  | nil => rwa [List.append_nil]
  | cons a more ih =>
      have hmore := ih (hkept.concat a)
      rwa [List.append_assoc, List.singleton_append] at hmore

end FirstsOf

/-- Leaving out what comes later with the same key is keeping the first ones. -/
theorem eraseDupsBy_eq_foldl [BEq β] [LawfulBEq β] (all : List α) :
    all.eraseDupsBy (fun a earlier => key a == key earlier) = all.foldl (keepFirst key) [] := by
  have hloop : ∀ kept, List.eraseDupsBy.loop (fun a earlier => key a == key earlier) all kept =
      all.foldl (keepFirst key) kept.reverse := by
    induction all with
    | nil => exact fun kept => rfl
    | cons a all ih =>
        intro kept
        have hany : (kept.any fun earlier => key a == key earlier) = decide (key a ∈ kept.reverse.map key) := by
          rw [Bool.eq_iff_iff, decide_eq_true_eq]
          simp only [List.any_eq_true, beq_iff_eq, List.mem_map, List.mem_reverse, eq_comm (a := key a)]
        rw [List.eraseDupsBy.loop, hany, List.foldl_cons, keepFirst]
        by_cases hold : key a ∈ kept.reverse.map key
        · simp only [hold, decide_true, if_true]
          exact ih kept
        · simp only [hold, decide_false, if_false]
          rw [ih, List.reverse_cons]
  exact hloop []

end FirstOccurrences

namespace Element

open Text

variable {pairs : List (Text × Text)} {pair : Text × Text} {e : Element}

/-! ### Taking in one attribute after the other -/

/-- The element with one more attribute of its start tag. -/
def add (e : Element) (pair : Text × Text) : Element :=
  if pair.1 = className then
    { e with classes := (words pair.2).foldl (keepFirst fun word => word) e.classes }
  else if pair.1 = idName then { e with id := e.id.or (some pair.2) }
  else { e with attributes := keepFirst Prod.fst e.attributes pair }

/-- The words of all classes, with repetitions. -/
def classWords (pairs : List (Text × Text)) : List Text :=
  (pairs.filter (·.1 == className)).flatMap (words ·.2)

/-- The attributes other than class and id, with repetitions. -/
def otherPairs (pairs : List (Text × Text)) : List (Text × Text) :=
  pairs.filter fun pair => pair.1 != className && pair.1 != idName

theorem classWords_concat : classWords (pairs ++ [pair]) =
    if pair.1 = className then classWords pairs ++ words pair.2 else classWords pairs := by
  by_cases hclass : pair.1 = className
  all_goals simp [classWords, List.filter_append, hclass]

theorem otherPairs_concat : otherPairs (pairs ++ [pair]) =
    if pair.1 ≠ className ∧ pair.1 ≠ idName then otherPairs pairs ++ [pair] else otherPairs pairs := by
  by_cases hother : pair.1 ≠ className ∧ pair.1 ≠ idName
  · simp [otherPairs, List.filter_append, hother]
  · rw [if_neg hother, otherPairs, List.filter_append]
    simpa [otherPairs, or_iff_not_imp_left] using hother

/-- What the element has is what the attributes say: the first id, the words of all classes without later
duplicates, and the first value of every other name. -/
structure Keeps (pairs : List (Text × Text)) (e : Element) : Prop where
  id : ∀ value, e.id = some value ↔ FirstOf Prod.fst pairs (idName, value)
  classes : FirstsOf (fun word => word) (classWords pairs) e.classes
  attributes : FirstsOf Prod.fst (otherPairs pairs) e.attributes

theorem keeps_nil (tag : Text) : (ofAttributes tag []).Keeps [] where
  id value := by simp [ofAttributes, FirstOf]
  classes := FirstsOf.nil
  attributes := FirstsOf.nil

theorem Keeps.id_eq_none_iff (he : e.Keeps pairs) : e.id = none ↔ idName ∉ pairs.map Prod.fst := by
  rw [← exists_firstOf Prod.fst pairs, Option.eq_none_iff_forall_ne_some]
  simp only [ne_eq, he.id, Prod.exists, not_exists, not_and]
  exact ⟨fun hnone name value hname => hname ▸ hnone value, fun hnone value => hnone idName value rfl⟩

/-- Every attribute that is taken in counts as one more in the row. -/
theorem Keeps.add (he : e.Keeps pairs) (pair : Text × Text) : (e.add pair).Keeps (pairs ++ [pair]) := by
  have hid : pair.1 ≠ idName → ∀ value, e.id = some value ↔ FirstOf Prod.fst (pairs ++ [pair]) (idName, value) :=
    fun hname value => (he.id value).trans (firstOf_concat_of_ne hname.symm).symm
  unfold Element.add
  split
  next hclass =>
    refine ⟨hid (hclass ▸ className_ne_idName), ?_, ?_⟩
    · rw [classWords_concat, if_pos hclass]
      exact he.classes.append _
    · rw [otherPairs_concat, if_neg (by simp [hclass])]
      exact he.attributes
  next hclass =>
    have hclasses : classWords (pairs ++ [pair]) = classWords pairs := by
      rw [classWords_concat, if_neg hclass]
    split
    next hname =>
      refine ⟨fun value => ?_, hclasses ▸ he.classes, ?_⟩
      · obtain ⟨name, given⟩ := pair
        obtain rfl : name = idName := hname
        rw [firstOf_concat, ← he.id, ← he.id_eq_none_iff, Prod.mk.injEq, and_iff_right rfl]
        cases e.id with
        | none => simp [eq_comm]
        | some held => simp
      · rw [otherPairs_concat, if_neg (by simp [hname])]
        exact he.attributes
    next hname =>
      refine ⟨hid hname, hclasses ▸ he.classes, ?_⟩
      rw [otherPairs_concat, if_pos ⟨hclass, hname⟩]
      exact he.attributes.concat pair

theorem Keeps.foldl_add (he : e.Keeps pairs) (more : List (Text × Text)) :
    (more.foldl Element.add e).Keeps (pairs ++ more) := by
  induction more generalizing pairs e with
  | nil => rwa [List.append_nil]
  | cons pair more ih =>
      have hmore := ih (he.add pair)
      rwa [List.append_assoc, List.singleton_append] at hmore

/-! ### The whole row of attributes -/

/-- Words and names without later duplicates are the first ones. -/
theorem ofAttributes_eq (tag : Text) (pairs : List (Text × Text)) :
    ofAttributes tag pairs =
      ⟨tag, pairs.lookup idName, (classWords pairs).foldl (keepFirst fun word => word) [],
        (otherPairs pairs).foldl (keepFirst Prod.fst) [], []⟩ := by
  rw [← eraseDupsBy_eq_foldl, ← eraseDupsBy_eq_foldl]
  rfl

theorem ofAttributes_concat (tag : Text) (pairs : List (Text × Text)) (pair : Text × Text) :
    ofAttributes tag (pairs ++ [pair]) = (ofAttributes tag pairs).add pair := by
  obtain ⟨name, value⟩ := pair
  rw [ofAttributes_eq, ofAttributes_eq, List.lookup_append, classWords_concat, otherPairs_concat, Element.add]
  by_cases hclass : name = className
  · subst hclass
    simp [className_ne_idName.symm, List.foldl_append]
  · by_cases hid : name = idName
    · subst hid
      simp [className_ne_idName.symm]
    · simp [hclass, hid, Ne.symm hid, List.foldl_append]

/-- The element that a start tag begins has taken in its attributes one by one. -/
theorem ofAttributes_eq_foldl (tag : Text) (pairs : List (Text × Text)) :
    ofAttributes tag pairs = pairs.foldl add (ofAttributes tag []) := by
  induction pairs using List.reverseRecOn with
  | nil => rfl
  | append_singleton pairs pair ih => rw [ofAttributes_concat, List.foldl_concat, ih]

theorem keeps_ofAttributes (tag : Text) (pairs : List (Text × Text)) : (ofAttributes tag pairs).Keeps pairs := by
  rw [ofAttributes_eq_foldl]
  exact (keeps_nil tag).foldl_add pairs

/-- An element has no value for a name exactly if it was not given one, and none for the class if it was
given no word. -/
theorem Keeps.rawAttribute_eq_none_iff (he : e.Keeps pairs) (name : Text) :
    e.rawAttribute name = none ↔
      if name = className then classWords pairs = [] else name ∉ pairs.map Prod.fst := by
  unfold rawAttribute
  split
  next => simp [he.classes.eq_nil_iff]
  next hclass =>
    split
    next hid => exact hid ▸ he.id_eq_none_iff
    next hid =>
      have hnames : name ∈ (otherPairs pairs).map Prod.fst ↔ name ∈ pairs.map Prod.fst := by
        simp [otherPairs, hclass, hid]
      rw [← hnames, ← he.attributes.mem_map_key, List.lookup_eq_none_iff]
      constructor
      · intro hnone hname
        obtain ⟨pair, hpair, rfl⟩ := List.mem_map.mp hname
        exact bne_iff_ne.mp (hnone pair hpair) rfl
      · intro hname pair hpair
        exact bne_iff_ne.mpr fun heq => hname (heq ▸ List.mem_map_of_mem hpair)

end Element

/-! ### The start tags of a text -/

namespace Markup

variable {tag : ReadTag} {e : Element} {whole : Text}

/-- The element has the name of the tag and what the attributes say. It is without a value for a name exactly
if there is none among the attributes, or no word if the name is that of the class. -/
structure ReadTag.Gives (tag : ReadTag) (e : Element) : Prop where
  name : e.tag = tag.name
  keeps : e.Keeps tag.pairs
  absent : ∀ name, e.rawAttribute name = none ↔
    if name = Element.className then Element.classWords tag.pairs = [] else name ∉ tag.pairs.map Prod.fst

theorem ReadTag.gives_element (tag : ReadTag) : tag.Gives tag.element where
  name := rfl
  keeps := Element.keeps_ofAttributes tag.name tag.pairs
  absent := (Element.keeps_ofAttributes tag.name tag.pairs).rawAttribute_eq_none_iff

/-- The text of an element is not given by its start tag. -/
theorem ReadTag.gives_of_bare (helement : tag.element = e.bare) : tag.Gives e :=
  have hbare : tag.Gives e.bare := helement ▸ tag.gives_element
  ⟨hbare.name, ⟨hbare.keeps.id, hbare.keeps.classes, hbare.keeps.attributes⟩, hbare.absent⟩

theorem ReadTag.StandsIn.name_ne_fragmentTag (htag : tag.StandsIn whole) : tag.name ≠ fragmentTag := by
  intro hname
  have hstart := htag.spellable.start '#' (hname ▸ rfl)
  revert hstart
  decide

end Markup

namespace Document

open Markup Text

/-- Elements that come from start tags in a text have what these give, and none has the name of the one that
is put around several. -/
theorem forall₂_gives {s : Text} {tags : List ReadTag} {elements : List Element}
    (htags : ∀ tag ∈ tags, tag.StandsIn s)
    (helements : elements.map Element.bare = tags.map ReadTag.element) :
    List.Forall₂ ReadTag.Gives tags (elements.filter (·.tag ≠ fragmentTag)) := by
  induction elements generalizing tags with
  | nil =>
      obtain rfl := List.map_eq_nil_iff.mp helements.symm
      exact .nil
  | cons e more ih =>
      cases tags with
      | nil => cases helements
      | cons tag tags =>
          obtain ⟨htag, htags⟩ := List.forall_mem_cons.mp htags
          obtain ⟨helement, hmore⟩ := List.cons.inj helements
          have hgives : tag.Gives e := ReadTag.gives_of_bare helement.symm
          have hname : e.tag ≠ fragmentTag := hgives.name ▸ htag.name_ne_fragmentTag
          rw [List.filter_cons_of_pos (by simpa using hname)]
          exact .cons hgives (ih htags hmore)

/-- The inside of a tag is read to its end exactly as the row of pairs that stands there, and whatever pairs
a tag has, the element that it begins has what they give. The start tags that are kept stand in the text, and
every one that is read to its end is kept, unless it begins raw text that does not end. They are, in order,
those of the elements that are built, and if there is no fault those of the elements of the document, but
for the one that is put around several. -/
theorem startTags_give (skip : List Text) (s : Text) :
    let scanned := scan (skip.map lower) s
    let tags := readTags scanned.tokens
    let doc := parse skip s
    (∀ start inside body, readBody start inside = .ok body ↔ Inside inside body) ∧
      (∀ tag : ReadTag, tag.Gives tag.element) ∧
      (∀ tag ∈ tags, tag.StandsIn s) ∧
      (∀ tag : ReadTag, tag.IsFinished (skip.map lower) s →
        tag ∈ tags ∨ ∃ start, scanned.fault = some ⟨.rawText tag.name, start⟩) ∧
      List.Forall₂ ReadTag.Gives tags (Builder.ofTokens scanned.tokens).begun ∧
      (doc.isError = false →
        List.Forall₂ ReadTag.Gives tags
          ((doc.root.subtrees.map Tree.element).filter (·.tag ≠ fragmentTag))) := by
  intro scanned tags doc
  have htags : ∀ tag ∈ tags, tag.StandsIn s := fun tag htag => standsIn_of_mem_readTags htag
  refine ⟨fun start inside body => readBody_eq_ok_iff, ReadTag.gives_element, htags,
    fun tag htag => htag.mem_readTags, ?_, fun htree => ?_⟩
  · rw [Builder.begun_ofTokens, filterMap_element?, List.forall₂_map_right_iff, List.forall₂_same]
    exact fun tag _ => tag.gives_element
  · rcases bares_parse htree with hall | ⟨hfragment, hbelow⟩
    · exact forall₂_gives htags (List.map_map.trans hall)
    · have hgives := forall₂_gives htags (List.map_map.trans hbelow)
      rwa [Tree.subtrees, List.map_cons, List.filter_cons_of_neg (by simpa using hfragment)]

/-- Repeated names: the words of both classes are kept, and of other names the first values, one of them the
name of an attribute without a value. -/
theorem startTags_give_repeated :
    let s := "<p id=one B CLASS=\"x y\" class='y z' id=two b=1><br></p>".toList
    let pairs := [("id", "one"), ("b", "b"), ("class", "x y"), ("class", "y z"), ("id", "two"), ("b", "1")]
    let tags := [⟨"p".toList, pairs.map fun (name, value) => (name.toList, value.toList)⟩, ⟨"br".toList, []⟩]
    let doc := parse [] s
    let elements := doc.root.subtrees.map Tree.element
    doc.isError = false ∧
      elements = [⟨"p".toList, some "one".toList, ["x".toList, "y".toList, "z".toList],
        [("b".toList, "b".toList)], []⟩, .ofAttributes "br".toList []] ∧
      List.Forall₂ ReadTag.Gives tags (elements.filter (·.tag ≠ fragmentTag)) := by
  intro s pairs tags doc elements
  have htree : doc.isError = false := by decide +kernel
  have htags : readTags (scan (List.map lower []) s).tokens = tags := by decide +kernel
  exact ⟨htree, by decide +kernel, htags ▸ (startTags_give [] s).2.2.2.2.2 htree⟩

end Document
end Gleaner
