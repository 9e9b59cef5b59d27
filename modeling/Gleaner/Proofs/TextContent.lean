import Gleaner.Extract.Search
import Gleaner.Proofs.Arena
import Gleaner.Proofs.Bindings
import Gleaner.Proofs.Building
import Gleaner.Proofs.Origins

/-! # The text of a node

The text of a node joins the texts in and below it. Seen from the row of nodes, along a walk, child by child
or in a dump, it is the same: an empty text adds nothing, and no separator either. Every text in a document
that is read has no white space at its ends, so neither has what is joined of them.
-/

namespace Gleaner

namespace Text

variable {s t sep : Text} {ts us : List Text} {groups : List (List Text)}

/-! ### Joining -/

theorem intercalate_append (hts : ts ≠ []) (hus : us ≠ []) :
    sep.intercalate (ts ++ us) = sep.intercalate ts ++ sep ++ sep.intercalate us := by
  obtain ⟨u, us, rfl⟩ := List.exists_cons_of_ne_nil hus
  induction ts with
  | nil => exact absurd rfl hts
  | cons t ts ih =>
      cases ts with
      | nil => simp [List.intercalate_cons_cons]
      | cons t' ts =>
          rw [List.cons_append, List.cons_append, List.intercalate_cons_cons, ← List.cons_append,
            ih (List.cons_ne_nil _ _), List.intercalate_cons_cons]
          simp only [List.append_assoc]

theorem isEmpty_intercalate (hts : ∀ t ∈ ts, t ≠ []) : (sep.intercalate ts).isEmpty = ts.isEmpty := by
  match ts with
  | [] => rfl
  | [t] => simpa using hts
  | t :: u :: ts =>
      have ht := hts t List.mem_cons_self
      simp [List.intercalate_cons_cons, ht]

/-- Texts can be joined group by group. -/
theorem intercalate_flatten (hgroups : ∀ group ∈ groups, ∀ t ∈ group, t ≠ []) :
    sep.intercalate groups.flatten =
      sep.intercalate ((groups.map sep.intercalate).filter (!·.isEmpty)) := by
  -- Groups without texts count on neither side; of the others every one gives a text.
  have hfilter : (groups.map sep.intercalate).filter (!·.isEmpty) =
      (groups.filter (!·.isEmpty)).map sep.intercalate := by
    rw [List.filter_map]
    refine congrArg _ (List.filter_congr fun group hgroup => ?_)
    exact congrArg _ (isEmpty_intercalate (hgroups group hgroup))
  have hne : ∀ group ∈ groups.filter (!·.isEmpty), group ≠ [] := by
    intro group hgroup
    simpa using (List.mem_filter.mp hgroup).2
  rw [hfilter, ← List.flatten_filter_not_isEmpty]
  generalize groups.filter (!·.isEmpty) = full at hne
  induction full with
  | nil => rfl
  | cons group groups ih =>
      obtain ⟨hgroup, hmore⟩ := List.forall_mem_cons.mp hne
      cases groups with
      | nil => simp
      | cons next groups =>
          have hflat : (next :: groups).flatten ≠ [] := by
            simp [(List.forall_mem_cons.mp hmore).1]
          rw [List.flatten_cons, intercalate_append hgroup hflat, ih hmore]
          simp only [List.map_cons, List.intercalate_cons_cons]

/-! ### Texts without white space at their ends -/

/-- A text with something in it and no white space at its ends. -/
structure Trimmed (t : Text) : Prop where
  ne_nil : t ≠ []
  first : ∀ c ∈ t.head?, isBlank c = false
  last : ∀ c ∈ t.getLast?, isBlank c = false

theorem Trimmed.trim_eq (ht : t.Trimmed) : trim t = t := trim_of_ends ht.first ht.last

theorem trimmed_trim (hs : trim s ≠ []) : (trim s).Trimmed where
  ne_nil := hs
  first c hc := by
    have hhead := forall_head?_dropWhile isBlank (trim s)
    rw [← trimLeft, trim, trimLeft_trimRight_trimLeft, ← trim] at hhead
    exact hhead c hc
  last c hc := by
    have hlast := List.rdropWhile_last_not isBlank (trimLeft s) hs
    rw [Option.mem_def, List.getLast?_eq_some_getLast hs, Option.some.injEq] at hc
    rw [← hc]
    exact Bool.eq_false_iff.mpr hlast

theorem Trimmed.append (hs : s.Trimmed) (ht : t.Trimmed) (gap : Text) : (s ++ gap ++ t).Trimmed where
  ne_nil := by simp [hs.ne_nil]
  first := by
    rw [List.append_assoc, List.head?_append_of_ne_nil _ hs.ne_nil]
    exact hs.first
  last := by
    rw [List.getLast?_append_of_ne_nil _ ht.ne_nil]
    exact ht.last

theorem trimmed_intercalate (sep : Text) (hts : ∀ t ∈ ts, t.Trimmed) (hne : ts ≠ []) :
    Trimmed (sep.intercalate ts) := by
  induction ts with
  | nil => exact absurd rfl hne
  | cons t ts ih =>
      obtain ⟨ht, hmore⟩ := List.forall_mem_cons.mp hts
      cases ts with
      | nil => rwa [List.intercalate_singleton]
      | cons u ts =>
          rw [List.intercalate_cons_cons]
          exact ht.append (ih hmore (List.cons_ne_nil _ _)) sep

end Text

/-! ### The texts of a forest -/

namespace Forest

variable {t : Text}

theorem texts_eq_subtrees (f : Forest Place) :
    f.texts = (f.subtrees.map fun n => n.element.text).filter (!·.isEmpty) := by
  induction f with
  | nil => rfl
  | cons top below after ihbelow ihafter =>
      rw [texts, ihbelow, ihafter, subtrees, List.map_cons, List.map_append, List.filter_cons,
        List.filter_append]
      cases htop : top.text.isEmpty with
      | true => simp [Tree.element, htop]
      | false => simp [Tree.element, htop]

theorem texts_eq_trees (f : Forest Place) :
    f.texts = (f.trees.map fun n => n.toForest.texts).flatten := by
  induction f with
  | nil => rfl
  | cons top below after _ ihafter =>
      rw [texts, ihafter, trees, List.map_cons, List.flatten_cons, Tree.toForest, texts, texts,
        List.append_nil, List.append_assoc]

theorem texts_eq_summaries (f : Forest Place) :
    f.texts = (f.map Place.summary).subtrees.filterMap (·.top.text) := by
  induction f with
  | nil => rfl
  | cons top below after ihbelow ihafter =>
      rw [texts, ihbelow, ihafter, map, subtrees, List.filterMap_cons, List.filterMap_append]
      cases htop : top.text.isEmpty with
      | true => simp [Place.summary, htop]
      | false => simp [Place.summary, htop]

theorem ne_nil_of_mem_texts {f : Forest Place} (ht : t ∈ f.texts) : t ≠ [] := by
  rw [texts_eq_subtrees] at ht
  simpa using (List.mem_filter.mp ht).2

end Forest

namespace Tree

variable {n : Node}

/-- The text of a node is its own and those of its children, as far as there is any. -/
theorem textContent_eq_children (n : Node) (separator : Text) :
    n.textContent separator = separator.intercalate
      ((n.element.text :: n.children.map (·.textContent separator)).filter (!·.isEmpty)) := by
  let own : List Text := if n.top.text.isEmpty then [] else [n.top.text]
  have hown : separator.intercalate own = n.element.text := by
    cases htext : n.top.text with
    | nil => simp [own, Tree.element, htext]
    | cons c t => simp [own, Tree.element, htext]
  have hgroups : ∀ group ∈ own :: n.children.map fun m => m.toForest.texts, ∀ t ∈ group, t ≠ [] := by
    intro group hgroup t ht
    rcases List.mem_cons.mp hgroup with rfl | hchild
    · refine Forest.ne_nil_of_mem_texts (f := n.toForest) ?_
      exact List.mem_append_left _ ht
    · obtain ⟨m, -, rfl⟩ := List.mem_map.mp hchild
      exact Forest.ne_nil_of_mem_texts ht
  calc n.textContent separator
      = separator.intercalate (own :: n.children.map fun m => m.toForest.texts).flatten := by
        rw [textContent, toForest, Forest.texts, n.below.texts_eq_trees]
        simp [own, children, Forest.texts]
    _ = _ := by
        rw [Text.intercalate_flatten hgroups, List.map_cons, hown, List.map_map]
        rfl

end Tree

/-! ### The texts of a document -/

namespace Markup

/-- The runs of text have no white space at their ends, nor have the texts of elements. -/
structure Content.Trimmed (content : Content) : Prop where
  runs : ∀ run ∈ content.texts, run.Trimmed
  elements : ∀ t ∈ content.elements.subtrees, t.top.text = [] ∨ t.top.text.Trimmed

theorem Content.Trimmed.join {content : Content} (hcontent : content.Trimmed) :
    [' '].intercalate content.texts = [] ∨ Text.Trimmed ([' '].intercalate content.texts) := by
  by_cases hnone : content.texts = []
  · exact .inl (by rw [hnone]; rfl)
  · exact .inr (Text.trimmed_intercalate _ hcontent.runs hnone)

theorem Content.kept_trimmed : Content.Kept Content.Trimmed where
  empty := ⟨nofun, nofun⟩
  run hcontent hrun := by
    refine ⟨fun run hmem => ?_, hcontent.elements⟩
    rcases List.mem_append.mp hmem with hmem | hmem
    · exact hcontent.runs run hmem
    · exact List.mem_singleton.mp hmem ▸ Text.trimmed_trim hrun
  element _ houter hcontent := by
    refine ⟨houter.runs, fun t ht => ?_⟩
    rw [Forest.subtrees_append] at ht
    rcases List.mem_append.mp ht with ht | ht
    · exact houter.elements t ht
    · rcases Forest.mem_subtrees_cons.mp ht with rfl | hbelow | hafter
      · exact hcontent.join
      · exact hcontent.elements t hbelow
      · cases hafter

end Markup

namespace Document

variable {doc : Document} {n m : Node} {t : Text}

theorem trimmed_ofTree {tree : Tree Element}
    (htree : ∀ u ∈ tree.subtrees, u.top.text = [] ∨ u.top.text.Trimmed)
    (hn : n ∈ (ofTree tree).root.subtrees) : n.element.text = [] ∨ n.element.text.Trimmed := by
  have helement := List.mem_map_of_mem (f := Tree.element) hn
  rw [subtrees_ofTree] at helement
  obtain ⟨u, hu, htop⟩ := List.mem_map.mp helement
  exact htop ▸ htree u hu

/-- In a document that is read no text of an element has white space at its ends. -/
theorem trimmed_parse (skip : List Text) (s : Text) (hn : n ∈ (Markup.parse skip s).root.subtrees) :
    n.element.text = [] ∨ n.element.text.Trimmed := by
  have hcontent : (Markup.Builder.ofTokens (Markup.scan (skip.map Text.lower) s).tokens).finish.Trimmed :=
    Markup.Builder.holds_finish Markup.Content.kept_trimmed _
  have herror : ∀ error, n ∈ (ofError error).root.subtrees → n.element.text = [] := by
    rintro error hmem
    obtain rfl := List.mem_singleton.mp hmem
    rfl
  unfold Markup.parse Markup.read at hn
  dsimp only at hn
  split at hn
  next =>
    unfold Markup.Content.toDocument at hn
    split at hn
    next => exact .inl (herror _ hn)
    next top below helements =>
      refine trimmed_ofTree (fun u hu => hcontent.elements u ?_) hn
      rw [helements]
      exact (Tree.subtrees_toForest ⟨top, below⟩).symm ▸ hu
    next =>
      refine trimmed_ofTree (fun u hu => ?_) hn
      rcases Tree.mem_subtrees.mp hu with rfl | hbelow
      · exact hcontent.join
      · exact hcontent.elements u hbelow
  next => exact .inl (herror _ hn)

/-- The node and the nodes that it is around, in the order of the row. -/
def within (doc : Document) (n : Node) : List Node :=
  doc.nodes.toList.filter fun m => m.index == n.index || doc.isAncestor n m

theorem Numbered.mem_within_iff (hdoc : doc.Numbered) (hn : n ∈ doc.root.subtrees) :
    m ∈ doc.within n ↔ m ∈ n.subtrees := by
  rw [within, doc.nodes_eq, List.mem_filter, Bool.or_eq_true, beq_iff_eq, Tree.mem_subtrees (t := n)]
  constructor
  · rintro ⟨hm, hindex | habove⟩
    · exact .inl (hdoc.eq_of_index hm hn hindex)
    · exact .inr ((hdoc.isAncestor_iff hn hm).mp habove)
  · intro hmem
    have hm : m ∈ doc.root.subtrees := Tree.subtrees_trans hn (Tree.mem_subtrees.mpr hmem)
    refine ⟨hm, hmem.imp (congrArg Tree.index) fun hbelow => ?_⟩
    exact (hdoc.isAncestor_iff hn hm).mpr hbelow

/-- In the order of their numbers, the nodes of a subtree are met as from the top down. -/
theorem Numbered.within_eq_subtrees (hdoc : doc.Numbered) (hn : n ∈ doc.root.subtrees) :
    doc.within n = n.subtrees := by
  have hpairwise : ∀ m ∈ doc.root.subtrees, m.subtrees.Pairwise (·.index < ·.index) := by
    intro m hm
    rw [← List.pairwise_map, hdoc.index_subtrees hm]
    exact List.pairwise_lt_range'
  have hwithin : (doc.within n).Pairwise (·.index < ·.index) := by
    rw [within, doc.nodes_eq]
    exact (hpairwise doc.root (Tree.mem_subtrees.mpr (.inl rfl))).filter _
  have hsame : (doc.within n).Perm n.subtrees := by
    refine (List.perm_ext_iff_of_nodup ?_ ?_).mpr fun m => hdoc.mem_within_iff hn
    · exact hwithin.imp fun hlt heq => absurd (heq ▸ hlt) (Nat.lt_irrefl _)
    · exact (hpairwise n hn).imp fun hlt heq => absurd (heq ▸ hlt) (Nat.lt_irrefl _)
  exact hsame.eq_of_pairwise (fun a b _ _ hab hba => absurd hab (Nat.lt_asymm hba)) hwithin
    (hpairwise n hn)

/-- In every document that is read the text of a node joins, leaving out empty ones, the texts of the nodes
of its subtree in the order of their numbers, or in that of a walk with the children still to visit; it
joins the node's own text and the texts of its children; and it joins the texts that a dump of the
node shows, from the top down. With the usual separator it has no white space at its ends. -/
theorem textContent_agrees (skip : List Text) (s : Text) {n : Node}
    (hn : n ∈ (Markup.parse skip s).root.subtrees) (separator : Text) :
    let doc := Markup.parse skip s
    let join := fun texts : List Text => separator.intercalate (texts.filter (!·.isEmpty))
    (n.textContent separator = join ((doc.within n).map fun m => m.element.text) ∧
      ((doc.within n).map Tree.index).Pairwise (· < ·)) ∧
    (∀ steps, n.size ≤ steps → n.textContent separator =
      join (((doc.walk steps [n.index]).filterMap doc.node?).map fun m => m.element.text)) ∧
    n.textContent separator = join (n.element.text :: n.children.map (·.textContent separator)) ∧
    n.textContent separator = separator.intercalate (n.outline.subtrees.filterMap (·.top.text)) ∧
    Text.trim (n.textContent Search.textSeparator) = n.textContent Search.textSeparator := by
  intro doc join
  have hdoc : doc.Numbered := numbered_parse skip s
  have hinside : ∀ m ∈ n.subtrees, m ∈ doc.root.subtrees := fun m hm => Tree.subtrees_trans hn hm
  have htexts : n.textContent separator = join (n.subtrees.map fun m => m.element.text) := by
    rw [Tree.textContent, Forest.texts_eq_subtrees, Tree.subtrees_toForest]
  refine ⟨⟨?_, ?_⟩, fun steps hsteps => ?_, n.textContent_eq_children separator, ?_, ?_⟩
  · rw [hdoc.within_eq_subtrees hn, htexts]
  · rw [hdoc.within_eq_subtrees hn, hdoc.index_subtrees hn]
    exact List.pairwise_lt_range'
  · have hnodes : (n.subtrees.map Tree.index).filterMap doc.node? = n.subtrees := by
      rw [List.filterMap_map]
      refine (List.filterMap_congr fun m hm => ?_).trans List.filterMap_some
      exact hdoc.node?_index (hinside m hm)
    rw [hdoc.walk_subtree hn hsteps, ← hdoc.index_subtrees hn, hnodes, htexts]
  · rw [Tree.textContent, Forest.texts_eq_summaries, ← Tree.subtrees_toForest]
    rfl
  · have htrimmed : ∀ t ∈ n.toForest.texts, t.Trimmed := by
      intro t ht
      rw [Forest.texts_eq_subtrees, Tree.subtrees_toForest] at ht
      obtain ⟨hmem, hne⟩ := List.mem_filter.mp ht
      obtain ⟨m, hm, rfl⟩ := List.mem_map.mp hmem
      exact (trimmed_parse skip s (hinside m hm)).resolve_left (by simpa using hne)
    by_cases hnone : n.toForest.texts = []
    · rw [Tree.textContent, hnone]
      rfl
    · exact (Text.trimmed_intercalate _ htrimmed hnone).trim_eq

/-- A paragraph with text before and behind a bold word, and with an element that has none. -/
theorem textContent_agrees_paragraph :
    let doc := Markup.parse [] "<p> a <b>c</b><i></i>\nd</p>".toList
    doc.root ∈ doc.root.subtrees ∧
      doc.root.textContent ['|'] = "a d|c".toList ∧
      (doc.within doc.root).map (fun m => m.element.text) = ["a d".toList, ['c'], []] ∧
      Text.trim (doc.root.textContent ['\t']) = "a d\tc".toList := by
  intro doc
  have hroot : doc.root ∈ doc.root.subtrees := Tree.mem_subtrees.mpr (.inl rfl)
  have hwithin : (doc.within doc.root).map (fun m => m.element.text) = ["a d".toList, ['c'], []] := by
    decide +kernel
  obtain ⟨⟨htext, -⟩, -⟩ := textContent_agrees [] "<p> a <b>c</b><i></i>\nd</p>".toList hroot ['|']
  obtain ⟨-, -, -, -, htrim⟩ := textContent_agrees [] "<p> a <b>c</b><i></i>\nd</p>".toList hroot ['\t']
  refine ⟨hroot, ?_, hwithin, ?_⟩
  · rw [htext, hwithin]
    decide
  · exact htrim.trans (by decide +kernel)

end Document
end Gleaner
