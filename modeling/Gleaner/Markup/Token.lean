import Gleaner.Markup.Tag

/-! # Tokens of markup

A markup text as a sequence of tokens: runs of text, elements that begin, elements that are complete at
once, and closing tags. Comments, declarations and skipped elements yield nothing but end the run of
text before them. A bracket that begins none of these is text. The sequence may stop at a fault.
-/

namespace Gleaner.Markup

open Text

inductive Token where
  /-- A run of text as it stands in the markup. -/
  | text (run : Text)
  /-- A start tag whose element stays open. -/
  | enter (tag : Text) (pairs : List (Text × Text))
  /-- An element that is complete at once: empty by its tag, or holding raw text only. -/
  | leaf (tag : Text) (pairs : List (Text × Text)) (content : Text)
  /-- A closing tag and the text from it on. -/
  | leave (tag : Text) (rest : Text)
deriving DecidableEq

/-- The elements that have no content and no closing tag. -/
def voidTags : List Text :=
  ["area", "base", "br", "col", "embed", "hr", "img", "input", "link", "meta", "param", "source",
    "track", "wbr"].map String.toList

/-- The elements whose content is read as text whatever stands in it. -/
def rawTextTags : List Text := ["style", "script"].map String.toList

def beginsMarkup : Text → Bool
  | '<' :: '!' :: _ => true
  | '<' :: '?' :: _ => true
  | '<' :: '/' :: c :: _ => isTagStart c
  | '<' :: c :: _ => isTagStart c
  | _ => false

/-- The text up to the next beginning of markup, and the rest from there. -/
def takeText : Text → Text × Text
  | [] => ([], [])
  | c :: s =>
    if beginsMarkup (c :: s) then ([], c :: s)
    else
      let (run, rest) := takeText s
      (c :: run, rest)

/-- What follows the closing tag of a raw-text element, if it stands here. -/
def closeRawText? (tag : Text) : Text → Option Text
  | '<' :: '/' :: s =>
    (dropIgnoringCase? tag s).bind fun s =>
      match trimLeft s with
      | '>' :: rest => some rest
      | _ => none
  | _ => none

/-- The content of a raw-text element and what follows its closing tag. -/
def takeRawText? (tag : Text) : Text → Option (Text × Text)
  | [] => none
  | c :: s =>
    match closeRawText? tag (c :: s) with
    | some rest => some ([], rest)
    | none => (takeRawText? tag s).map fun (content, rest) => (c :: content, rest)

def endsTagName : Text → Bool
  | [] => false
  | c :: _ => isBlank c || c == '/' || c == '>'

/-- A place inside a skipped element where its own tag is mentioned. -/
structure Mention where
  closing : Bool
  /-- The text from the mention on. -/
  start : Text
  /-- The text behind the tag's name. -/
  rest : Text
deriving DecidableEq

/-- The mention of the tag that stands right here. -/
def mention? (tag : Text) : Text → Option Mention
  | '<' :: '/' :: s =>
    ((dropIgnoringCase? tag s).filter endsTagName).map fun rest => ⟨true, '<' :: '/' :: s, rest⟩
  | '<' :: s =>
    ((dropIgnoringCase? tag s).filter endsTagName).map fun rest => ⟨false, '<' :: s, rest⟩
  | _ => none

/-- The first mention of the tag in the text. -/
def findMention? (tag : Text) : Text → Option Mention
  | [] => none
  | c :: s => (mention? tag (c :: s)).or (findMention? tag s)

theorem length_of_mention? {tag s : Text} {found : Mention} (hfound : mention? tag s = some found) :
    found.rest.length < s.length := by
  unfold mention? at hfound
  split at hfound
  · obtain ⟨rest, hrest, rfl⟩ := Option.map_eq_some_iff.1 hfound
    have := length_of_dropIgnoringCase? (Option.filter_eq_some_iff.1 hrest).1
    simp only [List.length_cons]
    omega
  · obtain ⟨rest, hrest, rfl⟩ := Option.map_eq_some_iff.1 hfound
    have := length_of_dropIgnoringCase? (Option.filter_eq_some_iff.1 hrest).1
    simp only [List.length_cons]
    omega
  · simp at hfound

theorem length_of_findMention? {tag s : Text} {found : Mention}
    (hfound : findMention? tag s = some found) : found.rest.length < s.length := by
  induction s with
  | nil => simp [findMention?] at hfound
  | cons c s ih =>
    rw [findMention?, Option.or_eq_some_iff] at hfound
    rcases hfound with hhere | ⟨-, hlater⟩
    · exact length_of_mention? hhere
    · have := ih hlater
      simp only [List.length_cons]
      omega

/-- What follows the end of a skipped element that begins at `start` and holds `depth` open elements of
its own tag. Inside it only mentions of the tag count, wherever they stand. -/
def skipContent (tag start : Text) (depth : Nat) (s : Text) : Except Fault Text :=
  match _hmention : findMention? tag s with
  | none => .error ⟨.skipped tag, start⟩
  | some found =>
    if found.closing then
      match _hcut : cut ['>'] found.rest with
      | none => .error ⟨.closingTag tag, found.start⟩
      | some (_, rest) => if depth = 0 then .ok rest else skipContent tag start (depth - 1) rest
    else
      match _hbody : readBody found.start found.rest with
      | .error fault => .error fault
      | .ok body => skipContent tag start (if body.selfClosed then depth else depth + 1) body.rest
termination_by s.length
decreasing_by
  · have := length_of_findMention? _hmention
    have := length_of_cut _hcut
    omega
  · have := length_of_findMention? _hmention
    have := length_of_readBody _hbody
    omega

theorem length_of_skipContent {tag start s rest : Text} {depth : Nat}
    (hskip : skipContent tag start depth s = .ok rest) : rest.length < s.length := by
  fun_induction skipContent tag start depth s with
  | case1 => simp at hskip
  | case2 => simp at hskip
  | case3 s found hmention _ _ left hcut =>
    cases hskip
    have := length_of_findMention? hmention
    have := length_of_cut hcut
    omega
  | case4 depth s found hmention _ _ left hcut _ ih =>
    have := ih hskip
    have := length_of_findMention? hmention
    have := length_of_cut hcut
    omega
  | case5 => simp at hskip
  | case6 depth s found hmention _ body hbody ih =>
    have := ih hskip
    have := length_of_findMention? hmention
    have := length_of_readBody hbody
    omega

/-- The element whose start tag has this name and goes on with `s`. -/
def readElement (skip : List Text) (start tag s : Text) : Except Fault (Option Token × Text) :=
  match readBody start s with
  | .error fault => .error fault
  | .ok body =>
    if tag ∈ skip then
      if body.selfClosed ∨ tag ∈ voidTags then .ok (none, body.rest)
      else (skipContent tag start 0 body.rest).map fun rest => (none, rest)
    else if body.selfClosed ∨ tag ∈ voidTags then .ok (some (.leaf tag body.pairs []), body.rest)
    else if tag ∈ rawTextTags then
      match takeRawText? tag body.rest with
      | none => .error ⟨.rawText tag, start⟩
      | some (content, rest) => .ok (some (.leaf tag body.pairs content), rest)
    else .ok (some (.enter tag body.pairs), body.rest)

/-- The markup that begins at `start`, read from behind its bracket, and what follows it. -/
def readMarkup (skip : List Text) (start : Text) : Text → Except Fault (Option Token × Text)
  | '!' :: '-' :: '-' :: s =>
    match cut ['-', '-', '>'] s with
    | none => .error ⟨.comment, start⟩
    | some (_, rest) => .ok (none, rest)
  | '/' :: s =>
    let tag := lower (s.takeWhile isTagChar)
    match cut ['>'] (s.dropWhile isTagChar) with
    | none => .error ⟨.closingTag tag, start⟩
    | some (_, rest) => .ok (some (.leave tag start), rest)
  | c :: s =>
    if c = '!' ∨ c = '?' then
      match cut ['>'] s with
      | none => .error ⟨.declaration, start⟩
      | some (_, rest) => .ok (none, rest)
    else
      readElement skip start (lower ((c :: s).takeWhile isTagChar)) ((c :: s).dropWhile isTagChar)
  | [] => .ok (none, [])

theorem length_takeText (s : Text) : (takeText s).2.length ≤ s.length := by
  induction s with
  | nil => simp [takeText]
  | cons c s ih =>
    rw [takeText]
    split
    · exact Nat.le_refl _
    · simp only [List.length_cons]
      omega

theorem length_of_closeRawText? {tag s rest : Text} (hclose : closeRawText? tag s = some rest) :
    rest.length < s.length := by
  unfold closeRawText? at hclose
  split at hclose
  · rename_i s
    obtain ⟨left, hleft, hbracket⟩ := Option.bind_eq_some_iff.1 hclose
    have := length_of_dropIgnoringCase? hleft
    have hspace := length_trimLeft_le left
    split at hbracket
    · rename_i hs
      cases hbracket
      simp only [hs, List.length_cons] at hspace ⊢
      omega
    · simp at hbracket
  · simp at hclose

theorem length_of_takeRawText? {tag s content rest : Text}
    (hraw : takeRawText? tag s = some (content, rest)) : rest.length < s.length := by
  induction s generalizing content with
  | nil => simp [takeRawText?] at hraw
  | cons c s ih =>
    rw [takeRawText?] at hraw
    split at hraw
    · rename_i hclose
      cases hraw
      exact length_of_closeRawText? hclose
    · obtain ⟨⟨more, left⟩, hmore, hpair⟩ := Option.map_eq_some_iff.1 hraw
      cases hpair
      have := ih hmore
      simp only [List.length_cons]
      omega

theorem length_of_readElement {skip : List Text} {start tag s rest : Text} {token : Option Token}
    (helement : readElement skip start tag s = .ok (token, rest)) : rest.length < s.length := by
  unfold readElement at helement
  split at helement
  · simp at helement
  · rename_i body hbody
    have hlength := length_of_readBody hbody
    split at helement
    · split at helement
      · cases helement
        exact hlength
      · match hskip : skipContent tag start 0 body.rest with
        | .error fault => simp [hskip, Except.map] at helement
        | .ok left =>
          simp only [hskip, Except.map, Except.ok.injEq, Prod.mk.injEq] at helement
          obtain ⟨-, rfl⟩ := helement
          have := length_of_skipContent hskip
          omega
    · split at helement
      · cases helement
        exact hlength
      · split at helement
        · split at helement
          · simp at helement
          · rename_i hraw
            cases helement
            have := length_of_takeRawText? hraw
            omega
        · cases helement
          exact hlength

/-- Reading markup never gives text back. -/
theorem length_of_readMarkup {skip : List Text} {start s rest : Text} {token : Option Token}
    (hmarkup : readMarkup skip start s = .ok (token, rest)) : rest.length ≤ s.length := by
  unfold readMarkup at hmarkup
  split at hmarkup
  · split at hmarkup
    · simp at hmarkup
    · rename_i hcut
      cases hmarkup
      have := length_of_cut hcut
      simp only [List.length_cons, List.length_nil] at this ⊢
      omega
  · rename_i s
    split at hmarkup
    · simp at hmarkup
    · rename_i hcut
      cases hmarkup
      have := length_of_cut hcut
      have := length_dropWhile_le isTagChar s
      simp only [List.length_cons]
      omega
  · rename_i c s _ _
    split at hmarkup
    · split at hmarkup
      · simp at hmarkup
      · rename_i hcut
        cases hmarkup
        have := length_of_cut hcut
        simp only [List.length_cons]
        omega
    · have := length_of_readElement hmarkup
      have := length_dropWhile_le isTagChar (c :: s)
      omega
  · cases hmarkup
    exact Nat.le_refl _

/-- A sequence of tokens and the fault that ended it, if one did. -/
structure Scan where
  tokens : List Token
  fault : Option Fault
deriving DecidableEq

/-- The tokens of a markup text. Elements whose tag is in `skip` yield none. -/
def scan (skip : List Text) (s : Text) : Scan :=
  let run := (takeText s).1
  match _hrest : (takeText s).2 with
  | [] => ⟨[.text run], none⟩
  | c :: behind =>
    match _hmarkup : readMarkup skip (c :: behind) behind with
    | .error fault => ⟨[.text run], some fault⟩
    | .ok (token, rest) =>
      let more := scan skip rest
      ⟨.text run :: token.toList ++ more.tokens, more.fault⟩
termination_by s.length
decreasing_by
  have := length_takeText s
  have := length_of_readMarkup _hmarkup
  simp only [_hrest, List.length_cons] at *
  omega

end Gleaner.Markup
