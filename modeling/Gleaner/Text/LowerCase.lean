import Gleaner.Text.CaseTable

/-! # Lower case

Lower-casing of whole texts, and the coarser comparison of letters that tag names use. Both agree on
ASCII; beyond it they differ, since lower-casing keeps the long s and the dotless i apart from
their plain letters while the comparison does not.
-/

namespace Gleaner.Text

/-- The lower-case form of a character on its own. -/
def lowerChar (c : Char) : Char :=
  if c.toNat < 0x80 then c.toLower
  else
    let n := c.toNat
    match caseRuns.find? fun run => run.first ≤ n && n ≤ run.last && (n - run.first) % run.step == 0 with
    | some run => Char.ofNat (n + run.shift).toNat
    | none => c

/-- A capital sigma ends a word when a letter stands before it and none behind, where the characters
that case passes over do not count. `before` is read backwards. -/
def endsWord (before behind : Text) : Bool :=
  (before.dropWhile caseIgnorable.contains).head?.any cased.contains &&
    !(behind.dropWhile caseIgnorable.contains).head?.any cased.contains

/-- The lower-case form of a text whose characters before it are `before`, read backwards. -/
def lowerAfter (before : Text) : Text → Text
  | [] => []
  | c :: s =>
    (if c = 'Σ' then [if endsWord before s then 'ς' else 'σ']
      else if c = 'İ' then ['i', '\u0307']
      else [lowerChar c]) ++ lowerAfter (c :: before) s

/-- The lower-case form of a text: character by character, but a capital sigma at the end of a word
takes its final form and the dotted capital I becomes two characters. -/
def lower (s : Text) : Text := lowerAfter [] s

/-- What stands for a character where case is ignored: the small letter for a letter of ASCII and for
the four characters beyond it that fold to one, and else the character itself. -/
def caseKey (c : Char) : Char :=
  if c = '\u212a' then 'k'
  else if c = '\u0130' ∨ c = '\u0131' then 'i'
  else if c = '\u017f' then 's'
  else c.toLower

/-- The rest of `s` behind `word`, where case is ignored. -/
def dropIgnoringCase? : (word s : Text) → Option Text
  | [], s => some s
  | _ :: _, [] => none
  | c :: word, d :: s => if caseKey c = caseKey d then dropIgnoringCase? word s else none

theorem length_of_dropIgnoringCase? {word s rest : Text}
    (hrest : dropIgnoringCase? word s = some rest) : rest.length + word.length = s.length := by
  fun_induction dropIgnoringCase? word s with
  | case1 => simp_all
  | case2 => simp at hrest
  | case3 c word d s _ ih => simp [← ih hrest]; omega
  | case4 => simp at hrest

example : lower "ΑΣ ΣΑ İX".toList = "ας σα i\u0307x".toList := by decide +kernel

end Gleaner.Text
