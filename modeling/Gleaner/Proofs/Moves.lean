import Gleaner.Template.Compile

/-! # Moves of the compiler

The compiler reads a text and, behind it, one tag, one binding or one listing, and goes on with what is left.
What it does up to there is a move. A compilation is the run of its moves, so what holds of every move
holds of a compilation.
-/

namespace Gleaner.Template

open Text

/-- What the compiler does with the next thing in a slice. -/
inductive Move
  | fail (fault : Fault)
  | finish (t : Template)
  | next (d : Draft) (r : Run) (left : Slice)
  /-- The items of the listing are a template of their own, to be compiled first. -/
  | list (d : Draft) (r : Run) (written : WrittenListing)

namespace Move

/-- A tag that closes a slot. What stands behind its bracket is `behind`. -/
def closing (d : Draft) (r : Run) (behind : Slice) : Move :=
  match cut ['>'] behind.inside with
  | none => .fail (.here .openTag ('<' :: behind.rest))
  | some (_, rest) => .next (r.settle d).close .empty { behind with inside := rest }

def opening (d : Draft) (r : Run) (behind : Slice) : Move :=
  match readTag ('<' :: behind.rest) behind with
  | .error fault => .fail fault
  | .ok tag =>
    match (r.settle d).refusal? tag.slot with
    | some cause => .fail (.here cause ('<' :: behind.rest))
    | none =>
      let entered := (r.settle d).enter tag.slot
      .next (if tag.selfClosed then entered.close else entered) .empty tag.rest

def listing (d : Draft) (r : Run) (here : Slice) : Move :=
  if d.hasListing then .fail (.here .secondListing here.rest)
  else
    match readListing here with
    | .error fault => .fail fault
    | .ok written => .list d r written

def field (d : Draft) (r : Run) (here : Slice) : Move :=
  match readField here with
  | .error fault => .fail fault
  | .ok (b, left) =>
    if d.inOptional && !b.nullable then .fail (.here (.requiredInOptional b.name) here.rest)
    else .next d (r.addField b) left

end Move

/-- The next move of a compilation of which `d` and `r` are read and `s` is not. -/
def move (start : Text) (d : Draft) (r : Run) (s : Slice) : Move :=
  let run := r.addLiteral (s.inside.takeWhile (!endsLiteral ·))
  match s.inside.dropWhile (!endsLiteral ·) with
  | [] =>
    match (run.settle d).finish with
    | none => .fail (.here .noRoot start)
    | some t => .finish t
  | '<' :: inside =>
    let behind : Slice := { s with inside := inside }
    if behind.peek = some '/' then .closing d run behind else .opening d run behind
  | c :: inside =>
    let here : Slice := { s with inside := c :: inside }
    if d.opened.isEmpty then .fail (.here .outsideBinding here.rest)
    else if Slice.peek { s with inside := inside } = some '{' then .listing d run here
    else .field d run here

/-- A compilation is the run of its moves. -/
theorem compileFrom_move (start : Text) (d : Draft) (r : Run) (s : Slice) :
    compileFrom start d r s =
      match move start d r s with
      | .fail fault => .error fault
      | .finish t => .ok t
      | .next d r left => compileFrom start d r left
      | .list d r written =>
        match compileFrom written.items.rest .empty .empty written.items with
        | .error fault => .error fault
        | .ok t => compileFrom start (d.setListing written.name t) { r with listed := true } written.rest := by
  rw [compileFrom_eq]
  unfold move
  dsimp only
  generalize r.addLiteral _ = run
  cases s.inside.dropWhile (!endsLiteral ·) with
  | nil =>
      dsimp only
      cases (run.settle d).finish with
      | none => rfl
      | some t => rfl
  | cons c inside =>
      by_cases hc : c = '<'
      · subst hc
        simp only
        by_cases hclosing : Slice.peek ⟨inside, s.beyond, s.cutShort⟩ = some '/'
        · rw [if_pos hclosing, if_pos hclosing]
          unfold Move.closing
          dsimp only
          cases cut ['>'] inside with
          | none => rfl
          | some pair => rfl
        · rw [if_neg hclosing, if_neg hclosing]
          unfold Move.opening
          cases readTag _ _ with
          | error fault => rfl
          | ok tag =>
              dsimp only
              cases (run.settle d).refusal? tag.slot with
              | some cause => rfl
              | none => rfl
      · simp only
        by_cases hopened : d.opened.isEmpty
        · rw [if_pos hopened, if_pos hopened]
        · rw [if_neg hopened, if_neg hopened]
          by_cases hdouble : Slice.peek ⟨inside, s.beyond, s.cutShort⟩ = some '{'
          · rw [if_pos hdouble, if_pos hdouble]
            unfold Move.listing
            cases d.hasListing with
            | true => rfl
            | false =>
                cases readListing _ with
                | error fault => rfl
                | ok written => rfl
          · rw [if_neg hdouble, if_neg hdouble]
            unfold Move.field
            cases readField _ with
            | error fault => rfl
            | ok pair =>
                dsimp only
                cases d.inOptional && !pair.1.nullable with
                | true => rfl
                | false => rfl

/-! ### What is left is shorter -/

namespace Move

/-- What is left to compile is shorter than `n`. -/
def Shrinks (n : Nat) : Move → Prop
  | next _ _ left => left.inside.length < n
  | list _ _ written => written.items.inside.length < n ∧ written.rest.inside.length < n
  | _ => True

variable {d : Draft} {r : Run} {s : Slice} {m n : Nat}

theorem Shrinks.mono {move : Move} (hshrinks : move.Shrinks m) (hmn : m ≤ n) : move.Shrinks n := by
  cases move with
  | fail fault => trivial
  | finish t => trivial
  | next d r left => exact Nat.lt_of_lt_of_le hshrinks hmn
  | list d r written =>
      exact ⟨Nat.lt_of_lt_of_le hshrinks.1 hmn, Nat.lt_of_lt_of_le hshrinks.2 hmn⟩

theorem shrinks_closing (d : Draft) (r : Run) (behind : Slice) :
    (closing d r behind).Shrinks (behind.inside.length + 1) := by
  unfold closing
  split
  next => trivial
  next rest hcut => exact Nat.lt_succ_of_le (Nat.le_of_add_right_le (length_of_cut hcut))

theorem shrinks_opening (d : Draft) (r : Run) (behind : Slice) :
    (opening d r behind).Shrinks (behind.inside.length + 1) := by
  unfold opening
  split
  next => trivial
  next tag htag =>
    split
    next => trivial
    next => exact Nat.lt_succ_of_lt (length_of_readTag htag)

theorem shrinks_listing (d : Draft) (r : Run) {here : Slice} (hhere : here.inside ≠ []) :
    (listing d r here).Shrinks here.inside.length := by
  unfold listing
  split
  next => trivial
  next =>
    split
    next => trivial
    next written hlisting => exact length_of_readListing hlisting hhere

theorem shrinks_field (d : Draft) (r : Run) {here : Slice} (hhere : here.inside ≠ []) :
    (field d r here).Shrinks here.inside.length := by
  unfold field
  split
  next => trivial
  next b left hfield =>
    split
    next => trivial
    next => exact length_of_readField hfield hhere

end Move

theorem shrinks_move (start : Text) (d : Draft) (r : Run) (s : Slice) :
    (move start d r s).Shrinks s.inside.length := by
  have hlength := length_dropWhile_le (!endsLiteral ·) s.inside
  unfold move
  dsimp only
  split
  next =>
    split
    next => trivial
    next => trivial
  next inside hdrop =>
    rw [hdrop] at hlength
    split
    next => exact (Move.shrinks_closing d _ ⟨inside, s.beyond, s.cutShort⟩).mono hlength
    next => exact (Move.shrinks_opening d _ ⟨inside, s.beyond, s.cutShort⟩).mono hlength
  next c inside _ hdrop =>
    rw [hdrop] at hlength
    have hhere : Slice.inside ⟨c :: inside, s.beyond, s.cutShort⟩ ≠ [] := List.cons_ne_nil c inside
    split
    next => trivial
    next =>
      split
      next => exact (Move.shrinks_listing d _ hhere).mono hlength
      next => exact (Move.shrinks_field d _ hhere).mono hlength

variable {motive : Text → Draft → Run → Slice → Prop}

/-- Induction along the moves of a compilation. -/
@[elab_as_elim]
theorem compileFrom_induction
    (fail : ∀ {start d r s fault}, move start d r s = .fail fault → motive start d r s)
    (finish : ∀ {start d r s t}, move start d r s = .finish t → motive start d r s)
    (next : ∀ {start d r s d' r' left}, move start d r s = .next d' r' left → motive start d' r' left →
      motive start d r s)
    (list : ∀ {start d r s d' r' written}, move start d r s = .list d' r' written →
      motive written.items.rest .empty .empty written.items →
      (∀ t, motive start (d'.setListing written.name t) { r' with listed := true } written.rest) →
      motive start d r s)
    (start : Text) (d : Draft) (r : Run) (s : Slice) : motive start d r s := by
  induction hlength : s.inside.length using Nat.strongRecOn generalizing start d r s with
  | ind n ih =>
      subst hlength
      have hshrinks := shrinks_move start d r s
      cases hmove : move start d r s with
      | fail fault => exact fail hmove
      | finish t => exact finish hmove
      | next d' r' left =>
          rw [hmove] at hshrinks
          exact next hmove (ih _ hshrinks start d' r' left rfl)
      | list d' r' written =>
          rw [hmove] at hshrinks
          obtain ⟨hitems, hrest⟩ := hshrinks
          exact list hmove (ih _ hitems _ .empty .empty _ rfl) fun t => ih _ hrest start _ _ _ rfl

end Gleaner.Template
