import ApexBase.Library.Wildcard

/-! Regular expressions of literals, dots and anchors: their texts, and the search for them anywhere
in a text. A dot is any character but a line feed; an anchor is an end of the whole text. -/
namespace ApexBase.Library.RegexFragment
open Wildcard

inductive Piece
  | start
  | finish
  | dot
  | dotStar
  | literal (c : Char)
  deriving DecidableEq

def isMeta (c : Char) : Bool := c ∈ ['.','+','*','?','^','$','(',')','[',']','{','}','|','\\']

def parse : List Char → Option (List Piece)
  | [] => some []
  | '\\' :: c :: rest => if isMeta c then (parse rest).map (.literal c :: ·) else none
  | '^' :: rest => (parse rest).map (.start :: ·)
  | '$' :: rest => (parse rest).map (.finish :: ·)
  | '.' :: '*' :: rest => (parse rest).map (.dotStar :: ·)
  | '.' :: rest => (parse rest).map (.dot :: ·)
  | c :: rest => if isMeta c then none else (parse rest).map (.literal c :: ·)

theorem parse_dot {rest : List Char} (next : rest.head? ≠ some '*') :
    parse ('.' :: rest) = (parse rest).map (.dot :: ·) := by
  cases rest with
  | nil => rfl
  | cons c rest =>
    rw [parse]
    intro other same
    cases same
    exact next rfl

theorem parse_literal {c : Char} (plain : isMeta c = false) (rest : List Char) :
    parse (c :: rest) = (parse rest).map (.literal c :: ·) := by
  have apart {d : Char} (meta_ : isMeta d = true) : c ≠ d := by
    rintro rfl
    rw [plain] at meta_
    cases meta_
  rw [parse,if_neg (by rw [plain]; decide)]
  · rintro _ _ rfl
    exact absurd rfl (apart rfl)
  · exact apart rfl
  · exact apart rfl
  · rintro _ rfl
    exact absurd rfl (apart rfl)
  · exact apart rfl

def notLineFeed (c : Char) : Bool := c != '\n'

/-- A run of characters that are no line feeds; whether the text starts here is passed on. -/
def run (next : Bool → List Char → Bool) : Bool → List Char → Bool
  | atStart,[] => next atStart []
  | atStart,c :: rest => next atStart (c :: rest) || (notLineFeed c && run next false rest)

def follows : List Piece → Bool → List Char → Bool
  | [] => fun _ _ => true
  | .start :: pieces => fun atStart text => atStart && follows pieces atStart text
  | .finish :: pieces => fun atStart text => text.isEmpty && follows pieces atStart text
  | .dot :: pieces => fun _ text =>
    match text with | [] => false | c :: rest => notLineFeed c && follows pieces false rest
  | .dotStar :: pieces => run (follows pieces)
  | .literal c :: pieces => fun _ text =>
    match text with | [] => false | first :: rest => c == first && follows pieces false rest

def followsLater (pieces : List Piece) : List Char → Bool
  | [] => false
  | _ :: rest => follows pieces false rest || followsLater pieces rest

def search (pieces : List Piece) (text : List Char) : Bool := follows pieces true text || followsLater pieces text

def pieceOf : Item Char → Piece
  | .exact c => .literal c
  | .one => .dot
  | .any => .dotStar

theorem run_eq {next : Bool → List Char → Bool} {plain : List Char → Bool}
    (same : ∀ atStart text, next atStart text = plain text) (atStart : Bool)
    (text : List Char) : run next atStart text = reaches notLineFeed plain text := by
  induction text generalizing atStart with
  | nil => exact same atStart []
  | cons c rest ih => rw [run,reaches,same,ih]

theorem follows_items (items : List (Item Char)) (atStart : Bool) (text : List Char) :
    follows (items.map pieceOf ++ [.finish]) atStart text = fits notLineFeed items text := by
  induction items generalizing atStart text with
  | nil => exact Bool.and_true _
  | cons item items ih =>
    cases item with
    | exact c =>
      cases text with
      | nil => rfl
      | cons first rest =>
        change (c == first && follows (items.map pieceOf ++ [.finish]) false rest) = _
        rw [ih]
        rfl
    | one =>
      cases text with
      | nil => rfl
      | cons first rest =>
        change (notLineFeed first && follows (items.map pieceOf ++ [.finish]) false rest) = _
        rw [ih]
        rfl
    | any => exact run_eq ih atStart text

theorem followsLater_anchored (pieces : List Piece) (text : List Char) :
    followsLater (.start :: pieces) text = false := by
  induction text with
  | nil => rfl
  | cons c rest ih => exact ih

theorem search_anchored (items : List (Item Char)) (text : List Char) :
    search (.start :: (items.map pieceOf ++ [.finish])) text = fits notLineFeed items text := by
  rw [search,followsLater_anchored,Bool.or_false]
  exact follows_items items true text

end ApexBase.Library.RegexFragment
