import Scoreboard.Token

/-!
# A cursor over tokens

A list of tokens with a place in it: the tokens before the place, nearest first, the token
at the place and the tokens behind it. There is always a current token, so looking at it
cannot fail.

A place may also be counted from the end, by a negative index. Before such a place the first
token of the list counts as the previous one, however far it has moved.
-/

namespace Scoreboard

/-- A place in a list of tokens. A place counted from the end keeps the first token. -/
structure Cursor where
  before : List Token
  current : Token
  after : List Token
  fromEnd : Option Token := none
  deriving DecidableEq, Repr, Inhabited

namespace Cursor

/-- A cursor at the first token, none for an empty list. -/
def ofTokens? : List Token → Option Cursor
  | [] => none
  | first :: rest => some { before := [], current := first, after := rest }

/-- All tokens, in order. -/
def tokens (c : Cursor) : List Token :=
  c.before.reverse ++ c.current :: c.after

/-- The index of the place: the number of tokens before it, or less than zero if it is
counted from the end. -/
def index (c : Cursor) : Int :=
  if c.fromEnd.isSome then -(c.after.length + 1) else c.before.length

/-- The number of tokens behind the place. -/
def remaining (c : Cursor) : Nat := c.after.length

/-- Whether the current token ends the text. -/
def atEnd (c : Cursor) : Bool := c.current.kind == .endOfText

/-- The token before the place; at the first token, that token. -/
def previous (c : Cursor) : Token := c.fromEnd.getD (c.before.headD c.current)

/-- One token forward. The end of the text stays in place. -/
def advance (c : Cursor) : Cursor :=
  match c.after with
  | next :: rest =>
    if c.atEnd then c
    else { c with before := c.current :: c.before, current := next, after := rest }
  | [] => c

/-- A cursor behind the first `n` tokens, none if there is no token left. -/
def behind? (tokens : List Token) (n : Nat) (fromEnd : Option Token) : Option Cursor :=
  match tokens.drop n with
  | current :: after => some ⟨(tokens.take n).reverse, current, after, fromEnd⟩
  | [] => none

/-- The cursor over the same tokens at another index, none if there is no token. -/
def moveTo? (index : Int) (c : Cursor) : Option Cursor :=
  let tokens := c.tokens
  if 0 ≤ index then behind? tokens index.toNat none
  else if 0 ≤ tokens.length + index then
    behind? tokens (tokens.length + index).toNat tokens.head?
  else none

/-- The number of newlines at the place, and the place behind them. -/
def pastNewlines (before : List Token) (current : Token) :
    List Token → Nat × List Token × Token × List Token
  | [] => (0, before, current, [])
  | next :: rest =>
    if current.kind == .newline then
      let (count, place) := pastNewlines (current :: before) next rest
      (count + 1, place)
    else (0, before, current, next :: rest)

end Cursor

end Scoreboard
