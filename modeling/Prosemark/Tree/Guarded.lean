import Prosemark.Tree.Parser

/-!
# Guarded readers

The readers of `Parser` move cursors, which are at character boundaries and go on by construction.
The readers here go by byte offsets instead. They look into the source anew at each one, count the
scopes that they are in, and guard each step that could go wrong: an offset may be no character
boundary, a span may end before it starts, a left text may open no fence, an expression for the
marks that end a scope may be too large to build, a scope may be left that was not entered, and a
loop or a call may start where one has started before. A guard that is not met stops them (`Stop`),
and so does a bound on the nesting of calls.

The size of an expression is the one guard that a source can fail to meet. An expression has the
right text of a fence in it, with as many `#` as the source has there, and the library of expressions
limits what it may take up (`Context.limited`, `refused?`).
-/

namespace Prosemark

namespace Guarded

/-- What is read, and with which switch. Whether an expression that finds the first of some marks
can be built is for the library of expressions to say. -/
structure Context where
  sw : Switch
  source : String
  builds : List (List Char) → Bool

/-- Why readers stop without a result. -/
inductive Stop where
  /-- The source breaks a rule of the grammar. -/
  | flaw (flaw : Flaw)
  /-- No expression can be built for the marks. -/
  | marks (marks : List (List Char))
  /-- The offset is no character boundary. -/
  | slice (offset : Nat)
  /-- The span ends before it starts. -/
  | span (start stop : Nat)
  /-- The text opens no fence. -/
  | fence (left : List Char)
  /-- A loop or a call starts where one has started before. -/
  | stalled (offset : Nat)
  /-- A scope is left that was not entered. -/
  | scope
  /-- Calls are nested more deeply than the bound allows. -/
  | exhausted
  deriving DecidableEq, Repr

/-- The number of scopes around, and the least offset at which a loop or a call has not started
yet. -/
structure State where
  depth : Nat
  reached : Nat
  deriving DecidableEq, Repr

abbrev Reader := StateT State (Except Stop)

/-! ## Guards -/

/-- A span, which must not end before it starts. -/
def spanOf (start stop : Nat) : Reader Span :=
  if start ≤ stop then return ⟨start, stop⟩ else throw (.span start stop)

/-- No loop or call has started at the offset yet, or further on. -/
def goOn (offset : Nat) : Reader Unit := do
  let state ← get
  if offset < state.reached then throw (.stalled offset)

/-- A loop or a call starts at the offset, further on than all before it. -/
def startAt (offset : Nat) : Reader Unit := do
  goOn offset
  modify fun state => { state with reached := offset + 1 }

/-- A reader that can only fail because of a flaw. -/
def orFlaw {α : Type} : Except Flaw α → Reader α
  | .ok value => return value
  | .error flaw => throw (.flaw flaw)

/-! ## Scopes

Texts are read up to the right text of a fence, or in the scope of the document, which has none. -/

/-- What is on either side of a scope. -/
def enclosingOf : Option Fence → Enclosing
  | none => .unfenced
  | some fence => fence.enclosing

/-- The text that ends a scope. -/
def rightOf : Option Fence → List Char
  | none => []
  | some fence => fence.right

/-- The number of scopes within a scope that is in `outer` others; that of the document does not
count. -/
def within (closing : Option Fence) (outer : Nat) : Nat :=
  if closing.isSome then outer + 1 else outer

def enter (closing : Option Fence) : Reader Unit :=
  modify fun state => { state with depth := within closing state.depth }

def leave : Option Fence → Reader Unit
  | none => return ()
  | some _ => do
    let state ← get
    match state.depth with
    | 0 => throw .scope
    | outer + 1 => set { state with depth := outer }

/-! ## Looking into the source -/

namespace Context

/-- The library refuses the expressions for marks of more bytes than the limit. -/
def limited (sw : Switch) (source : String) (limit : Nat) : Context :=
  ⟨sw, source, fun marks => decide (width marks.flatten ≤ limit)⟩

/-- What marks of one expression can have in bytes: the library grants it 10 MiB, and each byte
takes a state of 32 bytes at least. It needs some more, in particular for several marks, so it also
refuses some expressions within this limit. -/
def sizeLimit : Nat :=
  10485760 / 32

/-- The text from an offset on, if that is a character boundary. -/
def rest? (ctx : Context) (offset : Nat) : Option (List Char) :=
  ((Cursor.start ctx.source).seek? offset).map Cursor.rest

/-- The text from an offset on, which must be a character boundary. -/
def rest (ctx : Context) (offset : Nat) : Reader (List Char) :=
  match ctx.rest? offset with
  | some cs => return cs
  | none => throw (.slice offset)

end Context

/-- A lexeme and the offsets between which it stands. -/
structure Found where
  text : List Char
  start : Nat
  stop : Nat

def Found.ofCut (offset : Nat) {cs : List Char} (cut : Cut cs) : Found :=
  ⟨cut.piece, offset, offset + width cut.piece⟩

/-- A break and the offsets around the text before the mark and around the mark. -/
structure FoundBreak where
  inner : List Char
  start : Nat
  mark : List Char
  markStart : Nat
  stop : Nat

def FoundBreak.ofBreak (offset : Nat) {cs : List Char} (brk : Break cs) : FoundBreak :=
  ⟨brk.inner, offset, brk.mark, offset + width brk.inner,
    offset + width brk.inner + width brk.mark⟩

namespace Context

/-- The lexeme that a scanner finds right at an offset. -/
def match? (ctx : Context) (scan : (cs : List Char) → Option (Cut cs)) (offset : Nat) :
    Option Found := do
  let cs ← ctx.rest? offset
  let cut ← scan cs
  return .ofCut offset cut

/-- The numeral right at an offset. -/
def numeral? (ctx : Context) (offset : Nat) : Option (Numeral × Found) := do
  let cs ← ctx.rest? offset
  let (numeral, cut) ← Numeral.cut? cs
  return (numeral, .ofCut offset cut)

/-- The offset after the blanks at an offset. -/
def skipBlanks (ctx : Context) (offset : Nat) : Nat :=
  match ctx.rest? offset with
  | some cs => offset + width (cs.takeWhile Charset.isBlank)
  | none => offset

/-- The fence that opens right at an offset, with its left text. -/
def opening? (ctx : Context) (d : Delimiter) (offset : Nat) : Reader (Option (Fence × Found)) :=
  match ctx.match? (fun cs => (Fence.cut? d cs).map Prod.snd) offset with
  | none => return none
  | some found =>
    match Fence.ofLeft? found.text with
    | some fence => return some (fence, found)
    | none => throw (.fence found.text)

/-- The marks at which the fragments of a scope break; those of the document break at a switch or
at the end. -/
def fragmentMarks (ctx : Context) (closing : Option Fence) : Option (List (List Char)) :=
  closing.map fun fence => [[ctx.sw.char], fence.right]

/-- The mark at which verbatim text breaks. -/
def textMarks (closing : Option Fence) : Option (List (List Char)) :=
  closing.map fun fence => [fence.right]

/-- Builds the expression for some marks. The one that goes without is there from the start. -/
def build (ctx : Context) : Option (List (List Char)) → Reader Unit
  | none => return ()
  | some marks => if ctx.builds marks then return () else throw (.marks marks)

/-- The first break behind an offset. -/
def break? (ctx : Context) (marks : Option (List (List Char))) (offset : Nat) :
    Option FoundBreak := do
  let cs ← ctx.rest? offset
  let brk ← match marks with
    | none => some (Break.ofDocument ctx.sw cs)
    | some marks => Break.find? marks cs
  return .ofBreak offset brk

/-- The first break behind an offset, in a scope that was opened at `opener`. -/
def nextBreak (ctx : Context) (marks : Option (List (List Char))) (closing : Option Fence)
    (opener offset : Nat) : Reader FoundBreak :=
  match ctx.break? marks offset with
  | some found => return found
  | none => throw (.flaw ⟨.unclosed (enclosingOf closing).left (enclosingOf closing).right, opener⟩)

/-- Refuses a further `#` after a right text that ends with one, outside all scopes. -/
def checkHashes (ctx : Context) (closing : Option Fence) (opener stop : Nat) : Reader Unit := do
  let state ← get
  if state.depth = 0 ∧ (rightOf closing).getLast? = some '#' then
    let cs ← ctx.rest stop
    if cs.head? = some '#' then
      throw (.flaw ⟨.unbalanced (enclosingOf closing).left (enclosingOf closing).right, opener⟩)

end Context

/-! ## Readers without calls -/

/-- The prose fragment before a break, unless it is empty. -/
def prose (found : FoundBreak) : Reader (List Fragment) :=
  if found.inner = [] then return []
  else do
    let span ← spanOf found.start found.markStart
    return [.text ⟨span, String.ofList found.inner, .unfenced⟩]

/-- The verbatim text from `start` on, in a scope that was opened at `opener`. -/
def text (ctx : Context) (closing : Option Fence) (opener start : Nat) : Reader (Text × Nat) := do
  startAt start
  ctx.build (Context.textMarks closing)
  let found ← ctx.nextBreak (Context.textMarks closing) closing opener start
  let span ← spanOf start found.markStart
  ctx.checkHashes closing opener found.stop
  return (⟨span, String.ofList found.inner, enclosingOf closing⟩, found.stop)

/-- An identifier, an operator or a number, tried in this order. -/
def atom? (ctx : Context) (pos : Nat) : Reader (Option (Token × Nat)) :=
  match ctx.match? Lexeme.identifier? pos with
  | some name => do
    let span ← spanOf name.start name.stop
    return some (.identifier span (String.ofList name.text), name.stop)
  | none =>
    match ctx.match? (Lexeme.operator? ctx.sw) pos with
    | some symbols => do
      let span ← spanOf symbols.start symbols.stop
      return some (.operator span (String.ofList symbols.text), symbols.stop)
    | none =>
      match ctx.numeral? pos with
      | some (numeral, found) => do
        let number ← orFlaw (Parser.numberOf numeral found.start)
        let span ← spanOf found.start found.stop
        return some (.number span number, found.stop)
      | none => return none

/-- What was read at `pos` with the offset after it, or nothing with the offset `pos`. -/
def orStay {α : Type} (pos : Nat) : Option (α × Nat) → Option α × Nat
  | some (value, next) => (some value, next)
  | none => (none, pos)

/-! ## Readers that call each other -/

mutual

/-- The fragments from `start` to the end of a scope that was opened at `opener`. -/
def fragments (ctx : Context) (fuel : Nat) (closing : Option Fence) (opener start : Nat) :
    Reader (Block × Nat) :=
  match fuel with
  | 0 => throw .exhausted
  | fuel + 1 => do
    ctx.build (ctx.fragmentMarks closing)
    enter closing
    let ((children, mark), stop) ← fragmentLoop ctx fuel closing opener start
    leave closing
    let span ← spanOf start mark
    ctx.checkHashes closing opener stop
    return (⟨span, children, enclosingOf closing⟩, stop)

/-- The fragments from `pos` on, with the offset of what ends them. -/
def fragmentLoop (ctx : Context) (fuel : Nat) (closing : Option Fence) (opener pos : Nat) :
    Reader ((List Fragment × Nat) × Nat) :=
  match fuel with
  | 0 => throw .exhausted
  | fuel + 1 => do
    startAt pos
    let found ← ctx.nextBreak (ctx.fragmentMarks closing) closing opener pos
    let before ← prose found
    if found.mark = [ctx.sw.char] then
      let (node, next) ← expression ctx fuel found.markStart found.stop
      let ((tail, mark), stop) ← fragmentLoop ctx fuel closing opener next
      return ((before ++ node :: tail, mark), stop)
    else return ((before, found.markStart), found.stop)

/-- The block or quoted text that opens at `pos`, if one does. -/
def body? (ctx : Context) (fuel : Nat) (pos : Nat) : Reader (Option (Body × Nat)) :=
  match fuel with
  | 0 => throw .exhausted
  | fuel + 1 => do
    match ← ctx.opening? .brace pos with
    | some (fence, left) =>
      let (block, next) ← fragments ctx fuel (some fence) left.start left.stop
      return some (.block block, next)
    | none =>
      match ← ctx.opening? .quote pos with
      | some (fence, left) =>
        let (text, next) ← text ctx (some fence) left.start left.stop
        return some (.text text, next)
      | none => return none

/-- What follows the switch at `start`, from `pos` on. -/
def expression (ctx : Context) (fuel : Nat) (start pos : Nat) : Reader (Fragment × Nat) :=
  match fuel with
  | 0 => throw .exhausted
  | fuel + 1 => do
    startAt pos
    match ctx.match? Lexeme.identifier? pos with
    | some name =>
      let (command, next) ← call ctx fuel start name.text .unfenced name.stop
      return (.command command, next)
    | none =>
      match ← ctx.opening? .bar pos with
      | some (fence, left) =>
        ctx.build (Context.textMarks (some fence))
        let phrase ← ctx.nextBreak (Context.textMarks (some fence)) (some fence) left.start
          left.stop
        let (command, next) ← call ctx fuel start phrase.inner fence.enclosing phrase.stop
        return (.command command, next)
      | none =>
        match ← body? ctx fuel pos with
        | some (body, next) => return (body.toFragment, next)
        | none =>
          match ctx.match? Lexeme.symbol? pos with
          | some symbol =>
            let span ← spanOf start symbol.stop
            return (.command ⟨span, String.ofList symbol.text, .unfenced, none, none⟩, symbol.stop)
          | none => throw (.flaw ⟨.invalidExpression ctx.sw.char, start⟩)

/-- The command whose phrase ends at `pos`. It may end there too, and what comes next starts there,
so its own start is not recorded. -/
def call (ctx : Context) (fuel : Nat) (start : Nat) (phrase : List Char)
    (phraseEnclosing : Enclosing) (pos : Nat) : Reader (Command × Nat) :=
  match fuel with
  | 0 => throw .exhausted
  | fuel + 1 => do
    goOn pos
    if phrase = [] then
      let span ← spanOf start pos
      return (⟨span, "", phraseEnclosing, none, none⟩, pos)
    else
      let (options, pos) := orStay pos (← group? ctx fuel pos)
      let (body, pos) := orStay pos (← body? ctx fuel pos)
      let span ← spanOf start pos
      return (⟨span, String.ofList phrase, phraseEnclosing, options, body⟩, pos)

/-- The group that opens at `pos`, if one does. -/
def group? (ctx : Context) (fuel : Nat) (pos : Nat) : Reader (Option (Group × Nat)) :=
  match fuel with
  | 0 => throw .exhausted
  | fuel + 1 => do
    match ctx.match? (Lexeme.char? '[') pos with
    | some bracket =>
      let (group, next) ← tokens ctx fuel bracket.start bracket.stop
      return some (group, next)
    | none => return none

/-- The token at `pos`, if there is one. -/
def token? (ctx : Context) (fuel : Nat) (pos : Nat) : Reader (Option (Token × Nat)) :=
  match fuel with
  | 0 => throw .exhausted
  | fuel + 1 => do
    match ← atom? ctx pos with
    | some found => return some found
    | none =>
      match ← body? ctx fuel pos with
      | some (body, next) => return some (body.toToken, next)
      | none =>
        match ctx.match? (Lexeme.char? ctx.sw.char) pos with
        | some switch =>
          let (node, next) ← expression ctx fuel switch.start switch.stop
          return some (node.toToken, next)
        | none =>
          match ← group? ctx fuel pos with
          | some (group, next) => return some (.group group, next)
          | none => return none

/-- The tokens from `start` to the closing bracket; the opening one is at `opener`. -/
def tokens (ctx : Context) (fuel : Nat) (opener start : Nat) : Reader (Group × Nat) :=
  match fuel with
  | 0 => throw .exhausted
  | fuel + 1 => do
    let ((children, bracket), stop) ← tokenLoop ctx fuel opener start
    let span ← spanOf start bracket
    return (⟨span, children⟩, stop)

/-- The tokens from `pos` on, with the offset of the closing bracket. -/
def tokenLoop (ctx : Context) (fuel : Nat) (opener pos : Nat) :
    Reader ((List Token × Nat) × Nat) :=
  match fuel with
  | 0 => throw .exhausted
  | fuel + 1 => do
    startAt pos
    let pos := ctx.skipBlanks pos
    match ← token? ctx fuel pos with
    | some (first, next) =>
      let ((tail, bracket), stop) ← tokenLoop ctx fuel opener next
      return ((first :: tail, bracket), stop)
    | none =>
      match ctx.match? (Lexeme.char? ']') pos with
      | some bracket => return (([], bracket.start), bracket.stop)
      | none => throw (.flaw ⟨.unclosed "[" "]", opener⟩)

end

/-- The block of a whole source. -/
def document (ctx : Context) (fuel : Nat) : Except Stop Block := do
  let ((block, _), _) ← (fragments ctx fuel none 0 0).run ⟨0, 0⟩
  return block

/-- A bound that is large enough for the source. -/
def enough (source : String) : Nat :=
  4 * source.toList.length + 4

/-- The marks, if any, for which the library refuses an expression when it is to read the source. -/
def refused? (sw : Switch) (source : String) : Option (List (List Char)) :=
  -- no fence of such a source is over the limit
  if source.utf8ByteSize + 4 ≤ Context.sizeLimit then none
  else
    match document (.limited sw source Context.sizeLimit) (enough source) with
    | .error (.marks marks) => some marks
    | _ => none

end Guarded

end Prosemark
