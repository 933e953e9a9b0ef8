import Prosemark.Error
import Prosemark.Lexeme
import Prosemark.Tree

/-!
# Parsing

    fragments := ( prose | switch expression )*
    expression := identifier call | bar phrase bar call | block | quoted text | symbol
    call := options? body?
    options := "[" ( blanks token )* blanks "]"

The readers move a cursor. Each call reads at least one character before it calls another reader,
so a bound on the length of the text is all they recurse on; it is never reached.

A right fence with padding must not run into a further `#` at the top level, where that `#` would
be prose of the document; within braces it is prose of the block around.

A fence can have any number of `#`. The library that finds right texts builds an expression for each
and limits its size; that is left out here. The readers of `Guarded` stop where it refuses one, and
read the same otherwise.
-/

namespace Prosemark

/-- A broken rule of the grammar and the offset to which it is pinned. -/
structure Flaw where
  fault : GrammarFault
  offset : Nat
  deriving DecidableEq, Repr

namespace Flaw

/-- A fence opened at `opener` is never closed. -/
def unclosed (f : Fence) (opener : Nat) : Flaw :=
  ⟨.unclosed f.enclosing.left f.enclosing.right, opener⟩

/-- A fence opened at `opener` is closed with more `#` than it was opened with. -/
def unbalanced (f : Fence) (opener : Nat) : Flaw :=
  ⟨.unbalanced f.enclosing.left f.enclosing.right, opener⟩

/-- The located error of a source. -/
def toError (source : String) (flaw : Flaw) : Error :=
  (Error.grammar flaw.fault (.ofOffset flaw.offset)).locate source

end Flaw

namespace Parser

/-- What encloses the fragments being read. -/
inductive Scope where
  | document
  | braces (fence : Fence) (opener : Nat)

namespace Scope

/-- Whether fragments are read within braces. -/
def isNested : Scope → Bool
  | document => false
  | braces _ _ => true

/-- The prose up to the next switch or to the end of the scope. -/
def nextBreak (sw : Switch) (cs : List Char) : Scope → Except Flaw (Break cs)
  | document => .ok (Break.ofDocument sw cs)
  | braces fence opener =>
    match Break.ofFragments? sw fence.right cs with
    | some brk => .ok brk
    | none => .error (.unclosed fence opener)

end Scope

/-- The prose fragment of a text, unless it is empty. -/
def prose (offset : Nat) : List Char → List Fragment
  | [] => []
  | c :: cs =>
    [.text ⟨⟨offset, offset + width (c :: cs)⟩, String.ofList (c :: cs), .unfenced⟩]

/-- Refuses a further `#` after a padded right fence that ends at the top level. -/
def checkPadding (nested : Bool) (fence : Fence) (opener : Nat) (next : Cursor) :
    Except Flaw Unit :=
  if nested = false ∧ 0 < fence.hashes ∧ next.rest.head? = some '#' then
    .error (.unbalanced fence opener)
  else .ok ()

/-- The verbatim text from `cur`, right after the left fence at `opener`, to the right fence, and
the offset at which that stands. -/
def verbatim (fence : Fence) (opener : Nat) (cur : Cursor) :
    Except Flaw (Step (cur.rest.length + 1) (List Char × Nat)) :=
  match Break.ofVerbatim? fence.right cur.rest with
  | none => .error (.unclosed fence opener)
  | some brk =>
    let mark := cur.offset + width brk.inner
    .ok ⟨(brk.inner, mark), ⟨mark + width brk.mark, brk.rest⟩, Nat.lt_succ_of_le brk.rest_le⟩

/-- The number that a numeral in options stands for. -/
def numberOf (numeral : Numeral) (offset : Nat) : Except Flaw Number :=
  match Number.ofNumeral numeral with
  | .ok number => .ok number
  | .error column => .error ⟨.numberOutOfRange (String.ofList numeral.chars) column, offset⟩

/-- The span of a lexeme at a cursor. -/
def lexemeSpan (cur : Cursor) (cut : Cut cur.rest) : Span :=
  ⟨cur.offset, cur.offset + width cut.piece⟩

/-- An identifier, an operator or a number, tried in this order. -/
def atom? (sw : Switch) (cur : Cursor) : Except Flaw (Option (Token × Cut cur.rest)) :=
  match Lexeme.identifier? cur.rest with
  | some cut =>
    .ok (some (.identifier (lexemeSpan cur cut) (String.ofList cut.piece), cut))
  | none =>
    match Lexeme.operator? sw cur.rest with
    | some cut => .ok (some (.operator (lexemeSpan cur cut) (String.ofList cut.piece), cut))
    | none =>
      match Numeral.cut? cur.rest with
      | some (numeral, cut) => do
        let number ← numberOf numeral cur.offset
        return some (.number (lexemeSpan cur cut) number, cut)
      | none => .ok none

mutual

/-- The fragments from `cur` to the end of the scope, with the offset at which its right fence, or
the end of the document, stands. -/
def fragments (sw : Switch) (bound : Nat) (scope : Scope) (cur : Cursor)
    (h : 4 * cur.rest.length < bound) :
    Except Flaw (Step (cur.rest.length + 1) (List Fragment × Nat)) :=
  match bound, h with
  | bound + 1, h => do
    let brk ← scope.nextBreak sw cur.rest
    let mark := cur.offset + width brk.inner
    let after : Cursor := ⟨mark + width brk.mark, brk.rest⟩
    if hs : brk.isSwitch sw = true then
      have hbrk : after.rest.length < cur.rest.length :=
        brk.rest_lt (Break.mark_ne_nil_of_isSwitch hs)
      let node ← expression sw bound scope.isNested mark after (by omega)
      have hnode := node.lt
      let tail ← fragments sw bound scope node.next (by omega)
      have htail := tail.lt
      return ⟨(prose cur.offset brk.inner ++ node.value :: tail.value.1, tail.value.2), tail.next,
        by omega⟩
    else
      return ⟨(prose cur.offset brk.inner, mark), after, Nat.lt_succ_of_le brk.rest_le⟩

/-- The block or quoted text that opens at `cur`, if one does. -/
def body? (sw : Switch) (bound : Nat) (nested : Bool) (cur : Cursor)
    (h : 4 * cur.rest.length + 1 < bound) : Except Flaw (Option (Step cur.rest.length Body)) :=
  match bound, h with
  | bound + 1, h =>
    match Fence.cut? .brace cur.rest with
    | some (fence, cut) => do
      let start := cur.past cut
      have hstart : start.rest.length < cur.rest.length := cur.past_lt cut
      let inner ← fragments sw bound (.braces fence cur.offset) start (by omega)
      checkPadding nested fence cur.offset inner.next
      let block : Block := ⟨⟨start.offset, inner.value.2⟩, inner.value.1, fence.enclosing⟩
      return some ((inner.map fun _ => .block block).weaken hstart)
    | none =>
      match Fence.cut? .quote cur.rest with
      | some (fence, cut) => do
        let start := cur.past cut
        let inner ← verbatim fence cur.offset start
        checkPadding nested fence cur.offset inner.next
        let text : Text :=
          ⟨⟨start.offset, inner.value.2⟩, String.ofList inner.value.1, fence.enclosing⟩
        return some ((inner.map fun _ => .text text).weaken (cur.past_lt cut))
      | none => .ok none

/-- What follows the switch at the offset `start`; `cur` is right after the switch. -/
def expression (sw : Switch) (bound : Nat) (nested : Bool) (start : Nat) (cur : Cursor)
    (h : 4 * cur.rest.length + 2 < bound) :
    Except Flaw (Step (cur.rest.length + 1) Fragment) :=
  match bound, h with
  | bound + 1, h =>
    match Lexeme.identifier? cur.rest with
    | some cut => do
      have hcut := cur.past_lt cut
      let command ← call sw bound nested start cut.piece .unfenced (cur.past cut) (by omega)
      return (command.map .command).weaken (by omega)
    | none =>
      match Fence.cut? .bar cur.rest with
      | some (fence, cut) => do
        have hcut := cur.past_lt cut
        let phrase ← verbatim fence cur.offset (cur.past cut)
        have hphrase := phrase.lt
        let command ←
          call sw bound nested start phrase.value.1 fence.enclosing phrase.next (by omega)
        return (command.map .command).weaken (by omega)
      | none => do
        match ← body? sw bound nested cur (by omega) with
        | some body => return (body.map Body.toFragment).weaken cur.le_succ
        | none =>
          match Lexeme.symbol? cur.rest with
          | some cut =>
            let span : Span := ⟨start, (cur.past cut).offset⟩
            return ⟨.command ⟨span, String.ofList cut.piece, .unfenced, none, none⟩, cur.past cut,
              Nat.lt_succ_of_lt (cur.past_lt cut)⟩
          | none => throw ⟨.invalidExpression sw.char, start⟩

/-- The command whose phrase ends at `cur`, with the options and the body that follow directly. An
empty phrase takes neither. -/
def call (sw : Switch) (bound : Nat) (nested : Bool) (start : Nat) (phrase : List Char)
    (phraseEnclosing : Enclosing) (cur : Cursor) (h : 4 * cur.rest.length + 3 < bound) :
    Except Flaw (Step (cur.rest.length + 1) Command) :=
  match bound, h with
  | bound + 1, h =>
    if phrase = [] then
      .ok ⟨⟨⟨start, cur.offset⟩, "", phraseEnclosing, none, none⟩, cur, cur.lt_succ⟩
    else do
      let options := Step.orStay cur (← group? sw bound nested cur (by omega))
      have hoptions := options.lt
      let body := Step.orStay options.next (← body? sw bound nested options.next (by omega))
      let span : Span := ⟨start, body.next.offset⟩
      return (body.map fun arg =>
        ⟨span, String.ofList phrase, phraseEnclosing, options.value, arg⟩).weaken hoptions

/-- The group that opens at `cur`, if one does. -/
def group? (sw : Switch) (bound : Nat) (nested : Bool) (cur : Cursor)
    (h : 4 * cur.rest.length + 1 < bound) : Except Flaw (Option (Step cur.rest.length Group)) :=
  match bound, h with
  | bound + 1, h =>
    match Lexeme.char? '[' cur.rest with
    | some cut => do
      let start := cur.past cut
      have hstart : start.rest.length < cur.rest.length := cur.past_lt cut
      let inner ← tokens sw bound nested cur.offset start (by omega)
      let group : Group := ⟨⟨start.offset, inner.value.2⟩, inner.value.1⟩
      return some ((inner.map fun _ => group).weaken hstart)
    | none => .ok none

/-- The token at `cur`, if there is one. -/
def token? (sw : Switch) (bound : Nat) (nested : Bool) (cur : Cursor)
    (h : 4 * cur.rest.length + 2 < bound) : Except Flaw (Option (Step cur.rest.length Token)) :=
  match bound, h with
  | bound + 1, h => do
    match ← atom? sw cur with
    | some (token, cut) => return some ⟨token, cur.past cut, cur.past_lt cut⟩
    | none =>
      match ← body? sw bound nested cur (by omega) with
      | some body => return some (body.map Body.toToken)
      | none =>
        match Lexeme.char? sw.char cur.rest with
        | some cut =>
          have hcut := cur.past_lt cut
          let node ← expression sw bound nested cur.offset (cur.past cut) (by omega)
          return some ((node.map Fragment.toToken).weaken hcut)
        | none =>
          match ← group? sw bound nested cur (by omega) with
          | some group => return some (group.map .group)
          | none => return none

/-- The tokens from `start` to the closing bracket, with the offset at which it stands; the opening
bracket is at the offset `opener`. -/
def tokens (sw : Switch) (bound : Nat) (nested : Bool) (opener : Nat) (start : Cursor)
    (h : 4 * start.rest.length + 3 < bound) :
    Except Flaw (Step (start.rest.length + 1) (List Token × Nat)) :=
  match bound, h with
  | bound + 1, h => do
    let cur := start.skip Charset.isBlank
    have hcur : cur.rest.length ≤ start.rest.length := start.skip_le Charset.isBlank
    match ← token? sw bound nested cur (by omega) with
    | some first =>
      have hfirst := first.lt
      let tail ← tokens sw bound nested opener first.next (by omega)
      return (tail.map fun inner => (first.value :: inner.1, inner.2)).weaken (by omega)
    | none =>
      match Lexeme.char? ']' cur.rest with
      | some cut =>
        have hcut := cur.past_lt cut
        return ⟨([], cur.offset), cur.past cut, by omega⟩
      | none => throw ⟨.unclosed "[" "]", opener⟩

end

/-- The block that the text at the head of a source makes, with the flaw that it has otherwise. -/
def document (sw : Switch) (source : String) : Except Flaw Block := do
  let cur := Cursor.start source
  let inner ← fragments sw (4 * cur.rest.length + 1) .document cur (Nat.lt_succ_self _)
  return ⟨⟨0, inner.value.2⟩, inner.value.1, .unfenced⟩

end Parser

/-- The tree of a source. Errors are located in it. -/
def parse (sw : Switch) (source : String) : Except Error Block :=
  (Parser.document sw source).mapError (·.toError source)

end Prosemark
