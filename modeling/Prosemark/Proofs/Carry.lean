import Prosemark.Proofs.Layout
import Prosemark.Proofs.Reading

/-!
# Trees carried over

A tree is carried over when every offset in its spans and every character of its texts and phrases
is replaced by a function of it. Names, operators, numbers and enclosings stay. Carried over by
identities a tree is itself (`Fragment.carry_id`), and two ways of carrying over a tree that is laid
out, which agree on characters, give trees that are the same but for their spans
(`Block.LaidOut.same_carry`).
-/

namespace Prosemark

/-- The span with both ends replaced. -/
def Span.carry (place : Nat → Nat) (s : Span) : Span :=
  ⟨place s.start, place s.stop⟩

/-- The text with its ends and its characters replaced. -/
def Text.carry (place : Nat → Nat) (char : Char → Char) (t : Text) : Text :=
  ⟨t.span.carry place, t.inner.map char, t.enclosing⟩

mutual

/-- The fragment with the offsets and the characters in it replaced. -/
def Fragment.carry (place : Nat → Nat) (char : Char → Char) : Fragment → Fragment
  | .text t => .text (t.carry place char)
  | .command c => .command (c.carry place char)
  | .block b => .block (b.carry place char)

/-- The block with the offsets and the characters in it replaced. -/
def Block.carry (place : Nat → Nat) (char : Char → Char) : Block → Block
  | ⟨span, children, enclosing⟩ =>
    ⟨span.carry place, Fragment.carryAll place char children, enclosing⟩

/-- The fragments with the offsets and the characters in them replaced. -/
def Fragment.carryAll (place : Nat → Nat) (char : Char → Char) : List Fragment → List Fragment
  | [] => []
  | f :: fs => f.carry place char :: Fragment.carryAll place char fs

/-- The command with the offsets and the characters in it replaced. -/
def Command.carry (place : Nat → Nat) (char : Char → Char) : Command → Command
  | ⟨span, phrase, phraseEnclosing, options, body⟩ =>
    ⟨span.carry place, phrase.map char, phraseEnclosing, Group.carryOption place char options,
      Body.carryOption place char body⟩

/-- The options of a command, if any, with the offsets and the characters in them replaced. -/
def Group.carryOption (place : Nat → Nat) (char : Char → Char) : Option Group → Option Group
  | none => none
  | some g => some (g.carry place char)

/-- The body of a command, if any, with the offsets and the characters in it replaced. -/
def Body.carryOption (place : Nat → Nat) (char : Char → Char) : Option Body → Option Body
  | none => none
  | some body => some (body.carry place char)

/-- The body with the offsets and the characters in it replaced. -/
def Body.carry (place : Nat → Nat) (char : Char → Char) : Body → Body
  | .block b => .block (b.carry place char)
  | .text t => .text (t.carry place char)

/-- The group with the offsets and the characters in it replaced. -/
def Group.carry (place : Nat → Nat) (char : Char → Char) : Group → Group
  | ⟨span, children⟩ => ⟨span.carry place, Token.carryAll place char children⟩

/-- The tokens with the offsets and the characters in them replaced. -/
def Token.carryAll (place : Nat → Nat) (char : Char → Char) : List Token → List Token
  | [] => []
  | t :: ts => t.carry place char :: Token.carryAll place char ts

/-- The token with the offsets and the characters in it replaced. -/
def Token.carry (place : Nat → Nat) (char : Char → Char) : Token → Token
  | .identifier span name => .identifier (span.carry place) name
  | .operator span symbols => .operator (span.carry place) symbols
  | .number span value => .number (span.carry place) value
  | .group g => .group (g.carry place char)
  | .block b => .block (b.carry place char)
  | .text t => .text (t.carry place char)
  | .command c => .command (c.carry place char)

end

/-! ## Parts of nodes -/

section Parts

variable (place : Nat → Nat) (char : Char → Char)

theorem Fragment.carryAll_append (fs gs : List Fragment) :
    Fragment.carryAll place char (fs ++ gs) =
      Fragment.carryAll place char fs ++ Fragment.carryAll place char gs := by
  induction fs with
  | nil => rfl
  | cons f fs ih => exact congrArg (f.carry place char :: ·) ih

theorem Body.carry_toFragment (body : Body) :
    body.toFragment.carry place char = (body.carry place char).toFragment := by
  cases body <;> rfl

theorem Body.carry_toToken (body : Body) :
    body.toToken.carry place char = (body.carry place char).toToken := by
  cases body <;> rfl

theorem Fragment.carry_toToken (f : Fragment) :
    f.toToken.carry place char = (f.carry place char).toToken := by
  cases f <;> rfl

theorem Group.isSome_carryOption (o : Option Group) :
    (Group.carryOption place char o).isSome = o.isSome := by
  cases o <;> rfl

theorem Body.isSome_carryOption (o : Option Body) :
    (Body.carryOption place char o).isSome = o.isSome := by
  cases o <;> rfl

theorem Command.isBare_carry (c : Command) : (c.carry place char).isBare = c.isBare := by
  obtain ⟨span, phrase, e, options, body⟩ := c
  cases options <;> cases body <;> rfl

end Parts

/-! ## Carrying over by identities -/

theorem map_id_text (s : String) : s.map id = s := by
  rw [← String.toList_inj, String.toList_map, List.map_id]

theorem Text.carry_id (t : Text) : t.carry id id = t := by
  rw [Text.carry, map_id_text]
  rfl

mutual

theorem Fragment.carry_id : ∀ f : Fragment, f.carry id id = f
  | .text t => congrArg Fragment.text t.carry_id
  | .command c => congrArg Fragment.command c.carry_id
  | .block b => congrArg Fragment.block b.carry_id

theorem Block.carry_id : ∀ b : Block, b.carry id id = b
  | ⟨span, children, enclosing⟩ => by rw [Block.carry, Fragment.carryAll_id children]; rfl

theorem Fragment.carryAll_id : ∀ fs : List Fragment, Fragment.carryAll id id fs = fs
  | [] => rfl
  | f :: fs => by rw [Fragment.carryAll, f.carry_id, Fragment.carryAll_id fs]

theorem Command.carry_id : ∀ c : Command, c.carry id id = c
  | ⟨span, phrase, e, options, body⟩ => by
    rw [Command.carry, map_id_text, Group.carryOption_id options, Body.carryOption_id body]
    rfl

theorem Group.carryOption_id : ∀ o : Option Group, Group.carryOption id id o = o
  | none => rfl
  | some g => congrArg some g.carry_id

theorem Body.carryOption_id : ∀ o : Option Body, Body.carryOption id id o = o
  | none => rfl
  | some body => congrArg some body.carry_id

theorem Body.carry_id : ∀ body : Body, body.carry id id = body
  | .block b => congrArg Body.block b.carry_id
  | .text t => congrArg Body.text t.carry_id

theorem Group.carry_id : ∀ g : Group, g.carry id id = g
  | ⟨span, children⟩ => by rw [Group.carry, Token.carryAll_id children]; rfl

theorem Token.carryAll_id : ∀ ts : List Token, Token.carryAll id id ts = ts
  | [] => rfl
  | t :: ts => by rw [Token.carryAll, t.carry_id, Token.carryAll_id ts]

theorem Token.carry_id : ∀ t : Token, t.carry id id = t
  | .identifier _ _ => rfl
  | .operator _ _ => rfl
  | .number _ _ => rfl
  | .group g => congrArg Token.group g.carry_id
  | .block b => congrArg Token.block b.carry_id
  | .text t => congrArg Token.text t.carry_id
  | .command c => congrArg Token.command c.carry_id

end

/-! ## Carrying over to different places -/

section Same

variable {sw : Switch} {source : String} (place place' : Nat → Nat) (char : Char → Char)

theorem Text.same_carry (t : Text) : (t.carry place char).same (t.carry place' char) = true := by
  simp [Text.same, Text.carry]

/-- The numbers that numerals represent are equal to themselves. -/
theorem Number.Fills.same_self {value : Number} {a b : Nat} (h : value.Fills source a b) :
    value.same value = true := by
  obtain ⟨numeral, -, -, hvalue⟩ := h
  exact Number.same_self_of_ofNumeral hvalue

mutual

theorem Fragment.Fills.same_carry : ∀ (f : Fragment) {a b : Nat}, f.Fills sw source a b →
    (f.carry place char).same (f.carry place' char) = true
  | .text t, _, _, _ => by
    simp only [Fragment.carry, Fragment.same]
    exact t.same_carry place place' char
  | .command c, _, _, h => by
    simp only [Fragment.carry, Fragment.same]
    exact Command.Fills.same_carry c h
  | .block b, _, _, h => by
    obtain ⟨i, -, h⟩ := h
    simp only [Fragment.carry, Fragment.same]
    exact Block.Fills.same_carry b h

theorem Fragment.Tile.same_carry : ∀ (fs : List Fragment) {a b : Nat},
    Fragment.Tile sw source fs a b →
      Fragment.sameAll (Fragment.carryAll place char fs) (Fragment.carryAll place' char fs) = true
  | [], _, _, _ => by simp [Fragment.carryAll, Fragment.sameAll]
  | f :: fs, _, _, h => by
    obtain ⟨i, hf, hfs⟩ := h
    simp only [Fragment.carryAll, Fragment.sameAll, Bool.and_eq_true]
    exact ⟨Fragment.Fills.same_carry f hf, Fragment.Tile.same_carry fs hfs⟩

theorem Block.Fills.same_carry : ∀ (block : Block) {a b : Nat}, block.Fills sw source a b →
    (block.carry place char).same (block.carry place' char) = true
  | ⟨span, children, enclosing⟩, _, _, h => by
    simp only [Block.carry, Block.same, Bool.and_eq_true, beq_self_eq_true, and_true]
    exact Fragment.Tile.same_carry children h.2

theorem Command.Fills.same_carry : ∀ (c : Command) {a b : Nat}, c.Fills sw source a b →
    (c.carry place char).same (c.carry place' char) = true
  | ⟨span, phrase, e, options, body⟩, _, _, h => by
    obtain ⟨-, i, -, j, k, -, -, hoptions, hbody⟩ := h
    simp only [Command.carry, Command.same, beq_self_eq_true, Bool.true_and, Bool.and_eq_true]
    exact ⟨Group.FillsOption.same_carry options hoptions, Body.FillsOption.same_carry body hbody⟩

theorem Group.FillsOption.same_carry : ∀ (o : Option Group) {a b : Nat},
    Group.FillsOption sw source o a b →
      Group.sameOption (Group.carryOption place char o) (Group.carryOption place' char o) = true
  | none, _, _, _ => by simp [Group.carryOption, Group.sameOption]
  | some g, _, _, h => by
    simp only [Group.carryOption, Group.sameOption]
    exact Group.Fills.same_carry g h

theorem Body.FillsOption.same_carry : ∀ (o : Option Body) {a b : Nat},
    Body.FillsOption sw source o a b →
      Body.sameOption (Body.carryOption place char o) (Body.carryOption place' char o) = true
  | none, _, _, _ => by simp [Body.carryOption, Body.sameOption]
  | some body, _, _, h => by
    simp only [Body.carryOption, Body.sameOption]
    exact Body.Fills.same_carry body h

theorem Body.Fills.same_carry : ∀ (body : Body) {a b : Nat}, body.Fills sw source a b →
    (body.carry place char).same (body.carry place' char) = true
  | .block block, _, _, h => by
    simp only [Body.carry, Body.same]
    exact Block.Fills.same_carry block h
  | .text t, _, _, _ => by
    simp only [Body.carry, Body.same]
    exact t.same_carry place place' char

theorem Group.Fills.same_carry : ∀ (g : Group) {a b : Nat}, g.Fills sw source a b →
    (g.carry place char).same (g.carry place' char) = true
  | ⟨span, children⟩, _, _, h => by
    simp only [Group.carry, Group.same]
    exact Token.Spread.same_carry children h.2.1

theorem Token.Spread.same_carry : ∀ (ts : List Token) {a b : Nat},
    Token.Spread sw source ts a b →
      Token.sameAll (Token.carryAll place char ts) (Token.carryAll place' char ts) = true
  | [], _, _, _ => by simp [Token.carryAll, Token.sameAll]
  | t :: ts, _, _, h => by
    obtain ⟨i, j, -, ht, hts⟩ := h
    simp only [Token.carryAll, Token.sameAll, Bool.and_eq_true]
    exact ⟨Token.Fills.same_carry t ht, Token.Spread.same_carry ts hts⟩

theorem Token.Fills.same_carry : ∀ (t : Token) {a b : Nat}, t.Fills sw source a b →
    (t.carry place char).same (t.carry place' char) = true
  | .identifier _ _, _, _, _ => by simp [Token.carry, Token.same]
  | .operator _ _, _, _, _ => by simp [Token.carry, Token.same]
  | .number _ _, _, _, h => by
    simp only [Token.carry, Token.same]
    exact h.2.same_self
  | .group g, _, _, h => by
    simp only [Token.carry, Token.same]
    exact Group.Fills.same_carry g h
  | .block block, _, _, h => by
    obtain ⟨i, -, h⟩ := h
    simp only [Token.carry, Token.same]
    exact Block.Fills.same_carry block h
  | .text t, _, _, _ => by
    simp only [Token.carry, Token.same]
    exact t.same_carry place place' char
  | .command c, _, _, h => by
    simp only [Token.carry, Token.same]
    exact Command.Fills.same_carry c h

end

/-- Where a tree is carried to shows in its spans only. -/
theorem Block.LaidOut.same_carry {tree : Block} (h : tree.LaidOut sw source) :
    (tree.carry place char).same (tree.carry place' char) = true := by
  obtain ⟨span, children, enclosing⟩ := tree
  obtain ⟨-, -, htile⟩ := h
  simp only [Block.carry, Block.same, Bool.and_eq_true, beq_self_eq_true, and_true]
  exact Fragment.Tile.same_carry place place' char children htile

end Same

end Prosemark
