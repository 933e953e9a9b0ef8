import Prosemark.Proofs.Respacing
import Prosemark.Proofs.Shift

/-!
# Blanks between tokens

Blanks may stand in options wherever a token can start or a bracket can close them: after the
opening bracket, after each token and before the closing bracket. A source with other blanks at such
a place is parsed to the same tree but for the spans (`parse_respaced`).

What stands before the place stands there in the other source (`Respacing.token_kept` and its
companions). What stands after it is read from the same text at another offset, so it is the same
(`Token.StandAll.alike` and its companions). A node that has the place in it is taken apart into a
part before, a part that has the place in it, and a part after.
-/

namespace Prosemark

open Prosemark.Parser

/-! ## Where blanks may stand -/

/-- The offset right after the token, its right text included. -/
def Token.stop : Token → Nat
  | .identifier span _ => span.stop
  | .operator span _ => span.stop
  | .number span _ => span.stop
  | .group g => g.span.stop + 1
  | .block b => b.span.stop + b.enclosing.right.utf8ByteSize
  | .text t => t.span.stop + t.enclosing.right.utf8ByteSize
  | .command c => c.span.stop

mutual

/-- The offsets of the groups in the node at which blanks may be put: where what is in the brackets
starts and stops, and where each token stops. -/
def Fragment.seams : Fragment → List Nat
  | .text _ => []
  | .command c => c.seams
  | .block b => b.seams

def Fragment.seamsAll : List Fragment → List Nat
  | [] => []
  | f :: fs => f.seams ++ Fragment.seamsAll fs

def Block.seams : Block → List Nat
  | ⟨_, children, _⟩ => Fragment.seamsAll children

def Command.seams : Command → List Nat
  | ⟨_, _, _, options, body⟩ => Group.seamsOption options ++ Body.seamsOption body

/-- The seams of the options of a command, none without options. -/
def Group.seamsOption : Option Group → List Nat
  | none => []
  | some g => g.seams

/-- The seams of the body of a command, none without a body. -/
def Body.seamsOption : Option Body → List Nat
  | none => []
  | some body => body.seams

def Body.seams : Body → List Nat
  | .block b => b.seams
  | .text _ => []

def Group.seams : Group → List Nat
  | ⟨span, children⟩ => span.start :: span.stop :: Token.seamsAll children

/-- Where each of the tokens stops, and the seams in them. -/
def Token.seamsAll : List Token → List Nat
  | [] => []
  | t :: ts => t.stop :: (t.seams ++ Token.seamsAll ts)

def Token.seams : Token → List Nat
  | .identifier _ _ | .operator _ _ | .number _ _ | .text _ => []
  | .group g => g.seams
  | .block b => b.seams
  | .command c => c.seams

end

/-! ## The same text elsewhere -/

section Elsewhere

variable {α : Type} {d d' : Nat} {move move' : α → α} {limit₀ limit limit' : Nat} {v : α}
  {next : Cursor}

namespace Parser

/-- What is read from a text at one offset is read from it at another, both being moved from the
start. -/
theorem Shifts.exists_yields {r₀ : Except Flaw (Step limit₀ α)} {r : Except Flaw (Step limit α)}
    {r' : Except Flaw (Step limit' α)} (h : Shifts d (StepShifts d move) r₀ r)
    (h' : Shifts d' (StepShifts d' move') r₀ r') (hy : Yields r v next) :
    ∃ v₀ next₀ next', Yields r₀ v₀ next₀ ∧ v = move v₀ ∧ Yields r' (move' v₀) next' ∧
      next'.rest = next.rest := by
  obtain ⟨step, rfl, rfl, rfl⟩ := hy
  cases h with
  | ok hstep =>
    cases h' with
    | ok hstep' =>
      cases hstep with
      | mk hvalue hoffset =>
        cases hstep' with
        | mk hvalue' hoffset' =>
          exact ⟨_, _, _, ⟨_, rfl, rfl, rfl⟩, hvalue, ⟨_, rfl, hvalue', rfl⟩, rfl⟩

theorem Shifts.exists_finds {r₀ : Except Flaw (Option (Step limit₀ α))}
    {r : Except Flaw (Option (Step limit α))} {r' : Except Flaw (Option (Step limit' α))}
    (h : Shifts d (FindShifts d move) r₀ r) (h' : Shifts d' (FindShifts d' move') r₀ r')
    (hf : Finds r v next) :
    ∃ v₀ next₀ next', Finds r₀ v₀ next₀ ∧ v = move v₀ ∧ Finds r' (move' v₀) next' ∧
      next'.rest = next.rest := by
  obtain ⟨step, rfl, rfl, rfl⟩ := hf
  cases h with
  | ok hstep =>
    cases h' with
    | ok hstep' =>
      cases hstep with
      | some hstep =>
        cases hstep' with
        | some hstep' =>
          cases hstep with
          | mk hvalue hoffset =>
            cases hstep' with
            | mk hvalue' hoffset' =>
              exact ⟨_, _, _, ⟨_, rfl, rfl, rfl⟩, hvalue, ⟨_, rfl, hvalue', rfl⟩, rfl⟩

end Parser

end Elsewhere

section Alike

variable {sw : Switch} {source source' : String} {nested : Bool} {cur cur' next : Cursor}
  {stop : Nat}

theorem Cursor.start_ofList (cs : List Char) : (⟨0, cs⟩ : Cursor).In (String.ofList cs) := by
  have h := Cursor.start_in (String.ofList cs)
  rwa [Cursor.start, String.toList_ofList] at h

theorem Token.StandAll.alike {ts : List Token} (hin : cur.In source) (hin' : cur'.In source')
    (hrest : cur'.rest = cur.rest) (h : Token.StandAll sw source nested ts stop cur next) :
    ∃ ts' stop' next', Token.StandAll sw source' nested ts' stop' cur' next' ∧
      next'.rest = next.rest ∧ Token.sameAll ts' ts = true := by
  obtain ⟨d, cs⟩ := cur
  obtain ⟨d', cs'⟩ := cur'
  obtain rfl : cs = cs' := hrest.symm
  have hshifts (e : Nat) : Shifts e _
      (tokens sw (4 * cs.length + 4) nested 0 ⟨0, cs⟩ (Nat.lt_succ_self _))
      (tokens sw (4 * cs.length + 4) nested e ⟨e, cs⟩ (Nat.lt_succ_self _)) :=
    (shifting sw e _).tokens_shift (Nat.add_zero e).symm (Nat.add_zero e).symm
  obtain ⟨⟨ts₀, stop₀⟩, next₀, next', hy₀, hv, hy', hnext⟩ :=
    (hshifts d).exists_yields (hshifts d') ((complete sw source _).tokens_yields hin h _)
  obtain ⟨rfl, -⟩ := Prod.mk.inj hv
  obtain ⟨_, _, _, _, hspread, _⟩ := (sound sw _ _).tokens_stand (Cursor.start_ofList cs) hy₀
  exact ⟨_, _, next', (sound sw source' _).tokens_stand hin' hy', hnext,
    Token.Spread.same_carry _ _ id ts₀ hspread⟩

theorem Body.Stands.alike {body : Body} (hin : cur.In source) (hin' : cur'.In source')
    (hrest : cur'.rest = cur.rest) (h : body.Stands sw source nested cur next) :
    ∃ body' next', Body.Stands sw source' nested body' cur' next' ∧ next'.rest = next.rest ∧
      body'.same body = true := by
  obtain ⟨d, cs⟩ := cur
  obtain ⟨d', cs'⟩ := cur'
  obtain rfl : cs = cs' := hrest.symm
  have hshifts (e : Nat) : Shifts e _
      (body? sw (4 * cs.length + 2) nested ⟨0, cs⟩ (Nat.lt_succ_self _))
      (body? sw (4 * cs.length + 2) nested ⟨e, cs⟩ (Nat.lt_succ_self _)) :=
    (shifting sw e _).body_shifts (Nat.add_zero e).symm
  obtain ⟨body₀, next₀, next', hf₀, rfl, hf', hnext⟩ :=
    (hshifts d).exists_finds (hshifts d') ((complete sw source _).body_finds hin h _)
  obtain ⟨-, hfills, -⟩ := (sound sw _ _).body_stands (Cursor.start_ofList cs) hf₀
  exact ⟨_, next', (sound sw source' _).body_stands hin' hf', hnext,
    Body.Fills.same_carry _ _ id body₀ hfills⟩

/-- Where a scope was opened does not matter to what stands in it. -/
theorem Fragment.StandAll.alike {scope : Scope} {fs : List Fragment} (hin : cur.In source)
    (hin' : cur'.In source') (hrest : cur'.rest = cur.rest)
    (h : Fragment.StandAll sw source scope fs stop cur next) :
    ∃ fs' stop' next', Fragment.StandAll sw source' scope fs' stop' cur' next' ∧
      next'.rest = next.rest ∧ Fragment.sameAll fs' fs = true := by
  obtain ⟨d, cs⟩ := cur
  obtain ⟨d', cs'⟩ := cur'
  obtain rfl : cs = cs' := hrest.symm
  obtain ⟨opened, hopened⟩ : ∃ opened : Scope, ∀ (e : Nat) (s : String) (fs : List Fragment)
      (stop : Nat) (cur next : Cursor),
      Fragment.StandAll sw s (opened.shift e) fs stop cur next ↔
        Fragment.StandAll sw s scope fs stop cur next := by
    cases scope with
    | document => exact ⟨.document, fun _ _ _ _ _ _ => Iff.rfl⟩
    | braces fence opener => exact ⟨.braces fence 0, fun _ _ _ _ _ _ => Iff.rfl⟩
  have hshifts (e : Nat) : Shifts e _
      (fragments sw (4 * cs.length + 1) opened ⟨0, cs⟩ (Nat.lt_succ_self _))
      (fragments sw (4 * cs.length + 1) (opened.shift e) ⟨e, cs⟩ (Nat.lt_succ_self _)) :=
    (shifting sw e _).fragments_shift rfl (Nat.add_zero e).symm
  obtain ⟨⟨fs₀, stop₀⟩, next₀, next', hy₀, hv, hy', hnext⟩ :=
    (hshifts d).exists_yields (hshifts d')
      ((complete sw source _).fragments_yields hin ((hopened d ..).2 h) _)
  obtain ⟨rfl, -⟩ := Prod.mk.inj hv
  obtain ⟨_, _, _, _, _, htile, _⟩ :=
    (sound sw _ _).fragments_stand (Cursor.start_ofList cs) hy₀
  exact ⟨_, _, next', (hopened d' ..).1 ((sound sw source' _).fragments_stand hin' hy'), hnext,
    Fragment.Tile.same_carry _ _ id fs₀ htile⟩

end Alike

/-! ## Nodes that are the same -/

section Same

variable {sw : Switch} {source : String} {a b : Nat} {f f' : Fragment} {fs fs' : List Fragment}

theorem Fragment.Fills.same_self (h : f.Fills sw source a b) : f.same f = true := by
  simpa only [Fragment.carry_id] using Fragment.Fills.same_carry id id id f h

theorem Token.Fills.same_self {t : Token} (h : t.Fills sw source a b) : t.same t = true := by
  simpa only [Token.carry_id] using Token.Fills.same_carry id id id t h

theorem Block.LaidOut.same_self {tree : Block} (h : tree.LaidOut sw source) :
    tree.same tree = true := by
  simpa only [Block.carry_id] using Block.LaidOut.same_carry id id id h

theorem Group.FillsOption.same_self {o : Option Group} (h : Group.FillsOption sw source o a b) :
    Group.sameOption o o = true := by
  simpa only [Group.carryOption_id] using Group.FillsOption.same_carry id id id o h

theorem Fragment.isProse_of_same (h : f'.same f = true) : f'.isProse = f.isProse := by
  cases f' <;> cases f <;> simp_all [Fragment.same, Text.same, Fragment.isProse, Text.isProse]

theorem Group.isSome_of_sameOption {o o' : Option Group} (h : Group.sameOption o' o = true) :
    o'.isSome = o.isSome := by
  cases o' <;> cases o <;> simp_all [Group.sameOption]

theorem Body.isSome_of_sameOption {o o' : Option Body} (h : Body.sameOption o' o = true) :
    o'.isSome = o.isSome := by
  cases o' <;> cases o <;> simp_all [Body.sameOption]

/-- What is the same is cut up in the same way. -/
theorem Fragment.apart_of_same (hsame : f'.same f = true) (hsames : Fragment.sameAll fs' fs = true)
    (h : f.isProse = true → ∀ g ∈ fs.head?, g.isProse = false) :
    f'.isProse = true → ∀ g ∈ fs'.head?, g.isProse = false := by
  rw [Fragment.isProse_of_same hsame]
  intro hprose g hg
  cases fs' with
  | nil => cases hg
  | cons g' rest' =>
    obtain rfl := Option.some.inj hg
    cases fs with
    | nil => simp [Fragment.sameAll] at hsames
    | cons g rest =>
      rw [Fragment.sameAll, Bool.and_eq_true] at hsames
      rw [Fragment.isProse_of_same hsames.1]
      exact h hprose g rfl

end Same

/-! ## Blanks before tokens -/

section Blanks

variable {sw : Switch} {source : String} {nested : Bool} {cur after next : Cursor}
  {a b c stop : Nat} {t : Token} {ts : List Token}

theorem Cursor.In.blank_self (h : cur.In source) : Blank source cur.offset cur.offset :=
  h.blank (.refl cur) (by simp)

theorem Blank.le (h : Blank source a b) : a ≤ b := by
  obtain ⟨text, hcovers, -⟩ := h
  exact hcovers.le

theorem Blank.append (h : Blank source a b) (h' : Blank source b c) : Blank source a c := by
  obtain ⟨text, hcovers, hblank⟩ := h
  obtain ⟨text', hcovers', hblank'⟩ := h'
  refine ⟨text ++ text', hcovers.append hcovers', ?_⟩
  rw [String.toList_append, List.forall_mem_append]
  exact ⟨hblank, hblank'⟩

theorem Token.Spread.prepend (hblank : Blank source a b) (h : Token.Spread sw source ts b c) :
    Token.Spread sw source ts a c := by
  cases ts with
  | nil => exact hblank.append h
  | cons t ts =>
    obtain ⟨i, j, hi, hf, hspread⟩ := h
    exact ⟨i, j, hblank.append hi, hf, hspread⟩

namespace Token.StandAll

theorem prepend (hblank : Blank source cur.offset after.offset)
    (h : Token.StandAll sw source nested ts stop after next) :
    Token.StandAll sw source nested ts stop cur next := by
  obtain ⟨last, hlast, hin, hclose, hspread, hnormal⟩ := h
  exact ⟨last, hlast, hin, hclose, hspread.prepend hblank, hnormal⟩

theorem cons (hcur : cur.In source) (ht : t.Stands sw source nested cur after)
    (h : Token.StandAll sw source nested ts stop after next) :
    Token.StandAll sw source nested (t :: ts) stop cur next := by
  obtain ⟨last, hlast, hin, hclose, hspread, hnormal⟩ := h
  obtain ⟨-, hfills, htnormal⟩ := ht
  exact ⟨last, hlast, hin, hclose, ⟨_, _, hcur.blank_self, hfills, hspread⟩, htnormal, hnormal⟩

/-- Tokens stand after the blanks before them as well. -/
theorem skip (hcur : cur.In source) (h : Token.StandAll sw source nested ts stop cur next) :
    Token.StandAll sw source nested ts stop (cur.skip Charset.isBlank) next := by
  obtain ⟨last, rfl, hlast, hclose, hspread, hnormal⟩ := h
  refine ⟨last, rfl, hlast, hclose, ?_, hnormal⟩
  cases ts with
  | nil =>
    obtain ⟨text, hcovers, hblank⟩ := hspread
    have hhead : ∀ c ∈ last.rest.head?, Charset.isBlank c = false := by
      rw [hclose.rest_eq]
      rintro _ ⟨⟩
      decide
    obtain rfl := Cursor.skip_eq_of_passes (hcur.passes_to hlast hcovers) hblank hhead
    exact hlast.blank_self
  | cons t ts =>
    obtain ⟨i, j, ⟨text, hcovers, hblank⟩, hfills, hspread⟩ := hspread
    obtain ⟨mid, hp, hmid, rfl⟩ := hcur.passes_of_covers hcovers
    obtain ⟨_, hreaches⟩ := (t.sits hfills).reaches
    obtain ⟨after, hafter, rfl⟩ := hreaches.exists_stop
    have hfinds := (complete sw source _).token_finds hmid ⟨hafter, hfills, hnormal.1⟩
      (Nat.lt_succ_self _)
    obtain rfl := Cursor.skip_eq_of_passes hp hblank (isBlank_head_of_token hfinds)
    exact ⟨_, _, hmid.blank_self, hfills, hspread⟩

end Token.StandAll

end Blanks

/-! ## What has a counterpart -/

section Closed

variable (sw : Switch) (source : String) (nested : Bool)

/-- The tokens of a group stand there, wherever its closing bracket is. -/
def Token.StandClosed (ts : List Token) (cur next : Cursor) : Prop :=
  ∃ stop, Token.StandAll sw source nested ts stop cur next

/-- The fragments of a scope stand there, wherever the scope ends. -/
def Fragment.StandClosed (scope : Scope) (fs : List Fragment) (cur next : Cursor) : Prop :=
  ∃ stop, Fragment.StandAll sw source scope fs stop cur next

def Fragment.Stands (closing : Option Fence) (f : Fragment) (cur next : Cursor) : Prop :=
  next.In source ∧ f.Fills sw source cur.offset next.offset ∧ f.Normal sw source closing

/-- The options of a command stand there, if it has any. -/
def Group.StandsOption (o : Option Group) (cur next : Cursor) : Prop :=
  next.In source ∧ Group.FillsOption sw source o cur.offset next.offset ∧
    Group.NormalOption sw source nested o

/-- The body of a command stands there, if it has one. -/
def Body.StandsOption (o : Option Body) (cur next : Cursor) : Prop :=
  next.In source ∧ Body.FillsOption sw source o cur.offset next.offset ∧
    Body.NormalOption sw source nested o

end Closed

section Closed

variable {sw : Switch} {source source' : String} {nested : Bool} {cur cur' after next : Cursor}
  {stop : Nat}

theorem Fragment.StandAll.cons {scope : Scope} {f : Fragment} {fs : List Fragment}
    (hf : Fragment.Stands sw source scope.closing f cur after)
    (hprose : f.isProse = true → ∀ g ∈ fs.head?, g.isProse = false)
    (h : Fragment.StandAll sw source scope fs stop after next) :
    Fragment.StandAll sw source scope (f :: fs) stop cur next := by
  obtain ⟨last, hlast, hin, hright, hend, htile, hnormal⟩ := h
  obtain ⟨-, hfills, hfnormal⟩ := hf
  exact ⟨last, hlast, hin, hright, hend, ⟨_, hfills, htile⟩, hfnormal, hprose, hnormal⟩

theorem Body.StandsOption.alike {o : Option Body} (hin : cur.In source) (hin' : cur'.In source')
    (hrest : cur'.rest = cur.rest) (h : Body.StandsOption sw source nested o cur next) :
    ∃ o' next', Body.StandsOption sw source' nested o' cur' next' ∧ next'.rest = next.rest ∧
      Body.sameOption o' o = true := by
  obtain ⟨hnext, hfills, hnormal⟩ := h
  cases o with
  | none =>
    obtain rfl := hin.eq_of_offset hnext hfills
    exact ⟨none, cur', ⟨hin', rfl, trivial⟩, hrest, by rw [Body.sameOption]⟩
  | some body =>
    have hstands : body.Stands sw source nested cur next := ⟨hnext, hfills, hnormal⟩
    obtain ⟨body', next', hstands', hnext', hsame⟩ := hstands.alike hin hin' hrest
    exact ⟨some body', next', hstands', hnext', by rwa [Body.sameOption]⟩

/-- A token stops where its extent does. -/
theorem Token.stop_eq {t : Token} {a b : Nat} (h : t.Fills sw source a b) : t.stop = b := by
  cases t with
  | identifier span name => simp only [Token.stop, h.1]
  | operator span symbols => simp only [Token.stop, h.1]
  | number span value => simp only [Token.stop, h.1]
  | group g =>
    obtain ⟨span, children⟩ := g
    exact h.2.2.stop_eq.symm
  | block block =>
    obtain ⟨span, children, e⟩ := block
    obtain ⟨i, -, ⟨-, hright⟩, -⟩ := h
    rw [hright.stop_eq, width_toList]
    rfl
  | text t =>
    obtain ⟨i, -, ⟨-, hright⟩, -⟩ := h
    rw [hright.stop_eq, width_toList]
    rfl
  | command c =>
    obtain ⟨span, phrase, e, options, body⟩ := c
    obtain ⟨hspan, -⟩ := h
    simp only [Token.stop, hspan]

/-- A seam after the start of some tokens is in the first of them, or is not before its stop. -/
theorem Token.mem_seams_or {t : Token} {ts : List Token} {place : Nat}
    (hstop : t.stop = after.offset) (h : place ∈ stop :: Token.seamsAll (t :: ts)) :
    place ∈ t.seams ∨ place ∈ after.offset :: stop :: Token.seamsAll ts := by
  rw [Token.seamsAll, hstop] at h
  simp only [List.mem_cons, List.mem_append] at h ⊢
  tauto

end Closed

namespace Respacing

section Counterparts

variable {sw : Switch} {source source' : String} (R : Respacing source source') {nested : Bool}
  {cur after next : Cursor} {i stop : Nat} {ts : List Token}

/-- The node has its counterpart in the second source: it starts at the same offset, the same text
follows on it, and it is the same but for the spans. -/
def Respaces {α : Type} (stands : α → Cursor → Cursor → Prop) (same : α → α → Bool) (x : α)
    (cur next : Cursor) : Prop :=
  ∃ cur' x' next', R.Keeps cur cur' ∧ stands x' cur' next' ∧ next'.rest = next.rest ∧
    same x' x = true

variable {R} in
theorem Respaces.map {α β : Type} {stands : α → Cursor → Cursor → Prop} {same : α → α → Bool}
    {stands' : β → Cursor → Cursor → Prop} {same' : β → β → Bool} {x : α} (f : α → β)
    (h : R.Respaces stands same x cur next)
    (hstands : ∀ x cur next, stands x cur next → stands' (f x) cur next)
    (hsame : ∀ x', same x' x = true → same' (f x') (f x) = true) :
    R.Respaces stands' same' (f x) cur next := by
  obtain ⟨cur', x', next', K, hs, hnext, hx⟩ := h
  exact ⟨cur', f x', next', K, hstands _ _ _ hs, hnext, hsame x' hx⟩

/-- Tokens at the place have their counterparts after the new blanks. -/
theorem tokens_respaced_here (hcur : cur.In source)
    (hs : Token.StandAll sw source nested ts stop cur next) (hplace : R.place = cur.offset) :
    R.Respaces (Token.StandClosed sw source' nested) Token.sameAll ts cur next := by
  obtain ⟨cur', K⟩ := exists_keeps hcur hplace.ge
  obtain ⟨u, hrest, hrest', hu⟩ := K.exists_rest
  obtain rfl : u = [] := width_eq_zero_iff.1 (by omega)
  have hskip : (cur'.skip Charset.isBlank).rest = (cur.skip Charset.isBlank).rest := by
    show cur'.rest.dropWhile Charset.isBlank = cur.rest.dropWhile Charset.isBlank
    rw [hrest, hrest', List.nil_append, List.nil_append,
      List.dropWhile_append_of_pos R.gap_blank, List.dropWhile_append_of_pos R.blanks_blank]
  have hpass := cur'.passes_skip Charset.isBlank
  have hblank := K.right.blank hpass (forall_mem_takeWhile _ _)
  obtain ⟨ts', stop', next', hs', hnext, hsame⟩ :=
    (hs.skip hcur).alike (hcur.passes (cur.passes_skip _)) (K.right.passes hpass) hskip
  exact ⟨cur', ts', next', K, ⟨stop', hs'.prepend hblank⟩, hnext, hsame⟩

variable {R}

theorem Respaces.prepend (hcur : cur.In source) (hblank : Blank source cur.offset after.offset)
    (h : R.Respaces (Token.StandClosed sw source' nested) Token.sameAll ts after next) :
    R.Respaces (Token.StandClosed sw source' nested) Token.sameAll ts cur next := by
  obtain ⟨after', ts', next', K, ⟨stop', hs⟩, hnext, hsame⟩ := h
  obtain ⟨cur', K'⟩ := exists_keeps hcur (hblank.le.trans K.le)
  refine ⟨cur', ts', next', K', ⟨stop', hs.prepend ?_⟩, hnext, hsame⟩
  rw [K'.offset_eq, K.offset_eq]
  exact R.blank hblank K.le

/-- A command whose options or body have the place in them has its counterpart. -/
theorem Keeps.command_respaced {c : Command} {place : Span} {mid cur' mid' next' start : Cursor}
    {options' : Option Group} {body' : Option Body} (K : R.Keeps cur cur')
    (hstart : start.In source) (hmid : mid.In source) (hspan : c.span.start = start.offset)
    (hswitch : Covers source start.offset i sw.text)
    (hphrase : Text.Fills source ⟨place, c.phrase, c.phraseEnclosing⟩ i cur.offset)
    (ho : Group.FillsOption sw source c.options cur.offset mid.offset)
    (hformed : c.Formed sw source) (hmid' : Group.StandsOption sw source' nested options' cur' mid')
    (hnext' : Body.StandsOption sw source' nested body' mid' next')
    (hoptions : Group.sameOption options' c.options = true)
    (hbody : Body.sameOption body' c.body = true)
    (hfence : (c.body.isSome = true ↔ Opens .brace mid.rest ∨ Opens .quote mid.rest) →
      (body'.isSome = true ↔ Opens .brace mid'.rest ∨ Opens .quote mid'.rest))
    (hnext : next'.rest = next.rest) :
    R.Respaces (Command.Stands sw source' nested) Command.same c start next := by
  have hi : i ≤ cur.offset := (Text.sits hphrase).reaches.le
  obtain ⟨start', K'⟩ := exists_keeps hstart ((hswitch.le.trans hi).trans K.le)
  have hcommand : Command.Formed sw source'
      ⟨⟨start'.offset, next'.offset⟩, c.phrase, c.phraseEnclosing, options', body'⟩ := by
    have hstartEq : start'.offset = c.span.start := K'.offset_eq.trans hspan.symm
    exact K.formed hstartEq rfl rfl (hspan ▸ hswitch) hphrase ho hmid'.2.1
      (Group.isSome_of_sameOption hoptions) (Body.isSome_of_sameOption hbody) hmid hmid'.1 hfence
      hformed
  refine ⟨start', ⟨⟨start'.offset, next'.offset⟩, c.phrase, c.phraseEnclosing, options', body'⟩,
    next', K', ⟨hnext'.1, ⟨rfl, i, place, cur'.offset, mid'.offset, ?_, ?_, hmid'.2.1, hnext'.2.1⟩,
      hcommand, hmid'.2.2, hnext'.2.2⟩, hnext, ?_⟩
  · rw [K'.offset_eq]
    exact R.covers hswitch (hi.trans K.le)
  · rw [K.offset_eq]
    exact R.text_fills hphrase K.le
  · simp only [Command.same, hoptions, hbody, beq_self_eq_true, Bool.and_self]

end Counterparts

/-! ## Trees with the place in them -/

section Trees

variable {sw : Switch} {source source' : String} (R : Respacing source source')

mutual

theorem fragment_respaced {closing : Option Fence} : ∀ (f : Fragment) {cur next : Cursor},
    cur.In source → Fragment.Stands sw source closing f cur next → R.place ∈ f.seams →
      R.Respaces (Fragment.Stands sw source' closing) Fragment.same f cur next
  | .text _, _, _, _, _, hplace => by cases hplace
  | .command c, _, _, hcur, hs, hplace =>
    (command_respaced c hcur hs hplace).map Fragment.command (fun _ _ _ hs => hs)
      fun _ hsame => by rwa [Fragment.same]
  | .block block, cur, next, hcur, ⟨hnext, ⟨i, hswitch, hfills⟩, hnormal⟩, hplace => by
    obtain ⟨mid, -, hmid, rfl⟩ := hcur.passes_of_covers hswitch
    obtain ⟨mid', block', next', K, ⟨hnextin, hfills', hnormal'⟩, hnext', hsame⟩ :=
      block_respaced block hmid ⟨hnext, hfills, hnormal⟩ hplace
    obtain ⟨cur', K'⟩ := exists_keeps hcur (hswitch.le.trans K.le)
    refine ⟨cur', .block block', next', K', ⟨hnextin, ⟨_, ?_, hfills'⟩, hnormal'⟩, hnext',
      by rwa [Fragment.same]⟩
    rw [K.offset_eq, K'.offset_eq]
    exact R.covers hswitch K.le

theorem fragments_respaced {scope : Scope} : ∀ (fs : List Fragment) {stop : Nat}
    {cur next : Cursor}, cur.In source → Fragment.StandAll sw source scope fs stop cur next →
      R.place ∈ Fragment.seamsAll fs →
        R.Respaces (fun fs => Fragment.StandClosed sw source' scope fs) Fragment.sameAll fs cur next
  | [], _, _, _, _, _, hplace => by cases hplace
  | f :: fs, stop, cur, next, hcur,
      ⟨last, hlast, hlastin, hright, hend, ⟨i, hf, htile⟩, hn, hprose, hns⟩, hplace => by
    obtain ⟨_, hreaches⟩ := (f.sits hf).reaches
    obtain ⟨after, hafter, rfl⟩ := hreaches.exists_stop
    have hs : Fragment.StandAll sw source scope fs stop after next :=
      ⟨last, hlast, hlastin, hright, hend, htile, hns⟩
    rcases List.mem_append.1 hplace with hplace | hplace
    · obtain ⟨cur', f', after', K, hf', hrest, hsame⟩ :=
        fragment_respaced f hcur ⟨hafter, hf, hn⟩ hplace
      obtain ⟨fs', stop', next', hs', hnext, hsames⟩ := hs.alike hafter hf'.1 hrest
      exact ⟨cur', f' :: fs', next', K, ⟨stop', .cons hf'
        (Fragment.apart_of_same hsame hsames hprose) hs'⟩, hnext,
        by rw [Fragment.sameAll, hsame, hsames, Bool.and_self]⟩
    · obtain ⟨after', fs', next', K, ⟨stop', hs'⟩, hnext, hsames⟩ :=
        fragments_respaced fs hafter hs hplace
      obtain ⟨cur', K'⟩ := exists_keeps hcur (hreaches.le.trans K.le)
      obtain ⟨hf', hn'⟩ := R.fragment_kept f hf hn K.le
      have hstands : Fragment.Stands sw source' scope.closing f cur' after' :=
        ⟨K.right, by rwa [K'.offset_eq, K.offset_eq], hn'⟩
      have hsame := hf.same_self
      exact ⟨cur', f :: fs', next', K', ⟨stop', .cons hstands
        (Fragment.apart_of_same hsame hsames hprose) hs'⟩, hnext,
        by rw [Fragment.sameAll, hsame, hsames, Bool.and_self]⟩

theorem block_respaced {nested : Bool} : ∀ (block : Block) {cur next : Cursor}, cur.In source →
    Body.Stands sw source nested (.block block) cur next → R.place ∈ block.seams →
      R.Respaces (fun block => Body.Stands sw source' nested (.block block)) Block.same block cur
        next
  | ⟨span, children, e⟩, cur, next, hcur, hs, hplace => by
    obtain ⟨fence, start, fs, stop, hd, hopen, hstand, hbalanced, hblock⟩ :=
      (Block.stands_iff hcur 0).1 hs
    obtain ⟨rfl, rfl, rfl⟩ := Block.mk.inj hblock
    obtain ⟨start', children', next', K, ⟨stop', hstand'⟩, hrest, hsame⟩ :=
      fragments_respaced children (hcur.passes hopen) hstand hplace
    obtain ⟨cur', K', hopen'⟩ := K.exists_passes hcur hopen
    refine ⟨cur', ⟨⟨start'.offset, stop'⟩, children', fence.enclosing⟩, next', K', ?_, hrest, ?_⟩
    · rw [← hrest] at hbalanced
      exact (Block.stands_iff K'.right 0).2
        ⟨fence, start', children', stop', hd, hopen', hstand', hbalanced, rfl⟩
    · rw [Block.same, hsame, beq_self_eq_true, Bool.and_self]

theorem command_respaced {nested : Bool} : ∀ (c : Command) {cur next : Cursor}, cur.In source →
    c.Stands sw source nested cur next → R.place ∈ c.seams →
      R.Respaces (Command.Stands sw source' nested) Command.same c cur next
  | ⟨span, phrase, e, options, body⟩, start, next, hstart,
      ⟨hnext, ⟨hspan, i, place, j, k, hswitch, hphrase, ho, hbody⟩, ⟨hformed, hno, hnb⟩⟩,
      hplace => by
    subst hspan
    obtain ⟨cur, hcur, rfl⟩ := hphrase.1.2.exists_stop
    obtain ⟨mid, hmid, rfl⟩ := hcur.exists_stop_of_fillsOption ho
    have hbodystands : Body.StandsOption sw source nested body mid next := ⟨hnext, hbody, hnb⟩
    rcases List.mem_append.1 hplace with hplace | hplace
    · obtain ⟨cur', options', mid', K, hmid', hrest, hoptions⟩ :=
        groupOption_respaced options hcur ⟨hmid, ho, hno⟩ hplace
      obtain ⟨body', next', hnext', hnextrest, hsame⟩ := hbodystands.alike hmid hmid'.1 hrest
      refine K.command_respaced hstart hmid rfl hswitch hphrase ho hformed hmid' hnext' hoptions
        hsame ?_ hnextrest
      rw [hrest, Body.isSome_of_sameOption hsame]
      exact id
    · obtain ⟨mid', body', next', K', hnext', hnextrest, hsame⟩ :=
        bodyOption_respaced body hmid hbodystands hplace
      obtain ⟨_, hreaches⟩ := (Group.sits_option options hphrase.1.2.reaches.stop_self ho).1
      obtain ⟨cur', K⟩ := exists_keeps hcur (hreaches.le.trans K'.le)
      obtain ⟨ho', hno'⟩ := R.groupOption_kept options ho hno K'.le
      have hmid' : Group.StandsOption sw source' nested options cur' mid' :=
        ⟨K'.right, by rwa [K.offset_eq, K'.offset_eq], hno'⟩
      refine K.command_respaced hstart hmid rfl hswitch hphrase ho hformed hmid' hnext'
        ho.same_self hsame ?_ hnextrest
      have hstands : ∀ b ∈ body', b.Stands sw source' nested mid' next' := by
        rintro b rfl
        exact hnext'
      exact fun hfence => K'.fence_iff (Body.isSome_of_sameOption hsame) hfence hstands

theorem groupOption_respaced {nested : Bool} : ∀ (o : Option Group) {cur next : Cursor},
    cur.In source → Group.StandsOption sw source nested o cur next → R.place ∈ Group.seamsOption o →
      R.Respaces (Group.StandsOption sw source' nested) Group.sameOption o cur next
  | none, _, _, _, _, hplace => by cases hplace
  | some g, _, _, hcur, hs, hplace =>
    (group_respaced g hcur hs hplace).map some (fun _ _ _ hs => hs)
      fun _ hsame => by rwa [Group.sameOption]

theorem bodyOption_respaced {nested : Bool} : ∀ (o : Option Body) {cur next : Cursor},
    cur.In source → Body.StandsOption sw source nested o cur next → R.place ∈ Body.seamsOption o →
      R.Respaces (Body.StandsOption sw source' nested) Body.sameOption o cur next
  | none, _, _, _, _, hplace => by cases hplace
  | some body, _, _, hcur, hs, hplace =>
    (body_respaced body hcur hs hplace).map some (fun _ _ _ hs => hs)
      fun _ hsame => by rwa [Body.sameOption]

theorem body_respaced {nested : Bool} : ∀ (body : Body) {cur next : Cursor}, cur.In source →
    body.Stands sw source nested cur next → R.place ∈ body.seams →
      R.Respaces (Body.Stands sw source' nested) Body.same body cur next
  | .text _, _, _, _, _, hplace => by cases hplace
  | .block block, _, _, hcur, hs, hplace =>
    (block_respaced block hcur hs hplace).map Body.block (fun _ _ _ hs => hs)
      fun _ hsame => by rwa [Body.same]

theorem group_respaced {nested : Bool} : ∀ (g : Group) {cur next : Cursor}, cur.In source →
    g.Stands sw source nested cur next → R.place ∈ g.seams →
      R.Respaces (Group.Stands sw source' nested) Group.same g cur next
  | ⟨span, children⟩, cur, next, hcur, hs, hplace => by
    obtain ⟨start, ts, stop, hopen, hstand, hgroup⟩ := (Group.stands_iff hcur).1 hs
    obtain ⟨rfl, rfl⟩ := Group.mk.inj hgroup
    obtain ⟨start', children', next', K, ⟨stop', hstand'⟩, hrest, hsame⟩ :=
      tokens_respaced children (hcur.passes hopen) hstand hplace
    obtain ⟨cur', K', hopen'⟩ := K.exists_passes hcur hopen
    refine ⟨cur', ⟨⟨start'.offset, stop'⟩, children'⟩, next', K', ?_, hrest, by rwa [Group.same]⟩
    exact (Group.stands_iff K'.right).2 ⟨start', children', stop', hopen', hstand', rfl⟩

theorem tokens_respaced {nested : Bool} : ∀ (ts : List Token) {stop : Nat} {cur next : Cursor},
    cur.In source → Token.StandAll sw source nested ts stop cur next →
      R.place ∈ cur.offset :: stop :: Token.seamsAll ts →
        R.Respaces (Token.StandClosed sw source' nested) Token.sameAll ts cur next
  | [], stop, cur, next, hcur, hs, hplace => by
    rcases List.mem_cons.1 hplace with hplace | hplace
    · exact R.tokens_respaced_here hcur hs hplace
    · obtain ⟨last, rfl, hlast, hclose, hblank, -⟩ := hs
      have hnone : Token.StandAll sw source nested [] last.offset last next :=
        ⟨last, rfl, hlast, hclose, hlast.blank_self, trivial⟩
      exact .prepend hcur hblank (R.tokens_respaced_here hlast hnone (List.mem_singleton.1 hplace))
  | t :: ts, stop, cur, next, hcur, hs, hplace => by
    rcases List.mem_cons.1 hplace with hplace | hplace
    · exact R.tokens_respaced_here hcur hs hplace
    obtain ⟨last, hlast, hlastin, hclose, ⟨i, j, hblank, hf, hspread⟩, hn, hns⟩ := hs
    obtain ⟨_, hreaches⟩ := (t.sits hf).reaches
    obtain ⟨mid, hmid, rfl⟩ := hreaches.exists_start
    obtain ⟨after, hafter, rfl⟩ := hreaches.exists_stop
    have hs : Token.StandAll sw source nested ts stop after next :=
      ⟨last, hlast, hlastin, hclose, hspread, hns⟩
    refine .prepend hcur hblank ?_
    rcases Token.mem_seams_or (Token.stop_eq hf) hplace with hplace | hplace
    · obtain ⟨mid', t', after', K, ht', hrest, hsame⟩ :=
        token_respaced t hmid ⟨hafter, hf, hn⟩ hplace
      obtain ⟨ts', stop', next', hs', hnext, hsames⟩ := hs.alike hafter ht'.1 hrest
      exact ⟨mid', t' :: ts', next', K, ⟨stop', .cons K.right ht' hs'⟩, hnext,
        by rw [Token.sameAll, hsame, hsames, Bool.and_self]⟩
    · obtain ⟨after', ts', next', K, ⟨stop', hs'⟩, hnext, hsames⟩ :=
        tokens_respaced ts hafter hs hplace
      obtain ⟨mid', K'⟩ := exists_keeps hmid (hreaches.le.trans K.le)
      obtain ⟨hf', hn'⟩ := R.token_kept t hf hn K.le
      have ht' : t.Stands sw source' nested mid' after' :=
        ⟨K.right, by rwa [K'.offset_eq, K.offset_eq], hn'⟩
      exact ⟨mid', t :: ts', next', K', ⟨stop', .cons K'.right ht' hs'⟩, hnext,
        by rw [Token.sameAll, hf.same_self, hsames, Bool.and_self]⟩

theorem token_respaced {nested : Bool} : ∀ (t : Token) {cur next : Cursor}, cur.In source →
    t.Stands sw source nested cur next → R.place ∈ t.seams →
      R.Respaces (Token.Stands sw source' nested) Token.same t cur next
  | .identifier _ _, _, _, _, _, hplace => by cases hplace
  | .operator _ _, _, _, _, _, hplace => by cases hplace
  | .number _ _, _, _, _, _, hplace => by cases hplace
  | .text _, _, _, _, _, hplace => by cases hplace
  | .group g, _, _, hcur, hs, hplace =>
    (group_respaced g hcur hs hplace).map Token.group (fun _ _ _ hs => hs)
      fun _ hsame => by rwa [Token.same]
  | .command c, _, _, hcur, hs, hplace =>
    (command_respaced c hcur hs hplace).map Token.command (fun _ _ _ hs => hs)
      fun _ hsame => by rwa [Token.same]
  | .block block, cur, next, hcur, ⟨hnext, ⟨i, hi, hfills⟩, hnormal⟩, hplace => by
    obtain ⟨_, hreaches⟩ := (block.sits hfills).reaches
    obtain ⟨mid, hmid, rfl⟩ := hreaches.exists_start
    obtain ⟨mid', block', next', K, ⟨hnextin, hfills', hnormal'⟩, hnext', hsame⟩ :=
      block_respaced block hmid ⟨hnext, hfills, hnormal⟩ hplace
    have hle : cur.offset ≤ mid.offset := hi.elim Eq.ge Covers.le
    obtain ⟨cur', K'⟩ := exists_keeps hcur (hle.trans K.le)
    refine ⟨cur', .block block', next', K', ⟨hnextin, ⟨_, ?_, hfills'⟩, hnormal'⟩, hnext',
      by rwa [Token.same]⟩
    rw [K.offset_eq, K'.offset_eq]
    exact hi.imp_right fun h => R.covers h K.le

end

end Trees

end Respacing

/-! ## Documents -/

/-- Blanks between the tokens of options do not matter. Where a group starts or stops and where a
token in it stops, any blanks may be put, and where blanks follow, others may stand in their place:
the source is parsed to the same tree but for the spans. -/
theorem parse_respaced {sw : Switch} {before gap blanks after : String} {tree : Block}
    (h : parse sw (before ++ gap ++ after) = .ok tree)
    (hseam : before.utf8ByteSize ∈ tree.seams)
    (hgap : ∀ c ∈ gap.toList, Charset.isBlank c = true)
    (hblanks : ∀ c ∈ blanks.toList, Charset.isBlank c = true) (hnil : blanks = "" → gap = "") :
    ∃ tree', parse sw (before ++ blanks ++ after) = .ok tree' ∧ tree'.same tree = true := by
  by_cases hblank : blanks = ""
  · obtain rfl := hnil hblank
    subst hblank
    exact ⟨tree, h, (parse_laidOut h).1.same_self⟩
  · let R : Respacing (before ++ gap ++ after) (before ++ blanks ++ after) :=
      { before := before.toList
        gap := gap.toList
        blanks := blanks.toList
        after := after.toList
        source_eq := by rw [String.toList_append, String.toList_append, List.append_assoc]
        source_eq' := by rw [String.toList_append, String.toList_append, List.append_assoc]
        gap_blank := hgap
        blanks_blank := hblanks
        blanks_ne_nil := by rwa [Ne, String.toList_eq_nil_iff] }
    obtain ⟨fs, stop, next, _, hy, rfl⟩ := parse_eq_ok_iff.1 h
    have hplace : R.place = before.utf8ByteSize := width_toList before
    have hstand := (sound sw _ _).fragments_stand (Cursor.start_in _) hy
    obtain ⟨cur', fs', next', K, ⟨stop', hstand'⟩, -, hsame⟩ :=
      R.fragments_respaced fs (Cursor.start_in _) hstand (hplace ▸ hseam)
    obtain rfl := (Cursor.start_in _).eq_of_offset K.right K.offset_eq.symm
    refine ⟨⟨⟨0, stop'⟩, fs', .unfenced⟩, parse_eq_ok_iff.2 ⟨fs', stop', next', Nat.lt_succ_self _,
      (complete sw _ _).fragments_yields (Cursor.start_in _) hstand' _, rfl⟩, ?_⟩
    rw [Block.same, hsame, beq_self_eq_true, Bool.and_self]

/-- Blanks between a command and a group, in options in braces in options. -/
theorem parse_respaced_nested :
    ∃ tree, parse .standard ("@a[1b,@#\x7bc @d[=-@e[2]" ++ "" ++ "[\"#\"]] \x7d#]") = .ok tree ∧
      ∃ tree', parse .standard ("@a[1b,@#\x7bc @d[=-@e[2]" ++ "\n " ++ "[\"#\"]] \x7d#]") =
        .ok tree' ∧ tree'.same tree = true := by
  obtain ⟨tree, htree, hseam⟩ :=
    exists_tree_of (p := fun tree => "@a[1b,@#\x7bc @d[=-@e[2]".utf8ByteSize ∈ tree.seams)
      (r := parse .standard ("@a[1b,@#\x7bc @d[=-@e[2]" ++ "" ++ "[\"#\"]] \x7d#]"))
      (by decide +kernel)
  have hblanks : "\n ".toList.all Charset.isBlank = true := by
    decide +kernel
  exact ⟨tree, htree, parse_respaced htree hseam (by simp) (List.all_eq_true.1 hblanks) (by simp)⟩

end Prosemark
