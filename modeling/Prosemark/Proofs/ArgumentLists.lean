import Prosemark.Proofs.Account

/-!
# Argument lists

The options of a command make arguments if they are items with commas between them, and possibly one
at the end (`OptionItem.Listed`). An item is a value, or a value with a name and an equals sign
before it; values come before pairs, and no name comes twice (`OptionItem.Orderly`). The values are
interpreted in order after the body of the command, which is the first positional argument.

Reading one item takes its tokens, interprets its value and adds it to the arguments
(`Arguments.collect_item`), so that items with commas behind them take the reader to the rest
(`Arguments.collect_separated`). There the list ends, or another item starts, or a rule is broken
(`OptionItem.exists_outcome`). The rules are checked in a fixed order: that of the constructors of
`OptionItem.Violates`.
-/

namespace Prosemark

open Run

/-! ## Tokens with a value -/

namespace Token

/-- Whether the token is a text, a block, a number or a command. -/
def isValue : Token → Bool
  | .text _ | .block _ | .number _ _ | .command _ => true
  | .identifier _ _ | .operator _ _ | .group _ => false

/-- The fault that a token is where a value has to be, if it is none. -/
def unexpected? : Token → Option RenderFault
  | .identifier _ name => some (.identifierNotExpected name)
  | .operator _ symbols => some (.operatorNotExpected symbols)
  | .group _ => some .groupNotExpected
  | .text _ | .block _ | .number _ _ | .command _ => none

theorem isNone_unexpected? (t : Token) : t.unexpected?.isNone = t.isValue := by
  cases t <;> rfl

theorem meaning_of_unexpected? {t : Token} {fault : RenderFault} (host : Host)
    (h : t.unexpected? = some fault) : t.meaning host = Run.fail fault t.span.start := by
  cases t <;> cases h <;> rfl

theorem isOperator_of_isValue {t : Token} (h : t.isValue = true) (symbols : String) :
    t.isOperator symbols = false := by
  cases t <;> first | rfl | cases h

theorem name?_of_isValue {t : Token} (h : t.isValue = true) : t.name? = none := by
  cases t <;> first | rfl | cases h

theorem name?_of_isOperator {t : Token} {symbols : String} (h : t.isOperator symbols = true) :
    t.name? = none := by
  cases t <;> first | rfl | cases h

end Token

/-- The token with the run that interprets it. -/
def Token.operand (host : Host) (t : Token) : Operand :=
  ⟨t, t.meaning host⟩

theorem Token.operands_cons (host : Host) (t : Token) (ts : List Token) :
    Token.operands host (t :: ts) = t.operand host :: Token.operands host ts :=
  rfl

/-! ## Items -/

/-- An item of an option list: a token by itself, or with a name and an equals sign before it. -/
inductive OptionItem where
  | plain (value : Token)
  | pair (span : Span) (name : String) (equals value : Token)

namespace OptionItem

def tokens : OptionItem → List Token
  | plain value => [value]
  | pair span name equals value => [.identifier span name, equals, value]

def value : OptionItem → Token
  | plain value => value
  | pair _ _ _ value => value

/-- The name of a pair. -/
def name? : OptionItem → Option String
  | plain _ => none
  | pair _ name _ _ => some name

def names (items : List OptionItem) : List String :=
  items.filterMap name?

/-- Whether there is a pair among the items. -/
def inKeywords (items : List OptionItem) : Bool :=
  items.any (·.name?.isSome)

/-- The item is a value, or a name, an equals sign and a value. -/
def IsWritten : OptionItem → Prop
  | plain value => value.isValue = true
  | pair _ _ equals value => equals.isOperator "=" = true ∧ value.isValue = true

/-- The items as a command may have them: values come before pairs, and names differ. -/
structure Orderly (items : List OptionItem) : Prop where
  written : ∀ item ∈ items, item.IsWritten
  plainFirst : items.Pairwise fun a b => b.name? = none → a.name? = none
  distinct : (names items).Nodup

/-- The tokens are those of the items, with a comma after each item. -/
inductive Separated : List OptionItem → List Token → Prop
  | nil : Separated [] []
  | cons {item : OptionItem} {items : List OptionItem} {comma : Token} {ts : List Token}
      (hcomma : comma.isOperator "," = true) (hitems : Separated items ts) :
      Separated (item :: items) (item.tokens ++ comma :: ts)

/-- The tokens are those of the items, with a comma after each item but possibly the last one. -/
def Listed (items : List OptionItem) (ts : List Token) : Prop :=
  Separated items ts ∨
    ∃ before item lead, items = before ++ [item] ∧ Separated before lead ∧ ts = lead ++ item.tokens

/-- The values of the items, interpreted in order, succeed with these values. -/
inductive Reads (host : Host) : List (OptionItem × Value) → State → State → Prop
  | nil (s : State) : Reads host [] s s
  | cons {item : OptionItem} {v : Value} {rest : List (OptionItem × Value)} {s mid after : State}
      (hitem : (item.value.meaning host).run.run s = (.ok v, mid))
      (hrest : Reads host rest mid after) :
      Reads host ((item, v) :: rest) s after

/-- The tokens are an orderly list of items, whose values are these. -/
structure Accepted (host : Host) (read : List (OptionItem × Value)) (ts : List Token)
    (s after : State) : Prop where
  listed : Listed (read.map Prod.fst) ts
  orderly : Orderly (read.map Prod.fst)
  reads : Reads host read s after

/-! ## Violations -/

/-- The item can come after the items before it when `more` comes next, whatever its value is. A
name with an equals sign after it does not stand by itself. -/
def Fits (before : List OptionItem) (more : List Token) : OptionItem → Prop
  | plain value => value.isOperator "=" = false ∧
      (∀ next ∈ more.head?, next.isOperator "=" = true → value.name? = none) ∧
      ∀ a ∈ before, a.name? = none
  | pair _ name equals value => equals.isOperator "=" = true ∧ value.isOperator "," = false ∧
      name ∉ names before

/-- What comes after some items breaks a rule, and this is the error. Where it breaks two rules, the
first one counts: a token after a pair comes too late even if it has no value. -/
inductive Violates (host : Host) (groupStart : Nat) (before : List OptionItem) (s : State) :
    List Token → Error → State → Prop
  | misplacedEquals {equals : Token} {more : List Token} (hequals : equals.isOperator "=" = true) :
      Violates host groupStart before s (equals :: more)
        (.render .misplacedEquals (.ofOffset equals.span.start)) s
  | valueExpected {span : Span} {name : String} {equals : Token} {more : List Token}
      (hequals : equals.isOperator "=" = true) (hmore : ∀ t ∈ more.head?, t.isOperator "," = true) :
      Violates host groupStart before s (.identifier span name :: equals :: more)
        (.render (.valueExpected name) (.ofOffset equals.span.start)) s
  | duplicatedKeyword {span : Span} {name : String} {equals value : Token} {more : List Token}
      (hequals : equals.isOperator "=" = true) (hvalue : value.isOperator "," = false)
      (hname : name ∈ names before) :
      Violates host groupStart before s (.identifier span name :: equals :: value :: more)
        (.render (.duplicatedKeyword name) (.ofOffset span.start)) s
  | positionalAfterKeyword {value : Token} {more : List Token}
      (hvalue : value.isOperator "=" = false)
      (hmore : ∀ next ∈ more.head?, next.isOperator "=" = true → value.name? = none)
      (hbefore : ∃ a ∈ before, a.name? ≠ none) :
      Violates host groupStart before s (value :: more)
        (.render .positionalAfterKeyword (.ofOffset groupStart)) s
  | unexpected {item : OptionItem} {more : List Token} {fault : RenderFault}
      (hitem : item.Fits before more) (hvalue : item.value.unexpected? = some fault) :
      Violates host groupStart before s (item.tokens ++ more)
        (.render fault (.ofOffset item.value.span.start)) s
  | failure {item : OptionItem} {more : List Token} {e : Error} {after : State}
      (hitem : item.Fits before more) (hwritten : item.value.isValue = true)
      (hvalue : (item.value.meaning host).run.run s = (.error e, after)) :
      Violates host groupStart before s (item.tokens ++ more) e after
  | commaExpected {item : OptionItem} {v : Value} {t : Token} {more : List Token} {after : State}
      (hitem : item.Fits before (t :: more))
      (hvalue : (item.value.meaning host).run.run s = (.ok v, after))
      (ht : t.isOperator "," = false) :
      Violates host groupStart before s (item.tokens ++ t :: more)
        (.render .commaExpected (.ofOffset t.span.start)) after

/-- The tokens start with an orderly list of items, and break a rule after it. -/
inductive Refused (host : Host) (groupStart : Nat) (ts : List Token) (s : State) (e : Error)
    (after : State) : Prop
  | intro {read : List (OptionItem × Value)} {lead rest : List Token} {last : State}
      (hsplit : ts = lead ++ rest) (hlead : Separated (read.map Prod.fst) lead)
      (horderly : Orderly (read.map Prod.fst)) (hreads : Reads host read s last)
      (hrest : Violates host groupStart (read.map Prod.fst) last rest e after) :
      Refused host groupStart ts s e after

end OptionItem

/-! ## Arguments -/

namespace Arguments

/-- The arguments that items with their values make, after some positional ones. -/
def ofItems (main : List Value) (read : List (OptionItem × Value)) : Arguments where
  positional := main ++ (read.filter (·.1.name?.isNone)).map Prod.snd
  keywords := read.filterMap fun entry => entry.1.name?.map (·, entry.2)

variable {main : List Value} {read : List (OptionItem × Value)}

theorem ofItems_concat_plain (value : Token) (v : Value) :
    ofItems main (read ++ [(.plain value, v)]) = (ofItems main read).addPositional v := by
  unfold ofItems addPositional
  simp [OptionItem.name?]

theorem ofItems_concat_pair (span : Span) (name : String) (equals value : Token) (v : Value) :
    ofItems main (read ++ [(.pair span name equals value, v)]) =
      (ofItems main read).addKeyword name v := by
  unfold ofItems addKeyword
  simp [OptionItem.name?]

theorem map_fst_keywords :
    (ofItems main read).keywords.map Prod.fst = OptionItem.names (read.map Prod.fst) := by
  unfold ofItems OptionItem.names
  rw [List.map_filterMap, List.filterMap_map]
  simp [Function.comp_def]

theorem hasKeyword_ofItems {name : String} :
    (ofItems main read).hasKeyword name = true ↔ name ∈ OptionItem.names (read.map Prod.fst) := by
  unfold hasKeyword
  rw [← @map_fst_keywords main read]
  simp

end Arguments

namespace OptionItem

variable {host : Host} {main : List Value} {before : List OptionItem}
  {read more : List (OptionItem × Value)} {item : OptionItem} {s mid after : State}

theorem inKeywords_eq_false : inKeywords before = false ↔ ∀ a ∈ before, a.name? = none := by
  unfold inKeywords
  simp

theorem inKeywords_concat (v : Value) :
    inKeywords ((read ++ [(item, v)]).map Prod.fst) =
      (inKeywords (read.map Prod.fst) || item.name?.isSome) := by
  unfold inKeywords
  simp

theorem Orderly.left {items : List OptionItem} (h : Orderly (before ++ items)) :
    Orderly before where
  written a ha := h.written a (List.mem_append_left _ ha)
  plainFirst := (List.pairwise_append.1 h.plainFirst).1
  distinct := by
    have hdistinct := h.distinct
    rw [names, List.filterMap_append] at hdistinct
    exact (List.nodup_append.1 hdistinct).1

theorem Orderly.concat {ts : List Token} (h : Orderly before) (hfits : item.Fits before ts)
    (hvalue : item.value.isValue = true) : Orderly (before ++ [item]) where
  written := by
    refine List.forall_mem_append.2 ⟨h.written, List.forall_mem_singleton.2 ?_⟩
    cases item with
    | plain value => exact hvalue
    | pair span name equals value => exact ⟨hfits.1, hvalue⟩
  plainFirst := by
    refine List.pairwise_append.2 ⟨h.plainFirst, List.pairwise_singleton _ _, ?_⟩
    refine fun a ha => List.forall_mem_singleton.2 fun hnone => ?_
    cases item with
    | plain value => exact hfits.2.2 a ha
    | pair span name equals value => cases hnone
  distinct := by
    rw [names, List.filterMap_append]
    cases item with
    | plain value => exact (List.append_nil _).symm ▸ h.distinct
    | pair span name equals value =>
      refine List.nodup_append.2 ⟨h.distinct, List.pairwise_singleton _ _, fun a ha => ?_⟩
      refine List.forall_mem_singleton.2 fun heq => hfits.2.2 ?_
      rwa [← heq]

theorem Separated.concat {items : List OptionItem} {lead : List Token} {comma : Token}
    (h : Separated items lead) (hcomma : comma.isOperator "," = true) :
    Separated (items ++ [item]) (lead ++ (item.tokens ++ [comma])) := by
  induction h with
  | nil => exact .cons hcomma .nil
  | cons hfirst _ ih =>
    rw [List.append_assoc]
    exact .cons hfirst ih

theorem Reads.append_iff {first second : List (OptionItem × Value)} :
    Reads host (first ++ second) s after ↔
      ∃ mid, Reads host first s mid ∧ Reads host second mid after := by
  induction first generalizing s with
  | nil =>
    refine ⟨fun h => ⟨s, .nil s, h⟩, ?_⟩
    rintro ⟨mid, hfirst, hsecond⟩
    cases hfirst
    exact hsecond
  | cons entry first ih =>
    constructor
    · intro h
      cases h with
      | cons hitem hrest =>
        obtain ⟨mid, hfirst, hsecond⟩ := ih.1 hrest
        exact ⟨mid, .cons hitem hfirst, hsecond⟩
    · rintro ⟨mid, hfirst, hsecond⟩
      cases hfirst with
      | cons hitem hrest => exact .cons hitem (ih.2 ⟨mid, hrest, hsecond⟩)

theorem fits_of_orderly {items : List OptionItem} (h : Orderly (before ++ item :: items))
    (ts : List Token) : item.Fits before ts := by
  have hwritten := h.written item (by simp)
  cases item with
  | plain value =>
    have hname : ∀ next ∈ ts.head?, next.isOperator "=" = true → value.name? = none :=
      fun _ _ _ => Token.name?_of_isValue hwritten
    refine ⟨Token.isOperator_of_isValue hwritten _, hname, fun a ha => ?_⟩
    exact (List.pairwise_append.1 h.plainFirst).2.2 a ha _ List.mem_cons_self rfl
  | pair span name equals value =>
    refine ⟨hwritten.1, Token.isOperator_of_isValue hwritten.2 _, fun hname => ?_⟩
    have hdistinct := h.distinct
    rw [names, List.filterMap_append] at hdistinct
    exact (List.nodup_append.1 hdistinct).2.2 name hname name (by simp [name?]) rfl

end OptionItem

/-! ## Reading -/

namespace Arguments

open OptionItem

variable {host : Host} {groupStart : Nat} {main : List Value} {before : List OptionItem}
  {read more : List (OptionItem × Value)} {item : OptionItem} {s mid after : State}

theorem keyword?_operand {span : Span} {name : String} {equals : Token}
    (h : equals.isOperator "=" = true) :
    ((Token.identifier span name).operand host).keyword? (equals.operand host) = some name :=
  Operand.keyword?_eq_some_iff.2 ⟨h, rfl⟩

/-- A token that is not the name of a pair is read by itself. -/
theorem collect_plain {value : Token} {rest : List Token} (inKeywords : Bool) (args : Arguments)
    (h : ∀ next ∈ rest.head?, next.isOperator "=" = true → value.name? = none) :
    collect groupStart inKeywords args (Token.operands host (value :: rest)) =
      (do
        let v ← (value.operand host).positional groupStart inKeywords
        separated groupStart inKeywords (args.addPositional v) (Token.operands host rest)) := by
  cases rest with
  | nil => rfl
  | cons next rest =>
    have hkeyword : (value.operand host).keyword? (next.operand host) = none := by
      refine Option.eq_none_iff_forall_ne_some.2 fun name hsome => ?_
      obtain ⟨hnext, hvalue⟩ := Operand.keyword?_eq_some_iff.1 hsome
      exact Option.some_ne_none name (hvalue.symm.trans (h next rfl hnext))
    rw [Token.operands_cons, Token.operands_cons, collect]
    simp only [hkeyword]

/-- Reading an item interprets its value, adds it to the arguments and goes on behind it. -/
theorem collect_item {rest : List Token} (h : item.Fits (read.map Prod.fst) rest) :
    collect groupStart (inKeywords (read.map Prod.fst)) (ofItems main read)
        (Token.operands host (item.tokens ++ rest)) =
      (do
        let v ← item.value.meaning host
        separated groupStart (inKeywords ((read ++ [(item, v)]).map Prod.fst))
          (ofItems main (read ++ [(item, v)])) (Token.operands host rest)) := by
  cases item with
  | plain value =>
    obtain ⟨hequals, hname, hbefore⟩ := h
    have hplain : (OptionItem.plain value).name?.isSome = false := rfl
    have hpositional : (value.operand host).positional groupStart false = value.meaning host := by
      have hvalue : ¬ (value.operand host).isOperator "=" = true := Bool.eq_false_iff.1 hequals
      rw [Operand.positional, if_neg hvalue, if_neg Bool.false_ne_true]
      rfl
    simp only [inKeywords_concat, inKeywords_eq_false.2 hbefore, hplain, Bool.or_false,
      ofItems_concat_plain, tokens, List.singleton_append]
    rw [collect_plain false _ hname, hpositional]
    rfl
  | pair span name equals value =>
    obtain ⟨hequals, hcomma, hname⟩ := h
    have hpair : (pair span name equals value).name?.isSome = true := rfl
    have hvalue : (value.operand host).isOperator "," = false := hcomma
    have hfresh : ¬ (ofItems main read).hasKeyword name = true := mt hasKeyword_ofItems.1 hname
    simp only [inKeywords_concat, hpair, Bool.or_true, ofItems_concat_pair, tokens,
      List.cons_append, List.nil_append, Token.operands_cons, collect,
      keyword?_operand hequals, hvalue, hfresh, Bool.false_eq_true, if_false]
    rfl

/-- Items with commas behind them take the reader to what comes after them. -/
theorem collect_separated {items : List OptionItem} {lead : List Token}
    (hlead : Separated items lead) :
    ∀ {read more s}, more.map Prod.fst = items → Orderly ((read ++ more).map Prod.fst) →
      Reads host more s after → ∀ rest,
      (collect groupStart (inKeywords (read.map Prod.fst)) (ofItems main read)
          (Token.operands host (lead ++ rest))).run.run s =
        (collect groupStart (inKeywords ((read ++ more).map Prod.fst)) (ofItems main (read ++ more))
          (Token.operands host rest)).run.run after := by
  induction hlead with
  | nil =>
    intro read more s hmore _ hreads rest
    obtain rfl := List.map_eq_nil_iff.1 hmore
    cases hreads
    rw [List.append_nil]
    rfl
  | @cons item items comma ts hcomma hitems ih =>
    intro read more s hmore horderly hreads rest
    obtain ⟨⟨item, v⟩, more, rfl, rfl, htail⟩ := List.map_eq_cons_iff.1 hmore
    cases hreads with
    | @cons _ _ _ _ mid _ hitem hrest =>
      have hfits : item.Fits (read.map Prod.fst) (comma :: (ts ++ rest)) := by
        rw [List.map_append, List.map_cons] at horderly
        exact fits_of_orderly horderly _
      have happend : read ++ (item, v) :: more = read ++ [(item, v)] ++ more := by
        rw [List.append_assoc, List.singleton_append]
      rw [happend] at horderly ⊢
      have hcomma : (comma.operand host).isOperator "," = true := hcomma
      rw [List.append_assoc, List.cons_append, collect_item hfits, run_bind, hitem]
      simp only [Token.operands_cons, separated, hcomma, if_true]
      exact ih htail horderly hrest rest

theorem collect_accepted {ts : List Token} (h : Accepted host read ts s after) :
    (collect groupStart false (ofItems main []) (Token.operands host ts)).run.run s =
      (.ok (ofItems main read), after) := by
  obtain ⟨hsep | ⟨items, item, lead, hitems, hsep, rfl⟩, horderly, hreads⟩ := h
  · have hrun := @collect_separated host groupStart main after _ _ hsep [] read s rfl horderly
      hreads []
    rw [List.append_nil] at hrun
    exact hrun
  · obtain ⟨read, last, rfl, rfl, hlast⟩ := List.map_eq_append_iff.1 hitems
    obtain ⟨⟨item, v⟩, rfl, rfl⟩ := List.map_eq_singleton_iff.1 hlast
    obtain ⟨mid, hread, hitem⟩ := Reads.append_iff.1 hreads
    have hfits : item.Fits (read.map Prod.fst) [] := by
      rw [List.map_append] at horderly
      exact fits_of_orderly horderly []
    have hrun := @collect_separated host groupStart main mid _ _ hsep [] read s rfl
      (Orderly.left (List.map_append ▸ horderly)) hread item.tokens
    rw [List.nil_append, ← List.append_nil item.tokens, collect_item hfits, run_bind] at hrun
    cases hitem with
    | cons hvalue hnil =>
      cases hnil
      rw [hvalue, List.append_nil] at hrun
      exact hrun

/-- Where a rule is broken, the reader fails with its error. -/
theorem collect_violates {rest : List Token} {e : Error}
    (h : Violates host groupStart (read.map Prod.fst) s rest e after) :
    (collect groupStart (inKeywords (read.map Prod.fst)) (ofItems main read)
      (Token.operands host rest)).run.run s = (.error e, after) := by
  cases h with
  | @misplacedEquals equals more hequals =>
    rw [collect_plain _ _ fun _ _ _ => Token.name?_of_isOperator hequals, run_bind]
    have hoperand : (equals.operand host).isOperator "=" = true := hequals
    rw [Operand.positional, if_pos hoperand, run_fail]
    rfl
  | @valueExpected span name equals more hequals hmore =>
    rw [Token.operands_cons, Token.operands_cons, collect]
    simp only [keyword?_operand hequals]
    cases more with
    | nil => rfl
    | cons t more =>
      have hoperand : (t.operand host).isOperator "," = true := hmore t rfl
      simp only [Token.operands_cons, hoperand, if_true]
      rfl
  | @duplicatedKeyword span name equals value more hequals hvalue hname =>
    have hoperand : (value.operand host).isOperator "," = false := hvalue
    rw [Token.operands_cons, Token.operands_cons, Token.operands_cons, collect]
    simp only [keyword?_operand hequals, hoperand, hasKeyword_ofItems.2 hname, Bool.false_eq_true,
      if_false, if_true]
    rfl
  | @positionalAfterKeyword value more hvalue hmore hbefore =>
    rw [collect_plain _ _ hmore, run_bind]
    have hoperand : ¬ (value.operand host).isOperator "=" = true := Bool.eq_false_iff.1 hvalue
    have hpairs : inKeywords (read.map Prod.fst) = true := by
      refine Bool.of_not_eq_false fun hfalse => ?_
      obtain ⟨a, ha, hname⟩ := hbefore
      exact hname (inKeywords_eq_false.1 hfalse a ha)
    rw [Operand.positional, if_neg hoperand, if_pos hpairs, run_fail]
  | @unexpected item more fault hitem hvalue =>
    rw [collect_item hitem, run_bind, Token.meaning_of_unexpected? host hvalue, run_fail]
  | @failure item more e after hitem hwritten hvalue =>
    rw [collect_item hitem, run_bind, hvalue]
  | @commaExpected item v t more after hitem hvalue ht =>
    rw [collect_item hitem, run_bind, hvalue]
    have hoperand : ¬ (t.operand host).isOperator "," = true := Bool.eq_false_iff.1 ht
    show (separated _ _ _ (t.operand host :: Token.operands host more)).run.run after = _
    rw [separated, if_neg hoperand, run_fail]
    rfl

/-- The reader fails with the error of a list that it refuses. -/
theorem collect_refused {ts : List Token} {e : Error} (h : Refused host groupStart ts s e after) :
    (collect groupStart false (ofItems main []) (Token.operands host ts)).run.run s =
      (.error e, after) := by
  obtain ⟨rfl, hlead, horderly, hreads, hrest⟩ := h
  have hrun := @collect_separated host groupStart main _ _ _ hlead [] _ s rfl horderly hreads
  exact (hrun _).trans (collect_violates hrest)

end Arguments

/-! ## All lists -/

namespace OptionItem

variable {host : Host} {before : List OptionItem} {read : List (OptionItem × Value)}
  {item : OptionItem} {s mid after : State}

/-- An item starts, or a rule is broken at once. -/
theorem exists_fits (host : Host) (groupStart : Nat) (before : List OptionItem) (s : State)
    (t : Token) (ts : List Token) :
    (∃ (item : OptionItem) (more : List Token),
        t :: ts = item.tokens ++ more ∧ item.Fits before more) ∨
      ∃ e, Violates host groupStart before s (t :: ts) e s := by
  by_cases hplain : ∀ next ∈ ts.head?, next.isOperator "=" = true → t.name? = none
  · by_cases hequals : t.isOperator "=" = true
    · exact .inr ⟨_, .misplacedEquals hequals⟩
    · have hvalue := Bool.eq_false_iff.2 hequals
      by_cases hbefore : ∀ a ∈ before, a.name? = none
      · exact .inl ⟨.plain t, ts, rfl, hvalue, hplain, hbefore⟩
      · simp only [Classical.not_forall] at hbefore
        obtain ⟨a, ha, hname⟩ := hbefore
        exact .inr ⟨_, .positionalAfterKeyword hvalue hplain ⟨a, ha, hname⟩⟩
  · simp only [Classical.not_forall] at hplain
    obtain ⟨equals, hhead, hequals, hname⟩ := hplain
    obtain ⟨more, rfl⟩ : ∃ more, ts = equals :: more := List.head?_eq_some_iff.1 hhead
    obtain ⟨span, name, rfl⟩ : ∃ span name, t = .identifier span name := by
      cases t with
      | identifier span name => exact ⟨span, name, rfl⟩
      | _ => exact absurd rfl hname
    by_cases hmore : ∀ u ∈ more.head?, u.isOperator "," = true
    · exact .inr ⟨_, .valueExpected hequals hmore⟩
    · simp only [Classical.not_forall] at hmore
      obtain ⟨value, hhead, hcomma⟩ := hmore
      obtain ⟨more, rfl⟩ : ∃ rest, more = value :: rest := List.head?_eq_some_iff.1 hhead
      have hvalue := Bool.eq_false_iff.2 hcomma
      by_cases hfresh : name ∈ names before
      · exact .inr ⟨_, .duplicatedKeyword hequals hvalue hfresh⟩
      · exact .inl ⟨.pair span name equals value, more, rfl, hequals, hvalue, hfresh⟩

/-- An item with a value ends the list or has a comma behind it, or a rule is broken. -/
theorem exists_item (host : Host) (groupStart : Nat) (before : List OptionItem) (s : State)
    (t : Token) (ts : List Token) :
    (∃ (item : OptionItem) (v : Value) (more : List Token) (after : State),
        t :: ts = item.tokens ++ more ∧ item.Fits before more ∧ item.value.isValue = true ∧
          (item.value.meaning host).run.run s = (.ok v, after) ∧
          ∀ comma ∈ more.head?, comma.isOperator "," = true) ∨
      ∃ e after, Violates host groupStart before s (t :: ts) e after := by
  obtain ⟨item, more, hsplit, hfits⟩ | ⟨e, he⟩ := exists_fits host groupStart before s t ts
  · rw [hsplit]
    cases hvalue : item.value.unexpected? with
    | some fault => exact .inr ⟨_, _, .unexpected hfits hvalue⟩
    | none =>
      have hwritten : item.value.isValue = true := by
        rw [← Token.isNone_unexpected?, hvalue, Option.isNone_none]
      cases hrun : (item.value.meaning host).run.run s with
      | mk result after =>
        cases result with
        | error e => exact .inr ⟨_, _, .failure hfits hwritten hrun⟩
        | ok v =>
          by_cases hmore : ∀ comma ∈ more.head?, comma.isOperator "," = true
          · exact .inl ⟨item, v, more, after, rfl, hfits, hwritten, hrun, hmore⟩
          · simp only [Classical.not_forall] at hmore
            obtain ⟨u, hhead, hcomma⟩ := hmore
            obtain ⟨more, rfl⟩ : ∃ rest, more = u :: rest := List.head?_eq_some_iff.1 hhead
            exact .inr ⟨_, _, .commaExpected hfits hrun (Bool.eq_false_iff.2 hcomma)⟩
  · exact .inr ⟨e, s, he⟩

/-- After an orderly list of items, the rest is accepted too or breaks a rule. -/
theorem exists_outcome (host : Host) (groupStart : Nat) (s : State) (rest : List Token) :
    ∀ (lead : List Token) (read : List (OptionItem × Value)) (mid : State),
      Separated (read.map Prod.fst) lead → Orderly (read.map Prod.fst) → Reads host read s mid →
      (∃ all after, Accepted host all (lead ++ rest) s after) ∨
        ∃ e after, Refused host groupStart (lead ++ rest) s e after := by
  induction hn : rest.length using Nat.strongRecOn generalizing rest with
  | ind n ih =>
    intro lead read mid hlead horderly hreads
    cases rest with
    | nil =>
      rw [List.append_nil]
      exact .inl ⟨read, mid, .inl hlead, horderly, hreads⟩
    | cons t ts =>
      obtain ⟨item, v, more, last, hsplit, hfits, hwritten, hrun, hmore⟩ | ⟨e, after, he⟩ :=
        exists_item host groupStart (read.map Prod.fst) mid t ts
      · rw [hsplit] at hn ⊢
        have hitems : (read ++ [(item, v)]).map Prod.fst = read.map Prod.fst ++ [item] :=
          List.map_append
        have hall := horderly.concat hfits hwritten
        have hread : Reads host (read ++ [(item, v)]) s last :=
          Reads.append_iff.2 ⟨mid, hreads, .cons hrun (.nil last)⟩
        rw [← hitems] at hall
        cases more with
        | nil =>
          rw [List.append_nil]
          exact .inl ⟨_, last, .inr ⟨_, item, lead, hitems, hlead, rfl⟩, hall, hread⟩
        | cons comma more =>
          have hsep := @Separated.concat item _ _ _ hlead (hmore comma rfl)
          have hlt : more.length < n := by
            rw [← hn, List.length_append, List.length_cons]
            omega
          rw [← hitems] at hsep
          have hrest := ih _ hlt more rfl _ _ last hsep hall hread
          rw [List.append_assoc, List.append_assoc] at hrest
          exact hrest
      · exact .inr ⟨e, after, .intro rfl hlead horderly hreads he⟩

end OptionItem

namespace Arguments

open OptionItem

variable {host : Host} {groupStart : Nat} {main : List Value} {ts : List Token} {s after : State}

/-- Options are accepted or refused, and not both. -/
theorem exists_accepted_or_refused (host : Host) (groupStart : Nat) (ts : List Token) (s : State) :
    (∃ read after, Accepted host read ts s after) ∨
      ∃ e after, Refused host groupStart ts s e after :=
  exists_outcome host groupStart s ts [] [] s .nil ⟨nofun, .nil, .nil⟩ (.nil s)

theorem collect_ok_iff {args : Arguments} :
    (collect groupStart false (ofItems main []) (Token.operands host ts)).run.run s =
        (.ok args, after) ↔
      ∃ read, Accepted host read ts s after ∧ args = ofItems main read := by
  constructor
  · intro h
    obtain ⟨read, last, hread⟩ | ⟨e, last, he⟩ :=
      exists_accepted_or_refused host groupStart ts s
    · rw [collect_accepted hread] at h
      cases h
      exact ⟨read, hread, rfl⟩
    · rw [collect_refused he] at h
      cases h
  · rintro ⟨read, hread, rfl⟩
    exact collect_accepted hread

theorem collect_error_iff {e : Error} :
    (collect groupStart false (ofItems main []) (Token.operands host ts)).run.run s =
        (.error e, after) ↔
      Refused host groupStart ts s e after := by
  refine ⟨fun h => ?_, collect_refused⟩
  obtain ⟨read, last, hread⟩ | ⟨e', last, he⟩ := exists_accepted_or_refused host groupStart ts s
  · rw [collect_accepted hread] at h
    cases h
  · rw [@collect_refused _ _ main _ _ _ _ he] at h
    cases h
    exact he

end Arguments

/-! ## Commands -/

namespace Command

/-- The run of the body, which is the first positional argument; none without a body. -/
def mainValues (host : Host) (c : Command) : Run (List Value) :=
  match Body.optionMeaning host c.body with
  | none => pure []
  | some body => do return [← body]

/-- The tokens of the options. -/
def optionTokens (c : Command) : List Token :=
  c.options.elim [] Group.children

/-- The offset at which the options start. -/
def optionStart (c : Command) : Nat :=
  c.options.elim c.span.start (·.span.start)

open OptionItem

theorem arguments_eq (host : Host) (c : Command) :
    (c.call host).arguments = (do
      let main ← c.mainValues host
      Arguments.collect c.optionStart false (.ofItems main [])
        (Token.operands host c.optionTokens)) := by
  obtain ⟨span, phrase, e, options, body⟩ := c
  cases hbody : Body.optionMeaning host body with
  | none =>
    simp only [Call.arguments, Command.call, mainValues, hbody, pure_bind]
    rcases options with _ | ⟨groupSpan, children⟩ <;> rfl
  | some main =>
    simp only [Call.arguments, Command.call, mainValues, hbody, bind_assoc, pure_bind]
    rcases options with _ | ⟨groupSpan, children⟩ <;> rfl

/-- The arguments of a command are made if and only if its body and its options have values and the
options are an orderly list; if not, the error is that of the body, or that of the first violation
in the options. -/
theorem arguments_run (host : Host) (c : Command) (s after : State) :
    (∀ args, (c.call host).arguments.run.run s = (.ok args, after) ↔
      ∃ main mid read, (c.mainValues host).run.run s = (.ok main, mid) ∧
        Accepted host read c.optionTokens mid after ∧ args = .ofItems main read) ∧
    ∀ e, (c.call host).arguments.run.run s = (.error e, after) ↔
      (c.mainValues host).run.run s = (.error e, after) ∨
      ∃ main mid, (c.mainValues host).run.run s = (.ok main, mid) ∧
        Refused host c.optionStart c.optionTokens mid e after := by
  rw [arguments_eq, run_bind]
  cases hmain : (c.mainValues host).run.run s with
  | mk result mid =>
    cases result with
    | error e' =>
      refine ⟨fun args => ⟨nofun, ?_⟩, fun e => ⟨?_, ?_⟩⟩
      · rintro ⟨_, _, _, ⟨⟩, -⟩
      · rintro ⟨⟩
        exact .inl rfl
      · rintro (⟨⟨⟩⟩ | ⟨_, _, ⟨⟩, -⟩)
        rfl
    | ok main =>
      refine ⟨fun args => ?_, fun e => ?_⟩
      · rw [Arguments.collect_ok_iff]
        constructor
        · rintro ⟨read, h⟩
          exact ⟨main, mid, read, rfl, h⟩
        · rintro ⟨_, _, read, ⟨⟩, h⟩
          exact ⟨read, h⟩
      · rw [Arguments.collect_error_iff]
        constructor
        · exact fun h => .inr ⟨main, mid, rfl, h⟩
        · rintro (⟨⟨⟩⟩ | ⟨_, _, ⟨⟩, h⟩)
          exact h

end Command

end Prosemark
