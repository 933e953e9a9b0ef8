import Prosemark.Proofs.Account
import Prosemark.Proofs.Escaping
import Prosemark.Proofs.JsonText
import Prosemark.Proofs.Refusal

/-!
# Integers are exact

Integers reach a program in two ways: as a phrase that is a JSON text, where a sign belongs to the
integer, and as a number in options, where it does not. Either way the decimal text of an integer of
64 bits stands for the integer itself, up to both ends of the range. A numeral in options beyond the
range is a binary64 number, or an error, and never another integer (`integers_exact`).
-/

namespace Prosemark

open Prosemark.Parser

/-! ## What the numeral of an integer stands for -/

/-- The number nearest to a natural number of 64 bits. -/
theorem Binary64.ofInt_natCast {n : Nat} (h : n < Nat.pow 2 64) :
    ofInt n = ofRank false (rankOfNat n) := by
  have hnonneg : ¬(n : Int) < 0 := by omega
  have hsmall : n < Nat.pow 10 20 := Nat.lt_of_lt_of_le h (by decide)
  have hlength : (Nat.toDigits 10 n).length ≤ 20 := Decimal.length_toDigits_le (by decide) hsmall
  by_cases hn : n = 0
  · subst hn
    decide +kernel
  · have hlow : ¬(n = 0 ∨ (0 : Int) + (Nat.toDigits 10 n).length ≤ -324) := by omega
    have hhigh : ¬309 < (0 : Int) + (Nat.toDigits 10 n).length := by omega
    have hdigits : n * Nat.pow 10 0 = n := Nat.mul_one n
    unfold ofInt ofDecimal ofUnits rankOfNat oneUnits
    generalize Nat.pow 2 1074 = one
    simp only [Int.natAbs_natCast, hnonneg, decide_false, if_neg hlow, if_neg hhigh, hdigits]

namespace Numeral

/-- A natural number is written without a sign. -/
theorem chars_ofInt_natCast (n : Nat) : (ofInt n).chars = (ofInt n).whole := by
  have hneg : ¬((n : Int) < 0) := by omega
  simp [chars, ofInt, hneg]

theorem le_ofDigitChars (digits : List Char) (start : Nat) :
    start ≤ Nat.ofDigitChars 10 digits start := by
  rw [Nat.ofDigitChars_eq_ofDigitChars_zero]
  have hmul : start ≤ 10 ^ digits.length * start :=
    Nat.le_mul_of_pos_left start (Nat.pow_pos (by decide))
  omega

/-- A significand takes in all digits if their value fits in 64 bits. -/
theorem takeDigits_eq {digits : List Char} {start : Nat}
    (h : Nat.ofDigitChars 10 digits start < Nat.pow 2 64) :
    takeDigits start digits = (Nat.ofDigitChars 10 digits start, []) := by
  induction digits generalizing start with
  | nil => rfl
  | cons c cs ih =>
    have hnext : 10 * start + digitValue c < Nat.pow 2 64 :=
      Nat.lt_of_le_of_lt (le_ofDigitChars cs _) h
    rw [takeDigits, if_pos hnext]
    exact ih h

theorem significand_ofInt {n : Nat} (h : n < Nat.pow 2 64) :
    (ofInt n).significand = (n, 0) := by
  have hwhole : takeDigits 0 (ofInt n).whole = (n, []) := by
    have hvalue : Nat.ofDigitChars 10 (Nat.toDigits 10 n) 0 = n := digitsValue_toDigits n
    have htake := @takeDigits_eq (Nat.toDigits 10 n) 0 (by rwa [hvalue])
    rwa [hvalue] at htake
  rw [significand, hwhole]
  rfl

/-- A natural number of 64 bits is read as the nearest number. -/
theorem read_ofInt {n : Nat} (h : n < Nat.pow 2 64) : (ofInt n).read = .ok (.ofInt n) := by
  have hnonneg : ¬(n : Int) < 0 := by omega
  have hnegative : (ofInt n).negative = false := decide_eq_false hnonneg
  have hscaled : scaled? (rankOfNat n) (.ofNat 0) = some (rankOfNat n) := by
    rw [scaled?_ofNat, if_neg (by decide), mulRank_tenPower_zero, if_pos (rankOfNat_lt h)]
  rw [Binary64.ofInt_natCast h, read, significand_ofInt h]
  show read.finish (ofInt n) n (.ofNat 0) = _
  rw [read.finish, hscaled, hnegative]

/-- That digits are out of range is noticed at their end. -/
theorem column_of_read_ofInt {n : Int} {column : Nat} (h : (ofInt n).read = .error column) :
    column = (ofInt n).chars.length := by
  rw [read] at h
  change read.finish (ofInt n) _ _ = _ at h
  unfold read.finish at h
  split at h
  · cases h
  · exact (Except.error.inj h).symm

end Numeral

namespace Number

variable {n : Int}

theorem fits_iff : fits n = true ↔ -Int.pow 2 63 ≤ n ∧ n < Int.pow 2 63 := by
  simp only [fits, Bool.and_eq_true, decide_eq_true_eq]

theorem fits_natCast_iff {n : Nat} : fits n = true ↔ n < Nat.pow 2 63 := by
  rw [fits_iff]
  show -9223372036854775808 ≤ (n : Int) ∧ (n : Int) < 9223372036854775808 ↔
    n < 9223372036854775808
  omega

theorem ofNumeral_ofInt (n : Int) :
    ofNumeral (.ofInt n) =
      if fits n then .ok (.int n) else (Numeral.ofInt n).read.map .float := by
  rw [ofNumeral, Numeral.isInteger_ofInt, Numeral.integer_ofInt, Bool.true_and]

end Number

namespace Json

open Atom

/-- The decimal text of an integer that fits is a JSON text for it. -/
theorem read?_toString_int {n : Int} (h : Number.fits n = true) (rounding : Rounding)
    (levels : Nat) : read? rounding levels (toString n) = some (.integer n) := by
  obtain ⟨hlower, hupper⟩ := Number.fits_iff.1 h
  have hwide : n < Int.pow 2 64 := by
    refine Int.lt_trans hupper ?_
    decide
  have hread : Reader.value? rounding (4 * (Numeral.ofInt n).chars.length + 4) levels .all
      ((Numeral.ofInt n).chars ++ []) = some (.integer n, []) :=
    Reader.value?_numeral (Numeral.ofInt_valid n) (ofNumeral?_ofInt hlower hwide)
      (by simp [EndsNumber])
  rw [List.append_nil] at hread
  rw [read?, readWanted?, Numeral.toList_toString_int, hread]
  rfl

end Json

/-! ## Phrases -/

namespace Phrase

variable {n : Int}

/-- The text of an integer starts with a minus or a digit, and a minus is not all of it. -/
theorem exists_chars_of_int (n : Int) :
    ∃ c cs, (toString n).toList = c :: cs ∧ (c.isDigit = true ∨ c = '-' ∧ cs ≠ []) := by
  obtain ⟨d, ds, hds⟩ := List.exists_cons_of_ne_nil (Numeral.ofInt_valid n).whole_ne_nil
  rw [Numeral.toList_toString_int, Numeral.chars_eq, hds]
  cases (Numeral.ofInt n).negative with
  | true => exact ⟨'-', _, rfl, .inr ⟨rfl, by simp⟩⟩
  | false => exact ⟨d, _, rfl, .inl ((Numeral.ofInt_valid n).whole d (by simp [hds]))⟩

theorem isSymbol_toString_int (n : Int) : isSymbol (toString n) = false := by
  obtain ⟨c, cs, hchars, hc⟩ := exists_chars_of_int n
  rw [isSymbol, hchars]
  cases cs with
  | nil =>
    rcases hc with hc | ⟨-, hne⟩
    · exact Charset.isSymbol_eq_false_of_isDigit hc
    · exact absurd rfl hne
  | cons d ds => rfl

/-- No integer is a name of the standard environment. -/
theorem get?_standard_toString_int (n : Int) : Environment.standard.get? (toString n) = none := by
  obtain ⟨c, cs, hchars, hc⟩ := exists_chars_of_int n
  have hne : ∀ (d : Char) (ds : List Char), d ≠ '-' → d.isDigit = false →
      toString n ≠ String.ofList (d :: ds) := by
    rintro d ds hminus hdigit heq
    rw [heq, String.toList_ofList] at hchars
    obtain ⟨rfl, -⟩ := List.cons.inj hchars
    rcases hc with hc | ⟨hc, -⟩
    · simp [hdigit] at hc
    · exact hminus hc
  have hevaluator : toString n ≠ Environment.evaluatorKey :=
    hne '_' "phrase_eval_".toList (by decide) (by decide)
  have hif : toString n ≠ "if" := hne 'i' ['f'] (by decide) (by decide)
  have hfor : toString n ≠ "for" := hne 'f' ['o', 'r'] (by decide) (by decide)
  rw [Environment.standard, Environment.ofList]
  simp only [List.foldl_cons, List.foldl_nil]
  rw [Environment.get?_insert, if_neg hfor, Environment.get?_insert, if_neg hif,
    Environment.get?_insert, if_neg hevaluator]
  rfl

theorem evaluate_toString_int (h : Number.fits n = true) :
    evaluate (toString n) .standard = .ok (.int n) := by
  obtain ⟨c, cs, hchars, -⟩ := exists_chars_of_int n
  have hne : toString n ≠ "" := by
    intro hnil
    simp [hnil] at hchars
  have hextras : entryOf? Environment.extrasKey (toString n) .standard = none := rfl
  rw [evaluate, if_neg hne, hextras, get?_standard_toString_int, isSymbol_toString_int]
  simp only [Option.none_or, literal, Json.read?_toString_int h, Value.ofJson, h]
  rfl

end Phrase

/-- In the standard environment a phrase is what the standard rules say. -/
theorem Host.phrase_standard (host : Host) (offset : Nat) {phrase : String} {v : Value} {s : State}
    (henv : s.env = .standard) (hv : Phrase.evaluate phrase .standard = .ok v) :
    (host.phrase phrase offset).run.run s = (.ok v, s.logged (.evaluated phrase offset)) := by
  have hevaluator : s.env.evaluator? = some ⟨.standard, .standard⟩ := by
    rw [henv]
    rfl
  rw [Host.run_phrase hevaluator, henv, evaluatePhrase, hv]
  rfl

/-! ## Sources that are one expression -/

section Expression

variable {sw : Switch} {source : String} {start next : Cursor}

/-- A source that is a switch and an expression is parsed to it. -/
theorem parse_expression {f : Fragment} (hswitch : (Cursor.start source).Passes [sw.char] start)
    (hin : next.In source) (hnext : next.rest = [])
    (hf : ∃ h, Yields (expression sw (4 * source.toList.length) false 0 start h) f next) :
    parse sw source = .ok ⟨⟨0, source.utf8ByteSize⟩, [f], .unfenced⟩ := by
  have hoffset : next.offset = source.utf8ByteSize := by
    rw [← hin.offset_add_width, hnext, width_nil, Nat.add_zero]
  have hlt := hswitch.length_lt (List.cons_ne_nil _ _)
  obtain ⟨bound, hbound⟩ : ∃ bound, 4 * source.toList.length = bound + 1 :=
    Nat.exists_eq_succ_of_ne_zero (by
      show 4 * (Cursor.start source).rest.length ≠ 0
      omega)
  have hend : ∃ h, Yields (fragments sw (4 * source.toList.length) .document next h)
      ([], source.utf8ByteSize) next := by
    rw [hbound]
    refine ⟨by simp [hnext], fragments_yields_iff.2 ⟨[], next, .refl next, isProse_nil _ _, ?_⟩⟩
    exact .inl ⟨.refl next, fun _ => hnext, rfl, hoffset.symm⟩
  refine parse_eq_ok_iff.2 ⟨[f], source.utf8ByteSize, next, Nat.lt_succ_self _, ?_, rfl⟩
  exact fragments_yields_iff.2 ⟨[], _, .refl _, isProse_nil _ _,
    .inr ⟨start, f, next, [], hswitch, hf, hend, rfl⟩⟩

/-- The error of an expression is the error of a source that starts with it. -/
theorem parse_expression_error {flaw : Flaw}
    (hswitch : (Cursor.start source).Passes [sw.char] start)
    (hf : ∃ h, expression sw (4 * source.toList.length) false 0 start h = .error flaw) :
    parse sw source = .error (flaw.toError source) := by
  refine parse_eq_error_iff.2 ⟨flaw, Nat.lt_succ_self _, fragments_eq_error_iff.2 (.inr ?_), rfl⟩
  exact ⟨[], _, start, .refl _, isProse_nil _ _, hswitch, .inl hf⟩

theorem body?_at_end (hnext : next.rest = []) {bound : Nat} {nested : Bool}
    {h : 4 * next.rest.length + 1 < bound} : body? sw bound nested next h = .ok none := by
  have hopens : ∀ d, ¬Opens d next.rest := by
    rw [hnext]
    exact not_opens_nil
  exact body?_eq_none_iff.2 ⟨hopens .brace, hopens .quote⟩

/-- A command at the end of a source has its phrase only. -/
theorem call_at_end (hnext : next.rest = []) {bound offset : Nat} {nested : Bool}
    {phrase : List Char} {e : Enclosing} {h : 4 * next.rest.length + 3 < bound} :
    Yields (call sw bound nested offset phrase e next h)
      ⟨⟨offset, next.offset⟩, String.ofList phrase, e, none, none⟩ next := by
  obtain ⟨bound, rfl⟩ := Nat.exists_eq_add_of_lt h
  refine call_yields_iff.2 ?_
  by_cases hphrase : phrase = []
  · exact .inl ⟨hphrase, rfl, by rw [hphrase]⟩
  · have hgroup : next.rest.head? ≠ some '[' := by simp [hnext]
    exact .inr ⟨hphrase, none, next, none,
      ⟨by omega, .inl ⟨group?_eq_none_iff.2 hgroup, rfl, rfl⟩⟩,
      ⟨by omega, .inl ⟨body?_at_end hnext, rfl, rfl⟩⟩, rfl⟩

/-- A phrase between bars is a command without arguments where nothing follows it. -/
theorem parse_barred {fence : Fence} (hd : fence.delimiter = .bar) {phrase : String}
    (h : ¬fence.right <:+: phrase.toList) :
    parse sw (fence.wrap sw.text phrase) =
      .ok ⟨⟨0, (fence.wrap sw.text phrase).utf8ByteSize⟩,
        [.command ⟨⟨0, (fence.wrap sw.text phrase).utf8ByteSize⟩, phrase, fence.enclosing, none,
          none⟩], .unfenced⟩ := by
  have hrest : (Cursor.start (fence.wrap sw.text phrase)).rest =
      [sw.char] ++ (fence.left ++ (phrase.toList ++ (fence.right ++ []))) := by
    simp [Cursor.start, Fence.wrap, Switch.text, Fence.enclosing]
  have hin := Cursor.start_in (fence.wrap sw.text phrase)
  generalize fence.wrap sw.text phrase = source at *
  obtain ⟨cur, hswitch, hcur⟩ := Cursor.exists_passes hrest
  obtain ⟨start, hleft, hstart⟩ := Cursor.exists_passes hcur
  obtain ⟨mid, hmiddle, hmid⟩ := Cursor.exists_passes hstart
  obtain ⟨next, hright, hnext⟩ := Cursor.exists_passes hmid
  have hencloses : fence.Encloses cur start phrase.toList mid next := ⟨hleft, hmiddle, hright, h⟩
  have hnextin := hencloses.next_in (hin.passes hswitch)
  have hoffset : source.utf8ByteSize = next.offset := by
    rw [← hnextin.offset_add_width, hnext, width_nil, Nat.add_zero]
  have hlength : source.toList.length = cur.rest.length + 1 := by
    show (Cursor.start source).rest.length = _
    rw [hswitch.rest_eq]
    simp
  obtain ⟨bound, hbound⟩ : ∃ bound, 4 * source.toList.length = bound + 1 :=
    Nat.exists_eq_add_of_le' (by omega)
  have hlt := hleft.length_lt fence.left_ne_nil
  refine parse_expression hswitch hnextin hnext ?_
  rw [hbound, hoffset]
  refine ⟨by omega, expression_yields_iff.2 (.inr (.inl ?_))⟩
  refine ⟨fence, start, mid, next, phrase.toList, _, hd, hencloses, ⟨?_, call_at_end hnext⟩, ?_⟩
  · simp [hnext]
    omega
  · rw [String.ofList_toList]

end Expression

/-! ## Options of one token -/

/-- A numeral is read up to what cannot be part of one. -/
theorem Numeral.Valid.isLongest {n : Numeral} (h : n.Valid) {t : List Char}
    (ht : ∀ c ∈ t.head?, Numeral.isPart c = false) : n.IsLongest (n.chars ++ t) := by
  obtain ⟨hvalid, -, hlongest⟩ := Numeral.scan?_eq_some_iff.1 (h.scan?_eq ht)
  exact ⟨hvalid, List.prefix_append _ _, hlongest⟩

/-- A numeral that is out of range is refused. -/
theorem Parser.atom?_error_of_number {sw : Switch} {cur : Cursor} {numeral : Numeral}
    {column : Nat} (hlongest : numeral.IsLongest cur.rest)
    (hhead : ∀ c ∈ cur.rest.head?, Lexeme.startsOperator sw c = false)
    (hcolumn : Number.ofNumeral numeral = .error column) :
    atom? sw cur =
      .error ⟨.numberOutOfRange (String.ofList numeral.chars) column, cur.offset⟩ := by
  obtain ⟨cut, hcut, -⟩ := Numeral.cut?_of_isLongest hlongest
  obtain ⟨hvalid, ⟨rest, hrest⟩, -⟩ := hlongest
  have hid : Lexeme.identifier? cur.rest = none := by
    rw [Lexeme.identifier?_eq_none_iff, ← hrest]
    exact hvalid.isIdStart_head rest
  simp only [atom?, hid, Lexeme.operator?_eq_none_iff.2 hhead, hcut]
  refine bind_eq_error_iff.2 (.inl ?_)
  rw [numberOf, hcolumn]

section Options

variable {sw : Switch} {bound offset : Nat} {nested : Bool} {phrase : List Char}
  {start mid cur last next : Cursor} {t : Token} {flaw : Flaw}

/-- Options that are an identifier, an operator or a number are read as that. -/
theorem group?_finds_atom (hopen : mid.Passes ['['] cur) (hatom : IsAtom sw cur t last)
    (hclose : last.Passes [']'] next) {h : 4 * mid.rest.length + 1 < bound} :
    Finds (group? sw bound nested mid h) ⟨⟨cur.offset, last.offset⟩, [t]⟩ next := by
  have hlt := hopen.length_lt (List.cons_ne_nil _ _)
  have hlast : last.rest.length < cur.rest.length := by
    obtain ⟨cut, -, rfl⟩ := hatom.atom?_eq
    exact cut.rest_lt
  obtain ⟨bound, rfl⟩ : ∃ b, bound = b + 3 := Nat.exists_eq_add_of_le' (by omega)
  have hend : ∃ h, Yields (tokens sw (bound + 1) nested mid.offset last h) ([], last.offset) next :=
    ⟨by omega, tokens_yields_iff.2 ⟨[], last, .refl last, by simp, .inl ⟨hclose, rfl, rfl⟩⟩⟩
  have htoken : ∃ h, Finds (token? sw (bound + 1) nested cur h) t last :=
    ⟨by omega, token?_finds_iff.2 (.inl hatom)⟩
  refine group?_finds_iff.2 ⟨cur, [t], last.offset, hopen, ⟨by omega, ?_⟩, rfl⟩
  exact tokens_yields_iff.2
    ⟨[], cur, .refl cur, by simp, .inr ⟨t, last, [], htoken, hend, rfl⟩⟩

/-- Options that start with a number that is refused are refused for it. -/
theorem group?_error_of_atom (hopen : mid.Passes ['['] cur) (hatom : atom? sw cur = .error flaw)
    {h : 4 * mid.rest.length + 1 < bound} : group? sw bound nested mid h = .error flaw := by
  have hlt := hopen.length_lt (List.cons_ne_nil _ _)
  obtain ⟨bound, rfl⟩ : ∃ b, bound = b + 3 := Nat.exists_eq_add_of_le' (by omega)
  have hhead : cur.skip Charset.isBlank = cur := by
    obtain ⟨numeral, -, ⟨hvalid, ⟨rest, hrest⟩, -⟩, -⟩ := atom?_eq_error hatom
    refine Cursor.skip_eq_of_passes (.refl cur) (by simp) ?_
    rw [← hrest]
    exact hvalid.isBlank_head rest
  have htoken : ∀ here : Cursor, here = cur → ∀ h,
      token? sw (bound + 1) nested here h = .error flaw := by
    rintro _ rfl h
    rw [token?, bind_eq_error_iff]
    exact .inl hatom
  have htokens : ∀ h, tokens sw (bound + 2) nested mid.offset cur h = .error flaw := by
    intro h
    rw [tokens, bind_eq_error_iff]
    exact .inl (htoken _ hhead _)
  obtain ⟨cut, hcut, rfl⟩ := Lexeme.char?_of_passes hopen
  rw [group?, hcut]
  exact bind_eq_error_iff.2 (.inl (htokens _))

/-- An identifier ends where options start. -/
theorem isIdContinue_head_of_options (hopen : mid.rest.head? = some '[') :
    ∀ c ∈ mid.rest.head?, Charset.isIdContinue c = false := by
  rw [hopen]
  rintro _ ⟨⟩
  decide

/-- An identifier with options that end the source is a command with these options. -/
theorem expression_yields_options {g : Group} (hphrase : start.Passes phrase mid)
    (hid : Lexeme.IsIdentifier phrase) (hopen : mid.rest.head? = some '[') (hnext : next.rest = [])
    (hgroup : ∀ {bound : Nat} (h : 4 * mid.rest.length + 1 < bound),
      Finds (group? sw bound nested mid h) g next)
    {h : 4 * start.rest.length + 2 < bound} :
    Yields (expression sw bound nested offset start h)
      (.command ⟨⟨offset, next.offset⟩, String.ofList phrase, .unfenced, some g, none⟩) next := by
  obtain ⟨c, cs, rfl, hc, hcs⟩ := hid
  have hlt := hphrase.length_lt (List.cons_ne_nil _ _)
  obtain ⟨bound, rfl⟩ : ∃ b, bound = b + 2 := Nat.exists_eq_add_of_le' (by omega)
  refine expression_yields_iff.2 (.inl ⟨c :: cs, mid, _, hphrase, ⟨c, cs, rfl, hc, hcs⟩,
    isIdContinue_head_of_options hopen,
    ⟨by omega, call_yields_iff.2 (.inr ⟨List.cons_ne_nil _ _, some g, next, none, ?_, ?_, rfl⟩)⟩,
    rfl⟩)
  · exact ⟨by omega, .inr ⟨g, rfl, hgroup _⟩⟩
  · exact ⟨by simp [hnext]; omega, .inl ⟨body?_at_end hnext, rfl, rfl⟩⟩

/-- A command is refused for what its options are refused for. -/
theorem expression_error_of_options (hphrase : start.Passes phrase mid)
    (hid : Lexeme.IsIdentifier phrase) (hopen : mid.rest.head? = some '[')
    (hgroup : ∀ {bound : Nat} (h : 4 * mid.rest.length + 1 < bound),
      group? sw bound nested mid h = .error flaw)
    {h : 4 * start.rest.length + 2 < bound} :
    expression sw bound nested offset start h = .error flaw := by
  obtain ⟨cut, hcut, rfl⟩ := Lexeme.identifier?_of_append hphrase.rest_eq hid
    (isIdContinue_head_of_options hopen)
  obtain rfl := Cursor.past_eq_of_passes hphrase
  have hlt := cut.rest_lt
  obtain ⟨bound, rfl⟩ : ∃ b, bound = b + 2 := Nat.exists_eq_add_of_le' (by omega)
  rw [expression, hcut]
  refine bind_eq_error_iff.2 (.inl ?_)
  rw [call, if_neg cut.piece_ne_nil]
  exact bind_eq_error_iff.2 (.inl (hgroup _))

end Options

/-! ## Both ways -/

/-- The tree of a command whose options are a number of the given width. -/
def Block.ofOption (width : Nat) (value : Number) : Block :=
  ⟨⟨0, width + 4⟩,
    [.command ⟨⟨0, width + 4⟩, "f", .unfenced,
      some ⟨⟨3, width + 3⟩, [.number ⟨3, width + 3⟩ value]⟩, none⟩],
    .unfenced⟩

/-- Digits in options are read as their value. -/
theorem parse_digits (n : Nat) :
    parse .standard ("@f[" ++ toString n ++ "]") =
      match Number.ofNumeral (.ofInt n) with
      | .ok value => .ok (Block.ofOption (toString n).utf8ByteSize value)
      | .error column => .error (Flaw.toError ("@f[" ++ toString n ++ "]")
          ⟨.numberOutOfRange (toString n) column, 3⟩) := by
  have hchars : (toString n).toList = (Numeral.ofInt n).chars := Numeral.toList_toString_int n
  have hrest : (Cursor.start ("@f[" ++ toString n ++ "]")).rest =
      ['@'] ++ (['f'] ++ (['['] ++ ((toString n).toList ++ ([']'] ++ [])))) := by
    simp [Cursor.start]
  have hin := Cursor.start_in ("@f[" ++ toString n ++ "]")
  generalize "@f[" ++ toString n ++ "]" = source at *
  obtain ⟨start, hswitch, hstart⟩ := Cursor.exists_passes hrest
  obtain ⟨mid, hphrase, hmid⟩ := Cursor.exists_passes hstart
  obtain ⟨cur, hopen, hcur⟩ := Cursor.exists_passes hmid
  obtain ⟨last, hdigits, hlast⟩ := Cursor.exists_passes hcur
  obtain ⟨next, hclose, hnext⟩ := Cursor.exists_passes hlast
  rw [hchars] at hcur hdigits
  have hvalid := Numeral.ofInt_valid n
  have hlongest : (Numeral.ofInt n).IsLongest cur.rest := by
    rw [hcur]
    apply hvalid.isLongest
    rintro _ ⟨⟩
    decide
  have hhead : ∀ c ∈ cur.rest.head?, Lexeme.startsOperator .standard c = false := by
    rw [hcur]
    apply hvalid.startsOperator_head
    intro hminus
    obtain ⟨c, cs, hcs⟩ := List.exists_cons_of_ne_nil hvalid.whole_ne_nil
    have hc := hvalid.whole c (by rw [hcs]; exact List.mem_cons_self)
    rw [Numeral.chars_ofInt_natCast, hcs] at hminus
    obtain rfl : c = '-' := Option.some.inj hminus
    exact absurd hc (by decide)
  have hid : Lexeme.IsIdentifier ['f'] := ⟨'f', [], rfl, by decide, by simp⟩
  have hbracket : mid.rest.head? = some '[' := by
    rw [hmid]
    rfl
  have hcuroffset : cur.offset = 3 := by
    rw [hopen.offset_eq, hphrase.offset_eq, hswitch.offset_eq]
    rfl
  have hroom : 4 * start.rest.length + 2 < 4 * source.toList.length := by
    have hlt := hswitch.length_lt (List.cons_ne_nil _ _)
    show _ < 4 * (Cursor.start source).rest.length
    omega
  cases hvalue : Number.ofNumeral (.ofInt n) with
  | ok value =>
    have hatom : IsAtom .standard cur (.number ⟨cur.offset, last.offset⟩ value) last :=
      .number hdigits hlongest hhead hvalue
    have hlastin := (((hin.passes hswitch).passes hphrase).passes hopen).passes hdigits
    have hlastoffset : last.offset = (toString n).utf8ByteSize + 3 := by
      rw [hdigits.offset_eq, ← hchars, width_toList, hcuroffset, Nat.add_comm]
    have hnextoffset : next.offset = (toString n).utf8ByteSize + 4 := by
      rw [hclose.offset_eq, hlastoffset]
      rfl
    have hsize : source.utf8ByteSize = (toString n).utf8ByteSize + 4 := by
      rw [← hnextoffset, ← (hlastin.passes hclose).offset_add_width, hnext, width_nil, Nat.add_zero]
    have hparse := parse_expression hswitch (hlastin.passes hclose) hnext
      ⟨hroom, expression_yields_options hphrase hid hbracket hnext
        fun _ => group?_finds_atom hopen hatom hclose⟩
    rw [hsize, hcuroffset, hlastoffset, hnextoffset] at hparse
    exact hparse
  | error column =>
    have hatom := atom?_error_of_number hlongest hhead hvalue
    rw [hcuroffset, ← hchars, String.ofList_toList] at hatom
    exact parse_expression_error hswitch ⟨hroom, expression_error_of_options hphrase hid hbracket
      fun _ => group?_error_of_atom hopen hatom⟩

/-- A phrase between bars renders to the text of its value. -/
theorem render_barred {fence : Fence} (hd : fence.delimiter = .bar) {phrase : String}
    (h : ¬fence.right <:+: phrase.toList) {v : Value}
    (hv : Phrase.evaluate phrase .standard = .ok v) :
    render (fence.wrap "@" phrase) = .ok (Value.render (if v.isNothing then [] else [v])) := by
  have hphrase := Host.phrase_standard .none 0 (rfl : (State.ofEnv .standard).env = .standard) hv
  have hcommand : ∀ stop e, (Fragment.meaning .none
      (.command ⟨⟨0, stop⟩, phrase, e, none, none⟩)).run.run (.ofEnv .standard) =
        (.ok v, (State.ofEnv .standard).logged (.evaluated phrase 0)) := by
    intro stop e
    rw [Fragment.meaning, Command.meaning_bare]
    exact hphrase
  have hparse : parse .standard (fence.wrap "@" phrase) = _ := parse_barred hd h
  exact render_of_parse hparse (Fragment.meanings_cons_run (hcommand _ _) rfl)

theorem render_toString_int {n : Int} (h : Number.fits n = true) :
    render ("@|" ++ toString n ++ "|") = .ok (toString n) := by
  have hbar : '|' ∉ (toString n).toList := by
    intro hmem
    rw [Numeral.toList_toString_int] at hmem
    exact absurd ((Numeral.ofInt_valid n).isPart_chars _ hmem) (by decide)
  have hright : ¬Fence.right ⟨.bar, 0⟩ <:+: (toString n).toList :=
    fun hoccurs => hbar (hoccurs.subset (by simp [Fence.right, Delimiter.closing]))
  have hwrap : Fence.wrap ⟨.bar, 0⟩ "@" (toString n) = "@|" ++ toString n ++ "|" := rfl
  have hvalue : Value.render [.int n] = toString n := by
    simp [Value.render, Value.flatten, Value.leaves, Value.text, Value.isNothing]
  rw [← hwrap, render_barred rfl hright (Phrase.evaluate_toString_int h)]
  exact congrArg _ hvalue

/-- The text of an integer that fits renders to itself as a phrase between bars. Digits in options
are one number: the integer that they write where it fits, and otherwise a finite binary64 number,
which is the nearest one below `2 ^ 64`, or from there on the error that they are out of range. -/
theorem integers_exact :
    (∀ n : Int, Number.fits n = true → render ("@|" ++ toString n ++ "|") = .ok (toString n)) ∧
    ∀ n : Nat,
      (parse .standard ("@f[" ++ toString n ++ "]") =
          .ok (Block.ofOption (toString n).utf8ByteSize (.int n)) ↔ n < Nat.pow 2 63) ∧
      (Nat.pow 2 63 ≤ n →
        (∃ x : Binary64, x.isFinite = true ∧ (n < Nat.pow 2 64 → x = .ofInt n) ∧
          parse .standard ("@f[" ++ toString n ++ "]") =
            .ok (Block.ofOption (toString n).utf8ByteSize (.float x))) ∨
        (Nat.pow 2 64 ≤ n ∧
          parse .standard ("@f[" ++ toString n ++ "]") =
            .error (Flaw.toError ("@f[" ++ toString n ++ "]")
              ⟨.numberOutOfRange (toString n) (toString n).length, 3⟩))) := by
  refine ⟨fun n => render_toString_int, fun n => ?_⟩
  rw [parse_digits, Number.ofNumeral_ofInt]
  by_cases hfits : Number.fits n = true
  · have hlt := Number.fits_natCast_iff.1 hfits
    rw [if_pos hfits]
    exact ⟨iff_of_true rfl hlt, fun hge => absurd hlt (Nat.not_lt.2 hge)⟩
  · have hge : ¬n < Nat.pow 2 63 := mt Number.fits_natCast_iff.2 hfits
    rw [if_neg hfits]
    cases hread : (Numeral.ofInt n).read with
    | ok x =>
      refine ⟨iff_of_false ?_ hge, fun _ => .inl ⟨x, Numeral.isFinite_of_read hread, ?_, rfl⟩⟩
      · simp [Except.map, Block.ofOption]
      · intro hlt
        rw [Numeral.read_ofInt hlt] at hread
        exact (Except.ok.inj hread).symm
    | error column =>
      have hcolumn : column = (toString n).length := by
        rw [Numeral.column_of_read_ofInt hread, ← String.length_toList]
        exact congrArg List.length (Numeral.toList_toString_int n).symm
      refine ⟨iff_of_false nofun hge, fun _ => .inr ⟨?_, ?_⟩⟩
      · apply Nat.le_of_not_lt
        intro hlt
        rw [Numeral.read_ofInt hlt] at hread
        cases hread
      · simp only [Except.map, hcolumn]

/-- The ends of the range. -/
theorem integers_exact_ends :
    render "@|-9223372036854775808|" = .ok "-9223372036854775808" ∧
      parse .standard "@f[9223372036854775807]" =
        .ok (Block.ofOption 19 (.int 9223372036854775807)) ∧
      parse .standard "@f[9223372036854775808]" =
        .ok (Block.ofOption 19 (.float (.ofInt 9223372036854775808))) := by
  have hleast : toString (-9223372036854775808 : Int) = "-9223372036854775808" := by decide +kernel
  have hlast : toString (9223372036854775807 : Nat) = "9223372036854775807" := by decide +kernel
  have hbeyond : toString (9223372036854775808 : Nat) = "9223372036854775808" := by decide +kernel
  have hrender := integers_exact.1 (-9223372036854775808) (by decide)
  have hint := (integers_exact.2 9223372036854775807).1.2 (by decide)
  have hfloat := (integers_exact.2 9223372036854775808).2 (by decide)
  rw [hleast] at hrender
  rw [hlast] at hint
  rw [hbeyond] at hfloat
  rcases hfloat with ⟨x, -, hx, hfloat⟩ | ⟨hge, -⟩
  · rw [hx (by decide)] at hfloat
    exact ⟨hrender, hint, hfloat⟩
  · exact absurd hge (by decide)

end Prosemark
