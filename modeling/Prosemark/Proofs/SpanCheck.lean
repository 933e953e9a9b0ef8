import Prosemark.Proofs.Layout
import Prosemark.Tree.SpanCheck

/-!
# Trees laid out over a source pass the span check

The check of spans asks for less than the layout: that each span cuts the source between
characters, lies within its parent and after its siblings, and covers the content of its node.
-/

namespace Prosemark

variable {sw : Switch} {source : String}

/-- Some text stands in the source from `a` to `b`. -/
def Reaches (source : String) (a b : Nat) : Prop :=
  ∃ text, Covers source a b text

theorem Covers.reaches {a b : Nat} {text : String} (h : Covers source a b text) :
    Reaches source a b :=
  ⟨text, h⟩

theorem Reaches.trans {a b c : Nat} (h₁ : Reaches source a b) (h₂ : Reaches source b c) :
    Reaches source a c := by
  obtain ⟨s, hs⟩ := h₁
  obtain ⟨t, ht⟩ := h₂
  exact ⟨s ++ t, hs.append ht⟩

theorem Reaches.covers_stop {a b : Nat} (h : Reaches source a b) : Covers source b b "" := by
  obtain ⟨s, hs⟩ := h
  obtain ⟨cur, next, hin, hp, rfl, rfl⟩ := covers_iff.1 hs
  exact (hin.passes hp).covers_ofList (.refl next)

theorem Reaches.stop_self {a b : Nat} (h : Reaches source a b) : Reaches source b b :=
  h.covers_stop.reaches

theorem Reaches.le {a b : Nat} (h : Reaches source a b) : a ≤ b := by
  obtain ⟨s, hs⟩ := h
  exact hs.le

/-! ## Single spans -/

namespace Span

theorem contains_iff {s t : Span} :
    s.contains t = true ↔ s.start ≤ t.start ∧ t.stop ≤ s.stop := by
  simp [contains]

variable {kind : Outline.Kind} {span parent : Span} {content : String}

theorem checked_eq_ok (h : Covers source span.start span.stop content)
    (hstart : parent.start ≤ span.start) (hstop : span.stop ≤ parent.stop) :
    span.checked source kind parent = .ok content := by
  have hslice : span.slice? source = some content := h
  rw [checked, if_pos ⟨h.le, h.stop_le⟩, hslice]
  simp [contains, hstart, hstop]

theorem check_eq_ok (h : Reaches source span.start span.stop)
    (hstart : parent.start ≤ span.start) (hstop : span.stop ≤ parent.stop) :
    span.check source kind parent = .ok () := by
  obtain ⟨content, hc⟩ := h
  rw [check, checked_eq_ok hc hstart hstop]
  rfl

theorem checkContent_eq_ok (h : Covers source span.start span.stop content)
    (hstart : parent.start ≤ span.start) (hstop : span.stop ≤ parent.stop) :
    span.checkContent source kind parent content = .ok () := by
  rw [checkContent, checked_eq_ok h hstart hstop]
  exact if_pos rfl

end Span

/-! ## Trees -/

/-- A node with the given span fills the source from `a` to `b` and passes its check within any
span around that. -/
structure Sits (source : String) (check : Span → Except SpanFault Unit) (span : Span)
    (a b : Nat) : Prop where
  reaches : Reaches source a b
  start_le : a ≤ span.start
  stop_le : span.stop ≤ b
  check_eq_ok {parent : Span} (hstart : parent.start ≤ a) (hstop : b ≤ parent.stop) :
    check parent = .ok ()

theorem Text.sits {t : Text} {a b : Nat} (h : t.Fills source a b) :
    Sits source (t.checkSpans source) t.span a b := by
  obtain ⟨⟨hleft, hright⟩, hinner⟩ := h
  refine ⟨(hleft.reaches.trans hinner.reaches).trans hright.reaches, hleft.le, hright.le, ?_⟩
  intro parent hstart hstop
  exact Span.checkContent_eq_ok hinner (Nat.le_trans hstart hleft.le)
    (Nat.le_trans hright.le hstop)

theorem sits_content {kind : Outline.Kind} {span : Span} {content : String} {a b : Nat}
    (hspan : span = ⟨a, b⟩) (h : Covers source a b content) :
    Sits source (fun parent => span.checkContent source kind parent content) span a b := by
  subst hspan
  refine ⟨h.reaches, Nat.le_refl _, Nat.le_refl _, ?_⟩
  intro parent hstart hstop
  exact Span.checkContent_eq_ok h hstart hstop

theorem Sits.precede {check : Span → Except SpanFault Unit} {span : Span} {a b i : Nat}
    (hi : Reaches source a i) (h : Sits source check span i b) : Sits source check span a b := by
  refine ⟨hi.trans h.reaches, Nat.le_trans hi.le h.start_le, h.stop_le, ?_⟩
  intro parent hstart hstop
  exact h.check_eq_ok (Nat.le_trans hstart hi.le) hstop

/-- Siblings fill the source from `a` to `b`, in order, and pass their checks within any span around
that. -/
structure SitInOrder (source : String) (overlap : Span → SpanFault)
    (check : Span → Except SpanFault Unit) (spans : List Span) (a b : Nat) : Prop where
  reaches : Reaches source a b
  order_eq_ok {reached : Nat} (h : reached ≤ a) : Span.checkOrder overlap reached spans = .ok ()
  check_eq_ok {parent : Span} (hstart : parent.start ≤ a) (hstop : b ≤ parent.stop) :
    check parent = .ok ()

section Siblings

variable {overlap : Span → SpanFault} {check checks : Span → Except SpanFault Unit} {span : Span}
  {spans : List Span} {a b i : Nat}

theorem SitInOrder.nil (h : Reaches source a b) :
    SitInOrder source overlap (fun _ => .ok ()) [] a b :=
  ⟨h, fun _ => rfl, fun _ _ => rfl⟩

theorem SitInOrder.cons (h : Sits source check span a i)
    (hs : SitInOrder source overlap checks spans i b) :
    SitInOrder source overlap (fun parent => do check parent; checks parent) (span :: spans)
      a b := by
  refine ⟨h.reaches.trans hs.reaches, ?_, ?_⟩
  · intro reached hreached
    rw [Span.checkOrder, if_pos (Nat.le_trans hreached h.start_le)]
    exact hs.order_eq_ok h.stop_le
  · intro parent hstart hstop
    simp only [h.check_eq_ok hstart (Nat.le_trans hs.reaches.le hstop),
      hs.check_eq_ok (Nat.le_trans hstart h.reaches.le) hstop]
    rfl

theorem SitInOrder.precede (hi : Reaches source a i)
    (h : SitInOrder source overlap check spans i b) :
    SitInOrder source overlap check spans a b :=
  ⟨hi.trans h.reaches, fun hr => h.order_eq_ok (Nat.le_trans hr hi.le),
    fun hstart hstop => h.check_eq_ok (Nat.le_trans hstart hi.le) hstop⟩

/-- A node sits where its children sit in its span and something stands on both sides of it. -/
theorem SitInOrder.sits {kind : Outline.Kind}
    (h : SitInOrder source overlap check spans span.start span.stop)
    (hleft : Reaches source a span.start) (hright : Reaches source span.stop b) :
    Sits source
      (fun parent => do
        span.check source kind parent
        Span.checkOrder overlap 0 spans
        check span) span a b := by
  refine ⟨(hleft.trans h.reaches).trans hright, hleft.le, hright.le, ?_⟩
  intro parent hstart hstop
  have hspan : span.check source kind parent = .ok () :=
    Span.check_eq_ok h.reaches (Nat.le_trans hstart hleft.le) (Nat.le_trans hright.le hstop)
  simp only [hspan, h.order_eq_ok (Nat.zero_le _), h.check_eq_ok (Nat.le_refl _) (Nat.le_refl _)]
  rfl

end Siblings

mutual

theorem Fragment.sits (f : Fragment) {a b : Nat} (h : f.Fills sw source a b) :
    Sits source (fun parent => f.checkSpans source parent) f.span a b := by
  cases f with
  | text t =>
    rw [Fragment.Fills] at h
    split at h
    · obtain ⟨hspan, hinner⟩ := h
      exact sits_content hspan hinner
    · obtain ⟨i, hswitch, ht⟩ := h
      exact (Text.sits ht).precede hswitch.reaches
  | command c => exact c.sits h
  | block block =>
    obtain ⟨i, hswitch, hb⟩ := h
    exact (block.sits hb).precede hswitch.reaches

theorem Fragment.sitInOrder (fs : List Fragment) {a b : Nat} (ha : Reaches source a a)
    (h : Fragment.Tile sw source fs a b) :
    SitInOrder source .fragmentsOverlap
      (fun parent => Fragment.checkSpansOfAll source parent fs) (fs.map Fragment.span) a b := by
  cases fs with
  | nil =>
    obtain rfl : a = b := h
    exact .nil ha
  | cons f fs =>
    obtain ⟨i, hf, hfs⟩ := h
    have hf := f.sits hf
    exact .cons hf (Fragment.sitInOrder fs hf.reaches.stop_self hfs)

theorem Block.sits (block : Block) {a b : Nat} (h : block.Fills sw source a b) :
    Sits source (fun parent => block.checkSpansIn source parent) block.span a b := by
  cases block with
  | mk span children enclosing =>
    obtain ⟨⟨hleft, hright⟩, htile⟩ := h
    have hchildren := Fragment.sitInOrder children hleft.reaches.stop_self htile
    exact hchildren.sits hleft.reaches hright.reaches

theorem Command.sits (c : Command) {a b : Nat} (h : c.Fills sw source a b) :
    Sits source (fun parent => c.checkSpans source parent) c.span a b := by
  cases c with
  | mk span phrase phraseEnclosing options body =>
    obtain ⟨rfl, i, place, j, k, hswitch, hphrase, hoptions, hbody⟩ := h
    have hj := hswitch.reaches.trans (Text.sits hphrase).reaches
    obtain ⟨hk, hoptions⟩ := Group.sits_option options hj.stop_self hoptions
    obtain ⟨hb, hbody⟩ := Body.sits_option body hk.stop_self hbody
    have hab := (hj.trans hk).trans hb
    refine ⟨hab, Nat.le_refl _, Nat.le_refl _, ?_⟩
    intro parent hstart hstop
    have hspan : Span.check source .command ⟨a, b⟩ parent = .ok () :=
      Span.check_eq_ok hab hstart hstop
    have hoptions := hoptions ⟨a, b⟩ hj.le hb.le
    have hbody := hbody ⟨a, b⟩ (Nat.le_trans hj.le hk.le) (Nat.le_refl _)
    simp only [Command.checkSpans, hspan, hoptions, hbody]
    rfl

theorem Group.sits_option (options : Option Group) {a b : Nat} (ha : Reaches source a a)
    (h : Group.FillsOption sw source options a b) :
    Reaches source a b ∧ ∀ parent : Span, parent.start ≤ a → b ≤ parent.stop →
      Group.checkSpansOfOption source parent options = .ok () := by
  cases options with
  | none =>
    obtain rfl : a = b := h
    exact ⟨ha, fun _ _ _ => rfl⟩
  | some g =>
    have hg := g.sits h
    exact ⟨hg.reaches, fun _ hstart hstop => hg.check_eq_ok hstart hstop⟩

theorem Body.sits_option (body : Option Body) {a b : Nat} (ha : Reaches source a a)
    (h : Body.FillsOption sw source body a b) :
    Reaches source a b ∧ ∀ parent : Span, parent.start ≤ a → b ≤ parent.stop →
      Body.checkSpansOfOption source parent body = .ok () := by
  cases body with
  | none =>
    obtain rfl : a = b := h
    exact ⟨ha, fun _ _ _ => rfl⟩
  | some body =>
    cases body with
    | block block =>
      have hb := block.sits h
      exact ⟨hb.reaches, fun _ hstart hstop => hb.check_eq_ok hstart hstop⟩
    | text t =>
      have ht := Text.sits h
      exact ⟨ht.reaches, fun _ hstart hstop => ht.check_eq_ok hstart hstop⟩

theorem Group.sits (g : Group) {a b : Nat} (h : g.Fills sw source a b) :
    Sits source (fun parent => g.checkSpans source parent) g.span a b := by
  cases g with
  | mk span children =>
    obtain ⟨hleft, hspread, hright⟩ := h
    have hchildren := Token.sitInOrder children hspread
    exact hchildren.sits hleft.reaches hright.reaches

theorem Token.sitInOrder (ts : List Token) {a b : Nat} (h : Token.Spread sw source ts a b) :
    SitInOrder source .tokensOverlap
      (fun parent => Token.checkSpansOfAll source parent ts) (ts.map Token.span) a b := by
  cases ts with
  | nil =>
    obtain ⟨blanks, hblanks, -⟩ := h
    exact .nil hblanks.reaches
  | cons t ts =>
    obtain ⟨i, j, ⟨blanks, hblanks, -⟩, ht, hts⟩ := h
    exact (SitInOrder.cons (t.sits ht) (Token.sitInOrder ts hts)).precede hblanks.reaches

theorem Token.sits (t : Token) {a b : Nat} (h : t.Fills sw source a b) :
    Sits source (fun parent => t.checkSpans source parent) t.span a b := by
  cases t with
  | identifier span name => exact sits_content h.1 h.2
  | operator span symbols => exact sits_content h.1 h.2
  | number span value =>
    obtain ⟨rfl, numeral, -, hcovers, -⟩ := h
    refine ⟨hcovers.reaches, Nat.le_refl _, Nat.le_refl _, ?_⟩
    intro parent hstart hstop
    exact Span.check_eq_ok hcovers.reaches hstart hstop
  | group g => exact g.sits h
  | block block =>
    obtain ⟨i, rfl | hswitch, hb⟩ := h
    · exact block.sits hb
    · exact (block.sits hb).precede hswitch.reaches
  | text t =>
    obtain ⟨i, rfl | hswitch, ht⟩ := h
    · exact Text.sits ht
    · exact (Text.sits ht).precede hswitch.reaches
  | command c => exact c.sits h

end

/-- A tree that is laid out over a source passes the span check. -/
theorem Block.LaidOut.checkSpans {tree : Block} (h : tree.LaidOut sw source) :
    tree.checkSpans source = .ok () := by
  obtain ⟨span, children, enclosing⟩ := tree
  obtain ⟨rfl, rfl, htile⟩ := h
  have hstart : Covers source 0 0 "" := (Cursor.start_in source).covers_ofList (.refl _)
  have hstop := (Fragment.sitInOrder children hstart.reaches htile).reaches.covers_stop
  have hfills : Block.Fills sw source ⟨⟨0, source.utf8ByteSize⟩, children, .unfenced⟩ 0
      source.utf8ByteSize := ⟨⟨hstart, hstop⟩, htile⟩
  exact (Block.sits _ hfills).check_eq_ok (Nat.le_refl _) (Nat.le_refl _)

end Prosemark
