import Prosemark.Proofs.Account
import Prosemark.Proofs.JsonText

/-!
# Trees read back from JSON

A tree whose data can be stored (`Block.Storable`) is read back from its JSON text, the spans and
the kinds of its numbers included (`Block.ofJsonText?_toJsonText`). An object of fields with
different names gives the fields in order (`Json.record?_object`), and one that starts with its kind
gives the kind and the fields (`Json.kind?_tagged`). By these every node is read back from its JSON
value, and the value, in which nothing is left out, from its text.
-/

namespace Prosemark

/-! ## Records -/

theorem mapM_map_eq_some {α β γ : Type} {f : β → Option γ} {g : α → β} {h : α → γ} {xs : List α}
    (hf : ∀ a ∈ xs, f (g a) = some (h a)) : (xs.map g).mapM f = some (xs.map h) := by
  induction xs with
  | nil => rfl
  | cons a xs ih =>
    obtain ⟨ha, hxs⟩ := List.forall_mem_cons.1 hf
    rw [List.map_cons, List.mapM_cons, ha, ih hxs]
    rfl

namespace Json

variable {names : List String} {fields : List (String × Json)}

theorem valuesOf_of_mem (hdistinct : (fields.map Prod.fst).Nodup) {field : String × Json}
    (h : field ∈ fields) : valuesOf field.1 fields = [field.2] := by
  unfold valuesOf
  induction fields with
  | nil => cases h
  | cons first rest ih =>
    rw [List.map_cons, List.nodup_cons] at hdistinct
    obtain ⟨hfirst, hrest⟩ := hdistinct
    rcases List.mem_cons.1 h with rfl | h
    · have hnone : rest.filter (fun other => other.1 == field.1) = [] := by
        refine List.filter_eq_nil_iff.2 fun other hother heq => hfirst ?_
        rw [← beq_iff_eq.1 heq]
        exact List.mem_map_of_mem hother
      rw [List.filter_cons, if_pos BEq.rfl, hnone]
      rfl
    · have hne : ¬ (first.1 == field.1) = true := by
        intro heq
        rw [beq_iff_eq.1 heq] at hfirst
        exact hfirst (List.mem_map_of_mem h)
      rw [List.filter_cons, if_neg hne]
      exact ih hrest h

/-- An object whose fields have different names gives all of them. -/
theorem record?_object (hnames : fields.map Prod.fst = names) (hdistinct : names.Nodup) :
    record? names (.object fields) = some (fields.map fun field => some field.2) := by
  subst hnames
  unfold record?
  refine mapM_map_eq_some fun field hfield => ?_
  rw [valuesOf_of_mem hdistinct hfield]

/-- An object that starts with its kind gives it and the fields behind it. -/
theorem kind?_tagged {form : KindForm} {kinds : List String} {kind : String}
    (hnames : fields.map Prod.fst = names) (htype : "type" ∉ names)
    (hkind : kinds.contains kind = true) :
    (tagged kind fields).kind? form kinds = some (kind, .object fields) := by
  have hne : ∀ field ∈ fields, (field.1 == "type") = false := by
    intro field hfield
    refine beq_eq_false_iff_ne.2 fun heq => htype ?_
    rw [← hnames, ← heq]
    exact List.mem_map_of_mem hfield
  have hother : fields.filter (fun field => field.1 == "type") = [] :=
    List.filter_eq_nil_iff.2 fun field hfield => Bool.eq_false_iff.1 (hne field hfield)
  have hall : fields.filter (fun field => field.1 != "type") = fields :=
    List.filter_eq_self.2 fun field hfield => by rw [bne, hne field hfield]; rfl
  have honly : only? "type" (("type", .string kind) :: fields) = some (.string kind) := by
    unfold only? valuesOf
    rw [List.filter_cons, if_pos BEq.rfl, hother]
    rfl
  have hrest : (("type", Json.string kind) :: fields).filter (fun field => field.1 != "type") =
      fields := by
    rw [List.filter_cons, if_neg (by simp), hall]
  unfold tagged kind?
  simp only [honly, hrest, ofKinds?, hkind, Option.bind_eq_bind, Option.bind_some, if_true]
  rfl

theorem nat?_nat (n : Nat) : (Json.nat n).nat? = some n := by
  simp [nat?, nat]

end Json

theorem Span.ofJson?_toJson (s : Span) : Span.ofJson? s.toJson = some s := by
  unfold Span.ofJson? Span.toJson
  rw [Json.record?_object]
  · simp [Json.nat?_nat]
  · rfl
  · decide

theorem Enclosing.ofJson?_toJson (e : Enclosing) : Enclosing.ofJson? e.toJson = some e := by
  unfold Enclosing.ofJson? Enclosing.toJson
  rw [Json.record?_object]
  · rfl
  · rfl
  · decide

theorem Text.ofJson?_fields (t : Text) : Text.ofJson? (.object t.fields) = some t := by
  unfold Text.ofJson? Text.fields
  rw [Json.record?_object]
  · simp [Span.ofJson?_toJson, Enclosing.ofJson?_toJson, Json.string?]
  · rfl
  · decide

/-! ## Trees that can be stored -/

/-- Integers have 64 bits, and floating-point numbers are finite. -/
def Number.Storable : Number → Prop
  | .int n => fits n = true
  | .float x => x.isFinite = true

/-- Offsets have 64 bits. -/
def Span.Storable (s : Span) : Prop :=
  s.start < Nat.pow 2 64 ∧ s.stop < Nat.pow 2 64

/-- The value of a number. -/
def Token.value? : Token → Option Number
  | .number _ value => some value
  | _ => none

/-- The data of a node, apart from the nodes in it, can be stored. -/
def Token.Storable (t : Token) : Prop :=
  t.span.Storable ∧ ∀ value ∈ t.value?, value.Storable

/-- The data of all nodes can be stored. -/
def Block.Storable (b : Block) : Prop :=
  ∀ t ∈ b.nodes, t.Storable

instance : DecidablePred Number.Storable
  | .int n => inferInstanceAs (Decidable (Number.fits n = true))
  | .float x => inferInstanceAs (Decidable (x.isFinite = true))

instance : DecidablePred Span.Storable :=
  fun s => inferInstanceAs (Decidable (s.start < Nat.pow 2 64 ∧ s.stop < Nat.pow 2 64))

instance : DecidablePred Token.Storable :=
  fun t => inferInstanceAs (Decidable (t.span.Storable ∧ ∀ value ∈ t.value?, value.Storable))

instance : DecidablePred Block.Storable :=
  fun b => inferInstanceAs (Decidable (∀ t ∈ b.nodes, t.Storable))

theorem Number.number?_toJson {value : Number} (h : value.Storable) :
    (Json.number value).number? = some value := by
  cases value with
  | int n => exact congrArg some (if_pos h)
  | float x => rfl

/-! ## Nodes -/

namespace Json

theorem depth_tagged (kind : String) (fields : List (String × Json)) :
    (tagged kind fields).depth = Json.depthOfMembers fields + 1 := by
  unfold tagged
  rw [Json.depth, Json.depthOfMembers]
  simp [Json.depth]

end Json

theorem Text.map_fst_fields (t : Text) :
    t.fields.map Prod.fst = ["span", "inner", "enclosing"] :=
  rfl

theorem Block.map_fst_fields (b : Block) :
    b.fields.map Prod.fst = ["span", "children", "enclosing"] := by
  cases b
  rfl

theorem Command.map_fst_fields (c : Command) :
    c.fields.map Prod.fst = ["span", "phrase", "phrase_enclosing", "options", "main_arg"] := by
  cases c
  rfl

theorem Group.map_fst_fields (g : Group) : g.fields.map Prod.fst = ["span", "children"] := by
  cases g
  rfl

namespace Token

theorem atomOfJson?_identifier (span : Span) (name : String) :
    atomOfJson? "Identifier" (.object [("span", span.toJson), ("name", .string name)]) =
      some (.identifier span name) := by
  rw [atomOfJson?, if_pos rfl, Json.record?_object]
  · simp [Span.ofJson?_toJson, Json.string?]
  · rfl
  · decide

theorem atomOfJson?_operator (span : Span) (symbols : String) :
    atomOfJson? "Operator" (.object [("span", span.toJson), ("symbols", .string symbols)]) =
      some (.operator span symbols) := by
  rw [atomOfJson?, if_neg (by decide), if_pos rfl, Json.record?_object]
  · simp [Span.ofJson?_toJson, Json.string?]
  · rfl
  · decide

theorem atomOfJson?_number (span : Span) {value : Number} (h : value.Storable) :
    atomOfJson? "Number" (.object [("span", span.toJson), ("value", .number value)]) =
      some (.number span value) := by
  rw [atomOfJson?, if_neg (by decide), if_neg (by decide), if_pos rfl, Json.record?_object]
  · simp [Span.ofJson?_toJson, Number.number?_toJson h]
  · rfl
  · decide

end Token

section Nodes

variable {bound : Nat} {form : Json.KindForm} {span : Span} {children : List Fragment}
  {enclosing phraseEnclosing : Enclosing} {tokens : List Token} {phrase : String}
  {options : Option Group} {body : Option Body}

theorem Block.read?_of_children
    (h : (Fragment.listToJson children).mapM (Fragment.read? bound form) = some children) :
    Block.read? (bound + 1) form (.object (Block.fields ⟨span, children, enclosing⟩)) =
      some ⟨span, children, enclosing⟩ := by
  rw [Block.read?, Block.fields, Json.record?_object]
  · simp [Json.items?, h, Span.ofJson?_toJson, Enclosing.ofJson?_toJson]
  · rfl
  · decide

theorem Group.read?_of_children
    (h : (Token.listToJson tokens).mapM (Token.read? bound) = some tokens) :
    Group.read? (bound + 1) (.object (Group.fields ⟨span, tokens⟩)) = some ⟨span, tokens⟩ := by
  rw [Group.read?, Group.fields, Json.record?_object]
  · simp [Json.items?, h, Span.ofJson?_toJson]
  · rfl
  · decide

theorem Command.read?_of_parts
    (hoptions : Json.optional? (Group.read? bound) (some (Group.optionToJson options)) =
      some options)
    (hbody : Json.optional? (Body.read? bound) (some (Body.optionToJson body)) = some body) :
    Command.read? (bound + 1)
        (.object (Command.fields ⟨span, phrase, phraseEnclosing, options, body⟩)) =
      some ⟨span, phrase, phraseEnclosing, options, body⟩ := by
  rw [Command.read?, Command.fields, Json.record?_object]
  · simp [hoptions, hbody, Span.ofJson?_toJson, Enclosing.ofJson?_toJson, Json.string?]
  · rfl
  · decide

end Nodes

mutual

theorem Fragment.read?_toJson : ∀ f : Fragment, (∀ t ∈ f.nodes, t.Storable) →
    ∀ bound form, 2 * f.toJson.depth < bound → Fragment.read? bound form f.toJson = some f
  | .text t, _, bound + 1, form, _ => by
    rw [Fragment.read?, Fragment.toJson, Json.kind?_tagged t.map_fst_fields (by decide)]
    · simp [Text.ofJson?_fields]
    · decide
  | .command c, h, bound + 1, form, hbound => by
    rw [Fragment.toJson, Json.depth_tagged] at hbound
    have hc := Command.read?_fields c h bound (by omega)
    rw [Fragment.read?, Fragment.toJson, Json.kind?_tagged c.map_fst_fields (by decide)]
    · simp [hc]
    · decide
  | .block b, h, bound + 1, form, hbound => by
    rw [Fragment.toJson, Json.depth_tagged] at hbound
    have hb := Block.read?_fields b h bound .numbered (by omega)
    rw [Fragment.read?, Fragment.toJson, Json.kind?_tagged b.map_fst_fields (by decide)]
    · simp [hb]
    · decide

theorem Fragment.mapM_read?_listToJson : ∀ fs : List Fragment,
    (∀ t ∈ Fragment.allNodes fs, t.Storable) →
    ∀ bound form, 2 * Json.depthOfItems (Fragment.listToJson fs) < bound →
      (Fragment.listToJson fs).mapM (Fragment.read? bound form) = some fs
  | [], _, _, _, _ => rfl
  | f :: fs, h, bound, form, hbound => by
    rw [Fragment.allNodes, List.forall_mem_append] at h
    rw [Fragment.listToJson, Json.depthOfItems] at hbound
    have hf := Fragment.read?_toJson f h.1 bound form (by omega)
    have hfs := Fragment.mapM_read?_listToJson fs h.2 bound form (by omega)
    rw [Fragment.listToJson, List.mapM_cons, hf, hfs]
    rfl

theorem Block.read?_fields : ∀ b : Block, (∀ t ∈ b.nodes, t.Storable) →
    ∀ bound form, 2 * Json.depthOfMembers b.fields + 1 < bound →
      Block.read? bound form (.object b.fields) = some b
  | ⟨span, children, enclosing⟩, h, bound + 1, form, hbound => by
    rw [Block.nodes, List.forall_mem_cons] at h
    simp only [Block.fields, Json.depthOfMembers, Json.depth] at hbound
    exact Block.read?_of_children
      (Fragment.mapM_read?_listToJson children h.2 bound form (by omega))

theorem Command.read?_fields : ∀ c : Command, (∀ t ∈ c.nodes, t.Storable) →
    ∀ bound, 2 * Json.depthOfMembers c.fields + 1 < bound →
      Command.read? bound (.object c.fields) = some c
  | ⟨span, phrase, phraseEnclosing, options, body⟩, h, bound + 1, hbound => by
    rw [Command.nodes, List.forall_mem_cons, List.forall_mem_append] at h
    simp only [Command.fields, Json.depthOfMembers, Json.depth] at hbound
    exact Command.read?_of_parts
      (Group.optional?_optionToJson options h.2.1 bound (by omega))
      (Body.optional?_optionToJson body h.2.2 bound (by omega))

theorem Group.optional?_optionToJson : ∀ o : Option Group,
    (∀ t ∈ Group.optionNodes o, t.Storable) →
    ∀ bound, 2 * (Group.optionToJson o).depth < bound →
      Json.optional? (Group.read? bound) (some (Group.optionToJson o)) = some o
  | none, _, _, _ => rfl
  | some g, h, bound, hbound => by
    rw [Group.optionToJson, Json.depth] at hbound
    have hg := Group.read?_fields g h bound (by omega)
    exact congrArg (Option.map some) hg

theorem Body.optional?_optionToJson : ∀ o : Option Body,
    (∀ t ∈ Body.optionNodes o, t.Storable) →
    ∀ bound, 2 * (Body.optionToJson o).depth < bound →
      Json.optional? (Body.read? bound) (some (Body.optionToJson o)) = some o
  | none, _, _, _ => rfl
  | some (.block b), h, bound + 1, hbound => by
    rw [Body.optionToJson, Json.depth_tagged] at hbound
    have hb := Block.read?_fields b h bound .numbered (by omega)
    show (Body.read? (bound + 1) (.tagged "FragmentSeq" b.fields)).map some = _
    rw [Body.read?, Json.kind?_tagged b.map_fst_fields (by decide)]
    · simp [hb]
    · decide
  | some (.text t), _, bound + 1, _ => by
    show (Body.read? (bound + 1) (.tagged "Text" t.fields)).map some = _
    rw [Body.read?, Json.kind?_tagged t.map_fst_fields (by decide)]
    · simp [Text.ofJson?_fields]
    · decide

theorem Group.read?_fields : ∀ g : Group, (∀ t ∈ g.nodes, t.Storable) →
    ∀ bound, 2 * Json.depthOfMembers g.fields + 1 < bound →
      Group.read? bound (.object g.fields) = some g
  | ⟨span, children⟩, h, bound + 1, hbound => by
    rw [Group.nodes, List.forall_mem_cons] at h
    simp only [Group.fields, Json.depthOfMembers, Json.depth] at hbound
    exact Group.read?_of_children (Token.mapM_read?_listToJson children h.2 bound (by omega))

theorem Token.mapM_read?_listToJson : ∀ ts : List Token,
    (∀ t ∈ Token.allNodes ts, t.Storable) →
    ∀ bound, 2 * Json.depthOfItems (Token.listToJson ts) < bound →
      (Token.listToJson ts).mapM (Token.read? bound) = some ts
  | [], _, _, _ => rfl
  | t :: ts, h, bound, hbound => by
    rw [Token.allNodes, List.forall_mem_append] at h
    rw [Token.listToJson, Json.depthOfItems] at hbound
    have ht := Token.read?_toJson t h.1 bound (by omega)
    have hts := Token.mapM_read?_listToJson ts h.2 bound (by omega)
    rw [Token.listToJson, List.mapM_cons, ht, hts]
    rfl

theorem Token.read?_toJson : ∀ t : Token, (∀ u ∈ t.nodes, u.Storable) →
    ∀ bound, 2 * t.toJson.depth < bound → Token.read? bound t.toJson = some t
  | .identifier span name, _, bound + 1, _ => by
    have hnames : [("span", span.toJson), ("name", Json.string name)].map Prod.fst =
        ["span", "name"] := rfl
    rw [Token.read?, Token.toJson, Json.kind?_tagged hnames (by decide)]
    · exact Token.atomOfJson?_identifier span name
    · decide
  | .operator span symbols, _, bound + 1, _ => by
    have hnames : [("span", span.toJson), ("symbols", Json.string symbols)].map Prod.fst =
        ["span", "symbols"] := rfl
    rw [Token.read?, Token.toJson, Json.kind?_tagged hnames (by decide)]
    · exact Token.atomOfJson?_operator span symbols
    · decide
  | .number span value, h, bound + 1, _ => by
    have hvalue : value.Storable :=
      (h (.number span value) (List.mem_singleton.2 rfl)).2 value rfl
    have hnames : [("span", span.toJson), ("value", Json.number value)].map Prod.fst =
        ["span", "value"] := rfl
    rw [Token.read?, Token.toJson, Json.kind?_tagged hnames (by decide)]
    · exact Token.atomOfJson?_number span hvalue
    · decide
  | .group g, h, bound + 1, hbound => by
    rw [Token.toJson, Json.depth_tagged] at hbound
    have hg := Group.read?_fields g h bound (by omega)
    rw [Token.read?, Token.toJson, Json.kind?_tagged g.map_fst_fields (by decide)]
    · simp [hg]
    · decide
  | .block b, h, bound + 1, hbound => by
    rw [Token.toJson, Json.depth_tagged] at hbound
    have hb := Block.read?_fields b h bound .numbered (by omega)
    rw [Token.read?, Token.toJson, Json.kind?_tagged b.map_fst_fields (by decide)]
    · simp [hb]
    · decide
  | .text t, _, bound + 1, _ => by
    rw [Token.read?, Token.toJson, Json.kind?_tagged t.map_fst_fields (by decide)]
    · simp [Text.ofJson?_fields]
    · decide
  | .command c, h, bound + 1, hbound => by
    rw [Token.toJson, Json.depth_tagged] at hbound
    have hc := Command.read?_fields c h bound (by omega)
    rw [Token.read?, Token.toJson, Json.kind?_tagged c.map_fst_fields (by decide)]
    · simp [hc]
    · decide

end

/-! ## Texts -/

theorem Json.writable_nat {n : Nat} (h : n < Nat.pow 2 64) : (Json.nat n).Writable := by
  have hlower : -Int.pow 2 63 ≤ 0 := by decide
  have hupper : ((Nat.pow 2 64 : Nat) : Int) = Int.pow 2 64 := by decide
  refine ⟨Int.le_trans hlower (Int.natCast_nonneg n), ?_⟩
  rw [← hupper]
  exact Int.ofNat_lt.2 h

theorem Span.writable_toJson {s : Span} (h : s.Storable) : s.toJson.Writable :=
  ⟨Json.writable_nat h.1, Json.writable_nat h.2, trivial⟩

theorem Enclosing.writable_toJson (e : Enclosing) : e.toJson.Writable :=
  ⟨trivial, trivial, trivial⟩

theorem Text.writable_fields {t : Text} (h : t.span.Storable) : Json.MembersWritable t.fields :=
  ⟨Span.writable_toJson h, trivial, Enclosing.writable_toJson t.enclosing, trivial⟩

theorem Number.writable_number {value : Number} (h : value.Storable) :
    (Json.number value).Writable := by
  cases value with
  | int n =>
    obtain ⟨hlower, hupper⟩ := Bool.and_eq_true_iff.1 h
    have hpow : Int.pow 2 63 ≤ Int.pow 2 64 := by decide
    exact ⟨of_decide_eq_true hlower, Int.lt_of_lt_of_le (of_decide_eq_true hupper) hpow⟩
  | float x => exact h

mutual

theorem Fragment.writable_toJson : ∀ f : Fragment, (∀ t ∈ f.nodes, t.Storable) →
    f.toJson.Writable
  | .text t, h => ⟨trivial, Text.writable_fields (h (.text t) (List.mem_singleton.2 rfl)).1⟩
  | .command c, h => ⟨trivial, Command.writable_fields c h⟩
  | .block b, h => ⟨trivial, Block.writable_fields b h⟩

theorem Fragment.writable_listToJson : ∀ fs : List Fragment,
    (∀ t ∈ Fragment.allNodes fs, t.Storable) → Json.ItemsWritable (Fragment.listToJson fs)
  | [], _ => trivial
  | f :: fs, h => by
    rw [Fragment.allNodes, List.forall_mem_append] at h
    exact ⟨Fragment.writable_toJson f h.1, Fragment.writable_listToJson fs h.2⟩

theorem Block.writable_fields : ∀ b : Block, (∀ t ∈ b.nodes, t.Storable) →
    Json.MembersWritable b.fields
  | ⟨span, children, enclosing⟩, h => by
    rw [Block.nodes, List.forall_mem_cons] at h
    exact ⟨Span.writable_toJson h.1.1, Fragment.writable_listToJson children h.2,
      Enclosing.writable_toJson enclosing, trivial⟩

theorem Command.writable_fields : ∀ c : Command, (∀ t ∈ c.nodes, t.Storable) →
    Json.MembersWritable c.fields
  | ⟨span, phrase, phraseEnclosing, options, body⟩, h => by
    rw [Command.nodes, List.forall_mem_cons, List.forall_mem_append] at h
    exact ⟨Span.writable_toJson h.1.1, trivial, Enclosing.writable_toJson phraseEnclosing,
      Group.writable_optionToJson options h.2.1, Body.writable_optionToJson body h.2.2, trivial⟩

theorem Group.writable_optionToJson : ∀ o : Option Group,
    (∀ t ∈ Group.optionNodes o, t.Storable) → (Group.optionToJson o).Writable
  | none, _ => trivial
  | some g, h => Group.writable_fields g h

theorem Body.writable_optionToJson : ∀ o : Option Body,
    (∀ t ∈ Body.optionNodes o, t.Storable) → (Body.optionToJson o).Writable
  | none, _ => trivial
  | some (.block b), h => ⟨trivial, Block.writable_fields b h⟩
  | some (.text t), h =>
    ⟨trivial, Text.writable_fields (h (.text t) (List.mem_singleton.2 rfl)).1⟩

theorem Group.writable_fields : ∀ g : Group, (∀ t ∈ g.nodes, t.Storable) →
    Json.MembersWritable g.fields
  | ⟨span, children⟩, h => by
    rw [Group.nodes, List.forall_mem_cons] at h
    exact ⟨Span.writable_toJson h.1.1, Token.writable_listToJson children h.2, trivial⟩

theorem Token.writable_listToJson : ∀ ts : List Token,
    (∀ t ∈ Token.allNodes ts, t.Storable) → Json.ItemsWritable (Token.listToJson ts)
  | [], _ => trivial
  | t :: ts, h => by
    rw [Token.allNodes, List.forall_mem_append] at h
    exact ⟨Token.writable_toJson t h.1, Token.writable_listToJson ts h.2⟩

theorem Token.writable_toJson : ∀ t : Token, (∀ u ∈ t.nodes, u.Storable) → t.toJson.Writable
  | .identifier span name, h =>
    ⟨trivial, Span.writable_toJson (h (.identifier span name) (List.mem_singleton.2 rfl)).1,
      trivial, trivial⟩
  | .operator span symbols, h =>
    ⟨trivial, Span.writable_toJson (h (.operator span symbols) (List.mem_singleton.2 rfl)).1,
      trivial, trivial⟩
  | .number span value, h =>
    have hnode : (Token.number span value).Storable := h _ (List.mem_singleton.2 rfl)
    ⟨trivial, Span.writable_toJson hnode.1, Number.writable_number (hnode.2 value rfl),
      trivial⟩
  | .group g, h => ⟨trivial, Group.writable_fields g h⟩
  | .block b, h => ⟨trivial, Block.writable_fields b h⟩
  | .text t, h => ⟨trivial, Text.writable_fields (h (.text t) (List.mem_singleton.2 rfl)).1⟩
  | .command c, h => ⟨trivial, Command.writable_fields c h⟩

end

/-- What is wanted of a document leaves nothing out. -/
theorem Block.keptBy_wanted (b : Block) : b.toJson.KeptBy Block.wanted := by
  obtain ⟨span, children, enclosing⟩ := b
  refine ⟨⟨_, rfl, ?_⟩, ⟨_, rfl, Json.keptBy_all _⟩, ⟨_, rfl, ?_⟩, trivial⟩
  · exact ⟨⟨_, rfl, trivial⟩, ⟨_, rfl, trivial⟩, trivial⟩
  · exact ⟨⟨_, rfl, trivial⟩, ⟨_, rfl, trivial⟩, trivial⟩

/-- A document is read back from its JSON text, spans and the kinds of numbers included, if the
reader rounds to the nearest number and takes brackets that are nested as deep as those of the
text. -/
theorem Block.ofJsonText?_toJsonText {rounding : Json.Rounding} (hrounding : rounding.IsNearest)
    {b : Block} (h : b.Storable) {levels : Nat} (hlevels : b.toJson.depth ≤ levels) :
    Block.ofJsonText? rounding levels b.toJsonText = some b := by
  have hwritable : b.toJson.Writable := Block.writable_fields b h
  have hvalue := Json.readWanted?_pretty hrounding hwritable b.keptBy_wanted hlevels
  have hdepth : b.toJson.depth = Json.depthOfMembers b.fields + 1 := rfl
  have hread := Block.read?_fields b h (2 * b.toJson.depth + 1) .named (by omega)
  unfold Block.ofJsonText? Block.toJsonText
  rw [hvalue]
  exact hread

/-- A command whose options are an integer and a floating-point number of the same value, and whose
body is a block with a command in it. -/
def Block.twoOnes : Block :=
  ⟨⟨0, 16⟩,
    [.command ⟨⟨1, 16⟩, "f", .unfenced,
      some ⟨⟨3, 8⟩, [.number ⟨3, 4⟩ (.int 1), .number ⟨5, 8⟩ (.float (.ofInt 1))]⟩,
      some (.block ⟨⟨10, 15⟩,
        [.command ⟨⟨11, 15⟩, "g", .unfenced, none,
          some (.text ⟨⟨13, 14⟩, "\n\"", ⟨"#\"", "\"#"⟩⟩)⟩],
        ⟨"\x7b", "\x7d"⟩⟩)⟩],
    .unfenced⟩

theorem Block.ofJsonText?_twoOnes :
    Json.Rounding.nearest.IsNearest ∧ Block.twoOnes.Storable ∧ Block.twoOnes.toJson.depth = 8 ∧
      Block.ofJsonText? .nearest 8 Block.twoOnes.toJsonText = some Block.twoOnes := by
  have hstorable : Block.twoOnes.Storable := by decide +kernel
  have hdepth : Block.twoOnes.toJson.depth = 8 := by decide +kernel
  have hnearest := Json.Rounding.isNearest_nearest
  exact ⟨hnearest, hstorable, hdepth,
    Block.ofJsonText?_toJsonText hnearest hstorable (Nat.le_of_eq hdepth)⟩

end Prosemark
