import Prosemark.Proofs.Concatenation
import Prosemark.Proofs.Escaping
import Prosemark.Proofs.SpanIndependence

/-!
# Sources rendered one after the other

A source rendered after another one, in the environment that this leaves, gives the second half of
what both give as one source with a text between them (`run_append`). The text must not have the
switch in it, must not continue what stands before it, and must have no character of a line
continuation.

The fragments of the whole are those of the parts, with the prose on either side of the text put
together with it, and prose with such a text in it is joined line by line on either side alone. The
fragments of the second source stand further on, which shows in the places of errors only.
-/

namespace Prosemark

open Run

/-! ## Lines on both sides of a text -/

/-- The text with its continued lines joined. -/
def joinedText (text : String) : String :=
  String.ofList (joinLines text.length text.toList)

theorem Text.meaning_prose {t : Text} (h : t.isProse = true) :
    t.meaning = .string (joinedText t.inner) :=
  if_pos h

theorem Joined.joinedText_eq {text : String} {out : List Char} (h : Joined text.toList out) :
    joinedText text = String.ofList out := by
  rw [joinedText, ← String.length_toList, joined_iff.1 h]

theorem joined_joinedText (text : String) : Joined text.toList (joinedText text).toList := by
  rw [joinedText, String.toList_ofList, ← String.length_toList]
  exact joinLines_joined (Nat.le_refl _)

theorem joinedText_empty : joinedText "" = "" :=
  rfl

/-- The character is none of those that line continuations are made of. -/
def IsSolid (c : Char) : Prop :=
  c ≠ '\\' ∧ c ≠ '\n' ∧ isLineBlank c = false

theorem IsSolid.notMem {c : Char} (h : IsSolid c) (text : List Char) (ht : IsContinuation text) :
    c ∉ text := by
  obtain ⟨hbackslash, hnewline, hblank⟩ := h
  obtain ⟨before, after, rfl, hbefore, hafter⟩ := ht
  have hne {d : Char} (hd : isLineBlank d = true) : c ≠ d := by
    rintro rfl
    exact Bool.false_ne_true (hblank.symm.trans hd)
  simp only [List.mem_cons, List.mem_append, not_or]
  exact ⟨hbackslash, fun h => hne (hbefore c h) rfl, hnewline, fun h => hne (hafter c h) rfl⟩

section Lines

variable {w a b out more : List Char}

theorem Joined.solid_append (hw : ∀ c ∈ w, IsSolid c) (hb : Joined b more) :
    Joined (w ++ b) (w ++ more) := by
  induction w with
  | nil => exact hb
  | cons c w ih =>
    obtain ⟨hc, hw⟩ := List.forall_mem_cons.1 hw
    exact Joined.append_cons hc.notMem .nil (ih hw)

theorem Joined.append_solid_append (hne : w ≠ []) (hw : ∀ c ∈ w, IsSolid c) (ha : Joined a out)
    (hb : Joined b more) : Joined (a ++ (w ++ b)) (out ++ (w ++ more)) := by
  obtain ⟨c, cs, rfl⟩ := List.exists_cons_of_ne_nil hne
  obtain ⟨hc, hcs⟩ := List.forall_mem_cons.1 hw
  exact Joined.append_cons hc.notMem ha (.solid_append hcs hb)

end Lines

variable {w : String}

theorem joinedText_append (hne : w ≠ "") (hw : ∀ c ∈ w.toList, IsSolid c) (a b : String) :
    joinedText (a ++ (w ++ b)) = joinedText a ++ (w ++ joinedText b) := by
  have hjoined := Joined.append_solid_append (by simpa using hne) hw (joined_joinedText a)
    (joined_joinedText b)
  rw [← String.toList_append, ← String.toList_append] at hjoined
  rw [hjoined.joinedText_eq, String.ofList_append, String.ofList_append, String.ofList_toList,
    String.ofList_toList, String.ofList_toList]

/-! ## What fragments render to -/

/-- The text that some fragments render to. -/
def Fragment.rendered (host : Host) (fs : List Fragment) : Run String := do
  return Value.render (← Fragment.meanings host fs)

theorem Value.render_cons (v : Value) (vs : List Value) :
    render (if v.isNothing then vs else v :: vs) = render [v] ++ render vs := by
  cases h : v.isNothing <;> simp [render, flatten, h]

section Rendered

variable {host : Host} {f : Fragment} {fs gs : List Fragment} {t : Text}

theorem Fragment.rendered_nil : Fragment.rendered host [] = pure "" :=
  rfl

theorem Fragment.rendered_cons : Fragment.rendered host (f :: fs) = do
    let v ← f.meaning host
    let more ← Fragment.rendered host fs
    return Value.render [v] ++ more := by
  simp only [rendered, meanings, bind_assoc, pure_bind, Value.render_cons]

theorem Fragment.rendered_prose (h : t.isProse = true) : Fragment.rendered host (.text t :: fs) =
    (do return joinedText t.inner ++ (← Fragment.rendered host fs)) := by
  rw [rendered_cons, meaning, pure_bind, t.meaning_prose h, Value.render_string_cons,
    Value.render_nil, String.append_empty]

/-! ## Prose at a seam -/

theorem Fragment.attach_head (f : Fragment) (fs : List Fragment) :
    ∃ g gs, f.attach fs = g :: gs ∧ g.isProse = f.isProse := by
  rcases f.attach_cases fs with ⟨t, u, gs, rfl, -, -, -, heq⟩ | ⟨heq, -⟩
  · exact ⟨_, _, heq, rfl⟩
  · exact ⟨_, _, heq, rfl⟩

theorem Fragment.merge_head (f : Fragment) (fs : List Fragment) :
    ∃ g gs, Fragment.merge (f :: fs) = g :: gs ∧ g.isProse = f.isProse :=
  f.attach_head (Fragment.merge fs)

/-- Fragments with no adjacent prose stay as they are. -/
theorem Fragment.merge_of_normalAll {sw : Switch} {source : String} {closing : Option Fence}
    (h : Fragment.NormalAll sw source closing fs) : Fragment.merge fs = fs := by
  induction fs with
  | nil => rfl
  | cons f fs ih =>
    obtain ⟨-, hadjacent, h⟩ := h
    have hmerge : Fragment.merge (f :: fs) = f.attach fs := congrArg f.attach (ih h)
    rw [hmerge]
    rcases f.attach_cases fs with ⟨t, u, gs, rfl, rfl, ht, hu, -⟩ | ⟨heq, -⟩
    · have hprose := hadjacent ht (.text u) rfl
      exact absurd hu (by simpa [isProse] using hprose)
    · exact heq

variable (hne : w ≠ "") (hw : ∀ c ∈ w.toList, IsSolid c) (ht : t.isProse = true)
  (hinner : t.inner = w)

include ht hinner

/-- What stands after the text begins with the rest of the prose that the text is put together with,
which may be empty. -/
theorem Fragment.exists_attach (host : Host) (gs : List Fragment) :
    ∃ u more fs, Fragment.attach (.text t) gs = .text u :: fs ∧ u.isProse = true ∧
      u.inner = w ++ more ∧
      Fragment.rendered host gs = (do return joinedText more ++ (← Fragment.rendered host fs)) := by
  rcases Fragment.attach_cases (.text t) gs with ⟨t', u, fs, ht', rfl, -, hu, heq⟩ | ⟨heq, -⟩
  · cases ht'
    exact ⟨t.join u, u.inner, fs, heq, ht, by rw [Text.join, hinner], rendered_prose hu⟩
  · refine ⟨t, "", gs, heq, ht, by rw [hinner, String.append_empty], ?_⟩
    rw [joinedText_empty]
    simp

include hne hw

theorem Fragment.rendered_attach (gs : List Fragment) :
    Fragment.rendered host (Fragment.attach (.text t) gs) =
      (do return w ++ (← Fragment.rendered host gs)) := by
  obtain ⟨u, more, fs, heq, hu, hmore, hgs⟩ := Fragment.exists_attach ht hinner host gs
  have hjoined := joinedText_append hne hw "" more
  rw [String.empty_append, joinedText_empty, String.empty_append] at hjoined
  rw [heq, rendered_prose hu, hmore, hjoined, hgs]
  simp [String.append_assoc]

/-- Fragments on both sides of such a text render to what they render to alone. -/
theorem Fragment.rendered_merge {sw : Switch} {source : String} {closing : Option Fence}
    (hfs : Fragment.NormalAll sw source closing fs) (hgs : Fragment.merge gs = gs) :
    Fragment.rendered host (Fragment.merge (fs ++ .text t :: gs)) = (do
      let before ← Fragment.rendered host fs
      let after ← Fragment.rendered host gs
      return before ++ (w ++ after)) := by
  induction fs with
  | nil =>
    have hmerge : Fragment.merge (.text t :: gs) = Fragment.attach (.text t) gs :=
      congrArg (Fragment.attach (.text t)) hgs
    rw [List.nil_append, hmerge, Fragment.rendered_attach hne hw ht hinner]
    simp [rendered_nil]
  | cons f fs ih =>
    obtain ⟨-, hadjacent, hfs⟩ := hfs
    have hmerge : Fragment.merge (f :: fs ++ .text t :: gs) =
        f.attach (Fragment.merge (fs ++ .text t :: gs)) := rfl
    rw [hmerge]
    rcases f.attach_cases (Fragment.merge (fs ++ .text t :: gs)) with
      ⟨t', u, rest, rfl, hrest, ht', hu, heq⟩ | ⟨heq, -⟩
    · -- no prose follows that prose but the text, so that nothing stands between
      cases fs with
      | cons g fs =>
        obtain ⟨g', gs', hhead, hg⟩ := g.merge_head (fs ++ .text t :: gs)
        rw [List.cons_append, hhead] at hrest
        obtain ⟨rfl, -⟩ := List.cons.inj hrest
        have hprose := hadjacent ht' g rfl
        rw [← hg] at hprose
        exact absurd hu (by simpa [isProse] using hprose)
      | nil =>
        have hseam : Fragment.merge ([] ++ .text t :: gs) = Fragment.attach (.text t) gs :=
          congrArg (Fragment.attach (.text t)) hgs
        obtain ⟨v, more, fs, hv, -, hmore, hrendered⟩ :=
          Fragment.exists_attach ht hinner host gs
        rw [hseam, hv] at hrest
        obtain ⟨hvu, rfl⟩ := List.cons.inj hrest
        obtain rfl := Fragment.text.inj hvu
        have hjoinprose : (t'.join v).isProse = true := ht'
        have hjoin : (t'.join v).inner = t'.inner ++ (w ++ more) := by
          rw [Text.join, hmore]
        rw [heq, rendered_prose hjoinprose, hjoin, joinedText_append hne hw, rendered_prose ht',
          hrendered]
        simp [rendered_nil, String.append_assoc]
    · rw [heq, rendered_cons, ih hfs, rendered_cons]
      simp [String.append_assoc]

end Rendered

theorem Fragment.rendered_run {host : Host} {fs : List Fragment} {values : List Value}
    {s after : State} (h : (Fragment.meanings host fs).run.run s = (.ok values, after)) :
    (Fragment.rendered host fs).run.run s = (.ok (Value.render values), after) := by
  rw [rendered, run_bind, h]
  rfl

theorem Fragment.exists_meanings_run {host : Host} {fs : List Fragment} {text : String}
    {s after : State} (h : (Fragment.rendered host fs).run.run s = (.ok text, after)) :
    ∃ values, (Fragment.meanings host fs).run.run s = (.ok values, after) ∧
      Value.render values = text := by
  rw [rendered, run_bind] at h
  cases hr : (Fragment.meanings host fs).run.run s with
  | mk result s' =>
    rw [hr] at h
    cases result with
    | error e => cases h
    | ok values =>
      obtain ⟨htext, rfl⟩ := Prod.mk.inj h
      exact ⟨values, rfl, Except.ok.inj htext⟩

/-! ## Sources one after the other -/

section Sources

variable {host : Host} {sw : Switch} {s₁ w s₂ : String} {t₁ t₂ : Block}

theorem Block.meaning_children (tree : Block) :
    tree.meaning host = Fragment.meanings host tree.children := by
  cases tree
  rfl

/-- A source that renders where direct callables would stop its run enters none of them. -/
theorem entersControlOnly_of_run {source : String} {tree : Block} {stop : Error}
    {values : List Value} {s after : State} (hp : parse sw source = .ok tree)
    (h : run (host.stopDirect stop) sw source s = (.ok values, after)) :
    tree.EntersControlOnly host s := by
  obtain ⟨tree', hp', hrun⟩ := exists_tree_of_run h
  obtain rfl := Except.ok.inj (hp.symm.trans hp')
  refine Block.entersControlOnly_iff.2 ⟨stop, ?_⟩
  rw [hrun]
  simp

/-- The whole has the fragments of both sources, with the text between them. -/
theorem parse_seam (h₁ : parse sw s₁ = .ok t₁) (h₂ : parse sw s₂ = .ok t₂) (hne : w ≠ "")
    (hswitch : sw.char ∉ w.toList) (hseam : IsSeam w.toList) :
    ∃ tree, parse sw (s₁ ++ w ++ s₂) = .ok tree ∧
      tree.children = Fragment.merge (t₁.children ++
        .text ⟨⟨s₁.utf8ByteSize, (s₁ ++ w).utf8ByteSize⟩, w, .unfenced⟩ ::
          Fragment.carryAll ((s₁ ++ w).utf8ByteSize + ·) id t₂.children) := by
  obtain ⟨htile, hn⟩ := leading_stands h₁ hne hswitch hseam s₂
  obtain ⟨htile', hn'⟩ := trailing_stands h₂ (s₁ ++ w)
  have hall := htile.append htile'
  have hnall := List.forall_mem_append.2 ⟨hn, hn'⟩
  rw [List.append_assoc] at hall hnall
  exact ⟨⟨⟨0, (s₁ ++ w ++ s₂).utf8ByteSize⟩, _, .unfenced⟩,
    parse_of_laidOut ⟨rfl, rfl, Fragment.tile_merge hall⟩ (Fragment.normalAll_merge hnall), rfl⟩

theorem merge_carryAll_of_parse (h₂ : parse sw s₂ = .ok t₂) (before : String) :
    Fragment.merge (Fragment.carryAll (before.utf8ByteSize + ·) id t₂.children) =
      Fragment.carryAll (before.utf8ByteSize + ·) id t₂.children := by
  obtain ⟨⟨-, -, htile⟩, hn⟩ := parse_eq_ok_iff_laidOut.1 h₂
  exact Fragment.merge_of_normalAll
    (Transfer.fragments_within before "" isSeam_nil id htile hn hn.unbroken).2

/-- Where the run of a tree succeeds, so does that of the tree carried over, in a state with the
same environment. -/
theorem Block.EntersControlOnly.carried_run {tree : Block} {values : List Value}
    {s s' after : State} (h : tree.EntersControlOnly host s) (hhost : host.Functional)
    (henv : s.env = s'.env) (hrun : (tree.meaning host).run.run s = (.ok values, after))
    (place : Nat → Nat) :
    ∃ last, (Fragment.meanings host (Fragment.carryAll place id tree.children)).run.run s' =
        (.ok values, last) ∧ last.env = after.env := by
  obtain ⟨hresult, hafter⟩ := h.mirrored hhost henv place
  obtain ⟨span, children, e⟩ := tree
  rw [hrun] at hresult hafter
  rw [Block.carry, Block.meaning_children] at hresult hafter
  generalize (Fragment.meanings host _).run.run s' = ends at hresult hafter ⊢
  obtain ⟨result, last⟩ := ends
  cases hresult
  exact ⟨last, rfl, hafter.symm⟩

/-- Where a source renders, and a second one does from the environment that the first leaves, so
does the first one with a text and the second one after it: to the texts of both with that text
between them, and it leaves the environment that the second leaves. -/
theorem run_append (hhost : host.Functional) (hne : w ≠ "") (hswitch : sw.char ∉ w.toList)
    (hseam : IsSeam w.toList) (hw : ∀ c ∈ w.toList, IsSolid c) {values more : List Value}
    {s mid next after : State} (h₁ : run host sw s₁ s = (.ok values, mid))
    (henv : next.env = mid.env) (h₂ : run host sw s₂ next = (.ok more, after))
    (hcalls : ∀ tree, parse sw s₂ = .ok tree → tree.EntersControlOnly host next) :
    ∃ all last, run host sw (s₁ ++ w ++ s₂) s = (.ok all, last) ∧
      Value.render all = Value.render values ++ w ++ Value.render more ∧ last.env = after.env := by
  obtain ⟨t₁, hp₁, hr₁⟩ := exists_tree_of_run h₁
  obtain ⟨t₂, hp₂, hr₂⟩ := exists_tree_of_run h₂
  obtain ⟨tree, hp, hchildren⟩ := parse_seam hp₁ hp₂ hne hswitch hseam
  -- the fragments of the second source, moved, run as they do alone
  obtain ⟨last, hmoved, hlast⟩ :=
    (hcalls t₂ hp₂).carried_run hhost henv hr₂ ((s₁ ++ w).utf8ByteSize + ·)
  rw [Block.meaning_children] at hr₁
  have hrendered : (Fragment.rendered host tree.children).run.run s =
      (.ok (Value.render values ++ (w ++ Value.render more)), last) := by
    rw [hchildren, Fragment.rendered_merge hne hw rfl rfl (parse_eq_ok_iff_laidOut.1 hp₁).2
      (merge_carryAll_of_parse hp₂ (s₁ ++ w)), run_bind, Fragment.rendered_run hr₁]
    dsimp only
    rw [run_bind, Fragment.rendered_run hmoved]
    rfl
  obtain ⟨all, hall, htext⟩ := Fragment.exists_meanings_run hrendered
  refine ⟨all, last, ?_, ?_, hlast⟩
  · rw [run_of_parse hp, Block.meaning_children, hall]
    rfl
  · rw [htext, String.append_assoc]

end Sources

/-- The second source gets what the first one set, and the backslash and the newline, which the text
keeps apart, stay. -/
theorem run_append_set_get :
    ∃ tree values more all mid after last,
      run .memory .standard "a@set[1]\\" .memory = (.ok values, mid) ∧
      parse .standard "\nb@get[0]" = .ok tree ∧ tree.EntersControlOnly .memory mid ∧
      run .memory .standard "\nb@get[0]" mid = (.ok more, after) ∧
      Value.render values = "a\\" ∧ Value.render more = "\nb1" ∧
      run .memory .standard ("a@set[1]\\" ++ ";" ++ "\nb@get[0]") .memory = (.ok all, last) ∧
      Value.render all = "a\\;\nb1" ∧ last.env = after.env := by
  have hseam : IsSeam ";".toList := by
    rintro _ ⟨⟩
    decide
  have hsolid : IsSolid ';' := by
    unfold IsSolid
    decide
  have hw : ∀ c ∈ ";".toList, IsSolid c := List.forall_mem_singleton.2 hsolid
  have hfirst : ((run .memory .standard "a@set[1]\\" .memory).1.map Value.render).toOption =
      some "a\\" := by
    decide +kernel
  obtain ⟨values, h₁, hvalues⟩ := exists_values_of_render hfirst
  generalize hmid : (run .memory .standard "a@set[1]\\" .memory).2 = mid at h₁
  have hsecond : ((run .memory .standard "\nb@get[0]" mid).1.map Value.render).toOption =
      some "\nb1" := by
    rw [← hmid]
    decide +kernel
  obtain ⟨more, h₂, hmore⟩ := exists_values_of_render hsecond
  have hstopped : ((run (Host.memory.stopDirect .stopped) .standard "\nb@get[0]" mid).1.map
      Value.render).toOption = some "\nb1" := by
    rw [← hmid]
    decide +kernel
  obtain ⟨_, hstopped, -⟩ := exists_values_of_render hstopped
  have hcalls (tree) (htree : parse .standard "\nb@get[0]" = .ok tree) :
      tree.EntersControlOnly .memory mid :=
    entersControlOnly_of_run htree hstopped
  obtain ⟨tree, htree, -⟩ := exists_tree_of_run h₂
  obtain ⟨all, last, hrun, hall, henv⟩ :=
    run_append Host.memory_functional (by decide) (by decide) hseam hw h₁ rfl h₂ hcalls
  refine ⟨tree, values, more, all, _, _, last, h₁, htree, hcalls tree htree, h₂, hvalues, hmore,
    hrun, ?_, henv⟩
  rw [hall, hvalues, hmore]
  rfl

end Prosemark
