import Prosemark.Document

/-!
# Laws of runs

What a run gives in a state, and the state after it. A run that fails keeps the state which it
failed in, and runs nothing more.

Runs add to the log (`Run.Extends`). A run follows a list of events if these are what it logs
(`Run.Follows`), and the events of a run that is made of others are theirs, one after the other
(`Run.Follows.bind`).
-/

namespace Prosemark

/-! ## Results and states -/

namespace Run

variable {α β : Type}

theorem run_bind (x : Run α) (f : α → Run β) (s : State) :
    (x >>= f).run.run s =
      match x.run.run s with
      | (.ok a, s') => (f a).run.run s'
      | (.error e, s') => (.error e, s') := by
  rw [ExceptT.run_bind, StateT.run_bind]
  cases x.run.run s with
  | mk result s' => cases result <;> rfl

theorem run_fail (fault : RenderFault) (offset : Nat) (s : State) :
    (fail fault offset : Run α).run.run s = (.error (.render fault (.ofOffset offset)), s) :=
  rfl

theorem run_record (event : Event) (s : State) :
    (record event).run.run s = (.ok s.log.size, { s with log := s.log.push event }) :=
  rfl

theorem run_get (s : State) : (get : Run State).run.run s = (.ok s, s) :=
  rfl

theorem run_modify (g : State → State) (s : State) :
    (modify g : Run Unit).run.run s = (.ok (), g s) :=
  rfl

theorem run_ofResult (offset : Nat) (result : Except Failure α) (s : State) :
    (ofResult offset result).run.run s = (result.mapError (Failure.pin offset), s) := by
  cases result <;> rfl

end Run

/-- A source that is parsed is run by interpreting its tree; an error gets its position. -/
theorem run_of_parse {host : Host} {sw : Switch} {source : String} {tree : Block}
    (h : parse sw source = .ok tree) (s : State) :
    run host sw source s =
      (((tree.meaning host).run.run s).1.mapError (·.locate source),
        ((tree.meaning host).run.run s).2) := by
  rw [run, h]
  rfl

/-- A source whose run succeeds is parsed, and its tree interpreted. -/
theorem exists_tree_of_run {host : Host} {sw : Switch} {source : String} {values : List Value}
    {s after : State}
    (h : run host sw source s = (.ok values, after)) :
    ∃ tree, parse sw source = .ok tree ∧ (tree.meaning host).run.run s = (.ok values, after) := by
  cases hp : parse sw source with
  | error e =>
    rw [run, hp] at h
    cases h
  | ok tree =>
    refine ⟨tree, rfl, ?_⟩
    rw [run_of_parse hp] at h
    generalize (tree.meaning host).run.run s = ends at h
    obtain ⟨result, last⟩ := ends
    cases result with
    | error e => cases h
    | ok all => exact h

theorem exists_values_of_render {p : Except Error (List Value) × State} {text : String}
    (h : (p.1.map Value.render).toOption = some text) :
    ∃ values, p = (.ok values, p.2) ∧ Value.render values = text := by
  obtain ⟨result, after⟩ := p
  cases result with
  | error e => cases h
  | ok values => exact ⟨values, rfl, Option.some.inj h⟩

/-! ## Runs that add to the log -/

/-- Whether a command was given to a direct callable. -/
def Event.isEntered : Event → Bool
  | .entered _ _ => true
  | _ => false

namespace Run

variable {α β : Type} {x : Run α} {f : α → Run β} {events more : List Event}

/-- What was logged before the run is still there after it. -/
def Extends (x : Run α) : Prop :=
  ∀ s, s.log.toList <+: (x.run.run s).2.log.toList

theorem Extends.bind (hx : x.Extends) (hf : ∀ a, (f a).Extends) : (x >>= f).Extends := by
  intro s
  have h := hx s
  rw [run_bind]
  cases hr : x.run.run s with
  | mk result s' =>
    rw [hr] at h
    cases result with
    | error e => exact h
    | ok a => exact h.trans (hf a s')

/-- Unless it enters a direct callable, the run logs the events in order: all of them if it
succeeds, the first ones if it fails. -/
def Follows (x : Run α) (events : List Event) : Prop :=
  ∀ s, ∃ new, (x.run.run s).2.log.toList = s.log.toList ++ new ∧
    ((∃ e ∈ new, e.isEntered = true) ∨
      new <+: events ∧ ∀ a, (x.run.run s).1 = .ok a → new = events)

theorem Follows.extends (h : x.Follows events) : x.Extends := by
  intro s
  obtain ⟨new, hlog, -⟩ := h s
  exact ⟨new, hlog.symm⟩

theorem follows_nil (h : ∀ s, (x.run.run s).2.log = s.log) : x.Follows [] := by
  intro s
  refine ⟨[], ?_, .inr ⟨List.prefix_rfl, fun _ _ => rfl⟩⟩
  rw [h, List.append_nil]

theorem follows_pure (a : α) : (pure a : Run α).Follows [] :=
  follows_nil fun _ => rfl

theorem follows_ofResult (offset : Nat) (result : Except Failure α) :
    (ofResult offset result).Follows [] :=
  follows_nil fun _ => rfl

theorem follows_fail (fault : RenderFault) (offset : Nat) (events : List Event) :
    (fail fault offset : Run α).Follows events := by
  intro s
  refine ⟨[], (List.append_nil _).symm, .inr ⟨List.nil_prefix, ?_⟩⟩
  intro a ha
  rw [run_fail] at ha
  cases ha

theorem follows_record (event : Event) : (record event).Follows [event] := by
  intro s
  refine ⟨[event], ?_, .inr ⟨List.prefix_rfl, fun _ _ => rfl⟩⟩
  rw [run_record]
  exact Array.toList_push

theorem Follows.bind (hx : x.Follows events) (hf : ∀ a, (f a).Follows more) :
    (x >>= f).Follows (events ++ more) := by
  intro s
  obtain ⟨new, hlog, hnew⟩ := hx s
  rw [run_bind]
  cases hr : x.run.run s with
  | mk result s' =>
    rw [hr] at hlog hnew
    cases result with
    | error e =>
      refine ⟨new, hlog, hnew.imp_right ?_⟩
      rintro ⟨hpre, -⟩
      exact ⟨hpre.trans (List.prefix_append _ _), fun _ h => by cases h⟩
    | ok a =>
      obtain ⟨rest, hlog', hrest⟩ := hf a s'
      refine ⟨new ++ rest, ?_, ?_⟩
      · rw [hlog', hlog, List.append_assoc]
      · rcases hnew with ⟨e, he, hentered⟩ | ⟨-, hall⟩
        · exact .inl ⟨e, List.mem_append_left _ he, hentered⟩
        · obtain rfl := hall a rfl
          rcases hrest with ⟨e, he, hentered⟩ | ⟨hpre, hall⟩
          · exact .inl ⟨e, List.mem_append_right _ he, hentered⟩
          · refine .inr ⟨List.prefix_append_right_inj _ |>.2 hpre, fun b hb => ?_⟩
            rw [hall b hb]

theorem Follows.bind_nil (hx : x.Follows events) (hf : ∀ a, (f a).Follows []) :
    (x >>= f).Follows events := by
  have h := hx.bind hf
  rwa [List.append_nil] at h

theorem Follows.nil_bind (hx : x.Follows []) (hf : ∀ a, (f a).Follows events) :
    (x >>= f).Follows events :=
  hx.bind hf

theorem log_of_entered {phrase : String} {offset : Nat} {f : Nat → Run β}
    (hf : ∀ n, (f n).Extends) (s : State) :
    ∃ rest, ((record (.entered phrase offset) >>= f).run.run s).2.log.toList =
      s.log.toList ++ .entered phrase offset :: rest := by
  rw [run_bind, run_record]
  obtain ⟨rest, hrest⟩ := hf s.log.size { s with log := s.log.push (.entered phrase offset) }
  refine ⟨rest, ?_⟩
  rw [← hrest, Array.toList_push, List.append_assoc, List.singleton_append]

/-- A run that enters a direct callable follows any events. -/
theorem follows_of_entered {phrase : String} {offset : Nat} {f : Nat → Run β}
    (hf : ∀ n, (f n).Extends) (events : List Event) :
    (record (.entered phrase offset) >>= f).Follows events := by
  intro s
  obtain ⟨rest, hrest⟩ := log_of_entered hf s
  exact ⟨_, hrest, .inl ⟨_, List.mem_cons_self, rfl⟩⟩

end Run

end Prosemark
