import Prosemark.Proofs.Completeness
import Prosemark.Proofs.Schedule

/-!
# The order in which commands are visited

Of two commands that stand apart in a source, a run that enters no direct callable evaluates and
applies the one before it evaluates the other (`run_visits_in_order`). The first of them is the one
that stands first, but for one case: a command in the options of some command stands before those
in its body, and is visited after them.

The spans of a parsed tree carry the proof. The events of a part of the tree have offsets in its
extent, so that the events of two parts differ, and an event leads back to the part that it is of
(`Visits`).
-/

namespace Prosemark

open scoped List

/-! ## The commands of a tree -/

mutual

/-- The commands in a fragment, in the order in which they start. -/
def Fragment.commands : Fragment → List Command
  | .text _ => []
  | .command c => c.commands
  | .block b => b.commands

def Block.commands : Block → List Command
  | ⟨_, children, _⟩ => Fragment.allCommands children

/-- The commands in some fragments. -/
def Fragment.allCommands : List Fragment → List Command
  | [] => []
  | f :: fs => f.commands ++ Fragment.allCommands fs

/-- The command itself, those in its options and those in its body. -/
def Command.commands : Command → List Command
  | ⟨span, phrase, phraseEnclosing, options, body⟩ =>
    ⟨span, phrase, phraseEnclosing, options, body⟩ ::
      (Group.optionCommands options ++ Body.optionCommands body)

/-- The commands in the options of a command, if it has any. -/
def Group.optionCommands : Option Group → List Command
  | none => []
  | some g => g.commands

/-- The commands in the body of a command, if it has one. -/
def Body.optionCommands : Option Body → List Command
  | none => []
  | some body => body.commands

def Body.commands : Body → List Command
  | .block b => b.commands
  | .text _ => []

def Group.commands : Group → List Command
  | ⟨_, children⟩ => Token.allCommands children

/-- The commands in some tokens. -/
def Token.allCommands : List Token → List Command
  | [] => []
  | t :: ts => t.commands ++ Token.allCommands ts

def Token.commands : Token → List Command
  | .identifier _ _ => []
  | .operator _ _ => []
  | .number _ _ => []
  | .group g => g.commands
  | .block b => b.commands
  | .text _ => []
  | .command c => c.commands

end

theorem Command.commands_eq (c : Command) :
    c.commands = c :: (Group.optionCommands c.options ++ Body.optionCommands c.body) := by
  obtain ⟨span, phrase, e, options, body⟩ := c
  rw [commands]

theorem Command.mem_commands_iff {c d : Command} :
    d ∈ c.commands ↔ d = c ∨ d ∈ Group.optionCommands c.options ∨
      d ∈ Body.optionCommands c.body := by
  rw [commands_eq, List.mem_cons, List.mem_append]

/-- The offset that the event is logged with. -/
def Event.offset : Event → Nat
  | .evaluated _ offset => offset
  | .applied _ offset => offset
  | .entered _ offset => offset

namespace Command

/-- The evaluation of the phrase. -/
def visit (c : Command) : Event :=
  .evaluated c.phrase c.span.start

/-- The application of what the command calls, unless it is bare. -/
def application (c : Command) : List Event :=
  if c.isBare then [] else [.applied c.phrase c.span.start]

/-- What is done for the command itself. -/
def events (c : Command) : List Event :=
  c.visit :: c.application

/-- One command stands in the options of the command and the other one in its body. -/
def Splits (c first second : Command) : Prop :=
  (∃ g ∈ c.options, g.span.contains first.span = true) ∧
    ∃ body ∈ c.body, body.span.contains second.span = true

end Command

/-! ## Lists of events -/

/-- What comes before an event comes before it in each beginning of the list that has the event. -/
theorem sublist_of_prefix {l p s : List Event} {e : Event} (h : l ++ [e] <+ s) (hp : p <+: s)
    (he : e ∈ p) (hs : s.Nodup) : l ++ [e] <+ p := by
  obtain ⟨r, rfl⟩ := hp
  obtain ⟨l₁, l₂, heq, h₁, h₂⟩ := List.sublist_append_iff.1 h
  rcases List.eq_nil_or_concat l₂ with rfl | ⟨l₃, d, rfl⟩
  · rw [heq, List.append_nil]
    exact h₁
  · rw [List.concat_eq_append] at heq h₂
    rw [← List.append_assoc] at heq
    obtain ⟨-, hd⟩ := List.append_inj' heq rfl
    obtain rfl := List.singleton_inj.1 hd
    have hr : e ∈ r := h₂.subset (by simp)
    exact absurd rfl ((List.nodup_append.1 hs).2.2 e he e hr)

/-- The two commands are visited in the order in which they stand, or in the opposite order if one
of the commands has the first in its options and the second in its body. -/
def InOrder (commands : List Command) (events : List Event) (first second : Command) : Prop :=
  ((¬∃ c ∈ commands, c.Splits first second) → first.events ++ [second.visit] <+ events) ∧
    ((∃ c ∈ commands, c.Splits first second) → second.events ++ [first.visit] <+ events)

/-- The events and the commands of a part of a tree that stands from `a` to `b`. -/
structure Visits (events : List Event) (commands : List Command) (a b : Nat) : Prop where
  le : a ≤ b
  nodup : events.Nodup
  events_within : ∀ e ∈ events, a ≤ e.offset ∧ e.offset < b
  commands_within : ∀ c ∈ commands,
    a ≤ c.span.start ∧ c.span.start < c.span.stop ∧ c.span.stop ≤ b
  splits_within : ∀ c ∈ commands, ∀ first second, c.Splits first second →
    a ≤ first.span.start ∧ second.span.stop ≤ b
  events_sublist : ∀ c ∈ commands, c.visit ∈ events → c.events <+ events
  inOrder : ∀ first ∈ commands, ∀ second ∈ commands, first.span.stop ≤ second.span.start →
    first.visit ∈ events → second.visit ∈ events → InOrder commands events first second

namespace Visits

variable {events more whole : List Event} {commands others all : List Command} {a b c d : Nat}

theorem nil (h : a ≤ b) : Visits [] [] a b := by
  constructor <;> simp [h]

theorem widen (h : Visits events commands b c) (hab : a ≤ b) (hcd : c ≤ d) :
    Visits events commands a d where
  le := by have := h.le; omega
  nodup := h.nodup
  events_within e he := by have := h.events_within e he; omega
  commands_within c hc := by have := h.commands_within c hc; omega
  splits_within c hc first second hs := by
    have := h.splits_within c hc first second hs
    omega
  events_sublist := h.events_sublist
  inOrder := h.inOrder

/-- The whole that a part belongs to has its events and its commands, and no others there. -/
structure Part (events : List Event) (commands : List Command) (a b : Nat) (whole : List Event)
    (all : List Command) : Prop extends Visits events commands a b where
  sublist : events <+ whole
  subset : ∀ c ∈ commands, c ∈ all
  mem_of_offset : ∀ e ∈ whole, a ≤ e.offset → e.offset < b → e ∈ events
  mem_of_splits : ∀ c ∈ all, ∀ first ∈ commands, ∀ second ∈ commands, c.Splits first second →
    c ∈ commands

namespace Part

variable (h : Part events commands a b whole all)

include h

theorem visit_mem {c : Command} (hc : c ∈ commands) (hv : c.visit ∈ whole) : c.visit ∈ events := by
  obtain ⟨hstart, hlt, hstop⟩ := h.commands_within c hc
  exact h.mem_of_offset _ hv hstart (Nat.lt_of_lt_of_le hlt hstop)

theorem events_sublist_whole {c : Command} (hc : c ∈ commands) (hv : c.visit ∈ whole) :
    c.events <+ events :=
  h.events_sublist c hc (h.visit_mem hc hv)

theorem inOrder_whole {first second : Command} (hf : first ∈ commands) (hs : second ∈ commands)
    (hapart : first.span.stop ≤ second.span.start) (hvf : first.visit ∈ whole)
    (hvs : second.visit ∈ whole) : InOrder all whole first second := by
  obtain ⟨hin, hopposite⟩ :=
    h.inOrder first hf second hs hapart (h.visit_mem hf hvf) (h.visit_mem hs hvs)
  refine ⟨fun hno => (hin ?_).trans h.sublist, fun hsplits => (hopposite ?_).trans h.sublist⟩
  · rintro ⟨c, hc, hsplits⟩
    exact hno ⟨c, h.subset c hc, hsplits⟩
  · obtain ⟨c, hc, hsplits⟩ := hsplits
    exact ⟨c, h.mem_of_splits c hc first hf second hs hsplits, hsplits⟩

end Part

section Append

variable (h₁ : Visits events commands a b) (h₂ : Visits more others b c)

include h₁ h₂

theorem nodup_append : (events ++ more).Nodup := by
  refine List.nodup_append.2 ⟨h₁.nodup, h₂.nodup, ?_⟩
  rintro e he _ he' rfl
  have := h₁.events_within e he
  have := h₂.events_within e he'
  omega

theorem left_part : Part events commands a b (events ++ more) (commands ++ others) := by
  refine ⟨h₁, List.sublist_append_left _ _, fun c hc => List.mem_append_left _ hc, ?_, ?_⟩
  · intro e he _ hlt
    refine (List.mem_append.1 he).resolve_right fun he => ?_
    have := h₂.events_within e he
    omega
  · intro c hc first hf second _ hsplits
    refine (List.mem_append.1 hc).resolve_right fun hc => ?_
    have := h₂.splits_within c hc first second hsplits
    have := h₁.commands_within first hf
    omega

theorem right_part : Part more others b c (events ++ more) (commands ++ others) := by
  refine ⟨h₂, List.sublist_append_right _ _, fun c hc => List.mem_append_right _ hc, ?_, ?_⟩
  · intro e he hle _
    refine (List.mem_append.1 he).resolve_left fun he => ?_
    have := h₁.events_within e he
    omega
  · intro c hc first _ second hs hsplits
    refine (List.mem_append.1 hc).resolve_left fun hc => ?_
    have := h₁.splits_within c hc first second hsplits
    have := h₂.commands_within second hs
    omega

/-- What is in the first part is visited before what is in the second. -/
theorem inOrder_append {first second : Command} (hf : first ∈ commands) (hs : second ∈ others)
    (hvf : first.visit ∈ events ++ more) (hvs : second.visit ∈ events ++ more) :
    InOrder (commands ++ others) (events ++ more) first second := by
  refine ⟨fun _ => ?_, ?_⟩
  · have hfirst := (left_part h₁ h₂).events_sublist_whole hf hvf
    have hsecond := (right_part h₁ h₂).visit_mem hs hvs
    exact hfirst.append (List.singleton_sublist.2 hsecond)
  · -- no command has one of them in its options and the other in its body
    rintro ⟨d, hd, hsplits⟩
    have := h₁.commands_within first hf
    have := h₂.commands_within second hs
    rcases List.mem_append.1 hd with hd | hd
    · have := h₁.splits_within d hd first second hsplits
      omega
    · have := h₂.splits_within d hd first second hsplits
      omega

/-- Two parts, one after the other. -/
theorem append : Visits (events ++ more) (commands ++ others) a c := by
  have left := left_part h₁ h₂
  have right := right_part h₁ h₂
  have h₁' := h₁.widen (Nat.le_refl a) h₂.le
  have h₂' := h₂.widen h₁.le (Nat.le_refl c)
  refine ⟨Nat.le_trans h₁.le h₂.le, nodup_append h₁ h₂, ?_, ?_, ?_, ?_, ?_⟩
  · exact List.forall_mem_append.2 ⟨h₁'.events_within, h₂'.events_within⟩
  · exact List.forall_mem_append.2 ⟨h₁'.commands_within, h₂'.commands_within⟩
  · exact List.forall_mem_append.2 ⟨h₁'.splits_within, h₂'.splits_within⟩
  · intro c hc hv
    rcases List.mem_append.1 hc with hc | hc
    · exact (left.events_sublist_whole hc hv).trans left.sublist
    · exact (right.events_sublist_whole hc hv).trans right.sublist
  · intro first hf second hs hapart hvf hvs
    rcases List.mem_append.1 hf with hf | hf <;> rcases List.mem_append.1 hs with hs | hs
    · exact left.inOrder_whole hf hs hapart hvf hvs
    · exact inOrder_append h₁ h₂ hf hs hvf hvs
    · have := h₂.commands_within first hf
      have := h₁.commands_within second hs
      omega
    · exact right.inOrder_whole hf hs hapart hvf hvs

end Append

end Visits

/-! ## Commands -/

theorem Group.mem_optionCommands {o : Option Group} {d : Command} :
    d ∈ Group.optionCommands o ↔ ∃ g ∈ o, d ∈ g.commands := by
  cases o <;> simp [Group.optionCommands]

theorem Body.mem_optionCommands {o : Option Body} {d : Command} :
    d ∈ Body.optionCommands o ↔ ∃ body ∈ o, d ∈ body.commands := by
  cases o <;> simp [Body.optionCommands]

namespace Command

variable {c : Command} {j k : Nat}

/-- The phrase comes first and the application last. -/
theorem schedule_eq_append (c : Command) :
    c.schedule = c.visit ::
      (Body.optionSchedule c.body ++ Group.optionSchedule c.options ++ c.application) := by
  rw [schedule_eq, visit, application]
  cases hbare : c.isBare with
  | false => rfl
  | true =>
    rw [eq_of_isBare hbare]
    rfl

theorem offset_of_mem_application {e : Event} (h : e ∈ c.application) :
    e.offset = c.span.start ∧ e ≠ c.visit := by
  unfold application at h
  split at h
  · cases h
  · obtain rfl := List.mem_singleton.1 h
    exact ⟨rfl, by simp [visit]⟩

/-- The parts of the command stand in its span one after the other, the options up to `k`. -/
structure Parts (c : Command) (j k : Nat) : Prop where
  start_lt : c.span.start < j
  options : Visits (Group.optionSchedule c.options) (Group.optionCommands c.options) j k
  body : Visits (Body.optionSchedule c.body) (Body.optionCommands c.body) k c.span.stop
  group_within : ∀ g ∈ c.options, j ≤ g.span.start ∧ g.span.stop ≤ k ∧
    ∀ d ∈ g.commands, g.span.contains d.span = true
  body_within : ∀ body ∈ c.body, k ≤ body.span.start ∧ body.span.stop ≤ c.span.stop ∧
    ∀ d ∈ body.commands, body.span.contains d.span = true

namespace Parts

variable (h : c.Parts j k)

include h

theorem splits {first second : Command} (hf : first ∈ Group.optionCommands c.options)
    (hs : second ∈ Body.optionCommands c.body) : c.Splits first second := by
  obtain ⟨g, hg, hf⟩ := Group.mem_optionCommands.1 hf
  obtain ⟨body, hbody, hs⟩ := Body.mem_optionCommands.1 hs
  exact ⟨⟨g, hg, (h.group_within g hg).2.2 first hf⟩,
    body, hbody, (h.body_within body hbody).2.2 second hs⟩

theorem of_splits {first second : Command} (hsplits : c.Splits first second) :
    j ≤ first.span.start ∧ first.span.stop ≤ k ∧ k ≤ second.span.start ∧
      second.span.stop ≤ c.span.stop := by
  obtain ⟨⟨g, hg, hf⟩, body, hbody, hs⟩ := hsplits
  have := h.group_within g hg
  have := h.body_within body hbody
  rw [Span.contains_iff] at hf hs
  omega

omit h in
theorem mem_schedule {e : Event} (he : e ∈ c.schedule) :
    e.offset = c.span.start ∨ e ∈ Body.optionSchedule c.body ∨
      e ∈ Group.optionSchedule c.options := by
  rw [schedule_eq_append, List.mem_cons, List.mem_append, List.mem_append] at he
  rcases he with rfl | (he | he) | he
  · exact .inl rfl
  · exact .inr (.inl he)
  · exact .inr (.inr he)
  · exact .inl (offset_of_mem_application he).1

theorem options_part : Visits.Part (Group.optionSchedule c.options)
    (Group.optionCommands c.options) j k c.schedule c.commands := by
  have hj := h.start_lt
  refine ⟨h.options, ?_, ?_, ?_, ?_⟩
  · rw [schedule_eq_append]
    exact ((List.sublist_append_right _ _).trans (List.sublist_append_left _ _)).cons _
  · exact fun d hd => mem_commands_iff.2 (.inr (.inl hd))
  · intro e he hle hlt
    rcases mem_schedule he with ho | he | he
    · omega
    · have := h.body.events_within e he
      omega
    · exact he
  · intro d hd first hf second hs hsplits
    have := h.options.commands_within first hf
    have := h.options.commands_within second hs
    rcases mem_commands_iff.1 hd with rfl | hd | hd
    · have := h.of_splits hsplits
      omega
    · exact hd
    · have := h.body.splits_within d hd first second hsplits
      omega

theorem body_part : Visits.Part (Body.optionSchedule c.body) (Body.optionCommands c.body) k
    c.span.stop c.schedule c.commands := by
  have hj := h.start_lt
  have hk := h.options.le
  refine ⟨h.body, ?_, ?_, ?_, ?_⟩
  · rw [schedule_eq_append]
    exact ((List.sublist_append_left _ _).trans (List.sublist_append_left _ _)).cons _
  · exact fun d hd => mem_commands_iff.2 (.inr (.inr hd))
  · intro e he hle hlt
    rcases mem_schedule he with ho | he | he
    · omega
    · exact he
    · have := h.options.events_within e he
      omega
  · intro d hd first hf second hs hsplits
    have := h.body.commands_within first hf
    have := h.body.commands_within second hs
    rcases mem_commands_iff.1 hd with rfl | hd | hd
    · have := h.of_splits hsplits
      omega
    · have := h.options.splits_within d hd first second hsplits
      omega
    · exact hd

theorem nodup_schedule : c.schedule.Nodup := by
  have hj := h.start_lt
  have hk := h.options.le
  have hparts : (Body.optionSchedule c.body ++ Group.optionSchedule c.options).Nodup :=
    List.perm_append_comm.nodup (h.options.nodup_append h.body)
  have hfar : ∀ e ∈ Body.optionSchedule c.body ++ Group.optionSchedule c.options,
      e.offset ≠ c.span.start := by
    intro e he
    rcases List.mem_append.1 he with he | he
    · have := h.body.events_within e he
      omega
    · have := h.options.events_within e he
      omega
  have happlication : c.application.Nodup := by
    unfold application
    split <;> simp
  rw [schedule_eq_append]
  refine List.nodup_cons.2 ⟨?_, List.nodup_append.2 ⟨hparts, happlication, ?_⟩⟩
  · rw [List.mem_append]
    rintro (he | he)
    · exact hfar _ he rfl
    · exact (offset_of_mem_application he).2 rfl
  · rintro e he _ he' rfl
    exact hfar e he (offset_of_mem_application he').1

/-- What is in the body is visited before what is in the options. -/
theorem inOrder_of_splits {first second : Command} (hf : first ∈ Group.optionCommands c.options)
    (hs : second ∈ Body.optionCommands c.body) (hvf : first.visit ∈ c.schedule)
    (hvs : second.visit ∈ c.schedule) : InOrder c.commands c.schedule first second := by
  have hself : c ∈ c.commands := mem_commands_iff.2 (.inl rfl)
  refine ⟨fun hno => absurd ⟨c, hself, h.splits hf hs⟩ hno, fun _ => ?_⟩
  · have hsecond := h.body_part.events_sublist_whole hs hvs
    have hfirst := List.singleton_sublist.2 (h.options_part.visit_mem hf hvf)
    rw [schedule_eq_append]
    exact ((hsecond.append hfirst).trans (List.sublist_append_left _ _)).cons _

theorem visits : Visits c.schedule c.commands c.span.start c.span.stop := by
  have hj := h.start_lt
  have hk := h.options.le
  have hstop := h.body.le
  have hoptions := h.options.widen (Nat.le_of_lt hj) hstop
  have hbody := h.body.widen (Nat.le_trans (Nat.le_of_lt hj) hk) (Nat.le_refl _)
  refine ⟨by omega, h.nodup_schedule, ?_, ?_, ?_, ?_, ?_⟩
  · intro e he
    rcases mem_schedule he with ho | he | he
    · omega
    · exact hbody.events_within e he
    · exact hoptions.events_within e he
  · intro d hd
    rcases mem_commands_iff.1 hd with rfl | hd | hd
    · omega
    · exact hoptions.commands_within d hd
    · exact hbody.commands_within d hd
  · intro d hd first second hsplits
    rcases mem_commands_iff.1 hd with rfl | hd | hd
    · have := h.of_splits hsplits
      omega
    · exact hoptions.splits_within d hd first second hsplits
    · exact hbody.splits_within d hd first second hsplits
  · intro d hd hv
    rcases mem_commands_iff.1 hd with rfl | hd | hd
    · rw [schedule_eq_append, events]
      exact (List.sublist_append_right _ _).cons_cons _
    · exact (h.options_part.events_sublist_whole hd hv).trans h.options_part.sublist
    · exact (h.body_part.events_sublist_whole hd hv).trans h.body_part.sublist
  · intro first hf second hs hapart hvf hvs
    rcases mem_commands_iff.1 hf with rfl | hf | hf <;>
      rcases mem_commands_iff.1 hs with rfl | hs | hs
    · omega
    · have := h.options.commands_within second hs
      omega
    · have := h.body.commands_within second hs
      omega
    · have := h.options.commands_within first hf
      omega
    · exact h.options_part.inOrder_whole hf hs hapart hvf hvs
    · exact h.inOrder_of_splits hf hs hvf hvs
    · have := h.body.commands_within first hf
      omega
    · have := h.body.commands_within first hf
      have := h.options.commands_within second hs
      omega
    · exact h.body_part.inOrder_whole hf hs hapart hvf hvs

end Parts

end Command

/-! ## Trees -/

section Trees

variable {sw : Switch} {source : String} {a b : Nat}

theorem Visits.contains {events : List Event} {commands : List Command} {s : Span}
    (h : Visits events commands s.start s.stop) : ∀ c ∈ commands, s.contains c.span = true := by
  intro c hc
  have := h.commands_within c hc
  rw [Span.contains_iff]
  omega

mutual

theorem Fragment.visits : ∀ (f : Fragment) {a b : Nat}, f.Fills sw source a b →
    Visits f.schedule f.commands a b
  | .text t, _, _, h => .nil ((Fragment.text t).sits h).reaches.le
  | .command c, _, _, h => by
    obtain ⟨hv, rfl, rfl⟩ := Command.visits c h
    exact hv
  | .block block, _, _, ⟨i, hswitch, h⟩ => by
    obtain ⟨hv, hstart, hstop⟩ := Block.visits block h
    exact hv.widen (Nat.le_trans hswitch.le hstart) hstop

theorem Fragment.visitsAll : ∀ (fs : List Fragment) {a b : Nat}, Fragment.Tile sw source fs a b →
    Visits (Fragment.schedules fs) (Fragment.allCommands fs) a b
  | [], _, _, h => .nil (Nat.le_of_eq h)
  | f :: fs, _, _, ⟨_, hf, h⟩ => (Fragment.visits f hf).append (Fragment.visitsAll fs h)

theorem Block.visits : ∀ (block : Block) {a b : Nat}, block.Fills sw source a b →
    Visits block.schedule block.commands block.span.start block.span.stop ∧
      a ≤ block.span.start ∧ block.span.stop ≤ b
  | ⟨_, children, _⟩, _, _, ⟨⟨hleft, hright⟩, h⟩ =>
    ⟨Fragment.visitsAll children h, hleft.le, hright.le⟩

theorem Command.visits : ∀ (c : Command) {a b : Nat}, c.Fills sw source a b →
    Visits c.schedule c.commands c.span.start c.span.stop ∧ c.span.start = a ∧ c.span.stop = b
  | ⟨span, phrase, e, options, body⟩, a, b,
      ⟨hspan, i, place, j, k, hswitch, hphrase, ho, hb⟩ => by
    obtain rfl : span = ⟨a, b⟩ := hspan
    obtain ⟨hvo, hgroup⟩ := Group.visitsOption options ho
    obtain ⟨hvb, hbody⟩ := Body.visitsOption body hb
    have hlt : a < j := by
      have hpos := Char.utf8Size_pos sw.char
      have hi := hswitch.stop_eq
      have hij := (Text.sits hphrase).reaches.le
      rw [Switch.text, String.toList_singleton, width_cons, width_nil] at hi
      omega
    have hparts : Command.Parts ⟨⟨a, b⟩, phrase, e, options, body⟩ j k :=
      ⟨hlt, hvo, hvb, hgroup, hbody⟩
    exact ⟨hparts.visits, rfl, rfl⟩

theorem Group.visitsOption : ∀ (o : Option Group) {a b : Nat},
    Group.FillsOption sw source o a b →
      Visits (Group.optionSchedule o) (Group.optionCommands o) a b ∧
        ∀ g ∈ o, a ≤ g.span.start ∧ g.span.stop ≤ b ∧
          ∀ d ∈ g.commands, g.span.contains d.span = true
  | none, _, _, h => ⟨.nil (Nat.le_of_eq h), nofun⟩
  | some g, _, _, h => by
    obtain ⟨hv, hstart, hstop⟩ := Group.visits g h
    refine ⟨hv.widen hstart hstop, ?_⟩
    rintro _ ⟨⟩
    exact ⟨hstart, hstop, hv.contains⟩

theorem Body.visitsOption : ∀ (o : Option Body) {a b : Nat}, Body.FillsOption sw source o a b →
    Visits (Body.optionSchedule o) (Body.optionCommands o) a b ∧
      ∀ body ∈ o, a ≤ body.span.start ∧ body.span.stop ≤ b ∧
        ∀ d ∈ body.commands, body.span.contains d.span = true
  | none, _, _, h => ⟨.nil (Nat.le_of_eq h), nofun⟩
  | some (.block block), _, _, h => by
    obtain ⟨hv, hstart, hstop⟩ := Block.visits block h
    refine ⟨hv.widen hstart hstop, ?_⟩
    rintro _ ⟨⟩
    exact ⟨hstart, hstop, hv.contains⟩
  | some (.text t), _, _, h => by
    have hsits := Text.sits h
    refine ⟨.nil hsits.reaches.le, ?_⟩
    rintro _ ⟨⟩
    exact ⟨hsits.start_le, hsits.stop_le, nofun⟩

theorem Group.visits : ∀ (g : Group) {a b : Nat}, g.Fills sw source a b →
    Visits g.schedule g.commands g.span.start g.span.stop ∧ a ≤ g.span.start ∧ g.span.stop ≤ b
  | ⟨_, children⟩, _, _, ⟨hleft, h, hright⟩ =>
    ⟨Token.visitsAll children h, hleft.le, hright.le⟩

theorem Token.visitsAll : ∀ (ts : List Token) {a b : Nat}, Token.Spread sw source ts a b →
    Visits (Token.schedules ts) (Token.allCommands ts) a b
  | [], _, _, ⟨_, hblank, _⟩ => .nil hblank.le
  | t :: ts, _, _, ⟨_, _, ⟨_, hblank, _⟩, ht, h⟩ =>
    ((Token.visits t ht).append (Token.visitsAll ts h)).widen hblank.le (Nat.le_refl _)

theorem Token.visits : ∀ (t : Token) {a b : Nat}, t.Fills sw source a b →
    Visits t.schedule t.commands a b
  | .identifier _ _, _, _, h => .nil h.2.le
  | .operator _ _, _, _, h => .nil h.2.le
  | .number span value, _, _, h => .nil ((Token.number span value).sits h).reaches.le
  | .group g, _, _, h => by
    obtain ⟨hv, hstart, hstop⟩ := Group.visits g h
    exact hv.widen hstart hstop
  | .block block, _, _, h => by
    obtain ⟨i, hi, h⟩ := h
    obtain ⟨hv, hstart, hstop⟩ := Block.visits block h
    refine hv.widen (Nat.le_trans ?_ hstart) hstop
    rcases hi with rfl | hswitch
    · exact Nat.le_refl _
    · exact hswitch.le
  | .text t, _, _, h => .nil ((Token.text t).sits h).reaches.le
  | .command c, _, _, h => by
    obtain ⟨hv, rfl, rfl⟩ := Command.visits c h
    exact hv

end

end Trees

/-! ## Runs of documents -/

/-- A host with two functions on the environment: `set` binds `x` to the first argument, and any
other one gives what `x` is bound to. Its plain functions give their first argument. -/
def Host.memory : Host :=
  { Host.none with
    apply := fun _ _ args => .ok (args.positional.headD .nothing)
    applyInEnv := fun code _ env args =>
      if code = "set" then (.ok .nothing, env.insert "x" (args.positional.headD .nothing))
      else (.ok ((env.get? "x").getD .nothing), env) }

/-- The standard environment with the functions of the host. -/
def State.memory : State :=
  .ofEnv (((Environment.standard.insert "f" (.function ⟨"first", .given 0⟩)).insert "set"
    (.wrapper (.normalWithEnv ⟨"set", .given 1⟩))).insert "get"
      (.wrapper (.normalWithEnv ⟨"get", .given 2⟩)))

/-- Of two commands that stand apart, one after the other, a run that visits both and enters no
direct callable evaluates and applies the first before it evaluates the second, or the second before
it evaluates the first if these are in the body and in the options of one command. -/
theorem run_visits_in_order {host : Host} (hhost : host.Extends) {sw : Switch} {source : String}
    {tree : Block} (h : parse sw source = .ok tree) (state : State) {new : List Event}
    (hlog : (run host sw source state).2.log.toList = state.log.toList ++ new)
    (hentered : ∀ e ∈ new, e.isEntered = false) {first second : Command}
    (hfirst : first ∈ tree.commands) (hsecond : second ∈ tree.commands)
    (hapart : first.span.stop ≤ second.span.start) (hvf : first.visit ∈ new)
    (hvs : second.visit ∈ new) :
    new.Nodup ∧
      ((¬∃ c ∈ tree.commands, c.Splits first second) → first.events ++ [second.visit] <+ new) ∧
      ((∃ c ∈ tree.commands, c.Splits first second) → second.events ++ [first.visit] <+ new) := by
  obtain ⟨new', hlog', hnew⟩ := run_follows hhost h state
  obtain rfl : new' = new := List.append_cancel_left (hlog'.symm.trans hlog)
  obtain ⟨hpre, -⟩ : new' <+: tree.schedule ∧ _ := by
    refine hnew.resolve_left ?_
    rintro ⟨e, he, hyes⟩
    exact Bool.false_ne_true ((hentered e he).symm.trans hyes)
  obtain ⟨⟨-, -, htile⟩, -⟩ := parse_eq_ok_iff_laidOut.1 h
  obtain ⟨span, children, e⟩ := tree
  have hvisits := Fragment.visitsAll children htile
  obtain ⟨hin, hopposite⟩ := hvisits.inOrder first hfirst second hsecond hapart
    (hpre.subset hvf) (hpre.subset hvs)
  refine ⟨hvisits.nodup.sublist hpre.sublist, fun hno => ?_, fun hsplits => ?_⟩
  · exact sublist_of_prefix (hin hno) hpre hvs hvisits.nodup
  · exact sublist_of_prefix (hopposite hsplits) hpre hvf hvisits.nodup

theorem run_visits_in_order_set_get :
    ∃ (tree : Block) (set get : Command), parse .standard "@set[1]@get[1]" = .ok tree ∧
      set ∈ tree.commands ∧ get ∈ tree.commands ∧ set.span = ⟨0, 7⟩ ∧ get.span = ⟨7, 14⟩ ∧
      ∃ new, (run .memory .standard "@set[1]@get[1]" .memory).2.log.toList = [] ++ new ∧
        new.Nodup ∧ set.events ++ [get.visit] <+ new := by
  have hhost : Host.memory.Extends := fun _ _ _ _ => List.prefix_rfl
  have hsome : (parse .standard "@set[1]@get[1]").toOption.any (fun tree => decide
      (tree.commands.map (fun c => (c.visit, c.span, c.body.isNone)) =
        [(.evaluated "set" 0, ⟨0, 7⟩, true), (.evaluated "get" 7, ⟨7, 14⟩, true)])) = true := by
    decide +kernel
  have hlog : (run .memory .standard "@set[1]@get[1]" .memory).2.log.toList =
      State.memory.log.toList ++ [.evaluated "set" 0, .applied "set" 0, .evaluated "get" 7,
        .applied "get" 7] := by
    decide +kernel
  obtain ⟨tree, htree, hcommands⟩ := exists_tree_of hsome
  obtain ⟨set, _, hall, hset, htail⟩ := List.map_eq_cons_iff.1 hcommands
  obtain ⟨get, _, rfl, hget, hnil⟩ := List.map_eq_cons_iff.1 htail
  obtain rfl := List.map_eq_nil_iff.1 hnil
  simp only [Prod.mk.injEq, Option.isNone_iff_eq_none] at hset hget
  obtain ⟨hset, hsetspan, hsetbody⟩ := hset
  obtain ⟨hget, hgetspan, hgetbody⟩ := hget
  have hmem : set ∈ tree.commands ∧ get ∈ tree.commands := by simp [hall]
  obtain ⟨hnodup, hin, -⟩ := run_visits_in_order hhost htree .memory hlog (by decide) hmem.1 hmem.2
    (by simp [hsetspan, hgetspan]) (by simp [hset]) (by simp [hget])
  refine ⟨tree, set, get, htree, hmem.1, hmem.2, hsetspan, hgetspan, _, hlog, hnodup, hin ?_⟩
  -- neither command has a body
  rintro ⟨c, hc, -, body, hbody, -⟩
  rw [hall, List.mem_cons, List.mem_singleton] at hc
  rcases hc with rfl | rfl
  · simp [hsetbody] at hbody
  · simp [hgetbody] at hbody

/-- The value that is set in the options is not there yet where the body gets it. -/
theorem run_visits_body_first :
    ∃ (tree : Block) (set get : Command),
      parse .standard "@f[@set[1]]\x7b@get[1]\x7d" = .ok tree ∧
      set ∈ tree.commands ∧ get ∈ tree.commands ∧ set.span.stop ≤ get.span.start ∧
      (run .memory .standard "@f[@set[1]]\x7b@get[1]\x7d" .memory).2.log.toList =
        [.evaluated "f" 0, get.visit, .applied "get" 12, set.visit, .applied "set" 3,
          .applied "f" 0] ∧
      ((run .memory .standard "@f[@set[1]]\x7b@get[1]\x7d" .memory).1.map Value.render).toOption =
        some "" := by
  have hsome : (parse .standard "@f[@set[1]]\x7b@get[1]\x7d").toOption.any (fun tree => decide
      (tree.commands.map (fun c => (c.visit, c.span)) = [(.evaluated "f" 0, ⟨0, 20⟩),
        (.evaluated "set" 3, ⟨3, 10⟩), (.evaluated "get" 12, ⟨12, 19⟩)])) = true := by
    decide +kernel
  obtain ⟨tree, htree, hcommands⟩ := exists_tree_of hsome
  obtain ⟨f, _, hall, -, htail⟩ := List.map_eq_cons_iff.1 hcommands
  obtain ⟨set, _, rfl, hset, htail⟩ := List.map_eq_cons_iff.1 htail
  obtain ⟨get, _, rfl, hget, -⟩ := List.map_eq_cons_iff.1 htail
  obtain ⟨hset, hsetspan⟩ := Prod.mk.inj hset
  obtain ⟨hget, hgetspan⟩ := Prod.mk.inj hget
  refine ⟨tree, set, get, htree, by simp [hall], by simp [hall], ?_, ?_, by decide +kernel⟩
  · rw [hsetspan, hgetspan]
    decide
  · rw [hset, hget]
    decide +kernel

end Prosemark
