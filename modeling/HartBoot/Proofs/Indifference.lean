import HartBoot.Proofs.Isolation
import HartBoot.Proofs.Messages
import HartBoot.Proofs.Reach

/-! # Diagnostics make no difference

Whatever consoles are registered, loggers installed and levels let through, harts that have a number
serve calls in the same way: they give the same answers, stop for the same reasons, and leave the
same registers, histories and memory behind. Only the text on the terminal tells one run from the
other. Putting the messages together is part of this: it reads the number of the hart at most, and
none of the arithmetic that it needs overflows.
-/

namespace HartBoot

namespace Cluster

variable {cluster left right : Cluster}

/-- A cluster with a terminal that lets nothing through. -/
def mute (cluster : Cluster) : Cluster := cluster.withTerminal {}

/-- The harts that serve calls in turn have numbers. -/
def Numbered (cluster : Cluster) (schedule : List HartTurn) : Prop :=
  ∀ turn ∈ schedule, (cluster.harts turn.hart).implements .mhartid = true

/-- What an action does in a cluster is what it does to the machine of its hart and area. -/
theorem perform_effect {α : Type} (cluster : Cluster) (hart area : Nat) (action : BootM α) :
    (cluster.perform hart area action).1 =
        (BootM.effect action (cluster.machine hart area)).1 ∧
      (cluster.perform hart area action).2.mute =
        cluster.settle hart area (BootM.effect action (cluster.machine hart area)).2 := by
  rw [perform, BootM.effect]
  cases action (cluster.machine hart area) <;> exact ⟨rfl, rfl⟩

/-- The harts that serve calls keep their numbers. -/
theorem Numbered.perform {schedule : List HartTurn} (numbered : cluster.Numbered schedule)
    (turn : HartTurn) :
    (cluster.perform turn.hart turn.area turn.call.action).2.Numbered schedule := by
  intro later member
  have kept := (cluster.evolves_perform turn later.hart).isSome_eq .mhartid
  have found := numbered later member
  rw [Hart.implements, Std.ExtTreeMap.contains_eq_isSome_getElem?] at found ⊢
  rw [kept, found]

/-- In clusters that differ in their terminals only, a call gives one answer and leaves clusters that
differ in their terminals only. -/
theorem perform_alike (alike : left.mute = right.mute) (turn : HartTurn)
    (numbered : (left.harts turn.hart).implements .mhartid = true) :
    (left.perform turn.hart turn.area turn.call.action).1 =
        (right.perform turn.hart turn.area turn.call.action).1 ∧
      (left.perform turn.hart turn.area turn.call.action).2.mute =
        (right.perform turn.hart turn.area turn.call.action).2.mute := by
  have harts : left.harts = right.harts := (congrArg harts alike :)
  have areas : left.areas = right.areas := (congrArg areas alike :)
  have cells : left.cells = right.cells := (congrArg cells alike :)
  have machines : (left.machine turn.hart turn.area).mute =
      (right.machine turn.hart turn.area).mute :=
    (congrArg (machine · turn.hart turn.area) alike :)
  have other : (right.harts turn.hart).implements .mhartid = true := harts ▸ numbered
  rw [Hart.implements, Std.ExtTreeMap.contains_eq_isSome_getElem?] at numbered other
  have impartial := turn.call.within.impartial
  have effects : BootM.effect turn.call.action (left.machine turn.hart turn.area) =
      BootM.effect turn.call.action (right.machine turn.hart turn.area) := by
    rw [← impartial (left.machine turn.hart turn.area) numbered, machines]
    exact impartial (right.machine turn.hart turn.area) other
  obtain ⟨answer, final⟩ := perform_effect left turn.hart turn.area turn.call.action
  obtain ⟨same, last⟩ := perform_effect right turn.hart turn.area turn.call.action
  refine ⟨by rw [answer, same, effects], ?_⟩
  rw [final, last, effects, settle, settle, harts, areas, cells]

/-- So do calls in turn. -/
theorem serve_alike {schedule : List HartTurn} (numbered : left.Numbered schedule)
    (alike : left.mute = right.mute) :
    (left.serve schedule).1 = (right.serve schedule).1 ∧
      (left.serve schedule).2.mute = (right.serve schedule).2.mute := by
  induction schedule generalizing left right with
  | nil => exact ⟨rfl, alike⟩
  | cons turn rest ih =>
    obtain ⟨answer, next⟩ := perform_alike alike turn (numbered turn List.mem_cons_self)
    have later := Numbered.perform
      (fun other member => numbered other (List.mem_cons_of_mem turn member)) turn
    obtain ⟨answers, final⟩ := ih later next
    exact ⟨congrArg₂ List.cons answer answers, final⟩

/-- Calls leave nothing but text on the terminal. -/
theorem silent_serve (cluster : Cluster) (schedule : List HartTurn) :
    (cluster.serve schedule).2.shared.terminal.silent = cluster.shared.terminal.silent := by
  induction schedule generalizing cluster with
  | nil => rfl
  | cons turn rest ih =>
    have first := (turn.call.within.descends (cluster.machine turn.hart turn.area)).silent
    rw [serve]
    dsimp only
    rw [ih, perform_snd]
    exact first

/-- Diagnostics make no difference to harts that have numbers. Whatever two terminals let through
and print, calls in turn give the same answers and leave the same harts, scratch areas and shared
state, and each terminal keeps its set-up and differs by the text on it only. The arithmetic of
calls does not overflow, the one for their messages included, as long as regions can be counted. -/
theorem serve_indifferent (cluster : Cluster) (left right : Terminal) (schedule : List HartTurn)
    (numbered : cluster.Numbered schedule) :
    ∃ answers, ∃ final : Cluster, ∃ shown printed : Terminal,
      (cluster.withTerminal left).serve schedule = (answers, final.withTerminal shown) ∧
      (cluster.withTerminal right).serve schedule = (answers, final.withTerminal printed) ∧
      shown.silent = left.silent ∧ printed.silent = right.silent ∧
      ∀ turn ∈ schedule, turn.call.Countable → turn.call.actionChecked = turn.call.action := by
  obtain ⟨answers, final⟩ :=
    @serve_alike (cluster.withTerminal left) (cluster.withTerminal right) schedule numbered rfl
  refine ⟨_, ((cluster.withTerminal left).serve schedule).2,
    ((cluster.withTerminal left).serve schedule).2.shared.terminal,
    ((cluster.withTerminal right).serve schedule).2.shared.terminal, rfl,
    Prod.ext answers.symm ?_, silent_serve _ schedule, silent_serve _ schedule,
    fun turn _ countable => turn.call.actionChecked_eq countable⟩
  exact (congrArg
    (withTerminal · ((cluster.withTerminal right).serve schedule).2.shared.terminal) final.symm :)

end Cluster

/-- A hart boots and protects a domain, and another one fails to leave machine mode for a mode that
does not exist. -/
def HartTurn.failing : List HartTurn :=
  [⟨0, 0, .boot (.init {} true)⟩,
    ⟨0, 0, .boot (.configure ⟨"boot", 0, [⟨0, .tor 8, RegionFlags.readable⟩]⟩)⟩,
    ⟨1, 0, .boot (.reinit {})⟩, ⟨1, 0, .boot (.switchMode ⟨0x80200000, 2, false⟩ 0 0)⟩]

namespace Cluster

theorem serve_indifferent_reservedHarts :
    reservedHarts.Numbered HartTurn.failing ∧
      ∃ answers, ∃ final : Cluster, ∃ shown printed : Terminal,
        (reservedHarts.withTerminal {}).serve HartTurn.failing =
          (answers, final.withTerminal shown) ∧
        (reservedHarts.withTerminal
            { console := some 0, loggerInstalled := true, maxLevel := some .trace }).serve
          HartTurn.failing = (answers, final.withTerminal printed) ∧
        shown.silent = ({} : Terminal).silent ∧
        printed.silent = ({ console := some 0, loggerInstalled := true, maxLevel := some .trace } :
          Terminal).silent ∧
        ∀ turn ∈ HartTurn.failing, turn.call.Countable →
          turn.call.actionChecked = turn.call.action := by
  have numbered : reservedHarts.Numbered HartTurn.failing := by
    intro turn _
    have implemented : Machine.supervised.hart.implements .mhartid = true := by decide +kernel
    exact implemented
  exact ⟨numbered, serve_indifferent reservedHarts {} _ HartTurn.failing numbered⟩

end Cluster

end HartBoot
