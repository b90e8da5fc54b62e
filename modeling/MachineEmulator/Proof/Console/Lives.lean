/-
This file proves that the buffers of a console stay in order over its whole life, with all changes
of its configuration, those that throw among them.
-/

import MachineEmulator.Proof.Console.Configuration
import MachineEmulator.Proof.Console.Queues

namespace MachineEmulator

open Console

namespace MachineConsole

/-- The consoles that the constructor, changes of the configuration and operations lead to. -/
inductive Lives : MachineConsole → Prop where
  | create {config answers outcome} (done : create config answers = .ok outcome) :
      Lives outcome.console
  | setConfig {console config answers outcome} (lives : Lives console)
      (done : console.setConfig config answers = .ok outcome) : Lives outcome.console
  | step {console later : MachineConsole} {operation effect} (lives : Lives console)
      (done : console.step operation = .ok (effect, later)) : Lives later

variable {console : MachineConsole}

theorem Lives.sound (lives : Lives console) : console.Sound := by
  induction lives with
  | create done => exact create_sound done
  | setConfig lives done sound => exact setConfig_sound sound done
  | step lives done sound =>
      rename_i operation _
      obtain ⟨_, _, ran, moves, _⟩ := step_ok sound operation
      cases ran.symm.trans done
      exact moves.sound

/-- At any time of its life, no assertion of an operation fails, and the operation moves the queues
as it says. -/
theorem lives_step_ok (lives : Lives console) (operation : Operation) : ∃ effect later,
    console.step operation = .ok (effect, later) ∧ Lives later ∧ console.Moves effect later ∧
      console.Counts operation effect ∧ (console.LosesNothing operation →
        effect.delivered ++ later.output.content = console.output.content ++ effect.put) := by
  obtain ⟨effect, later, done, rest⟩ := step_ok lives.sound operation
  exact ⟨effect, later, done, lives.step done, rest⟩

/-- A console goes on after its constructor and a change of its configuration have thrown. -/
theorem lives_step_ok_closed : ∃ console, Lives console ∧ ∃ effect later,
    console.step (.readOutput false 4) = .ok (effect, later) ∧ Lives later ∧
      console.Moves effect later ∧ console.Counts (.readOutput false 4) effect ∧
      (console.LosesNothing (.readOutput false 4) →
        effect.delivered ++ later.output.content = console.output.content ++ effect.put) := by
  have created : create refusedConfig refusingAnswers =
      .ok ((create refusedConfig refusingAnswers).toOption.getD ⟨initial, .ok ()⟩) := rfl
  have lives := @Lives.setConfig _ refusedConfig refusingAnswers _ (.create created) rfl
  exact ⟨_, lives, lives_step_ok lives _⟩

end MachineConsole

end MachineEmulator
