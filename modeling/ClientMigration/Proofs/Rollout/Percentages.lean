/-
# Proofs.Rollout.Percentages -- a percentage that is always in range

A configuration comes into a controller in several ways: at the start, as a whole,
by its percentage or its switch alone, and through a console. What each of them
makes of the configuration is said in one place (`Move.leaves`), and a factory does
just that (`config_move`): requests for clients, comparisons, overrides and questions
leave the configuration alone.

No move leads out of the range (`Move.leaves_inRange`), whatever numbers it brings,
so no run does (`percentage_in_range`).
-/
import ClientMigration.Rollout.Console
import ClientMigration.Proofs.Rollout.Clients
import ClientMigration.Proofs.Rollout.Commands

namespace ClientMigration

set_option autoImplicit false

variable {σ : Type}

theorem clampPercentage_le (value : Int) : clampPercentage value ≤ 100 := by
  unfold clampPercentage
  omega

theorem clampPercentage_eq (value : Int) : (clampPercentage value : Int) = min (max value 0) 100 := by
  unfold clampPercentage
  omega

theorem clampPercentage_natCast (n : Nat) : clampPercentage n = min n 100 := by
  unfold clampPercentage
  omega

theorem RolloutConfig.normalized_eq (c : RolloutConfig) :
    c.normalized = { c with percentage := min c.percentage 100 } := by
  rw [normalized, clampPercentage_natCast]

theorem Controller.updateConfig_eq (c : Controller σ) (config : RolloutConfig) :
    c.updateConfig config = { c with config := { config with percentage := min config.percentage 100 } } := by
  rw [updateConfig, RolloutConfig.normalized_eq]

namespace Factory

/-- What a factory goes through: commands to its controller, those of a console, whenever that was
attached, and requests for clients. -/
inductive Move where
  | command (k : Controller.Command)
  | forceNew
  | forceOld
  /-- The console switches the rollout on at a percentage. -/
  | setPercentage (value : Int)
  | compare (probe : Console.Probe) (preset : Preset) (path : String)
  | getClient (preset : Preset) (path : Option String)

/-- The factory after a move. -/
def move (f : Factory σ) : Move → Factory σ
  | .command k => { f with controller := (f.controller.obey k).2 }
  | .forceNew => { f with controller := Console.forceNew f.controller }
  | .forceOld => { f with controller := Console.forceOld f.controller }
  | .setPercentage value => { f with controller := Console.setPercentage f.controller value }
  | .compare probe preset path => (Console.compare f probe preset path).2
  | .getClient preset path => (f.getClient preset path).2

/-- The factory after a run. -/
def moved (f : Factory σ) (run : List Move) : Factory σ := run.foldl move f

/-! ## What a move makes of the configuration -/

/-- The configuration in force after a move. -/
def Move.leaves (c : RolloutConfig) : Move → RolloutConfig
  | .command (.updateConfig new) => { new with percentage := min new.percentage 100 }
  | .command (.setPercentage value) => { c with percentage := (min (max value 0) 100).toNat }
  | .command (.setEnabled value) => { c with enabled := value }
  | .forceNew => { enabled := true, percentage := 100, debugMode := c.debugMode }
  | .forceOld => { c with enabled := false }
  | .setPercentage value => { c with enabled := true, percentage := (min (max value 0) 100).toNat }
  | .command _ | .compare .. | .getClient .. => c

theorem clientFor_controller (f : Factory σ) (variant : Variant) (preset : Preset) :
    (f.clientFor variant preset).2.controller = f.controller :=
  clientFor_preserves (P := fun g => g.controller = f.controller) rfl rfl fun _ _ _ same => same

theorem compare_controller (f : Factory σ) (probe : Console.Probe) (preset : Preset) (path : String) :
    (Console.compare f probe preset path).2.controller = f.controller := by
  have both : ((f.clientFor .legacy preset).2.clientFor .unified preset).2.controller = f.controller := by
    rw [clientFor_controller, clientFor_controller]
  simp only [Console.compare]
  split
  · exact both
  · split
    · exact both
    · exact both

theorem config_move (f : Factory σ) (m : Move) :
    (f.move m).controller.config = m.leaves f.controller.config := by
  cases m with
  | command k =>
    cases k with
    | updateConfig config => exact congrArg Controller.config (f.controller.updateConfig_eq config)
    | decide path => exact f.controller.decide_config path
    | shouldUseNew path => exact f.controller.decide_config path
    | status => exact f.controller.assignment.2.decide_config none
    | _ => rfl
  | compare probe preset path => exact congrArg Controller.config (f.compare_controller probe preset path)
  | getClient preset path =>
    rw [move, getClient_eq]
    show ((f.asked path).clientFor (f.decided path) preset).2.controller.config = _
    rw [clientFor_controller]
    exact f.controller.decide_config path
  | _ => rfl

theorem config_moved (f : Factory σ) (run : List Move) :
    (f.moved run).controller.config = run.foldl Move.leaves f.controller.config := by
  induction run generalizing f with
  | nil => rfl
  | cons m ms rest =>
    rw [List.foldl_cons, ← config_move]
    exact rest (f.move m)

/-! ## The range -/

theorem Move.leaves_inRange {c : RolloutConfig} (inRange : c.percentage ≤ 100) (m : Move) :
    (m.leaves c).percentage ≤ 100 := by
  cases m with
  | command k =>
    cases k with
    | updateConfig config => exact min_le_right _ _
    | setPercentage value => exact clampPercentage_le value
    | _ => exact inRange
  | forceNew => exact le_refl 100
  | setPercentage value => exact clampPercentage_le value
  | _ => exact inRange

/-- Whatever configurations and numbers a controller is given, at the start and in a run of any length,
by commands to it or through a console: its percentage is in range. The configuration is what the moves
made of the first one; setting the percentage sets it to the nearest number in range and changes nothing
else, and a new configuration is taken as it is but for its percentage. -/
theorem percentage_in_range (config : RolloutConfig) (assigner : Assigner σ) (endpoint : Endpoint)
    (optimizer : Optimizer) (run : List Move) :
    let f := moved { controller := .new config assigner, endpoint, optimizer } run
    f.controller.config.percentage ≤ 100 ∧
    f.controller.config = run.foldl Move.leaves { config with percentage := min config.percentage 100 } ∧
    (∀ value : Int, ∃ percentage : Nat, (percentage : Int) = min (max value 0) 100 ∧
      f.controller.setPercentage value =
        { f.controller with config := { f.controller.config with percentage } }) ∧
    ∀ new : RolloutConfig, f.controller.updateConfig new =
      { f.controller with config := { new with percentage := min new.percentage 100 } } := by
  intro f
  have start : (Controller.new config assigner).config =
      { config with percentage := min config.percentage 100 } := config.normalized_eq
  have same : f.controller.config =
      run.foldl Move.leaves { config with percentage := min config.percentage 100 } := by
    rw [← start]
    exact config_moved _ run
  refine ⟨?_, same, fun value => ⟨clampPercentage value, clampPercentage_eq value, rfl⟩,
    f.controller.updateConfig_eq⟩
  rw [same]
  have first : (Controller.new config assigner).config.percentage ≤ 100 := clampPercentage_le _
  exact List.foldlRecOn run Move.leaves (motive := fun c => c.percentage ≤ 100)
    (start ▸ first) fun _ inRange m _ => m.leaves_inRange inRange

end Factory

end ClientMigration
