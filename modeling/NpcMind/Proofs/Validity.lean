import NpcMind.Config.Basic
import NpcMind.Proofs.Outcome

/-!
# Accepted configurations

Everything that a configuration is looked at for before a society runs with it, check by check.
-/

namespace NpcMind.Config

open Outcome

variable {c : Config}

/-- What holds of every configuration that was not refused. -/
structure Accepted (c : Config) : Prop where
  layers : c.controller.hiddenSizes.contains 0 = false
  readout : readoutWidth ≤ c.controller.hiddenSizes.getLast?.getD 0
  logitScale : c.controller.logitScale > 0
  width : experienceWidth ≤ c.memory.width
  readHeads : c.memory.readHeads ≤ maxReadHeads
  usageDecay : 0 ≤ c.memory.usageDecay ∧ c.memory.usageDecay ≤ 1
  saturation : 0 ≤ c.memory.saturation ∧ c.memory.saturation ≤ 1
  maxDensity : c.consolidation.maxDensity > 0 ∧ c.consolidation.maxDensity ≤ 1
  lambdaRange : ¬ c.consolidation.minLambda < 0 ∧ ¬ c.consolidation.maxLambda < c.consolidation.minLambda
  maxTasks : c.consolidation.maxTasks ≠ 0
  attentionDecay : 0 ≤ c.temper.attentionDecay ∧ c.temper.attentionDecay ≤ 1
  expectationRate : 0 ≤ c.temper.expectationRate ∧ c.temper.expectationRate ≤ 1
  workingMemoryRate : 0 ≤ c.temper.workingMemoryRate ∧ c.temper.workingMemoryRate ≤ 1
  contextRetention : 0 ≤ c.temper.contextRetention ∧ c.temper.contextRetention ≤ 1
  affectRetention : 0 ≤ c.temper.affectRetention ∧ c.temper.affectRetention ≤ 1
  maxAgents : c.limits.maxAgents ≠ 0

theorem require_ok {condition : Bool} {text : String} (h : require condition text = .ok ()) :
    condition = true := by
  unfold require at h
  split at h
  · assumption
  · cases h

theorem inUnit_iff {x : Float32} : inUnit x = true ↔ 0 ≤ x ∧ x ≤ 1 := by
  simp [inUnit]

/-- **A configuration passes every check** before it is accepted. -/
theorem accepted_of_validate (h : c.validate = .ok ()) : c.Accepted := by
  unfold validate at h
  split at h
  · next last hlast =>
    obtain ⟨_, hlayers, h⟩ := ok_of_bind h
    obtain ⟨_, hreadout, h⟩ := ok_of_bind h
    obtain ⟨_, hscale, h⟩ := ok_of_bind h
    obtain ⟨_, hwidth, h⟩ := ok_of_bind h
    obtain ⟨_, hheads, h⟩ := ok_of_bind h
    obtain ⟨_, hmemory, h⟩ := ok_of_bind h
    obtain ⟨_, hdensity, h⟩ := ok_of_bind h
    obtain ⟨_, hrange, h⟩ := ok_of_bind h
    obtain ⟨_, htasks, h⟩ := ok_of_bind h
    obtain ⟨_, hattention, h⟩ := ok_of_bind h
    obtain ⟨_, hexpectation, h⟩ := ok_of_bind h
    obtain ⟨_, hworking, h⟩ := ok_of_bind h
    obtain ⟨_, hcontext, h⟩ := ok_of_bind h
    obtain ⟨_, haffect, h⟩ := ok_of_bind h
    have hmemory := Bool.and_eq_true_iff.mp (require_ok hmemory)
    have hdensity := Bool.and_eq_true_iff.mp (require_ok hdensity)
    have hrange := require_ok hrange
    rw [Bool.not_eq_true', Bool.or_eq_false_iff] at hrange
    exact {
      layers := by simpa using require_ok hlayers
      readout := by
        rw [hlast]
        exact of_decide_eq_true (require_ok hreadout)
      logitScale := of_decide_eq_true (require_ok hscale)
      width := of_decide_eq_true (require_ok hwidth)
      readHeads := of_decide_eq_true (require_ok hheads)
      usageDecay := inUnit_iff.mp hmemory.1
      saturation := inUnit_iff.mp hmemory.2
      maxDensity := ⟨of_decide_eq_true hdensity.1, of_decide_eq_true hdensity.2⟩
      lambdaRange := ⟨of_decide_eq_false hrange.2, of_decide_eq_false hrange.1⟩
      maxTasks := of_decide_eq_true (require_ok htasks)
      attentionDecay := inUnit_iff.mp (require_ok hattention)
      expectationRate := inUnit_iff.mp (require_ok hexpectation)
      workingMemoryRate := inUnit_iff.mp (require_ok hworking)
      contextRetention := inUnit_iff.mp (require_ok hcontext)
      affectRetention := inUnit_iff.mp (require_ok haffect)
      maxAgents := of_decide_eq_true (require_ok h) }
  · cases h

end NpcMind.Config
