import Tram.Controller.Invariant

/-! # Guard and attempt agreement over whole runs

A pipeline has at most one attempt that is not terminal, and it is the holder of the pipeline's
guard. The one way out is an attempt parked as 'unknown': settling it frees its guard and leaves
it unknown. -/

namespace Tram

structure Ledger.GuardsAgree (l : Ledger) : Prop where
  oneActive : ∀ a b rowA rowB, l.attempts.lookup a = some rowA → l.attempts.lookup b = some rowB →
    rowA.state ≠ .terminal → rowB.state ≠ .terminal → rowA.pipelineName = rowB.pipelineName → a = b
  activeHolds : ∀ a row, l.attempts.lookup a = some row → row.state ≠ .terminal →
    ∃ h, l.holder? row.pipelineName = some h ∧ h.attemptId = a ∧ h.generation = row.generation
  freeIdle : ∀ name, l.holder? name = none → ∀ a row, l.attempts.lookup a = some row →
    row.pipelineName = name → row.state = .terminal

theorem Ledger.Agrees.guardsAgree {l : Ledger} (h : l.Agrees) : l.GuardsAgree where
  oneActive := by
    intro a b rowA rowB ha hb hactA hactB hpipe
    have hheld := (h a rowA ha hactA).symm.trans (hpipe ▸ h b rowB hb hactB)
    exact congrArg Holder.attemptId (Option.some.inj hheld)
  activeHolds := fun a row ha hact => ⟨_, h a row ha hact, rfl, rfl⟩
  freeIdle := by
    rintro name hfree a row ha rfl
    by_contra hact
    exact absurd ((h a row ha hact).symm.trans hfree) nofun

namespace Controller

/-- Guards and attempts agree after every run in which no attempt parked as 'unknown' is
settled. -/
theorem guards_agree (settings : Settings) (ops : List Op)
    (hops : Run.AllSteps step SparesParked (init settings) ops) :
    (Run.exec step (init settings) ops).ledger.GuardsAgree := by
  have hinv : (Run.exec step (init settings) ops).core.Inv :=
    hops.invariant (I := fun c => c.core.Inv) (fun _ _ h hop => inv_step h hop) (inv_init settings)
  exact hinv.agrees.guardsAgree

def lostManager : List Op :=
  [.register "orders" ⟨.interval, true, "yaml"⟩, .fire "orders" "r" ⟨0, "fence", none, none⟩,
    .dispatchEnds "r" (.accepted "http://w1" "w1") 1, .crash, .boot (fun _ => .noReply) 2]

theorem guards_agree_lostManager :
    let c := Run.exec step (init ⟨true, 60, 0, 0⟩) lostManager
    (c.ledger.attempts.lookup "r-a1").map (·.state) = some .unknown ∧ c.ledger.GuardsAgree := by
  exact ⟨by decide +kernel, guards_agree _ _ (by decide +kernel)⟩

/-- When the completion of the parked attempt arrives, its guard is free and it is still
'unknown'. -/
theorem unknown_attempt_loses_guard :
    let c := Run.exec step (init ⟨true, 60, 0, 0⟩)
      (lostManager ++ [.onAttemptRunComplete ⟨"r-a1", 1, "r", "orders", "success"⟩ 3])
    (c.ledger.attempts.lookup "r-a1").map (fun a => (a.pipelineName, a.state)) =
        some ("orders", .unknown) ∧
      c.ledger.holder? "orders" = none ∧ ¬c.ledger.GuardsAgree := by
  intro c
  have hunknown : (c.ledger.attempts.lookup "r-a1").map (fun a => (a.pipelineName, a.state)) =
      some ("orders", .unknown) := by decide +kernel
  have hfree : c.ledger.holder? "orders" = none := by decide +kernel
  refine ⟨hunknown, hfree, fun h => ?_⟩
  obtain ⟨row, hrow, hfields⟩ := Option.map_eq_some_iff.mp hunknown
  obtain ⟨hpipe, hstate⟩ := Prod.mk.inj hfields
  exact absurd (hstate.symm.trans (h.freeIdle "orders" hfree "r-a1" row hrow hpipe)) nofun

end Controller

end Tram
