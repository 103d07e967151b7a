import IndexNotation.Proofs.Windows

namespace IndexNotation

variable {α β γ : Type}

theorem RowMajor.length_tuples (dims : List Nat) : (tuples dims).length = dims.prod := by
  rw [← List.length_map fun values => number values dims, map_number_tuples, List.length_range]

namespace EvalM

/-- When the evaluation gives a result, it has evaluated each counting generator as often as `tally` says. -/
def Tallies (x : EvalM α β) (tally : Nat → Nat) : Prop :=
  ∀ memory scratch b later, x memory scratch = (.ok b, later) →
    ∀ counter : Nat, later.counts[counter]? = scratch.counts[counter]?.map (· + tally counter)

variable {tally rest : Nat → Nat}

theorem tallies_ofExcept (outcome : Except Fault β) : Tallies (ofExcept outcome : EvalM α β) 0 := by
  intro memory scratch b later ran counter
  cases ran
  exact Option.map_id'.symm

theorem Tallies.bind {x : EvalM α β} {f : β → EvalM α γ} (first : Tallies x tally)
    (second : ∀ b, Tallies (f b) rest) : Tallies (x >>= f) (tally + rest) := by
  intro memory scratch c last ran counter
  obtain ⟨b, middle, before, after⟩ := bind_run_eq_ok_iff.mp ran
  rw [second b memory middle c last after counter, first memory scratch b middle before counter, Option.map_map]
  congr 1
  funext n
  exact Nat.add_assoc n _ _

theorem Tallies.ofExcept_bind {outcome : Except Fault β} {f : β → EvalM α γ} (second : ∀ b, Tallies (f b) rest) :
    Tallies (ofExcept outcome >>= f) rest := by
  rw [← zero_add rest]
  exact (tallies_ofExcept outcome).bind second

theorem Tallies.bind_ofExcept {x : EvalM α β} {f : β → Except Fault γ} (first : Tallies x tally) :
    Tallies (do ofExcept (f (← x))) tally := by
  rw [← add_zero tally]
  exact first.bind fun b => tallies_ofExcept (f b)

theorem Tallies.foldlM {steps : List γ} {f : β → γ → EvalM α β} {acc : β}
    (each : ∀ acc step, Tallies (f acc step) tally) : Tallies (steps.foldlM f acc) (steps.length • tally) := by
  induction steps generalizing acc with
  | nil =>
      rw [List.length_nil, zero_smul]
      exact tallies_ofExcept (.ok acc)
  | cons step steps ih =>
      rw [List.foldlM_cons, List.length_cons, succ_nsmul']
      exact (each acc step).bind fun next => ih

theorem Tallies.foldTuples {dims : List Nat} {step : List Nat → β → EvalM α β} {acc : β}
    (each : ∀ values acc, Tallies (step values acc) tally) :
    Tallies (EvalM.foldTuples step dims acc) (dims.prod • tally) := by
  rw [EvalM.foldTuples, RowMajor.foldTuples_eq_foldlM, ← RowMajor.length_tuples]
  exact foldlM fun acc values => each values acc

end EvalM

theorem Generator.counts_evaluate {id : String} {dimension counter index : Nat} {component : Nat → Except Fault α}
    {x : α} {counts later : Counts}
    (evaluated : (counting id dimension counter component).evaluate index counts = (.ok x, later)) :
    later = counts.modify counter (· + 1) := by
  rw [evaluate] at evaluated
  split at evaluated
  · change (component index, counts.modify counter (· + 1)) = _ at evaluated
    exact (congrArg Prod.snd evaluated).symm
  · cases evaluated

namespace Components

theorem tallies_get {id : String} {dimension counter start : Nat} {component : Nat → Except Fault α}
    {c : Components α} (stacked : Stacked (.generated (.counting id dimension counter component)) c start)
    (index : Nat) : EvalM.Tallies (c.get index) (Pi.single counter 1) := by
  generalize own : generated (Generator.counting id dimension counter component) = base at stacked
  induction stacked generalizing index with
  | stored storage block offset length => cases own
  | generated g =>
      cases own
      intro memory scratch x later ran other
      rcases evaluated : (Generator.counting id dimension counter component).evaluate index scratch.counts with
        ⟨outcome, counts⟩
      rw [get, EvalM.ofCountM_run, evaluated] at ran
      cases ran
      dsimp only
      rw [Generator.counts_evaluate evaluated, Array.getElem?_modify, Pi.single_apply]
      by_cases same : counter = other
      · rw [if_pos same, if_pos same.symm]
      · rw [if_neg same, if_neg (Ne.symm same)]
        exact Option.map_id'.symm
  | window stacked opened ih =>
      obtain ⟨_, rfl⟩ := window?_eq_ok opened
      rw [get]
      split
      · exact ih _ own
      · intro memory scratch x later ran
        cases ran

end Components

end IndexNotation
