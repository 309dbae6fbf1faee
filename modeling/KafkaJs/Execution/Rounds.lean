import Mathlib.Logic.Relation

/-!
# Rounds of a loop

A loop as the relation between the states before and after a round that neither ends it nor fails.
`progress_induction` is the rule for loops that get closer to a bound with every round: what holds
of a state if it holds after each of its rounds holds of the state that the loop starts in.
-/

namespace KafkaJs.Execution

variable {σ : Type} {round : σ → σ → Prop} {start state next : σ}

/-- Rounds lead from the one state to the other. -/
abbrev Reaches (round : σ → σ → Prop) : σ → σ → Prop := Relation.ReflTransGen round

/-- Every round that is reached raises the measure. -/
def Advances (round : σ → σ → Prop) (measure : σ → Int) (start : σ) : Prop :=
  ∀ before after, Reaches round start before → round before after → measure before < measure after

/-- Rounds that advance while the measure is below a bound come to an end. -/
theorem progress_induction {measure : σ → Int} {bound : Int} {motive : σ → Prop}
    (hadvances : Advances round measure start)
    (hbound : ∀ before after, Reaches round start before → round before after →
      measure before < bound)
    (hround : ∀ state, Reaches round start state → (∀ next, round state next → motive next) →
      motive state) :
    motive start := by
  have hall : ∀ (distance : Nat) (state : σ), Reaches round start state →
      (bound - measure state).toNat < distance → motive state := by
    intro distance
    induction distance with
    | zero =>
        intro state _ hlt
        omega
    | succ distance ih =>
        intro state hreach hlt
        refine hround state hreach fun next hnext => ?_
        have hmore := hadvances state next hreach hnext
        have hbelow := hbound state next hreach hnext
        exact ih next (hreach.tail hnext) (by omega)
  exact hall _ start Relation.ReflTransGen.refl (Nat.lt_succ_self _)

end KafkaJs.Execution
