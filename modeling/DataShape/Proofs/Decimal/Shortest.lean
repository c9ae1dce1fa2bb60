import DataShape.Decimal.Shortest
import DataShape.Proofs.Decimal.Rounding

/-!
# Shortest decimals read back

Whatever the search for the shortest decimal of a finite double comes up with was tried
before, and the exact decimal that stands behind the search reads back as well. Trailing
zeros do not count. So the shortest decimal is rounded to the rank it was made for
(`rank_shortest`).
-/

namespace DataShape.Decimal

open Binary64 (ofRank)

variable {tie : Tie} {w cut : Nat} {d exact : Decimal}

theorem rank_of_readsBack (hw : w < finiteRanks) (h : readsBack w d = true) : d.rank = w := by
  rw [readsBack, beq_iff_eq, toBinary64_eq_ofRank] at h
  exact Binary64.ofRank_inj_of_lt hw h

/-- A neighbour is only taken if it reads back. -/
theorem readsBack_of_neighbour? (h : neighbour? tie w exact cut = some d) :
    readsBack w d = true := by
  simp only [neighbour?] at h
  split at h
  · split at h
    · rename_i hlower
      exact Option.some.inj h ▸ hlower
    · cases h
  · split at h
    · rename_i hlower hupper
      split at h
      · exact Option.some.inj h ▸ hlower
      split at h
      · exact Option.some.inj h ▸ hupper
      cases tie with
      | toEven =>
        obtain rfl := Option.some.inj h
        split
        · exact hlower
        · exact hupper
      | upward => exact Option.some.inj h ▸ hupper
    · rename_i hlower _
      exact Option.some.inj h ▸ hlower
    · rename_i _ hupper
      exact Option.some.inj h ▸ hupper
    · cases h

/-! ## Trailing zeros -/

theorem rank_stripUpTo (n : Nat) (d : Decimal) : (stripUpTo n d).rank = d.rank := by
  induction n generalizing d with
  | zero => rfl
  | succ n ih =>
    rw [stripUpTo]
    split
    · rename_i hzero
      have htens : d.coefficient / 10 * Nat.pow 10 1 = d.coefficient :=
        Nat.div_mul_cancel (Nat.dvd_of_mod_eq_zero hzero.2)
      rw [ih]
      exact (rank_shift (d.coefficient / 10) 1 d.exponent).symm.trans
        (congrArg (fun c => rank ⟨c, d.exponent⟩) htens)
    · rfl

/-! ## The search -/

/-- The shortest decimal of a finite rank is rounded to it. -/
theorem rank_shortest (tie : Tie) (hw : w < finiteRanks) : (shortest tie w).rank = w := by
  by_cases hzero : w = 0
  · subst hzero
    exact rank_zero 0
  rw [shortest, if_neg hzero]
  simp only [strip, rank_stripUpTo]
  cases hfound : (List.range 17).findSome? fun i => neighbour? tie w (ofUnits (Binary64.units w))
      ((ofUnits (Binary64.units w)).length - (i + 1)) with
  | none => exact rank_ofUnits w
  | some d =>
    obtain ⟨i, -, hi⟩ := List.exists_of_findSome?_eq_some hfound
    exact rank_of_readsBack hw (readsBack_of_neighbour? hi)

/-- No digits but for zero. -/
theorem coefficient_shortest_ne_zero (tie : Tie) (hw : w < finiteRanks) (hpos : w ≠ 0) :
    (shortest tie w).coefficient ≠ 0 := by
  intro hzero
  have hrank : (shortest tie w).rank = rank ⟨0, (shortest tie w).exponent⟩ := by rw [← hzero]
  rw [rank_shortest tie hw, rank_zero] at hrank
  exact hpos hrank

end DataShape.Decimal
