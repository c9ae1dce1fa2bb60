import DataShape.Proofs.Check.Acceptance
import DataShape.Proofs.Pointwise

/-!
# Checkers that are alike

Two checkers are alike if they are put together in the same way and their references
lead to related addresses (`Alike`). The references themselves may be told apart by
other numbers, and the checkers at related addresses may be others again, as long as
they are alike in turn (`Environment.Carries`). What the one accepts the other accepts
(`Accepts.of_alike`) : a derivation for the first becomes one for the second, rule by
rule.
-/

namespace DataShape

mutual
/-- The checkers differ in nothing but their references, which lead to related addresses. -/
inductive Alike (σ : Address → Address → Prop) : Checker → Checker → Prop where
  | primitive {p} : Alike σ (.primitive p) (.primitive p)
  | literal {s} : Alike σ (.literal s) (.literal s)
  | any {cs ds} (h : List.Forall₂ (Alike σ) cs ds) : Alike σ (.any cs) (.any ds)
  | nullable {c d} (h : Alike σ c d) : Alike σ (.nullable c) (.nullable d)
  | array {c d} (h : Alike σ c d) : Alike σ (.array c) (.array d)
  | object {ps qs} (h : List.Forall₂ (AlikeEntry σ) ps qs) : Alike σ (.object ps) (.object qs)
  | reference {l m} (h : σ l.address m.address) : Alike σ (.reference l) (.reference m)

/-- The same for declared properties, under the same key. -/
inductive AlikeEntry (σ : Address → Address → Prop) :
    DeclaredKey × Property → DeclaredKey × Property → Prop where
  | direct {k c d} (h : Alike σ c d) : AlikeEntry σ (k, .direct c) (k, .direct d)
  | produced {k label c d} (h : Alike σ c d) :
      AlikeEntry σ (k, .produced label c) (k, .produced label d)
  | barren {k label} : AlikeEntry σ (k, .barren label) (k, .barren label)
  | found {k label a b} (h : σ a b) : AlikeEntry σ (k, .found label a) (k, .found label b)
end

/-- What is found at an address is found alike at the addresses related to it. -/
def Environment.Carries (σ : Address → Address → Prop) (env env' : Environment) : Prop :=
  ∀ a b c, σ a b → Keyed.get? a env = some c → ∃ d, Keyed.get? b env' = some d ∧ Alike σ c d

variable {σ : Address → Address → Prop} {env env' : Environment}

theorem AlikeEntry.fst_eq {e f : DeclaredKey × Property} (h : AlikeEntry σ e f) : e.1 = f.1 := by
  cases h <;> rfl

/-- Properties that are alike yield checkers that are alike. -/
theorem AlikeEntry.fixed? (henv : env.Carries σ env') {e f : DeclaredKey × Property}
    (h : AlikeEntry σ e f) {c : Checker} (hc : e.2.fixed? env = some c) :
    ∃ d, f.2.fixed? env' = some d ∧ Alike σ c d := by
  cases h with
  | direct h =>
    obtain rfl := Option.some.inj hc
    exact ⟨_, rfl, h⟩
  | produced h =>
    obtain rfl := Option.some.inj hc
    exact ⟨_, rfl, h⟩
  | barren => exact nomatch hc
  | found h => exact henv _ _ c h hc

theorem AcceptsWithin.of_alike (henv : env.Carries σ env') :
    ∀ {n : Nat} {c d : Checker} {v : Value}, Alike σ c d → AcceptsWithin env n c v →
      Accepts env' d v
  | 0, _, _, _, _, hw => hw.elim
  | n + 1, _, _, v, h, hw => by
    refine accepts_iff.2 ?_
    cases h with
    | primitive => exact hw
    | literal => exact hw
    | any h =>
      obtain ⟨c, hc, hw⟩ := hw
      obtain ⟨d, hd, hcd⟩ := exists_of_forall₂ h c hc
      exact ⟨d, hd, AcceptsWithin.of_alike henv hcd hw⟩
    | nullable h => exact hw.imp_right (AcceptsWithin.of_alike henv h)
    | array h =>
      obtain ⟨items, rfl, hw⟩ := hw
      exact ⟨items, rfl, fun w hmem => AcceptsWithin.of_alike henv h (hw w hmem)⟩
    | object h =>
      obtain ⟨fields, rfl, hw⟩ := hw
      refine ⟨fields, rfl, fun f hf => ?_⟩
      obtain ⟨e, he, hef⟩ := exists_of_forall₂ h.flip f hf
      have hkey : e.1 = f.1 := AlikeEntry.fst_eq hef
      rw [← hkey]
      rcases hw e he with ⟨w, c, hk, hc, hw⟩ | habsent
      · obtain ⟨d, hd, hcd⟩ := AlikeEntry.fixed? henv hef hc
        exact Or.inl ⟨w, d, hk, hd, AcceptsWithin.of_alike henv hcd hw⟩
      · exact Or.inr habsent
    | reference h =>
      obtain ⟨c, hc, hw⟩ := hw
      obtain ⟨d, hd, hcd⟩ := henv _ _ c h hc
      exact ⟨d, hd, AcceptsWithin.of_alike henv hcd hw⟩

/-- What a checker accepts is accepted by one that is alike. -/
theorem Accepts.of_alike (henv : env.Carries σ env') {c d : Checker} {v : Value}
    (h : Alike σ c d) (hw : Accepts env c v) : Accepts env' d v := by
  obtain ⟨n, hn⟩ := hw.exists_within
  exact hn.of_alike henv h

end DataShape
