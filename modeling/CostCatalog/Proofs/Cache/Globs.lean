import CostCatalog.Cache.Glob

/-!
# Patterns that end in a star

A text without a star, a question mark or an opening bracket stands for itself in a pattern. Followed
by one star it is matched by the texts that start with it and by no others, `isMatch_stem`.
-/

namespace CostCatalog.Glob

/-- A character that stands for itself in every pattern. -/
def IsPlain (c : Char) : Prop := c ≠ '*' ∧ c ≠ '?' ∧ c ≠ '['

instance (c : Char) : Decidable (IsPlain c) := by unfold IsPlain; infer_instance

theorem isPlain_of_all {cs : List Char} (h : (cs.all fun c => decide (IsPlain c)) = true) :
    ∀ c ∈ cs, IsPlain c := fun c hc => of_decide_eq_true (List.all_eq_true.mp h c hc)

/-- The parts of plain characters with a star behind them. -/
theorem tokens_plain {cs : List Char} (h : ∀ c ∈ cs, IsPlain c) {fuel : Nat}
    (hfuel : cs.length < fuel) :
    tokens fuel (cs ++ ['*']) = cs.map .only ++ [.star] := by
  induction cs generalizing fuel with
  | nil =>
    obtain ⟨n, rfl⟩ : ∃ n, fuel = n + 1 := ⟨fuel - 1, by simp at hfuel; omega⟩
    cases n <;> rfl
  | cons c cs ih =>
    obtain ⟨n, rfl⟩ : ∃ n, fuel = n + 1 := ⟨fuel - 1, by omega⟩
    obtain ⟨hstar, hany, hset⟩ := h c (List.mem_cons_self ..)
    have hn : cs.length < n := Nat.lt_of_succ_lt_succ hfuel
    rw [List.cons_append, tokens, if_neg hstar, if_neg hany, if_neg hset,
      ih (fun d hd => h d (List.mem_cons_of_mem _ hd)) hn]
    rfl

private theorem covers_star (cs : List Char) : covers [.star] cs = true := by
  induction cs with
  | nil => rw [covers, covers]
  | cons c cs ih => rw [covers, ih, Bool.or_true]

/-- A star behind plain characters covers whatever goes on from them. -/
theorem covers_plain (cs text : List Char) :
    covers (cs.map .only ++ [.star]) text = true ↔ cs <+: text := by
  induction cs generalizing text with
  | nil => exact ⟨fun _ => List.nil_prefix, fun _ => covers_star text⟩
  | cons c cs ih =>
    cases text with
    | nil =>
      rw [List.map_cons, List.cons_append, covers]
      · refine ⟨fun h => ?_, fun h => absurd (List.prefix_nil.mp h) (List.cons_ne_nil c cs)⟩
        cases h
      · intro h
        cases h
    | cons d text =>
      rw [List.map_cons, List.cons_append, covers, Bool.and_eq_true, ih, List.cons_prefix_cons]
      · exact and_congr_left fun _ => beq_iff_eq
      · intro h
        cases h

/-- Plain characters and a star match the texts that start with those characters. -/
theorem isMatch_stem {stem : String} (h : ∀ c ∈ stem.toList, IsPlain c) (text : String) :
    isMatch (stem ++ "*") text = true ↔ stem.toList <+: text.toList := by
  have hpattern : (stem ++ "*").toList = stem.toList ++ ['*'] := String.toList_append ..
  have hlength : stem.toList.length < (stem.toList ++ ['*']).length := by
    rw [List.length_append]
    exact Nat.lt_succ_self _
  rw [isMatch, hpattern, ofPattern, tokens_plain h hlength, covers_plain]

end CostCatalog.Glob
