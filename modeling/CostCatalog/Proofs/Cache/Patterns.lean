import CostCatalog.Proofs.Cache.Globs
import Mathlib.Logic.Function.Basic

/-!
# Patterns behind a stem

A pattern is read from its front, part after part, `ofPattern_induction`. So the parts of a stem with
a pattern behind it are the parts of both, `ofPattern_append`, unless a set that opens in the stem
closes in the pattern. The texts that the stem and the pattern match are those of the pattern behind
the stem exactly if the stem has no star and no opening bracket, `isMatch_append_iff`: a question
mark does no harm there, since what it stands for in the text is the question mark of the stem.
-/

namespace CostCatalog.Glob

variable {cs : List Char}

/-! ## Sets -/

/-- How many characters at the front of a set cannot close it: the first, and one more behind a `!`. -/
def opening (cs : List Char) : Nat := if cs.head? = some '!' then 2 else 1

theorem opening_append (h : cs ≠ []) (more : List Char) : opening (cs ++ more) = opening cs := by
  cases cs with
  | nil => exact absurd rfl h
  | cons c cs => rfl

private theorem scanSet?_eq (cs : List Char) :
    scanSet? cs = ((cs.drop (opening cs)).dropWhile (· != ']')).tail?.map fun rest =>
      (cs.take (opening cs) ++ (cs.drop (opening cs)).takeWhile (· != ']'), rest) := by
  rcases cs with _ | ⟨c, cs⟩
  · rfl
  · by_cases hbang : c = '!'
    · subst hbang
      rcases cs with _ | ⟨d, cs⟩
      · rfl
      · by_cases hclose : d = ']' <;> cases hbehind : cs.dropWhile (· != ']') <;>
          simp [scanSet?, opening, hclose, hbehind]
    · by_cases hclose : c = ']' <;> cases hbehind : cs.dropWhile (· != ']') <;>
        simp [scanSet?, opening, hbang, hclose, hbehind]

private theorem bne_of_not_mem {members : List Char} (h : ']' ∉ members) :
    ∀ c ∈ members, (c != ']') = true :=
  fun _ hc => bne_iff_ne.mpr fun heq => h (heq ▸ hc)

/-- A set goes up to the first bracket that can close it. -/
theorem scanSet?_of_drop {members rest : List Char}
    (h : cs.drop (opening cs) = members ++ ']' :: rest) (hmembers : ']' ∉ members) :
    scanSet? cs = some (cs.take (opening cs) ++ members, rest) := by
  have hplain := bne_of_not_mem hmembers
  rw [scanSet?_eq, h, List.dropWhile_append_of_pos hplain, List.takeWhile_append_of_pos hplain]
  simp

/-- A set that no bracket can close is none. -/
theorem scanSet?_of_not_mem (h : ']' ∉ cs.drop (opening cs)) : scanSet? cs = none := by
  have hplain := bne_of_not_mem h
  rw [scanSet?_eq, ← List.append_nil (cs.drop (opening cs)), List.dropWhile_append_of_pos hplain]
  rfl

theorem scanSet?_eq_none_iff : scanSet? cs = none ↔ ']' ∉ cs.drop (opening cs) := by
  refine ⟨fun hnone hmem => ?_, scanSet?_of_not_mem⟩
  obtain ⟨members, rest, hdrop, hmembers⟩ := List.eq_append_cons_of_mem hmem
  rw [scanSet?_of_drop hdrop hmembers] at hnone
  cases hnone

/-- What is behind a set is shorter than what is behind its opening bracket; and a set that is closed
stays as it is, whatever comes behind. -/
theorem scanSet?_some {body rest : List Char} (h : scanSet? cs = some (body, rest)) :
    rest.length < cs.length ∧ ∀ more, scanSet? (cs ++ more) = some (body, rest ++ more) := by
  have hmem : ']' ∈ cs.drop (opening cs) := by
    refine not_not.mp fun hnot => ?_
    rw [scanSet?_of_not_mem hnot] at h
    cases h
  obtain ⟨members, behind, hdrop, hmembers⟩ := List.eq_append_cons_of_mem hmem
  rw [scanSet?_of_drop hdrop hmembers] at h
  cases h
  have hlength := congrArg List.length hdrop
  simp only [List.length_drop, List.length_append, List.length_cons] at hlength
  refine ⟨by omega, fun more => ?_⟩
  have hopening : opening (cs ++ more) = opening cs :=
    opening_append (fun hnil => by simp [hnil] at hmem) more
  have hmore : (cs ++ more).drop (opening (cs ++ more)) = members ++ ']' :: (rest ++ more) := by
    rw [hopening, List.drop_append_of_le_length (by omega), hdrop, List.append_assoc,
      List.cons_append]
  rw [scanSet?_of_drop hmore hmembers, hopening, List.take_append_of_le_length (by omega)]

/-- A set that is not closed is not closed by what has no closing bracket. -/
private theorem scanSet?_append_none {more : List Char} (h : scanSet? cs = none)
    (hmore : ']' ∉ more) : scanSet? (cs ++ more) = none := by
  refine scanSet?_of_not_mem fun hmem => ?_
  rcases eq_or_ne cs [] with rfl | hcs
  · exact hmore (List.mem_of_mem_drop hmem)
  · rw [opening_append hcs, List.drop_append] at hmem
    rcases List.mem_append.mp hmem with hmem | hmem
    · exact scanSet?_eq_none_iff.mp h hmem
    · exact hmore (List.mem_of_mem_drop hmem)

/-- Two closing brackets close any set, since the first character of a set is all that can take one
of them for a member. -/
private theorem scanSet?_append_closed (cs : List Char) : scanSet? (cs ++ [']', ']']) ≠ none := by
  rw [Ne, scanSet?_eq_none_iff, not_not]
  have hle : opening (cs ++ [']', ']']) ≤ (cs ++ [']']).length := by
    rcases cs with _ | ⟨c, cs⟩
    · decide
    · rw [opening]
      split <;> simp
  rw [show cs ++ [']', ']'] = (cs ++ [']']) ++ [']'] by simp] at hle ⊢
  rw [List.drop_append_of_le_length hle]
  exact List.mem_append_right _ (List.mem_singleton_self _)

/-! ## The parts of a pattern -/

private theorem tokens_congr {m n : Nat} (hm : cs.length ≤ m) (hn : cs.length ≤ n) :
    tokens m cs = tokens n cs := by
  induction m generalizing n cs with
  | zero =>
    obtain rfl := List.length_eq_zero_iff.mp (Nat.le_zero.mp hm)
    cases n <;> rfl
  | succ m ih =>
    cases cs with
    | nil => cases n <;> rfl
    | cons c cs =>
      obtain ⟨n, rfl⟩ := Nat.exists_eq_succ_of_ne_zero (Nat.ne_zero_of_lt hn)
      have hcs : tokens m cs = tokens n cs :=
        ih (Nat.le_of_succ_le_succ hm) (Nat.le_of_succ_le_succ hn)
      simp only [tokens, hcs]
      cases hscan : scanSet? cs with
      | none => rfl
      | some found =>
        have hlt := (scanSet?_some hscan).1
        have hrest : tokens m found.2 = tokens n found.2 := by
          rw [List.length_cons] at hm hn
          exact ih (by omega) (by omega)
        simp only [hrest]

/-- The fuel of a pattern is enough for the rest of a longer one. -/
private theorem tokens_eq {n : Nat} (h : cs.length ≤ n) : tokens n cs = ofPattern cs :=
  tokens_congr h (Nat.le_refl _)

theorem ofPattern_star (cs : List Char) : ofPattern ('*' :: cs) = .star :: ofPattern cs := rfl

theorem ofPattern_any (cs : List Char) : ofPattern ('?' :: cs) = .any :: ofPattern cs := rfl

theorem ofPattern_set {body rest : List Char} (h : scanSet? cs = some (body, rest)) :
    ofPattern ('[' :: cs) = setToken body :: ofPattern rest := by
  have hrest := tokens_eq (Nat.le_of_lt (scanSet?_some h).1)
  simp [ofPattern, tokens, h, hrest]

theorem ofPattern_only {c : Char} (hstar : c ≠ '*') (hany : c ≠ '?')
    (hset : c = '[' → scanSet? cs = none) : ofPattern (c :: cs) = .only c :: ofPattern cs := by
  by_cases hc : c = '['
  · subst hc
    simp [ofPattern, tokens, hset rfl]
  · simp [ofPattern, tokens, hstar, hany, hc]

/-- A pattern is empty, or it starts with a star, a question mark, a set or a character that stands
for itself. -/
@[elab_as_elim]
theorem ofPattern_induction {motive : List Char → Prop} (nil : motive [])
    (star : ∀ cs, motive cs → motive ('*' :: cs)) (any : ∀ cs, motive cs → motive ('?' :: cs))
    (set : ∀ cs body rest, scanSet? cs = some (body, rest) → motive rest → motive ('[' :: cs))
    (only : ∀ c cs, c ≠ '*' → c ≠ '?' → (c = '[' → scanSet? cs = none) → motive cs →
      motive (c :: cs)) (cs : List Char) : motive cs := by
  induction hlength : cs.length using Nat.strongRecOn generalizing cs with
  | _ n ih =>
    subst hlength
    cases cs with
    | nil => exact nil
    | cons c cs =>
      have hcs : motive cs := ih _ (Nat.lt_succ_self _) cs rfl
      by_cases hstar : c = '*'
      · exact hstar ▸ star cs hcs
      by_cases hany : c = '?'
      · exact hany ▸ any cs hcs
      by_cases hset : c = '['
      · cases hscan : scanSet? cs with
        | none => exact only c cs hstar hany (fun _ => hscan) hcs
        | some found =>
          have hlt := (scanSet?_some hscan).1
          exact hset ▸ set cs found.1 found.2 hscan (ih _ (Nat.lt_succ_of_lt hlt) _ rfl)
      · exact only c cs hstar hany (fun h => absurd h hset) hcs

/-- The parts of two patterns, one behind the other, if no set opens in the first one and closes in
the second. -/
theorem ofPattern_append {a b : List Char} (h : '[' ∉ a ∨ ']' ∉ b) :
    ofPattern (a ++ b) = ofPattern a ++ ofPattern b := by
  induction a using ofPattern_induction with
  | nil => rfl
  | star cs ih =>
    rw [List.cons_append, ofPattern_star, ofPattern_star, List.cons_append,
      ih (h.imp_left fun hnot hmem => hnot (List.mem_cons_of_mem _ hmem))]
  | any cs ih =>
    rw [List.cons_append, ofPattern_any, ofPattern_any, List.cons_append,
      ih (h.imp_left fun hnot hmem => hnot (List.mem_cons_of_mem _ hmem))]
  | set cs body rest hscan ih =>
    have hb : ']' ∉ b := h.resolve_left fun hnot => hnot (List.mem_cons_self ..)
    rw [List.cons_append, ofPattern_set ((scanSet?_some hscan).2 b), ofPattern_set hscan,
      List.cons_append, ih (Or.inr hb)]
  | only c cs hstar hany hset ih =>
    have hmore : c = '[' → scanSet? (cs ++ b) = none := fun hc =>
      scanSet?_append_none (hset hc) (h.resolve_left fun hnot => hnot (hc ▸ List.mem_cons_self ..))
    rw [List.cons_append, ofPattern_only hstar hany hmore, ofPattern_only hstar hany hset,
      List.cons_append, ih (h.imp_left fun hnot hmem => hnot (List.mem_cons_of_mem _ hmem))]

private theorem length_ofPattern_le (cs : List Char) : (ofPattern cs).length ≤ cs.length := by
  induction cs using ofPattern_induction with
  | nil => exact Nat.le_refl _
  | star cs ih => exact Nat.succ_le_succ ih
  | any cs ih => exact Nat.succ_le_succ ih
  | set cs body rest hscan ih =>
    have hlt := (scanSet?_some hscan).1
    rw [ofPattern_set hscan, List.length_cons, List.length_cons]
    omega
  | only c cs hstar hany hset ih =>
    rw [ofPattern_only hstar hany hset]
    exact Nat.succ_le_succ ih

/-- A pattern of as many parts as characters has no set, so its stars are parts. -/
private theorem of_length_ofPattern (h : (ofPattern cs).length = cs.length) :
    ('*' ∈ cs → .star ∈ ofPattern cs) ∧
      ∀ front behind, cs = front ++ '[' :: behind → scanSet? behind = none := by
  induction cs using ofPattern_induction with
  | nil => exact ⟨fun hmem => (nomatch hmem), fun front behind hcs => by simp at hcs⟩
  | star cs ih =>
    refine ⟨fun _ => List.mem_cons_self .., fun front behind hcs => ?_⟩
    rcases List.cons_eq_append_iff.mp hcs with ⟨-, hhead⟩ | ⟨front, -, hcs⟩
    · cases hhead
    · exact (ih (Nat.succ.inj h)).2 front behind hcs
  | any cs ih =>
    refine ⟨fun hmem => ?_, fun front behind hcs => ?_⟩
    · refine List.mem_cons_of_mem _ ((ih (Nat.succ.inj h)).1 ?_)
      simpa using hmem
    · rcases List.cons_eq_append_iff.mp hcs with ⟨-, hhead⟩ | ⟨front, -, hcs⟩
      · cases hhead
      · exact (ih (Nat.succ.inj h)).2 front behind hcs
  | set cs body rest hscan ih =>
    have hlt := (scanSet?_some hscan).1
    have hle := length_ofPattern_le rest
    rw [ofPattern_set hscan, List.length_cons, List.length_cons] at h
    omega
  | only c cs hstar hany hset ih =>
    rw [ofPattern_only hstar hany hset] at h ⊢
    refine ⟨fun hmem => ?_, fun front behind hcs => ?_⟩
    · refine List.mem_cons_of_mem _ ((ih (Nat.succ.inj h)).1 ?_)
      exact (List.mem_cons.mp hmem).resolve_left hstar.symm
    · rcases List.cons_eq_append_iff.mp hcs with ⟨-, hhead⟩ | ⟨front, -, hcs⟩
      · obtain ⟨rfl, rfl⟩ := List.cons.inj hhead.symm
        exact hset rfl
      · exact (ih (Nat.succ.inj h)).2 front behind hcs

/-! ## What the parts cover -/

section Covers

variable {t : Token} {ts us : List Token} {text : List Char}

theorem covers_nil_iff : covers [] text = true ↔ text = [] := by
  cases text with
  | nil => simp [covers]
  | cons c text => simp [covers]

theorem covers_star_iff :
    covers (.star :: ts) text = true ↔ ∃ x y, text = x ++ y ∧ covers ts y = true := by
  induction text with
  | nil =>
    rw [covers]
    constructor
    · exact fun h => ⟨[], [], rfl, h⟩
    · rintro ⟨x, y, htext, hy⟩
      obtain ⟨-, rfl⟩ := List.nil_eq_append_iff.mp htext
      exact hy
  | cons c text ih =>
    rw [covers, Bool.or_eq_true, ih]
    constructor
    · rintro (h | ⟨x, y, rfl, hy⟩)
      · exact ⟨[], _, rfl, h⟩
      · exact ⟨c :: x, y, rfl, hy⟩
    · rintro ⟨x, y, htext, hy⟩
      rcases List.cons_eq_append_iff.mp htext with ⟨-, rfl⟩ | ⟨x, -, rfl⟩
      · exact Or.inl hy
      · exact Or.inr ⟨x, y, rfl, hy⟩

theorem covers_cons_iff (ht : t ≠ .star) :
    covers (t :: ts) text = true ↔
      ∃ c rest, text = c :: rest ∧ t.accepts c = true ∧ covers ts rest = true := by
  cases text with
  | nil =>
    rw [covers]
    · refine iff_of_false Bool.noConfusion ?_
      rintro ⟨c, rest, htext, -⟩
      cases htext
    · exact ht
  | cons c rest =>
    rw [covers, Bool.and_eq_true]
    · refine ⟨fun h => ⟨c, rest, rfl, h⟩, ?_⟩
      rintro ⟨_, _, htext, h⟩
      cases htext
      exact h
    · exact ht

theorem covers_append_iff :
    covers (ts ++ us) text = true ↔
      ∃ x y, text = x ++ y ∧ covers ts x = true ∧ covers us y = true := by
  induction ts generalizing text with
  | nil =>
    constructor
    · exact fun h => ⟨[], text, rfl, covers_nil_iff.mpr rfl, h⟩
    · rintro ⟨x, y, rfl, hx, hy⟩
      obtain rfl := covers_nil_iff.mp hx
      exact hy
  | cons t ts ih =>
    by_cases ht : t = .star
    · subst ht
      rw [List.cons_append, covers_star_iff]
      constructor
      · rintro ⟨w, z, rfl, hz⟩
        obtain ⟨x, y, rfl, hx, hy⟩ := ih.mp hz
        exact ⟨w ++ x, y, (List.append_assoc ..).symm, covers_star_iff.mpr ⟨w, x, rfl, hx⟩, hy⟩
      · rintro ⟨x, y, rfl, hx, hy⟩
        obtain ⟨w, z, rfl, hz⟩ := covers_star_iff.mp hx
        exact ⟨w, z ++ y, List.append_assoc .., ih.mpr ⟨z, y, rfl, hz, hy⟩⟩
    · rw [List.cons_append, covers_cons_iff ht]
      constructor
      · rintro ⟨c, rest, rfl, hc, hrest⟩
        obtain ⟨x, y, rfl, hx, hy⟩ := ih.mp hrest
        exact ⟨c :: x, y, rfl, (covers_cons_iff ht).mpr ⟨c, x, rfl, hc, hx⟩, hy⟩
      · rintro ⟨x, y, rfl, hx, hy⟩
        obtain ⟨c, z, rfl, hc, hz⟩ := (covers_cons_iff ht).mp hx
        exact ⟨c, z ++ y, rfl, hc, ih.mpr ⟨z, y, rfl, hz, hy⟩⟩

/-- Without a star, each part covers one character. -/
theorem length_of_covers (hts : .star ∉ ts) (h : covers ts text = true) :
    text.length = ts.length := by
  induction ts generalizing text with
  | nil => rw [covers_nil_iff.mp h]; rfl
  | cons t ts ih =>
    obtain ⟨c, rest, rfl, -, hrest⟩ :=
      (covers_cons_iff (List.ne_of_not_mem_cons hts).symm).mp h
    exact congrArg Nat.succ (ih (fun hmem => hts (List.mem_cons_of_mem _ hmem)) hrest)

/-- With a star, what covers a text covers it with something behind it as well. -/
private theorem covers_more (hts : .star ∈ ts) (h : covers ts text = true) :
    ∃ more, more ≠ [] ∧ covers ts (text ++ more) = true := by
  obtain ⟨front, behind, rfl⟩ := List.append_of_mem hts
  obtain ⟨x, y, rfl, hx, hy⟩ := covers_append_iff.mp h
  obtain ⟨w, z, rfl, hz⟩ := covers_star_iff.mp hy
  -- the star takes all that it had and the rest, and then the rest once more
  refine ⟨' ' :: z, List.cons_ne_nil _ _, covers_append_iff.mpr ?_⟩
  refine ⟨x, (w ++ z) ++ ' ' :: z, List.append_assoc .., hx, covers_star_iff.mpr ?_⟩
  exact ⟨(w ++ z) ++ [' '], z, by simp, hz⟩

end Covers

/-! ## Stems -/

/-- A pattern that covers itself, and nothing that goes on from itself, has no star and no set: a star
stretches over more, and a set takes up fewer characters than it has. -/
private theorem literal_of_covers (hself : covers (ofPattern cs) cs = true)
    (hmore : ∀ more, covers (ofPattern cs) (cs ++ more) = true → more = []) :
    '*' ∉ cs ∧ ∀ front behind, cs = front ++ '[' :: behind → scanSet? behind = none := by
  have hstar : .star ∉ ofPattern cs := fun hmem => by
    obtain ⟨more, hne, hcovers⟩ := covers_more hmem hself
    exact hne (hmore more hcovers)
  obtain ⟨hstars, hsets⟩ := of_length_ofPattern (length_of_covers hstar hself).symm
  exact ⟨fun hmem => hstar (hstars hmem), hsets⟩

/-- The parts of a stem without stars and opening brackets, one for each character, cover the stem in
front of a text. -/
private theorem covers_ofPattern_append {stem : List Char} (h : ∀ c ∈ stem, c ≠ '*' ∧ c ≠ '[')
    (ts : List Token) (text : List Char) :
    covers (ofPattern stem ++ ts) (stem ++ text) = covers ts text := by
  induction stem with
  | nil => rfl
  | cons c stem ih =>
    obtain ⟨⟨hstar, hset⟩, hstem⟩ := List.forall_mem_cons.mp h
    by_cases hany : c = '?'
    · subst hany
      rw [ofPattern_any, List.cons_append, List.cons_append, covers, ih hstem]
      · rfl
      · exact Token.noConfusion
    · rw [ofPattern_only hstar hany (fun hc => absurd hc hset), List.cons_append, List.cons_append,
        covers, ih hstem]
      · simp [Token.accepts]
      · exact Token.noConfusion

/-- A stem and a pattern match the stem and a text just when the pattern matches the text, for every
pattern and text, exactly if the stem has no star and no opening bracket. -/
theorem isMatch_append_iff {stem : String} :
    (∀ pattern text, isMatch (stem ++ pattern) (stem ++ text) = isMatch pattern text) ↔
      ∀ c ∈ stem.toList, c ≠ '*' ∧ c ≠ '[' := by
  constructor
  · intro h
    -- two brackets behind the stem close every set that opens in it
    have hmatch (text : List Char) : covers (ofPattern (stem.toList ++ [']', ']']))
        (stem.toList ++ text) = covers [.only ']', .only ']'] text := by
      have hboth := h "]]" (String.ofList text)
      simp only [isMatch, String.toList_append, String.toList_ofList] at hboth
      exact hboth
    have hself := hmatch [']', ']']
    rw [show covers [.only ']', .only ']'] [']', ']'] = true by simp [covers, Token.accepts]] at hself
    obtain ⟨hstars, hsets⟩ := literal_of_covers hself fun more hmore => by
      rw [List.append_assoc, hmatch] at hmore
      have hlength := length_of_covers (by decide) hmore
      simpa using hlength
    refine fun c hc => ⟨fun hc' => ?_, fun hc' => ?_⟩
    · exact hstars (List.mem_append_left _ (hc' ▸ hc))
    · obtain ⟨front, behind, hstem⟩ := List.append_of_mem (hc' ▸ hc)
      exact scanSet?_append_closed behind
        (hsets front _ (by rw [hstem, List.append_assoc, List.cons_append]))
  · intro h pattern text
    rw [isMatch, String.toList_append, String.toList_append,
      ofPattern_append (Or.inl fun hmem => (h _ hmem).2 rfl), covers_ofPattern_append h, isMatch]

/-- A stem and plain characters with a star behind them match what goes on, with those characters,
from something that the stem matches. -/
theorem isMatch_append_star_iff (stem : String) {lit : String} (hplain : ∀ c ∈ lit.toList, IsPlain c)
    (hopen : ']' ∉ lit.toList) (text : String) :
    isMatch (stem ++ (lit ++ "*")) text = true ↔
      ∃ x, isMatch stem (String.ofList x) = true ∧ x ++ lit.toList <+: text.toList := by
  have hparts : ofPattern (lit.toList ++ ['*']) = lit.toList.map .only ++ [.star] :=
    tokens_plain hplain (by simp)
  have hset : ']' ∉ lit.toList ++ ['*'] := by simpa using hopen
  have hpattern : (stem ++ (lit ++ "*")).toList = stem.toList ++ (lit.toList ++ ['*']) := by
    rw [String.toList_append, String.toList_append]
    rfl
  simp only [isMatch, String.toList_ofList]
  rw [hpattern, ofPattern_append (Or.inr hset), hparts, covers_append_iff]
  constructor
  · rintro ⟨x, y, htext, hx, hy⟩
    refine ⟨x, hx, ?_⟩
    rw [htext, List.prefix_append_right_inj]
    exact (covers_plain _ y).mp hy
  · rintro ⟨x, hx, y, htext⟩
    refine ⟨x, lit.toList ++ y, by rw [← htext, List.append_assoc], hx, ?_⟩
    exact (covers_plain _ _).mpr (List.prefix_append _ _)

end CostCatalog.Glob
