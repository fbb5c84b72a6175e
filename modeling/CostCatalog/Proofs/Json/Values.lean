import CostCatalog.Proofs.Json.Controls
import CostCatalog.Proofs.Json.Numbers
import CostCatalog.Proofs.Json.Texts

/-!
# Values read back

A value whose objects name each member once, and in which no writer meets an obstacle, is read back
from its text by a reader that may go as deep, `parse_print`. From its text in ASCII it is read back
if besides no low half of a surrogate pair stands directly behind a high one in any of its texts,
`decode_printAscii`; in strings none ever does. The fuel of the reader is measured against the text:
twice its length is enough for a value, and one more for the inside of an array or an object.
-/

namespace CostCatalog.Json

variable {τ : Type}

/-! ## Objects -/

mutual

/-- No object in a value names a member twice. -/
def WellNamed : Json τ → Prop
  | .arr items => ItemsWellNamed items
  | .obj members => (members.map (·.1)).Nodup ∧ MembersWellNamed members
  | _ => True

def ItemsWellNamed : List (Json τ) → Prop
  | [] => True
  | v :: vs => v.WellNamed ∧ ItemsWellNamed vs

def MembersWellNamed : List (τ × Json τ) → Prop
  | [] => True
  | m :: ms => m.2.WellNamed ∧ MembersWellNamed ms

end

private theorem setMember_of_not_mem [DecidableEq τ] {name : τ} {v : Json τ}
    {ms : List (τ × Json τ)} (h : name ∉ ms.map (·.1)) : setMember name v ms = ms ++ [(name, v)] := by
  induction ms with
  | nil => rfl
  | cons m ms ih =>
    rw [List.map_cons, List.mem_cons, not_or] at h
    rw [setMember, if_neg (Ne.symm h.1), ih h.2]
    rfl

/-- Members of different names stay as they are. -/
private theorem ofMembers_of_nodup [DecidableEq τ] {ms : List (τ × Json τ)}
    (h : (ms.map (·.1)).Nodup) : ofMembers ms = .obj ms := by
  have hfold (front : List (τ × Json τ)) (hnodup : ((front ++ ms).map (·.1)).Nodup) :
      ms.foldl (fun acc m => setMember m.1 m.2 acc) front = front ++ ms := by
    clear h
    induction ms generalizing front with
    | nil => exact (List.append_nil front).symm
    | cons m ms ih =>
      have hnot : m.1 ∉ front.map (·.1) := by
        rw [List.map_append, List.map_cons] at hnodup
        exact fun hm => (List.nodup_append.mp hnodup).2.2 _ hm _ (List.mem_cons_self ..) rfl
      rw [List.append_cons] at hnodup ⊢
      rw [List.foldl_cons, setMember_of_not_mem hnot]
      exact ih (front ++ [m]) hnodup
  rw [ofMembers, hfold [] h]
  rfl

/-! ## Texts -/

mutual

/-- All texts in a value have a property, the names of members among them. -/
def EachText (P : τ → Prop) : Json τ → Prop
  | .str s => P s
  | .arr items => ItemsEachText P items
  | .obj members => MembersEachText P members
  | _ => True

def ItemsEachText (P : τ → Prop) : List (Json τ) → Prop
  | [] => True
  | v :: vs => v.EachText P ∧ ItemsEachText P vs

def MembersEachText (P : τ → Prop) : List (τ × Json τ) → Prop
  | [] => True
  | m :: ms => (P m.1 ∧ m.2.EachText P) ∧ MembersEachText P ms

end

section

variable {P : τ → Prop}

mutual

theorem eachText_of_forall (hP : ∀ s, P s) : ∀ v : Json τ, v.EachText P
  | .null => trivial
  | .bool _ => trivial
  | .int _ => trivial
  | .float _ => trivial
  | .str s => hP s
  | .arr items => itemsEachText_of_forall hP items
  | .obj members => membersEachText_of_forall hP members

private theorem itemsEachText_of_forall (hP : ∀ s, P s) :
    ∀ vs : List (Json τ), ItemsEachText P vs
  | [] => trivial
  | v :: vs => ⟨eachText_of_forall hP v, itemsEachText_of_forall hP vs⟩

private theorem membersEachText_of_forall (hP : ∀ s, P s) :
    ∀ ms : List (τ × Json τ), MembersEachText P ms
  | [] => trivial
  | m :: ms => ⟨⟨hP m.1, eachText_of_forall hP m.2⟩, membersEachText_of_forall hP ms⟩

end

end

/-- No low half of a surrogate pair stands directly behind a high one in the texts of a value. -/
def Unsplit [Textual τ] (v : Json τ) : Prop := v.EachText fun s => (Textual.points s).IsChain Apart

/-- In a string there are no halves at all. -/
theorem unsplit (v : Json) : v.Unsplit := by
  refine eachText_of_forall (fun s => ?_) v
  refine (List.isChain_map _).mpr (List.Pairwise.isChain ?_)
  exact List.pairwise_of_forall fun c _ h => absurd h (CodePoint.not_isHigh_char c)

/-! ## What can be written -/

private theorem obstacle?_arr {levels : Nat} {items : List (Json τ)} :
    (Json.arr items).obstacle? levels = none ↔
      ∃ below, levels = below + 1 ∧ itemsObstacle? below items = none := by
  cases levels with
  | zero => simp [obstacle?]
  | succ below => simp [obstacle?]

private theorem obstacle?_obj {levels : Nat} {members : List (τ × Json τ)} :
    (Json.obj members).obstacle? levels = none ↔
      ∃ below, levels = below + 1 ∧ membersObstacle? below members = none := by
  cases levels with
  | zero => simp [obstacle?]
  | succ below => simp [obstacle?]

theorem itemsObstacle?_eq_none_iff {levels : Nat} {items : List (Json τ)} :
    itemsObstacle? levels items = none ↔ ∀ v ∈ items, v.obstacle? levels = none := by
  induction items with
  | nil => exact iff_of_true rfl (List.forall_mem_nil _)
  | cons v vs ih => rw [itemsObstacle?, Option.or_eq_none_iff, ih, List.forall_mem_cons]

theorem membersObstacle?_eq_none_iff {levels : Nat} {members : List (τ × Json τ)} :
    membersObstacle? levels members = none ↔ ∀ m ∈ members, m.2.obstacle? levels = none := by
  induction members with
  | nil => exact iff_of_true rfl (List.forall_mem_nil _)
  | cons m ms ih => rw [membersObstacle?, Option.or_eq_none_iff, ih, List.forall_mem_cons]

/-! ## The first character -/

/-- The text starts as a word or a number does. -/
def StartsScalar : List CodePoint → Prop
  | [] => False
  | p :: _ => p ≠ .char '"' ∧ p ≠ .char '[' ∧ p ≠ .char '{' ∧ p ≠ .char ']' ∧
      p.isChar isSpace = false ∧ p ≠ .char '\uFEFF'

private theorem StartsWithDigit.startsScalar {cs : List Char} (h : StartsWithDigit cs)
    (rest : List CodePoint) : StartsScalar (CodePoint.ofChars cs ++ rest) := by
  cases cs with
  | nil => exact h.elim
  | cons c cs =>
    have hchar {d : Char} (hd : d.isDigit = false) : c ≠ d := fun hc => by
      rw [← hc, show c.isDigit = true from h] at hd
      cases hd
    have hother {d : Char} (hd : d.isDigit = false) : CodePoint.char c ≠ .char d := fun hc =>
      hchar hd (CodePoint.char.inj hc)
    have hspace : isSpace c = false := by
      simp only [isSpace, Bool.or_eq_false_iff, beq_eq_false_iff_ne]
      exact ⟨⟨⟨hchar rfl, hchar rfl⟩, hchar rfl⟩, hchar rfl⟩
    exact ⟨hother rfl, hother rfl, hother rfl, hother rfl, hspace, hother rfl⟩

private theorem startsScalar_minus (ps : List CodePoint) : StartsScalar (.char '-' :: ps) := by
  refine ⟨?_, ?_, ?_, ?_, ?_, ?_⟩ <;> decide

private theorem startsScalar_intChars (n : Int) (rest : List CodePoint) :
    StartsScalar (CodePoint.ofChars (intChars n) ++ rest) := by
  unfold intChars
  split
  · exact startsScalar_minus _
  · exact (whole_toDigits _).startsWithDigit.startsScalar rest

private theorem startsScalar_floatText (x : Float) (rest : List CodePoint) :
    StartsScalar (CodePoint.ofChars (Shortest.floatText floatNames x) ++ rest) := by
  unfold Shortest.floatText
  split
  · refine ⟨?_, ?_, ?_, ?_, ?_, ?_⟩ <;> decide
  · simp only
    split
    · exact startsScalar_minus _
    · split
      · exact (startsWithDigit_decimalText _).startsScalar rest
      · refine ⟨?_, ?_, ?_, ?_, ?_, ?_⟩ <;> decide

/-- A word or a number is read as such. -/
private theorem scanValue_scalar [Textual τ] [DecidableEq τ] {ps : List CodePoint}
    (h : StartsScalar ps) (fuel levels : Nat) :
    scanValue (τ := τ) (fuel + 1) levels ps = scanScalar ps := by
  cases ps with
  | nil => exact h.elim
  | cons p ps =>
    obtain ⟨hquote, harray, hobject, -⟩ := h
    rw [scanValue]
    · exact fun _ heq => hquote (List.cons.inj heq).1
    · exact fun _ heq => harray (List.cons.inj heq).1
    · exact fun _ heq => hobject (List.cons.inj heq).1

/-- A word that is no number is read as such. -/
private theorem scanValue_word [Textual τ] [DecidableEq τ] {c : Char} {cs : List Char}
    (hrun : IsRun (c :: cs)) {v : Json τ} (hread : scanToken? (c :: cs) = some (v, []))
    (hv : ∀ n, v ≠ .int n) {fuel levels : Nat} {rest : List CodePoint} (hrest : Ends rest) :
    scanValue (fuel + 1) levels (CodePoint.ofChars (c :: cs) ++ rest) = .ok (v, rest) := by
  have hother {d : Char} (hd : isTokenChar d = false) : CodePoint.char c ≠ .char d := fun h => by
    have hc := hrun c (List.mem_cons_self ..)
    rw [CodePoint.char.inj h, hd] at hc
    cases hc
  rw [CodePoint.ofChars, List.map_cons, List.cons_append, scanValue]
  · exact scanScalar_run hrun hread hrest fun n h => absurd h (hv n)
  · exact fun _ heq => hother rfl (List.cons.inj heq).1
  · exact fun _ heq => hother rfl (List.cons.inj heq).1
  · exact fun _ heq => hother rfl (List.cons.inj heq).1

section

variable [Textual τ]

/-- No value starts with the end of an array, a blank or a byte order mark. -/
private theorem spell_head (escape : Escape) (v : Json τ) (rest : List CodePoint) :
    ∃ p ps, spell escape v ++ rest = p :: ps ∧ p ≠ .char ']' ∧ p.isChar isSpace = false ∧
      p ≠ .char '\uFEFF' := by
  have hscalar {ps : List CodePoint} (h : StartsScalar ps) :
      ∃ p ps', ps = p :: ps' ∧ p ≠ .char ']' ∧ p.isChar isSpace = false ∧ p ≠ .char '\uFEFF' := by
    cases ps with
    | nil => exact h.elim
    | cons p ps => exact ⟨p, ps, rfl, h.2.2.2⟩
  cases v with
  | null => exact ⟨_, _, rfl, by decide⟩
  | bool b => cases b <;> exact ⟨_, _, rfl, by decide⟩
  | int n => exact hscalar (startsScalar_intChars n rest)
  | float x => exact hscalar (startsScalar_floatText x rest)
  | str s => exact ⟨_, _, rfl, by decide⟩
  | arr items => exact ⟨_, _, rfl, by decide⟩
  | obj members => exact ⟨_, _, rfl, by decide⟩

private theorem spell_ne_nil (escape : Escape) (v : Json τ) : spell escape v ≠ [] := by
  obtain ⟨p, ps, h, -⟩ := spell_head escape v []
  rw [List.append_nil] at h
  rw [h]
  exact List.cons_ne_nil p ps

private theorem skipSpace_of_head {p : CodePoint} (h : p.isChar isSpace = false)
    (ps : List CodePoint) : skipSpace (p :: ps) = p :: ps :=
  List.dropWhile_cons_of_neg (Bool.eq_false_iff.mp h)

private theorem spellItems_head (escape : Escape) (v : Json τ) (vs : List (Json τ))
    (rest : List CodePoint) :
    ∃ p ps, spellItems escape (v :: vs) ++ rest = p :: ps ∧ p ≠ .char ']' ∧
      p.isChar isSpace = false := by
  obtain ⟨more, hmore⟩ : ∃ more, spellItems escape (v :: vs) ++ rest = spell escape v ++ more := by
    cases vs with
    | nil => exact ⟨rest, rfl⟩
    | cons w vs => exact ⟨_, by rw [spellItems, List.append_assoc]⟩
  obtain ⟨p, ps, hps, hp, hspace, -⟩ := spell_head escape v more
  exact ⟨p, ps, hmore.trans hps, hp, hspace⟩

end

/-! ## Steps of the reader -/

section Steps

variable [Textual τ] [DecidableEq τ] {fuel levels : Nat} {p : CodePoint} {ps r r' : List CodePoint}
  {k : τ} {v : Json τ}

private theorem scanValue_items (hp : p ≠ .char ']') (hspace : p.isChar isSpace = false) :
    scanValue (τ := τ) (fuel + 1) (levels + 1) (.char '[' :: p :: ps) =
      (scanItems fuel levels (p :: ps)).map fun found => (.arr found.1, found.2) := by
  rw [scanValue, skipSpace_of_head hspace]
  dsimp only
  split
  · next heq => exact absurd (List.cons.inj heq).1 hp
  · cases scanItems (τ := τ) fuel levels (p :: ps) <;> rfl

private theorem scanValue_members :
    scanValue (τ := τ) (fuel + 1) (levels + 1) (.char '{' :: .char '"' :: ps) =
      (scanMembers fuel levels (.char '"' :: ps)).map fun found =>
        (ofMembers found.1, found.2) := by
  rw [scanValue, skipSpace_of_head rfl]
  dsimp only
  split
  · next heq => cases heq
  · cases scanMembers (τ := τ) fuel levels (.char '"' :: ps) <;> rfl

private theorem scanItems_last (h : scanValue fuel levels ps = .ok (v, .char ']' :: r)) :
    scanItems (fuel + 1) levels ps = .ok ([v], r) := by
  rw [scanItems, h]
  rfl

private theorem scanItems_more
    (h : scanValue fuel levels ps = .ok (v, .char ',' :: .char ' ' :: p :: r))
    (hspace : p.isChar isSpace = false) :
    scanItems (fuel + 1) levels ps =
      (scanItems fuel levels (p :: r)).map fun found => (v :: found.1, found.2) := by
  have hskip : skipSpace (.char ' ' :: p :: r) = p :: r := skipSpace_of_head hspace r
  rw [scanItems, h]
  simp only [bind, Except.bind, skipSpace_of_head (p := .char ',') rfl, hskip]
  cases scanItems (τ := τ) fuel levels (p :: r) <;> rfl

private theorem scanMembers_last (hk : scanQuoted ps = .ok (k, .char ':' :: .char ' ' :: p :: r))
    (hspace : p.isChar isSpace = false)
    (hv : scanValue fuel levels (p :: r) = .ok (v, .char '}' :: r')) :
    scanMembers (fuel + 1) levels (.char '"' :: ps) = .ok ([(k, v)], r') := by
  have hskip : skipSpace (.char ' ' :: p :: r) = p :: r := skipSpace_of_head hspace r
  rw [scanMembers, hk]
  simp only [bind, Except.bind, skipSpace_of_head (p := .char ':') rfl, hskip, hv,
    skipSpace_of_head (p := .char '}') rfl]

private theorem scanMembers_more (hk : scanQuoted ps = .ok (k, .char ':' :: .char ' ' :: p :: r))
    (hspace : p.isChar isSpace = false)
    (hv : scanValue fuel levels (p :: r) = .ok (v, .char ',' :: .char ' ' :: .char '"' :: r')) :
    scanMembers (fuel + 1) levels (.char '"' :: ps) =
      (scanMembers fuel levels (.char '"' :: r')).map fun found => ((k, v) :: found.1, found.2) := by
  have hskip : skipSpace (.char ' ' :: p :: r) = p :: r := skipSpace_of_head hspace r
  have hname : skipSpace (.char ' ' :: .char '"' :: r') = .char '"' :: r' := rfl
  rw [scanMembers, hk]
  simp only [bind, Except.bind, skipSpace_of_head (p := .char ':') rfl, hskip, hv,
    skipSpace_of_head (p := .char ',') rfl, hname]
  cases scanMembers (τ := τ) fuel levels (.char '"' :: r') <;> rfl

end Steps

/-! ## Values, items and members -/

section

variable [Textual τ] [DecidableEq τ] {escape : Escape} {Follows : CodePoint → CodePoint → Prop}

mutual

/-- A value is read back when its end can be told from what follows. -/
private theorem scanValue_spell (hesc : escape.ReadsBack Follows) : ∀ (v : Json τ), v.WellNamed →
    (v.EachText fun s => (Textual.points s).IsChain Follows) →
    ∀ (fuel levels : Nat) (rest : List CodePoint), v.obstacle? levels = none → Ends rest →
      2 * (spell escape v).length ≤ fuel →
      scanValue fuel levels (spell escape v ++ rest) = .ok (v, rest)
  | .null, _, _, fuel + 1, levels, rest, _, hrest, _ =>
    scanValue_word (v := .null) (IsRun.of_all rfl) rfl (fun _ h => nomatch h) hrest
  | .bool true, _, _, fuel + 1, levels, rest, _, hrest, _ =>
    scanValue_word (v := .bool true) (IsRun.of_all rfl) rfl (fun _ h => nomatch h) hrest
  | .bool false, _, _, fuel + 1, levels, rest, _, hrest, _ =>
    scanValue_word (v := .bool false) (IsRun.of_all rfl) rfl (fun _ h => nomatch h) hrest
  | .int n, _, _, fuel + 1, _, rest, hn, hrest, _ => by
    have hshort : Decimal.isShort n = true := by
      by_contra hlong
      rw [obstacle?, if_neg hlong] at hn
      cases hn
    rw [spell, scanValue_scalar (startsScalar_intChars n rest), scanScalar_intChars hshort hrest]
  | .float x, _, _, fuel + 1, _, rest, _, hrest, _ => by
    rw [spell, scanValue_scalar (startsScalar_floatText x rest), scanScalar_floatText x hrest]
  | .str s, _, hs, fuel + 1, _, rest, _, _, _ => by
    simp only [spell, quotePoints, List.cons_append, List.append_assoc, List.nil_append, scanValue,
      scanQuoted_flatMap hesc hs]
    rfl
  | .arr [], _, _, fuel + 1, levels, rest, hdeep, _, _ => by
    obtain ⟨below, rfl, -⟩ := obstacle?_arr.mp hdeep
    rfl
  | .arr (v :: vs), hv, hs, fuel + 1, levels, rest, hdeep, hrest, hfuel => by
    obtain ⟨below, rfl, hitems⟩ := obstacle?_arr.mp hdeep
    simp only [spell, List.length_cons, List.length_append, List.length_nil] at hfuel
    have hread := scanItems_spellItems hesc v vs hv hs fuel below rest hitems (by omega)
    obtain ⟨p, ps, hps, hp, hspace⟩ := spellItems_head escape v vs (.char ']' :: rest)
    simp only [spell, List.cons_append, List.append_assoc, List.nil_append]
    rw [hps] at hread ⊢
    rw [scanValue_items hp hspace, hread]
    rfl
  | .obj [], _, _, fuel + 1, levels, rest, hdeep, _, _ => by
    obtain ⟨below, rfl, -⟩ := obstacle?_obj.mp hdeep
    rfl
  | .obj ((k, v) :: ms), hm, hs, fuel + 1, levels, rest, hdeep, hrest, hfuel => by
    obtain ⟨below, rfl, hmembers⟩ := obstacle?_obj.mp hdeep
    simp only [spell, List.length_cons, List.length_append, List.length_nil] at hfuel
    obtain ⟨ps, hps, hread⟩ :=
      scanMembers_spellMembers hesc k v ms hm.2 hs fuel below rest hmembers (by omega)
    simp only [spell, List.cons_append, List.append_assoc, List.nil_append]
    rw [hps, scanValue_members, hread]
    exact congrArg (fun o => Except.ok (o, rest)) (ofMembers_of_nodup hm.1)
  | v, _, _, 0, _, rest, _, _, hfuel => by
    have := List.length_pos_iff.mpr (spell_ne_nil escape v)
    omega

/-- The items of an array are read up to its end. -/
private theorem scanItems_spellItems (hesc : escape.ReadsBack Follows) :
    ∀ (v : Json τ) (vs : List (Json τ)), ItemsWellNamed (v :: vs) →
    ItemsEachText (fun s => (Textual.points s).IsChain Follows) (v :: vs) →
    ∀ (fuel levels : Nat) (rest : List CodePoint), itemsObstacle? levels (v :: vs) = none →
      2 * (spellItems escape (v :: vs)).length < fuel →
      scanItems fuel levels (spellItems escape (v :: vs) ++ .char ']' :: rest) =
        .ok (v :: vs, rest)
  | v, [], hv, hs, fuel + 1, levels, rest, hdeep, hfuel => by
    have hread := scanValue_spell hesc v hv.1 hs.1 fuel levels (.char ']' :: rest)
      (Option.or_eq_none_iff.mp hdeep).1 (Or.inr (Or.inl rfl)) (Nat.le_of_lt_succ hfuel)
    rw [spellItems, scanItems_last hread]
  | v, w :: vs, hv, hs, fuel + 1, levels, rest, hdeep, hfuel => by
    obtain ⟨hfirst, hothers⟩ := Option.or_eq_none_iff.mp hdeep
    simp only [spellItems, List.length_cons, List.length_append] at hfuel
    have hread := scanValue_spell hesc v hv.1 hs.1 fuel levels
      (.char ',' :: .char ' ' :: (spellItems escape (w :: vs) ++ .char ']' :: rest)) hfirst
      (Or.inl rfl) (by omega)
    have hmore := scanItems_spellItems hesc w vs hv.2 hs.2 fuel levels rest hothers (by omega)
    obtain ⟨p, ps, hps, -, hspace⟩ := spellItems_head escape w vs (.char ']' :: rest)
    rw [spellItems, List.append_assoc, List.cons_append, List.cons_append]
    rw [hps] at hread hmore ⊢
    rw [scanItems_more hread hspace, hmore]
    rfl

/-- The members of an object are read up to its end, from the quote of the first name on. -/
private theorem scanMembers_spellMembers (hesc : escape.ReadsBack Follows) :
    ∀ (k : τ) (v : Json τ) (ms : List (τ × Json τ)), MembersWellNamed ((k, v) :: ms) →
    MembersEachText (fun s => (Textual.points s).IsChain Follows) ((k, v) :: ms) →
    ∀ (fuel levels : Nat) (rest : List CodePoint), membersObstacle? levels ((k, v) :: ms) = none →
      2 * (spellMembers escape ((k, v) :: ms)).length < fuel →
      ∃ ps, spellMembers escape ((k, v) :: ms) ++ .char '}' :: rest = .char '"' :: ps ∧
        scanMembers fuel levels (.char '"' :: ps) = .ok ((k, v) :: ms, rest)
  | k, v, [], hv, hs, fuel + 1, levels, rest, hdeep, hfuel => by
    simp only [spellMembers, quotePoints, List.length_cons, List.length_append] at hfuel
    have hread := scanValue_spell hesc v hv.1 hs.1.2 fuel levels (.char '}' :: rest)
      (Option.or_eq_none_iff.mp hdeep).1 (Or.inr (Or.inr rfl)) (by omega)
    obtain ⟨p, ps, hps, -, hspace, -⟩ := spell_head escape v (.char '}' :: rest)
    refine ⟨(Textual.points k).flatMap escape ++ .char '"' :: .char ':' :: .char ' ' :: p :: ps,
      ?_, ?_⟩
    · simp only [spellMembers, quotePoints, List.cons_append, List.append_assoc, List.nil_append,
        hps]
    · rw [hps] at hread
      exact scanMembers_last (scanQuoted_flatMap hesc hs.1.1 _) hspace hread
  | k, v, (l, w) :: ms, hv, hs, fuel + 1, levels, rest, hdeep, hfuel => by
    obtain ⟨hfirst, hothers⟩ := Option.or_eq_none_iff.mp hdeep
    simp only [spellMembers, quotePoints, List.length_cons, List.length_append] at hfuel
    obtain ⟨more, hmore, hnext⟩ :=
      scanMembers_spellMembers hesc l w ms hv.2 hs.2 fuel levels rest hothers (by omega)
    have hread := scanValue_spell hesc v hv.1 hs.1.2 fuel levels
      (.char ',' :: .char ' ' :: .char '"' :: more) hfirst (Or.inl rfl) (by omega)
    obtain ⟨p, ps, hps, -, hspace, -⟩ :=
      spell_head escape v (.char ',' :: .char ' ' :: .char '"' :: more)
    refine ⟨(Textual.points k).flatMap escape ++ .char '"' :: .char ':' :: .char ' ' :: p :: ps,
      ?_, ?_⟩
    · simp only [spellMembers, quotePoints, List.cons_append, List.append_assoc, List.nil_append,
        ← hps, ← hmore]
    · rw [hps] at hread
      rw [scanMembers_more (scanQuoted_flatMap hesc hs.1.1 _) hspace hread, hnext]
      rfl

end

/-! ## Whole texts -/

/-- What a value is written as is read as the value, however its texts are escaped. -/
private theorem parsePoints_spell (hesc : escape.ReadsBack Follows) {v : Json τ} (hv : v.WellNamed)
    (hs : v.EachText fun s => (Textual.points s).IsChain Follows) {levels : Nat}
    (hdeep : v.obstacle? levels = none) : parsePoints levels (spell escape v) = .ok v := by
  obtain ⟨p, ps, hps, -, hspace, hmark⟩ := spell_head escape v []
  rw [List.append_nil] at hps
  have hread := scanValue_spell hesc v hv hs (2 * (spell escape v).length + 2) levels [] hdeep
    trivial (by omega)
  rw [List.append_nil, hps] at hread
  have hplain : ¬ (p :: ps).head? = some (.char '\uFEFF') := fun h => hmark (Option.some.inj h)
  rw [hps, parsePoints, if_neg hplain, skipSpace_of_head hspace, hread]
  rfl

/-- Writing and reading give a value back. -/
theorem parse_print {depth : Depth} {v : Json τ} (hv : v.WellNamed) (hw : v.isWritable depth) :
    parse v.print depth = .ok v := by
  have hany (s : τ) : (Textual.points s).IsChain fun _ _ => True :=
    (List.pairwise_of_forall fun _ _ => trivial).isChain
  rw [parse, decode, points_print, parsePoints_spell escapeControl_readsBack hv
    (eachText_of_forall hany v) (Option.isNone_iff_eq_none.mp hw)]
  rfl

/-- Writing in ASCII and reading give a value back. -/
theorem decode_printAscii {depth : Depth} {v : Json τ} (hv : v.WellNamed) (hs : v.Unsplit)
    (hw : v.isWritable depth) : decode depth (Textual.points v.printAscii) = .ok v := by
  rw [decode, points_printAscii, parsePoints_spell escapeAscii_readsBack hv hs
    (Option.isNone_iff_eq_none.mp hw)]
  rfl

/-! ## Texts nested too deep -/

private theorem skipSpace_brackets (n : Nat) :
    skipSpace (List.replicate n (.char '[')) = List.replicate n (.char '[') := by
  cases n with
  | zero => rfl
  | succ n => rw [List.replicate_succ, skipSpace_of_head (by decide)]

private theorem scanValue_brackets {levels fuel n : Nat} (hn : levels < n)
    (hfuel : 2 * levels < fuel) :
    scanValue (τ := τ) fuel levels (List.replicate n (.char '[')) = .error (.nesting .array) := by
  induction levels generalizing fuel n with
  | zero =>
    obtain ⟨fuel, rfl⟩ : ∃ f, fuel = f + 1 := ⟨fuel - 1, by omega⟩
    obtain ⟨n, rfl⟩ : ∃ m, n = m + 1 := ⟨n - 1, by omega⟩
    rfl
  | succ levels ih =>
    obtain ⟨fuel, rfl⟩ : ∃ f, fuel = f + 2 := ⟨fuel - 2, by omega⟩
    obtain ⟨n, rfl⟩ : ∃ m, n = m + 2 := ⟨n - 2, by omega⟩
    have hinner : scanValue (τ := τ) fuel levels (List.replicate (n + 1) (.char '[')) =
        .error (.nesting .array) := ih (by omega) (by omega)
    rw [List.replicate_succ] at hinner ⊢
    rw [List.replicate_succ, scanValue_items (by decide) (by decide), scanItems, hinner]
    rfl

/-- Brackets that open more arrays than there are levels are refused as nested too deep, though none is
ever closed. -/
theorem decode_brackets {depth : Depth} {n : Nat} (h : depth.levels < n) :
    decode (τ := τ) depth (List.replicate n (.char '[')) = .error (.nesting .array) := by
  obtain ⟨m, rfl⟩ : ∃ m, n = m + 1 := ⟨n - 1, by omega⟩
  have hscan : scanValue (τ := τ) (2 * (m + 1) + 2) depth.levels (List.replicate (m + 1) (.char '[')) =
      .error (.nesting .array) := scanValue_brackets h (by omega)
  have hplain : ¬ (List.replicate (m + 1) (CodePoint.char '[')).head? = some (.char '\uFEFF') := by
    rw [List.replicate_succ]
    exact fun h => absurd (Option.some.inj h) (by decide)
  rw [decode, parsePoints, if_neg hplain, List.length_replicate, skipSpace_brackets, hscan]
  rfl

private theorem scanValue_unclosed (fuel levels n : Nat) :
    ∃ r, scanValue (τ := τ) fuel levels (List.replicate n (.char '[')) = .error r := by
  induction n generalizing fuel levels with
  | zero => cases fuel <;> exact ⟨_, rfl⟩
  | succ n ih =>
    cases fuel with
    | zero => exact ⟨_, rfl⟩
    | succ fuel =>
      cases levels with
      | zero => exact ⟨_, rfl⟩
      | succ levels =>
        cases fuel with
        | zero => cases n <;> exact ⟨_, rfl⟩
        | succ fuel =>
          obtain ⟨r, hinner⟩ := ih fuel levels
          refine ⟨r, ?_⟩
          cases n with
          | zero =>
            cases fuel <;> cases hinner <;> rfl
          | succ n =>
            rw [List.replicate_succ] at hinner ⊢
            rw [List.replicate_succ, scanValue_items (by decide) (by decide), scanItems, hinner]
            rfl

/-- Brackets that open arrays and are never closed are no JSON, however many levels there may be. -/
theorem decode_unclosed (depth : Depth) (n : Nat) :
    ∃ e, decode (τ := τ) depth (List.replicate n (.char '[')) = .error e := by
  obtain ⟨r, hscan⟩ := scanValue_unclosed (τ := τ) (2 * n + 2) depth.levels n
  rw [decode, parsePoints]
  split
  · exact ⟨_, rfl⟩
  · rw [List.length_replicate, skipSpace_brackets, hscan]
    exact ⟨_, rfl⟩

end

end CostCatalog.Json
