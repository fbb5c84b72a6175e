import CostCatalog.Log.Line
import CostCatalog.Proofs.Json.Controls
import CostCatalog.Proofs.Json.Values
import Mathlib.Data.List.Nodup

/-!
# Log lines tell what they were made from

Whatever a message, a name or an extra field holds, its line is one line and is read back as the
object that was written (`line_tells_content`). The members of a line have different names,
`names_members`, which is what lets it be read back; and what is written under a name is told by
that name, `mem_members_iff`, which is what keeps one part of a record from passing for another.
-/

namespace CostCatalog

namespace Json

private theorem membersWellNamed_iff {τ : Type} {ms : List (τ × Json τ)} :
    MembersWellNamed ms ↔ ∀ m ∈ ms, m.2.WellNamed := by
  induction ms with
  | nil => exact iff_of_true trivial fun _ h => by cases h
  | cons m ms ih => rw [MembersWellNamed, ih, List.forall_mem_cons]

end Json

namespace LogContent

variable {τ : Type} {c d : LogContent τ} {now : Timestamp} {name : String} {v : Json τ}

/-! ## Extra fields -/

private theorem extra?_eq_some_iff :
    c.extra? name = some v ↔ c.extras.lookup name = some v ∧ v ≠ .null := by
  unfold extra?
  split
  · next h => simp [h]
  · next h => simp [h, eq_comm]
  · next w hw h =>
    rw [h]
    constructor
    · rintro ⟨⟩
      exact ⟨rfl, hw⟩
    · exact fun h => h.1

private theorem mem_shownExtras_iff :
    (name, v) ∈ c.shownExtras ↔ name ∈ extraFields ∧ c.extra? name = some v := by
  simp only [shownExtras, List.mem_filterMap, Option.map_eq_some_iff, Prod.mk.injEq]
  constructor
  · rintro ⟨_, hname, _, hv, rfl, rfl⟩
    exact ⟨hname, hv⟩
  · rintro ⟨hname, hv⟩
    exact ⟨name, hname, v, hv, rfl, rfl⟩

/-- The names that are shown stand in their order. -/
private theorem names_shownExtras (c : LogContent τ) :
    (c.shownExtras.map (·.1)).Sublist extraFields := by
  have hnames (names : List String) :
      ((names.filterMap fun name => (c.extra? name).map fun v => (name, v)).map (·.1)).Sublist
        names := by
    induction names with
    | nil => exact List.Sublist.slnil
    | cons name names ih =>
      rw [List.filterMap_cons]
      cases c.extra? name with
      | none => exact ih.cons name
      | some v => exact ih.cons_cons name
  exact hnames extraFields

/-! ## Members -/

/-- The names that the members of a line can have. -/
def fieldNames : List String :=
  ["timestamp", "level", "logger", "message"] ++ extraFields ++ ["exception"]

variable [Textual τ]

/-- A line has each of its members once. -/
private theorem names_members (c : LogContent τ) (now : Timestamp) :
    ((c.members now).map (·.1)).Nodup := by
  have hexception :
      ((c.exception.map fun text => ("exception", Json.str text)).toList.map (·.1)).Sublist
        ["exception"] := by
    cases c.exception with
    | none => exact List.nil_sublist _
    | some text => exact List.Sublist.refl _
  have hsublist : ((c.members now).map (·.1)).Sublist fieldNames := by
    rw [members, List.map_append, List.map_append]
    exact ((List.Sublist.refl _).append c.names_shownExtras).append hexception
  exact hsublist.nodup (by decide)

/-- What stands in a line under a name, by that name. -/
theorem mem_members_iff : (name, v) ∈ c.members now ↔
    name = "timestamp" ∧ v = .str (Textual.ofString now.toIso) ∨
      name = "level" ∧ v = .str c.level ∨
      name = "logger" ∧ v = .str c.logger ∨ name = "message" ∧ v = .str c.message ∨
      (name ∈ extraFields ∧ c.extra? name = some v) ∨
      ∃ text, c.exception = some text ∧ name = "exception" ∧ v = .str text := by
  simp only [members, List.mem_append, List.mem_cons, List.not_mem_nil, or_false, Prod.mk.injEq,
    Option.mem_toList, Option.map_eq_some_iff, mem_shownExtras_iff, or_assoc, eq_comm (b := name),
    eq_comm (b := v)]

private theorem mem_members_extra (hname : name ∈ extraFields) (now : Timestamp) :
    (name, v) ∈ c.members now ↔ c.extra? name = some v := by
  have hother : ∀ n ∈ extraFields, n ≠ "timestamp" ∧ n ≠ "level" ∧ n ≠ "logger" ∧ n ≠ "message" ∧
      n ≠ "exception" := by decide
  obtain ⟨h₁, h₂, h₃, h₄, h₅⟩ := hother name hname
  simp only [mem_members_iff, h₁, h₂, h₃, h₄, h₅, hname, false_and, true_and, false_or, and_false,
    exists_false, or_false]

private theorem mem_members_exception {text : τ} (now : Timestamp) :
    ("exception", .str text) ∈ c.members now ↔ c.exception = some text := by
  have hother : "exception" ∉ extraFields := by decide
  simp [mem_members_iff, hother]

/-- All values in a line have a property that texts have if the extra fields that are shown have
it. -/
private theorem forall_mem_members_iff {P : Json τ → Prop} (htext : ∀ s, P (.str s))
    (c : LogContent τ) (now : Timestamp) :
    (∀ m ∈ c.members now, P m.2) ↔
      ∀ name ∈ extraFields, ∀ v, c.extra? name = some v → P v := by
  constructor
  · intro h name hname v hv
    exact h (name, v) ((mem_members_extra hname now).mpr hv)
  · rintro h ⟨name, v⟩ hm
    rcases mem_members_iff.mp hm with
      ⟨-, rfl⟩ | ⟨-, rfl⟩ | ⟨-, rfl⟩ | ⟨-, rfl⟩ | ⟨hname, hextra⟩ | ⟨text, -, -, rfl⟩
    · exact htext _
    · exact htext _
    · exact htext _
    · exact htext _
    · exact h name hname v hextra
    · exact htext text

private theorem wellNamed_toJson (hc : ∀ m ∈ c.extras, m.2.WellNamed) (now : Timestamp) :
    (c.toJson now).WellNamed := by
  have hnames : ((c.members now).map fun m => (Textual.ofString m.1 : τ)).Nodup := by
    have hinjective : Function.Injective (Textual.ofString (τ := τ)) := fun _ _ =>
      Textual.ofString_injective
    have hnodup := (List.nodup_map_iff hinjective).mpr (c.names_members now)
    rwa [List.map_map] at hnodup
  have hvalues : ∀ m ∈ c.members now, m.2.WellNamed := by
    refine (forall_mem_members_iff (P := Json.WellNamed) (fun _ => trivial) c now).mpr ?_
    intro name _ v hv
    obtain ⟨before, after, hextras, -⟩ := List.lookup_eq_some_iff.mp (extra?_eq_some_iff.mp hv).1
    exact hc (name, v) (hextras ▸ List.mem_append_right before (List.mem_cons_self ..))
  rw [toJson, Json.ofFields, Json.WellNamed, List.map_map, Json.membersWellNamed_iff,
    List.forall_mem_map]
  exact ⟨hnames, hvalues⟩

/-- A line can be written when the values of its extra fields can, one level further in. -/
private theorem isWritable_toJson (c : LogContent τ) (now : Timestamp) (depth : Json.Depth) :
    (c.toJson now).isWritable depth = true ↔
      ∀ name ∈ extraFields, ∀ v, c.extra? name = some v →
        v.obstacle? (depth.levels - 1) = none := by
  have hlevels : depth.levels = depth.levels - 1 + 1 := by
    have := depth.enough
    omega
  rw [Json.isWritable, Option.isNone_iff_eq_none, toJson, Json.ofFields, hlevels, Json.obstacle?,
    Json.membersObstacle?_eq_none_iff, List.forall_mem_map]
  exact forall_mem_members_iff (P := fun v => v.obstacle? (depth.levels - 1) = none)
    (fun _ => rfl) c now

/-! ## Contents -/

/-- Two contents say the same: all that a line shows of them is the same. -/
structure Agree (c d : LogContent τ) : Prop where
  level : c.level = d.level
  logger : c.logger = d.logger
  message : c.message = d.message
  extra? : ∀ name ∈ extraFields, c.extra? name = d.extra? name
  exception : c.exception = d.exception

/-- Contents with the same members say the same. -/
private theorem agree_of_members_eq (h : c.members now = d.members now) : c.Agree d := by
  have hfixed := h
  simp only [members, List.cons_append, List.cons.injEq, Prod.mk.injEq, Json.str.injEq,
    true_and] at hfixed
  obtain ⟨hlevel, hlogger, hmessage, -⟩ := hfixed
  refine ⟨hlevel, hlogger, hmessage, fun name hname => Option.ext fun v => ?_,
    Option.ext fun text => ?_⟩
  · rw [← mem_members_extra hname now, h, mem_members_extra hname now]
  · rw [← mem_members_exception now, h, mem_members_exception now]

private theorem members_eq_of_agree (h : c.Agree d) (now : Timestamp) :
    c.members now = d.members now := by
  have hshown : c.shownExtras = d.shownExtras :=
    List.filterMap_congr fun name hname => by rw [h.extra? name hname]
  rw [members, members, h.level, h.logger, h.message, h.exception, hshown]

/-- Contents with the same object have the same members, since no two names are spelled alike. -/
private theorem members_eq_of_toJson_eq (h : c.toJson now = d.toJson now) :
    c.members now = d.members now := by
  refine (List.map_inj_right fun m n heq => ?_).mp (Json.obj.inj h)
  obtain ⟨hname, hvalue⟩ := Prod.mk.inj heq
  exact Prod.ext (Textual.ofString_injective hname) hvalue

/-! ## Lines -/

variable {depth : Json.Depth}

private theorem line?_eq_some_iff {s : τ} :
    c.line? now depth = some s ↔
      (c.toJson now).isWritable depth = true ∧ (c.toJson now).print = s := by
  rw [line?]
  split
  · next h => simp only [h, Option.some.injEq, true_and]
  · next h => simp only [h, reduceCtorEq, Bool.false_eq_true, false_and]

variable [DecidableEq τ]

/-- A line is read back as its object. -/
private theorem parse_of_line? {s : τ} (hc : ∀ m ∈ c.extras, m.2.WellNamed)
    (h : c.line? now depth = some s) : Json.parse s depth = .ok (c.toJson now) := by
  obtain ⟨hwritable, rfl⟩ := line?_eq_some_iff.mp h
  exact Json.parse_print (wellNamed_toJson hc now) hwritable

/-- At one time the contents that say the same have one line, and no others have it. -/
private theorem line?_eq_iff {s : τ} (hc : ∀ m ∈ c.extras, m.2.WellNamed)
    (hd : ∀ m ∈ d.extras, m.2.WellNamed) (h : c.line? now depth = some s) :
    d.line? now depth = some s ↔ c.Agree d := by
  constructor
  · intro h'
    have hread := parse_of_line? hc h
    rw [parse_of_line? hd h'] at hread
    exact agree_of_members_eq (members_eq_of_toJson_eq (Except.ok.inj hread).symm)
  · intro hagree
    rw [line?, toJson, ← members_eq_of_agree hagree now]
    exact h

/-- Whatever its texts and extra fields hold, a content has a line if and only if what is shown of
the extra fields can be written. That line is one line; it is read back as time, level, speaker and
message, the extra fields that have a value in their order, and the exception; and no content that
says anything else has the same line at the same time. -/
theorem line_tells_content (now : Timestamp) (depth : Json.Depth) {c : LogContent τ}
    (hc : ∀ m ∈ c.extras, m.2.WellNamed) :
    ((c.line? now depth).isSome ↔ ∀ name ∈ extraFields, ∀ v, c.extra? name = some v →
        v.obstacle? (depth.levels - 1) = none) ∧
      (c.shownExtras.map (·.1)).Sublist extraFields ∧
      (∀ name v, (name, v) ∈ c.shownExtras ↔
        name ∈ extraFields ∧ c.extras.lookup name = some v ∧ v ≠ .null) ∧
      ∀ s, c.line? now depth = some s →
        .char '\n' ∉ Textual.points s ∧ .char '\r' ∉ Textual.points s ∧
        Json.parse s depth = .ok (.ofFields ([("timestamp", .str (Textual.ofString now.toIso)),
          ("level", .str c.level), ("logger", .str c.logger), ("message", .str c.message)] ++
          c.shownExtras ++ (c.exception.map fun text => ("exception", Json.str text)).toList)) ∧
        ∀ d : LogContent τ, (∀ m ∈ d.extras, m.2.WellNamed) →
          (d.line? now depth = some s ↔ c.Agree d) := by
  refine ⟨?_, c.names_shownExtras, fun name v => ?_, fun s hs => ?_⟩
  · rw [← isWritable_toJson c now]
    simp only [Option.isSome_iff_exists, line?_eq_some_iff, exists_and_left, exists_eq', and_true]
  · rw [mem_shownExtras_iff, extra?_eq_some_iff]
  · have hplain : ∀ p ∈ Textual.points s, 32 ≤ p.toNat := by
      rw [← (line?_eq_some_iff.mp hs).2, Json.points_print]
      exact Json.spell_noControl (c.toJson now)
    have hcontrol {p : CodePoint} (h : p.toNat < 32) : p ∉ Textual.points s := fun hmem =>
      Nat.not_le.mpr h (hplain p hmem)
    exact ⟨hcontrol (by decide), hcontrol (by decide), parse_of_line? hc hs,
      fun d hd => line?_eq_iff hc hd hs⟩

/-- A content whose texts hold line breaks, quotes, what looks like the rest of a line, and the two
halves of a surrogate pair as two code points. -/
def hostile : LogContent CodeText where
  level := Textual.ofString "INFO"
  logger := Textual.ofString "costing_master.main"
  message := Textual.ofString "done\n\"\x7d\r\x7b\"level\": \"CRITICAL\", \"message\": \"\\"
  extras := [("client", .str (Textual.ofString "\", \"exception\": \"x")),
    ("user", .str (Textual.ofString "root")), ("entity", .null),
    ("code", .obj [(Textual.ofString "a\nb", .arr [.null, .int 7, .str [.half 0x3D, .half 0x600]])])]
  exception := some (Textual.ofString "KeyError: 'x'\r\n")

/-- The line of that content is one line, and says what the content says. -/
theorem line_tells_content_hostile :
    (∀ m ∈ hostile.extras, m.2.WellNamed) ∧ ∃ s, hostile.line? .epoch = some s ∧
      .char '\n' ∉ s ∧ .char '\r' ∉ s ∧
      Json.parse s = .ok (.ofFields [("timestamp", .str (Textual.ofString "0001-01-01T00:00:00+00:00")),
        ("level", .str hostile.level), ("logger", .str hostile.logger),
        ("message", .str hostile.message),
        ("code", .obj [(Textual.ofString "a\nb",
          .arr [.null, .int 7, .str [.half 0x3D, .half 0x600]])]),
        ("client", .str (Textual.ofString "\", \"exception\": \"x")),
        ("exception", .str (Textual.ofString "KeyError: 'x'\r\n"))]) := by
  have hnamed : ∀ m ∈ hostile.extras, m.2.WellNamed := by
    simp [hostile, Json.WellNamed, Json.ItemsWellNamed, Json.MembersWellNamed]
  obtain ⟨s, hs⟩ : ∃ s, hostile.line? .epoch = some s := Option.isSome_iff_exists.mp (by decide +kernel)
  obtain ⟨-, -, -, hline⟩ := line_tells_content .epoch {} hnamed
  obtain ⟨hbreak, hreturn, hread, -⟩ := hline s hs
  have htime : Timestamp.epoch.toIso = "0001-01-01T00:00:00+00:00" := by decide +kernel
  rw [htime] at hread
  exact ⟨hnamed, s, hs, hbreak, hreturn, hread⟩

/-- A content with one extra field, a number. -/
def timed (v : Json) : LogContent where
  level := "INFO"
  logger := "costing_master.main"
  message := "done"
  extras := [("duration_ms", v)]

/-- An integer of one digit too many leaves a content without a line. A number beyond every double
does not, but what stands for it in the line is a name that no number of JSON is written with. -/
theorem no_line_of_long_integer :
    (timed (.int (10 ^ Decimal.maxDigits))).line? .epoch = none ∧
      (timed (.float (Binary64.ofRank false Binary64.infinityRank))).line? .epoch =
        some ("\x7b\"timestamp\": \"0001-01-01T00:00:00+00:00\", \"level\": \"INFO\", " ++
          "\"logger\": \"costing_master.main\", \"message\": \"done\", " ++
          "\"duration_ms\": Infinity\x7d") := by
  refine ⟨Option.eq_none_iff_forall_ne_some.mpr fun s hs => ?_, by decide +kernel⟩
  have hwritable := (isWritable_toJson _ _ _).mp (line?_eq_some_iff.mp hs).1
  have hobstacle := hwritable "duration_ms" (by decide) (.int (10 ^ Decimal.maxDigits)) rfl
  rw [Json.obstacle?, if_neg (mt Decimal.isShort_pow_iff.mp (Nat.lt_irrefl _))] at hobstacle
  cases hobstacle

end LogContent

end CostCatalog
