/-
# ChapterCheck.Proofs.Shown -- what the messages of a chapter show of it

A message is made of fixed words and numbers, of the path, and of a value of the chapter where one
is shown. Paths are one line, and so is every shown value but a string, which is shown as it is. So
a message is one line unless it ends with a string of the chapter, and then the path leads to that
string, under one of the four keys of `shownKeys` (`Chapter.oneLine_or_shown`). Where a message says
what it shows and the path leads to a string, this is what it ends with
(`Chapter.message_of_shows`).

`Finding.Shows` says of a finding that the value it shows is what stands at its place. All that a
look finds is so, and the walk carries it down.
-/
import ChapterCheck.Proofs.Names
import ChapterCheck.Proofs.OneLine
import ChapterCheck.Proofs.Plain

namespace ChapterCheck

open Json Text Survey Grammar

/-! ## What is shown -/

/-- The keys under which values are shown. -/
def shownKeys : List String := ["type", "listType", "tone", "engine"]

/-- The value that a defect shows, which may be one that is absent; most defects show none. -/
def Defect.shown? : Defect → Option (Option Value)
  | .invalid value => some value
  | .unsupported value => some value
  | _ => none

/-- The words after which a message shows a value. -/
def showingWords : List String := ["is invalid: ", "is not supported: "]

/-- **`Finding.Shows`** -- a finding at a node shows what stands at its place, under one of the
keys. -/
def Finding.Shows (w : Value) : Finding → Prop
  | .defect place what => ∀ value, what.shown? = some value → w.resolve? place = value
    ∧ ∃ inner, ∃ key ∈ shownKeys, place = inner ++ [.field key]
  | .block place b => w.resolve? place = some b

section Combinators

variable {w u : Value} {owner : Members} {key : String} {what : Defect} {check : Value → Survey}

theorem Finding.Shows.under {inner : Path} {f : Finding} (h : f.Shows u)
    (hinner : w.resolve? inner = some u) : (f.under inner).Shows w := by
  have hresolve (place : Path) : w.resolve? (inner ++ place) = u.resolve? place := by
    rw [Value.resolve?_append, hinner, Option.bind_some]
  cases f with
  | defect place what =>
    intro shown hshown
    obtain ⟨hplace, above, key, hkey, rfl⟩ := h shown hshown
    exact ⟨(hresolve _).trans hplace, inner ++ above, key, hkey, (List.append_assoc ..).symm⟩
  | block place b => exact (hresolve place).trans h

theorem shows_under {inner : Path} {s : Survey} (h : All (Finding.Shows u) s)
    (hinner : w.resolve? inner = some u) : All (Finding.Shows w) (under inner s) := by
  intro f hf
  obtain ⟨g, hg, rfl⟩ := mem_under.mp hf
  exact (h g hg).under hinner

/-- What shows nothing is no matter. -/
theorem Finding.shows_of_none {place : Path} (h : what.shown? = none) :
    (Finding.defect place what).Shows w := by
  intro shown hshown
  rw [h] at hshown
  cases hshown

theorem shows_here (h : what.shown? = none) : All (Finding.Shows w) (here what) :=
  List.forall_mem_singleton.mpr (Finding.shows_of_none h)

theorem shows_atField (h : what.shown? = none) : All (Finding.Shows w) (atField key what) :=
  List.forall_mem_singleton.mpr (Finding.shows_of_none h)

/-- The value of a field is shown at the field. -/
theorem shows_value (hkey : key ∈ shownKeys) (h : what.shown? = some (owner.get? key)) :
    All (Finding.Shows (.object owner)) (atField key what) := by
  refine List.forall_mem_singleton.mpr fun value hvalue => ⟨?_, [], key, hkey, rfl⟩
  obtain rfl : owner.get? key = value := Option.some.inj (h.symm.trans hvalue)
  show (owner.get? key).bind (Value.resolve? · []) = owner.get? key
  cases owner.get? key <;> rfl

theorem shows_require (owner : Members) (key : String) :
    All (Finding.Shows w) (require owner key) := by
  rw [require]
  split
  · exact all_nil
  · exact shows_atField rfl

theorem shows_word (α : Type) [Tagged α] (hkey : key ∈ shownKeys) :
    All (Finding.Shows (.object owner)) (word α owner key) := by
  rw [word]
  split
  · exact all_nil
  · exact shows_value hkey rfl

theorem shows_object {check : Members → Survey}
    (h : ∀ members, w = .object members → All (Finding.Shows (.object members)) (check members)) :
    All (Finding.Shows w) (object w check) := by
  rcases object_cases w check with ⟨members, rfl, heq⟩ | ⟨-, heq⟩
  · rw [heq]
    exact h members rfl
  · rw [heq]
    exact shows_here rfl

theorem shows_elements {items : List Value} (hget : owner.get? key = some (.array items))
    (h : ∀ u, All (Finding.Shows u) (check u)) :
    All (Finding.Shows (.object owner)) (under [.field key] (each check items)) := by
  intro f hf
  obtain ⟨i, u, hu, g, hg, rfl⟩ := mem_under_each.mp hf
  refine (h u g hg).under ?_
  rw [← elements_getElem?, elements_of_field? (v := .object owner) hget]
  exact hu

theorem shows_filled (h : ∀ u, All (Finding.Shows u) (check u)) :
    All (Finding.Shows (.object owner)) (filled owner key check) := by
  rcases filled_cases owner key check with ⟨items, hget, -, heq⟩ | ⟨-, heq⟩
  · rw [heq]
    exact shows_elements hget h
  · rw [heq]
    exact shows_atField rfl

theorem shows_block (b : Value) : All (Finding.Shows b) (Survey.block b) :=
  List.forall_mem_singleton.mpr rfl

end Combinators

/-! ## Runs and blocks -/

namespace Run

theorem shows_markSurvey (v : Value) : All (Finding.Shows v) (markSurvey v) := by
  refine shows_object fun mark _ => ?_
  split
  · exact all_nil
  · exact shows_value (by decide) rfl

theorem shows_survey (v : Value) : All (Finding.Shows v) (survey v) := by
  refine shows_object fun run _ => all_append.mpr ⟨shows_require run "text", ?_⟩
  unfold marksSurvey
  split
  · exact all_nil
  · exact all_nil
  · rename_i marks hget
    exact shows_elements hget shows_markSurvey
  · exact shows_atField rfl

theorem shows_markRestriction (v : Value) :
    All (Finding.Shows v) (markRestriction quotedMarks v) := by
  unfold markRestriction
  split
  · split
    · exact all_nil
    · exact shows_atField rfl
  · exact all_nil

theorem shows_quotedSurvey (v : Value) : All (Finding.Shows v) (quotedSurvey v) := by
  refine all_append.mpr ⟨shows_survey v, ?_⟩
  cases v with
  | object run =>
    have hfield : (Value.object run).field? "marks" = Members.get? run "marks" := rfl
    rw [restriction, hfield]
    split
    · rename_i marks hget
      exact shows_elements hget shows_markRestriction
    · exact all_nil
  | _ => exact all_nil

end Run

namespace Block

variable {block : Members}

theorem shows_integer (key : String) : All (Finding.Shows (.object block)) (integer block key) := by
  unfold integer
  split
  · exact all_nil
  · exact shows_atField rfl
  · exact shows_atField rfl

theorem shows_keyFigure (v : Value) : All (Finding.Shows v) (keyFigure v) := by
  refine shows_object fun item _ => ?_
  split
  · exact all_nil
  · exact shows_here rfl

theorem shows_engineSurvey : All (Finding.Shows (.object block)) (engineSurvey block) := by
  unfold engineSurvey
  split
  · exact all_nil
  · exact shows_value (by decide) rfl

theorem shows_titleSurvey (engine : Option Engine) (title : Option Value) :
    All (Finding.Shows (.object block)) (titleSurvey engine title) := by
  unfold titleSurvey
  split
  · exact shows_atField rfl
  · exact shows_atField rfl
  · split
    · split
      · exact all_nil
      · exact shows_atField rfl
    · exact all_nil
  · exact shows_atField rfl

theorem shows_quotedParagraph (v : Value) : All (Finding.Shows v) (quotedParagraph v) := by
  refine shows_object fun block _ => ?_
  split
  · exact shows_filled Run.shows_quotedSurvey
  · exact shows_atField rfl

theorem shows_listItem (v : Value) : All (Finding.Shows v) (listItem v) := by
  unfold listItem
  split
  · rename_i first rest
    intro f hf
    obtain ⟨j, u, hu, g, hg, rfl⟩ := mem_each.mp hf
    refine (shows_block u g hg).under ?_
    rw [← asArray?_getElem?]
    exact hu
  · exact shows_here rfl

theorem shows_tableCell (v : Value) : All (Finding.Shows v) (tableCell v) :=
  shows_object fun _ _ => shows_filled shows_block

theorem shows_tableRow (v : Value) : All (Finding.Shows v) (tableRow v) := by
  cases v with
  | object row => exact shows_filled shows_tableCell
  | _ => exact shows_atField rfl

theorem shows_contract (kind : BlockKind) :
    All (Finding.Shows (.object block)) (contract block kind) := by
  cases kind with
  | heading =>
    refine all_append.mpr ⟨all_append.mpr ⟨shows_integer "level", ?_⟩, ?_⟩
    · exact shows_require block "text"
    · exact shows_require block "anchor"
  | paragraph => exact shows_filled Run.shows_survey
  | list =>
    exact all_append.mpr ⟨shows_word ListStyle (by decide), shows_filled shows_listItem⟩
  | table => exact shows_filled shows_tableRow
  | blockquote => exact shows_filled shows_block
  | engineQuote =>
    refine all_append.mpr ⟨all_append.mpr ⟨shows_engineSurvey, ?_⟩, ?_⟩
    · exact shows_titleSurvey _ _
    · exact shows_filled shows_quotedParagraph
  | callout => exact all_append.mpr ⟨shows_word Tone (by decide), shows_filled shows_block⟩
  | kpiGrid => exact shows_filled shows_keyFigure
  | widget =>
    refine all_append.mpr ⟨all_append.mpr ⟨shows_require block "widgetId", ?_⟩, ?_⟩
    · exact shows_require block "widgetType"
    · split
      · exact all_nil
      · exact shows_here rfl
  | code => exact shows_require block "content"
  | math => exact shows_require block "latex"
  | figure =>
    rw [contract]
    split
    · rename_i img himg
      refine shows_under (u := .object img) (shows_require img "src") ?_
      show (block.get? "img").bind (Value.resolve? · []) = some (.object img)
      rw [himg]
      rfl
    · exact shows_atField rfl

/-- **`shows_survey`** -- a look at a block shows what it finds where it finds it. -/
theorem shows_survey (v : Value) : All (Finding.Shows v) (survey v) := by
  refine shows_object fun block _ => ?_
  split
  · exact shows_contract _
  · exact shows_value (by decide) rfl

end Block

/-! ## Chapters -/

/-- **`Shown`** -- a diagnostic of a chapter shows what its path leads to, under one of the keys. -/
def Diagnostic.Shown (v : Value) (d : Diagnostic) : Prop :=
  ∃ what : Defect, d = what.diagnostic d.path ∧ (Finding.defect d.path what).Shows v

theorem Chapter.shows_survey (v : Value) : All (Finding.Shows v) (survey v) := by
  cases v with
  | object chapter =>
    refine all_append.mpr ⟨?_, ?_⟩
    · intro f hf
      obtain ⟨g, hg, rfl⟩ := mem_under.mp hf
      obtain ⟨key, -, hg⟩ := List.mem_flatMap.mp hg
      split at hg
      · cases hg
      · obtain rfl := mem_atField.mp hg
        exact Finding.shows_of_none rfl
    · rcases blocksSurvey_cases chapter with ⟨items, hget, -, heq⟩ | ⟨-, heq⟩
      · rw [heq]
        exact shows_elements hget shows_block
      · rw [heq]
        exact List.forall_mem_singleton.mpr (Finding.shows_of_none rfl)
  | _ => exact List.forall_mem_singleton.mpr (Finding.shows_of_none rfl)

/-- The walk carries down what is shown: all that is told of a finding shows what its path leads
to. -/
theorem Finding.shown_of_mem_diagnose {limit room : Nat} {v w : Value} {base : Path} {f : Finding}
    (hbase : v.resolve? base = some w) (hf : f.Shows w) :
    ∀ d ∈ f.diagnose limit room base, d.Shown v := by
  have hunder : (f.under base).Shows v := hf.under hbase
  induction room generalizing base w f with
  | zero =>
    cases f with
    | defect place what =>
      rw [diagnose_defect]
      exact List.forall_mem_singleton.mpr ⟨what, rfl, hunder⟩
    | block place b =>
      rw [diagnose_block_zero]
      exact List.forall_mem_singleton.mpr ⟨.tooDeep limit, rfl, shows_of_none rfl⟩
  | succ room ih =>
    cases f with
    | defect place what =>
      rw [diagnose_defect]
      exact List.forall_mem_singleton.mpr ⟨what, rfl, hunder⟩
    | block place b =>
      -- The block stands where it was found, and a look at it shows what it finds.
      intro d hd
      rw [diagnose_block_succ] at hd
      obtain ⟨g, hg, hd⟩ := List.mem_flatMap.mp hd
      have hg := Block.shows_survey b g hg
      exact ih hunder hg (hg.under hunder) d hd

theorem Chapter.shown_of_mem_diagnostics {limit : Nat} {v : Value} :
    ∀ d ∈ diagnostics limit v, d.Shown v := by
  intro d hd
  obtain ⟨f, hf, hd⟩ := List.mem_flatMap.mp hd
  exact f.shown_of_mem_diagnose rfl (shows_survey v f hf) d hd

/-! ## Messages -/

theorem oneLine_tag_markKind (kind : MarkKind) : OneLine (Tagged.tag kind) := by
  cases kind <;> decide

/-- What a message says behind its path is one line, or it is fixed words and a string. -/
theorem Defect.clause_cases (what : Defect) :
    OneLine what.clause ∨ ∃ s lead, what.shown? = some (some (.string s)) ∧ OneLine lead
      ∧ what.clause = lead ++ s := by
  have shown_cases (value : Option Value) :
      OneLine (shown value) ∨ ∃ s, value = some (.string s) ∧ shown value = s := by
    rcases value with _ | value
    · exact .inl (by decide)
    · cases value with
      | string s => exact .inr ⟨s, rfl, rfl⟩
      | _ => exact .inl (Value.oneLine_compact _)
  cases what with
  | headerAbsent => exact .inl (by decide)
  | absent => exact .inl (by decide)
  | shape demanded => cases demanded <;> exact .inl (by decide)
  | notInteger present =>
    have hclause : OneLine "must be an integer" := by decide
    exact .inl hclause
  | invalid value =>
    have hlead : OneLine "is invalid: " := by decide
    rcases shown_cases value with h | ⟨s, hvalue, heq⟩
    · exact .inl (oneLine_append.mpr ⟨hlead, h⟩)
    · exact .inr ⟨s, _, congrArg some hvalue, hlead, congrArg ("is invalid: " ++ ·) heq⟩
  | unsupported value =>
    have hlead : OneLine "is not supported: " := by decide
    rcases shown_cases value with h | ⟨s, hvalue, heq⟩
    · exact .inl (oneLine_append.mpr ⟨hlead, h⟩)
    · exact .inr ⟨s, _, congrArg some hvalue, hlead, congrArg ("is not supported: " ++ ·) heq⟩
  | markNotAllowed allowed =>
    have htags : OneLine ("/".intercalate (allowed.map Tagged.tag)) := by
      refine oneLine_intercalate (by decide) fun part hpart => ?_
      obtain ⟨kind, -, rfl⟩ := List.mem_map.mp hpart
      exact oneLine_tag_markKind kind
    have honly : OneLine "only " := by decide
    have hallowed : OneLine " are allowed" := by decide
    exact .inl (oneLine_append.mpr ⟨oneLine_append.mpr ⟨honly, htags⟩, hallowed⟩)
  | blockNotAllowed allowed => cases allowed <;> exact .inl (by decide)
  | titleMismatch engine => cases engine <;> exact .inl (by decide)
  | figureIncomplete => exact .inl (by decide)
  | dataAbsent => exact .inl (by decide)
  | tooDeep limit => exact .inl (oneLine_append.mpr ⟨by decide, oneLine_repr limit⟩)

/-- Told at a place whose written form is one line, the same is so of the whole message. -/
theorem Defect.message_cases (what : Defect) {place : Path} (hplace : place.OneLine) :
    OneLine (what.message place) ∨ ∃ s lead, what.shown? = some (some (.string s)) ∧ OneLine lead
      ∧ what.message place = lead ++ s := by
  have hrender := Path.oneLine_render hplace
  have hlead : OneLine (place.render ++ " ") := oneLine_append.mpr ⟨hrender, by decide⟩
  by_cases hheader : what = .headerAbsent
  · subst hheader
    exact .inl (oneLine_append.mpr ⟨by decide, hrender⟩)
  · rw [what.message_eq hheader]
    rcases what.clause_cases with h | ⟨s, lead, hshown, hclause, heq⟩
    · exact .inl (oneLine_append.mpr ⟨hlead, h⟩)
    · refine .inr ⟨s, place.render ++ " " ++ lead, hshown, oneLine_append.mpr ⟨hlead, hclause⟩, ?_⟩
      rw [heq, ← String.append_assoc]

theorem take_toList_append {lead : String} (h : 4 ≤ lead.toList.length) (rest : String) :
    (lead ++ rest).toList.take 4 = lead.toList.take 4 := by
  rw [String.toList_append, List.take_append_of_le_length h]

/-- A text with other letters in front does not go on behind those words. -/
theorem append_ne_of_showing {words lead : String} (hwords : words ∈ showingWords)
    (hlead : 4 ≤ lead.toList.length) (hother : lead.toList.take 4 ≠ words.toList.take 4)
    (rest t : String) : lead ++ rest ≠ words ++ t := by
  have hlong : ∀ words ∈ showingWords, 4 ≤ words.toList.length := by decide
  intro h
  have hletters : (lead ++ rest).toList.take 4 = (words ++ t).toList.take 4 := by rw [h]
  rw [take_toList_append hlead, take_toList_append (hlong words hwords)] at hletters
  exact hother hletters

/-- A clause that goes on behind those words shows a value, and goes on with it. -/
theorem Defect.shown_of_clause {what : Defect} {words t : String} (hwords : words ∈ showingWords)
    (h : what.clause = words ++ t) : ∃ value, what.shown? = some value ∧ shown value = t := by
  have hfixed (lead rest : String) (hclause : what.clause = lead ++ rest)
      (hlead : 4 ≤ lead.toList.length)
      (hother : ∀ words ∈ showingWords, lead.toList.take 4 ≠ words.toList.take 4) :
      ∃ value, what.shown? = some value ∧ shown value = t :=
    (append_ne_of_showing hwords hlead (hother words hwords) rest t (hclause ▸ h)).elim
  have hwhole (lead : String) (hclause : what.clause = lead) :=
    hfixed lead "" (hclause.trans String.append_empty.symm)
  cases what with
  | headerAbsent => exact hwhole "is missing" rfl (by decide) (by decide)
  | absent => exact hwhole "is missing" rfl (by decide) (by decide)
  | shape demanded => cases demanded <;> exact hwhole _ rfl (by decide) (by decide)
  | notInteger present => exact hwhole "must be an integer" rfl (by decide) (by decide)
  | invalid value =>
    simp only [showingWords, List.mem_cons, List.not_mem_nil, or_false] at hwords
    rcases hwords with rfl | rfl
    · exact ⟨value, rfl, (String.append_right_inj _).mp h⟩
    · exact (append_ne_of_showing (by decide) (by decide) (by decide) _ _ h).elim
  | unsupported value =>
    simp only [showingWords, List.mem_cons, List.not_mem_nil, or_false] at hwords
    rcases hwords with rfl | rfl
    · exact (append_ne_of_showing (by decide) (by decide) (by decide) _ _ h).elim
    · exact ⟨value, rfl, (String.append_right_inj _).mp h⟩
  | markNotAllowed allowed =>
    exact hfixed "only " _ String.append_assoc (by decide) (by decide)
  | blockNotAllowed allowed =>
    exact hfixed "only " _ String.append_assoc (by decide) (by decide)
  | titleMismatch engine =>
    exact hfixed "must match the engine agent name: " _ rfl (by decide) (by decide)
  | figureIncomplete => exact hwhole "requires label and value" rfl (by decide) (by decide)
  | dataAbsent => exact hwhole "requires data or dataRef" rfl (by decide) (by decide)
  | tooDeep limit =>
    exact hfixed "exceeds maximum nesting depth of " _ rfl (by decide) (by decide)

/-- The path of a diagnostic has a written form of one line. -/
theorem Path.Named.oneLine {path : Path} (h : path.Named) : path.OneLine := by
  have hnames : ∀ name ∈ contractNames, Text.OneLine name := by decide
  exact fun name hname => hnames name (h name hname)

/-- **`oneLine_or_shown`** -- a message of a chapter is one line, or it ends with a string of the
chapter, which is what its path leads to, and nothing in front of that string is a line break. -/
theorem Chapter.oneLine_or_shown {limit : Nat} {v : Value} {d : Diagnostic}
    (hd : d ∈ diagnostics limit v) :
    OneLine d.message ∨ ∃ s lead, v.resolve? d.path = some (.string s)
      ∧ (∃ inner, ∃ key ∈ shownKeys, d.path = inner ++ [.field key])
      ∧ OneLine lead ∧ d.message = lead ++ s := by
  have hplace : d.path.OneLine := (named_of_mem_diagnostics hd).oneLine
  obtain ⟨what, heq, hshows⟩ := shown_of_mem_diagnostics d hd
  have hmessage : d.message = what.message d.path := congrArg Diagnostic.message heq
  rw [hmessage]
  rcases what.message_cases hplace with h | ⟨s, lead, hshown, hlead, htold⟩
  · exact .inl h
  · obtain ⟨hresolve, hkey⟩ := hshows _ hshown
    exact .inr ⟨s, lead, hresolve, hkey, hlead, htold⟩

/-- **`message_of_shows`** -- a message that says of a place with a string what it shows, shows this
string, as it is. -/
theorem Chapter.message_of_shows {limit : Nat} {v : Value} {d : Diagnostic}
    (hd : d ∈ diagnostics limit v) {s : String} (hs : v.resolve? d.path = some (.string s))
    {words t : String} (hwords : words ∈ showingWords)
    (h : d.message = d.path.render ++ " " ++ (words ++ t)) : t = s := by
  obtain ⟨what, heq, hshows⟩ := shown_of_mem_diagnostics d hd
  have hmessage : d.message = what.message d.path := congrArg Diagnostic.message heq
  rw [hmessage] at h
  by_cases hheader : what = .headerAbsent
  · -- A header field is told with a word in front, which is too short.
    subst hheader
    have hlong : ∀ words ∈ showingWords, 8 ≤ words.length := by decide
    have hlength := congrArg String.length h
    have hword : ("missing " : String).length = 8 := by decide
    have hspace : (" " : String).length = 1 := by decide
    have := hlong words hwords
    simp only [Defect.message, String.length_append, hword, hspace] at hlength
    omega
  · rw [what.message_eq hheader] at h
    have hclause : what.clause = words ++ t := (String.append_right_inj _).mp h
    obtain ⟨value, hvalue, rfl⟩ := what.shown_of_clause hwords hclause
    obtain ⟨hresolve, -⟩ := hshows value hvalue
    obtain rfl : some (.string s) = value := hs.symm.trans hresolve
    rfl
end ChapterCheck
